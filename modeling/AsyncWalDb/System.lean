import AsyncWalDb.Checkpoint
import AsyncWalDb.Transaction
import AsyncWalDb.Wal

/-! The tasks of one process over one database: transactions, the flusher, callers of flush,
checkpoints and the shutdown. A task inside a call of the log makes the moves of that call; between
calls it makes its own. Seen from the log, every run is a run of `walProtocol`. -/
namespace AsyncWalDb

open Interleaving

structure System where
  wal : Wal
  path : String
  /-- What the file held when it was opened for appending. -/
  base : Bytes
  ckpt : Option (List Char)
  mem : Memory
  /-- A checkpoint keeps the write lock of the store until its marker is written. -/
  storeLocked : Bool
  shutdown : Bool
  flusherHandle : Bool
  /-- `stop_flusher` keeps the lock of the handle's place while it waits for the flusher. -/
  handleLocked : Bool
  flusherExited : Bool
  /-- Which task applied which operation, in order; no move reads it. -/
  applied : List (Nat × WalEntry)

inductive TxStage where
  | active
  | appending
  | commitAppend
  | commitLogged
  | commitFlush
  | applying (rest : List WalEntry)
  | abortAppend
  | abortLogged
  | abortFlush
  | returned (result : Except WalError Unit)
  | dropped
  deriving DecidableEq

inductive FlusherStage where
  | select
  | draining
  | check
  | final
  | leaving
  | exited
  deriving DecidableEq

inductive CkptStage where
  | start
  | scan (lastCkpt : UInt64)
  | replay (lastCkpt : UInt64) (found : CkptScan)
  | openMarker (id : UInt64)
  | writeMarker (id : UInt64) (written : Nat)
  | returned (result : Outcome UInt64)
  | interrupted

inductive StopStage where
  | signal
  | notify
  | take
  | join
  | returned
  deriving DecidableEq

inductive Prog where
  | transaction (tx : Transaction) (stage : TxStage)
  | flusher (stage : FlusherStage)
  | storeHandle (stored : Bool)
  | stopFlusher (stage : StopStage)
  | flushCaller
  | checkpoint (stage : CkptStage)

structure Task where
  call : Option WalCall
  prog : Prog

/-- What a task may choose; `see` is how much of the file a checkpoint finds when it reads. -/
inductive Move where
  | call (m : CallMove)
  | proceed
  | notified
  | appendOp (op : WalEntry) (now : UInt64)
  | commit (now : UInt64)
  | abort (now : UInt64)
  | discard
  | flush
  | see (n : Nat)
  | interrupt
  deriving DecidableEq

inductive Spawn where
  | transaction
  | flushCaller
  | checkpoint
  | stopFlusher
  deriving DecidableEq

abbrev SystemConfig := Config System Task

abbrev SystemAction := Action Spawn Move

def Piece.bytes (crates : Crates) : Piece → Bytes
  | .header it => (WalEntryHeader.new crates (crates.serialize it.entry)).toBytes
  | .payload it => crates.serialize it.entry

def streamBytes (crates : Crates) (pieces : List Piece) : Bytes :=
  pieces.flatMap (Piece.bytes crates)

/-- Everything written so far; what a reader or a crash finds is a prefix of it. -/
def System.file (crates : Crates) (s : System) : Bytes := s.base ++ streamBytes crates s.wal.stream

def System.flushedBytes (crates : Crates) (s : System) : Nat :=
  s.base.length + (streamBytes crates (s.wal.stream.take s.wal.flushed)).length

def System.syncedBytes (crates : Crates) (s : System) : Nat :=
  s.base.length + (streamBytes crates (s.wal.stream.take s.wal.synced)).length

/-- What a crash may leave: everything synced, and more up to any byte. -/
def System.CrashFile (crates : Crates) (s : System) (bytes : Bytes) : Prop :=
  ∃ n, s.syncedBytes crates ≤ n ∧ bytes = (s.file crates).take n

def Prog.returned (result : Except WalError Unit) : Prog → Prog
  | .transaction tx .appending => .transaction tx .active
  | .transaction tx .commitAppend =>
    match result with
    | .ok () => .transaction tx .commitLogged
    | .error e => .transaction tx (.returned (.error e))
  | .transaction tx .commitFlush =>
    match result with
    | .ok () => .transaction { tx with state := .committed } (.applying tx.entries)
    | .error e => .transaction tx (.returned (.error e))
  | .transaction tx .abortAppend =>
    match result with
    | .ok () => .transaction tx .abortLogged
    | .error e => .transaction tx (.returned (.error e))
  | .transaction tx .abortFlush =>
    match result with
    | .ok () => .transaction { tx with state := .aborted, entries := [] } (.returned (.ok ()))
    | .error e => .transaction tx (.returned (.error e))
  -- the flusher prints an error and goes on
  | .flusher .draining => .flusher .check
  | .flusher .final => .flusher .leaving
  | prog => prog

/-- The future the task was in is dropped: an append leaves the transaction usable. -/
def Prog.dropped : Prog → Prog
  | .transaction tx .appending => .transaction tx .active
  | .transaction tx _ => .transaction tx .dropped
  | .flusher _ => .flusher .exited
  | prog => prog

def callMove (crates : Crates) (i : Nat) (m : CallMove) (s : System) (c : WalCall) (prog : Prog) :
    Option (System × Task) :=
  match m with
  | .run => (c.run crates i s.wal).map fun out =>
    ({ s with wal := out.1 }, ⟨out.2, if out.2.isSome then prog else prog.returned (.ok ())⟩)
  | .fail fault =>
    (c.fail s.wal fault).map fun out =>
      ({ s with wal := out.1 }, ⟨none, prog.returned (.error out.2)⟩)
  | .drop => (c.drop s.wal).map fun w => ({ s with wal := w }, ⟨none, prog.dropped⟩)

def txMove (i : Nat) (m : Move) (s : System) (tx : Transaction) (stage : TxStage) :
    Option (System × Task) :=
  match stage, m with
  | .active, .appendOp op now =>
    match tx.appendOp op now with
    | .error _ => some (s, ⟨none, .transaction tx .active⟩)
    | .ok (tx', e) => some (s, ⟨some (.append e .load), .transaction tx' .appending⟩)
  | .active, .commit now =>
    match tx.commitEntry now with
    | .error e => some (s, ⟨none, .transaction tx (.returned (.error e))⟩)
    | .ok e => some (s, ⟨some (.append e .load), .transaction tx .commitAppend⟩)
  | .active, .abort now =>
    match tx.abortEntry now with
    | .error e => some (s, ⟨none, .transaction tx (.returned (.error e))⟩)
    | .ok e => some (s, ⟨some (.append e .load), .transaction tx .abortAppend⟩)
  | .active, .discard => some (s, ⟨none, .transaction tx .dropped⟩)
  | .commitLogged, .proceed => some (s, ⟨some (startFlush s.wal), .transaction tx .commitFlush⟩)
  | .abortLogged, .proceed => some (s, ⟨some (startFlush s.wal), .transaction tx .abortFlush⟩)
  | .applying [], .proceed => some (s, ⟨none, .transaction tx (.returned (.ok ()))⟩)
  | .applying (op :: rest), .proceed =>
    if s.storeLocked then none
    else match applyToStore s.mem.store op with
    | .error e => some (s, ⟨none, .transaction tx (.returned (.error e))⟩)
    | .ok store =>
      some ({ s with mem := { s.mem with store := store }, applied := s.applied ++ [(i, op)] },
        ⟨none, .transaction tx (.applying rest)⟩)
  | .applying _, .interrupt => some (s, ⟨none, .transaction tx .dropped⟩)
  | _, _ => none

def flusherMove (m : Move) (s : System) (stage : FlusherStage) : Option (System × Task) :=
  let drain : WalCall := .drain .flusher (.pop [])
  match stage, m with
  -- the interval ticks, or the stored permit is taken
  | .select, .proceed => some (s, ⟨some drain, .flusher .draining⟩)
  | .select, .notified =>
    if s.wal.flushNotify then
      some ({ s with wal := { s.wal with flushNotify := false } }, ⟨some drain, .flusher .draining⟩)
    else none
  | .check, .proceed =>
    if s.shutdown then
      some (s, ⟨some drain, .flusher .final⟩)
    else some (s, ⟨none, .flusher .select⟩)
  | .leaving, .proceed => some ({ s with flusherExited := true }, ⟨none, .flusher .exited⟩)
  | _, _ => none

def stopMove (m : Move) (s : System) (stage : StopStage) : Option (System × Task) :=
  match stage, m with
  | .signal, .proceed => some ({ s with shutdown := true }, ⟨none, .stopFlusher .notify⟩)
  | .notify, .proceed =>
    some ({ s with wal := { s.wal with flushNotify := true } }, ⟨none, .stopFlusher .take⟩)
  | .take, .proceed =>
    if s.handleLocked then none
    else if s.flusherHandle then
      some ({ s with flusherHandle := false, handleLocked := true }, ⟨none, .stopFlusher .join⟩)
    else some (s, ⟨none, .stopFlusher .returned⟩)
  -- the guard of the handle's place lives to the end of the `if let`
  | .join, .proceed =>
    if s.flusherExited then
      some ({ s with handleLocked := false }, ⟨none, .stopFlusher .returned⟩)
    else none
  | _, _ => none

def ckptMove (crates : Crates) (m : Move) (s : System) (stage : CkptStage) :
    Option (System × Task) :=
  match stage, m with
  | .start, .proceed =>
    match getLastCheckpoint s.ckpt with
    | .error e => some (s, ⟨none, .checkpoint (.returned (.err e))⟩)
    | .ok lastCkpt =>
      if lastCkpt = 0 ∧ s.path.isEmpty then
        some (s, ⟨none, .checkpoint (.returned (.err .noNewCheckpoints))⟩)
      else some (s, ⟨none, .checkpoint (.scan lastCkpt)⟩)
  | .scan lastCkpt, .see n =>
    if n < s.flushedBytes crates then none
    else match checkpointScan crates lastCkpt ((s.file crates).take n) with
    | .err e => some (s, ⟨none, .checkpoint (.returned (.err e))⟩)
    | .panicked => some (s, ⟨none, .checkpoint (.returned .panicked)⟩)
    | .ok found =>
      if found.committedTxs.isEmpty then
        some (s, ⟨none, .checkpoint (.returned (.err .noNewCheckpoints))⟩)
      else some (s, ⟨none, .checkpoint (.replay lastCkpt found)⟩)
  | .replay lastCkpt found, .proceed =>
    if s.storeLocked then none
    else some ({ s with
        mem := { s.mem with store := checkpointReplay lastCkpt found s.mem.store }
        storeLocked := true },
      ⟨none, .checkpoint (.openMarker (maxCkpt lastCkpt found))⟩)
  | .openMarker id, .proceed =>
    some ({ s with ckpt := openMarker s.ckpt }, ⟨none, .checkpoint (.writeMarker id 0)⟩)
  | .writeMarker id k, .proceed =>
    if k < (decimal id).length then
      some ({ s with ckpt := writeDigits id (k + 1) s.ckpt },
        ⟨none, .checkpoint (.writeMarker id (k + 1))⟩)
    else some ({ s with storeLocked := false }, ⟨none, .checkpoint (.returned (.ok id))⟩)
  -- an await fails or the future is dropped; the guard of the store goes with it
  | .openMarker _, .interrupt | .writeMarker _ _, .interrupt =>
    some ({ s with storeLocked := false }, ⟨none, .checkpoint .interrupted⟩)
  | .start, .interrupt | .scan _, .interrupt | .replay _ _, .interrupt =>
    some (s, ⟨none, .checkpoint .interrupted⟩)
  | _, _ => none

def ownMove (crates : Crates) (i : Nat) (m : Move) (s : System) : Prog → Option (System × Task)
  | .transaction tx stage => txMove i m s tx stage
  | .flusher stage => flusherMove m s stage
  | .storeHandle stored =>
    if m = .proceed ∧ stored = false then
      some ({ s with flusherHandle := true }, ⟨none, .storeHandle true⟩)
    else none
  | .stopFlusher stage => stopMove m s stage
  | .flushCaller => if m = .flush then some (s, ⟨some (startFlush s.wal), .flushCaller⟩) else none
  | .checkpoint stage => ckptMove crates m s stage

def systemProtocol (crates : Crates) : Protocol System Task Spawn Move where
  spawn k s :=
    match k with
    | .transaction =>
      let (tx, nextTxId) := Transaction.new s.mem.nextTxId
      some ({ s with mem := { s.mem with nextTxId := nextTxId } }, ⟨none, .transaction tx .active⟩)
    | .flushCaller => some (s, ⟨none, .flushCaller⟩)
    | .checkpoint => some (s, ⟨none, .checkpoint .start⟩)
    | .stopFlusher => some (s, ⟨none, .stopFlusher .signal⟩)
  move i m s t :=
    match t.call, m with
    | some c, .call k => callMove crates i k s c t.prog
    | some _, _ => none
    | none, .call _ => none
    | none, m => ownMove crates i m s t.prog

/-- `DatabaseConfig::build` on a file with these contents, after a recovery that left `mem`:
the flusher and the task that stores its handle are running. -/
def System.start (maxQueueSize : Nat) (path : String) (base : Bytes) (ckpt : Option (List Char))
    (mem : Memory) : SystemConfig where
  shared :=
    { wal := Wal.new maxQueueSize
      path := path
      base := base
      ckpt := ckpt
      mem := mem
      storeLocked := false
      shutdown := false
      flusherHandle := false
      handleLocked := false
      flusherExited := false
      applied := [] }
  tasks := [⟨none, .flusher .select⟩, ⟨none, .storeHandle false⟩]

theorem start_slot {maxQueueSize : Nat} {path : String} {base : Bytes} {ckpt : Option (List Char)}
    {mem : Memory} {j : Nat}
    {t : Task} (slot : (System.start maxQueueSize path base ckpt mem).tasks[j]? = some t) :
    t = ⟨none, .flusher .select⟩ ∨ t = ⟨none, .storeHandle false⟩ := by
  simpa [System.start] using List.mem_of_getElem? slot

section Inversion

variable {crates : Crates} {i : Nat} {m : Move} {s s' : System} {t' : Task}

def Prog.isControl : Prog → Bool
  | .transaction _ _ | .checkpoint _ => false
  | _ => true

/-- The log as an idle task leaves it: untouched, or one move
of `walProtocol` that starts a call. -/
def LogMove (crates : Crates) (i : Nat) (w w' : Wal) (call : Option WalCall) : Prop :=
  (w' = w ∧ call = none) ∨
    ∃ b, (∀ k, b ≠ .call k) ∧ (walProtocol crates).move i b w none = some (w', call)

/-- Everything a task can do between calls of the log. The control tasks (flusher, shutdown, callers
of flush) touch neither the store nor the marker; a checkpoint has its own inversion. -/
inductive OwnRuns (crates : Crates) (i : Nat) (s : System) : Move → Prog → System →
    Task → Prop where
  | refused {tx op now} : OwnRuns crates i s (.appendOp op now) (.transaction tx .active) s
    ⟨none, .transaction tx .active⟩
  | append {tx op now tx' e} (ok : tx.appendOp op now = .ok (tx', e)) :
    OwnRuns crates i s (.appendOp op now) (.transaction tx .active) s
      ⟨some (.append e .load), .transaction tx' .appending⟩
  | commit {tx now} : OwnRuns crates i s (.commit now) (.transaction tx .active) s
      ⟨some (.append (.commit tx.id now) .load), .transaction tx .commitAppend⟩
  | abort {tx now} : OwnRuns crates i s (.abort now) (.transaction tx .active) s
      ⟨some (.append (.abort tx.id now) .load), .transaction tx .abortAppend⟩
  | notActive {tx m e} (state : tx.state ≠ .active) :
    OwnRuns crates i s m (.transaction tx .active) s
      ⟨none, .transaction tx (.returned (.error e))⟩
  | discard {tx} : OwnRuns crates i s .discard (.transaction tx .active) s
    ⟨none, .transaction tx .dropped⟩
  | commitFlush {tx} : OwnRuns crates i s .proceed (.transaction tx .commitLogged) s
      ⟨some (startFlush s.wal), .transaction tx .commitFlush⟩
  | abortFlush {tx} : OwnRuns crates i s .proceed (.transaction tx .abortLogged) s
      ⟨some (startFlush s.wal), .transaction tx .abortFlush⟩
  | done {tx} : OwnRuns crates i s .proceed (.transaction tx (.applying [])) s
      ⟨none, .transaction tx (.returned (.ok ()))⟩
  | apply {tx op rest store} (unlocked : s.storeLocked = false)
    (ok : applyToStore s.mem.store op = .ok store) :
    OwnRuns crates i s .proceed (.transaction tx (.applying (op :: rest)))
      { s with mem := { s.mem with store := store }, applied := s.applied ++ [(i, op)] }
      ⟨none, .transaction tx (.applying rest)⟩
  | applyFails {tx op rest e} (unlocked : s.storeLocked = false)
    (failed : applyToStore s.mem.store op = .error e) :
    OwnRuns crates i s .proceed (.transaction tx (.applying (op :: rest))) s
      ⟨none, .transaction tx (.returned (.error e))⟩
  | cancel {tx rest} : OwnRuns crates i s .interrupt (.transaction tx (.applying rest)) s
    ⟨none, .transaction tx .dropped⟩
  | control {m prog w call prog' locked} (shutdown handle exited : Bool)
    (before : prog.isControl = true)
    (after : prog'.isControl = true) (log : LogMove crates i s.wal w call)
    (appends : ∀ e pc, call ≠ some (.append e pc)) :
    OwnRuns crates i s m prog
      { s with
        wal := w, shutdown := shutdown, flusherHandle := handle, handleLocked := locked,
          flusherExited := exited }
      ⟨call, prog'⟩
  | ckpt {m stage s' t'} (moved : ckptMove crates m s stage = some (s', t')) :
    OwnRuns crates i s m (.checkpoint stage) s' t'

theorem txMove_runs {tx : Transaction} {stage : TxStage}
    (h : txMove i m s tx stage = some (s', t')) :
    OwnRuns crates i s m (.transaction tx stage) s' t' := by
  cases stage with
  | active =>
    cases m with
    | appendOp op now =>
      unfold txMove at h
      dsimp only at h
      split at h
      · cases h; exact .refused
      · rename_i ok
        cases h; exact .append ok
    | commit now =>
      unfold txMove at h
      dsimp only at h
      split at h
      · rename_i refused
        cases h
        refine .notActive fun active => ?_
        simp [Transaction.commitEntry, active] at refused
      · rename_i e ok
        cases h
        simp only [Transaction.commitEntry] at ok
        split at ok
        · contradiction
        · cases ok; exact .commit
    | abort now =>
      unfold txMove at h
      dsimp only at h
      split at h
      · rename_i refused
        cases h
        refine .notActive fun active => ?_
        simp [Transaction.abortEntry, active] at refused
      · rename_i e ok
        cases h
        simp only [Transaction.abortEntry] at ok
        split at ok
        · contradiction
        · cases ok; exact .abort
    | discard => cases h; exact .discard
    | call | proceed | notified | flush | see | interrupt => cases h
  | commitLogged =>
    cases m with
    | proceed => cases h; exact .commitFlush
    | call | appendOp | commit | abort | discard | notified | flush | see | interrupt => cases h
  | abortLogged =>
    cases m with
    | proceed => cases h; exact .abortFlush
    | call | appendOp | commit | abort | discard | notified | flush | see | interrupt => cases h
  | applying rest =>
    cases m with
    | proceed =>
      cases rest with
      | nil => cases h; exact .done
      | cons op rest =>
        unfold txMove at h
        dsimp only at h
        split at h
        · contradiction
        · rename_i unlocked
          have unlocked : s.storeLocked = false := by simpa using unlocked
          split at h
          · rename_i failed
            cases h; exact .applyFails unlocked failed
          · rename_i ok
            cases h; exact .apply unlocked ok
    | interrupt => cases rest <;> (cases h; exact .cancel)
    | call | appendOp | commit | abort | discard | notified | flush | see => cases rest <;> cases h
  | appending | commitAppend | commitFlush | abortAppend | abortFlush | returned | dropped =>
    cases m <;> cases h

theorem flusherMove_runs {stage : FlusherStage} (h : flusherMove m s stage = some (s', t')) :
    OwnRuns crates i s m (.flusher stage) s' t' := by
  unfold flusherMove at h
  split at h
  · cases h; exact .control _ _ _ rfl rfl (.inr ⟨.drain, by simp, rfl⟩) (by simp)
  · split at h
    · rename_i permit
      cases h
      exact .control _ _ _ rfl rfl (.inr ⟨.notified, by simp, by simp [walProtocol, permit]⟩)
        (by simp)
    · contradiction
  · split at h
    · cases h; exact .control _ _ _ rfl rfl (.inr ⟨.drain, by simp, rfl⟩) (by simp)
    · cases h; exact .control _ _ _ rfl rfl (.inl ⟨rfl, rfl⟩) (by simp)
  · cases h; exact .control _ _ _ rfl rfl (.inl ⟨rfl, rfl⟩) (by simp)
  · contradiction

theorem stopMove_runs {stage : StopStage} (h : stopMove m s stage = some (s', t')) :
    OwnRuns crates i s m (.stopFlusher stage) s' t' := by
  unfold stopMove at h
  split at h
  · cases h; exact .control _ _ _ rfl rfl (.inl ⟨rfl, rfl⟩) (by simp)
  · cases h; exact .control _ _ _ rfl rfl (.inr ⟨.notify, by simp, rfl⟩) (by simp)
  · split at h
    · contradiction
    · split at h <;> (cases h; exact .control _ _ _ rfl rfl (.inl ⟨rfl, rfl⟩) (by simp))
  · split at h
    · cases h; exact .control _ _ _ rfl rfl (.inl ⟨rfl, rfl⟩) (by simp)
    · contradiction
  · contradiction

theorem ownMove_runs {prog : Prog} (h : ownMove crates i m s prog = some (s', t')) :
    OwnRuns crates i s m prog s' t' := by
  cases prog with
  | transaction tx stage => exact txMove_runs h
  | flusher stage => exact flusherMove_runs h
  | storeHandle stored =>
    simp only [ownMove] at h
    split at h
    · cases h; exact .control _ _ _ rfl rfl (.inl ⟨rfl, rfl⟩) (by simp)
    · contradiction
  | stopFlusher stage => exact stopMove_runs h
  | flushCaller =>
    simp only [ownMove] at h
    split at h
    · cases h; exact .control _ _ _ rfl rfl (.inr ⟨.flush, by simp, rfl⟩) (by simp [startFlush])
    · contradiction
  | checkpoint stage => exact .ckpt h

/-- What a checkpoint does: it never touches the log, and it writes the store by replay only. -/
inductive CkptRuns (crates : Crates) (s : System) : CkptStage → System → CkptStage → Prop where
  | read {stage stage'} (before : ∀ id k, stage ≠ .openMarker id ∧ stage ≠ .writeMarker id k)
    (after : ∀ id k, stage' ≠ .openMarker id ∧ stage' ≠ .writeMarker id k)
    (found : ∀ lastCkpt found, stage' = .replay lastCkpt found → stage = .scan lastCkpt ∧
      ∃ n, s.flushedBytes crates ≤ n ∧
        checkpointScan crates lastCkpt ((s.file crates).take n) = .ok found) :
    CkptRuns crates s stage s stage'
  | replay {lastCkpt found} (unlocked : s.storeLocked = false) :
    CkptRuns crates s (.replay lastCkpt found)
      { s with
        mem := { s.mem with store := checkpointReplay lastCkpt found s.mem.store },
        storeLocked := true }
      (.openMarker (maxCkpt lastCkpt found))
  | openMarker {id} : CkptRuns crates s (.openMarker id) { s with ckpt := openMarker s.ckpt }
    (.writeMarker id 0)
  | writeMarker {id k} (more : k < (decimal id).length) :
    CkptRuns crates s (.writeMarker id k) { s with ckpt := writeDigits id (k + 1) s.ckpt }
      (.writeMarker id (k + 1))
  | unlock {id k} (written : (decimal id).length ≤ k) :
    CkptRuns crates s (.writeMarker id k) { s with storeLocked := false } (.returned (.ok id))
  | interrupt {stage} (locking : ∃ id k, stage = .openMarker id ∨ stage = .writeMarker id k) :
    CkptRuns crates s stage { s with storeLocked := false } .interrupted

theorem ckptMove_runs {stage : CkptStage} (h : ckptMove crates m s stage = some (s', t')) :
    ∃ stage', t' = ⟨none, .checkpoint stage'⟩ ∧ CkptRuns crates s stage s' stage' := by
  unfold ckptMove at h
  split at h
  · split at h
    · cases h; exact ⟨_, rfl, .read (by simp) (by simp) (by simp)⟩
    · split at h <;> (cases h; exact ⟨_, rfl, .read (by simp) (by simp) (by simp)⟩)
  · split at h
    · contradiction
    · rename_i enough
      split at h
      · cases h; exact ⟨_, rfl, .read (by simp) (by simp) (by simp)⟩
      · cases h; exact ⟨_, rfl, .read (by simp) (by simp) (by simp)⟩
      · rename_i found scanned
        split at h
        · cases h; exact ⟨_, rfl, .read (by simp) (by simp) (by simp)⟩
        · cases h
          refine ⟨_, rfl, .read (by simp) (by simp) ?_⟩
          rintro lastCkpt' found' same
          cases same
          exact ⟨rfl, _, Nat.le_of_not_lt enough, scanned⟩
  · split at h
    · contradiction
    · rename_i unlocked
      cases h; exact ⟨_, rfl, .replay (by simpa using unlocked)⟩
  · cases h; exact ⟨_, rfl, .openMarker⟩
  · split at h
    · rename_i more
      cases h; exact ⟨_, rfl, .writeMarker more⟩
    · rename_i written
      cases h; exact ⟨_, rfl, .unlock (Nat.le_of_not_lt written)⟩
  · cases h; exact ⟨_, rfl, .interrupt ⟨_, 0, .inl rfl⟩⟩
  · cases h; exact ⟨_, rfl, .interrupt ⟨_, _, .inr rfl⟩⟩
  · cases h; exact ⟨_, rfl, .read (by simp) (by simp) (by simp)⟩
  · cases h; exact ⟨_, rfl, .read (by simp) (by simp) (by simp)⟩
  · cases h; exact ⟨_, rfl, .read (by simp) (by simp) (by simp)⟩
  · contradiction

theorem CkptRuns.wal {stage stage' : CkptStage}
    (h : CkptRuns crates s stage s' stage') : s'.wal = s.wal := by
  cases h <;> rfl

theorem OwnRuns.log {prog : Prog} (h : OwnRuns crates i s m prog s' t') :
    LogMove crates i s.wal s'.wal t'.call := by
  cases h with
  | append ok => exact .inr ⟨.append _, by simp, rfl⟩
  | commit | abort => exact .inr ⟨.append _, by simp, rfl⟩
  | commitFlush | abortFlush => exact .inr ⟨.flush, by simp, rfl⟩
  | control shutdown handle exited before after log appends => exact log
  | ckpt moved =>
    obtain ⟨stage', rfl, runs⟩ := ckptMove_runs moved
    exact .inl ⟨runs.wal, rfl⟩
  | refused | notActive | discard | done | apply | applyFails | cancel => exact .inl ⟨rfl, rfl⟩

theorem move_own {t : Task} (own : ∀ k, m ≠ .call k)
    (h : (systemProtocol crates).move i m s t = some (s', t')) :
    t.call = none ∧ OwnRuns crates i s m t.prog s' t' := by
  obtain ⟨call, prog⟩ := t
  cases call with
  | none =>
    cases m with
    | call k => exact absurd rfl (own k)
    | proceed | notified | appendOp | commit | abort | discard | flush | see | interrupt =>
      exact ⟨rfl, ownMove_runs h⟩
  | some c =>
    cases m with
    | call k => exact absurd rfl (own k)
    | proceed | notified | appendOp | commit | abort | discard | flush | see | interrupt => cases h

inductive SystemStep (crates : Crates) (σ : SystemConfig) : SystemAction → SystemConfig → Prop where
  | begin : SystemStep crates σ (.spawn .transaction)
      ⟨{ σ.shared with mem := { σ.shared.mem with nextTxId := σ.shared.mem.nextTxId + 1 } },
        σ.tasks ++ [⟨none, .transaction ⟨σ.shared.mem.nextTxId, .active, []⟩ .active⟩]⟩
  | spawn {k prog} (other : prog.isControl = true ∨ (k = .checkpoint ∧ prog = .checkpoint .start)) :
    SystemStep crates σ (.spawn k) ⟨σ.shared, σ.tasks ++ [⟨none, prog⟩]⟩
  | call {i c prog w call} (slot : σ.tasks[i]? = some ⟨some c, prog⟩)
    (runs : Runs crates i σ.shared.wal c w call) :
    SystemStep crates σ (.move i (.call .run)) ⟨{ σ.shared with wal := w },
      σ.tasks.set i ⟨call, if call.isSome then prog else prog.returned (.ok ())⟩⟩
  | fault {i c k prog prog'} (slot : σ.tasks[i]? = some ⟨some c, prog⟩)
    (fallible : c.fallible = true)
    (stops : k ≠ .run) (after : prog' = prog.dropped ∨ ∃ e, prog' = prog.returned (.error e)) :
    SystemStep crates σ (.move i (.call k)) ⟨{ σ.shared with wal := c.release σ.shared.wal },
      σ.tasks.set i ⟨none, prog'⟩⟩
  | own {i m prog s' t'} (slot : σ.tasks[i]? = some ⟨none, prog⟩) (other : ∀ k, m ≠ .call k)
    (runs : OwnRuns crates i σ.shared m prog s' t') :
    SystemStep crates σ (.move i m) ⟨s', σ.tasks.set i t'⟩

theorem system_step_cases {σ σ' : SystemConfig} {a : SystemAction}
    (taken : (systemProtocol crates).step σ a = some σ') : SystemStep crates σ a σ' := by
  cases a with
  | spawn k =>
    obtain ⟨s, t, h, rfl⟩ := Protocol.step_spawn taken
    cases k with
    | transaction => cases h; exact .begin
    | flushCaller | stopFlusher => cases h; exact .spawn (.inl rfl)
    | checkpoint => cases h; exact .spawn (.inr ⟨rfl, rfl⟩)
  | move i m =>
    obtain ⟨⟨call, prog⟩, s, t', slot, h, rfl⟩ := Protocol.step_move taken
    by_cases calls : ∃ k, m = .call k
    · obtain ⟨k, rfl⟩ := calls
      cases call with
      | none => cases h
      | some c =>
        cases k with
        | run =>
          obtain ⟨out, ran, same⟩ := Option.map_eq_some_iff.mp h
          cases same
          exact .call slot (run_runs ran)
        | fail fault =>
          obtain ⟨⟨w, e⟩, failed, same⟩ := Option.map_eq_some_iff.mp h
          cases same
          obtain ⟨fallible, _, rfl⟩ := fail_release failed
          exact .fault slot fallible (by simp) (.inr ⟨e, rfl⟩)
        | drop =>
          obtain ⟨w, dropped, same⟩ := Option.map_eq_some_iff.mp h
          cases same
          obtain ⟨fallible, rfl⟩ := drop_release dropped
          exact .fault slot fallible (by simp) (.inl rfl)
    · have own : ∀ k, m ≠ .call k := fun k same => calls ⟨k, same⟩
      obtain ⟨idle, runs⟩ := move_own own h
      cases idle
      exact .own slot own runs

theorem SystemStep.base {σ σ' : SystemConfig} {a : SystemAction} (step : SystemStep crates σ a σ') :
    σ'.shared.base = σ.shared.base := by
  cases step with
  | begin | spawn | call | fault => rfl
  | own slot other runs =>
    cases runs with
    | ckpt moved =>
      obtain ⟨stage', rfl, runs⟩ := ckptMove_runs moved
      cases runs <;> rfl
    | refused | append | commit | abort | notActive | discard | commitFlush | abortFlush | done
    | apply | applyFails
    | cancel | control => rfl

theorem base_run {guard : SystemConfig → SystemAction → Prop} {σ₀ σ : SystemConfig}
    (run : (systemProtocol crates).Reaches guard σ₀ σ) : σ.shared.base = σ₀.shared.base := by
  apply run.invariant (I := fun σ => σ.shared.base = σ₀.shared.base) rfl
  intro τ a τ' same _ taken
  exact (system_step_cases taken).base.trans same

end Inversion

section Log

variable {crates : Crates}

def logView (σ : SystemConfig) : WalConfig := ⟨σ.shared.wal, σ.tasks.map Task.call⟩

theorem logView_slot {σ : SystemConfig} {i : Nat} {t : Task} (slot : σ.tasks[i]? = some t) :
    (logView σ).tasks[i]? = some t.call := by simp [logView, slot]

/-- Runs of the system in which no call and no await fails,
and each move of a call meets the condition. -/
def SystemNoFaultAnd (C : WalConfig → Nat → Prop) (σ : SystemConfig) : SystemAction → Prop
  | .move i (.call .run) => C (logView σ) i
  | .move _ (.call _) | .move _ .interrupt => False
  | _ => True

instance (C : WalConfig → Nat → Prop) [∀ σ i, Decidable (C σ i)] (σ : SystemConfig)
    (a : SystemAction) : Decidable (SystemNoFaultAnd C σ a) := by
  unfold SystemNoFaultAnd
  split <;> infer_instance

theorem log_step {σ σ' : SystemConfig} {a : SystemAction}
    (taken : (systemProtocol crates).step σ a = some σ') :
    (logView σ' = logView σ ∧ ∀ i k, a ≠ .move i (.call k)) ∨
      ∃ b, (∀ i k, a = .move i (.call k) ↔ b = .move i (.call k)) ∧
        (walProtocol crates).step (logView σ) b = some (logView σ') := by
  cases a with
  | spawn k =>
    right
    obtain ⟨s, t, h, rfl⟩ := Protocol.step_spawn taken
    refine ⟨.spawn (), by simp, ?_⟩
    have same : s.wal = σ.shared.wal ∧ t.call = none := by cases k <;> cases h <;> exact ⟨rfl, rfl⟩
    simp [Protocol.step, walProtocol, logView, same.1, same.2]
  | move i m =>
    obtain ⟨⟨call, prog⟩, s, t', slot, h, rfl⟩ := Protocol.step_move taken
    have at_i := logView_slot slot
    by_cases calls : ∃ k, m = .call k
    · obtain ⟨k, rfl⟩ := calls
      right
      cases call with
      | none => cases h
      | some c =>
        refine ⟨.move i (.call k), by simp, ?_⟩
        simp only [Protocol.step, at_i, Option.bind_some, Option.map_eq_some_iff]
        cases k with
        | run =>
          obtain ⟨out, ran, same⟩ := Option.map_eq_some_iff.mp h
          cases same
          exact ⟨out, ran, by simp [logView, List.map_set]⟩
        | fail fault =>
          obtain ⟨out, failed, same⟩ := Option.map_eq_some_iff.mp h
          cases same
          exact ⟨(out.1, none), congrArg (Option.map fun out : Wal × WalError => (out.1, none))
            failed, by simp [logView, List.map_set]⟩
        | drop =>
          obtain ⟨w, dropped, same⟩ := Option.map_eq_some_iff.mp h
          cases same
          exact ⟨(w, none), congrArg (Option.map fun w => (w, none)) dropped,
            by simp [logView, List.map_set]⟩
    · have other : ∀ k, m ≠ .call k := fun k same => calls ⟨k, same⟩
      obtain ⟨idle, runs⟩ := move_own other h
      rw [idle] at at_i
      rcases runs.log with ⟨same, no_call⟩ | ⟨b, own, moved⟩
      · left
        refine ⟨?_, by simpa using fun i k _ => other k⟩
        have back : (σ.tasks.set i t').map Task.call = σ.tasks.map Task.call :=
          map_set_same slot (no_call.trans idle.symm)
        rw [logView, logView, same, back]
      · right
        refine ⟨.move i b, fun j k => ⟨?_, ?_⟩, ?_⟩
        · intro same
          cases same
          exact absurd rfl (other k)
        · intro same
          cases same
          exact absurd rfl (own k)
        · simp only [Protocol.step, at_i, Option.bind_some, Option.map_eq_some_iff]
          exact ⟨_, moved, by simp [logView, List.map_set]⟩

theorem log_reaches {C : WalConfig → Nat → Prop} {σ₀ σ : SystemConfig}
    (run : (systemProtocol crates).Reaches (SystemNoFaultAnd C) σ₀ σ) :
    (walProtocol crates).Reaches (NoFaultAnd C) (logView σ₀) (logView σ) := by
  apply run.simulate logView
  intro σ a σ' ok taken
  rcases log_step taken with ⟨same, _⟩ | ⟨b, matching, moved⟩
  · exact .inl same
  · refine .inr ⟨b, ?_, moved⟩
    unfold NoFaultAnd
    split
    · rename_i i
      rw [(matching i .run).mpr rfl] at ok
      exact ok
    · rename_i i k stops
      rw [(matching i k).mpr rfl] at ok
      cases k with
      | run => exact absurd rfl stops
      | fail | drop => exact ok
    · trivial

end Log

end AsyncWalDb
