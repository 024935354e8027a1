import AsyncWalDb.Bincode
import AsyncWalDb.Serial

/-! A commit that fails. The Commit entry is durable before the first operation is applied.
`apply_to_store` stops at an update without its key; the replay loops put the value and go on. -/
namespace AsyncWalDb

open KeyedWrites Framing

def replayed (ids : List UInt64) (es : List WalEntry) : List WalEntry :=
  ids.flatMap fun id => (entriesOf id es).filter fun e => !e.isMarker

def recoverApplies (crates : Crates) : Option Bytes → List WalEntry
  | none => []
  | some bytes =>
    let scan := readLog crates bytes
    if scan.exit = .capacityOverflow then [] else replayed (committedIds scan.items) scan.items

def checkpointApplies (crates : Crates) (disk : Disk) : List WalEntry :=
  match getLastCheckpoint disk.ckpt, disk.wal with
  | .ok lastCkpt, some bytes =>
    let scan := readLog crates bytes
    if (lastCkpt = 0 ∧ disk.path.isEmpty) ∨ scan.exit ≠ .headerEof then []
    else replayed (ckptIds lastCkpt scan.items) scan.items
  | _, _ => []

/-- Calls of `append_op`, one after another; a refused one returns an error and adds nothing. -/
def appendAll (crates : Crates) (p : Process) : List (WalEntry × UInt64) → Option Process
  | [] => some p
  | (op, now) :: calls =>
    (serialStep crates p (.appendOp op now)).bind fun out => appendAll crates out.1 calls

def transactionOf (crates : Crates) (p : Process) (calls : List (WalEntry × UInt64)) :
    Option Process :=
  (serialStep crates p .new).bind fun out => appendAll crates out.1 calls

/-- When a commit returns Err the store is as it was before, and no operation of the transaction is
applied by a recovery or a checkpoint of the file it leaves. -/
def AllOrNothing (crates : Crates) (before after : Process) (result : Except WalError Unit) :
    Prop :=
  ∀ e, result = .error e → after.mem.store = before.mem.store ∧
    ∀ tx, before.current = some tx → ∀ op ∈ tx.entries,
      op ∉ recoverApplies crates after.disk.wal ∧ op ∉ checkpointApplies crates after.disk

variable {crates : Crates} {p q p' : Process} {es ops : List WalEntry}
  {calls : List (WalEntry × UInt64)} {bytes : Bytes}

theorem replayed_fold (store : Store) (ids : List UInt64) (es : List WalEntry) :
    (replayed ids es).foldl replayEntry store = applyAll store (ids.flatMap
      fun id => writesOf id es) := by
  induction ids generalizing store with
  | nil => rfl
  | cons id ids ih =>
    rw [replayed, List.flatMap_cons, List.flatMap_cons, List.foldl_append, applyAll_append,
      foldl_replayEntry]
    exact ih _

theorem recoverApplies_store (file : Option Bytes) (mem : Memory) :
    (recoverWithValidation crates file mem).2.store =
      (recoverApplies crates file).foldl replayEntry mem.store := by
  cases file with
  | none => rfl
  | some bytes =>
    by_cases overflow : (readLog crates bytes).exit = .capacityOverflow
    · simp [recoverWithValidation, recoverApplies, overflow]
    · rw [recover_store mem overflow, recoverApplies]
      simp only [if_neg overflow, replayed_fold]
      rfl

theorem checkpointApplies_store (disk : Disk) (store : Store) :
    (checkpoint crates disk store).2.2 =
      (checkpointApplies crates disk).foldl replayEntry store := by
  cases marker : getLastCheckpoint disk.ckpt with
  | error e => simp [checkpoint, checkpointApplies, marker]
  | ok lastCkpt =>
    by_cases path : lastCkpt = 0 ∧ disk.path.isEmpty = true
    · cases file : disk.wal <;> simp [checkpoint, checkpointApplies, marker, path, file]
    · cases file : disk.wal with
      | none =>
        simp only [checkpoint, checkpointApplies, marker, if_neg path, file]
        rfl
      | some bytes =>
        by_cases readable : (readLog crates bytes).exit = .headerEof
        · rw [checkpoint_store disk store marker path file readable]
          simp only [checkpointApplies, marker, file, path, readable, ne_eq, not_true, or_self,
            if_false, replayed_fold]
          rfl
        · cases stop : (readLog crates bytes).exit with
          | headerEof => exact absurd stop readable
          | payloadEof | checksum | undecodable | capacityOverflow =>
            simp only [checkpoint, checkpointScan, checkpointApplies, marker, if_neg path, file,
              stop, ne_eq, reduceCtorEq,
              not_false_eq_true, or_true, if_true]
            rfl

structure Buffers (p : Process) (tx : Transaction) (ops : List WalEntry) : Prop where
  current : p.current = some tx
  active : tx.state = .active
  queued : tx.entries ⊆ p.queue
  own : ∀ e ∈ tx.entries, e.isMarker = false ∧ e.txId = tx.id
  logs : List.Forall₂ Logs tx.entries (ops.filter fun op => !op.isMarker)

def SameFiles (p q : Process) : Prop := q.disk = p.disk ∧ q.mem.store = p.mem.store

theorem buffers_new {r : Reply} (begun : serialStep crates p .new = some (q, r)) :
    ∃ tx, Buffers q tx [] ∧ SameFiles p q := by
  simp only [serialStep] at begun
  split at begun
  · contradiction
  · cases begun
    exact ⟨_, ⟨rfl, rfl, List.nil_subset _, List.forall_mem_nil _, .nil⟩, rfl, rfl⟩

theorem buffers_appendOp {tx : Transaction} {op : WalEntry} {now : UInt64} {r : Reply}
    (buffers : Buffers p tx ops) (taken : serialStep crates p (.appendOp op now) = some (q, r)) :
    ∃ tx', Buffers q tx' (ops ++ [op]) ∧ SameFiles p q := by
  simp only [serialStep, buffers.current, Option.map_some] at taken
  cases stamped : op.stamped tx.id now with
  | error e =>
    -- a marker is refused and leaves the buffer as it is
    have marker : op.isMarker = true := by cases op <;> first | rfl | cases stamped
    simp only [Transaction.appendOp, stamped] at taken
    cases taken
    refine ⟨tx, ⟨buffers.current, buffers.active, buffers.queued, buffers.own, ?_⟩, rfl, rfl⟩
    rw [List.filter_append, List.filter_singleton, marker]
    simpa using buffers.logs
  | ok entry =>
    have operation : op.isMarker = false := by cases op <;> first | rfl | cases stamped
    obtain ⟨logged, own, _⟩ := stamped_operation stamped
    simp only [Transaction.appendOp, stamped] at taken
    cases taken
    refine ⟨_, ⟨rfl, buffers.active, ?_, fun e he => ?_, ?_⟩, rfl, rfl⟩
    · exact List.append_subset.mpr ⟨fun e he => List.mem_append_left _ (buffers.queued he),
        List.subset_append_right _ _⟩
    · rcases List.mem_append.mp he with old | new
      · exact buffers.own e old
      · rw [List.mem_singleton.mp new]
        exact ⟨logged, own⟩
    · rw [List.filter_append, List.filter_singleton, operation]
      exact List.rel_append buffers.logs (.cons ⟨_, _, stamped⟩ .nil)

theorem buffers_appendAll {tx : Transaction} (buffers : Buffers p tx ops)
    (run : appendAll crates p calls = some q) :
    ∃ tx', Buffers q tx' (ops ++ calls.map Prod.fst) ∧ SameFiles p q := by
  induction calls generalizing p tx ops with
  | nil =>
    cases run
    exact ⟨tx, by simpa using buffers, rfl, rfl⟩
  | cons call calls ih =>
    obtain ⟨⟨p₁, r⟩, taken, later⟩ := Option.bind_eq_some_iff.mp run
    obtain ⟨tx₁, buffers₁, disk₁, store₁⟩ := buffers_appendOp buffers taken
    obtain ⟨tx', buffers', disk', store'⟩ := ih buffers₁ later
    refine ⟨tx', ?_, disk'.trans disk₁, store'.trans store₁⟩
    simpa using buffers'

theorem buffers_transaction (run : transactionOf crates p calls = some q) :
    ∃ tx, Buffers q tx (calls.map Prod.fst) ∧ SameFiles p q := by
  obtain ⟨⟨p₁, r⟩, begun, later⟩ := Option.bind_eq_some_iff.mp run
  obtain ⟨tx₁, buffers₁, disk₁, store₁⟩ := buffers_new begun
  obtain ⟨tx, buffers, disk, store⟩ := buffers_appendAll buffers₁ later
  exact ⟨tx, by simpa using buffers, disk.trans disk₁, store.trans store₁⟩

theorem updatesHit_filter (store : Store) (ops : List WalEntry) :
    updatesHit store (ops.filter fun op => !op.isMarker) = updatesHit store ops := by
  induction ops generalizing store with
  | nil => rfl
  | cons op ops ih =>
    cases op with
    | insert | update | delete =>
      rw [List.filter_cons_of_pos (by rfl)]
      simp only [updatesHit, ih]
    | commit | abort =>
      rw [List.filter_cons_of_neg (by simp [WalEntry.isMarker]), ih]
      rfl

theorem updatesHit_of_applyEntries {store store' : Store} (logs : List.Forall₂ Logs es ops)
    (applied : applyEntries store es = (.ok (), store')) : updatesHit store ops = true := by
  induction logs generalizing store with
  | nil => rfl
  | @cons e op es ops head _ ih =>
    obtain ⟨id, now, stamped⟩ := head
    simp only [applyEntries] at applied
    split at applied
    · cases applied
    · rename_i next one
      cases op with
      | insert | delete =>
        cases stamped
        cases one
        exact ih applied
      | update =>
        cases stamped
        simp only [applyToStore] at one
        split at one
        · rename_i present
          cases one
          simp only [updatesHit, present, Bool.true_and]
          exact ih applied
        · contradiction
      | commit | abort => cases stamped

theorem mem_replayed_iff {ids : List UInt64} {op : WalEntry} :
    op ∈ replayed ids es ↔ op ∈ es ∧ op.isMarker = false ∧ op.txId ∈ ids := by
  simp only [replayed, List.mem_flatMap, List.mem_filter, mem_entriesOf, Bool.not_eq_true']
  constructor
  · rintro ⟨id, mem, ⟨here, rfl⟩, operation⟩
    exact ⟨here, operation, mem⟩
  · rintro ⟨here, operation, mem⟩
    exact ⟨op.txId, mem, ⟨here, rfl⟩, operation⟩

theorem commit_logged {tx : Transaction} {now : UInt64} {result : Except WalError Unit}
    (buffers : Buffers q tx ops)
    (file : ∃ bytes, q.disk.wal = some bytes ∧ ValidLog crates bytes es)
    (taken : serialStep crates q (.commit now) = some (p', .committed result)) :
    (∃ bytes, p'.disk.wal = some bytes ∧
      ValidLog crates bytes (es ++ (q.queue ++ [.commit tx.id now]))) ∧
      applyEntries q.mem.store tx.entries = (result, p'.mem.store) := by
  have entry : tx.commitEntry now = .ok (.commit tx.id now) := by
    simp [Transaction.commitEntry, buffers.active]
  simp only [serialStep, buffers.current, Option.bind_some, entry] at taken
  obtain ⟨p₁, flushed, answer⟩ := Option.map_eq_some_iff.mp taken
  obtain ⟨logged, _, _, mem, _⟩ := flushQueue_some flushed file
  cases answer
  exact ⟨logged, by rw [mem]⟩

/-- A commit is all or nothing exactly when each update finds its key at its turn: the replay
applies the operations of a failed one. -/
theorem all_or_nothing_iff {now : UInt64} {result : Except WalError Unit}
    (file : p.disk.wal = some bytes)
    (whole : ValidLog crates bytes es) (begun : transactionOf crates p calls = some q)
    (taken : serialStep crates q (.commit now) = some (p', .committed result)) :
    AllOrNothing crates q p' result ↔ updatesHit p.mem.store (calls.map Prod.fst) = true := by
  obtain ⟨tx, buffers, disk, store⟩ := buffers_transaction begun
  have file' : ∃ bytes, q.disk.wal = some bytes ∧ ValidLog crates bytes es :=
    ⟨bytes, disk ▸ file, whole⟩
  obtain ⟨⟨bytes', logged, whole'⟩, applied⟩ := commit_logged buffers file' taken
  rw [← store, ← updatesHit_filter]
  constructor
  · intro nothing
    cases result with
    | ok _ => exact updatesHit_of_applyEntries buffers.logs applied
    | error e =>
      -- the operations stand before their Commit, so recovery applies the first of them
      have none_applied := (nothing e rfl).2 tx buffers.current
      cases entries : tx.entries with
      | nil =>
        rw [entries] at applied
        cases applied
      | cons op rest =>
        have first : op ∈ tx.entries := by rw [entries]; exact List.mem_cons_self
        have done : committed (es ++ (q.queue ++ [.commit tx.id now])) tx.id = true := by
          rw [← List.append_assoc]
          exact committed_snoc_own _ (.commit tx.id now)
        have applies : op ∈ recoverApplies crates p'.disk.wal := by
          rw [logged]
          simp only [recoverApplies, whole'.read_all, reduceCtorEq, if_false]
          refine mem_replayed_iff.mpr ⟨?_, (buffers.own op first).1, mem_committedIds.mpr ?_⟩
          · exact List.mem_append_right _ (List.mem_append_left _ (buffers.queued first))
          · rw [(buffers.own op first).2]
            exact done
        exact absurd applies (none_applied op first).1
  · intro hit e failed
    have runs := applyEntries_hit buffers.logs hit
    rw [applied, failed] at runs
    cases runs

def missedUpdate : List (WalEntry × UInt64) :=
  [(.insert 0 0 "a" [1], 2), (.update 0 0 "b" [] [2], 3)]

def missedError : WalError := .applyStore "Update on non-existent key: b"

theorem missedUpdate_fails :
    ∃ q p', transactionOf (Bincode.crates true) (.fresh "wal.log") missedUpdate = some q ∧
    serialStep (Bincode.crates true) q (.commit 4) = some (p', .committed (.error missedError)) ∧
    q.mem.store "a" = none ∧ p'.mem.store "a" = some [1] := by
  have run : (transactionOf (Bincode.crates true) (.fresh "wal.log") missedUpdate).map (fun q =>
      (q.mem.store "a", (serialStep (Bincode.crates true) q (.commit 4)).map
        fun out => (out.2, out.1.mem.store "a"))) =
      some (none, some (.committed (.error missedError), some [1])) := by decide +kernel
  obtain ⟨q, begun, answer⟩ := Option.map_eq_some_iff.mp run
  obtain ⟨before, commit⟩ := Prod.mk.inj answer
  obtain ⟨⟨p', r⟩, taken, after⟩ := Option.map_eq_some_iff.mp commit
  obtain ⟨rfl, after⟩ := Prod.mk.inj after
  exact ⟨q, p', begun, taken, before, after⟩

/-- An insert stays in the store although the commit returned Err. -/
theorem commit_not_all_or_nothing :
    ¬ ∀ (crates : Crates) (p q p' : Process) (bytes : Bytes) (es : List WalEntry)
      (calls : List (WalEntry × UInt64)) (now : UInt64) (result : Except WalError Unit),
      p.disk.wal = some bytes → ValidLog crates bytes es →
      transactionOf crates p calls = some q →
      serialStep crates q (.commit now) = some (p', .committed result) →
      AllOrNothing crates q p' result := by
  intro claim
  obtain ⟨q, p', begun, taken, before, after⟩ := missedUpdate_fails
  obtain ⟨same, _⟩ := claim _ _ q p' [] [] missedUpdate 4 _ rfl .nil begun taken _ rfl
  rw [same, before] at after
  cases after

theorem all_or_nothing_iff_missedUpdate :
    ∃ q p', transactionOf (Bincode.crates true) (.fresh "wal.log") missedUpdate = some q ∧
    serialStep (Bincode.crates true) q (.commit 4) = some (p', .committed (.error missedError)) ∧
    (AllOrNothing (Bincode.crates true) q p' (.error missedError) ↔
      updatesHit (Process.fresh "wal.log").mem.store (missedUpdate.map Prod.fst) = true) := by
  obtain ⟨q, p', begun, taken, _⟩ := missedUpdate_fails
  exact ⟨q, p', begun, taken, all_or_nothing_iff rfl .nil begun taken⟩

end AsyncWalDb
