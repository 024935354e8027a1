import AsyncWalDb.Checkpoint
import AsyncWalDb.Lib.Refinement
import AsyncWalDb.Transaction

/-! One transaction at a time, call by call: a flush is one step, a crash loses the queue and keeps
every flushed frame, and a new process opens the file and recovers. The specification is a list of
committed operations; the file, the marker and the counter are tied to it by one invariant. -/
namespace AsyncWalDb

open KeyedWrites Refinement

structure Process where
  disk : Disk
  queue : List WalEntry
  mem : Memory
  current : Option Transaction

inductive SerialAction where
  | new
  | appendOp (op : WalEntry) (now : UInt64)
  | commit (now : UInt64)
  | abort (now : UInt64)
  | discard
  | drain
  | checkpoint
  | truncate
  | restart
  deriving DecidableEq

inductive Reply where
  | done
  | appended (result : Except WalError Unit)
  | committed (result : Except WalError Unit)
  | aborted (result : Except WalError Unit)
  | checkpointed (result : Outcome UInt64)
  | recovered (result : Outcome RecoveryStats)
  deriving DecidableEq

/-- `drain_and_flush` in one step; every entry has to serialize. -/
def flushQueue (crates : Crates) (p : Process) : Option Process :=
  match p.disk.wal with
  | none => none
  | some bytes =>
    if ∀ e ∈ p.queue, crates.Fits e then
      some { p with disk :=
        { p.disk with wal := some (bytes ++ p.queue.flatMap (frame crates)) }, queue := [] }
    else none

/-- `append` of a marker and `flush`. -/
def logMarker (crates : Crates) (p : Process) (entry : WalEntry) : Option Process :=
  flushQueue crates { p with queue := p.queue ++ [entry] }

def serialStep (crates : Crates) (p : Process) : SerialAction → Option (Process × Reply)
  | .new =>
    if p.current.isSome then none
    else
      let (tx, nextTxId) := Transaction.new p.mem.nextTxId
      some ({ p with mem := { p.mem with nextTxId := nextTxId }, current := some tx }, .done)
  | .appendOp op now =>
    p.current.map fun tx =>
      match tx.appendOp op now with
      | .error e => (p, .appended (.error e))
      | .ok (tx', entry) =>
        ({ p with queue := p.queue ++ [entry], current := some tx' }, .appended (.ok ()))
  | .commit now =>
    p.current.bind fun tx =>
      match tx.commitEntry now with
      | .error e => some ({ p with current := none }, .committed (.error e))
      | .ok entry =>
        (logMarker crates p entry).map fun p' =>
          let out := applyEntries p'.mem.store tx.entries
          ({ p' with mem := { p'.mem with store := out.2 }, current := none }, .committed out.1)
  | .abort now =>
    p.current.bind fun tx =>
      match tx.abortEntry now with
      | .error e => some ({ p with current := none }, .aborted (.error e))
      | .ok entry =>
        (logMarker crates p entry).map fun p' => ({ p' with current := none }, .aborted (.ok ()))
  | .discard => p.current.map fun _ => ({ p with current := none }, .done)
  | .drain => (flushQueue crates p).map fun p' => (p', .done)
  | .checkpoint =>
    if p.current.isSome then none
    else
      let out := checkpoint crates p.disk p.mem.store
      some ({ p with disk := out.2.1, mem := { p.mem with store := out.2.2 } }, .checkpointed out.1)
  -- `truncate_wal` on the own path: flush, rename, and a new `WalStorage` on a new file
  | .truncate =>
    (flushQueue crates p).map fun p' =>
      ({ p' with disk := { p'.disk with wal := some [] }, queue := [] }, .done)
  | .restart =>
    let out := recoverWithValidation crates p.disk.wal ⟨fun _ => none, 1⟩
    some (⟨p.disk, [], out.2, none⟩, .recovered out.1)

def Process.fresh (path : String) : Process := ⟨⟨path, some [], none⟩, [], ⟨fun _ => none, 1⟩, none⟩

/-- What was committed, what of it is younger than the last
truncation, and the transaction in progress. -/
structure Spec where
  committed : List WalEntry
  logged : List WalEntry
  opened : List WalEntry
  /-- The last call was a checkpoint that returned Ok. -/
  checkpointed : Bool

def Spec.start : Spec := ⟨[], [], [], false⟩

def Spec.map (s : Spec) : Store := applyAll (fun _ => none) (s.committed.filterMap WalEntry.write?)

def Spec.next (s : Spec) (a : SerialAction) (r : Reply) : Spec :=
  let s := { s with checkpointed := match r with
    | .checkpointed (.ok _) => true
    | _ => false }
  match a, r with
  | .appendOp op _, .appended (.ok ()) => { s with opened := s.opened ++ [op] }
  | .commit _, .committed (.ok ()) =>
    { s with committed := s.committed ++ s.opened, logged := s.logged ++ s.opened, opened := [] }
  | .commit _, _ | .abort _, _ | .discard, _ | .restart, _ => { s with opened := [] }
  | .truncate, _ => { s with logged := [] }
  | _, _ => s

def updatesHit (store : Store) : List WalEntry → Bool
  | [] => true
  | op :: rest =>
    (match op with
      | .update _ _ key _ _ => (store key).isSome
      | _ => true) && updatesHit (replayEntry store op) rest

def Logs (e op : WalEntry) : Prop := ∃ id now, op.stamped id now = .ok e

theorem Logs.write? {e op : WalEntry} (h : Logs e op) : e.write? = op.write? := by
  obtain ⟨id, now, h⟩ := h
  cases op <;> cases h <;> rfl

theorem logs_writes {es ops : List WalEntry} (h : List.Forall₂ Logs es ops) :
    es.filterMap WalEntry.write? = ops.filterMap WalEntry.write? := by
  induction h with
  | nil => rfl
  | cons head _ ih => rw [List.filterMap_cons, List.filterMap_cons, head.write?, ih]

theorem applyEntries_hit {store : Store} {es ops : List WalEntry} (h : List.Forall₂ Logs es ops)
    (hit : updatesHit store ops = true) :
    applyEntries store es = (.ok (), applyAll store (ops.filterMap WalEntry.write?)) := by
  induction h generalizing store with
  | nil => rfl
  | @cons e op es ops head _ ih =>
    simp only [updatesHit, Bool.and_eq_true] at hit
    obtain ⟨id, now, stamped⟩ := head
    have applied : applyToStore store e = .ok (replayEntry store op) := by
      cases op with
      | insert | delete => cases stamped; rfl
      | update => cases stamped; simp only [applyToStore, hit.1, if_true, replayEntry]
      | commit | abort => cases stamped
    have write : replayEntry store op = applyAll store op.write?.toList := replayEntry_eq store op
    simp only [applyEntries, applied, ih hit.2]
    rw [write, ← applyAll_append]
    cases w : op.write? <;> simp [w]

variable {crates : Crates} {p p' : Process} {s : Spec} {es : List WalEntry} {r : Reply} {n : Nat}

structure Opens (log : List WalEntry) (nextTxId : UInt64) (tx : Transaction) (ops : List WalEntry) :
    Prop where
  active : tx.state = .active
  newest : nextTxId.toNat = tx.id.toNat + 1
  entries : entriesOf tx.id log = tx.entries
  operations : ∀ e ∈ tx.entries, e.isMarker = false
  logs : List.Forall₂ Logs tx.entries ops

/-- The process and its specification, when the file holds the frames of `es` and at most `n`
transactions have begun. -/
structure Tied (crates : Crates) (es : List WalEntry) (n : Nat) (p : Process)
    (s : Spec) : Prop where
  file : ∃ bytes, p.disk.wal = some bytes ∧ ValidLog crates bytes es
  marker : ∃ last, getLastCheckpoint p.disk.ckpt = .ok last
  counter : p.mem.nextTxId.toNat ≤ n + 1
  below : ∀ e ∈ es ++ p.queue, e.txId < p.mem.nextTxId
  loose : ∀ e ∈ p.queue, e.isMarker = false ∧ committed es e.txId = false
  replay : replayWrites es = s.logged.filterMap WalEntry.write?
  earlier : ∃ earlier, s.committed = earlier ++ s.logged
  store : p.mem.store = s.map
  closed : p.current = none → s.opened = []
  opened : ∀ tx, p.current = some tx → Opens (es ++ p.queue) p.mem.nextTxId tx s.opened

theorem flushQueue_some (flushed : flushQueue crates p = some p')
    (file : ∃ bytes, p.disk.wal = some bytes ∧ ValidLog crates bytes es) :
    (∃ bytes, p'.disk.wal = some bytes ∧ ValidLog crates bytes (es ++ p.queue)) ∧
      p'.disk.ckpt = p.disk.ckpt ∧ p'.queue = [] ∧ p'.mem = p.mem ∧ p'.current = p.current := by
  obtain ⟨bytes, here, whole⟩ := file
  simp only [flushQueue, here] at flushed
  split at flushed
  · rename_i fits
    cases flushed
    exact ⟨⟨_, rfl, whole.append (.of_entries fits)⟩, rfl, rfl, rfl, rfl⟩
  · contradiction

theorem succ_toNat {id : UInt64} (room : id.toNat + 1 < 2 ^ 64) :
    (id + 1).toNat = id.toNat + 1 := by
  rw [UInt64.toNat_add]
  exact Nat.mod_eq_of_lt room

theorem Opens.uncommitted {log ops : List WalEntry} {next : UInt64} {tx : Transaction}
    (h : Opens log next tx ops) (sub : es ⊆ log) : committed es tx.id = false := by
  rw [Bool.eq_false_iff]
  intro done
  obtain ⟨m, mem, own, commit⟩ := committed_mem done
  have logged : m ∈ tx.entries := h.entries ▸ mem_entriesOf.mpr ⟨sub mem, own⟩
  have operation := h.operations m logged
  rw [WalEntry.isMarker_of_isCommit commit] at operation
  contradiction

theorem not_commit_of_operation {e : WalEntry} (h : e.isMarker = false) : e.isCommit = false := by
  rw [Bool.eq_false_iff]
  intro commit
  rw [WalEntry.isMarker_of_isCommit commit] at h
  contradiction

theorem Tied.replay_queue (tied : Tied crates es n p s) :
    replayWrites (es ++ p.queue) = replayWrites es :=
  replayWrites_append_quiet (fun f hf => (tied.loose f hf).2) fun f hf =>
    not_commit_of_operation (tied.loose f hf).1

theorem tied_new (tied : Tied crates es n p s) (room : n + 1 ≤ 2 ^ 64 - 2)
    (taken : serialStep crates p .new = some (p', r)) :
    Tied crates es (n + 1) p' (s.next .new r) := by
  simp only [serialStep] at taken
  split at taken
  · contradiction
  · rename_i idle
    have idle : p.current = none := by simpa using idle
    cases taken
    have up : (p.mem.nextTxId + 1).toNat = p.mem.nextTxId.toNat + 1 :=
      succ_toNat (by have := tied.counter; omega)
    refine ⟨tied.file, tied.marker, ?_, fun e he => ?_, tied.loose, tied.replay,
      tied.earlier, tied.store,
      fun none_open => (Option.some_ne_none _ none_open).elim, fun tx same => ?_⟩
    · have bound := tied.counter
      change (p.mem.nextTxId + 1).toNat ≤ _
      omega
    · have low := tied.below e he
      rw [UInt64.lt_iff_toNat_lt] at low ⊢
      change e.txId.toNat < (p.mem.nextTxId + 1).toNat
      omega
    · cases same
      have fresh : entriesOf p.mem.nextTxId (es ++ p.queue) = [] :=
        entriesOf_eq_nil.mpr fun e he => ne_of_lt (tied.below e he)
      have nothing : s.opened = [] := tied.closed idle
      exact ⟨rfl, up, fresh, List.forall_mem_nil _,
        by change List.Forall₂ Logs [] s.opened; rw [nothing]; exact .nil⟩

theorem tied_appendOp {op : WalEntry} {now : UInt64} (tied : Tied crates es n p s)
    (taken : serialStep crates p (.appendOp op now) = some (p', r)) :
    Tied crates es n p' (s.next (.appendOp op now) r) := by
  obtain ⟨tx, current, answer⟩ := Option.map_eq_some_iff.mp taken
  split at answer
  · cases answer
    exact ⟨tied.file, tied.marker, tied.counter, tied.below, tied.loose, tied.replay,
      tied.earlier, tied.store,
      tied.closed, tied.opened⟩
  · rename_i tx' entry appended
    cases answer
    obtain ⟨stamped, rfl⟩ := appendOp_ok appended
    obtain ⟨operation, own, _⟩ := stamped_operation stamped
    have opens := tied.opened tx current
    have open_yet : committed es entry.txId = false :=
      own ▸ opens.uncommitted (List.subset_append_left _ _)
    refine ⟨tied.file, tied.marker, tied.counter, fun e he => ?_, fun e he => ?_, tied.replay,
      tied.earlier, tied.store,
      fun none_open => (Option.some_ne_none _ none_open).elim, fun tx' same => ?_⟩
    · rw [← List.append_assoc, List.mem_append, List.mem_singleton] at he
      rcases he with old | rfl
      · exact tied.below e old
      · rw [own, UInt64.lt_iff_toNat_lt]
        change _ < p.mem.nextTxId.toNat
        rw [opens.newest]
        exact Nat.lt_succ_self _
    · rcases List.mem_append.mp he with old | new
      · exact tied.loose e old
      · rw [List.mem_singleton.mp new]
        exact ⟨operation, open_yet⟩
    · cases same
      refine ⟨opens.active, opens.newest, ?_, fun e he => ?_, ?_⟩
      · change entriesOf tx.id (es ++ (p.queue ++ [entry])) = tx.entries ++ [entry]
        rw [← List.append_assoc, ← own, entriesOf_snoc_own, own, opens.entries]
      · rcases List.mem_append.mp he with old | new
        · exact opens.operations e old
        · rw [List.mem_singleton.mp new]
          exact operation
      · exact List.rel_append opens.logs (.cons ⟨_, _, stamped⟩ .nil)

theorem tied_discard (tied : Tied crates es n p s)
    (taken : serialStep crates p .discard = some (p', r)) :
    Tied crates es n p' (s.next .discard r) := by
  obtain ⟨tx, current, answer⟩ := Option.map_eq_some_iff.mp taken
  cases answer
  exact ⟨tied.file, tied.marker, tied.counter, tied.below, tied.loose, tied.replay,
    tied.earlier, tied.store,
    fun _ => rfl, fun _ same => by cases same⟩

theorem tied_drain (tied : Tied crates es n p s)
    (taken : serialStep crates p .drain = some (p', r)) :
    Tied crates (es ++ p.queue) n p' (s.next .drain r) := by
  obtain ⟨p', flushed, answer⟩ := Option.map_eq_some_iff.mp taken
  cases answer
  obtain ⟨file, ckpt, queue, mem, current⟩ := flushQueue_some flushed tied.file
  refine ⟨file, ckpt ▸ tied.marker, mem ▸ tied.counter, fun e he => ?_, fun e he => ?_,
    tied.replay_queue.trans tied.replay, tied.earlier, mem ▸ tied.store,
      fun none_open => tied.closed (current ▸ none_open), fun tx same => ?_⟩
  · rw [queue, List.append_nil] at he
    rw [mem]
    exact tied.below e he
  · rw [queue] at he
    cases he
  · rw [queue, List.append_nil, mem]
    exact tied.opened tx (current ▸ same)

theorem logMarker_some {entry : WalEntry} (tied : Tied crates es n p s)
    (flushed : logMarker crates p entry = some p') :
    (∃ bytes, p'.disk.wal = some bytes ∧ ValidLog crates bytes (es ++ p.queue ++ [entry])) ∧
      p'.disk.ckpt = p.disk.ckpt ∧ p'.queue = [] ∧ p'.mem = p.mem := by
  obtain ⟨file, ckpt, queue, mem, _⟩ := flushQueue_some flushed tied.file
  rw [← List.append_assoc] at file
  exact ⟨file, ckpt, queue, mem⟩

theorem Tied.below_marker {tx : Transaction} (tied : Tied crates es n p s)
    (current : p.current = some tx) {entry : WalEntry} (own : entry.txId = tx.id) :
    ∀ e ∈ es ++ p.queue ++ [entry], e.txId < p.mem.nextTxId := by
  intro e he
  rcases List.mem_append.mp he with old | new
  · exact tied.below e old
  · rw [List.mem_singleton.mp new, own, UInt64.lt_iff_toNat_lt, (tied.opened tx current).newest]
    exact Nat.lt_succ_self _

structure Closes (p p' : Process) (entry : WalEntry) : Prop where
  own : ∃ tx, p.current = some tx ∧ entry.txId = tx.id
  ckpt : p'.disk.ckpt = p.disk.ckpt
  counter : p'.mem.nextTxId = p.mem.nextTxId
  queue : p'.queue = []
  current : p'.current = none

theorem tied_close {tx : Transaction} {entry : WalEntry} {q : Process} {store : Store} {s' : Spec}
    (tied : Tied crates es n p s) (current : p.current = some tx) (own : entry.txId = tx.id)
    (flushed : logMarker crates p entry = some q)
    (replay : replayWrites (es ++ p.queue ++ [entry]) = s'.logged.filterMap WalEntry.write?)
    (earlier : ∃ earlier, s'.committed = earlier ++ s'.logged) (rebuilt : store = s'.map)
    (closed : s'.opened = []) :
    Closes p { q with mem := { q.mem with store := store }, current := none } entry ∧
      Tied crates (es ++ p.queue ++ [entry]) n
        { q with mem := { q.mem with store := store }, current := none } s' := by
  obtain ⟨file, ckpt, queue, mem⟩ := logMarker_some tied flushed
  have counter : q.mem.nextTxId = p.mem.nextTxId := by rw [mem]
  refine ⟨⟨⟨tx, current, own⟩, ckpt, counter, queue, rfl⟩,
    ⟨file, ckpt ▸ tied.marker, mem ▸ tied.counter,
    fun e he => ?_, fun e he => ?_, replay, earlier, rebuilt, fun _ => closed,
      fun _ same => by cases same⟩⟩
  · change e ∈ _ ++ q.queue at he
    rw [queue, List.append_nil] at he
    change e.txId < q.mem.nextTxId
    rw [mem]
    exact tied.below_marker current own e he
  · change e ∈ q.queue at he
    rw [queue] at he
    cases he

theorem tied_commit {now : UInt64} (tied : Tied crates es n p s)
    (hit : updatesHit s.map s.opened = true)
    (taken : serialStep crates p (.commit now) = some (p', r)) :
    r = .committed (.ok ()) ∧ ∃ entry, Closes p p' entry ∧
      Tied crates (es ++ p.queue ++ [entry]) n p' (s.next (.commit now) r) := by
  obtain ⟨tx, current, answer⟩ := Option.bind_eq_some_iff.mp taken
  have opens := tied.opened tx current
  have entry : tx.commitEntry now = .ok (.commit tx.id now) := by
    simp [Transaction.commitEntry, opens.active]
  rw [entry] at answer
  obtain ⟨q, flushed, answer⟩ := Option.map_eq_some_iff.mp answer
  obtain ⟨_, _, _, mem⟩ := logMarker_some tied flushed
  have applied := applyEntries_hit opens.logs hit
  rw [← tied.store, ← mem] at applied
  rw [applied] at answer
  cases answer
  have above : ∀ id, committed (es ++ p.queue) id = true → id < tx.id := by
    intro id done
    obtain ⟨m, mem, own, _⟩ := committed_mem done
    have low := tied.below m mem
    have other : id ≠ tx.id := by
      rintro rfl
      rw [opens.uncommitted (List.Subset.refl _)] at done
      contradiction
    rw [own, UInt64.lt_iff_toNat_lt, opens.newest] at low
    rw [Ne, ← UInt64.toNat_inj] at other
    rw [UInt64.lt_iff_toNat_lt]
    omega
  refine ⟨rfl, .commit tx.id now, tied_close tied current rfl flushed ?_ ?_ ?_ rfl⟩
  · change _ = (s.logged ++ s.opened).filterMap WalEntry.write?
    rw [replayWrites_commit above, tied.replay_queue, tied.replay, writesOf, opens.entries,
      logs_writes opens.logs,
      List.filterMap_append]
  · obtain ⟨earlier, split⟩ := tied.earlier
    exact ⟨earlier, by change s.committed ++ s.opened = _; rw [split, List.append_assoc]; rfl⟩
  · change applyAll q.mem.store _ = applyAll _ ((s.committed ++ s.opened).filterMap WalEntry.write?)
    rw [mem, tied.store, Spec.map, List.filterMap_append, applyAll_append]

theorem tied_abort {now : UInt64} (tied : Tied crates es n p s)
    (taken : serialStep crates p (.abort now) = some (p', r)) :
    ∃ entry, Closes p p' entry ∧ Tied crates (es ++ p.queue ++ [entry]) n p'
      (s.next (.abort now) r) := by
  obtain ⟨tx, current, answer⟩ := Option.bind_eq_some_iff.mp taken
  have opens := tied.opened tx current
  have entry : tx.abortEntry now = .ok (.abort tx.id now) := by simp [Transaction.abortEntry,
    opens.active]
  rw [entry] at answer
  obtain ⟨q, flushed, answer⟩ := Option.map_eq_some_iff.mp answer
  obtain ⟨_, _, _, mem⟩ := logMarker_some tied flushed
  cases answer
  have rebuilt : q.mem.store = s.map := by rw [mem, tied.store]
  refine ⟨.abort tx.id now, tied_close tied current rfl flushed ?_ tied.earlier rebuilt rfl⟩
  change _ = s.logged.filterMap WalEntry.write?
  rw [replayWrites_append_quiet, tied.replay_queue, tied.replay]
  · intro f hf
    rw [List.mem_singleton.mp hf]
    exact opens.uncommitted (List.Subset.refl _)
  · intro f hf
    rw [List.mem_singleton.mp hf]
    rfl

theorem tied_truncate (tied : Tied crates es n p s) (idle : p.current = none) (quiet : p.queue = [])
    (taken : serialStep crates p .truncate = some (p', r)) :
    Tied crates [] n p' (s.next .truncate r) ∧
      p' = { p with disk := { p.disk with wal := some [] } } := by
  obtain ⟨q, flushed, answer⟩ := Option.map_eq_some_iff.mp taken
  cases answer
  obtain ⟨bytes, file, _⟩ := tied.file
  have same : { q with disk := { q.disk with wal := some [] }, queue := [] } =
      { p with disk := { p.disk with wal := some [] } } := by
    rw [flushQueue, file, quiet] at flushed
    dsimp only at flushed
    rw [if_pos (List.forall_mem_nil _)] at flushed
    cases flushed
    rw [quiet]
  rw [same]
  refine ⟨⟨⟨[], rfl, .nil⟩, tied.marker, tied.counter, fun e he => ?_, fun e he => ?_, rfl,
    ⟨s.committed, (List.append_nil _).symm⟩, tied.store, fun _ => tied.closed idle,
      fun tx open_yet => ?_⟩, rfl⟩
  · change e ∈ [] ++ p.queue at he
    rw [quiet] at he
    cases he
  · change e ∈ p.queue at he
    rw [quiet] at he
    cases he
  · rw [show p.current = some tx from open_yet] at idle
    cases idle

theorem checkpoint_current {disk : Disk} {bytes : Bytes} {last : UInt64}
    (file : disk.wal = some bytes)
    (whole : ValidLog crates bytes es) (marker : getLastCheckpoint disk.ckpt = .ok last)
    (before : Store) : let store := applyAll before (replayWrites es)
    checkpoint crates disk store = (.err .noNewCheckpoints, disk, store) ∨
      ∃ id, committed es id = true ∧
        checkpoint crates disk store = (.ok id, { disk with ckpt := setCheckpoint id disk.ckpt }, store) := by
  intro store
  have read := whole.read_all
  have exit : (readLog crates bytes).exit = .headerEof := by rw [read]
  by_cases unnamed : last = 0 ∧ disk.path.isEmpty = true
  · left
    simp [checkpoint, marker, unnamed]
  · by_cases new : ckptIds last (readLog crates bytes).items = []
    · exact .inl (checkpoint_none disk store marker unnamed file exit new)
    · obtain ⟨id, mem, _, result⟩ := checkpoint_some disk store marker unnamed file exit new
      rw [read] at mem result
      have again : applyAll store (ckptWrites last es) = store := ckptWrites_again before last es
      rw [again] at result
      exact .inr ⟨id, (mem_ckptIds.mp mem).2, result⟩

theorem Tied.store_replay (tied : Tied crates es n p s) :
    ∃ before, p.mem.store = applyAll before (replayWrites es) := by
  obtain ⟨earlier, split⟩ := tied.earlier
  refine ⟨applyAll (fun _ => none) (earlier.filterMap WalEntry.write?), ?_⟩
  rw [tied.store, Spec.map, split, List.filterMap_append, applyAll_append, tied.replay]

theorem tied_checkpoint (tied : Tied crates es n p s)
    (taken : serialStep crates p .checkpoint = some (p', r)) :
    Tied crates es n p' (s.next .checkpoint r) ∧
      ((r = .checkpointed (.err .noNewCheckpoints) ∧ p'.disk = p.disk) ∨
        ∃ id, r = .checkpointed (.ok id) ∧ committed es id = true ∧
          getLastCheckpoint p'.disk.ckpt = .ok id) := by
  simp only [serialStep] at taken
  split at taken
  · contradiction
  · cases taken
    obtain ⟨bytes, file, whole⟩ := tied.file
    obtain ⟨last, marker⟩ := tied.marker
    obtain ⟨before, same⟩ := tied.store_replay
    have result := checkpoint_current file whole marker before
    rw [← same] at result
    rcases result with none_new | ⟨id, done, moved⟩
    · rw [none_new]
      exact ⟨⟨tied.file, tied.marker, tied.counter, tied.below, tied.loose, tied.replay,
        tied.earlier, tied.store,
        tied.closed, tied.opened⟩, .inl ⟨rfl, rfl⟩⟩
    · rw [moved]
      have now := getLastCheckpoint_setCheckpoint id p.disk.ckpt
      exact ⟨⟨tied.file, ⟨id, now⟩, tied.counter, tied.below, tied.loose, tied.replay,
        tied.earlier, tied.store,
        tied.closed, tied.opened⟩, .inr ⟨id, rfl, done, now⟩⟩

theorem Tied.recovers (tied : Tied crates es n p s) :
    let out := recoverWithValidation crates p.disk.wal ⟨fun _ => none, 1⟩
    out.2.store = applyAll (fun _ => none) (replayWrites es) ∧
      ((∃ stats, out.1 = .ok stats) ↔ applyAll (fun _ => none) (replayWrites es) "" = none) ∧
      ∀ stats, out.1 = .ok stats → (∀ e ∈ es, e.txId < out.2.nextTxId) ∧
        out.2.nextTxId.toNat ≤ n + 1 ∧
        (es = [] → out.2.nextTxId = 1) := by
  obtain ⟨bytes, file, whole⟩ := tied.file
  have read := whole.read_all
  have readable : (readLog crates bytes).exit ≠ .capacityOverflow := by simp [read]
  have low : ∀ e ∈ es, e.txId.toNat + 1 ≤ p.mem.nextTxId.toNat := fun e he =>
    UInt64.lt_iff_toNat_lt.mp (tied.below e (List.mem_append_left _ he))
  have limit := p.mem.nextTxId.toNat_lt
  have counter := tied.counter
  rw [file]
  refine ⟨by rw [recover_store _ readable, read], ?_, fun stats ok => ?_⟩
  · rw [recover_ok_iff _ readable, read]
    exact and_iff_left (no_overflow_of_lt fun e he => tied.below e (List.mem_append_left _ he))
  · have next := recover_nextTxId readable ok
    rw [read] at next
    cases highest : maxTxId es with
    | none =>
      have empty := maxTxId_eq_none.mp highest
      rw [highest] at next
      subst empty
      exact ⟨List.forall_mem_nil _, by rw [next]; simp, fun _ => next⟩
    | some m =>
      obtain ⟨⟨e, he, rfl⟩, bound⟩ := maxTxId_eq_some highest
      have below := low e he
      have up : (e.txId + 1).toNat = e.txId.toNat + 1 := succ_toNat (by omega)
      rw [highest] at next
      refine ⟨fun f hf => ?_, ?_, fun empty => by rw [empty] at he; cases he⟩
      · rw [next]
        refine lt_of_lt_of_le ?_ (le_max_right _ _)
        have le := UInt64.le_iff_toNat_le.mp (bound f hf)
        rw [UInt64.lt_iff_toNat_lt, up]
        omega
      · rw [next]
        rcases max_choice (1 : UInt64) (e.txId + 1) with one | other
        · change (max (1 : UInt64) (e.txId + 1)).toNat ≤ _
          rw [one]
          simp
        · change (max (1 : UInt64) (e.txId + 1)).toNat ≤ _
          rw [other, up]
          omega

theorem tied_restart
    (tied : Tied crates es n p s) (rebuilt : applyAll (fun _ => none) (replayWrites es) = s.map)
    (absent : s.map "" = none) (taken : serialStep crates p .restart = some (p', r)) :
    Tied crates es n p' (s.next .restart r) ∧ ∃ stats, r = .recovered (.ok stats) := by
  have taken := Option.some.inj taken
  obtain ⟨store, ok, after⟩ := tied.recovers
  rw [rebuilt] at store ok
  obtain ⟨stats, result⟩ := ok.mpr absent
  obtain ⟨below, counter, _⟩ := after stats result
  generalize recoverWithValidation crates p.disk.wal ⟨fun _ => none, 1⟩ = out at *
  cases taken
  refine ⟨⟨tied.file, tied.marker, counter, fun e he => below e (by simpa using he),
    List.forall_mem_nil _, tied.replay,
    tied.earlier, store, fun _ => rfl, fun _ same => by cases same⟩, stats, by rw [result]⟩

def SerialAction.begins : SerialAction → Nat
  | .new => 1
  | _ => 0

def serialPair (crates : Crates) (allowed : Process → Spec → SerialAction → Prop) :
    Paired Process Spec SerialAction Reply := ⟨serialStep crates, Spec.next, allowed⟩

end AsyncWalDb
