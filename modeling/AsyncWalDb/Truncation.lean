import AsyncWalDb.Bincode
import AsyncWalDb.Serial

/-! Truncation after a checkpoint. The marker is all that a checkpoint writes, so the log it allows
to drop is the only copy of the data: a recovery rebuilds what was committed since the truncation,
and numbers transactions from 1 when that is nothing. -/
namespace AsyncWalDb

open KeyedWrites Refinement

/-- Every key that is present was written again after the last truncation, the empty key is absent,
and an empty file goes with no marker. -/
def Relogged (p : Process) (s : Spec) : Prop :=
  (∀ w ∈ s.committed.filterMap WalEntry.write?, (p.mem.store w.key).isSome = true →
    ∃ v ∈ s.logged.filterMap WalEntry.write?, v.key = w.key) ∧
  p.mem.store "" = none ∧ (p.disk.wal = some [] → getLastCheckpoint p.disk.ckpt = .ok 0)

instance (p : Process) (s : Spec) : Decidable (Relogged p s) := by
  unfold Relogged
  infer_instance

/-- Commits whose updates hit, truncations right after a checkpoint that returned Ok with nothing
open or queued, and crashes from which the data comes back. -/
def TruncatingCalls (p : Process) (s : Spec) : SerialAction → Prop
  | .commit _ => updatesHit s.map s.opened = true
  | .truncate => s.checkpointed = true ∧ p.current = none ∧ p.queue = []
  | .restart => Relogged p s
  | _ => True

instance (p : Process) (s : Spec) (a : SerialAction) : Decidable (TruncatingCalls p s a) :=
  match a with
  | .commit _ => inferInstanceAs (Decidable (updatesHit s.map s.opened = true))
  | .truncate =>
    inferInstanceAs (Decidable (s.checkpointed = true ∧ p.current = none ∧ p.queue = []))
  | .restart => inferInstanceAs (Decidable (Relogged p s))
  | .new | .appendOp _ _ | .abort _ | .discard | .drain | .checkpoint => .isTrue trivial

instance (crates : Crates) (p : Process) (s : Spec) (a : SerialAction) :
    Decidable ((serialPair crates TruncatingCalls).allowed p s a) :=
  inferInstanceAs (Decidable (TruncatingCalls p s a))

/-- After a crash here a new process recovers the live store, and the transactions that begin, with
or without the crash, have ids above the marker. -/
def SurvivesCrash (crates : Crates) (p : Process) : Prop :=
  ∃ last p' stats, getLastCheckpoint p.disk.ckpt = .ok last ∧ last < p.mem.nextTxId ∧
    serialStep crates p .restart = some (p', .recovered (.ok stats)) ∧ p'.mem.store = p.mem.store ∧
    last < p'.mem.nextTxId

variable {crates : Crates} {p p' : Process} {s : Spec} {es : List WalEntry} {a : SerialAction}
  {r : Reply} {last : UInt64} {n : Nat}

structure Seen (es : List WalEntry) (last : UInt64) (p : Process) : Prop where
  marker : getLastCheckpoint p.disk.ckpt = .ok last
  below : last < p.mem.nextTxId
  reached : (∃ e ∈ es, last ≤ e.txId) ∨
    ((∀ e ∈ es ++ p.queue, last < e.txId) ∧ ∀ tx, p.current = some tx → last < tx.id)

theorem seen_new (seen : Seen es last p) (counter : p.mem.nextTxId.toNat + 1 < 2 ^ 64)
    (taken : serialStep crates p .new = some (p', r)) : Seen es last p' := by
  simp only [serialStep] at taken
  split at taken
  · contradiction
  · cases taken
    refine ⟨seen.marker, ?_, seen.reached.imp_right fun beyond => ⟨beyond.1, fun tx same => ?_⟩⟩
    · have below := seen.below
      have up := succ_toNat counter
      rw [UInt64.lt_iff_toNat_lt] at below ⊢
      change last.toNat < (p.mem.nextTxId + 1).toNat
      omega
    · cases same
      exact seen.below

theorem seen_appendOp {op : WalEntry} {now : UInt64} (seen : Seen es last p)
    (taken : serialStep crates p (.appendOp op now) = some (p', r)) : Seen es last p' := by
  obtain ⟨tx, current, answer⟩ := Option.map_eq_some_iff.mp taken
  split at answer
  · cases answer
    exact seen
  · rename_i tx' entry appended
    cases answer
    obtain ⟨stamped, rfl⟩ := appendOp_ok appended
    obtain ⟨_, own, _⟩ := stamped_operation stamped
    refine ⟨seen.marker, seen.below, seen.reached.imp_right fun beyond => ⟨fun e he => ?_,
      fun tx' same => ?_⟩⟩
    · rw [← List.append_assoc, List.mem_append, List.mem_singleton] at he
      rcases he with old | rfl
      · exact beyond.1 e old
      · rw [own]
        exact beyond.2 tx current
    · cases same
      exact beyond.2 tx current

theorem seen_close {entry : WalEntry} (seen : Seen es last p) (closes : Closes p p' entry) :
    Seen (es ++ p.queue ++ [entry]) last p' := by
  refine ⟨closes.ckpt ▸ seen.marker, closes.counter ▸ seen.below, ?_⟩
  rcases seen.reached with ⟨e, he, le⟩ | ⟨beyond, open_beyond⟩
  · exact .inl ⟨e, List.mem_append_left _ (List.mem_append_left _ he), le⟩
  · refine .inr ⟨fun e he => ?_, fun tx same => ?_⟩
    · rw [closes.queue, List.append_nil, List.mem_append, List.mem_singleton] at he
      obtain ⟨tx, current, own⟩ := closes.own
      rcases he with old | rfl
      · exact beyond e old
      · rw [own]
        exact open_beyond tx current
    · rw [closes.current] at same
      cases same

theorem seen_discard (seen : Seen es last p) (taken : serialStep crates p .discard = some (p', r)) :
    Seen es last p' := by
  obtain ⟨tx, current, answer⟩ := Option.map_eq_some_iff.mp taken
  cases answer
  exact ⟨seen.marker, seen.below, seen.reached.imp_right fun beyond => ⟨beyond.1,
    fun _ same => by cases same⟩⟩

theorem seen_drain (tied : Tied crates es n p s) (seen : Seen es last p)
    (taken : serialStep crates p .drain = some (p', r)) : Seen (es ++ p.queue) last p' := by
  obtain ⟨p', flushed, answer⟩ := Option.map_eq_some_iff.mp taken
  cases answer
  obtain ⟨_, ckpt, queue, mem, current⟩ := flushQueue_some flushed tied.file
  refine ⟨ckpt ▸ seen.marker, mem ▸ seen.below, ?_⟩
  rw [queue, current, List.append_nil]
  exact seen.reached.imp_left fun ⟨e, he, le⟩ => ⟨e, List.mem_append_left _ he, le⟩

theorem checkpoint_frame (taken : serialStep crates p .checkpoint = some (p', r)) :
    p'.mem.nextTxId = p.mem.nextTxId ∧ p'.queue = p.queue ∧ p'.current = p.current := by
  simp only [serialStep] at taken
  split at taken
  · contradiction
  · cases taken
    exact ⟨rfl, rfl, rfl⟩

def Truncated (crates : Crates) (n : Nat) (p : Process) (s : Spec) : Prop :=
  ∃ es last, Tied crates es n p s ∧ Seen es last p

theorem Tied.rebuilds_iff (tied : Tied crates es n p s) :
    applyAll (fun _ => none) (replayWrites es) = s.map ↔
      ∀ w ∈ s.committed.filterMap WalEntry.write?, (p.mem.store w.key).isSome = true →
        ∃ v ∈ s.logged.filterMap WalEntry.write?, v.key = w.key := by
  obtain ⟨earlier, split⟩ := tied.earlier
  rw [tied.replay, tied.store, Spec.map, split, List.filterMap_append]
  exact applyAll_suffix_iff _ _

theorem ValidLog.empty_iff {bytes : Bytes} (whole : ValidLog crates bytes es) :
    bytes = [] ↔ es = [] := by
  constructor
  · rintro rfl
    exact congrArg Framing.Reading.items (whole.read_all.symm.trans ValidLog.nil.read_all)
  · rintro rfl
    cases whole
    rfl

theorem survivesCrash_iff (tied : Tied crates es n p s) (seen : Seen es last p) :
    SurvivesCrash crates p ↔ Relogged p s := by
  obtain ⟨bytes, file, whole⟩ := tied.file
  obtain ⟨store, ok, after⟩ := tied.recovers
  have marker := seen.marker
  constructor
  · rintro ⟨last', p', stats, marker', _, restarted, same, above⟩
    cases Except.ok.inj (marker.symm.trans marker')
    have restarted := Option.some.inj restarted
    generalize recoverWithValidation crates p.disk.wal ⟨fun _ => none, 1⟩ = out at *
    obtain ⟨rfl, result⟩ := Prod.mk.inj restarted
    have result : out.1 = .ok stats := by simpa using result
    have rebuilt := store.symm.trans same
    refine ⟨tied.rebuilds_iff.mp (rebuilt.trans tied.store), ?_, fun empty => ?_⟩
    · rw [← rebuilt]
      exact ok.mp ⟨stats, result⟩
    · rw [file] at empty
      obtain ⟨_, _, first⟩ := after stats result
      change last < out.2.nextTxId at above
      rw [first (whole.empty_iff.mp (Option.some.inj empty)), UInt64.lt_iff_toNat_lt] at above
      have zero : last.toNat = 0 := by simpa using above
      rw [marker, UInt64.toNat_inj.mp (zero.trans (UInt64.toNat_zero).symm)]
  · rintro ⟨rewritten, absent, empty⟩
    have rebuilt := tied.rebuilds_iff.mpr rewritten
    rw [rebuilt, ← tied.store] at store ok
    obtain ⟨stats, result⟩ := ok.mpr absent
    obtain ⟨below, _, first⟩ := after stats result
    refine ⟨last, ⟨p.disk, [], (recoverWithValidation crates p.disk.wal ⟨fun _ => none, 1⟩).2,
      none⟩, stats, marker,
      seen.below, ?_, store, ?_⟩
    · rw [serialStep, result]
    · change last < (recoverWithValidation crates p.disk.wal ⟨fun _ => none, 1⟩).2.nextTxId
      rcases seen.reached with ⟨e, he, le⟩ | ⟨beyond, _⟩
      · exact lt_of_le_of_lt le (below e he)
      · cases es with
        | nil =>
          rw [file, whole.empty_iff.mpr rfl] at empty
          cases Except.ok.inj (marker.symm.trans (empty rfl))
          rw [first rfl]
          decide
        | cons e es =>
          exact lt_trans (beyond e List.mem_cons_self) (below e List.mem_cons_self)

theorem truncated_step (truncated : Truncated crates n p s) (within : n + a.begins ≤ 2 ^ 64 - 2)
    (ok : TruncatingCalls p s a) (taken : serialStep crates p a = some (p', r)) :
    Truncated crates (n + a.begins) p' (s.next a r) := by
  obtain ⟨es, last, tied, seen⟩ := truncated
  cases a with
  | new =>
    have counter := tied.counter
    simp only [SerialAction.begins] at within
    exact ⟨es, last, tied_new tied within taken, seen_new seen (by omega) taken⟩
  | appendOp op now => exact ⟨es, last, tied_appendOp tied taken, seen_appendOp seen taken⟩
  | commit now =>
    obtain ⟨_, entry, closes, next⟩ := tied_commit tied ok taken
    exact ⟨_, last, next, seen_close seen closes⟩
  | abort now =>
    obtain ⟨entry, closes, next⟩ := tied_abort tied taken
    exact ⟨_, last, next, seen_close seen closes⟩
  | discard => exact ⟨es, last, tied_discard tied taken, seen_discard seen taken⟩
  | drain => exact ⟨_, last, tied_drain tied taken, seen_drain tied seen taken⟩
  | checkpoint =>
    obtain ⟨next, outcome⟩ := tied_checkpoint tied taken
    obtain ⟨counter, queue, current⟩ := checkpoint_frame taken
    rcases outcome with ⟨_, disk⟩ | ⟨id, _, done, marker⟩
    · exact ⟨es, last, next, by rw [disk]; exact seen.marker, counter ▸ seen.below,
        by rw [queue, current]; exact seen.reached⟩
    · obtain ⟨m, mem, own, _⟩ := committed_mem done
      refine ⟨es, id, next, marker, ?_, .inl ⟨m, mem, own.ge⟩⟩
      rw [counter, ← own]
      exact tied.below m (List.mem_append_left _ mem)
  | truncate =>
    obtain ⟨_, idle, quiet⟩ := ok
    obtain ⟨next, rfl⟩ := tied_truncate tied idle quiet taken
    refine ⟨[], last, next, seen.marker, seen.below, .inr ⟨fun e he => ?_, fun tx same => ?_⟩⟩
    · change e ∈ [] ++ p.queue at he
      rw [quiet] at he
      cases he
    · rw [show p.current = some tx from same] at idle
      cases idle
  | restart =>
    obtain ⟨next, _⟩ := tied_restart tied (tied.rebuilds_iff.mpr ok.1) (tied.store ▸ ok.2.1) taken
    obtain ⟨last', q, stats, marker, _, restarted, _, above⟩ := (survivesCrash_iff tied seen).mpr ok
    cases Except.ok.inj (seen.marker.symm.trans marker)
    obtain ⟨rfl, _⟩ := Prod.mk.inj (Option.some.inj (taken.symm.trans restarted))
    have crashed := Option.some.inj taken
    have disk : p'.disk = p.disk := (congrArg (fun out => out.1.disk) crashed).symm
    have queue : p'.queue = [] := (congrArg (fun out => out.1.queue) crashed).symm
    have current : p'.current = none := (congrArg (fun out => out.1.current) crashed).symm
    refine ⟨es, last, next, by rw [disk]; exact marker, above, seen.reached.imp_right
      fun beyond => ⟨fun e he => ?_, fun tx same => ?_⟩⟩
    · rw [queue, List.append_nil] at he
      exact beyond.1 e (List.mem_append_left _ he)
    · rw [current] at same
      cases same

theorem truncated_fresh (path : String) : Truncated crates 0 (.fresh path) .start := by
  refine ⟨[], 0, ⟨⟨[], rfl, .nil⟩, ⟨0, rfl⟩, le_rfl, List.forall_mem_nil _, List.forall_mem_nil _,
    rfl, ⟨[], rfl⟩, rfl,
    fun _ => rfl, fun _ same => by cases same⟩, rfl, ?_,
      .inr ⟨List.forall_mem_nil _, fun _ same => by cases same⟩⟩
  change (0 : UInt64) < 1
  decide

/-- At every point of a run with truncations a crash loses nothing, and ids stay above the marker,
exactly when all that is present was written again since the last truncation. -/
theorem truncation_survives_iff {path : String} {as : List SerialAction}
    (run : (serialPair crates TruncatingCalls).exec (.fresh path, .start) as = some (p, s))
    (few : (as.map SerialAction.begins).sum < 2 ^ 64 - 1) : SurvivesCrash crates p ↔
      Relogged p s := by
  have truncated : Truncated crates (0 + (as.map SerialAction.begins).sum) p s :=
    Paired.exec_invariant (P := serialPair crates TruncatingCalls) SerialAction.begins (2 ^ 64 - 2)
      (fun truncated within ok taken => truncated_step truncated within ok taken) run
        (truncated_fresh path) (by omega)
  obtain ⟨es, last, tied, seen⟩ := truncated
  exact survivesCrash_iff tied seen

def truncatedLife : List SerialAction := [.new, .appendOp (.insert 0 0 "k" [1]) 7, .commit 7,
    .checkpoint, .truncate]

theorem truncation_loses_store :
    ¬ ∀ (crates : Crates) (path : String) (as : List SerialAction) (p : Process) (s : Spec),
      (serialPair crates TruncatingCalls).exec (.fresh path, .start) as = some (p, s) →
        .restart ∉ as →
      SurvivesCrash crates p := by
  intro claim
  let out := ((serialPair (Bincode.crates true) TruncatingCalls).exec (.fresh "wal.log", .start)
    truncatedLife).get (by decide +kernel)
  obtain ⟨last, p', stats, _, _, restarted, same, _⟩ :=
    claim (Bincode.crates true) "wal.log" truncatedLife out.1 out.2
    (Option.some_get _).symm (by decide)
  have live : out.1.mem.store "k" = some [1] := by decide +kernel
  have lost : ((serialStep (Bincode.crates true) out.1 .restart).map
      fun out => out.1.mem.store "k") = some none := by
    decide +kernel
  rw [restarted, Option.map_some, same, live] at lost
  cases lost

def relogged : List SerialAction :=
  truncatedLife ++ [.new, .appendOp (.update 0 0 "k" [1] [2]) 7, .commit 7]

theorem truncation_survives_iff_relogged :
    let out := ((serialPair (Bincode.crates true) TruncatingCalls).exec (.fresh "wal.log", .start)
      relogged).get (by decide +kernel)
    SurvivesCrash (Bincode.crates true) out.1 :=
  (truncation_survives_iff (Option.some_get _).symm (by decide)).mpr (by decide +kernel)

end AsyncWalDb
