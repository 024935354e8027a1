import AsyncWalDb.Bincode
import AsyncWalDb.Checkpoint

/-! Two checkpoints with commits in between, against one checkpoint at the end. The marker is the
highest committed id, so a transaction of a lower id that commits later is never applied. -/
namespace AsyncWalDb

open KeyedWrites Framing

def markerAfter (es : List WalEntry) : UInt64 := (committedIds es).max?.getD 0

def checkpointOnce (crates : Crates) (path : String) (wal : Bytes) : Store :=
  (checkpoint crates ⟨path, some wal, none⟩ fun _ => none).2.2

def checkpointTwice (crates : Crates) (path : String) (wal more : Bytes) : Store :=
  let first := checkpoint crates ⟨path, some wal, none⟩ fun _ => none
  (checkpoint crates { first.2.1 with wal := some (wal ++ more) } first.2.2).2.2

/-- On every key that no transaction above the marker writes, the last committed write among
the ids at or below the marker leaves the same value with the later frames as without. -/
def NothingLate (es fs : List WalEntry) : Prop :=
  ∀ k, lastOn k (ckptWrites (markerAfter es) (es ++ fs)) = none →
    (lastOn k (replayWrites es)).getD none =
      (lastOn k (belowWrites (markerAfter es) (es ++ fs))).getD none

theorem committed_pos {es : List WalEntry} (positive : ∀ e ∈ es, e.txId ≠ 0) {id : UInt64}
    (h : committed es id = true) : 0 < id := by
  obtain ⟨m, mem, own, _⟩ := committed_mem h
  have nonzero := positive m mem
  rw [own] at nonzero
  exact UInt64.pos_iff_ne_zero.mpr nonzero

theorem ckptIds_zero {es : List WalEntry} (positive : ∀ e ∈ es, e.txId ≠ 0) :
    ckptIds 0 es = committedIds es := by
  rw [ckptIds, List.filter_eq_self]
  intro id hid
  simpa using committed_pos positive (mem_committedIds.mp hid)

theorem ckptWrites_zero {es : List WalEntry} (positive : ∀ e ∈ es, e.txId ≠ 0) :
    ckptWrites 0 es = replayWrites es := by
  rw [ckptWrites, ckptIds_zero positive, replayWrites]

section Files

variable {crates : Crates} {path : String} {wal more : Bytes} {es fs : List WalEntry}
  (whole : ValidLog crates wal es) (named : path.isEmpty = false)

include whole named

theorem checkpointOnce_eq (positive : ∀ e ∈ es, e.txId ≠ 0) :
    checkpointOnce crates path wal = applyAll (fun _ => none) (replayWrites es) := by
  have read := whole.read_all
  rw [checkpointOnce, checkpoint_store ⟨path, some wal, none⟩ (fun _ => none) rfl (by simp [named])
    rfl (by rw [read]), read,
    ckptWrites_zero positive]

theorem checkpoint_first (positive : ∀ e ∈ es, e.txId ≠ 0) :
    let first := checkpoint crates ⟨path, some wal, none⟩ fun _ => none
    first.2.2 = applyAll (fun _ => none) (replayWrites es) ∧
      getLastCheckpoint first.2.1.ckpt = .ok (markerAfter es) ∧ first.2.1.path = path := by
  have read := whole.read_all
  have exit : (readLog crates wal).exit = .headerEof := by rw [read]
  refine ⟨checkpointOnce_eq whole named positive, ?_⟩
  by_cases new : ckptIds 0 (readLog crates wal).items = []
  · have none_committed : committedIds es = [] := by rw [← ckptIds_zero positive, ← new, read]
    rw [checkpoint_none ⟨path, some wal, none⟩ _ rfl (by simp [named]) rfl exit new,
      markerAfter, none_committed]
    exact ⟨rfl, rfl⟩
  · obtain ⟨id, mem, bound, result⟩ := checkpoint_some ⟨path, some wal, none⟩ (fun _ => none)
      rfl (by simp [named]) rfl exit new
    rw [read, ckptIds_zero positive] at mem bound
    have highest : markerAfter es = id := by
      rw [markerAfter, List.max?_eq_some_iff.mpr ⟨mem, bound⟩]; rfl
    rw [result, highest]
    exact ⟨getLastCheckpoint_setCheckpoint _ _, rfl⟩

/-- Two checkpoints leave what one leaves exactly when no late write decides a key. -/
theorem checkpoints_compose_iff (whole' : ValidLog crates more fs)
    (positive : ∀ e ∈ es ++ fs, e.txId ≠ 0) :
    checkpointTwice crates path wal more = checkpointOnce crates path (wal ++ more) ↔
      NothingLate es fs := by
  have positive_es : ∀ e ∈ es, e.txId ≠ 0 := fun e he => positive e (List.mem_append_left _ he)
  obtain ⟨store, marker, same_path⟩ := checkpoint_first whole named positive_es
  have both := whole.append whole'
  have read := both.read_all
  have second : checkpointTwice crates path wal more =
      applyAll (applyAll (fun _ => none) (replayWrites es))
        (ckptWrites (markerAfter es) (es ++ fs)) := by
    rw [checkpointTwice]
    generalize checkpoint crates ⟨path, some wal, none⟩ (fun _ => none) = first
      at store marker same_path ⊢
    obtain ⟨result, ⟨path', wal', ckpt'⟩, store'⟩ := first
    dsimp only at store marker same_path ⊢
    subst same_path store
    rw [checkpoint_store ⟨_, some (wal ++ more), ckpt'⟩ _ marker (by simp [named]) rfl
      (by rw [read]), read]
  rw [second, checkpointOnce_eq both named positive, replayWrites_split (markerAfter es) (es ++ fs),
    ← applyAll_append, applyAll_eq_iff]
  refine forall_congr' fun k => ?_
  rw [lastOn_append, lastOn_append]
  cases lastOn k (ckptWrites (markerAfter es) (es ++ fs)) <;> simp

end Files

def gapLog : List WalEntry := [.insert 1 7 "early" [1], .insert 2 7 "k" [2], .commit 2 7]

def gapMore : List WalEntry := [.commit 1 7]

/-- The second checkpoint never applies the transaction that commits late. -/
theorem checkpoints_skip_late_commit :
    ¬ ∀ (crates : Crates) (path : String) (wal more : Bytes) (es fs : List WalEntry),
      ValidLog crates wal es → ValidLog crates more fs →
      path.isEmpty = false → (∀ e ∈ es ++ fs, e.txId ≠ 0) →
      checkpointTwice crates path wal more = checkpointOnce crates path (wal ++ more) := by
  intro claim
  have same := claim (Bincode.crates true) "wal.log" _ _ gapLog gapMore
    (ValidLog.of_entries (by decide +kernel))
    (ValidLog.of_entries (by decide +kernel)) (by decide +kernel) (by decide)
  have early := congrFun same "early"
  revert early
  decide +kernel

theorem checkpoints_compose_iff_gapLog :
    checkpointTwice (Bincode.crates true) "wal.log" (gapLog.flatMap (frame (Bincode.crates true)))
        (gapMore.flatMap (frame (Bincode.crates true))) =
      checkpointOnce (Bincode.crates true) "wal.log"
        (gapLog.flatMap (frame (Bincode.crates true)) ++
          gapMore.flatMap (frame (Bincode.crates true))) ↔ NothingLate gapLog gapMore :=
  checkpoints_compose_iff (ValidLog.of_entries (by decide +kernel)) (by decide +kernel)
    (ValidLog.of_entries (by decide +kernel)) (by decide)

end AsyncWalDb
