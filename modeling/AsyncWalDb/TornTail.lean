import AsyncWalDb.Allocation
import AsyncWalDb.Bincode

/-! A log with a torn tail, recovered, written on and recovered again.
Recovery leaves the torn bytes in the file and the writer appends behind
them, so the next reading loop stops at the tear. What it takes there for a
header may ask for any length, so the allocator is part of the statement. -/
namespace AsyncWalDb

open KeyedWrites Framing

/-- The file once `drain_and_flush` has appended later entries behind the torn bytes. -/
def afterTear (crates : Crates) (wal tail : Bytes) (fs : List WalEntry) : Bytes :=
  wal ++ (tail ++ fs.flatMap (frame crates))

/-- What was committed before the crash and what is committed after it is all applied, by a recovery
that the process lives through. -/
def SurvivesTear (alloc : Nat → Nat → Bool) (crates : Crates) (wal tail : Bytes)
    (es fs : List WalEntry) : Prop :=
  let file := afterTear crates wal tail fs
  (∀ id, committed fs id = true →
    Grants alloc crates file ∧ Applies crates file id (writesOf id fs)) ∧
  ∀ id, committed es id = true →
    Grants alloc crates file ∧ Applies crates file id (writesOf id es)

/-- No frame begins at the tear, and nothing is committed behind it. -/
def StaysTorn (crates : Crates) (tail : Bytes) (fs : List WalEntry) : Prop :=
  let bytes := tail ++ fs.flatMap (frame crates)
  FrontFrames crates bytes [] bytes ∧ ∀ id, committed fs id = false

/-- Later bytes happen to complete the torn frame, and the frames `gs` from there on commit the
later transactions again and leave the earlier ones alone. -/
def Completed (crates : Crates) (tail : Bytes) (es fs : List WalEntry) : Prop :=
  ∃ gs rest, gs ≠ [] ∧ FrontFrames crates (tail ++ fs.flatMap (frame crates)) gs rest ∧
    (∀ id, committed fs id = true → committed gs id = true ∧ writesOf id gs = writesOf id fs) ∧
    ∀ id, committed es id = true →
      writesOf id gs = [] ∧ ∀ m, lastMarker id gs = some m → m.isCommit = true

/-- Where some transaction is committed, every buffer the second recovery asks for is granted. -/
def AllGranted (alloc : Nat → Nat → Bool) (crates : Crates) (wal tail : Bytes)
    (es fs : List WalEntry) : Prop :=
  Unallocatable alloc crates (afterTear crates wal tail fs) →
    ∀ id, committed es id = false ∧ committed fs id = false

variable {alloc : Nat → Nat → Bool} {crates : Crates} {wal tail : Bytes} {es fs gs : List WalEntry}

theorem entriesOf_eq_nil_of_fresh (fresh : ∀ f ∈ fs, ∀ e ∈ es, f.txId ≠ e.txId) {id : UInt64}
    (commit : committed fs id = true) : entriesOf id es = [] := by
  obtain ⟨m, mem, rfl, _⟩ := committed_mem commit
  exact entriesOf_eq_nil.mpr fun e he same => fresh m mem e he same.symm

theorem kept_iff {id : UInt64} (commit : committed es id = true) :
    committed (es ++ gs) id = true ∧ writesOf id (es ++ gs) = writesOf id es ↔
      writesOf id gs = [] ∧ ∀ m, lastMarker id gs = some m → m.isCommit = true := by
  obtain ⟨m, hm, hc⟩ := committed_iff.mp commit
  rw [committed, lastMarker_append, hm, writesOf_append, List.append_right_eq_self, and_comm]
  cases lastMarker id gs <;> simp [hc]

theorem survives_iff (whole : ValidLog crates wal es) (fresh : ∀ f ∈ fs, ∀ e ∈ es, f.txId ≠ e.txId)
    {rest : Bytes} (front : FrontFrames crates (tail ++ fs.flatMap (frame crates)) gs rest) :
    SurvivesTear alloc crates wal tail es fs ↔
      AllGranted alloc crates wal tail es fs ∧
      (∀ id, committed fs id = true → committed gs id = true ∧ writesOf id gs = writesOf id fs) ∧
      ∀ id, committed es id = true → writesOf id gs = [] ∧ ∀ m, lastMarker id gs = some m →
        m.isCommit = true := by
  obtain ⟨exit, _, read⟩ := front.read
  have items : (readLog crates (afterTear crates wal tail fs)).items = es ++ gs := by
    rw [afterTear, whole.read, read]
  have buffers := @not_unallocatable_iff alloc crates (afterTear crates wal tail fs)
  have later : ∀ id, committed fs id = true →
      (committed (es ++ gs) id = true ∧ writesOf id (es ++ gs) = writesOf id fs ↔
        committed gs id = true ∧ writesOf id gs = writesOf id fs) := by
    intro id commit
    have none_early := entriesOf_eq_nil_of_fresh fresh commit
    have own : entriesOf id (es ++ gs) = entriesOf id gs := by
      rw [entriesOf_append, none_early, List.nil_append]
    rw [committed_congr own, writesOf_congr own]
  simp only [SurvivesTear, Applies, items]
  constructor
  · rintro ⟨new, old⟩
    refine ⟨fun fails id => ⟨?_, ?_⟩, fun id h => (later id h).mp (new id h).2.2,
      fun id h => (kept_iff h).mp (old id h).2.2⟩
    · exact Bool.eq_false_iff.mpr fun h => buffers.mpr ⟨(old id h).1, (old id h).2.1⟩ fails
    · exact Bool.eq_false_iff.mpr fun h => buffers.mpr ⟨(new id h).1, (new id h).2.1⟩ fails
  · rintro ⟨granted, new, old⟩
    refine ⟨fun id h => ?_, fun id h => ?_⟩
    · obtain ⟨allocates, readable⟩ := buffers.mp fun fails =>
        Bool.eq_false_iff.mp (granted fails id).2 h
      exact ⟨allocates, readable, (later id h).mpr (new id h)⟩
    · obtain ⟨allocates, readable⟩ := buffers.mp fun fails =>
        Bool.eq_false_iff.mp (granted fails id).1 h
      exact ⟨allocates, readable, (kept_iff h).mpr (old id h)⟩

/-- Everything survives the tear exactly when the buffers are granted and nothing is committed
behind it, or the bytes that follow happen to complete it and to be read on without loss. -/
theorem survives_tear_iff (whole : ValidLog crates wal es)
    (fresh : ∀ f ∈ fs, ∀ e ∈ es, f.txId ≠ e.txId) : SurvivesTear alloc crates wal tail es fs ↔
      AllGranted alloc crates wal tail es fs ∧
        (StaysTorn crates tail fs ∨ Completed crates tail es fs) := by
  have front : FrontFrames crates (tail ++ fs.flatMap (frame crates)) _ _ := readLog_front _
  constructor
  · intro h
    obtain ⟨granted, new, old⟩ := (survives_iff whole fresh front).mp h
    refine ⟨granted, ?_⟩
    by_cases torn : (readLog crates (tail ++ fs.flatMap (frame crates))).items = []
    · left
      obtain ⟨bytes, split, none_read⟩ := front.front
      rw [torn] at none_read front new
      cases none_read
      rw [List.nil_append] at split
      rw [← split] at front
      refine ⟨front, fun id => ?_⟩
      rw [Bool.eq_false_iff]
      intro commit
      exact absurd (new id commit).1 (by simp [committed, lastMarker])
    · exact .inr ⟨_, _, torn, front, new, old⟩
  · rintro ⟨granted, ⟨front, none_new⟩ | ⟨gs, rest, _, front, kept⟩⟩
    · refine (survives_iff whole fresh front).mpr ⟨granted, ?_, ?_⟩
      · intro id commit
        exact absurd commit (Bool.eq_false_iff.mp (none_new id))
      · intro id _
        exact ⟨rfl, fun m hm => by simp [lastMarker] at hm⟩
    · exact (survives_iff whole fresh front).mpr ⟨granted, kept⟩

/-- Recovery of the torn file leaves the counter above every id in it, so later ids are fresh. -/
theorem recovered_fresh (whole : ValidLog crates wal es) {unwritten : Bytes} {e₀ : WalEntry}
    (torn : ValidFrame crates (tail ++ unwritten) e₀) (cut : unwritten ≠ []) {before mem : Memory}
    {stats : RecoveryStats}
    (recovered : recoverAllocating alloc crates (some (wal ++ tail)) before = some (.ok stats, mem))
    (below : ∀ e ∈ es, e.txId + 1 ≠ 0) {id : UInt64} (drawn : mem.nextTxId ≤ id) :
    ∀ e ∈ es, id ≠ e.txId := by
  have read : (readLog crates (wal ++ tail)).items = es := by rw [whole.read_torn torn cut]
  obtain ⟨_, returned⟩ := recoverAllocating_eq_some.mp recovered
  have above := recover_above (congrArg Prod.fst returned) (by rw [read]; exact below)
  rw [read, returned] at above
  rintro e he rfl
  exact absurd (above e he) (not_lt_of_ge drawn)

def tornLog : List WalEntry := [.insert 1 7 "a" [1], .commit 1 7]

def tornFrame : Bytes := frame (Bincode.crates true) (.insert 2 7 "b" [2])

def tornMore : List WalEntry := [.insert 3 9 "c" [3], .commit 3 9]

theorem tear_hides_later_commits :
    ¬ ∀ (alloc : Nat → Nat → Bool) (crates : Crates) (wal tail unwritten : Bytes) (e₀ : WalEntry)
      (es fs : List WalEntry) (stats : RecoveryStats) (mem : Memory),
      ValidLog crates wal es → ValidFrame crates (tail ++ unwritten) e₀ →
      tail ≠ [] → unwritten ≠ [] →
      recoverAllocating alloc crates (some (wal ++ tail)) ⟨fun _ => none, 1⟩ =
        some (.ok stats, mem) →
      (∀ f ∈ fs, mem.nextTxId ≤ f.txId) → (∀ f ∈ fs, crates.Fits f) →
      Grants alloc crates (afterTear crates wal tail fs) →
      SurvivesTear alloc crates wal tail es fs := by
  intro claim
  have survives :=
    claim megabyte (Bincode.crates true) (tornLog.flatMap (frame (Bincode.crates true)))
    (tornFrame.take 20) (tornFrame.drop 20) (.insert 2 7 "b" [2]) tornLog tornMore
    { totalTransactions := 1, committed := 1, partialWrites := 1 }
    (recoverWithValidation (Bincode.crates true)
      (some (tornLog.flatMap (frame (Bincode.crates true)) ++ tornFrame.take 20))
        ⟨fun _ => none, 1⟩).2
    (ValidLog.of_entries (by decide +kernel))
      (by rw [List.take_append_drop]; exact frame_valid (by decide +kernel))
    (by decide +kernel) (by decide +kernel)
    (recoverAllocating_eq_some.mpr ⟨by decide +kernel, Prod.ext (by decide +kernel) rfl⟩)
    (by decide +kernel) (by decide +kernel) (by decide +kernel)
  have applied := (survives.1 3 (by decide +kernel)).2.2.1
  revert applied
  decide +kernel

theorem survives_tear_iff_tornLog :
    SurvivesTear megabyte (Bincode.crates true) (tornLog.flatMap (frame (Bincode.crates true)))
        (tornFrame.take 20) tornLog tornMore ↔
      AllGranted megabyte (Bincode.crates true) (tornLog.flatMap (frame (Bincode.crates true)))
          (tornFrame.take 20) tornLog tornMore ∧
        (StaysTorn (Bincode.crates true) (tornFrame.take 20) tornMore ∨
          Completed (Bincode.crates true) (tornFrame.take 20) tornLog tornMore) :=
  survives_tear_iff (ValidLog.of_entries (by decide +kernel)) (by decide)

end AsyncWalDb
