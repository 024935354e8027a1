import AsyncWalDb.CheckpointRecover
import AsyncWalDb.TornTail

/-! The exits of a checkpoint. All of them come before the first change
but the last, which moves store and marker; and a short payload at the
end of the file is an exit, where recovery stops and goes on. -/
namespace AsyncWalDb

open KeyedWrites Framing

/-- What a checkpoint that returns Ok leaves: the marker of the highest transaction committed in the
file, and nothing for a second one to do. -/
structure Moved (crates : Crates) (disk disk' : Disk) (store' : Store) (lastCkpt n : UInt64) :
    Prop where
  above : lastCkpt < n
  highest : ∃ front rest es, disk.wal = some (front ++ rest) ∧ ValidLog crates front es ∧
    rest.length < WalEntryHeader.SIZE ∧ committed es n = true ∧ ∀ id,
      committed es id = true → id ≤ n
  files : disk'.path = disk.path ∧ disk'.wal = disk.wal
  marker : getLastCheckpoint disk'.ckpt = .ok n
  again : checkpoint crates disk' store' = (.err .noNewCheckpoints, disk', store')

def SameEnd (out out' : Outcome UInt64 × Disk × Store) : Prop :=
  out.1 = out'.1 ∧ out.2.1.ckpt = out'.2.1.ckpt ∧ out.2.2 = out'.2.2

variable {crates : Crates} {disk : Disk} {store : Store} {lastCkpt : UInt64}

theorem Advances.moved {n : UInt64} {bytes : Bytes}
    (h : Advances crates disk store lastCkpt n bytes) :
    Moved crates disk { disk with ckpt := setCheckpoint n disk.ckpt }
      (applyAll store (ckptWrites lastCkpt (readLog crates bytes).items)) lastCkpt n := by
  obtain ⟨above, done⟩ := mem_ckptIds.mp h.new
  have highest : ∀ id, committed (readLog crates bytes).items id = true → id ≤ n := by
    intro id other
    rcases lt_or_ge lastCkpt id with high | low
    · exact h.highest id (mem_ckptIds.mpr ⟨high, other⟩)
    · exact le_trans low (le_of_lt above)
  have marker := getLastCheckpoint_setCheckpoint n disk.ckpt
  obtain ⟨front, rest, split, whole, short⟩ := readLog_whole h.readable
  refine ⟨above, ⟨front, rest, _, split ▸ h.file, whole, short, done, highest⟩,
    ⟨rfl, rfl⟩, marker, ?_⟩
  have path : ¬ (n = 0 ∧ disk.path.isEmpty = true) := by
    rintro ⟨rfl, _⟩
    exact UInt64.not_lt_zero above
  have none_new : ckptIds n (readLog crates bytes).items = [] := by
    rw [List.eq_nil_iff_forall_not_mem]
    intro id mem
    obtain ⟨higher, other⟩ := mem_ckptIds.mp mem
    exact absurd higher (not_lt.mpr (highest id other))
  exact checkpoint_none { disk with ckpt := setCheckpoint n disk.ckpt } _ marker path h.file
    h.readable none_new

/-- Whatever goes wrong before the marker write, a checkpoint that does not return Ok changes
neither store nor marker. -/
theorem checkpoint_moves_together (marker : getLastCheckpoint disk.ckpt = .ok lastCkpt)
    (fault : IoFault) (marked : ∀ e text, fault ≠ .writeMarker e text) :
    let out := checkpointWith crates fault disk store
    ((∀ n, out.1 ≠ .ok n) → out.2 = (disk, store)) ∧ ∀ n, out.1 = .ok n →
      Moved crates disk out.2.1 out.2.2 lastCkpt n := by
  intro out
  rcases checkpointWith_cases fault disk store with plain | ⟨e, stopped⟩ | ⟨e, text, torn, _⟩
  · change out = _ at plain
    rw [plain]
    rcases checkpoint_exits crates disk store with ⟨fails, kept⟩ | ⟨last, id, bytes, advances⟩
    · exact ⟨fun _ => kept, fun n ok => absurd ok (fails n)⟩
    · have same : lastCkpt = last := Except.ok.inj (marker.symm.trans advances.marker)
      subst same
      rw [advances.result]
      refine ⟨fun fails => absurd rfl (fails id), fun n ok => ?_⟩
      cases ok
      exact advances.moved
  · change out = _ at stopped
    rw [stopped]
    exact ⟨fun _ => rfl, fun n ok => by cases ok⟩
  · exact absurd torn (marked e text)

def markedDisk : Disk :=
  ⟨"wal.log",
    some (([.commit 1 7, .insert 2 7 "k" [2], .commit 3 8, .commit 2 8, .abort 3 9] : List
    WalEntry).flatMap
    (frame (Bincode.crates true))), some ['1']⟩

theorem checkpoint_moves_together_markedDisk :
    let out := checkpointWith (Bincode.crates true) .none markedDisk fun _ => none
    ((∀ n, out.1 ≠ .ok n) → out.2 = (markedDisk, fun _ => none)) ∧
      ∀ n, out.1 = .ok n → Moved (Bincode.crates true) markedDisk out.2.1 out.2.2 1 n :=
  checkpoint_moves_together (by decide +kernel) .none fun _ _ h => by cases h

section Torn

variable {wal tail unwritten : Bytes} {es : List WalEntry} {e : WalEntry}

/-- A checkpoint does the same with the torn tail as without exactly when the cut leaves less than a
header, or the loop is not reached at all. -/
theorem checkpoint_torn_iff (whole : ValidLog crates wal es)
    (valid : ValidFrame crates (tail ++ unwritten) e) (cut : unwritten ≠ []) :
    SameEnd (checkpoint crates { disk with wal := some (wal ++ tail) } store)
        (checkpoint crates { disk with wal := some wal } store) ↔
      tail.length < WalEntryHeader.SIZE ∨
        ∀ lastCkpt, getLastCheckpoint disk.ckpt = .ok lastCkpt → lastCkpt = 0 ∧
          disk.path.isEmpty = true := by
  have torn := whole.read_torn valid cut
  have alone := whole.read_all
  constructor
  · intro same
    by_contra neither
    push Not at neither
    obtain ⟨long, lastCkpt, marker, path⟩ := neither
    have path : ¬ (lastCkpt = 0 ∧ disk.path.isEmpty = true) := fun h => path h.1 h.2
    have fails : (checkpoint crates { disk with wal := some (wal ++ tail) } store).1 =
        .err (.io .unexpectedEof) := by
      simp only [checkpoint, marker, if_neg path, checkpointScan, torn,
        if_neg (Nat.not_lt_of_le long)]
    have readable : (readLog crates wal).exit = .headerEof := by rw [alone]
    have result := fails.symm.trans same.1
    by_cases new : ckptIds lastCkpt (readLog crates wal).items = []
    · rw [checkpoint_none { disk with wal := some wal } store marker path rfl readable new]
        at result
      cases result
    · obtain ⟨id, _, _, ok⟩ :=
        checkpoint_some { disk with wal := some wal } store marker path rfl readable new
      rw [ok] at result
      cases result
  · rintro (short | unreached)
    · apply checkpoint_congr
      · rw [torn, alone, if_pos short]
      · rw [torn, alone]
        exact ⟨fun _ => rfl, fun _ _ => rfl⟩
    · cases marker : getLastCheckpoint disk.ckpt with
      | error e => simp [SameEnd, checkpoint, marker]
      | ok lastCkpt => simp [SameEnd, checkpoint, marker, unreached lastCkpt marker]

end Torn

theorem tornFrame_valid (k : ℕ) :
    ValidFrame (Bincode.crates true) (tornFrame.take k ++ tornFrame.drop k)
      (.insert 2 7 "b" [2]) := by
  rw [List.take_append_drop]
  exact frame_valid (by decide +kernel)

def unmarkedDisk : Disk := ⟨"wal.log", none, none⟩

/-- The cut lies in the payload: the checkpoint fails, though
the log in front of the tail is whole. -/
theorem checkpoint_not_torn :
    ¬ ∀ (crates : Crates) (disk : Disk) (store : Store) (wal tail unwritten : Bytes)
      (es : List WalEntry) (e : WalEntry),
      ValidLog crates wal es → ValidFrame crates (tail ++ unwritten) e → unwritten ≠ [] →
      SameEnd (checkpoint crates { disk with wal := some (wal ++ tail) } store)
        (checkpoint crates { disk with wal := some wal } store) := by
  intro claim
  obtain ⟨result, _⟩ := claim (Bincode.crates true) unmarkedDisk (fun _ => none)
    (tornLog.flatMap (frame (Bincode.crates true))) (tornFrame.take 20) (tornFrame.drop 20)
    tornLog (.insert 2 7 "b" [2])
    (ValidLog.of_entries (by decide +kernel)) (tornFrame_valid 20) (by decide +kernel)
  revert result
  decide +kernel

theorem checkpoint_torn_iff_tornLog :
    SameEnd
        (checkpoint (Bincode.crates true)
          { unmarkedDisk with
            wal := some (tornLog.flatMap (frame (Bincode.crates true)) ++ tornFrame.take 20) }
          fun _ => none)
        (checkpoint (Bincode.crates true)
          { unmarkedDisk with wal := some (tornLog.flatMap (frame (Bincode.crates true))) }
          fun _ => none) ↔
      (tornFrame.take 20).length < WalEntryHeader.SIZE ∨
        ∀ lastCkpt, getLastCheckpoint unmarkedDisk.ckpt = .ok lastCkpt →
          lastCkpt = 0 ∧ unmarkedDisk.path.isEmpty = true :=
  checkpoint_torn_iff (ValidLog.of_entries (by decide +kernel)) (tornFrame_valid 20)
    (by decide +kernel)

end AsyncWalDb
