import AsyncWalDb.CheckpointGap

/-! Checkpoint and recovery on one file. Without a marker they leave the same store; after a
recovery neither changes it any more, wherever the marker stands and whatever the calls return. -/
namespace AsyncWalDb

open KeyedWrites Framing

/-- The reads of the loop: a header and a payload for each
entry, and those of the turn that ends it. -/
def readsOf (scan : Reading UInt8 WalEntry ReadExit) : ℕ :=
  2 * scan.items.length + match scan.exit with
    | .headerEof | .capacityOverflow => 1
    | .payloadEof | .checksum _ | .undecodable => 2

def readFails (crates : Crates) (n : ℕ) : Option Bytes → Bool
  | none => false
  | some bytes => n < readsOf (readLog crates bytes)

/-- What can go wrong outside the bytes: a read of the marker file, a read of the log with an error
other than the end of the file, or the write of the marker, which can leave any text. -/
inductive IoFault where
  | none
  | readMarker (error : WalError)
  | read (n : ℕ)
  | writeMarker (error : WalError) (text : Option (List Char))

def recoverWith (crates : Crates) (fault : IoFault) (file : Option Bytes) (mem : Memory) :
    Outcome RecoveryStats × Memory :=
  match fault with
  | .read n =>
    if readFails crates n file then (.err (.io .other), mem)
      else recoverWithValidation crates file mem
  | _ => recoverWithValidation crates file mem

def checkpointWith (crates : Crates) (fault : IoFault) (disk : Disk) (store : Store) :
    Outcome UInt64 × Disk × Store :=
  match fault with
  | .none => checkpoint crates disk store
  | .readMarker e => (.err e, disk, store)
  | .read n =>
    match getLastCheckpoint disk.ckpt with
    | .error e => (.err e, disk, store)
    | .ok lastCkpt =>
      if lastCkpt = 0 ∧ disk.path.isEmpty then (.err .noNewCheckpoints, disk, store)
      else if readFails crates n disk.wal then (.err (.io .other), disk, store)
      else checkpoint crates disk store
  -- the replay comes before the marker
  | .writeMarker e text =>
    let out := checkpoint crates disk store
    match out.1 with
    | .ok _ => (.err e, { disk with ckpt := text }, out.2.2)
    | _ => out

inductive Call where
  | recover (fault : IoFault)
  | checkpoint (fault : IoFault)

def Call.run (crates : Crates) : Disk × Memory → Call → Disk × Memory
  | (disk, mem), .recover fault => (disk, (recoverWith crates fault disk.wal mem).2)
  | (disk, mem), .checkpoint fault =>
    let out := checkpointWith crates fault disk mem.store
    (out.2.1, { mem with store := out.2.2 })

variable {crates : Crates} {disk : Disk} {front rest : Bytes} {es : List WalEntry}

theorem checkpointWith_cases (fault : IoFault) (disk : Disk) (store : Store) :
    checkpointWith crates fault disk store = checkpoint crates disk store ∨
      (∃ e, checkpointWith crates fault disk store = (.err e, disk, store)) ∨
      ∃ e text, fault = .writeMarker e text ∧
        checkpointWith crates fault disk store =
          (.err e, { disk with ckpt := text }, (checkpoint crates disk store).2.2) := by
  cases fault with
  | none => exact .inl rfl
  | readMarker e => exact .inr (.inl ⟨e, rfl⟩)
  | read n =>
    simp only [checkpointWith]
    split
    · exact .inr (.inl ⟨_, rfl⟩)
    · split
      · exact .inr (.inl ⟨_, rfl⟩)
      · split
        · exact .inr (.inl ⟨_, rfl⟩)
        · exact .inl rfl
  | writeMarker e text =>
    simp only [checkpointWith]
    split
    · exact .inr (.inr ⟨e, text, rfl, rfl⟩)
    · exact .inl rfl

theorem recoverWith_cases (fault : IoFault) (file : Option Bytes) (mem : Memory) :
    recoverWith crates fault file mem = recoverWithValidation crates file mem ∨
      ∃ n, fault = .read n ∧ readFails crates n file = true ∧
        recoverWith crates fault file mem = (.err (.io .other), mem) := by
  cases fault with
  | read n =>
    simp only [recoverWith]
    split
    · rename_i fails
      exact .inr ⟨n, rfl, fails, rfl⟩
    · exact .inl rfl
  | none | readMarker | writeMarker => exact .inl rfl

/-- A checkpoint of a file without a marker and a recovery leave the same store, and the checkpoint
returns the highest committed id; where nothing is committed it returns `NoNewCheckpoints` and
neither changes the store. -/
theorem checkpoint_recover_agree (mem : Memory) (file : disk.wal = some (front ++ rest))
    (whole : ValidLog crates front es)
    (short : rest.length < WalEntryHeader.SIZE) (positive : ∀ e ∈ es, e.txId ≠ 0)
    (unmarked : disk.ckpt = none) (named : disk.path.isEmpty = false) :
    (∃ n, committed es n = true ∧ (∀ id, committed es id = true → id ≤ n) ∧
      checkpoint crates disk mem.store =
        (.ok n, { disk with ckpt := setCheckpoint n disk.ckpt },
          (recoverWithValidation crates disk.wal mem).2.store)) ∨
    ((∀ id, committed es id = false) ∧
      checkpoint crates disk mem.store = (.err .noNewCheckpoints, disk, mem.store) ∧
      (recoverWithValidation crates disk.wal mem).2.store = mem.store) := by
  have read := whole.read_short short
  have marker : getLastCheckpoint disk.ckpt = .ok 0 := by rw [unmarked]; rfl
  have path : ¬ ((0 : UInt64) = 0 ∧ disk.path.isEmpty = true) := by simp [named]
  have readable : (readLog crates (front ++ rest)).exit = .headerEof := by rw [read]
  have store := recover_store mem (show (readLog crates (front ++ rest)).exit ≠ .capacityOverflow by
    simp [readable])
  rw [read] at store
  by_cases new : ckptIds 0 es = []
  · right
    have none_committed : committedIds es = [] := (ckptIds_zero positive).symm.trans new
    refine ⟨fun id => ?_, checkpoint_none disk mem.store marker path file readable
      (by rw [read]; exact new), ?_⟩
    · rw [Bool.eq_false_iff, Ne, ← mem_committedIds, none_committed]
      simp
    · rw [file, store, replayWrites, none_committed]
      rfl
  · left
    obtain ⟨n, done, highest, result⟩ :=
      checkpoint_some disk mem.store marker path file readable (by rw [read]; exact new)
    rw [read] at done highest result
    rw [ckptIds_zero positive] at done highest
    rw [ckptWrites_zero positive] at result
    refine ⟨n, mem_committedIds.mp done, fun id other => highest id (mem_committedIds.mpr other),
      ?_⟩
    rw [result, file, store]

def abortedLog : List WalEntry := [.insert 1 7 "k" [1], .insert 2 7 "j" [2], .commit 2 8,
    .abort 2 9, .commit 1 9]

def abortedDisk : Disk :=
  ⟨"wal.log", some (abortedLog.flatMap (frame (Bincode.crates true)) ++ [0, 0, 0]), none⟩

theorem checkpoint_recover_agree_abortedLog :
    (∃ n, committed abortedLog n = true ∧ (∀ id, committed abortedLog id = true → id ≤ n) ∧
      checkpoint (Bincode.crates true) abortedDisk (fun _ => none) =
        (.ok n, { abortedDisk with ckpt := setCheckpoint n abortedDisk.ckpt },
          (recoverWithValidation (Bincode.crates true) abortedDisk.wal
            ⟨fun _ => none, 1⟩).2.store)) ∨
    ((∀ id, committed abortedLog id = false) ∧
      checkpoint (Bincode.crates true) abortedDisk (fun _ => none) =
        (.err .noNewCheckpoints, abortedDisk, fun _ => none) ∧
      (recoverWithValidation (Bincode.crates true) abortedDisk.wal ⟨fun _ => none, 1⟩).2.store =
        fun _ => none) :=
  checkpoint_recover_agree ⟨fun _ => none, 1⟩ rfl (ValidLog.of_entries (by decide +kernel))
    (by decide) (by decide) rfl
    (by decide)

/-- The store is an older one with the file replayed over it, where the file can be read. -/
def Replayed (crates : Crates) (file : Option Bytes) (store : Store) : Prop :=
  ∀ bytes, file = some bytes → (readLog crates bytes).exit ≠ .capacityOverflow →
    ∃ before, store = applyAll before (replayWrites (readLog crates bytes).items)

theorem replayed_recover (file : Option Bytes) (mem : Memory) :
    Replayed crates file (recoverWithValidation crates file mem).2.store := by
  rintro bytes rfl readable
  exact ⟨mem.store, recover_store mem readable⟩

theorem Replayed.recover {file : Option Bytes} {mem : Memory}
    (done : Replayed crates file mem.store) :
    (recoverWithValidation crates file mem).2.store = mem.store := by
  cases file with
  | none => rfl
  | some bytes =>
    by_cases readable : (readLog crates bytes).exit = .capacityOverflow
    · simp [recoverWithValidation, readable]
    · obtain ⟨before, same⟩ := done bytes rfl readable
      have again := applyAll_suffix_again before [] (replayWrites (readLog crates bytes).items)
      rw [recover_store mem readable, same]
      exact again

theorem Replayed.checkpoint {store : Store} (done : Replayed crates disk.wal store) :
    (checkpoint crates disk store).2.2 = store ∧
      (checkpoint crates disk store).2.1.wal = disk.wal := by
  rcases checkpoint_exits crates disk store with ⟨_, kept⟩ | ⟨lastCkpt, id, bytes, advances⟩
  · rw [kept]
    exact ⟨rfl, rfl⟩
  · have readable : (readLog crates bytes).exit ≠ .capacityOverflow := by simp [advances.readable]
    obtain ⟨before, same⟩ := done bytes advances.file readable
    rw [advances.result]
    refine ⟨?_, rfl⟩
    rw [same]
    exact ckptWrites_again before lastCkpt _

theorem replayed_call (call : Call) {mem : Memory} (done : Replayed crates disk.wal mem.store) :
    (call.run crates (disk, mem)).2.store = mem.store ∧
      (call.run crates (disk, mem)).1.wal = disk.wal := by
  cases call with
  | recover fault =>
    refine ⟨?_, rfl⟩
    change (recoverWith crates fault disk.wal mem).2.store = mem.store
    rcases recoverWith_cases fault disk.wal mem with plain | ⟨n, _, _, stopped⟩
    · rw [plain, done.recover]
    · rw [stopped]
  | checkpoint fault =>
    change (checkpointWith crates fault disk mem.store).2.2 = mem.store ∧
      (checkpointWith crates fault disk mem.store).2.1.wal = disk.wal
    rcases checkpointWith_cases fault disk mem.store with plain | ⟨e, stopped⟩
      | ⟨e, text, _, unmarked⟩
    · rw [plain]
      exact done.checkpoint
    · rw [stopped]
      exact ⟨rfl, rfl⟩
    · rw [unmarked]
      exact ⟨done.checkpoint.1, rfl⟩

/-- After one recovery no recovery and no checkpoint of the
same file changes the store, whatever they return. -/
theorem replay_idempotent (crates : Crates) (disk : Disk) (mem : Memory) (calls : List Call) :
    let recovered := (recoverWithValidation crates disk.wal mem).2
    (calls.foldl (Call.run crates) (disk, recovered)).2.store = recovered.store := by
  intro recovered
  have done : Replayed crates disk.wal recovered.store := replayed_recover disk.wal mem
  generalize recovered = mem at done ⊢
  induction calls generalizing disk mem with
  | nil => rfl
  | cons call calls ih =>
    obtain ⟨store, file⟩ := replayed_call call done
    rw [List.foldl_cons, ih _ _ (by rw [store, file]; exact done), store]

end AsyncWalDb
