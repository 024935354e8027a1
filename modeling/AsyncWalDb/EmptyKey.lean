import AsyncWalDb.Acknowledged
import AsyncWalDb.CrashImage

/-! The empty key. `append_op` and `commit` accept it like any other key; the validation of recovery
refuses a store that holds it, so one accepted transaction can make every later recovery fail. -/
namespace AsyncWalDb

open Interleaving KeyedWrites

/-- Among the committed transactions with an operation on the
empty key, the one of the highest id leaves a value there. -/
def PutsEmptyKey (es : List WalEntry) : Prop :=
  ∃ id v, committed es id = true ∧ lastOn "" (writesOf id es) = some (some v) ∧
    ∀ j, id < j → committed es j = true → lastOn "" (writesOf j es) = none

def IdsLast (σ : SystemConfig) (a : SystemAction) : Prop := SystemNoFaultAnd (fun _ _ => True) σ a ∧
    NoWrap σ a

instance (σ : SystemConfig) (a : SystemAction) : Decidable (IdsLast σ a) := by
  unfold IdsLast
  infer_instance

variable {crates : Crates} {m : Nat} {path : String} {base file : Bytes} {ckpt : Option (List Char)}
  {mem : Memory} {σ : SystemConfig} {es old : List WalEntry}

theorem emptyKey_absent_iff :
    applyAll (fun _ => none) (replayWrites es) "" = none ↔ ¬ PutsEmptyKey es := by
  rw [applyAll_at, PutsEmptyKey]
  cases last : lastOn "" (replayWrites es) with
  | none =>
    refine iff_of_true rfl ?_
    rintro ⟨id, v, done, writes, quiet⟩
    rw [lastOn_replayWrites.mpr ⟨id, done, writes, quiet⟩] at last
    contradiction
  | some v =>
    obtain ⟨id, done, writes, quiet⟩ := lastOn_replayWrites.mp last
    cases v with
    | some v => exact iff_of_false (by simp) (not_not.mpr ⟨id, v, done, writes, quiet⟩)
    | none =>
      refine iff_of_true rfl ?_
      rintro ⟨id', v, done', writes', quiet'⟩
      rw [lastOn_replayWrites.mpr ⟨id', done', writes', quiet'⟩] at last
      cases last

/-- Whatever file of whole frames a run leaves, recovery on a fresh database accepts it exactly when
the committed transactions leave nothing under the empty key. -/
theorem recovers_written_iff (whole : ValidLog crates base old)
    (older : ∀ e ∈ old, e.txId < mem.nextTxId)
    (run : (systemProtocol crates).Reaches IdsLast (System.start m path base ckpt mem) σ)
    (crash : σ.shared.CrashFile crates file) (frames : ValidLog crates file es) :
    (∃ stats, (recoverWithValidation crates (some file) ⟨fun _ => none, 1⟩).1 = .ok stats) ↔
      ¬ PutsEmptyKey es := by
  have ordered : FramesOrdered crates (fun _ _ => False) (logView σ) :=
    framesOrdered_system (fun _ _ => And.left) (fun _ _ _ => lockOrder_free)
      (fun _ _ must => must.elim) run
  have logs : TxLogs σ := txLogs_run (fun _ _ ok => ok.1.faultless) run
  have ids := txIds_run (fun _ _ ok => ok.2) run
  have whole : ValidLog crates σ.shared.base old := by rw [base_run run]; exact whole
  obtain ⟨k, items, readable, _⟩ := crash_items ordered whole crash
  have pushed : (begun σ.shared.wal).take k ⊆ σ.shared.wal.history := ordered.pushed_take k
  have read := frames.read_all
  rw [read] at items
  rw [recover_ok_iff _ readable, read, emptyKey_absent_iff]
  exact and_iff_left (no_overflow_of_lt (items ▸ read_txId_lt logs ids older pushed))

def insertCommitted (key : String) : SystemConfig :=
  ((systemProtocol (Bincode.crates true)).exec IdsLast newDatabase
    ([.spawn .transaction] ++ insertInto key [1] 2 ++ commitOne 2 2)).getD newDatabase

def insertLog (key : String) : List WalEntry := [.insert 1 7 key [1], .commit 1 8]

theorem insertCommitted_reached (key : String)
    (ends : ((systemProtocol (Bincode.crates true)).exec IdsLast newDatabase
      ([.spawn .transaction] ++ insertInto key [1] 2 ++ commitOne 2 2)).isSome = true) :
    (systemProtocol (Bincode.crates true)).Reaches IdsLast newDatabase (insertCommitted key) := by
  obtain ⟨σ, run⟩ := Option.isSome_iff_exists.mp ends
  rw [insertCommitted, run]
  exact Protocol.reaches_of_exec _ run

/-- The commit under the empty key returns Ok, and recovery refuses the file it left. -/
theorem written_not_recovered :
    ¬ ∀ (crates : Crates) (m : Nat) (path : String) (σ : SystemConfig) (file : Bytes)
      (es : List WalEntry),
      (systemProtocol crates).Reaches (SystemNoFaultAnd fun _ _ => True)
        (System.start m path [] none ⟨fun _ => none, 1⟩) σ →
      σ.shared.CrashFile crates file → ValidLog crates file es →
      ∃ stats, (recoverWithValidation crates (some file) ⟨fun _ => none, 1⟩).1 = .ok stats := by
  intro claim
  have reached := (insertCommitted_reached "" (by decide +kernel)).weaken fun _ _ => And.left
  have file : (((insertCommitted "").shared.file (Bincode.crates true)).take
      ((insertCommitted "").shared.syncedBytes (Bincode.crates true))) = (insertLog "").flatMap
        (frame (Bincode.crates true)) := by
    decide +kernel
  obtain ⟨stats, ok⟩ := claim (Bincode.crates true) _ _ _ _ (insertLog "") reached
    ⟨_, le_rfl, file.symm⟩
    (ValidLog.of_entries (by decide +kernel))
  have refused : (recoverWithValidation (Bincode.crates true)
    (some ((insertLog "").flatMap (frame (Bincode.crates true))))
      ⟨fun _ => none, 1⟩).1 = .err (.validation "Invalid empty key after recovery") := by
        decide +kernel
  rw [refused] at ok
  cases ok

theorem recovers_written_iff_insert :
    (∃ stats, (recoverWithValidation (Bincode.crates true)
      (some ((insertLog "k").flatMap (frame (Bincode.crates true))))
      ⟨fun _ => none, 1⟩).1 = .ok stats) ↔ ¬ PutsEmptyKey (insertLog "k") := by
  have file : (((insertCommitted "k").shared.file (Bincode.crates true)).take
      ((insertCommitted "k").shared.syncedBytes (Bincode.crates true))) = (insertLog "k").flatMap
        (frame (Bincode.crates true)) := by
    decide +kernel
  have reached : (systemProtocol (Bincode.crates true)).Reaches IdsLast
      (System.start 10000 "wal.log" [] none ⟨fun _ => none, 1⟩) (insertCommitted "k") :=
    insertCommitted_reached "k" (by decide +kernel)
  have crash : (insertCommitted "k").shared.CrashFile (Bincode.crates true)
      ((insertLog "k").flatMap (frame (Bincode.crates true))) := ⟨_, le_rfl, file.symm⟩
  have frames : ValidLog (Bincode.crates true)
      ((insertLog "k").flatMap (frame (Bincode.crates true))) (insertLog "k") :=
    ValidLog.of_entries (by decide +kernel)
  exact recovers_written_iff .nil (List.forall_mem_nil _) reached crash frames

end AsyncWalDb
