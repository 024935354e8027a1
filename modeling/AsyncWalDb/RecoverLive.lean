import AsyncWalDb.Acknowledged
import AsyncWalDb.ReadBack

/-! Recovery against the live store. Recovery replays committed
transactions in ascending id order and the live store was built in commit
order: the two agree exactly when no key tells the orders apart. -/
namespace AsyncWalDb

open Interleaving KeyedWrites

/-- A crash now and a recovery into an empty store give back the live store. -/
def RecoversLive (crates : Crates) (σ : SystemConfig) : Prop :=
  ∀ file, σ.shared.CrashFile crates file → ∀ nextTxId, ∃ stats mem,
    recoverWithValidation crates (some file) ⟨fun _ => none, nextTxId⟩ = (.ok stats, mem) ∧
      mem.store = σ.shared.mem.store

/-- On every key the last write in commit order leaves what the last one in id order leaves. -/
def OrdersAgree (before : Store) (w : Wal) : Prop :=
  ∀ key, (lastOn key (committedWrites w)).getD (before key) =
    (lastOn key (replayWrites (w.history.map Item.entry))).getD (before key)

def NoEmptyKey (before : Store) (w : Wal) : Prop :=
  (lastOn "" (committedWrites w)).getD (before "") = none

/-- No drain reorders a transaction, and no forced drain
overlooks what another drain still holds. -/
def DrainsInOrder (σ : WalConfig) (i : Nat) : Prop := LockOrder SameTxOrder σ i ∧
    ForcedDrainAlone σ i

instance (σ : WalConfig) (i : Nat) : Decidable (DrainsInOrder σ i) := by
  unfold DrainsInOrder
  infer_instance

/-- Transactions whose commits run one after another with success, and no checkpoint. -/
def CommitsOnly (σ : SystemConfig) (a : SystemAction) : Prop :=
  OneByOne σ a ∧ CommitsApply σ a ∧ NoCheckpoint a

instance (σ : SystemConfig) (a : SystemAction) : Decidable (CommitsOnly σ a) := by
  unfold CommitsOnly
  infer_instance

variable {crates : Crates} {m : Nat} {path : String} {base : Bytes} {ckpt : Option (List Char)}
  {mem : Memory} {σ : SystemConfig} {es : List WalEntry}

theorem committed_own_acked (logs : TxLogs σ) (idle : CommitIdle σ) {i : Nat}
    (mem : i ∈ commitOrder σ.shared.wal) : ownItems σ.shared.wal i ⊆ σ.shared.wal.acked := by
  obtain ⟨it, hit, rfl⟩ := List.mem_map.mp mem
  have slot := List.getElem?_eq_getElem (logs.owners it (List.mem_of_mem_filter hit))
  obtain ⟨tx, result, _, _, acked, _⟩ :=
    committed_stage (logs.tasks it.owner _ slot) (idle _ (List.mem_of_getElem? slot)) mem
  exact acked

/-- In every run of commits one after another on a log kept in order, when
none is in progress: recovery after a crash gives back the live store iff
the two orders agree on every key and the empty key is absent. -/
theorem recovers_live_iff (whole : ValidLog crates base es)
    (older : ∀ e ∈ es, e.txId < mem.nextTxId)
    (recovered : mem.store = applyAll (fun _ => none) (replayWrites es))
    (run : (systemProtocol crates).Reaches
      (fun σ a => SystemNoFaultAnd DrainsInOrder σ a ∧ NoWrap σ a ∧ CommitsOnly σ a)
        (System.start m path base ckpt mem) σ)
    (idle : CommitIdle σ) :
    RecoversLive crates σ ↔ OrdersAgree mem.store σ.shared.wal ∧
      NoEmptyKey mem.store σ.shared.wal := by
  have log := log_reaches (run.weaken fun _ _ => And.left)
  have frames : FramesOrdered crates SameTxOrder (logView σ) :=
    framesOrdered_system (fun _ _ => And.left) (fun _ _ => And.left) (fun o c must => must.2) run
  have kept : Kept (logView σ) :=
    kept_run (by simp [System.start]) (log.weaken fun _ _ => NoFaultAnd.imp fun _ _ => And.right)
  have logs : TxLogs σ := txLogs_run (fun _ _ ok => ok.1.faultless) run
  have ids := txIds_run (fun _ _ ok => ok.2.1) run
  have inOrder : CommitsInOrder σ :=
    commitsInOrder_run (fun _ _ ok => ⟨ok.1.faultless, ok.2.2.1, ok.2.2.2.1⟩) run
  have live := live_run (fun _ _ ok => ok.2.2.2.2) run
  rw [inOrder.idle idle, ← committedWrites] at live
  have whole : ValidLog crates σ.shared.base es := by rw [base_run run]; exact whole
  -- whatever the crash leaves, recovery replays the old log and then the whole history
  have recovers : ∀ file, σ.shared.CrashFile crates file → ∀ nextTxId,
      (recoverWithValidation crates (some file) ⟨fun _ => none, nextTxId⟩).2.store =
        applyAll mem.store (replayWrites (σ.shared.wal.history.map Item.entry)) ∧
      ((∃ stats,
          (recoverWithValidation crates (some file) ⟨fun _ => none, nextTxId⟩).1 = .ok stats) ↔
        applyAll mem.store (replayWrites (σ.shared.wal.history.map Item.entry)) "" = none) := by
    intro file crash nextTxId
    obtain ⟨k, items, readable, durable⟩ := crash_items frames whole crash
    have pushed : (begun σ.shared.wal).take k ⊆ σ.shared.wal.history := frames.pushed_take k
    have replayed : replayWrites (readLog crates file).items =
        replayWrites es ++ replayWrites (σ.shared.wal.history.map Item.entry) := by
      rw [items, replayWrites_append, replay_read frames logs ids]
      · exact fun i mem it hit => durable it (kept.acked it (committed_own_acked logs idle mem hit))
      · intro e he f hf
        obtain ⟨it, hit, rfl⟩ := List.mem_map.mp hf
        obtain ⟨call, tx, stage, slot, same⟩ := pushed_by logs (pushed hit)
        rw [same]
        exact lt_of_lt_of_le (older e he) (ids.drawn _ _ tx.id slot rfl).1
    rw [recover_store _ readable, recover_ok_iff _ readable, replayed, applyAll_append, ← recovered]
    exact ⟨rfl, and_iff_left (no_overflow_of_lt (items ▸ read_txId_lt logs ids older pushed))⟩
  have agree : applyAll mem.store (committedWrites σ.shared.wal) =
      applyAll mem.store (replayWrites (σ.shared.wal.history.map Item.entry)) ↔
        OrdersAgree mem.store σ.shared.wal :=
    applyAll_eq_iff _ _ _
  have empty : applyAll mem.store (committedWrites σ.shared.wal) "" = none ↔
      NoEmptyKey mem.store σ.shared.wal := by
    rw [applyAll_at, NoEmptyKey]
  rw [← agree, ← empty]
  constructor
  · intro recoversLive
    have crash : σ.shared.CrashFile crates _ := ⟨_, le_rfl, rfl⟩
    obtain ⟨stats, after, result, same⟩ := recoversLive _ crash 1
    obtain ⟨store, ok⟩ := recovers _ crash 1
    rw [result] at store ok
    have stores : applyAll mem.store (committedWrites σ.shared.wal) =
        applyAll mem.store (replayWrites (σ.shared.wal.history.map Item.entry)) := by
      rw [← live, ← same, ← store]
    exact ⟨stores, by rw [stores]; exact ok.mp ⟨stats, rfl⟩⟩
  · rintro ⟨stores, absent⟩ file crash nextTxId
    obtain ⟨store, ok⟩ := recovers file crash nextTxId
    rw [stores] at absent
    obtain ⟨stats, result⟩ := ok.mpr absent
    exact ⟨stats, _, Prod.ext result rfl, by rw [store, live, stores]⟩

def bothOpen : List SystemAction :=
  [.spawn .transaction, .spawn .transaction] ++ insertInto "k" [1] 2 ++ insertInto "k" [2] 3

/-- The one that began last commits first. -/
def invertedEnd : SystemConfig :=
  ((systemProtocol (Bincode.crates true)).exec (fun σ a => SystemNoFaultAnd (fun _ _ => True) σ a ∧
    CommitsOnly σ a)
    newDatabase (bothOpen ++ commitOne 3 3 ++ commitOne 2 1)).get (by decide +kernel)

theorem recovery_inverts_commits :
    ¬ ∀ (crates : Crates) (base : Bytes) (es : List WalEntry) (mem : Memory)
      (m : Nat) (path : String)
      (ckpt : Option (List Char)) (σ : SystemConfig), ValidLog crates base es →
        (∀ e ∈ es, e.txId < mem.nextTxId) →
      mem.store = applyAll (fun _ => none) (replayWrites es) →
      (systemProtocol crates).Reaches (fun σ a => SystemNoFaultAnd (fun _ _ => True) σ a ∧
        CommitsOnly σ a)
        (System.start m path base ckpt mem) σ → CommitIdle σ → RecoversLive crates σ := by
  intro claim
  have reached : (systemProtocol (Bincode.crates true)).Reaches
      (fun σ a => SystemNoFaultAnd (fun _ _ => True) σ a ∧
        CommitsOnly σ a) newDatabase invertedEnd :=
    Protocol.reaches_exec _ (by decide +kernel)
  have recovers := claim _ _ [] _ _ _ _ _ .nil (List.forall_mem_nil _) rfl reached
    (by decide +kernel)
  obtain ⟨stats, after, result, same⟩ := recovers _ ⟨_, le_rfl, rfl⟩ 1
  have differs : (recoverWithValidation (Bincode.crates true)
    (some ((invertedEnd.shared.file (Bincode.crates true)).take
      (invertedEnd.shared.syncedBytes (Bincode.crates true)))) ⟨fun _ => none, 1⟩).2.store "k" ≠
        invertedEnd.shared.mem.store "k" := by decide +kernel
  rw [result] at differs
  exact differs (congrFun same "k")

theorem recovers_live_iff_bothOpen :
    let σ := ((systemProtocol (Bincode.crates true)).exec
      (fun σ a => SystemNoFaultAnd DrainsInOrder σ a ∧ NoWrap σ a ∧ CommitsOnly σ a) newDatabase
      (bothOpen ++ commitOne 2 3 ++ commitOne 3 1)).get (by decide +kernel)
    RecoversLive (Bincode.crates true) σ ↔ OrdersAgree newDatabase.shared.mem.store σ.shared.wal ∧
      NoEmptyKey newDatabase.shared.mem.store σ.shared.wal :=
  recovers_live_iff .nil (List.forall_mem_nil _) rfl (Protocol.reaches_exec _ (by decide +kernel))
    (by decide +kernel)

end AsyncWalDb
