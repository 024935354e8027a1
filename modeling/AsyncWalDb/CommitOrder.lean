import AsyncWalDb.Acknowledged
import AsyncWalDb.CrashImage

/-! Commit frames do not overtake operations, as long as no drain takes
the lock with a Commit entry whose operations another drain still has
to write. Then a crash leaves each transaction whole or absent. -/
namespace AsyncWalDb

open Interleaving KeyedWrites

/-- `c` is a Commit entry and `o` was pushed before it by the same transaction. -/
def CommitAfterOps (o c : Item) : Prop := c.entry.isCommit = true ∧ o.owner = c.owner ∧
    o.stamp < c.stamp

instance (o c : Item) : Decidable (CommitAfterOps o c) := by
  unfold CommitAfterOps
  infer_instance

/-- A file that contains a Commit frame contains the frames
of everything its transaction logged before. -/
def CommitsLast (w : Wal) : Prop :=
  ∀ n c, .payload c ∈ w.stream.take n → ∀ o ∈ w.history, CommitAfterOps o c → w.Inside n o

/-- Recovery of the file replays all operations of the transaction or none. -/
def Atomic (crates : Crates) (file : Bytes) (tx : Transaction) : Prop :=
  (∃ ops, ops.Perm (tx.entries.filterMap WalEntry.write?) ∧ Applies crates file tx.id ops) ∨
    ((readLog crates file).exit ≠ .capacityOverflow ∧
      committed (readLog crates file).items tx.id = false)

def CommitsWhole (crates : Crates) (σ : SystemConfig) : Prop :=
  CommitsLast σ.shared.wal ∧
    ∀ (file : Bytes), σ.shared.CrashFile crates file →
      ∀ (i : Nat) (call : Option WalCall) (tx : Transaction) (stage : TxStage),
      σ.tasks[i]? = some ⟨call, .transaction tx stage⟩ → Atomic crates file tx

variable {crates : Crates} {m : Nat} {path : String} {base : Bytes} {ckpt : Option (List Char)}
  {mem : Memory} {σ : SystemConfig} {es : List WalEntry}

/-- In every run without faults whose drains take the lock in that order, Commit frames come last
and a crash leaves each transaction whole or absent. -/
theorem commits_whole (whole : ValidLog crates base es) (older : ∀ e ∈ es, e.txId < mem.nextTxId)
    (run : (systemProtocol crates).Reaches
      (fun σ a => SystemNoFaultAnd (LockOrder CommitAfterOps) σ a ∧ NoWrap σ a)
      (System.start m path base ckpt mem) σ) : CommitsWhole crates σ := by
  have ok : FramesOrdered crates CommitAfterOps (logView σ) :=
    framesOrdered_system (fun _ _ => And.left) (fun _ _ => id) (fun o c must => must.2.2) run
  have logs : TxLogs σ := txLogs_run (fun _ _ guard => guard.1.faultless) run
  have ids := txIds_run (fun _ _ guard => guard.2) run
  refine ⟨fun n c written o pushed must => ok.precedes written pushed must,
    fun file crash i call tx stage slot => ?_⟩
  have whole : ValidLog crates σ.shared.base es := by rw [base_run run]; exact whole
  obtain ⟨k, items, readable, _⟩ := crash_items ok whole crash
  have front : (begun σ.shared.wal).take k ⊆ σ.shared.wal.history := ok.pushed_take k
  have own := entriesOf_owned logs ids slot older front
  rw [← items] at own
  cases commit : committed (readLog crates file).items tx.id with
  | false => exact .inr ⟨readable, commit⟩
  | true =>
    obtain ⟨e, he, id, isCommit⟩ := committed_mem commit
    have in_own : e ∈ (((begun σ.shared.wal).take k).filter
        fun it => it.owner = i).map Item.entry :=
      own ▸ mem_entriesOf.mpr ⟨he, id⟩
    obtain ⟨c, hc, rfl⟩ := List.mem_map.mp in_own
    obtain ⟨in_front, owner⟩ := List.mem_filter.mp hc
    have owner : c.owner = i := by simpa using owner
    subst owner
    obtain ⟨⟨now, log⟩, last⟩ := commit_last logs ok.placed.sorted slot
      (List.mem_filter.mpr ⟨front in_front, by simp⟩) isCommit
    have perm := ok.own_perm (ok.own_subset in_front (List.filter_subset_self _) fun o ho ne =>
      ⟨isCommit, by simpa using (List.mem_filter.mp ho).2, last o ho ne⟩)
    refine .inl ⟨_, ?_, readable, commit, rfl⟩
    rw [writesOf, own]
    have writes := (perm.map Item.entry).filterMap WalEntry.write?
    have log : (ownItems σ.shared.wal c.owner).map Item.entry = tx.entries ++ [.commit tx.id now] :=
      log
    change List.Perm _ (((ownItems σ.shared.wal c.owner).map Item.entry).filterMap WalEntry.write?)
      at writes
    have no_write : [WalEntry.commit tx.id now].filterMap WalEntry.write? = [] := rfl
    rw [log, List.filterMap_append, no_write, List.append_nil] at writes
    exact writes

/-- The flusher pops the first operation and waits; the commit's own drain takes the second one and
the Commit entry, gets the lock first and writes them. -/
def overtaking : List SystemAction :=
  [.spawn .transaction, .move 2 (.appendOp (.insert 0 0 "a" [1]) 7)] ++ runs 2 4 ++
    [.move 0 .proceed] ++ runs 0 2 ++
    [.move 2 (.appendOp (.insert 0 0 "b" [2]) 8)] ++ runs 2 4 ++
    [.move 2 (.commit 9)] ++ runs 2 4 ++ [.move 2 .proceed] ++ runs 2 215

theorem commit_overtakes :
    ¬ ∀ (crates : Crates) (base : Bytes) (es : List WalEntry) (mem : Memory)
      (m : Nat) (path : String)
      (ckpt : Option (List Char)) (σ : SystemConfig), ValidLog crates base es →
        (∀ e ∈ es, e.txId < mem.nextTxId) →
      (systemProtocol crates).Reaches (SystemNoFaultAnd fun _ _ => True)
        (System.start m path base ckpt mem) σ →
      CommitsWhole crates σ := by
  intro claim
  have reached : (systemProtocol (Bincode.crates true)).Reaches (SystemNoFaultAnd
      fun _ _ => True) newDatabase _ :=
    Protocol.reaches_exec overtaking (by decide +kernel)
  have last := (claim _ _ [] _ _ _ _ _ .nil (by simp) reached).1
  have inside := last 4 ⟨2, 2, .commit 1 9⟩ (by decide +kernel) ⟨0, 2, .insert 1 7 "a" [1]⟩
    (by decide +kernel)
    (by decide)
  revert inside
  unfold Wal.Inside
  decide +kernel

theorem commits_whole_forcedDrain :
    CommitsWhole (Bincode.crates true) (((systemProtocol (Bincode.crates true)).exec
      (fun σ a => SystemNoFaultAnd (LockOrder CommitAfterOps) σ a ∧ NoWrap σ a) newDatabase
        forcedDrain).get
        (by decide +kernel)) :=
  commits_whole .nil (List.forall_mem_nil _) (Protocol.reaches_exec forcedDrain (by decide +kernel))

end AsyncWalDb
