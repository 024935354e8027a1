import AsyncWalDb.Bincode
import AsyncWalDb.Durability
import AsyncWalDb.TxLog

/-! Acknowledged means durable, as long as a forced drain finds no acknowledged entry in the hands
of another drain. `flush` returns Ok when its own drain finds the queue empty, although the flusher
may still hold the entries in a batch that it has not written or synced. -/
namespace AsyncWalDb

open Interleaving

/-- Whatever a flush that returned Ok acknowledged is durable, and so is everything that a
transaction logged, its Commit entry included, once its commit has gone beyond the flush. -/
def AcknowledgedDurable (σ : SystemConfig) : Prop :=
  (∀ it ∈ σ.shared.wal.acked, σ.shared.wal.Durable it) ∧
    ∀ (i : Nat) (call : Option WalCall) (tx : Transaction) (stage : TxStage),
      σ.tasks[i]? = some ⟨call, .transaction tx stage⟩ → tx.state = .committed →
      ∃ (items : List Item) (now : UInt64),
        items.map Item.entry = tx.entries ++ [.commit tx.id now] ∧
        ∀ it ∈ items, it.owner = i ∧ σ.shared.wal.Durable it

variable {crates : Crates} {m : Nat} {path : String} {base : Bytes} {ckpt : Option (List Char)}
  {mem : Memory} {σ : SystemConfig}

theorem committed_acked {w : Wal} {i : Nat} {call : Option WalCall} {tx : Transaction}
    {stage : TxStage} (log : TxLogged w i tx call stage) (committed : tx.state = .committed) :
    ownItems w i ⊆ w.acked ∧ ∃ now, logged w i = tx.entries ++ [.commit tx.id now] := by
  cases stage with
  | applying rest => exact log.2.2
  | returned result =>
    rcases log.2 with done | aborted
    · exact done.2
    · exact absurd (committed.symm.trans aborted.1) (by decide)
  | active | commitLogged | abortLogged | dropped =>
    exact absurd (committed.symm.trans log.2.1) (by decide)
  | appending | commitAppend | commitFlush | abortAppend | abortFlush =>
    exact absurd (committed.symm.trans log.1) (by decide)

/-- In every run without faults whose forced drains neither return at once nor take the lock while
another drain holds what they are waited for, acknowledged means durable. -/
theorem acknowledged_durable
    (run : (systemProtocol crates).Reaches (SystemNoFaultAnd ForcedDrainAlone)
      (System.start m path base ckpt mem) σ) : AcknowledgedDurable σ := by
  have kept : Kept (logView σ) := kept_run (by simp [System.start]) (log_reaches run)
  have logs : TxLogs σ := txLogs_run (fun _ _ => SystemNoFaultAnd.faultless) run
  refine ⟨kept.acked, fun i call tx stage slot committed => ?_⟩
  obtain ⟨_, log, _⟩ := logs.tasks i _ slot
  obtain ⟨own, now, entries⟩ := committed_acked log committed
  refine ⟨ownItems σ.shared.wal i, now, entries, fun it hit => ⟨?_, kept.acked it (own hit)⟩⟩
  simpa using (List.mem_filter.mp hit).2

def runs (i n : Nat) : List SystemAction := List.replicate n (.move i (.call .run))

def insertInto (key : String) (value : Bytes) (i : Nat) : List SystemAction :=
  [.move i (.appendOp (.insert 0 0 key value) 7)] ++ runs i 4

def insertAndCommit : List SystemAction :=
  [.spawn .transaction] ++ insertInto "k" [1] 2 ++ [.move 2 (.commit 8)] ++ runs 2 4

/-- One round of the flusher, which takes `n` queued entries to the disk. -/
def flusherRound (n : Nat) : List SystemAction :=
  [.move 0 .proceed] ++ runs 0 (3 * n + 6) ++ [.move 0 .proceed]

def commitOne (i n : Nat) : List SystemAction :=
  [.move i (.commit 8)] ++ runs i 4 ++ flusherRound n ++ [.move i .proceed] ++ runs i 3 ++
    [.move i .proceed, .move i .proceed]

def newDatabase : SystemConfig := System.start 10000 "wal.log" [] none ⟨fun _ => none, 1⟩

/-- The flusher pops both entries and waits for the lock; the flush of the commit polls a hundred
times, then drains an empty queue. -/
def slowFlusher : List SystemAction :=
  insertAndCommit ++ [.move 0 .proceed] ++ runs 0 3 ++ [.move 2 .proceed] ++ runs 2 204 ++
    [.move 2 .proceed, .move 2 .proceed]

theorem acknowledged_not_durable :
    ¬ ∀ (crates : Crates) (m : Nat) (path : String) (base : Bytes) (ckpt : Option (List Char))
      (mem : Memory) (σ : SystemConfig),
      (systemProtocol crates).Reaches (SystemNoFaultAnd fun _ _ => True)
        (System.start m path base ckpt mem) σ → AcknowledgedDurable σ := by
  intro claim
  have reached : (systemProtocol (Bincode.crates true)).Reaches
      (SystemNoFaultAnd fun _ _ => True) newDatabase _ :=
    Protocol.reaches_exec slowFlusher (by decide +kernel)
  have durable := (claim _ _ _ _ _ _ _ reached).1
  revert durable
  decide +kernel

def forcedDrain : List SystemAction :=
  insertAndCommit ++ [.move 2 .proceed] ++ runs 2 215 ++ [.move 2 .proceed, .move 2 .proceed]

theorem acknowledged_durable_forcedDrain :
    AcknowledgedDurable
      (((systemProtocol (Bincode.crates true)).exec (SystemNoFaultAnd ForcedDrainAlone) newDatabase
        forcedDrain).get (by decide +kernel)) :=
  acknowledged_durable (Protocol.reaches_exec forcedDrain (by decide +kernel))

end AsyncWalDb
