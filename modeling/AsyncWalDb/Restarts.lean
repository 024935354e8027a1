import AsyncWalDb.Lifetimes
import AsyncWalDb.RecoverLive

/-! Durability across crashes and restarts. Any number of lifetimes run on one file, each with any
number of concurrent transactions, and each but the last ends in a crash that leaves whole frames.
Every recovery executes the transactions that survived the earlier lifetimes, lifetime by lifetime
and in id order within each. -/
namespace AsyncWalDb

open Interleaving KeyedWrites

/-- No fault, no drain out of order, and ids to spare. -/
def Orderly (σ : SystemConfig) (a : SystemAction) : Prop :=
  SystemNoFaultAnd DrainsInOrder σ a ∧ NoWrap σ a

instance (σ : SystemConfig) (a : SystemAction) : Decidable (Orderly σ a) := by
  unfold Orderly
  infer_instance

/-- Lifetimes on one file, each as the crash found it, and what the last crash left. -/
inductive Restarts (crates : Crates) : List SystemConfig → Bytes → Prop where
  | new : Restarts crates [] []
  | life {lives : List SystemConfig} {file file' : Bytes} {es : List WalEntry}
    {m : Nat} {path : String}
    {ckpt : Option (List Char)} {stats : RecoveryStats} {mem : Memory} {σ : SystemConfig}
    (earlier : Restarts crates lives file) (whole : ValidLog crates file es)
    (recovered : recoverWithValidation crates (some file) ⟨fun _ => none, 1⟩ = (.ok stats, mem))
    (run : (systemProtocol crates).Reaches Orderly (System.start m path file ckpt mem) σ)
    (crash : σ.shared.CrashFile crates file') : Restarts crates (lives ++ [σ]) file'

/-- The transactions of a lifetime that outlive it, by their tasks in the order in which they began:
every one whose commit has gone beyond its flush, and none that had not pushed its Commit entry. -/
structure Survivors (σ : SystemConfig) (tasks : List Nat) : Prop where
  ascending : tasks.Pairwise (· < ·)
  pushed : ∀ i ∈ tasks, i ∈ commitOrder σ.shared.wal
  acknowledged : ∀ (i : Nat) (call : Option WalCall) (tx : Transaction) (stage : TxStage),
    σ.tasks[i]? = some ⟨call, .transaction tx stage⟩ → tx.state = .committed → i ∈ tasks

/-- All operations of these transactions, one transaction after the other. -/
def survivingWrites (σ : SystemConfig) (tasks : List Nat) : List (Write String Bytes) :=
  tasks.flatMap fun i => (logged σ.shared.wal i).filterMap WalEntry.write?

def survivingLives (lives : List SystemConfig) (tasks : List (List Nat)) :
    List (Write String Bytes) :=
  (List.zipWith survivingWrites lives tasks).flatten

/-- Recovery of the file puts these writes on whatever store it finds. -/
def Rebuilds (crates : Crates) (file : Bytes) (ws : List (Write String Bytes)) : Prop :=
  ∀ mem, (recoverWithValidation crates (some file) mem).2.store = applyAll mem.store ws

structure Carries (crates : Crates) (file : Bytes) (ws : List (Write String Bytes)) : Prop where
  readable : (readLog crates file).exit ≠ .capacityOverflow
  room : ∀ e ∈ (readLog crates file).items, e.txId + 1 ≠ 0
  replay : replayWrites (readLog crates file).items = ws

theorem Carries.rebuilds {crates : Crates} {file : Bytes} {ws : List (Write String Bytes)}
    (h : Carries crates file ws) :
    Rebuilds crates file ws := fun mem => by rw [recover_store mem h.readable, h.replay]

section OneLife

variable {crates : Crates} {σ : SystemConfig} {first : UInt64} {k : Nat}

def committedTasks (es : List WalEntry) (σ : SystemConfig) : List Nat :=
  (List.range σ.tasks.length).filter fun i =>
    (σ.tasks[i]?.bind fun t => t.prog.txId?).any (committed es)

theorem mem_committedTasks {es : List WalEntry} {i : Nat} : i ∈ committedTasks es σ ↔
    ∃ call tx stage, σ.tasks[i]? = some ⟨call, .transaction tx stage⟩ ∧
      committed es tx.id = true := by
  rw [committedTasks, List.mem_filter, List.mem_range]
  constructor
  · rintro ⟨_, done⟩
    cases slot : σ.tasks[i]? with
    | none => simp [slot] at done
    | some t =>
      obtain ⟨call, prog⟩ := t
      cases prog with
      | transaction tx stage => exact ⟨call, tx, stage, rfl, by simpa [slot, Prog.txId?] using done⟩
      | flusher | storeHandle | stopFlusher | flushCaller | checkpoint =>
        simp [slot, Prog.txId?] at done
  · rintro ⟨call, tx, stage, slot, done⟩
    exact ⟨(List.getElem?_eq_some_iff.mp slot).1, by simpa [slot, Prog.txId?] using done⟩

theorem committedTasks_ascending (es : List WalEntry) (σ : SystemConfig) :
    (committedTasks es σ).Pairwise (· < ·) :=
  List.pairwise_lt_range.filter _

theorem replay_tasks (ok : FramesOrdered crates SameTxOrder (logView σ)) (logs : TxLogs σ)
    (ids : TxIds first σ) : replayWrites (((begun σ.shared.wal).take k).map Item.entry) =
      survivingWrites σ (committedTasks (((begun σ.shared.wal).take k).map Item.entry) σ) := by
  generalize front : ((begun σ.shared.wal).take k).map Item.entry = es
  let idAt : Nat → UInt64 := fun i => (σ.tasks[i]?.bind fun t => t.prog.txId?).getD 0
  have idAt_slot : ∀ {i call tx stage}, σ.tasks[i]? = some ⟨call, .transaction tx stage⟩ →
      idAt i = tx.id := by
    intro i call tx stage slot
    simp [idAt, slot, Prog.txId?]
  have members : committedIds es = (committedTasks es σ).map idAt := by
    refine (eq_committedIds ?_ fun id => ?_).symm
    · rw [List.pairwise_map]
      refine (committedTasks_ascending es σ).imp_of_mem fun {i j} hi hj before => ?_
      obtain ⟨_, tx, _, slot, _⟩ := mem_committedTasks.mp hi
      obtain ⟨_, tx', _, slot', _⟩ := mem_committedTasks.mp hj
      rw [idAt_slot slot, idAt_slot slot']
      exact ids.lt slot slot' rfl rfl before
    · rw [List.mem_map]
      constructor
      · rintro ⟨i, hi, rfl⟩
        obtain ⟨_, tx, _, slot, done⟩ := mem_committedTasks.mp hi
        rw [idAt_slot slot]
        exact done
      · intro done
        obtain ⟨i, call, tx, stage, slot, rfl⟩ :=
          transaction_of_id logs (ok.pushed_take k) (front ▸ done)
        exact ⟨i, mem_committedTasks.mpr ⟨call, tx, stage, slot, done⟩, idAt_slot slot⟩
  rw [replayWrites, members, List.flatMap_map, survivingWrites]
  refine List.flatMap_congr fun i hi => ?_
  obtain ⟨_, tx, _, slot, done⟩ := mem_committedTasks.mp hi
  rw [idAt_slot slot, writesOf, ← front, read_committed ok logs ids slot (front ▸ done)]

theorem survivors_front (ok : FramesOrdered crates SameTxOrder (logView σ)) (logs : TxLogs σ)
    (ids : TxIds first σ) (kept : Kept (logView σ))
    (durable : ∀ it, σ.shared.wal.Durable it → it ∈ (begun σ.shared.wal).take k) :
    Survivors σ (committedTasks (((begun σ.shared.wal).take k).map Item.entry) σ) := by
  refine ⟨committedTasks_ascending _ σ, fun i hi => ?_, fun i call tx stage slot done => ?_⟩
  · obtain ⟨_, tx, _, slot, done⟩ := mem_committedTasks.mp hi
    exact (committed_logged logs slot (read_committed ok logs ids slot done)).mp done
  · obtain ⟨_, log, _⟩ := logs.tasks i _ slot
    obtain ⟨own, now, entries⟩ := committed_acked log done
    have all : ownItems σ.shared.wal i ⊆ (begun σ.shared.wal).take k := fun it hit =>
      durable it (kept.acked it (own hit))
    have commit : i ∈ commitOrder σ.shared.wal :=
      mem_commitOrder.mpr ⟨.commit tx.id now, by rw [entries]; simp, rfl⟩
    exact mem_committedTasks.mpr ⟨call, tx, stage, slot,
      (committed_logged logs slot (read_whole ok logs ids slot all)).mpr commit⟩

variable {file file' : Bytes} {es : List WalEntry} {ws : List (Write String Bytes)}
  {m : Nat} {path : String} {ckpt : Option (List Char)} {stats : RecoveryStats} {mem : Memory}

theorem carries_life (carries : Carries crates file ws) (whole : ValidLog crates file es)
    (recovered : recoverWithValidation crates (some file) ⟨fun _ => none, 1⟩ = (.ok stats, mem))
    (run : (systemProtocol crates).Reaches Orderly (System.start m path file ckpt mem) σ)
    (crash : σ.shared.CrashFile crates file') :
    ∃ tasks, Survivors σ tasks ∧ Carries crates file' (ws ++ survivingWrites σ tasks) := by
  have read := whole.read_all
  have older : ∀ e ∈ es, e.txId < mem.nextTxId := by
    have above := recover_above (congrArg Prod.fst recovered) carries.room
    rwa [read, recovered] at above
  have frames : FramesOrdered crates SameTxOrder (logView σ) :=
    framesOrdered_system (fun _ _ => And.left) (fun _ _ => And.left) (fun o c must => must.2) run
  have logs : TxLogs σ := txLogs_run (fun _ _ ok => ok.1.faultless) run
  have ids : TxIds mem.nextTxId σ := txIds_run (fun _ _ => And.right) run
  have kept : Kept (logView σ) := kept_run (by simp [System.start])
    ((log_reaches (run.weaken fun _ _ => And.left)).weaken fun _ _ => NoFaultAnd.imp
      fun _ _ => And.right)
  have base : ValidLog crates σ.shared.base es := by rw [base_run run]; exact whole
  obtain ⟨k, items, readable, durable⟩ := crash_items frames base crash
  have pushed := frames.pushed_take k
  refine ⟨_, survivors_front frames logs ids kept durable, readable, ?_, ?_⟩
  · rw [items]
    exact fun e he => succ_ne_zero_of_lt (read_txId_lt logs ids older pushed e he)
  · have apart : ∀ e ∈ es, ∀ f ∈ ((begun σ.shared.wal).take k).map Item.entry, e.txId < f.txId := by
      intro e he f hf
      obtain ⟨it, hit, rfl⟩ := List.mem_map.mp hf
      obtain ⟨call, tx, stage, slot, same⟩ := pushed_by logs (pushed hit)
      rw [same]
      exact lt_of_lt_of_le (older e he) (ids.drawn _ _ tx.id slot rfl).1
    have before := carries.replay
    rw [read] at before
    rw [items, replayWrites_append apart, before, replay_tasks frames logs ids]

end OneLife

section Lives

variable {crates : Crates} {lives : List SystemConfig} {file : Bytes}

theorem survivingLives_snoc {tasks : List (List Nat)} (same : lives.length = tasks.length)
    (σ : SystemConfig) (last : List Nat) :
    survivingLives (lives ++ [σ]) (tasks ++ [last]) = survivingLives lives tasks ++
      survivingWrites σ last := by
  rw [survivingLives, List.zipWith_append same, List.flatten_append]
  simp [survivingLives]

/-- However often the process crashes and starts again: the survivors
of each lifetime are settled by the crash that ends it, and every
recovery after that executes them, those of earlier lifetimes first. -/
theorem restarts_durable (lived : Restarts crates lives file) :
    ∃ tasks : List (List Nat), List.Forall₂ Survivors lives tasks ∧
      Rebuilds crates file (survivingLives lives tasks) ∧
      ∀ (n : Nat) (σ : SystemConfig), lives[n]? = some σ →
        Rebuilds crates σ.shared.base (survivingLives (lives.take n) (tasks.take n)) := by
  suffices carried : ∃ tasks : List (List Nat), List.Forall₂ Survivors lives tasks ∧
      Carries crates file (survivingLives lives tasks) ∧
      ∀ (n : Nat) (σ : SystemConfig), lives[n]? = some σ →
        Rebuilds crates σ.shared.base (survivingLives (lives.take n) (tasks.take n)) by
    obtain ⟨tasks, survivors, carries, before⟩ := carried
    exact ⟨tasks, survivors, carries.rebuilds, before⟩
  induction lived with
  | new =>
    refine ⟨[], .nil, ⟨?_, ?_, ?_⟩, by simp⟩
    · rw [readLog_nil]; decide
    · rw [readLog_nil]; exact List.forall_mem_nil _
    · rw [readLog_nil]; rfl
  | @life lives file file' es m path ckpt stats mem σ earlier whole recovered run crash ih =>
    obtain ⟨tasks, survivors, carries, before⟩ := ih
    obtain ⟨last, own, carried⟩ := carries_life carries whole recovered run crash
    have same := survivors.length_eq
    refine ⟨tasks ++ [last], List.rel_append survivors (.cons own .nil), ?_, fun n τ at_n => ?_⟩
    · rw [survivingLives_snoc same]
      exact carried
    · have bound := (List.getElem?_eq_some_iff.mp at_n).1
      rw [List.length_append, List.length_singleton] at bound
      have inside : n ≤ lives.length := by omega
      rw [List.take_append_of_le_length inside, List.take_append_of_le_length (same ▸ inside)]
      rcases Nat.lt_or_ge n lives.length with old | last
      · exact before n τ (by rw [← at_n, List.getElem?_append_left old])
      · have here : n = lives.length := by omega
        subst here
        have own : σ = τ := by simpa using at_n
        rw [← own, base_run run, List.take_length, same, List.take_length]
        exact carries.rebuilds

end Lives

def killedOnce : SystemConfig :=
  ((systemProtocol (Bincode.crates true)).exec Orderly (System.start 10000 "wal.log" [] none
    (recoveredMemory []))
    forcedDrain).get (by decide +kernel)

def killedFile : Bytes := (killedOnce.shared.file (Bincode.crates true)).take 84

def killedTwice : SystemConfig :=
  ((systemProtocol (Bincode.crates true)).exec Orderly (System.start 10000 "wal.log" killedFile none
    (recoveredMemory killedFile))
    (forcedDrain ++ [.spawn .transaction] ++ insertInto "k" [3] 3 ++ [.move 0 .proceed] ++
      runs 0 5)).get (by decide +kernel)

theorem restarts_durable_killedTwice : ∃ tasks : List (List Nat),
    List.Forall₂ Survivors [killedOnce, killedTwice] tasks ∧
      Rebuilds (Bincode.crates true) ((killedTwice.shared.file (Bincode.crates true)).take 200)
        (survivingLives [killedOnce, killedTwice] tasks) ∧
      ∀ (n : Nat) (σ : SystemConfig), [killedOnce, killedTwice][n]? = some σ →
        Rebuilds (Bincode.crates true) σ.shared.base
          (survivingLives ([killedOnce, killedTwice].take n) (tasks.take n)) := by
  have first : Restarts (Bincode.crates true) [killedOnce] killedFile :=
    .life .new .nil (Prod.ext (by decide +kernel : _ = Outcome.ok ({} : RecoveryStats)) rfl)
      (Protocol.reaches_exec forcedDrain (by decide +kernel)) ⟨84, by decide +kernel, rfl⟩
  have whole : ValidLog (Bincode.crates true) killedFile [.insert 1 7 "k" [1], .commit 1 8] := by
    have log : killedFile = [WalEntry.insert 1 7 "k" [1], .commit 1 8].flatMap
      (frame (Bincode.crates true)) := by decide +kernel
    rw [log]
    exact .of_entries (by decide +kernel)
  exact restarts_durable (.life first whole
    (Prod.ext (by decide +kernel : _ = Outcome.ok
      { totalTransactions := 1, committed := 1, partialWrites := 1 }) rfl)
    (Protocol.reaches_exec _ (by decide +kernel)) ⟨200, by decide +kernel, rfl⟩)

end AsyncWalDb
