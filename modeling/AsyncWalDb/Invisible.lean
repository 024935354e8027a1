import AsyncWalDb.Acknowledged
import AsyncWalDb.Commits
import AsyncWalDb.CrashImage

/-! Transactions that lose, by an abort or dropped without a commit, leave no
trace: two runs in which everybody else does the same have the same live store at
every step, and their files give the same store to recovery and the same result
to a checkpoint. What everybody else does is a run of its own, without a log. -/
namespace AsyncWalDb

open Interleaving

/-- What can be told of a step by one who does not see the losers. -/
inductive Event where
  | spawned (k : Spawn)
  | moved (i : Nat) (m : Move)
  | framed (entry : WalEntry)
  deriving DecidableEq

def WalCall.heading : WalCall → Option Item
  | .drain _ (.write _ (it :: _) false) => some it
  | _ => none

/-- The calls of the other transactions and the frames
written for them; how the log works is not seen. -/
def visible (losers : Nat → Bool) (σ : SystemConfig) : SystemAction → Option Event
  | .spawn k => some (.spawned k)
  | .move i (.call _) =>
    match (σ.tasks[i]?.bind Task.call).bind WalCall.heading with
    | some it => if losers it.owner then none else some (.framed it.entry)
    | none => none
  | .move i m =>
    match σ.tasks[i]? with
    | some ⟨_, .transaction _ _⟩ => if losers i then none else some (.moved i m)
    | _ => none

/-- Transactions alone, without faults; a loser never calls commit. -/
def LosersLose (losers : Nat → Bool) (σ : SystemConfig) (a : SystemAction) : Prop :=
  SystemNoFaultAnd (fun _ _ => True) σ a ∧ NoWrap σ a ∧ NoCheckpoint a ∧
    match a with
    | .move i (.commit _) => losers i = false
    | _ => True

instance (losers : Nat → Bool) (σ : SystemConfig) (a : SystemAction) :
    Decidable (LosersLose losers σ a) := by
  unfold LosersLose
  rcases a with _ | ⟨i, _ | _ | _ | _ | _ | _ | _ | _ | _ | _⟩ <;> infer_instance

/-- A transaction without a log. -/
inductive Phase where
  | opened (entries : List WalEntry)
  | logging (entries : List WalEntry)
  | applying (rest : List WalEntry)
  | closed
  deriving DecidableEq

def Phase.move (id : UInt64) (mem : Memory) : Phase → Move → Memory × Phase
  | .opened entries, .appendOp op now =>
    match op.stamped id now with
    | .ok e => (mem, .opened (entries ++ [e]))
    | .error _ => (mem, .opened entries)
  | .opened entries, .commit _ => (mem, .logging entries)
  | .opened _, .abort _ | .opened _, .discard | .applying [], .proceed => (mem, .closed)
  | .logging entries, .proceed => (mem, .applying entries)
  | .applying (op :: rest), .proceed =>
    match applyToStore mem.store op with
    | .ok store => ({ mem with store := store }, .applying rest)
    | .error _ => (mem, .closed)
  | phase, _ => (mem, phase)

structure TaskView where
  id : Option UInt64
  phase : Phase

/-- The database as the others see it: what is in memory, the tasks, and their frames in order. -/
structure View where
  mem : Memory
  tasks : List TaskView
  frames : List WalEntry

def View.store (v : View) : Store := v.mem.store

def View.next (losers : Nat → Bool) (v : View) : Event → View
  | .spawned .transaction =>
    { v with
      mem := { v.mem with nextTxId := v.mem.nextTxId + 1 }
      tasks := v.tasks ++
        [⟨some v.mem.nextTxId, if losers v.tasks.length then .closed else .opened []⟩] }
  | .spawned _ => { v with tasks := v.tasks ++ [⟨none, .closed⟩] }
  | .moved i m =>
    match v.tasks[i]? with
    | some ⟨some id, phase⟩ =>
      { v with mem := (phase.move id v.mem m).1, tasks := v.tasks.set i ⟨some id,
        (phase.move id v.mem m).2⟩ }
    | _ => v
  | .framed e => { v with frames := v.frames ++ [e] }

def TxStage.phase (tx : Transaction) : TxStage → Phase
  | .active | .appending => .opened tx.entries
  | .commitAppend | .commitLogged => .logging tx.entries
  | .commitFlush => .applying tx.entries
  | .applying rest => .applying rest
  | .abortAppend | .abortLogged | .abortFlush | .returned _ | .dropped => .closed

def Prog.phase : Prog → Phase
  | .transaction tx stage => stage.phase tx
  | _ => .closed

def taskView (losers : Nat → Bool) (i : Nat) (t : Task) : TaskView :=
  ⟨t.prog.txId?, if losers i then .closed else t.prog.phase⟩

def viewOf (losers : Nat → Bool) (σ : SystemConfig) : View where
  mem := σ.shared.mem
  tasks := σ.tasks.mapIdx (taskView losers)
  frames := ((begun σ.shared.wal).filter fun it => !losers it.owner).map Item.entry

def lostIds (losers : Nat → Bool) (σ : SystemConfig) : List UInt64 :=
  ((List.range σ.tasks.length).filter losers).filterMap fun i => σ.tasks[i]?.bind fun t =>
    t.prog.txId?

def SameRecovery (crates : Crates) (file file' : Bytes) : Prop :=
  ∀ mem : Memory, (recoverWithValidation crates (some file) mem).2.store =
    (recoverWithValidation crates (some file') mem).2.store ∧
    ((∃ stats, (recoverWithValidation crates (some file) mem).1 = .ok stats) ↔
      ∃ stats, (recoverWithValidation crates (some file') mem).1 = .ok stats)

def SameCheckpoint (crates : Crates) (file file' : Bytes) : Prop :=
  ∀ (disk : Disk) (store : Store),
    let out := checkpoint crates { disk with wal := some file } store
    let out' := checkpoint crates { disk with wal := some file' } store
    out.1 = out'.1 ∧ out.2.1.ckpt = out'.2.1.ckpt ∧ out.2.2 = out'.2.2

variable {crates : Crates} {losers : Nat → Bool} {i : Nat} {σ σ' : SystemConfig} {a : SystemAction}

section Undone

def Undone : Prog → Prop
  | .transaction tx stage => tx.state ≠ .committed ∧ (Prog.transaction tx stage).committing = false
  | _ => True

/-- What every run of these keeps: there is no checkpoint, and the losers are undone. -/
structure Losing (losers : Nat → Bool) (σ : SystemConfig) : Prop where
  alone : ∀ t ∈ σ.tasks, t.prog.isCheckpoint = false
  undone : ∀ (i : Nat) (t : Task), σ.tasks[i]? = some t → losers i = true → Undone t.prog

theorem undone_returned {prog : Prog} (h : Undone prog) (result : Except WalError Unit) :
    Undone (prog.returned result) := by
  cases prog with
  | transaction tx stage =>
    cases stage with
    | commitAppend | commitLogged | commitFlush | applying => cases h.2
    | abortFlush => cases result <;> exact ⟨by simp_all [Undone], rfl⟩
    | abortAppend => cases result <;> exact ⟨h.1, rfl⟩
    | active | appending | abortLogged | returned | dropped => exact ⟨h.1, rfl⟩
  | flusher stage => cases stage <;> trivial
  | storeHandle | stopFlusher | flushCaller | checkpoint => trivial

theorem undone_dropped {prog : Prog} (h : Undone prog) : Undone prog.dropped := by
  cases prog with
  | transaction tx stage => cases stage <;> exact ⟨h.1, rfl⟩
  | flusher | storeHandle | stopFlusher | flushCaller | checkpoint => trivial

theorem undone_control {prog : Prog} (control : prog.isControl = true) : Undone prog := by
  cases prog with
  | transaction | checkpoint => cases control
  | flusher | storeHandle | stopFlusher | flushCaller => trivial

theorem undone_own {m : Move} {prog : Prog} {s s' : System} {t' : Task} (h : Undone prog)
    (runs : OwnRuns crates i s m prog s' t') (none_commits : ∀ now, m ≠ .commit now) :
    Undone t'.prog := by
  cases runs with
  | append appended =>
    obtain ⟨_, rfl⟩ := appendOp_ok appended
    exact ⟨h.1, rfl⟩
  | commit => exact absurd rfl (none_commits _)
  | commitFlush | done | apply | applyFails | cancel => cases h.2
  | control _ _ _ _ after => exact undone_control after
  | ckpt moved =>
    obtain ⟨stage', rfl, _⟩ := ckptMove_runs moved
    trivial
  | refused => exact h
  | abort | notActive | discard | abortFlush => exact ⟨h.1, rfl⟩

theorem losing_step (ok : Losing losers σ) (step : SystemStep crates σ a σ')
    (guard : LosersLose losers σ a) : Losing losers σ' := by
  obtain ⟨faultless, _, absent, lose⟩ := guard
  refine ⟨(applied_step step ok.alone absent).1, fun j u hj lost => ?_⟩
  cases step with
  | begin =>
    rcases getElem?_append_one hj with old | ⟨_, rfl⟩
    · exact ok.undone j u old lost
    · exact ⟨by simp, rfl⟩
  | @spawn k prog other =>
    rcases getElem?_append_one hj with old | ⟨_, rfl⟩
    · exact ok.undone j u old lost
    · rcases other with control | ⟨_, rfl⟩
      · exact undone_control control
      · trivial
  | @call i c prog w call slot runs =>
    rcases getElem?_set_cases hj with ⟨rfl, rfl, _⟩ | ⟨_, old⟩
    · have before := ok.undone j _ slot lost
      cases call with
      | some c' => exact before
      | none => exact undone_returned before (.ok ())
    · exact ok.undone j u old lost
  | @fault i c k prog prog' slot fallible stops after =>
    rcases getElem?_set_cases hj with ⟨rfl, rfl, _⟩ | ⟨_, old⟩
    · have before := ok.undone j _ slot lost
      rcases after with rfl | ⟨e, rfl⟩
      · exact undone_dropped before
      · exact undone_returned before (.error e)
    · exact ok.undone j u old lost
  | @own i m prog s' t' slot other runs =>
    rcases getElem?_set_cases hj with ⟨rfl, rfl, _⟩ | ⟨_, old⟩
    · refine undone_own (ok.undone j _ slot lost) runs ?_
      rintro now rfl
      have lose : losers j = false := lose
      exact absurd lost (by simp [lose])
    · exact ok.undone j u old lost

variable {m : Nat} {path : String} {base : Bytes} {ckpt : Option (List Char)} {mem : Memory}

theorem losing_run (run : (systemProtocol crates).Reaches (LosersLose losers)
    (System.start m path base ckpt mem) σ) : Losing losers σ := by
  apply run.invariant
  · refine ⟨by simp [System.start, Prog.isCheckpoint], fun j u hj _ => ?_⟩
    rcases start_slot hj with rfl | rfl <;> trivial
  · intro τ a τ' ok guard taken
    exact losing_step ok (system_step_cases taken) guard

theorem undone_not_committed {w : Wal} {t : Task} (log : TaskLogged w i t)
    (undone : Undone t.prog) : i ∉ commitOrder w := by
  intro mem
  obtain ⟨call, prog⟩ := t
  have idle : prog.committing = false := by
    cases prog with
    | transaction tx stage => exact undone.2
    | flusher | storeHandle | stopFlusher | flushCaller | checkpoint => rfl
  obtain ⟨tx, result, rfl, committed, _⟩ := committed_stage log idle mem
  exact undone.1 committed

end Undone

section View

theorem tx_phase {m : Move} {s s' : System} {tx : Transaction} {stage : TxStage} {t' : Task}
    (runs : OwnRuns crates i s m (.transaction tx stage) s' t')
    (h : txMove i m s tx stage = some (s', t'))
    (steady : m ≠ .interrupt) (active : stage = .active → tx.state = .active) :
    ∃ call tx' stage', t' = ⟨call, .transaction tx' stage'⟩ ∧ tx'.id = tx.id ∧ s'.wal = s.wal ∧
      (stage.phase tx).move tx.id s.mem m = (s'.mem, stage'.phase tx') := by
  cases runs with
  | @refused _ op now =>
    cases stamped : op.stamped tx.id now with
    | error e => exact ⟨_, _, _, rfl, rfl, rfl, by simp only [TxStage.phase, Phase.move, stamped]⟩
    | ok e =>
      -- an operation that can be stamped starts an append
      unfold txMove at h
      dsimp only at h
      rw [Transaction.appendOp, stamped] at h
      cases h
  | append appended =>
    obtain ⟨stamped, rfl⟩ := appendOp_ok appended
    exact ⟨_, _, _, rfl, rfl, rfl, by simp only [TxStage.phase, Phase.move, stamped,
      Transaction.addEntry]⟩
  | apply unlocked applied =>
    exact ⟨_, _, _, rfl, rfl, rfl, by simp only [TxStage.phase, Phase.move, applied]⟩
  | applyFails unlocked failed =>
    exact ⟨_, _, _, rfl, rfl, rfl, by simp only [TxStage.phase, Phase.move, failed]⟩
  | notActive state => exact absurd (active rfl) state
  | cancel => exact absurd rfl steady
  | commit | abort | discard | commitFlush | abortFlush | done =>
    exact ⟨_, _, _, rfl, rfl, rfl, rfl⟩
  | control _ _ _ before => cases before

theorem move_tx {m : Move} {s s' : System} {tx : Transaction} {stage : TxStage} {t' : Task}
    (own : ∀ k, m ≠ .call k)
    (h : (systemProtocol crates).move i m s ⟨none, .transaction tx stage⟩ = some (s', t')) :
    txMove i m s tx stage = some (s', t') := by
  cases m with
  | call k => exact absurd rfl (own k)
  | proceed | notified | appendOp | commit | abort | discard | flush | see | interrupt => exact h

theorem phase_mem {id : UInt64} {mem : Memory} {m : Move} {phase : Phase}
    (idle : ∀ rest, phase ≠ .applying rest) : (phase.move id mem m).1 = mem := by
  unfold Phase.move
  split
  · split <;> rfl
  · rfl
  · rfl
  · rfl
  · rfl
  · rfl
  · exact absurd rfl (idle _)
  · rfl

theorem undone_phase {tx : Transaction} {stage : TxStage}
    (undone : Undone (.transaction tx stage)) : ∀ rest, stage.phase tx ≠ .applying rest := by
  intro rest
  cases stage with
  | commitAppend | commitLogged | commitFlush | applying => cases undone.2
  | active | appending | abortAppend | abortLogged | abortFlush | returned | dropped =>
    simp [TxStage.phase]

theorem returned_phase (prog : Prog) : (prog.returned (.ok ())).phase = prog.phase := by
  cases prog with
  | transaction tx stage => cases stage <;> rfl
  | flusher stage => cases stage <;> rfl
  | storeHandle | stopFlusher | flushCaller | checkpoint => rfl

theorem control_phase {prog : Prog} (control : prog.isControl = true) : prog.phase = .closed := by
  cases prog with
  | transaction | checkpoint => cases control
  | flusher | storeHandle | stopFlusher | flushCaller => rfl

theorem runs_heading {w w' : Wal} {c : WalCall} {t : Option WalCall} (h : Runs crates i w c w' t) :
    begun w' = begun w ++ c.heading.toList := by
  cases h with
  | header => exact begun_append _ _
  | payload => exact (begun_append _ _).trans rfl
  | flush | wait | reserve | push | appended | poll | force | drained | pop | empty | popped | lock
  | sync | sub | wake =>
    exact (List.append_nil _).symm

theorem control_mem {m : Move} {prog : Prog} {s s' : System} {t' : Task}
    (control : prog.isControl = true) (runs : OwnRuns crates i s m prog s' t') :
    s'.mem = s.mem ∧ s'.wal.stream = s.wal.stream ∧ t'.prog.isControl = true := by
  cases runs with
  | control _ _ _ _ after log => exact ⟨rfl, logMove_stream log, after⟩
  | refused | append | commit | abort | notActive | discard | commitFlush | abortFlush | done
  | apply | applyFails | cancel
  | ckpt => cases control

theorem visible_own {m : Move} (own : ∀ k, m ≠ .call k) {t : Task} (slot : σ.tasks[i]? = some t) :
    visible losers σ (.move i m) = if t.prog.txId?.isSome ∧ losers i = false then some (.moved i m)
      else none := by
  obtain ⟨call, prog⟩ := t
  cases m with
  | call k => exact absurd rfl (own k)
  | proceed | notified | appendOp | commit | abort | discard | flush | see | interrupt =>
    cases prog with
    | transaction tx stage => cases lost : losers i <;> simp [visible, slot, Prog.txId?, lost]
    | flusher | storeHandle | stopFlusher | flushCaller | checkpoint =>
      simp [visible, slot, Prog.txId?]

theorem tasks_same {t t' : Task} (slot : σ.tasks[i]? = some t)
    (same : taskView losers i t' = taskView losers i t) :
    (σ.tasks.set i t').mapIdx (taskView losers) = σ.tasks.mapIdx (taskView losers) := by
  rw [List.mapIdx_set, same]
  exact set_same (by rw [List.getElem?_mapIdx, slot]; rfl)

theorem view_call {s : System} {t t' : Task} (slot : σ.tasks[i]? = some t) {k : CallMove}
    (faultless : k = .run)
    (h : (systemProtocol crates).move i (.call k) σ.shared t = some (s, t')) :
    viewOf losers ⟨s, σ.tasks.set i t'⟩ =
      (visible losers σ (.move i (.call k))).elim (viewOf losers σ) ((viewOf losers σ).next
        losers) := by
  subst faultless
  obtain ⟨_ | c, prog⟩ := t
  · cases h
  · obtain ⟨out, ran, same⟩ := Option.map_eq_some_iff.mp h
    cases same
    have frames := runs_heading (run_runs ran)
    have looks : taskView losers i ⟨out.2, if out.2.isSome then prog else prog.returned (.ok ())⟩ =
        taskView losers i ⟨some c, prog⟩ := by
      simp only [taskView]
      split
      · rfl
      · rw [returned_txId, returned_phase]
    simp only [viewOf, tasks_same slot looks, visible, slot, Option.bind_some, frames]
    cases c.heading with
    | none => simp
    | some it => cases lost : losers it.owner <;> simp [lost, View.next]

theorem view_control {m : Move} (own : ∀ k, m ≠ .call k) {prog : Prog}
    (control : prog.isControl = true) {s : System}
    {t' : Task} (slot : σ.tasks[i]? = some ⟨none, prog⟩)
    (runs : OwnRuns crates i σ.shared m prog s t') : viewOf losers ⟨s, σ.tasks.set i t'⟩ =
      (visible losers σ (.move i m)).elim (viewOf losers σ) ((viewOf losers σ).next losers) := by
  obtain ⟨mem, stream, after⟩ := control_mem control runs
  have looks : taskView losers i t' = taskView losers i ⟨none, prog⟩ := by
    rw [taskView, taskView, control_txId control, control_txId after, control_phase control,
      control_phase after]
  rw [visible_own own slot]
  simp [viewOf, tasks_same slot looks, mem, begun, stream, control_txId control]

theorem view_tx (logs : TxLogs σ) (losing : Losing losers σ) {m : Move} (own : ∀ k, m ≠ .call k)
    (steady : m ≠ .interrupt) {tx : Transaction} {stage : TxStage} {s : System} {t' : Task}
    (slot : σ.tasks[i]? = some ⟨none, .transaction tx stage⟩)
    (runs : OwnRuns crates i σ.shared m (.transaction tx stage) s t')
    (h : (systemProtocol crates).move i m σ.shared ⟨none, .transaction tx stage⟩ = some (s, t')) :
    viewOf losers ⟨s, σ.tasks.set i t'⟩ =
      (visible losers σ (.move i m)).elim (viewOf losers σ) ((viewOf losers σ).next losers) := by
  have active : stage = .active → tx.state = .active := by
    rintro rfl
    exact (logs.tasks i _ slot).2.1.2.1
  obtain ⟨call, tx', stage', rfl, id, wal, moved⟩ := tx_phase runs (move_tx own h) steady active
  rw [visible_own own slot]
  cases lost : losers i with
  | true =>
    have mem : s.mem = σ.shared.mem := by
      have idle : ((stage.phase tx).move tx.id σ.shared.mem m).1 = σ.shared.mem :=
        phase_mem (undone_phase (losing.undone i _ slot lost))
      rw [moved] at idle
      exact idle
    have looks : taskView losers i ⟨call, .transaction tx' stage'⟩ = taskView losers i ⟨none,
        .transaction tx stage⟩ := by
      simp [taskView, lost, Prog.txId?, id]
    simp [viewOf, tasks_same slot looks, mem, wal]
  | false =>
    have here : (viewOf losers σ).tasks[i]? = some ⟨some tx.id, stage.phase tx⟩ := by
      simp [viewOf, slot, taskView, lost, Prog.txId?, Prog.phase]
    simp only [Prog.txId?, Option.isSome_some, and_self, if_true, Option.elim_some, View.next, here]
    simp [viewOf, moved, wal, taskView, lost, Prog.txId?, Prog.phase, id]

theorem view_step (logs : TxLogs σ) (losing : Losing losers σ) (guard : LosersLose losers σ a)
    (taken : (systemProtocol crates).step σ a = some σ') :
    viewOf losers σ' = (visible losers σ a).elim (viewOf losers σ)
      ((viewOf losers σ).next losers) := by
  cases a with
  | spawn k =>
    obtain ⟨s, t, h, rfl⟩ := Protocol.step_spawn taken
    cases k with
    | transaction =>
      cases h
      simp [viewOf, visible, View.next, taskView, Prog.txId?, Prog.phase, TxStage.phase]
    | flushCaller | stopFlusher =>
      cases h
      simp [viewOf, visible, View.next, taskView, Prog.txId?, Prog.phase]
    | checkpoint => exact guard.2.2.1.elim
  | move i m =>
    obtain ⟨⟨call, prog⟩, s, t', slot, h, rfl⟩ := Protocol.step_move taken
    by_cases calls : ∃ k, m = .call k
    · obtain ⟨k, rfl⟩ := calls
      cases k with
      | run => exact view_call slot rfl h
      | fail | drop => exact guard.1.elim
    · have own : ∀ k, m ≠ .call k := fun k same => calls ⟨k, same⟩
      have steady : ∀ tx stage, prog = .transaction tx stage → m ≠ .interrupt := by
        rintro tx stage rfl rfl
        exact guard.1
      obtain ⟨rfl, runs⟩ := move_own own h
      cases prog with
      | flusher | storeHandle | stopFlusher | flushCaller => exact view_control own rfl slot runs
      | checkpoint stage =>
        exact absurd (losing.alone _ (List.mem_of_getElem? slot)) (by simp [Prog.isCheckpoint])
      | transaction tx stage => exact view_tx logs losing own (steady tx stage rfl) slot runs h

end View

section Files

variable {first : UInt64} {old : List WalEntry} {its : List Item}

theorem mem_lostIds {id : UInt64} : id ∈ lostIds losers σ ↔
    ∃ i t, losers i = true ∧ σ.tasks[i]? = some t ∧ t.prog.txId? = some id := by
  simp only [lostIds, List.mem_filterMap, List.mem_filter, List.mem_range, Option.bind_eq_some_iff]
  constructor
  · rintro ⟨i, ⟨_, lost⟩, t, slot, drawn⟩
    exact ⟨i, t, lost, slot, drawn⟩
  · rintro ⟨i, t, lost, slot, drawn⟩
    exact ⟨i, ⟨(List.getElem?_eq_some_iff.mp slot).1, lost⟩, t, slot, drawn⟩

theorem lostIds_view (losers : Nat → Bool) (σ : SystemConfig) : lostIds losers σ =
    ((List.range (viewOf losers σ).tasks.length).filter losers).filterMap fun i =>
      (viewOf losers σ).tasks[i]?.bind TaskView.id := by
  rw [lostIds]
  simp only [viewOf, List.length_mapIdx, List.getElem?_mapIdx]
  refine List.filterMap_congr fun i _ => ?_
  cases σ.tasks[i]? <;> rfl

theorem lost_item (logs : TxLogs σ) (ids : TxIds first σ) {it : Item}
    (pushed : it ∈ σ.shared.wal.history) :
    it.entry.txId ∈ lostIds losers σ ↔ losers it.owner = true := by
  obtain ⟨call, tx, stage, slot, own⟩ := pushed_by logs pushed
  rw [mem_lostIds]
  constructor
  · rintro ⟨i, t, lost, at_i, drawn⟩
    rw [own] at drawn
    rw [← ids.unique at_i slot drawn rfl]
    exact lost
  · intro lost
    exact ⟨it.owner, _, lost, slot, congrArg some own.symm⟩

theorem lost_above (ids : TxIds first σ) {id : UInt64} (lost : id ∈ lostIds losers σ) :
    first ≤ id := by
  obtain ⟨i, t, _, slot, drawn⟩ := mem_lostIds.mp lost
  exact (ids.drawn i t id slot drawn).1

theorem without_items (logs : TxLogs σ) (ids : TxIds first σ) (older : ∀ e ∈ old, e.txId < first)
    (pushed : its ⊆ σ.shared.wal.history) : without (lostIds losers σ) (old ++ its.map Item.entry) =
      old ++ (its.filter fun it => !losers it.owner).map Item.entry := by
  rw [without, List.filter_append]
  congr 1
  · rw [List.filter_eq_self]
    intro e he
    have above : e.txId ∉ lostIds losers σ := fun lost =>
      absurd (older e he) (not_lt.mpr (lost_above ids lost))
    simpa using above
  · rw [List.filter_map]
    congr 1
    refine List.filter_congr fun it hit => ?_
    have same : it.entry.txId ∈ lostIds losers σ ↔ losers it.owner = true :=
      lost_item logs ids (pushed hit)
    cases lost : losers it.owner <;> simp [same, lost]

theorem lost_not_committed (logs : TxLogs σ) (ids : TxIds first σ) (losing : Losing losers σ)
    (older : ∀ e ∈ old, e.txId < first) (pushed : its ⊆ σ.shared.wal.history) :
    ∀ id ∈ lostIds losers σ, committed (old ++ its.map Item.entry) id = false := by
  intro id lost
  by_contra done
  obtain ⟨e, he, rfl, commit⟩ := committed_mem (Bool.not_eq_false _ ▸ done)
  rcases List.mem_append.mp he with below | new
  · exact absurd (older e below) (not_lt.mpr (lost_above ids lost))
  · obtain ⟨it, hit, rfl⟩ := List.mem_map.mp new
    obtain ⟨call, tx, stage, slot, _⟩ := pushed_by logs (pushed hit)
    have undone := losing.undone it.owner _ slot ((lost_item logs ids (pushed hit)).mp lost)
    refine undone_not_committed (logs.tasks it.owner _ slot) undone ?_
    exact List.mem_map.mpr ⟨it, List.mem_filter.mpr ⟨pushed hit, commit⟩, rfl⟩

end Files

section Runs

variable {m : Nat} {path : String} {base : Bytes} {ckpt : Option (List Char)} {mem : Memory}
  {old : List WalEntry} {file file' : Bytes}

structure Found (crates : Crates) (losers : Nat → Bool) (σ : SystemConfig) (file : Bytes) :
    Prop where
  readable : (readLog crates file).exit ≠ .capacityOverflow
  lost : ∀ id ∈ lostIds losers σ, committed (readLog crates file).items id = false
  room : ∀ m, maxTxId (readLog crates file).items = some m →
    ¬ (crates.overflowChecks = true ∧ m + 1 = 0)

theorem Found.sameRecovery (found : Found crates losers σ file)
    (found' : Found crates losers σ' file')
    (same : SameCommitted (readLog crates file).items (readLog crates file').items) :
    SameRecovery crates file file' := by
  intro mem
  have writes := replayWrites_congr same.ids same.writes
  rw [recover_store mem found.readable, recover_store mem found'.readable,
    recover_ok_iff mem found.readable,
    recover_ok_iff mem found'.readable, writes, and_iff_left found.room, and_iff_left found'.room]
  exact ⟨rfl, Iff.rfl⟩

theorem crash_found (whole : ValidLog crates base old) (older : ∀ e ∈ old, e.txId < mem.nextTxId)
    (run : (systemProtocol crates).Reaches (LosersLose losers)
      (System.start m path base ckpt mem) σ)
    (crash : σ.shared.CrashFile crates file) : Found crates losers σ file := by
  have frames : FramesOrdered crates (fun _ _ => False) (logView σ) :=
    framesOrdered_system (fun _ _ => And.left) (fun _ _ _ => lockOrder_free)
      (fun _ _ must => must.elim) run
  have logs : TxLogs σ := txLogs_run (fun _ _ ok => ok.1.faultless) run
  have ids := txIds_run (fun _ _ ok => ok.2.1) run
  have whole : ValidLog crates σ.shared.base old := by rw [base_run run]; exact whole
  obtain ⟨k, items, readable, _⟩ := crash_items frames whole crash
  have pushed : (begun σ.shared.wal).take k ⊆ σ.shared.wal.history := frames.pushed_take k
  refine ⟨readable, ?_, ?_⟩
  · rw [items]
    exact lost_not_committed logs ids (losing_run run) older pushed
  · rw [items]
    exact no_overflow_of_lt (read_txId_lt logs ids older pushed)

theorem closed_found (whole : ValidLog crates base old) (older : ∀ e ∈ old, e.txId < mem.nextTxId)
    (run : (systemProtocol crates).Reaches (LosersLose losers)
      (System.start m path base ckpt mem) σ)
    (free : σ.shared.wal.locked = false) :
    without (lostIds losers σ) (readLog crates (σ.shared.file crates)).items =
        old ++ (viewOf losers σ).frames ∧
      (readLog crates (σ.shared.file crates)).exit = .headerEof := by
  have frames : FramesOrdered crates (fun _ _ => False) (logView σ) :=
    framesOrdered_system (fun _ _ => And.left) (fun _ _ _ => lockOrder_free)
      (fun _ _ must => must.elim) run
  have logs : TxLogs σ := txLogs_run (fun _ _ ok => ok.1.faultless) run
  have ids := txIds_run (fun _ _ ok => ok.2.1) run
  have whole : ValidLog crates σ.shared.base old := by rw [base_run run]; exact whole
  rw [closed_items frames whole free]
  exact ⟨without_items logs ids older frames.pushed, rfl⟩

/-- In two runs in which everybody but the losers makes the same moves and the same
frames are written for them, the live store is the same after each of these steps and
at the end. The files at the end, when no drain is writing, give recovery the same
store and a checkpoint the same result; so do files that two crashes leave, when they
hold the same frames of the others and for the checkpoint also end alike. -/
theorem uncommitted_invisible (whole : ValidLog crates base old)
    (older : ∀ e ∈ old, e.txId < mem.nextTxId) {seen seen' : List (Event × Store)}
    (run : (systemProtocol crates).Observed (visible losers) (fun σ => σ.shared.mem.store)
      (LosersLose losers)
      (System.start m path base ckpt mem) seen σ)
    (run' : (systemProtocol crates).Observed (visible losers) (fun σ => σ.shared.mem.store)
      (LosersLose losers)
      (System.start m path base ckpt mem) seen' σ')
    (same : seen.map Prod.fst = seen'.map Prod.fst) :
    seen = seen' ∧ σ.shared.mem.store = σ'.shared.mem.store ∧
      (σ.shared.wal.locked = false → σ'.shared.wal.locked = false →
        SameRecovery crates (σ.shared.file crates) (σ'.shared.file crates) ∧
        SameCheckpoint crates (σ.shared.file crates) (σ'.shared.file crates)) ∧
      ∀ file file', σ.shared.CrashFile crates file → σ'.shared.CrashFile crates file' →
        without (lostIds losers σ) (readLog crates file).items = without (lostIds losers σ')
          (readLog crates file').items →
        SameRecovery crates file file' ∧
          ((readLog crates file).exit = (readLog crates file').exit →
            SameCheckpoint crates file file') := by
  have known : ∀ τ, (systemProtocol crates).Reaches (LosersLose losers)
    (System.start m path base ckpt mem) τ →
      TxLogs τ ∧ Losing losers τ := fun τ reached =>
        ⟨txLogs_run (fun _ _ ok => ok.1.faultless) reached, losing_run reached⟩
  have moves : ∀ σ a σ', (TxLogs σ ∧ Losing losers σ) → LosersLose losers σ a →
    (systemProtocol crates).step σ a = some σ' →
      viewOf losers σ' = (visible losers σ a).elim (viewOf losers σ)
        ((viewOf losers σ).next losers) :=
    fun σ a σ' both guard taken => view_step both.1 both.2 guard taken
  have faithful : ∀ σ : SystemConfig, σ.shared.mem.store = (viewOf losers σ).store := fun _ => rfl
  obtain ⟨shown, views⟩ := run.agree known moves faithful run' same
  have lost : lostIds losers σ = lostIds losers σ' := by rw [lostIds_view, lostIds_view, views]
  have crashed : ∀ file file', σ.shared.CrashFile crates file → σ'.shared.CrashFile crates file' →
      without (lostIds losers σ) (readLog crates file).items = without (lostIds losers σ')
        (readLog crates file').items →
      SameRecovery crates file file' ∧
        ((readLog crates file).exit = (readLog crates file').exit →
          SameCheckpoint crates file file') := by
    intro file file' crash crash' frames
    have found := crash_found whole older run.reaches crash
    have found' := crash_found whole older run'.reaches crash'
    have same := sameCommitted_of_without (lost ▸ frames) found.lost (lost ▸ found'.lost)
    exact ⟨found.sameRecovery found' same,
      fun exits disk store => checkpoint_congr disk store exits same⟩
  refine ⟨shown, congrArg View.store views, fun free free' => ?_, crashed⟩
  -- the whole files hold the frames that were seen
  have closed := closed_found whole older run.reaches free
  have closed' := closed_found whole older run'.reaches free'
  obtain ⟨recovery, checkpoints⟩ :=
    crashed _ _ (crashFile_file crates σ.shared) (crashFile_file crates σ'.shared)
    (by rw [closed.1, closed'.1, views])
  exact ⟨recovery, checkpoints (by rw [closed.2, closed'.2])⟩

end Runs

def thirdLoses (i : Nat) : Bool := i = 3

def observeLoser (as : List SystemAction) : Option (List (Event × Store) × SystemConfig) :=
  (systemProtocol (Bincode.crates true)).observe (visible thirdLoses) (fun σ => σ.shared.mem.store)
    (LosersLose thirdLoses)
    newDatabase as

/-- Task 3 logs an insert before and one after that of task 2
to the same key, and aborts once task 2 has committed. -/
def loudLoser : List SystemAction :=
  [.spawn .transaction, .spawn .transaction] ++ insertInto "k" [8] 3 ++ insertInto "k" [1] 2 ++
    insertInto "k" [9] 3 ++
    commitOne 2 4 ++ [.move 3 (.abort 9)] ++ runs 3 4 ++ flusherRound 1

def quietLoser : List SystemAction :=
  [.spawn .transaction, .spawn .transaction] ++ insertInto "k" [1] 2 ++ commitOne 2 2 ++
    [.move 3 .discard]

theorem uncommitted_invisible_loudLoser :
    let loud := (observeLoser loudLoser).get (by decide +kernel)
    let quiet := (observeLoser quietLoser).get (by decide +kernel)
    loud.1 = quiet.1 ∧ loud.2.shared.mem.store = quiet.2.shared.mem.store ∧
      SameRecovery (Bincode.crates true) (loud.2.shared.file (Bincode.crates true))
        (quiet.2.shared.file (Bincode.crates true)) ∧
      SameCheckpoint (Bincode.crates true) (loud.2.shared.file (Bincode.crates true))
        (quiet.2.shared.file (Bincode.crates true)) := by
  intro loud quiet
  obtain ⟨shown, live, files, _⟩ := uncommitted_invisible .nil (List.forall_mem_nil _)
    (Protocol.observed_of_observe loudLoser (Option.some_get _).symm)
    (Protocol.observed_of_observe quietLoser (Option.some_get _).symm)
    (by decide +kernel : loud.1.map _ = quiet.1.map _)
  exact ⟨shown, live, files (by decide +kernel) (by decide +kernel)⟩

end AsyncWalDb
