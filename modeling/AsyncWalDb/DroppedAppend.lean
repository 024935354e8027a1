import AsyncWalDb.Lifetimes
import AsyncWalDb.Serializable

/-! The buffer of a transaction and what it has pushed. `append_op` buffers the operation before it
awaits the append, so a future dropped while it waits for room leaves the operation in the buffer
alone, and commit applies it. -/
namespace AsyncWalDb

open Interleaving

def Task.awaitedOp : Task → Option WalEntry
  | ⟨some (.append e _), .transaction _ .appending⟩ => some e
  | _ => none

/-- The operation whose `append_op` is dropped in this step,
if the task with this number drops one. -/
def droppedOp (i : Nat) (σ : SystemConfig) : SystemAction → Option WalEntry
  | .move j (.call .drop) => if j = i then σ.tasks[j]?.bind Task.awaitedOp else none
  | _ => none

def pushedBeforeCommit (w : Wal) (id : UInt64) : List WalEntry :=
  (entriesOf id (w.history.map Item.entry)).takeWhile fun e => !e.isCommit

structure Lacks (log entries : List WalEntry) (n : Nat) : Prop where
  sublist : log.Sublist entries
  length : entries.length = log.length + n

def CommitLogged (w : Wal) (i : Nat) (tx : Transaction) (n : Nat) : Prop :=
  ∃ log now, logged w i = log ++ [.commit tx.id now] ∧ Lacks log tx.entries n

/-- How far log and store have followed the buffer, after `n` dropped appends; nothing is said of a
transaction that cannot commit any more. -/
def StageBuffered (s : System) (i : Nat) (tx : Transaction) (call : Option WalCall)
    (n : Nat) : TxStage → Prop
  | .active => call = none ∧ appliedBy s i = [] ∧ Lacks (logged s.wal i) tx.entries n
  | .appending =>
    appliedBy s i = [] ∧ ∃ pre e pc log, call = some (.append e pc) ∧ tx.entries = pre ++ [e] ∧
      (logged s.wal i = log ++ if pc.pushed then [e] else []) ∧ Lacks log pre n
  | .commitAppend =>
    appliedBy s i = [] ∧ ∃ now pc log, call = some (.append (.commit tx.id now) pc) ∧
      (logged s.wal i = log ++ if pc.pushed then [.commit tx.id now] else []) ∧
        Lacks log tx.entries n
  | .commitLogged => call = none ∧ appliedBy s i = [] ∧ CommitLogged s.wal i tx n
  | .commitFlush =>
    (∀ e pc, call ≠ some (.append e pc)) ∧ appliedBy s i = [] ∧ CommitLogged s.wal i tx n
  | .applying rest => call = none ∧ appliedBy s i ++ rest = tx.entries ∧ CommitLogged s.wal i tx n
  | .returned (.ok ()) => call = none ∧
      (tx.state = .committed → appliedBy s i = tx.entries ∧ CommitLogged s.wal i tx n)
  | _ => True

def TaskBuffered (s : System) (i : Nat) (n : Nat) (t : Task) : Prop :=
  match t.prog with
  | .transaction tx stage =>
    (∀ e ∈ tx.entries, e.isMarker = false) ∧ StageBuffered s i tx t.call n stage
  | _ => True

/-- The same of the task with this number, also before it is there. -/
def Buffered (i n : Nat) (σ : SystemConfig) : Prop :=
  match σ.tasks[i]? with
  | none => logged σ.shared.wal i = [] ∧ appliedBy σ.shared i = [] ∧ n = 0
  | some t => TaskBuffered σ.shared i n t

variable {crates : Crates} {i j n : Nat} {s s' : System} {σ σ' : SystemConfig} {a : SystemAction}

section Lacking

variable {log entries : List WalEntry}

theorem Lacks.snoc (h : Lacks log entries n) (e : WalEntry) :
    Lacks (log ++ [e]) (entries ++ [e]) n := by
  refine ⟨h.sublist.append_right [e], ?_⟩
  have length := h.length
  simp only [List.length_append, List.length_singleton]
  omega

theorem Lacks.drop (h : Lacks log entries n) (e : WalEntry) :
    Lacks log (entries ++ [e]) (n + 1) := by
  refine ⟨h.sublist.trans (List.sublist_append_left _ _), ?_⟩
  have length := h.length
  simp only [List.length_append, List.length_singleton]
  omega

theorem Lacks.eq_iff (h : Lacks log entries n) : entries = log ↔ n = 0 := by
  have length := h.length
  constructor
  · rintro rfl
    omega
  · intro zero
    exact (h.sublist.eq_of_length (by omega)).symm

end Lacking

section Steps

theorem stageBuffered_congr {tx : Transaction} {call : Option WalCall} {stage : TxStage}
    (log : logged s'.wal i = logged s.wal i) (applied : appliedBy s' i = appliedBy s i)
    (h : StageBuffered s i tx call n stage) : StageBuffered s' i tx call n stage := by
  cases stage with
  | returned result =>
    cases result with
    | ok => simpa only [StageBuffered, CommitLogged, log, applied] using h
    | error => trivial
  | active | appending | commitAppend | commitLogged | commitFlush | applying =>
    simpa only [StageBuffered, CommitLogged, log, applied] using h
  | abortAppend | abortLogged | abortFlush | dropped => trivial

theorem taskBuffered_congr {t : Task} (log : logged s'.wal i = logged s.wal i)
    (applied : appliedBy s' i = appliedBy s i)
    (h : TaskBuffered s i n t) : TaskBuffered s' i n t := by
  obtain ⟨call, prog⟩ := t
  cases prog with
  | transaction tx stage => exact ⟨h.1, stageBuffered_congr log applied h.2⟩
  | flusher | storeHandle | stopFlusher | flushCaller | checkpoint => trivial

theorem call_taskBuffered {c : WalCall} {w : Wal} {call : Option WalCall} {prog : Prog}
    (runs : Runs crates i s.wal c w call) (ok : TaskBuffered s i n ⟨some c, prog⟩) :
    TaskBuffered { s with wal := w } i n ⟨call, if call.isSome then prog
      else prog.returned (.ok ())⟩ := by
  cases prog with
  | transaction tx stage =>
    obtain ⟨operations, stageOk⟩ := ok
    cases stage with
    | active | commitLogged | applying => cases stageOk.1
    | appending =>
      obtain ⟨applied, pre, e, pc, log, same, entries, pushed, lacks⟩ := stageOk
      cases same
      rcases append_log runs pushed with ⟨pc', rfl, pushed'⟩ | ⟨rfl, pushed'⟩
      · exact ⟨operations, applied, pre, e, pc', log, rfl, entries, pushed', lacks⟩
      · refine ⟨operations, rfl, applied, ?_⟩
        change Lacks (logged w i) tx.entries n
        rw [pushed', entries]
        exact lacks.snoc e
    | commitAppend =>
      obtain ⟨applied, now, pc, log, same, pushed, lacks⟩ := stageOk
      cases same
      rcases append_log runs pushed with ⟨pc', rfl, pushed'⟩ | ⟨rfl, pushed'⟩
      · exact ⟨operations, applied, now, pc', log, rfl, pushed', lacks⟩
      · exact ⟨operations, rfl, applied, log, now, pushed', lacks⟩
    | commitFlush =>
      obtain ⟨other, applied, log, now, pushed, lacks⟩ := stageOk
      obtain ⟨history, other'⟩ := other_runs runs fun e pc same => other e pc (congrArg some same)
      have pushed' : logged w i = log ++ [.commit tx.id now] :=
        (logged_congr history i).trans pushed
      cases call with
      | some c' => exact ⟨operations, other', applied, log, now, pushed', lacks⟩
      | none =>
        exact ⟨operations, rfl, congrArg (· ++ tx.entries) applied, log, now, pushed', lacks⟩
    | abortFlush =>
      cases call with
      | some c' => exact ⟨operations, trivial⟩
      | none => exact ⟨List.forall_mem_nil _, rfl, fun committed => by cases committed⟩
    | returned result =>
      cases result with
      | ok => cases stageOk.1
      | error => cases call <;> exact ⟨operations, trivial⟩
    | abortAppend | abortLogged | dropped => cases call <;> exact ⟨operations, trivial⟩
  | flusher stage => cases call <;> cases stage <;> trivial
  | storeHandle | stopFlusher | flushCaller | checkpoint => cases call <;> trivial

theorem fault_taskBuffered {c : WalCall} {prog prog' : Prog} {w : Wal}
    (fallible : c.fallible = true)
    (after : prog' = prog.dropped ∨ ∃ e, prog' = prog.returned (.error e))
    (history : w.history = s.wal.history) (ok : TaskBuffered s i n ⟨some c, prog⟩) :
    TaskBuffered { s with wal := w } i (n + (Task.awaitedOp ⟨some c, prog⟩).toList.length)
      ⟨none, prog'⟩ := by
  have log := logged_congr history i
  cases prog with
  | transaction tx stage =>
    obtain ⟨operations, stageOk⟩ := ok
    cases stage with
    | active | commitLogged | applying => cases stageOk.1
    | appending =>
      obtain ⟨applied, pre, e, pc, front, same, entries, pushed, lacks⟩ := stageOk
      cases same
      have unpushed : pc.pushed = false := by cases pc <;> first | rfl | cases fallible
      have active : prog' = .transaction tx .active := by
        rcases after with rfl | ⟨e, rfl⟩ <;> rfl
      subst active
      refine ⟨operations, rfl, applied, ?_⟩
      change Lacks (logged w i) tx.entries (n + 1)
      rw [log, pushed, unpushed, entries]
      simpa using lacks.drop e
    | commitAppend | commitFlush | abortAppend | abortLogged | abortFlush | dropped =>
      rcases after with rfl | ⟨e, rfl⟩ <;> exact ⟨operations, trivial⟩
    | returned result =>
      cases result with
      | ok => cases stageOk.1
      | error => rcases after with rfl | ⟨e, rfl⟩ <;> exact ⟨operations, trivial⟩
  | flusher stage => rcases after with rfl | ⟨e, rfl⟩ <;> cases stage <;> trivial
  | storeHandle | stopFlusher | flushCaller | checkpoint =>
    rcases after with rfl | ⟨e, rfl⟩ <;> trivial

theorem own_taskBuffered {m : Move} {prog : Prog} {t' : Task}
    (runs : OwnRuns crates i s m prog s' t')
    (ok : TaskBuffered s i n ⟨none, prog⟩) : TaskBuffered s' i n t' := by
  have log := logged_congr (logMove_records runs.log).1 i
  cases runs with
  | refused => exact ok
  | @append tx op now tx' e appended =>
    obtain ⟨operations, _, applied, lacks⟩ := ok
    obtain ⟨stamped, rfl⟩ := appendOp_ok appended
    refine ⟨fun e' he' => ?_, applied, tx.entries, e, .load, logged s.wal i, rfl, rfl, ?_, lacks⟩
    · rcases List.mem_append.mp he' with old | new
      · exact operations e' old
      · cases List.mem_singleton.mp new
        exact (stamped_operation stamped).1
    · exact (List.append_nil _).symm
  | @commit tx now =>
    obtain ⟨operations, _, applied, lacks⟩ := ok
    exact ⟨operations, applied, now, .load, logged s.wal i, rfl, (List.append_nil _).symm, lacks⟩
  | commitFlush => exact ⟨ok.1, by simp [startFlush], ok.2.2⟩
  | done =>
    obtain ⟨operations, _, applied, pushed⟩ := ok
    exact ⟨operations, rfl, fun _ => ⟨(List.append_nil _).symm.trans applied, pushed⟩⟩
  | @apply tx op rest store unlocked succeeds =>
    obtain ⟨operations, _, applied, pushed⟩ := ok
    have more :
        appliedBy { s with
          mem := { s.mem with store := store }, applied := s.applied ++ [(i, op)] } i =
        appliedBy s i ++ [op] := by simp [appliedBy]
    refine ⟨operations, rfl, ?_, pushed⟩
    rw [more, List.append_assoc]
    exact applied
  | abort | notActive | discard | abortFlush | applyFails | cancel => exact ⟨ok.1, trivial⟩
  | @control m prog w call prog' locked shutdown handle exited before after logMove appends =>
    cases prog' <;> trivial
  | ckpt moved =>
    obtain ⟨stage', rfl, _⟩ := ckptMove_runs moved
    trivial

theorem buffered_other (ok : Buffered i n σ) {t' : Task} (other : i ≠ j)
    (log : logged s.wal i = logged σ.shared.wal i)
    (applied : appliedBy s i = appliedBy σ.shared i) : Buffered i n ⟨s, σ.tasks.set j t'⟩ := by
  unfold Buffered at ok ⊢
  rw [List.getElem?_set_ne (Ne.symm other)]
  split at ok
  · simp only [log, applied]
    exact ok
  · exact taskBuffered_congr log applied ok

theorem buffered_slot {t : Task} (ok : Buffered i n σ) (slot : σ.tasks[i]? = some t) :
    TaskBuffered σ.shared i n t := by
  rw [Buffered, slot] at ok
  exact ok

theorem buffered_moved {t t' : Task} (slot : σ.tasks[i]? = some t) (ok : TaskBuffered s i n t') :
    Buffered i n ⟨s, σ.tasks.set i t'⟩ := by
  have here : (σ.tasks.set i t')[i]? = some t' :=
    List.getElem?_set_self (List.getElem?_eq_some_iff.mp slot).1
  rw [Buffered, here]
  exact ok

theorem buffered_spawn {prog : Prog} (ok : Buffered i n σ) (wal : s.wal = σ.shared.wal)
    (applied : s.applied = σ.shared.applied)
    (fresh : i = σ.tasks.length → logged s.wal i = [] → appliedBy s i = [] → n = 0 →
      TaskBuffered s i n ⟨none, prog⟩) : Buffered i n ⟨s, σ.tasks ++ [⟨none, prog⟩]⟩ := by
  have log : logged s.wal i = logged σ.shared.wal i := by rw [wal]
  have applied : appliedBy s i = appliedBy σ.shared i := by rw [appliedBy, appliedBy, applied]
  unfold Buffered at ok ⊢
  rw [List.getElem?_append]
  split at ok
  · rename_i absent
    obtain ⟨none_logged, none_applied, zero⟩ := ok
    have beyond : ¬ i < σ.tasks.length := Nat.not_lt_of_le (List.getElem?_eq_none_iff.mp absent)
    rw [if_neg beyond, List.getElem?_singleton]
    by_cases new : i = σ.tasks.length
    · rw [if_pos (by omega)]
      exact fresh new (log.trans none_logged) (applied.trans none_applied) zero
    · rw [if_neg (by omega)]
      exact ⟨log.trans none_logged, applied.trans none_applied, zero⟩
  · rename_i t present
    rw [if_pos (List.getElem?_eq_some_iff.mp present).1, present]
    exact taskBuffered_congr log applied ok

theorem buffered_step (ok : Buffered i n σ) (taken : (systemProtocol crates).step σ a = some σ') :
    Buffered i (n + (droppedOp i σ a).toList.length) σ' := by
  cases system_step_cases taken with
  | begin =>
    refine buffered_spawn ok rfl rfl fun _ none_logged none_applied zero => ?_
    subst zero
    refine ⟨List.forall_mem_nil _, rfl, none_applied, ?_⟩
    rw [none_logged]
    exact ⟨List.Sublist.refl _, rfl⟩
  | @spawn k prog other =>
    refine buffered_spawn ok rfl rfl fun _ _ _ _ => ?_
    rcases other with control | ⟨_, rfl⟩
    · cases prog <;> trivial
    · trivial
  | @call j c prog w call slot runs =>
    by_cases own : i = j
    · subst own
      exact buffered_moved slot (call_taskBuffered runs (buffered_slot ok slot))
    · have log : logged w i = logged σ.shared.wal i := by rw [logged, logged, runs_others runs own]
      exact buffered_other ok own log rfl
  | @fault j c k prog prog' slot fallible stops after =>
    by_cases own : i = j
    · subst own
      have counted : droppedOp i σ (.move i (.call k)) = Task.awaitedOp ⟨some c, prog⟩ := by
        cases k with
        | run => exact absurd rfl stops
        | drop => simp [droppedOp, slot]
        | fail fault =>
          -- an append returns no error
          obtain ⟨t, s, t', at_i, moved, _⟩ := Protocol.step_move taken
          cases Option.some.inj (slot.symm.trans at_i)
          cases c with
          | append => cases moved
          | flush | drain => rfl
      rw [counted]
      exact buffered_moved slot (fault_taskBuffered fallible after rfl (buffered_slot ok slot))
    · have unseen : droppedOp i σ (.move j (.call k)) = none := by
        cases k with
        | drop => simp [droppedOp, Ne.symm own]
        | run | fail => rfl
      rw [unseen]
      exact buffered_other ok own rfl rfl
  | @own j m prog s' t' slot other runs =>
    have unseen : droppedOp i σ (.move j m) = none := by
      cases m with
      | call k => exact absurd rfl (other k)
      | proceed | notified | appendOp | commit | abort | discard | flush | see | interrupt => rfl
    rw [unseen]
    by_cases own : i = j
    · subst own
      exact buffered_moved slot (own_taskBuffered runs (buffered_slot ok slot))
    · refine buffered_other ok own (logged_congr (logMove_records runs.log).1 i) ?_
      rcases own_applied runs with same | ⟨op, more⟩
      · rw [appliedBy, appliedBy, same]
      · rw [appliedBy, appliedBy, more]
        simp [Ne.symm own]

end Steps

section Runs

variable {m : Nat} {path : String} {base : Bytes} {ckpt : Option (List Char)} {mem : Memory}
  {guard : SystemConfig → SystemAction → Prop} {seen : List (WalEntry × Unit)} {tx : Transaction}
  {stage : TxStage} {call : Option WalCall}

theorem buffered_run (run : (systemProtocol crates).Observed (droppedOp i) (fun _ => ()) guard
    (System.start m path base ckpt mem) seen σ) : Buffered i seen.length σ := by
  apply run.invariant (I := fun seen σ => Buffered i seen.length σ)
  · unfold Buffered
    split
    · exact ⟨rfl, rfl, rfl⟩
    · rename_i t present
      rcases start_slot present with rfl | rfl <;> trivial
  · intro seen σ a σ' ok _ taken
    rw [List.length_append, List.length_map]
    exact buffered_step ok taken

theorem entriesOf_history (signed : Signed σ) {first : UInt64} (ids : TxIds first σ)
    (slot : σ.tasks[i]? = some ⟨call, .transaction tx stage⟩) :
    entriesOf tx.id (σ.shared.wal.history.map Item.entry) = logged σ.shared.wal i := by
  rw [entriesOf, List.filter_map, logged, ownItems]
  congr 1
  refine List.filter_congr fun it hit => ?_
  obtain ⟨t, at_owner, own⟩ := signed.items it hit
  have same : it.entry.txId = tx.id ↔ it.owner = i := by
    constructor
    · intro same
      exact ids.unique at_owner slot own (congrArg some same.symm)
    · rintro rfl
      cases Option.some.inj (at_owner.symm.trans slot)
      exact (Option.some.inj own).symm
  simpa using same

/-- After a commit that returned Ok the operations pushed are
the ones applied but for the dropped ones. -/
theorem applied_lacks (run : (systemProtocol crates).Observed (droppedOp i) (fun _ => ()) NoWrap
      (System.start m path base ckpt mem) seen σ)
    (slot : σ.tasks[i]? = some ⟨call, .transaction tx (.returned (.ok ()))⟩)
    (done : tx.state = .committed) :
    Lacks (pushedBeforeCommit σ.shared.wal tx.id) (appliedBy σ.shared i) seen.length := by
  obtain ⟨operations, _, buffered⟩ := buffered_slot (buffered_run run) slot
  obtain ⟨applied, log, now, pushed, lacks⟩ := buffered done
  have front : pushedBeforeCommit σ.shared.wal tx.id = log := by
    have all : ∀ e ∈ log, (!e.isCommit) = true := by
      intro e he
      have operation := operations e (lacks.sublist.subset he)
      cases e <;> first | rfl | cases operation
    rw [pushedBeforeCommit, entriesOf_history (signed_run run.reaches)
      (txIds_run (fun _ _ => id) run.reaches) slot, pushed,
      List.takeWhile_append_of_pos all]
    simp [WalEntry.isCommit]
  rw [front, applied]
  exact lacks

/-- So commit applies exactly what was pushed if and only if
no `append_op` of the transaction was dropped. -/
theorem applied_pushed_iff
    (run : (systemProtocol crates).Observed (droppedOp i) (fun _ => ()) NoWrap
      (System.start m path base ckpt mem) seen σ)
    (slot : σ.tasks[i]? = some ⟨call, .transaction tx (.returned (.ok ()))⟩)
    (done : tx.state = .committed) :
    appliedBy σ.shared i = pushedBeforeCommit σ.shared.wal tx.id ↔ seen = [] := by
  rw [(applied_lacks run slot done).eq_iff, List.length_eq_zero_iff]

end Runs

/-- Task 2 fills a queue of one entry and appends a second operation, which parks. -/
def secondParks : List SystemAction :=
  [.spawn .transaction] ++ insertInto "k" [1] 2 ++ [.move 2 (.appendOp (.insert 0 0 "j" [2]) 7)] ++
    runs 2 2

def givesUp : List SystemAction :=
  secondParks ++ [.move 2 (.call .drop)] ++ flusherRound 1 ++ commitOne 2 1 ++ [.move 2 .proceed]

def waits : List SystemAction :=
  secondParks ++ flusherRound 1 ++ runs 2 5 ++ flusherRound 1 ++ commitOne 2 1 ++ [.move 2 .proceed]

def observeDrops (as : List SystemAction) : Option (List (WalEntry × Unit) × SystemConfig) :=
  (systemProtocol (Bincode.crates true)).observe (droppedOp 2) (fun _ => ()) NoWrap
    (System.start 1 "wal.log" [] none ⟨fun _ => none, 1⟩) as

def givesUpRun : List (WalEntry × Unit) × SystemConfig :=
  (observeDrops givesUp).get (by decide +kernel)

def waitsRun : List (WalEntry × Unit) × SystemConfig := (observeDrops waits).get (by decide +kernel)

def bothInserts : Transaction := ⟨1, .committed, [.insert 1 7 "k" [1], .insert 1 7 "j" [2]]⟩

theorem dropped_applied :
    ¬ ∀ (crates : Crates) (m i : Nat) (path : String) (base : Bytes) (ckpt : Option (List Char))
      (mem : Memory)
      (seen : List (WalEntry × Unit)) (σ : SystemConfig) (call : Option WalCall) (tx : Transaction),
      (systemProtocol crates).Observed (droppedOp i) (fun _ => ()) NoWrap
        (System.start m path base ckpt mem) seen σ →
      σ.tasks[i]? = some ⟨call, .transaction tx (.returned (.ok ()))⟩ → tx.state = .committed →
      appliedBy σ.shared i = pushedBeforeCommit σ.shared.wal tx.id := by
  intro claim
  have observed : (systemProtocol (Bincode.crates true)).Observed (droppedOp 2) (fun _ => ()) NoWrap
      (System.start 1 "wal.log" [] none ⟨fun _ => none, 1⟩) givesUpRun.1 givesUpRun.2 :=
    Protocol.observed_of_observe givesUp (Option.some_get _).symm
  have slot : givesUpRun.2.tasks[2]? =
    some ⟨none, .transaction bothInserts (.returned (.ok ()))⟩ := by rfl
  have agree := claim _ _ _ _ _ _ _ _ _ none bothInserts observed slot rfl
  revert agree
  decide +kernel

theorem applied_pushed_iff_waits :
    appliedBy waitsRun.2.shared 2 = pushedBeforeCommit waitsRun.2.shared.wal bothInserts.id ↔
      waitsRun.1 = [] := by
  have slot : waitsRun.2.tasks[2]? =
    some ⟨none, .transaction bothInserts (.returned (.ok ()))⟩ := by rfl
  exact applied_pushed_iff (Protocol.observed_of_observe waits (Option.some_get _).symm) slot rfl

end AsyncWalDb
