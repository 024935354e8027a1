import AsyncWalDb.CheckpointAtomic
import AsyncWalDb.Fragments

/-! No value of an uncommitted transaction is ever in the store. Commits apply what they have
flushed, and checkpoints replay from the file what is committed there; a failing or dropped call
leaves at most frames that nobody replays. Committed means that the Commit entry was pushed,
whatever `commit` returned. -/
namespace AsyncWalDb

open Interleaving KeyedWrites

/-- A write of a transaction of this lifetime that has pushed its Commit entry. -/
def CommittedHere (σ : SystemConfig) (w : Write String Bytes) : Prop :=
  ∃ i ∈ commitOrder σ.shared.wal, ∃ (call : Option WalCall) (tx : Transaction) (stage : TxStage),
    σ.tasks[i]? = some ⟨call, .transaction tx stage⟩ ∧ ∃ e ∈ tx.entries, e.write? = some w

/-- A write of a transaction that was committed in the file when it was opened. -/
def CommittedBefore (es : List WalEntry) (w : Write String Bytes) : Prop :=
  ∃ id, committed es id = true ∧ w ∈ writesOf id es

def CommittedWrite (es : List WalEntry) (σ : SystemConfig) (w : Write String Bytes) : Prop :=
  CommittedBefore es w ∨ CommittedHere σ w

theorem uncompleted_iff {crates : Crates} {cs : List Chunk} : Uncompleted crates cs ↔
    ∀ k ∈ List.range cs.length, ((cs.drop k).head?.any fun c => c.Whole crates) = true ∨
      (readFrame crates (bytesOf (cs.drop k))).isOk = false := by
  constructor
  · intro h k hk
    have bound : k < cs.length := List.mem_range.mp hk
    rw [List.drop_eq_getElem_cons bound]
    by_cases whole : (cs[k]).Whole crates
    · left
      rw [List.head?_cons, Option.any_some]
      exact decide_eq_true whole
    · right
      have refused := h (cs.take k) cs[k] (cs.drop (k + 1)) (by simp) whole
      rw [bytesOf_cons]
      cases read : readFrame crates (cs[k].bytes ++ bytesOf (cs.drop (k + 1))) with
      | error => rfl
      | ok out => exact absurd read (refused out.1 out.2)
  · rintro h pre c post rfl torn e later read
    have here := h pre.length (List.mem_range.mpr (by simp))
    rw [List.drop_left] at here
    rcases here with whole | refused
    · exact torn (by simpa using whole)
    · rw [bytesOf_cons, read] at refused
      cases refused

instance (crates : Crates) (cs : List Chunk) : Decidable (Uncompleted crates cs) :=
  decidable_of_iff _ uncompleted_iff.symm

variable {crates : Crates} {i j : Nat} {w w' : Wal} {s s' : System} {σ σ' : SystemConfig}
  {a : SystemAction} {es : List WalEntry}

section Entered

def Inside (w : Wal) (i : Nat) (tx : Transaction) : Prop := ∀ e ∈ logged w i, e.isMarker = false →
    e ∈ tx.entries

/-- Where a transaction stands with the log, under every fault. -/
def StageEntered (w : Wal) (i : Nat) (tx : Transaction) (call : Option WalCall) : TxStage → Prop
  | .active | .abortLogged => call = none ∧ i ∉ commitOrder w ∧ Inside w i tx
  | .appending =>
    (∃ e pc, call = some (.append e pc) ∧ e ∈ tx.entries ∧ e.isMarker = false) ∧ i ∉ commitOrder w ∧
      Inside w i tx
  | .commitAppend =>
    (∃ now pc, call = some (.append (.commit tx.id now) pc) ∧
      (pc.pushed = true → i ∈ commitOrder w)) ∧
      Inside w i tx
  | .abortAppend =>
    (∃ now pc, call = some (.append (.abort tx.id now) pc)) ∧ i ∉ commitOrder w ∧ Inside w i tx
  | .abortFlush => (∀ e pc, call ≠ some (.append e pc)) ∧ i ∉ commitOrder w ∧ Inside w i tx
  | .commitLogged => call = none ∧ i ∈ commitOrder w ∧ Inside w i tx
  | .commitFlush => (∀ e pc, call ≠ some (.append e pc)) ∧ i ∈ commitOrder w ∧ Inside w i tx
  | .applying rest => call = none ∧ i ∈ commitOrder w ∧ Inside w i tx ∧ rest ⊆ tx.entries
  | .returned _ | .dropped =>
    (∀ e pc, call ≠ some (.append e pc)) ∧ (i ∈ commitOrder w → Inside w i tx)

def TaskEntered (w : Wal) (i : Nat) (t : Task) : Prop :=
  match t.prog with
  | .transaction tx stage => StageEntered w i tx t.call stage
  | _ => True

def Entered (σ : SystemConfig) : Prop := ∀ (i : Nat) (t : Task), σ.tasks[i]? = some t →
    TaskEntered σ.shared.wal i t

theorem stageEntered_congr {tx : Transaction} {call : Option WalCall} {stage : TxStage}
    (log : logged w' i = logged w i)
    (h : StageEntered w i tx call stage) : StageEntered w' i tx call stage := by
  have order : i ∈ commitOrder w' ↔ i ∈ commitOrder w := by
    rw [mem_commitOrder, mem_commitOrder, log]
  cases stage <;> simpa only [StageEntered, Inside, log, order] using h

theorem taskEntered_congr {t : Task} (log : logged w' i = logged w i) (h : TaskEntered w i t) :
    TaskEntered w' i t := by
  obtain ⟨call, prog⟩ := t
  cases prog with
  | transaction tx stage => exact stageEntered_congr log h
  | flusher | storeHandle | stopFlusher | flushCaller | checkpoint => trivial

theorem append_entered {e : WalEntry} {pc : AppendPc} {t : Option WalCall}
    (h : Runs crates i w (.append e pc) w' t) :
    (∃ pc', t = some (.append e pc') ∧ pc'.pushed = pc.pushed ∧ logged w' i = logged w i) ∨
      (∃ pc', t = some (.append e pc') ∧ pc'.pushed = true ∧ logged w' i = logged w i ++ [e]) ∨
        (t = none ∧ pc.pushed = true ∧ logged w' i = logged w i) := by
  rcases append_runs h with ⟨pc', rfl, before, after, history⟩ | ⟨it, _, owner, entry, rfl, push, _⟩
    | ⟨it, rfl, rfl, history, _⟩
  · exact .inl ⟨pc', rfl, after.trans before.symm, logged_congr history i⟩
  · subst owner
    refine .inr (.inl ⟨.notify it, rfl, rfl, ?_⟩)
    rw [logged, ownItems_push push, List.map_append, List.map_singleton, entry, logged]
  · exact .inr (.inr ⟨rfl, rfl, logged_congr history i⟩)

theorem inside_push {tx : Transaction} {e : WalEntry} (inside : Inside w i tx)
    (log : logged w' i = logged w i ++ [e])
    (own : e.isMarker = false → e ∈ tx.entries) : Inside w' i tx := by
  intro e' he' operation
  rw [log] at he'
  rcases List.mem_append.mp he' with old | new
  · exact inside e' old operation
  · cases List.mem_singleton.mp new
    exact own operation

theorem not_committed_push {e : WalEntry} (unpushed : i ∉ commitOrder w)
    (log : logged w' i = logged w i ++ [e]) (other : e.isCommit = false) : i ∉ commitOrder w' := by
  rw [mem_commitOrder] at unpushed ⊢
  rintro ⟨e', he', commit⟩
  rw [log] at he'
  rcases List.mem_append.mp he' with old | new
  · exact unpushed ⟨e', old, commit⟩
  · cases List.mem_singleton.mp new
    rw [other] at commit
    cases commit

theorem commitOrder_congr (log : logged w' i = logged w i) : i ∈ commitOrder w' ↔
    i ∈ commitOrder w := by
  rw [mem_commitOrder, mem_commitOrder, log]

theorem inside_congr {tx : Transaction} (log : logged w' i = logged w i) (inside : Inside w i tx) :
    Inside w' i tx := by
  rw [Inside, log]
  exact inside

theorem call_entered {c : WalCall} {call : Option WalCall} {prog : Prog}
    (runs : Runs crates i w c w' call) (ok : TaskEntered w i ⟨some c, prog⟩) :
    TaskEntered w' i ⟨call, if call.isSome then prog else prog.returned (.ok ())⟩ := by
  cases prog with
  | transaction tx stage =>
    -- a call that is no append leaves what the task has logged
    have quiet : (∀ e pc, c ≠ .append e pc) → logged w' i = logged w i ∧ ∀ e pc,
        call ≠ some (.append e pc) :=
      fun other => (other_runs runs other).imp_left fun history => logged_congr history i
    cases stage with
    | active | commitLogged | abortLogged | applying => cases ok.1
    | appending =>
      obtain ⟨⟨e, pc, same, buffered, operation⟩, unpushed, inside⟩ := ok
      cases same
      rcases append_entered runs with ⟨pc', rfl, _, log⟩ | ⟨pc', rfl, _, log⟩ | ⟨rfl, _, log⟩
      · exact ⟨⟨e, pc', rfl, buffered, operation⟩, mt (commitOrder_congr log).mp unpushed,
          inside_congr log inside⟩
      · have other : e.isCommit = false := by
          cases commit : e.isCommit with
          | false => rfl
          | true => rw [← WalEntry.isMarker_of_isCommit commit, operation]
        exact ⟨⟨e, pc', rfl, buffered, operation⟩, not_committed_push unpushed log other,
          inside_push inside log fun _ => buffered⟩
      · exact ⟨rfl, mt (commitOrder_congr log).mp unpushed, inside_congr log inside⟩
    | commitAppend =>
      obtain ⟨⟨now, pc, same, pushed⟩, inside⟩ := ok
      cases same
      rcases append_entered runs with ⟨pc', rfl, still, log⟩ | ⟨pc', rfl, _, log⟩ | ⟨rfl, done, log⟩
      · exact ⟨⟨now, pc', rfl,
          fun now_pushed => (commitOrder_congr log).mpr (pushed (still ▸ now_pushed))⟩,
          inside_congr log inside⟩
      · exact ⟨⟨now, pc', rfl,
          fun _ => mem_commitOrder.mpr ⟨.commit tx.id now, by rw [log]; simp, rfl⟩⟩,
          inside_push inside log fun operation => by cases operation⟩
      · exact ⟨rfl, (commitOrder_congr log).mpr (pushed done), inside_congr log inside⟩
    | abortAppend =>
      obtain ⟨⟨now, pc, same⟩, unpushed, inside⟩ := ok
      cases same
      rcases append_entered runs with ⟨pc', rfl, _, log⟩ | ⟨pc', rfl, _, log⟩ | ⟨rfl, _, log⟩
      · exact ⟨⟨now, pc', rfl⟩, mt (commitOrder_congr log).mp unpushed, inside_congr log inside⟩
      · exact ⟨⟨now, pc', rfl⟩, not_committed_push unpushed log rfl, inside_push inside log
          fun operation => by cases operation⟩
      · exact ⟨rfl, mt (commitOrder_congr log).mp unpushed, inside_congr log inside⟩
    | commitFlush =>
      obtain ⟨other, pushed, inside⟩ := ok
      obtain ⟨log, other'⟩ := quiet fun e pc same => other e pc (congrArg some same)
      cases call with
      | some c' => exact ⟨other', (commitOrder_congr log).mpr pushed, inside_congr log inside⟩
      | none =>
        exact ⟨rfl, (commitOrder_congr log).mpr pushed, inside_congr log inside, List.Subset.refl _⟩
    | abortFlush =>
      obtain ⟨other, unpushed, inside⟩ := ok
      obtain ⟨log, other'⟩ := quiet fun e pc same => other e pc (congrArg some same)
      have unpushed' := mt (commitOrder_congr log).mp unpushed
      cases call with
      | some c' => exact ⟨other', unpushed', inside_congr log inside⟩
      | none => exact ⟨by simp, fun committed => absurd committed unpushed'⟩
    | returned | dropped =>
      obtain ⟨other, inside⟩ := ok
      obtain ⟨log, other'⟩ := quiet fun e pc same => other e pc (congrArg some same)
      cases call with
      | some c' =>
        exact ⟨other',
          fun committed => inside_congr log (inside ((commitOrder_congr log).mp committed))⟩
      | none =>
        exact ⟨by simp,
          fun committed => inside_congr log (inside ((commitOrder_congr log).mp committed))⟩
  | flusher stage => cases call <;> cases stage <;> trivial
  | storeHandle | stopFlusher | flushCaller | checkpoint => cases call <;> trivial

theorem fault_entered {c : WalCall} {prog prog' : Prog}
    (after : prog' = prog.dropped ∨ ∃ e, prog' = prog.returned (.error e))
    (history : w'.history = w.history) (ok : TaskEntered w i ⟨some c, prog⟩) :
    TaskEntered w' i ⟨none, prog'⟩ := by
  have log := logged_congr history i
  apply taskEntered_congr log
  cases prog with
  | transaction tx stage =>
    cases stage with
    | active | commitLogged | abortLogged | applying => cases ok.1
    | appending =>
      have active : prog' = .transaction tx .active := by
        rcases after with rfl | ⟨e, rfl⟩ <;> rfl
      subst active
      exact ⟨rfl, ok.2⟩
    | commitAppend | commitFlush | abortAppend | abortFlush =>
      rcases after with rfl | ⟨e, rfl⟩ <;>
        exact ⟨by simp, fun _ => by simp_all [TaskEntered, StageEntered]⟩
    | returned | dropped => rcases after with rfl | ⟨e, rfl⟩ <;> exact ⟨by simp, ok.2⟩
  | flusher stage => rcases after with rfl | ⟨e, rfl⟩ <;> cases stage <;> trivial
  | storeHandle | stopFlusher | flushCaller | checkpoint =>
    rcases after with rfl | ⟨e, rfl⟩ <;> trivial

theorem own_entered {m : Move} {prog : Prog} {t' : Task} (runs : OwnRuns crates i s m prog s' t')
    (ok : TaskEntered s.wal i ⟨none, prog⟩) : TaskEntered s'.wal i t' := by
  apply taskEntered_congr (logged_congr (logMove_records runs.log).1 i)
  cases runs with
  | refused => exact ok
  | @append tx op now tx' e appended =>
    obtain ⟨stamped, rfl⟩ := appendOp_ok appended
    obtain ⟨_, unpushed, inside⟩ := ok
    exact ⟨⟨e, .load, rfl, by simp [Transaction.addEntry], (stamped_operation stamped).1⟩, unpushed,
      fun e' he' operation => List.mem_append_left _ (inside e' he' operation)⟩
  | commit =>
    obtain ⟨_, _, inside⟩ := ok
    exact ⟨⟨_, .load, rfl, fun pushed => by cases pushed⟩, inside⟩
  | abort => exact ⟨⟨_, .load, rfl⟩, ok.2⟩
  | notActive | discard => exact ⟨by simp, fun committed => absurd committed ok.2.1⟩
  | commitFlush | abortFlush => exact ⟨by simp [startFlush], ok.2⟩
  | done | applyFails | cancel => exact ⟨by simp, fun _ => ok.2.2.1⟩
  | apply unlocked applied =>
    obtain ⟨_, pushed, inside, rest⟩ := ok
    exact ⟨rfl, pushed, inside, fun e he => rest (List.mem_cons_of_mem _ he)⟩
  | @control m prog w call prog' locked shutdown handle exited before after logMove appends =>
    cases prog' with
    | transaction => cases after
    | flusher | storeHandle | stopFlusher | flushCaller | checkpoint => trivial
  | ckpt moved =>
    obtain ⟨stage', rfl, _⟩ := ckptMove_runs moved
    trivial

theorem entered_set {s : System} {t : Task} (ok : Entered σ) (own : TaskEntered s.wal i t)
    (others : ∀ j, j ≠ i → logged s.wal j = logged σ.shared.wal j) :
    Entered ⟨s, σ.tasks.set i t⟩ := by
  intro j u hj
  rcases getElem?_set_cases hj with ⟨rfl, rfl, _⟩ | ⟨other, old⟩
  · exact own
  · exact taskEntered_congr (others j other) (ok j u old)

theorem entered_spawn {s : System} {t : Task} (ok : Entered σ) (wal : s.wal = σ.shared.wal)
    (fresh : TaskEntered s.wal σ.tasks.length t) : Entered ⟨s, σ.tasks ++ [t]⟩ := by
  intro j u hj
  rcases getElem?_append_one hj with old | ⟨rfl, rfl⟩
  · change TaskEntered s.wal j u
    rw [wal]
    exact ok j u old
  · exact fresh

theorem entered_step (ok : Entered σ) (signed : Signed σ) (step : SystemStep crates σ a σ') :
    Entered σ' := by
  cases step with
  | begin =>
    have none_logged : logged σ.shared.wal σ.tasks.length = [] := by
      rw [logged, ownItems_eq_nil_of_fresh]
      · rfl
      · intro it hit
        obtain ⟨t, at_owner, _⟩ := signed.items it hit
        exact (List.getElem?_eq_some_iff.mp at_owner).1
    refine entered_spawn ok rfl ⟨rfl, ?_, ?_⟩
    · rw [mem_commitOrder, none_logged]
      simp
    · rw [Inside, none_logged]
      exact List.forall_mem_nil _
  | @spawn k prog other =>
    refine entered_spawn ok rfl ?_
    rcases other with control | ⟨_, rfl⟩
    · cases prog with
      | transaction => cases control
      | flusher | storeHandle | stopFlusher | flushCaller | checkpoint => trivial
    · trivial
  | call slot runs =>
    exact entered_set ok (call_entered runs (ok _ _ slot)) fun j other => by
      rw [logged, logged, runs_others runs other]
  | fault slot fallible stops after =>
    exact entered_set ok (fault_entered after rfl (ok _ _ slot)) fun _ _ => rfl
  | own slot other runs =>
    exact entered_set ok (own_entered runs (ok _ _ slot)) fun j _ =>
      logged_congr (logMove_records runs.log).1 j

theorem entered_inside {call : Option WalCall} {tx : Transaction} {stage : TxStage}
    (ok : StageEntered w i tx call stage) (pushed : i ∈ commitOrder w) : Inside w i tx := by
  cases stage with
  | active | abortLogged | appending | abortAppend | abortFlush => exact absurd pushed ok.2.1
  | commitAppend => exact ok.2
  | commitLogged | commitFlush => exact ok.2.2
  | applying => exact ok.2.2.1
  | returned | dropped => exact ok.2 pushed

theorem entered_run {guard : SystemConfig → SystemAction → Prop} {m : Nat}
    {path : String} {base : Bytes} {ckpt : Option (List Char)} {mem : Memory}
    (run : (systemProtocol crates).Reaches guard (System.start m path base ckpt mem) σ) :
    Entered σ := by
  refine run.invariant_with (J := Signed) (fun τ reached => signed_run reached)
    (fun j t hj => ?_) ?_
  · rcases start_slot hj with rfl | rfl <;> trivial
  · intro τ a τ' signed _ ok _ taken
    exact entered_step ok signed (system_step_cases taken)

end Entered

section Kept

variable {wr : Write String Bytes}

theorem commitOrder_mono (grows : w.history <+: w'.history) (pushed : i ∈ commitOrder w) :
    i ∈ commitOrder w' :=
  ((grows.filter fun it => it.entry.isCommit).map Item.owner).subset pushed

theorem returned_entries (tx : Transaction) (stage : TxStage) (result : Except WalError Unit) :
    ∃ tx' stage', (Prog.transaction tx stage).returned result = .transaction tx' stage' ∧
      (tx'.entries = tx.entries ∨ stage = .abortFlush) := by
  cases stage with
  | abortFlush => cases result <;> exact ⟨_, _, rfl, .inr rfl⟩
  | active | appending | commitAppend | commitLogged | commitFlush | applying | abortAppend
  | abortLogged | returned
  | dropped => cases result <;> exact ⟨_, _, rfl, .inl rfl⟩

theorem dropped_entries (tx : Transaction) (stage : TxStage) :
    ∃ stage', (Prog.transaction tx stage).dropped = .transaction tx stage' := by
  cases stage <;> exact ⟨_, rfl⟩

theorem own_entries {m : Move} {tx : Transaction} {stage : TxStage} {t' : Task}
    (runs : OwnRuns crates i s m (.transaction tx stage) s' t') :
    ∃ tx' stage', t'.prog = .transaction tx' stage' ∧ tx.entries ⊆ tx'.entries := by
  cases runs with
  | append appended =>
    obtain ⟨_, rfl⟩ := appendOp_ok appended
    exact ⟨_, _, rfl, List.subset_append_left _ _⟩
  | control shutdown handle exited before => cases before
  | refused | commit | abort | notActive | discard | commitFlush | abortFlush | done | apply
  | applyFails | cancel =>
    exact ⟨_, _, rfl, List.Subset.refl _⟩

theorem committedHere_set {s : System} {t t' : Task} (slot : σ.tasks[j]? = some t)
    (grows : σ.shared.wal.history <+: s.wal.history)
    (kept : ∀ tx stage, t.prog = .transaction tx stage → j ∈ commitOrder σ.shared.wal →
      ∃ tx' stage', t'.prog = .transaction tx' stage' ∧ tx.entries ⊆ tx'.entries)
    (here : CommittedHere σ wr) : CommittedHere ⟨s, σ.tasks.set j t'⟩ wr := by
  obtain ⟨i, pushed, call, tx, stage, at_i, e, he, write⟩ := here
  refine ⟨i, commitOrder_mono grows pushed, ?_⟩
  by_cases own : j = i
  · subst own
    cases Option.some.inj (at_i.symm.trans slot)
    obtain ⟨tx', stage', same, more⟩ := kept tx stage rfl pushed
    obtain ⟨call', prog'⟩ := t'
    subst same
    exact ⟨call', tx', stage', List.getElem?_set_self (List.getElem?_eq_some_iff.mp slot).1,
      e, more he, write⟩
  · exact ⟨call, tx, stage, (List.getElem?_set_ne own).trans at_i, e, he, write⟩

theorem committedHere_step (entered : Entered σ) (step : SystemStep crates σ a σ')
    (here : CommittedHere σ wr) : CommittedHere σ' wr := by
  have spawned : ∀ {s : System} {t : Task}, s.wal = σ.shared.wal →
      CommittedHere ⟨s, σ.tasks ++ [t]⟩ wr := by
    intro s t wal
    obtain ⟨i, pushed, call, tx, stage, at_i, e, he, write⟩ := here
    refine ⟨i, wal ▸ pushed, call, tx, stage, ?_, e, he, write⟩
    rw [List.getElem?_append_left (List.getElem?_eq_some_iff.mp at_i).1]
    exact at_i
  have returned : ∀ {j : Nat} {call : Option WalCall} {tx : Transaction} {stage : TxStage}
      (result : Except WalError Unit),
      σ.tasks[j]? = some ⟨call, .transaction tx stage⟩ → j ∈ commitOrder σ.shared.wal →
      ∃ tx' stage', (Prog.transaction tx stage).returned result = .transaction tx' stage' ∧
        tx.entries ⊆ tx'.entries := by
    intro j call tx stage result slot pushed
    obtain ⟨tx', stage', same, kept | rfl⟩ := returned_entries tx stage result
    · exact ⟨tx', stage', same, kept ▸ List.Subset.refl _⟩
    · have unpushed : j ∉ commitOrder σ.shared.wal := (entered j _ slot).2.1
      exact absurd pushed unpushed
  cases step with
  | begin | spawn => exact spawned rfl
  | @call j c prog w call slot runs =>
    have grows : σ.shared.wal.history <+: w.history := by
      rcases runs_history runs with same | ⟨it, _, _, push⟩
      · exact same ▸ List.prefix_refl _
      · rw [push]
        exact List.prefix_append _ _
    refine committedHere_set slot grows (fun tx stage same pushed => ?_) here
    subst same
    cases call with
    | some c' => exact ⟨tx, stage, rfl, List.Subset.refl _⟩
    | none => exact returned (.ok ()) slot pushed
  | fault slot fallible stops after =>
    refine committedHere_set slot (List.prefix_refl _) (fun tx stage same pushed => ?_) here
    subst same
    rcases after with rfl | ⟨e, rfl⟩
    · obtain ⟨stage', same⟩ := dropped_entries tx stage
      exact ⟨tx, stage', same, List.Subset.refl _⟩
    · exact returned (.error e) slot pushed
  | own slot other runs =>
    refine committedHere_set slot ((logMove_records runs.log).1 ▸ List.prefix_refl _)
      (fun tx stage same _ => ?_) here
    subst same
    exact own_entries runs

end Kept

section Read

variable {first : UInt64}

theorem read_remains {cs : List Chunk} (remains : ∀ c ∈ cs, c.Remains crates w)
    (refused : Uncompleted crates cs) :
    ∃ its ⊆ w.history, (readLog crates (bytesOf cs)).items = its.map Item.entry := by
  have written : ∀ c ∈ front crates cs, c.Remains crates w := fun c hc => remains c (mem_front hc).1
  rw [read_front refused fun c hc => (written c hc).1]
  generalize front crates cs = read at written
  induction read with
  | nil => exact ⟨[], List.nil_subset _, rfl⟩
  | cons c cs ih =>
    obtain ⟨_, _, it, pushed, entry⟩ := written c List.mem_cons_self
    obtain ⟨its, more, same⟩ := ih fun d hd => written d (List.mem_cons_of_mem _ hd)
    exact ⟨it :: its, List.cons_subset.mpr ⟨pushed, more⟩, by rw [List.map_cons,
      List.map_cons, entry, same]⟩

theorem item_task (signed : Signed σ) {it : Item} (pushed : it ∈ σ.shared.wal.history) :
    ∃ call tx stage, σ.tasks[it.owner]? = some ⟨call, .transaction tx stage⟩ ∧
      tx.id = it.entry.txId := by
  obtain ⟨⟨call, prog⟩, at_owner, own⟩ := signed.items it pushed
  cases prog with
  | transaction tx stage => exact ⟨call, tx, stage, at_owner, Option.some.inj own⟩
  | flusher | storeHandle | stopFlusher | flushCaller | checkpoint => cases own

theorem read_committedWrite (entered : Entered σ) (signed : Signed σ) (ids : TxIds first σ)
    (older : ∀ e ∈ es, e.txId < first)
    {its : List Item} (pushed : its ⊆ σ.shared.wal.history) {id : UInt64}
    (commit : committed (es ++ its.map Item.entry) id = true) {wr : Write String Bytes}
    (write : wr ∈ writesOf id (es ++ its.map Item.entry)) : CommittedWrite es σ wr := by
  by_cases old : ∃ e ∈ es, e.txId = id
  · have none_new : entriesOf id (its.map Item.entry) = [] := by
      refine entriesOf_eq_nil.mpr fun f hf same => ?_
      obtain ⟨it, hit, rfl⟩ := List.mem_map.mp hf
      obtain ⟨call, tx, stage, slot, own⟩ := item_task signed (pushed hit)
      obtain ⟨e, he, rfl⟩ := old
      exact absurd (own.trans same)
        (ne_of_gt (lt_of_lt_of_le (older e he) (ids.drawn _ _ tx.id slot rfl).1))
    have same : entriesOf id (es ++ its.map Item.entry) = entriesOf id es := by
      rw [entriesOf_append, none_new, List.append_nil]
    exact .inl ⟨id, (committed_congr same).symm.trans commit, (writesOf_congr same) ▸ write⟩
  · have none_old : entriesOf id es = [] := entriesOf_eq_nil.mpr fun e he own => old ⟨e, he, own⟩
    have same : entriesOf id (es ++ its.map Item.entry) = entriesOf id (its.map Item.entry) := by
      rw [entriesOf_append, none_old, List.nil_append]
    rw [committed_congr same] at commit
    rw [writesOf_congr same] at write
    obtain ⟨_, hc, own, isCommit⟩ := committed_mem commit
    obtain ⟨c, mem_c, rfl⟩ := List.mem_map.mp hc
    obtain ⟨e, he, wrote⟩ := List.mem_filterMap.mp write
    obtain ⟨in_front, own'⟩ := mem_entriesOf.mp he
    obtain ⟨it, mem_it, rfl⟩ := List.mem_map.mp in_front
    obtain ⟨call, tx, stage, slot, id_tx⟩ := item_task signed (pushed mem_it)
    obtain ⟨call', tx', stage', slot', id_tx'⟩ := item_task signed (pushed mem_c)
    -- the Commit entry and the operation carry one id, so one task pushed both
    have one : c.owner = it.owner := by
      have commit_id : (Prog.transaction tx' stage').txId? = some id :=
        congrArg some (id_tx'.trans own)
      exact ids.unique slot' slot commit_id (congrArg some (id_tx.trans own'))
    have order : it.owner ∈ commitOrder σ.shared.wal :=
      one ▸ List.mem_map_of_mem (List.mem_filter.mpr ⟨pushed mem_c, isCommit⟩)
    have logged_here : it.entry ∈ logged σ.shared.wal it.owner :=
      List.mem_map_of_mem (List.mem_filter.mpr ⟨pushed mem_it, by simp⟩)
    have operation : it.entry.isMarker = false := by
      have shape := WalEntry.write?_isSome it.entry
      rw [wrote] at shape
      simpa using shape
    have inside := entered_inside (entered it.owner _ slot) order
    exact .inr ⟨it.owner, order, call, tx, stage, slot, it.entry, inside _ logged_here
      operation, wrote⟩

end Read

section Runs

variable {before : Store} {first : UInt64}

structure Clean (before : Store) (es : List WalEntry) (σ : SystemConfig) : Prop where
  reading : ∀ (i : Nat) (call : Option WalCall) (lastCkpt : UInt64) (found : CkptScan),
    σ.tasks[i]? = some ⟨call, .checkpoint (.replay lastCkpt found)⟩ →
      ∃ items, CkptTracks lastCkpt found items ∧ ∀ wr ∈ ckptWrites lastCkpt items,
        CommittedWrite es σ wr
  store : WrittenFrom before σ.shared.mem.store (CommittedWrite es σ)

structure CleanKnown (crates : Crates) (es : List WalEntry) (first : UInt64) (σ : SystemConfig) :
    Prop where
  entered : Entered σ
  signed : Signed σ
  ids : TxIds first σ
  reads : ∀ n, σ.shared.base.length ≤ n → ∃ its ⊆ σ.shared.wal.history,
    (readLog crates ((σ.shared.file crates).take n)).items = es ++ its.map Item.entry

theorem moved_found {m : Move} {stage : CkptStage} {call : Option WalCall} {lastCkpt : UInt64}
    {found : CkptScan}
    (moved : ckptMove crates m s stage = some (s', ⟨call, .checkpoint (.replay lastCkpt found)⟩)) :
    ∃ n, m = .see n ∧ s.flushedBytes crates ≤ n ∧
      checkpointScan crates lastCkpt ((s.file crates).take n) = .ok found := by
  unfold ckptMove at moved
  split at moved
  · split at moved
    · cases moved
    · split at moved <;> cases moved
  · rename_i lastCkpt' n
    split at moved
    · cases moved
    · rename_i enough
      split at moved
      · cases moved
      · cases moved
      · rename_i found' scanned
        split at moved
        · cases moved
        · cases moved
          exact ⟨n, rfl, Nat.le_of_not_lt enough, scanned⟩
  · split at moved <;> cases moved
  · cases moved
  · split at moved <;> cases moved
  all_goals cases moved

theorem mem_ckptWrites {lastCkpt : UInt64} {items : List WalEntry} {wr : Write String Bytes}
    (h : wr ∈ ckptWrites lastCkpt items) :
    ∃ id, committed items id = true ∧ wr ∈ writesOf id items := by
  obtain ⟨id, hid, write⟩ := List.mem_flatMap.mp h
  exact ⟨id, (mem_ckptIds.mp hid).2, write⟩

theorem scan_committed (known : CleanKnown crates es first σ) (older : ∀ e ∈ es, e.txId < first)
    {n : Nat} (enough : σ.shared.flushedBytes crates ≤ n) {lastCkpt : UInt64} {found : CkptScan}
    (scanned : checkpointScan crates lastCkpt ((σ.shared.file crates).take n) = .ok found) :
    ∃ items, CkptTracks lastCkpt found items ∧ ∀ wr ∈ ckptWrites lastCkpt items,
      CommittedWrite es σ wr := by
  have tracks := checkpointScan_ok scanned
  obtain ⟨its, pushed, read⟩ := known.reads n (le_trans (Nat.le_add_right _ _) enough)
  rw [read] at tracks
  refine ⟨_, tracks, fun wr hw => ?_⟩
  obtain ⟨id, commit, write⟩ := mem_ckptWrites hw
  exact read_committedWrite known.entered known.signed known.ids older pushed commit write

theorem replaying_step (step : SystemStep crates σ a σ') {call : Option WalCall} {lastCkpt : UInt64}
    {found : CkptScan} (hi : σ'.tasks[i]? = some ⟨call, .checkpoint (.replay lastCkpt found)⟩) :
    (∃ call', σ.tasks[i]? = some ⟨call', .checkpoint (.replay lastCkpt found)⟩) ∨
      ∃ n, a = .move i (.see n) ∧ σ.shared.flushedBytes crates ≤ n ∧
        checkpointScan crates lastCkpt ((σ.shared.file crates).take n) = .ok found := by
  cases step with
  | begin =>
    rcases getElem?_append_one hi with old | ⟨_, same⟩
    · exact .inl ⟨call, old⟩
    · cases same
  | spawn other =>
    rcases getElem?_append_one hi with old | ⟨_, same⟩
    · exact .inl ⟨call, old⟩
    · cases same
      rcases other with control | ⟨_, checkpoint⟩
      · cases control
      · cases checkpoint
  | @call j c prog w call slot runs =>
    rcases getElem?_set_cases hi with ⟨rfl, same, _⟩ | ⟨_, old⟩
    · cases call with
      | some c' => cases same; exact .inl ⟨_, slot⟩
      | none =>
        have read := congrArg Task.prog same
        rw [returned_checkpoint read.symm] at slot
        exact .inl ⟨_, slot⟩
    · exact .inl ⟨_, old⟩
  | fault slot fallible stops after =>
    rcases getElem?_set_cases hi with ⟨rfl, same, _⟩ | ⟨_, old⟩
    · have read := congrArg Task.prog same
      rw [fault_checkpoint after read.symm] at slot
      exact .inl ⟨_, slot⟩
    · exact .inl ⟨_, old⟩
  | own slot other runs =>
    rcases getElem?_set_cases hi with ⟨rfl, same, _⟩ | ⟨_, old⟩
    · cases same
      cases runs with
      | control shutdown handle exited before after => cases after
      | ckpt moved =>
        obtain ⟨n, rfl, enough, scanned⟩ := moved_found moved
        exact .inr ⟨n, rfl, enough, scanned⟩
    · exact .inl ⟨_, old⟩

theorem clean_step (ok : Clean before es σ) (known : CleanKnown crates es first σ)
    (older : ∀ e ∈ es, e.txId < first) (step : SystemStep crates σ a σ') : Clean before es σ' := by
  have kept : ∀ wr, CommittedHere σ wr → CommittedHere σ' wr := fun wr =>
    committedHere_step known.entered step
  have still : WrittenFrom before σ.shared.mem.store (CommittedWrite es σ') :=
    ok.store.mono fun wr => Or.imp_right (kept wr)
  refine ⟨fun i call lastCkpt found hi => ?_, ?_⟩
  · have read : ∃ items, CkptTracks lastCkpt found items ∧ ∀ wr ∈ ckptWrites lastCkpt items,
        CommittedWrite es σ wr := by
      rcases replaying_step step hi with ⟨call', old⟩ | ⟨n, rfl, enough, scanned⟩
      · exact ok.reading i call' lastCkpt found old
      · exact scan_committed known older enough scanned
    obtain ⟨items, tracks, writes⟩ := read
    exact ⟨items, tracks, fun wr hw => (writes wr hw).imp_right (kept wr)⟩
  · -- the store changes only when a commit applies an operation and when a checkpoint replays
    cases step with
    | begin | spawn | call | fault => exact still
    | @own j m prog s' t' slot other runs =>
      cases runs with
      | @apply tx op rest store unlocked applied =>
        obtain ⟨wr, write, _, rfl⟩ := applyToStore_ok applied
        obtain ⟨_, pushed, _, buffered⟩ := known.entered j _ slot
        have mine : CommittedHere σ wr :=
          ⟨j, pushed, none, tx, .applying (op :: rest), slot, op,
            buffered List.mem_cons_self, write⟩
        exact still.apply (.inr (kept wr mine))
      | ckpt moved =>
        obtain ⟨stage', rfl, ran⟩ := ckptMove_runs moved
        cases ran with
        | @replay lastCkpt found unlocked =>
          obtain ⟨items, tracks, writes⟩ := ok.reading j none lastCkpt found slot
          change WrittenFrom before (checkpointReplay lastCkpt found σ.shared.mem.store) _
          rw [tracks.replay_eq]
          exact still.applyAll fun wr hw => (writes wr hw).imp_right (kept wr)
        | read | openMarker | writeMarker | unlock | interrupt => exact still
      | control | append | refused | commit | abort | notActive | discard | commitFlush | abortFlush
      | done | applyFails | cancel =>
        exact still

variable {m : Nat} {path : String} {base : Bytes} {ckpt : Option (List Char)} {mem : Memory}

/-- Under every interleaving, whatever else fails, as long as no write is lost: each key holds what
recovery has left there or what a committed transaction has written. -/
theorem no_dirty_value (whole : ValidLog crates base es) (older : ∀ e ∈ es, e.txId < mem.nextTxId)
    (run : (systemProtocol crates).Reaches (fun σ a => NoWrap σ a ∧ WritesIntact σ a)
      (System.start m path base ckpt mem) σ) :
    WrittenFrom mem.store σ.shared.mem.store (CommittedWrite es σ) := by
  have known : ∀ τ, (systemProtocol crates).Reaches (fun σ a => NoWrap σ a ∧ WritesIntact σ a)
      (System.start m path base ckpt mem) τ → CleanKnown crates es mem.nextTxId τ := by
    refine fun τ run => ⟨entered_run run, signed_run run, txIds_run (fun _ _ => And.left) run,
      fun n beyond => ?_⟩
    rw [base_run run] at beyond
    exact intact_items (fun _ _ => And.right) whole run beyond
  have clean : Clean mem.store es σ := by
    refine run.invariant_with known ⟨fun j call lastCkpt found hj => ?_, fun key => .inl rfl⟩ ?_
    · rcases start_slot hj with same | same <;> cases same
    · intro τ a τ' known _ ok guarded taken
      exact clean_step ok known older (system_step_cases taken)
  exact clean.store

/-- After any such run, whatever fails in it, a crash leaves behind the old file
pieces of the frames of pushed entries. From any such pieces the recovery, however
it ends, leaves under each key what was there or what a committed transaction has
written, as long as it takes no piece of a frame for a whole one. -/
theorem recovery_no_dirty_value (whole : ValidLog crates base es)
    (older : ∀ e ∈ es, e.txId < mem.nextTxId)
    (run : (systemProtocol crates).Reaches NoWrap (System.start m path base ckpt mem) σ) :
    (∀ file, σ.shared.CrashFile crates file →
      ∃ cs, file = base ++ bytesOf cs ∧ ∀ c ∈ cs, c.Remains crates σ.shared.wal) ∧
    ∀ cs, (∀ c ∈ cs, c.Remains crates σ.shared.wal) → Uncompleted crates cs → ∀ mem' : Memory,
      WrittenFrom mem'.store (recoverWithValidation crates (some (base ++ bytesOf cs)) mem').2.store
        (CommittedWrite es σ) := by
  constructor
  · rintro file ⟨n, synced, rfl⟩
    have old : σ.shared.base = base := base_run run
    have beyond : base.length ≤ n := old ▸ le_trans (Nat.le_add_right _ _) synced
    refine ⟨cutChunks (chunksOf crates 0 σ.shared.wal.stream) (n - base.length), ?_, fun c hc => ?_⟩
    · rw [System.file, old, List.take_append, List.take_of_length_le beyond,
        bytesOf_cut, bytesOf_chunks]
    · obtain ⟨⟨fits, begun⟩, pushed⟩ := cut_begun run hc
      exact ⟨fits, begun.isInfix, pushed⟩
  · intro cs remains refused mem'
    have still : WrittenFrom mem'.store mem'.store (CommittedWrite es σ) := fun _ => .inl rfl
    by_cases overflow : (readLog crates (base ++ bytesOf cs)).exit = .capacityOverflow
    · rw [recoverWithValidation]
      dsimp only
      rw [if_pos overflow]
      exact still
    · obtain ⟨its, pushed, read⟩ := read_remains remains refused
      rw [recover_store mem' overflow, whole.read, read]
      refine still.applyAll fun wr write => ?_
      obtain ⟨id, hid, write⟩ := List.mem_flatMap.mp write
      exact read_committedWrite (entered_run run) (signed_run run)
        (txIds_run (fun _ _ ok => ok) run) older pushed
        (mem_committedIds.mp hid) write

end Runs

def besideUncommitted : List SystemAction :=
  insertAlone [1] 2 ++ [.spawn .transaction] ++ insertInto "k" [2] 3 ++ flusherRound 1 ++
    insertInto "k" [3] 3 ++ [.move 0 .proceed] ++ runs 0 3 ++
    [.move 0 (.call (.fail .serialization)), .move 0 .proceed] ++ readFile 4 ++ replayRead 4

theorem no_dirty_value_besideUncommitted :
    let σ := ((systemProtocol (Bincode.crates true)).exec
      (fun σ a => NoWrap σ a ∧ WritesIntact σ a) newDatabase besideUncommitted).get
        (by decide +kernel)
    WrittenFrom newDatabase.shared.mem.store σ.shared.mem.store (CommittedWrite [] σ) :=
  no_dirty_value .nil (List.forall_mem_nil _) (Protocol.reaches_exec _ (by decide +kernel))

def tornInsert : List SystemAction :=
  insertAlone [1] 2 ++ [.spawn .transaction] ++ insertInto "k" [2] 3 ++ [.move 0 .proceed] ++
    runs 0 4 ++ [.move 0 (.call (.fail .io))]

def tornPieces (σ : SystemConfig) : List Chunk :=
  (σ.shared.wal.stream.filterMap Piece.begins).mapIdx fun k it =>
    ⟨(0, it.owner), it.entry, if k < 2 then frame (Bincode.crates true) it.entry
      else ((frame (Bincode.crates true) it.entry).drop 5).take 20⟩

theorem recovery_no_dirty_value_tornInsert :
    let σ := ((systemProtocol (Bincode.crates true)).exec NoWrap newDatabase tornInsert).get
      (by decide +kernel)
    (tornPieces σ).length = 3 ∧
      WrittenFrom (fun _ => none)
        (recoverWithValidation (Bincode.crates true) (some ([] ++ bytesOf (tornPieces σ)))
          ⟨fun _ => none, 1⟩).2.store (CommittedWrite [] σ) :=
  ⟨by decide +kernel,
    (recovery_no_dirty_value .nil (List.forall_mem_nil _)
    (Protocol.reaches_exec _ (by decide +kernel))).2
    _ (by decide +kernel) (by decide +kernel) ⟨fun _ => none, 1⟩⟩

end AsyncWalDb
