import AsyncWalDb.System

/-! What a transaction has pushed to the log at each stage of its life: its operations in buffer
order, then at most one marker. Only its own task pushes under its name. -/
namespace AsyncWalDb

open Interleaving

def ownItems (w : Wal) (i : Nat) : List Item := w.history.filter fun it => it.owner = i

def logged (w : Wal) (i : Nat) : List WalEntry := (ownItems w i).map Item.entry

def AppendPc.pushed : AppendPc → Bool
  | .notify _ => true
  | _ => false

def WalCall.before : WalCall → Option (List Item)
  | .append _ _ | .drain .flusher _ => none
  | .flush before _ | .drain (.flush before) _ => some before

def Operations (id : UInt64) (es : List WalEntry) : Prop :=
  ∀ e ∈ es, e.isMarker = false ∧ e.txId = id

def TxLogged (w : Wal) (i : Nat) (tx : Transaction) (call : Option WalCall) : TxStage → Prop
  | .active => call = none ∧ tx.state = .active ∧ logged w i = tx.entries
  | .appending =>
    tx.state = .active ∧ ∃ pre e pc, call = some (.append e pc) ∧ tx.entries = pre ++ [e] ∧
      logged w i = pre ++ if pc.pushed then [e] else []
  | .commitAppend => tx.state = .active ∧ ∃ now pc, call = some (.append (.commit tx.id now) pc) ∧
      logged w i = tx.entries ++ if pc.pushed then [.commit tx.id now] else []
  | .commitLogged =>
    call = none ∧ tx.state = .active ∧ ∃ now, logged w i = tx.entries ++ [.commit tx.id now]
  | .commitFlush =>
    tx.state = .active ∧ (∃ c before, call = some c ∧ c.before = some before ∧
      ownItems w i ⊆ before) ∧
      ∃ now, logged w i = tx.entries ++ [.commit tx.id now]
  | .applying _ => call = none ∧ tx.state = .committed ∧ ownItems w i ⊆ w.acked ∧
      ∃ now, logged w i = tx.entries ++ [.commit tx.id now]
  | .abortAppend => tx.state = .active ∧ ∃ now pc, call = some (.append (.abort tx.id now) pc) ∧
      logged w i = tx.entries ++ if pc.pushed then [.abort tx.id now] else []
  | .abortLogged =>
    call = none ∧ tx.state = .active ∧ ∃ now, logged w i = tx.entries ++ [.abort tx.id now]
  | .abortFlush => tx.state = .active ∧ (∃ c before, call = some c ∧ c.before = some before) ∧
      ∃ now, logged w i = tx.entries ++ [.abort tx.id now]
  | .returned _ => call = none ∧
      ((tx.state = .committed ∧ ownItems w i ⊆ w.acked ∧
          ∃ now, logged w i = tx.entries ++ [.commit tx.id now]) ∨
        (tx.state = .aborted ∧
          ∃ ops now, Operations tx.id ops ∧ logged w i = ops ++ [.abort tx.id now]))
  | .dropped => call = none ∧ tx.state = .active ∧ logged w i = tx.entries

/-- What the task has pushed is returned, but for the item its append is about to return. -/
def Returning (w : Wal) (i : Nat) (call : Option WalCall) : Prop :=
  ∀ it ∈ ownItems w i, it ∈ w.returned ∨ ∃ e, call = some (.append e (.notify it))

def TaskLogged (w : Wal) (i : Nat) (t : Task) : Prop :=
  match t.prog with
  | .transaction tx stage =>
    Operations tx.id tx.entries ∧ TxLogged w i tx t.call stage ∧ Returning w i t.call
  | _ => ownItems w i = [] ∧ ∀ e pc, t.call ≠ some (.append e pc)

structure TxLogs (σ : SystemConfig) : Prop where
  owners : ∀ it ∈ σ.shared.wal.history, it.owner < σ.tasks.length
  tasks : ∀ (i : Nat) (t : Task), σ.tasks[i]? = some t → TaskLogged σ.shared.wal i t

/-- No call fails or is dropped, and no await of a transaction either. -/
def SystemFaultless (σ : SystemConfig) : SystemAction → Prop
  | .move _ (.call .run) => True
  | .move _ (.call _) => False
  | .move i .interrupt => ∀ call tx stage, σ.tasks[i]? ≠ some ⟨call, .transaction tx stage⟩
  | _ => True

theorem SystemNoFaultAnd.faultless {C : WalConfig → Nat → Prop} {σ : SystemConfig}
    {a : SystemAction} (h : SystemNoFaultAnd C σ a) : SystemFaultless σ a := by
  unfold SystemFaultless
  split <;> simp_all [SystemNoFaultAnd]

variable {crates : Crates} {w w' : Wal} {i j : Nat} {c : WalCall} {t : Option WalCall}

section Calls

theorem append_runs {e : WalEntry} {pc : AppendPc} (h : Runs crates i w (.append e pc) w' t) :
    (∃ pc', t = some (.append e pc') ∧ pc.pushed = false ∧ pc'.pushed = false ∧
      w'.history = w.history) ∨
    (∃ it : Item, pc = .push ∧ it.owner = i ∧ it.entry = e ∧ t = some (.append e (.notify it)) ∧
      w'.history = w.history ++ [it] ∧ w'.returned = w.returned) ∨
    ∃ it, pc = .notify it ∧ t = none ∧ w'.history = w.history ∧
      w'.returned = w.returned ++ [it] := by
  cases h with
  | @wait _ pc pc' before after =>
    refine .inl ⟨pc', rfl, ?_, ?_, rfl⟩
    · cases pc <;> first | rfl | cases before
    · cases pc' <;> first | rfl | cases after
  | reserve => exact .inl ⟨_, rfl, rfl, rfl, rfl⟩
  | push => exact .inr (.inl ⟨_, rfl, rfl, rfl, rfl, rfl, rfl⟩)
  | appended => exact .inr (.inr ⟨_, rfl, rfl, rfl, rfl⟩)

theorem flush_runs {before : List Item} (h : Runs crates i w c w' t)
    (flushing : c.before = some before) : w'.history = w.history ∧
      ((∃ c', t = some c' ∧ c'.before = some before) ∨
        (t = none ∧ w'.acked = w.acked ++ before)) := by
  cases h with
  | wait | reserve | push | appended => cases flushing
  | poll | force => exact ⟨rfl, .inl ⟨_, rfl, flushing⟩⟩
  | drained => cases flushing; exact ⟨rfl, .inr ⟨rfl, rfl⟩⟩
  | @empty caller =>
    cases caller with
    | flusher => cases flushing
    | flush => cases flushing; exact ⟨rfl, .inr ⟨rfl, rfl⟩⟩
  | @wake caller =>
    cases caller with
    | flusher => cases flushing
    | flush => cases flushing; exact ⟨rfl, .inr ⟨rfl, rfl⟩⟩
  | @pop caller | @popped caller | @lock caller | @header caller | @payload caller
  | @flush caller | @sync caller
  | @sub caller =>
    cases caller with
    | flusher => cases flushing
    | flush => exact ⟨rfl, .inl ⟨_, rfl, flushing⟩⟩

theorem other_runs (h : Runs crates i w c w' t) (other : ∀ e pc, c ≠ .append e pc) :
    w'.history = w.history ∧ ∀ e pc, t ≠ some (.append e pc) := by
  cases h with
  | wait | reserve | push | appended => exact absurd rfl (other _ _)
  | poll | force | drained | pop | empty | popped | lock | header | payload | flush
  | sync | sub | wake =>
    exact ⟨rfl, by simp⟩

theorem runs_records (h : Runs crates i w c w' t) :
    w.returned ⊆ w'.returned ∧ w.acked ⊆ w'.acked := by
  cases h with
  | appended => exact ⟨List.subset_append_left _ _, List.Subset.refl _⟩
  | drained | empty | wake => exact ⟨List.Subset.refl _, List.subset_append_left _ _⟩
  | wait | reserve | push | poll | force | pop | popped | lock | header | payload
  | flush | sync | sub =>
    exact ⟨List.Subset.refl _, List.Subset.refl _⟩

theorem ownItems_congr (h : w'.history = w.history) (j : Nat) : ownItems w' j = ownItems w j := by
  rw [ownItems, ownItems, h]

theorem logged_congr (h : w'.history = w.history) (j : Nat) : logged w' j = logged w j := by
  rw [logged, logged, ownItems_congr h]

theorem ownItems_push {it : Item} (h : w'.history = w.history ++ [it]) :
    ownItems w' it.owner = ownItems w it.owner ++ [it] := by
  rw [ownItems, h, List.filter_append]
  simp [ownItems]

theorem ownItems_push_other {it : Item} (h : w'.history = w.history ++ [it])
    (other : it.owner ≠ j) : ownItems w' j = ownItems w j := by
  rw [ownItems, h, List.filter_append]
  simp [ownItems, other]

theorem runs_others (h : Runs crates i w c w' t) (other : j ≠ i) :
    ownItems w' j = ownItems w j := by
  rcases runs_history h with same | ⟨it, rfl, _, push⟩
  · exact ownItems_congr same j
  · exact ownItems_push_other push (Ne.symm other)

end Calls

section Tasks

theorem taskLogged_mono {task : Task} (own : ownItems w' j = ownItems w j)
    (returned : w.returned ⊆ w'.returned)
    (acked : w.acked ⊆ w'.acked) (h : TaskLogged w j task) : TaskLogged w' j task := by
  obtain ⟨call, prog⟩ := task
  have same : logged w' j = logged w j := by rw [logged, logged, own]
  cases prog with
  | transaction tx stage =>
    obtain ⟨operations, stageOk, back⟩ := h
    refine ⟨operations, ?_, fun it hit => (back it (own ▸ hit)).imp_left (returned ·)⟩
    cases stage with
    | active | appending | commitAppend | commitLogged | commitFlush | abortAppend | abortLogged
    | abortFlush | dropped =>
      simp only [TxLogged, same, own] at stageOk ⊢
      exact stageOk
    | applying rest =>
      simp only [TxLogged, same, own] at stageOk ⊢
      exact ⟨stageOk.1, stageOk.2.1, fun it hit => acked (stageOk.2.2.1 hit), stageOk.2.2.2⟩
    | returned result =>
      simp only [TxLogged, same, own] at stageOk ⊢
      exact ⟨stageOk.1, stageOk.2.imp_left fun done => ⟨done.1, fun it hit => acked (done.2.1 hit),
        done.2.2⟩⟩
  | flusher | storeHandle | stopFlusher | flushCaller | checkpoint => exact ⟨own.trans h.1, h.2⟩

theorem Operations.snoc {id : UInt64} {es : List WalEntry} {e : WalEntry} (h : Operations id es)
    (marker : e.isMarker = false) (own : e.txId = id) : Operations id (es ++ [e]) := by
  intro e' he'
  rcases List.mem_append.mp he' with old | new
  · exact h e' old
  · cases List.mem_singleton.mp new
    exact ⟨marker, own⟩

theorem Returning.idle (h : Returning w i none) : ownItems w i ⊆ w.returned :=
  fun it hit => (h it hit).resolve_right (by simp)

theorem append_log {e : WalEntry} {pc : AppendPc} {front : List WalEntry}
    (h : Runs crates i w (.append e pc) w' t)
    (log : logged w i = front ++ if pc.pushed then [e] else []) :
    (∃ pc', t = some (.append e pc') ∧ logged w' i = front ++ if pc'.pushed then [e] else []) ∨
      (t = none ∧ logged w' i = front ++ [e]) := by
  rcases append_runs h with ⟨pc', rfl, no, no', same⟩ | ⟨it, rfl, rfl, rfl, rfl, push, ret⟩
    | ⟨it, rfl, rfl, same, ret⟩
  · refine .inl ⟨pc', rfl, ?_⟩
    rw [logged_congr same, log, no, no']
  · refine .inl ⟨_, rfl, ?_⟩
    rw [logged, ownItems_push push, List.map_append]
    simp only [AppendPc.pushed, Bool.false_eq_true, if_false, List.append_nil] at log
    rw [← logged, log]
    rfl
  · refine .inr ⟨rfl, ?_⟩
    rw [logged_congr same, log]
    rfl

theorem append_returning {e : WalEntry} {pc : AppendPc} (h : Runs crates i w (.append e pc) w' t)
    (back : Returning w i (some (.append e pc))) : Returning w' i t := by
  rcases append_runs h with ⟨pc', rfl, no, no', same⟩ | ⟨it, rfl, rfl, rfl, rfl, push, ret⟩
    | ⟨it, rfl, rfl, same, ret⟩
  · intro it hit
    rw [ownItems_congr same] at hit
    rcases back it hit with old | ⟨e', now⟩
    · exact .inl ((runs_records h).1 old)
    · cases now; cases no
  · intro it' hit
    rw [ownItems_push push] at hit
    rcases List.mem_append.mp hit with old | new
    · exact .inl (ret ▸ (back it' old).resolve_right (by simp))
    · cases List.mem_singleton.mp new
      exact .inr ⟨_, rfl⟩
  · intro it' hit
    refine .inl ?_
    rw [ownItems_congr same] at hit
    rw [ret]
    rcases back it' hit with old | ⟨e', now⟩
    · exact List.mem_append_left _ old
    · cases now
      exact List.mem_append_right _ List.mem_cons_self

theorem flush_logged {before : List Item} (h : Runs crates i w c w' t)
    (flushing : c.before = some before)
    (back : Returning w i (some c)) : logged w' i = logged w i ∧ ownItems w' i = ownItems w i ∧
      Returning w' i t ∧
      ((∃ c', t = some c' ∧ c'.before = some before) ∨ (t = none ∧ before ⊆ w'.acked)) := by
  obtain ⟨same, out⟩ := flush_runs h flushing
  refine ⟨logged_congr same i, ownItems_congr same i, fun it hit => .inl ?_, ?_⟩
  · rw [ownItems_congr same] at hit
    refine (runs_records h).1 ((back it hit).resolve_right ?_)
    rintro ⟨e, now⟩
    cases now
    cases flushing
  · refine out.imp_right ?_
    rintro ⟨rfl, acked⟩
    exact ⟨rfl, acked ▸ List.subset_append_right _ _⟩

theorem call_taskLogged {prog : Prog} (h : Runs crates i w c w' t)
    (ok : TaskLogged w i ⟨some c, prog⟩) :
    TaskLogged w' i ⟨t, if t.isSome then prog else prog.returned (.ok ())⟩ := by
  cases prog with
  | transaction tx stage =>
    obtain ⟨operations, stageOk, back⟩ := ok
    cases stage with
    | active | commitLogged | applying | abortLogged | returned | dropped => cases stageOk.1
    | appending =>
      obtain ⟨state, pre, e, pc, same, entries, log⟩ := stageOk
      cases same
      have back' := append_returning h back
      obtain ⟨pc', rfl, log'⟩ | ⟨rfl, log'⟩ := append_log h log
      · exact ⟨operations, ⟨state, pre, e, pc', rfl, entries, log'⟩, back'⟩
      · exact ⟨operations, ⟨rfl, state, by rw [log', entries]⟩, back'⟩
    | commitAppend =>
      obtain ⟨state, now, pc, same, log⟩ := stageOk
      cases same
      have back' := append_returning h back
      obtain ⟨pc', rfl, log'⟩ | ⟨rfl, log'⟩ := append_log h log
      · exact ⟨operations, ⟨state, now, pc', rfl, log'⟩, back'⟩
      · exact ⟨operations, ⟨rfl, state, now, log'⟩, back'⟩
    | abortAppend =>
      obtain ⟨state, now, pc, same, log⟩ := stageOk
      cases same
      have back' := append_returning h back
      obtain ⟨pc', rfl, log'⟩ | ⟨rfl, log'⟩ := append_log h log
      · exact ⟨operations, ⟨state, now, pc', rfl, log'⟩, back'⟩
      · exact ⟨operations, ⟨rfl, state, now, log'⟩, back'⟩
    | commitFlush =>
      obtain ⟨state, ⟨c, before, same, flushing, own⟩, now, log⟩ := stageOk
      cases same
      obtain ⟨log', own', back', ⟨c', rfl, flushing'⟩ | ⟨rfl, acked⟩⟩ :=
        flush_logged h flushing back
      · exact ⟨operations, ⟨state, ⟨c', before, rfl, flushing', own' ▸ own⟩, now, log' ▸ log⟩,
          back'⟩
      · exact ⟨operations, ⟨rfl, rfl, fun it hit => acked (own (own' ▸ hit)), now, log' ▸ log⟩,
          back'⟩
    | abortFlush =>
      obtain ⟨state, ⟨c, before, same, flushing⟩, now, log⟩ := stageOk
      cases same
      obtain ⟨log', own', back', ⟨c', rfl, flushing'⟩ | ⟨rfl, acked⟩⟩ :=
        flush_logged h flushing back
      · exact ⟨operations, ⟨state, ⟨c', before, rfl, flushing'⟩, now, log' ▸ log⟩, back'⟩
      · exact ⟨by simp [Operations], ⟨rfl, .inr ⟨rfl, tx.entries, now, operations, log' ▸ log⟩⟩,
          back'⟩
  | flusher stage =>
    obtain ⟨same, none_appends⟩ := other_runs h fun e pc same => ok.2 e pc (congrArg some same)
    have none_own : ownItems w' i = [] := (ownItems_congr same i).trans ok.1
    cases t with
    | some c' => exact ⟨none_own, none_appends⟩
    | none => cases stage <;> exact ⟨none_own, none_appends⟩
  | storeHandle | stopFlusher | flushCaller | checkpoint =>
    obtain ⟨same, none_appends⟩ := other_runs h fun e pc same => ok.2 e pc (congrArg some same)
    have none_own : ownItems w' i = [] := (ownItems_congr same i).trans ok.1
    cases t <;> exact ⟨none_own, none_appends⟩

theorem logMove_records (h : LogMove crates i w w' t) :
    w'.history = w.history ∧ w'.returned = w.returned ∧ w'.acked = w.acked := by
  rcases h with ⟨rfl, _⟩ | ⟨b, own, moved⟩
  · exact ⟨rfl, rfl, rfl⟩
  · cases b with
    | call k => exact absurd rfl (own k)
    | append | flush | drain | notify => cases moved; exact ⟨rfl, rfl, rfl⟩
    | notified =>
      simp only [walProtocol] at moved
      split at moved
      · cases moved; exact ⟨rfl, rfl, rfl⟩
      · contradiction

theorem logMove_stream (h : LogMove crates i w w' t) : w'.stream = w.stream := by
  rcases h with ⟨rfl, _⟩ | ⟨b, own, moved⟩
  · rfl
  · cases b with
    | call k => exact absurd rfl (own k)
    | append | flush | drain | notify => cases moved; rfl
    | notified =>
      simp only [walProtocol] at moved
      split at moved
      · cases moved; rfl
      · contradiction

theorem control_taskLogged {task : Task} (control : task.prog.isControl = true)
    (none_own : ownItems w i = [])
    (appends : ∀ e pc, task.call ≠ some (.append e pc)) : TaskLogged w i task := by
  obtain ⟨call, prog⟩ := task
  cases prog with
  | transaction | checkpoint => cases control
  | flusher | storeHandle | stopFlusher | flushCaller => exact ⟨none_own, appends⟩

theorem own_taskLogged {m : Move} {prog : Prog} {s s' : System} {t' : Task}
    (h : OwnRuns crates i s m prog s' t')
    (steady : m = .interrupt → ∀ tx stage, prog ≠ .transaction tx stage)
    (ok : TaskLogged s.wal i ⟨none, prog⟩) : TaskLogged s'.wal i t' := by
  cases h with
  | refused => exact ok
  | @append tx op now tx' e appended =>
    obtain ⟨operations, ⟨_, state, log⟩, back⟩ := ok
    obtain ⟨stamped, rfl⟩ := appendOp_ok appended
    obtain ⟨marker, own, _⟩ := stamped_operation stamped
    exact ⟨operations.snoc marker own,
      ⟨state, tx.entries, e, .load, rfl, rfl, by simpa [AppendPc.pushed] using log⟩,
      fun it hit => .inl (back.idle hit)⟩
  | commit =>
    obtain ⟨operations, ⟨_, state, log⟩, back⟩ := ok
    exact ⟨operations, ⟨state, _, .load, rfl, by simpa [AppendPc.pushed] using log⟩,
      fun it hit => .inl (back.idle hit)⟩
  | abort =>
    obtain ⟨operations, ⟨_, state, log⟩, back⟩ := ok
    exact ⟨operations, ⟨state, _, .load, rfl, by simpa [AppendPc.pushed] using log⟩,
      fun it hit => .inl (back.idle hit)⟩
  | notActive state => exact absurd ok.2.1.2.1 state
  | discard => exact ok
  | commitFlush =>
    obtain ⟨operations, ⟨_, state, log⟩, back⟩ := ok
    exact ⟨operations, ⟨state, ⟨_, _, rfl, rfl, back.idle⟩, log⟩,
      fun it hit => .inl (back.idle hit)⟩
  | abortFlush =>
    obtain ⟨operations, ⟨_, state, log⟩, back⟩ := ok
    exact ⟨operations, ⟨state, ⟨_, _, rfl, rfl⟩, log⟩, fun it hit => .inl (back.idle hit)⟩
  | done => exact ⟨ok.1, ⟨rfl, .inl ok.2.1.2⟩, ok.2.2⟩
  | apply => exact ok
  | applyFails => exact ⟨ok.1, ⟨rfl, .inl ok.2.1.2⟩, ok.2.2⟩
  | cancel => exact absurd rfl (steady rfl _ _)
  | control shutdown handle exited before after log appends =>
    have none_own : ownItems s.wal i = [] := by
      cases prog with
      | transaction | checkpoint => cases before
      | flusher | storeHandle | stopFlusher | flushCaller => exact ok.1
    exact control_taskLogged after ((ownItems_congr (logMove_records log).1 i).trans none_own)
      appends
  | ckpt moved =>
    obtain ⟨stage', rfl, runs⟩ := ckptMove_runs moved
    rw [runs.wal]
    exact ⟨ok.1, by simp⟩

end Tasks

section Runs

variable {σ σ' : SystemConfig} {a : SystemAction}

theorem ownItems_eq_nil_of_fresh (owners : ∀ it ∈ w.history, it.owner < j) : ownItems w j = [] := by
  rw [ownItems, List.filter_eq_nil_iff]
  intro it hit
  have := owners it hit
  simp
  omega

theorem txLogs_step (logs : TxLogs σ) (step : SystemStep crates σ a σ') (ok : SystemFaultless σ a) :
    TxLogs σ' := by
  have later : ∀ {w' : Wal} {i : Nat} {t' : Task},
    (∀ j, j ≠ i → ownItems w' j = ownItems σ.shared.wal j) →
      σ.shared.wal.returned ⊆ w'.returned → σ.shared.wal.acked ⊆ w'.acked → TaskLogged w' i t' →
      ∀ (j : Nat) (u : Task), (σ.tasks.set i t')[j]? = some u → TaskLogged w' j u := by
    intro w' i t' own returned acked moved j u hj
    rcases getElem?_set_cases hj with ⟨rfl, rfl, _⟩ | ⟨other, old⟩
    · exact moved
    · exact taskLogged_mono (own j other) returned acked (logs.tasks j u old)
  cases step with
  | begin =>
    refine ⟨fun it hit => ?_, fun j u hj => ?_⟩
    · have := logs.owners it hit
      simp
      omega
    · rcases getElem?_append_one hj with old | ⟨rfl, rfl⟩
      · exact logs.tasks j u old
      · have none_own := ownItems_eq_nil_of_fresh logs.owners
        exact ⟨by simp [Operations], ⟨rfl, rfl, by simp [logged, none_own]⟩,
          by simp [Returning, none_own]⟩
  | spawn other =>
    refine ⟨fun it hit => ?_, fun j u hj => ?_⟩
    · have := logs.owners it hit
      simp
      omega
    · rcases getElem?_append_one hj with old | ⟨rfl, rfl⟩
      · exact logs.tasks j u old
      · have none_own := ownItems_eq_nil_of_fresh logs.owners
        rcases other with control | ⟨_, rfl⟩
        · exact control_taskLogged control none_own (by simp)
        · exact ⟨none_own, by simp⟩
  | @call i c prog w call slot runs =>
    obtain ⟨returned, acked⟩ := runs_records runs
    refine ⟨fun it hit => ?_, later (fun j other => runs_others runs other) returned acked
      (call_taskLogged runs (logs.tasks i _ slot))⟩
    rw [List.length_set]
    rcases runs_mem_history runs hit with old | ⟨own, _⟩
    · exact logs.owners it old
    · exact own ▸ (List.getElem?_eq_some_iff.mp slot).1
  | @fault i c k prog prog' slot fallible stops after =>
    cases k with
    | run => exact absurd rfl stops
    | fail | drop => exact ok.elim
  | @own i m prog s' t' slot other runs =>
    obtain ⟨history, returned, acked⟩ := logMove_records runs.log
    have steady : m = .interrupt → ∀ tx stage, prog ≠ .transaction tx stage := by
      rintro rfl tx stage rfl
      exact ok _ _ _ slot
    refine ⟨fun it hit => ?_,
      later (fun j _ => ownItems_congr history j) (returned ▸ List.Subset.refl _)
      (acked ▸ List.Subset.refl _) (own_taskLogged runs steady (logs.tasks i _ slot))⟩
    rw [List.length_set]
    exact logs.owners it (history ▸ hit)

theorem txLogs_run {guard : SystemConfig → SystemAction → Prop} {m : Nat}
    {path : String} {base : Bytes}
    {ckpt : Option (List Char)} {mem : Memory} (faultless : ∀ σ a, guard σ a → SystemFaultless σ a)
    (run : (systemProtocol crates).Reaches guard (System.start m path base ckpt mem) σ) :
    TxLogs σ := by
  apply run.invariant
  · refine ⟨fun it hit => absurd hit (List.not_mem_nil), fun j u hj => ?_⟩
    rcases start_slot hj with rfl | rfl <;> exact ⟨rfl, by simp⟩
  · intro τ a τ' logs ok taken
    exact txLogs_step logs (system_step_cases taken) (faultless _ _ ok)

end Runs

section Shape

theorem txLogged_shape {tx : Transaction} {stage : TxStage} {call : Option WalCall}
    (operations : Operations tx.id tx.entries) (log : TxLogged w i tx call stage) :
    ∃ ops ends, logged w i = ops ++ ends ∧ Operations tx.id ops ∧
      (ends = [] ∨ (∃ now, ends = [.abort tx.id now]) ∨ ∃ now, ends = [.commit tx.id now] ∧
        ops = tx.entries) := by
  cases stage with
  | active => exact ⟨tx.entries, [], by simp [log.2.2], operations, .inl rfl⟩
  | dropped => exact ⟨tx.entries, [], by simp [log.2.2], operations, .inl rfl⟩
  | appending =>
    obtain ⟨_, pre, e, pc, _, entries, same⟩ := log
    refine ⟨_, [], by rw [List.append_nil, same], fun e' he' => operations e' ?_, .inl rfl⟩
    rw [entries]
    split at he'
    · exact he'
    · exact List.mem_append_left _ (by simpa using he')
  | commitAppend =>
    obtain ⟨_, now, pc, _, same⟩ := log
    refine ⟨tx.entries, _, same, operations, ?_⟩
    split
    · exact .inr (.inr ⟨now, rfl, rfl⟩)
    · exact .inl rfl
  | abortAppend =>
    obtain ⟨_, now, pc, _, same⟩ := log
    refine ⟨tx.entries, _, same, operations, ?_⟩
    split
    · exact .inr (.inl ⟨now, rfl⟩)
    · exact .inl rfl
  | commitLogged | commitFlush =>
    obtain ⟨_, _, now, same⟩ := log
    exact ⟨tx.entries, _, same, operations, .inr (.inr ⟨now, rfl, rfl⟩)⟩
  | applying rest =>
    obtain ⟨_, _, _, now, same⟩ := log
    exact ⟨tx.entries, _, same, operations, .inr (.inr ⟨now, rfl, rfl⟩)⟩
  | abortLogged | abortFlush =>
    obtain ⟨_, _, now, same⟩ := log
    exact ⟨tx.entries, _, same, operations, .inr (.inl ⟨now, rfl⟩)⟩
  | returned result =>
    rcases log.2 with ⟨_, _, now, same⟩ | ⟨_, ops, now, operations, same⟩
    · exact ⟨tx.entries, _, same, operations, .inr (.inr ⟨now, rfl, rfl⟩)⟩
    · exact ⟨ops, _, same, operations, .inr (.inl ⟨now, rfl⟩)⟩

theorem logged_txId {tx : Transaction} {stage : TxStage} {call : Option WalCall}
    (ok : TaskLogged w i ⟨call, .transaction tx stage⟩) : ∀ e ∈ logged w i, e.txId = tx.id := by
  obtain ⟨ops, ends, same, operations, marker⟩ := txLogged_shape ok.1 ok.2.1
  intro e he
  rw [same] at he
  rcases List.mem_append.mp he with op | last
  · exact (operations e op).2
  · rcases marker with rfl | ⟨now, rfl⟩ | ⟨now, rfl, _⟩
    · cases last
    · cases List.mem_singleton.mp last; rfl
    · cases List.mem_singleton.mp last; rfl

theorem commit_last {σ : SystemConfig} (logs : TxLogs σ)
    (sorted : σ.shared.wal.history.Pairwise fun a b => a.stamp < b.stamp)
    {call : Option WalCall} {tx : Transaction} {stage : TxStage}
    (slot : σ.tasks[i]? = some ⟨call, .transaction tx stage⟩)
    {c : Item} (own : c ∈ ownItems σ.shared.wal i) (commit : c.entry.isCommit = true) :
    (∃ now, logged σ.shared.wal i = tx.entries ++ [.commit tx.id now]) ∧
      ∀ o ∈ ownItems σ.shared.wal i, o ≠ c → o.stamp < c.stamp := by
  obtain ⟨operations, log, _⟩ := logs.tasks i _ slot
  obtain ⟨ops, ends, same, ops_only, marker⟩ := txLogged_shape operations log
  have in_log : c.entry ∈ ops ++ ends := same ▸ List.mem_map_of_mem own
  have not_op : c.entry ∉ ops := fun op => by
    have := (ops_only _ op).1
    rw [WalEntry.isMarker_of_isCommit commit] at this
    cases this
  have in_ends := (List.mem_append.mp in_log).resolve_left not_op
  rcases marker with rfl | ⟨now, rfl⟩ | ⟨now, rfl, rfl⟩
  · cases in_ends
  · rw [List.mem_singleton.mp in_ends] at commit
    cases commit
  · refine ⟨⟨now, same⟩, fun o ho ne => ?_⟩
    -- the items are the operations and then one item, which is `c`
    obtain ⟨front, last, items, fronts, lasts⟩ := List.map_eq_append_iff.mp same
    obtain ⟨l, rfl, entry⟩ : ∃ l, last = [l] ∧ l.entry = .commit tx.id now := by
      simpa [List.map_eq_cons_iff] using lasts
    have at_end : ∀ d ∈ ownItems σ.shared.wal i, d.entry.isCommit = true → d = l := by
      intro d hd hc
      rw [items] at hd
      rcases List.mem_append.mp hd with early | late
      · have op := ops_only _ (fronts ▸ List.mem_map_of_mem early)
        rw [WalEntry.isMarker_of_isCommit hc] at op
        cases op.1
      · exact List.mem_singleton.mp late
    cases at_end c own commit
    have ascending : (ownItems σ.shared.wal i).Pairwise fun a b => a.stamp < b.stamp :=
      sorted.filter _
    rw [items] at ascending ho
    rcases List.mem_append.mp ho with early | late
    · exact (List.pairwise_append.mp ascending).2.2 o early c List.mem_cons_self
    · exact absurd (List.mem_singleton.mp late) ne

end Shape

section Ids

def Prog.txId? : Prog → Option UInt64
  | .transaction tx _ => some tx.id
  | _ => none

def NoWrap (σ : SystemConfig) (a : SystemAction) : Prop := a = .spawn .transaction →
    σ.shared.mem.nextTxId + 1 ≠ 0

instance (σ : SystemConfig) (a : SystemAction) : Decidable (NoWrap σ a) :=
  match a with
  | .spawn .transaction => decidable_of_iff (σ.shared.mem.nextTxId + 1 ≠ 0) (by simp [NoWrap])
  | .spawn .flushCaller | .spawn .checkpoint | .spawn .stopFlusher | .move _ _ =>
    .isTrue (by simp [NoWrap])

/-- Ids ascend with the order in which transactions began, from `first` up to the counter. -/
structure TxIds (first : UInt64) (σ : SystemConfig) : Prop where
  bound : first ≤ σ.shared.mem.nextTxId
  drawn : ∀ (i : Nat) (t : Task) (id : UInt64), σ.tasks[i]? = some t → t.prog.txId? = some id →
    first ≤ id ∧ id < σ.shared.mem.nextTxId
  ascending : (σ.tasks.map fun t => t.prog.txId?).Pairwise fun a b => ∀ x ∈ a, ∀ y ∈ b, x < y

theorem returned_txId (result : Except WalError Unit) (prog : Prog) :
    (prog.returned result).txId? = prog.txId? := by
  cases prog with
  | transaction tx stage => cases stage <;> cases result <;> rfl
  | flusher stage => cases stage <;> rfl
  | storeHandle | stopFlusher | flushCaller | checkpoint => rfl

theorem dropped_txId (prog : Prog) : prog.dropped.txId? = prog.txId? := by
  cases prog with
  | transaction tx stage => cases stage <;> rfl
  | flusher | storeHandle | stopFlusher | flushCaller | checkpoint => rfl

theorem control_txId {prog : Prog} (control : prog.isControl = true) : prog.txId? = none := by
  cases prog with
  | transaction | checkpoint => cases control
  | flusher | storeHandle | stopFlusher | flushCaller => rfl

theorem own_txId {m : Move} {prog : Prog} {s s' : System} {t' : Task}
    (h : OwnRuns crates i s m prog s' t') :
    t'.prog.txId? = prog.txId? ∧ s'.mem.nextTxId = s.mem.nextTxId := by
  cases h with
  | append appended =>
    obtain ⟨_, rfl⟩ := appendOp_ok appended
    exact ⟨rfl, rfl⟩
  | @control m prog w call prog' locked shutdown handle exited before after log appends =>
    exact ⟨(control_txId after).trans (control_txId before).symm, rfl⟩
  | ckpt moved =>
    obtain ⟨stage', rfl, runs⟩ := ckptMove_runs moved
    cases runs <;> exact ⟨rfl, rfl⟩
  | refused | commit | abort | notActive | discard | commitFlush | abortFlush | done | apply
  | applyFails | cancel =>
    exact ⟨rfl, rfl⟩

variable {σ σ' : SystemConfig} {a : SystemAction} {first : UInt64}

theorem txIds_set {t' : Task} {s : System} (ok : TxIds first σ) {t : Task}
    (slot : σ.tasks[i]? = some t)
    (same : t'.prog.txId? = t.prog.txId?) (counter : s.mem.nextTxId = σ.shared.mem.nextTxId) :
    TxIds first ⟨s, σ.tasks.set i t'⟩ := by
  refine ⟨counter ▸ ok.bound, fun j u id hj hid => ?_, ?_⟩
  · rw [counter]
    rcases getElem?_set_cases hj with ⟨_, rfl, _⟩ | ⟨_, old⟩
    · exact ok.drawn i t id slot (same ▸ hid)
    · exact ok.drawn j u id old hid
  · rw [map_set_same slot same]
    exact ok.ascending

theorem txIds_step (ok : TxIds first σ) (step : SystemStep crates σ a σ') (fits : NoWrap σ a) :
    TxIds first σ' := by
  cases step with
  | begin =>
    have up : σ.shared.mem.nextTxId < σ.shared.mem.nextTxId + 1 := by
      have no_wrap := fits rfl
      have limit := UInt64.toNat_lt σ.shared.mem.nextTxId
      rw [Ne, ← UInt64.toNat_inj, UInt64.toNat_add] at no_wrap
      rw [UInt64.lt_iff_toNat_lt, UInt64.toNat_add]
      simp at no_wrap ⊢
      omega
    refine ⟨le_trans ok.bound up.le, fun j u id hj hid => ?_, ?_⟩
    · rcases getElem?_append_one hj with old | ⟨rfl, rfl⟩
      · obtain ⟨low, high⟩ := ok.drawn j u id old hid
        exact ⟨low, lt_trans high up⟩
      · cases hid
        exact ⟨ok.bound, up⟩
    · rw [List.map_append, List.pairwise_append]
      refine ⟨ok.ascending, List.pairwise_singleton _ _, fun a ha b hb x hx y hy => ?_⟩
      obtain ⟨t, ht, rfl⟩ := List.mem_map.mp ha
      obtain ⟨j, hj⟩ := List.getElem?_of_mem ht
      cases List.mem_singleton.mp hb
      cases hy
      exact (ok.drawn j t x hj hx).2
  | @spawn k prog other =>
    have no_id : prog.txId? = none := by
      rcases other with control | ⟨_, rfl⟩
      · exact control_txId control
      · rfl
    refine ⟨ok.bound, fun j u id hj hid => ?_, ?_⟩
    · rcases getElem?_append_one hj with old | ⟨rfl, rfl⟩
      · exact ok.drawn j u id old hid
      · rw [no_id] at hid; cases hid
    · rw [List.map_append, List.pairwise_append]
      refine ⟨ok.ascending, List.pairwise_singleton _ _, fun a _ b hb x _ y hy => ?_⟩
      cases List.mem_singleton.mp hb
      change y ∈ prog.txId? at hy
      rw [no_id] at hy; cases hy
  | @call i c prog w call slot runs =>
    refine txIds_set ok slot ?_ rfl
    cases call
    · exact returned_txId (.ok ()) prog
    · rfl
  | @fault i c k prog prog' slot fallible stops after =>
    refine txIds_set ok slot ?_ rfl
    rcases after with rfl | ⟨e, rfl⟩
    · exact dropped_txId prog
    · exact returned_txId (.error e) prog
  | own slot other runs => exact txIds_set ok slot (own_txId runs).1 (own_txId runs).2

theorem txIds_run {guard : SystemConfig → SystemAction → Prop} {m : Nat}
    {path : String} {base : Bytes}
    {ckpt : Option (List Char)} {mem : Memory} (fits : ∀ σ a, guard σ a → NoWrap σ a)
    (run : (systemProtocol crates).Reaches guard (System.start m path base ckpt mem) σ) :
    TxIds mem.nextTxId σ := by
  apply run.invariant
  · refine ⟨le_rfl, fun j u id hj hid => ?_, by simp [System.start, Prog.txId?]⟩
    rcases start_slot hj with rfl | rfl <;> cases hid
  · intro τ a τ' ok guarded taken
    exact txIds_step ok (system_step_cases taken) (fits _ _ guarded)

theorem TxIds.lt (ok : TxIds first σ) {t u : Task} {x y : UInt64} (at_i : σ.tasks[i]? = some t)
    (at_j : σ.tasks[j]? = some u) (hx : t.prog.txId? = some x) (hy : u.prog.txId? = some y)
    (order : i < j) : x < y := by
  obtain ⟨bound, rfl⟩ := List.getElem?_eq_some_iff.mp at_i
  obtain ⟨bound', rfl⟩ := List.getElem?_eq_some_iff.mp at_j
  have pair := List.pairwise_iff_getElem.mp ok.ascending i j (by simpa using bound) (by simpa
    using bound') order
  simp only [List.getElem_map] at pair
  exact pair x hx y hy

theorem TxIds.unique (ok : TxIds first σ) {t u : Task} {id : UInt64} (at_i : σ.tasks[i]? = some t)
    (at_j : σ.tasks[j]? = some u) (hx : t.prog.txId? = some id) (hy : u.prog.txId? = some id) :
    i = j := by
  rcases Nat.lt_trichotomy i j with lt | same | gt
  · exact absurd (ok.lt at_i at_j hx hy lt) (lt_irrefl _)
  · exact same
  · exact absurd (ok.lt at_j at_i hy hx gt) (lt_irrefl _)

theorem pushed_by (logs : TxLogs σ) {it : Item} (pushed : it ∈ σ.shared.wal.history) :
    ∃ call tx stage, σ.tasks[it.owner]? = some ⟨call, .transaction tx stage⟩ ∧
      it.entry.txId = tx.id := by
  have own : it ∈ ownItems σ.shared.wal it.owner := List.mem_filter.mpr ⟨pushed, by simp⟩
  obtain ⟨⟨call, prog⟩, at_owner⟩ : ∃ u, σ.tasks[it.owner]? = some u :=
    ⟨_, List.getElem?_eq_getElem (logs.owners it pushed)⟩
  have ok := logs.tasks it.owner _ at_owner
  cases prog with
  | transaction tx stage =>
    exact ⟨call, tx, stage, at_owner, logged_txId ok it.entry (List.mem_map_of_mem own)⟩
  | flusher | storeHandle | stopFlusher | flushCaller | checkpoint =>
    rw [ok.1] at own
    cases own

theorem owner_of_txId (logs : TxLogs σ) (ids : TxIds first σ) {tx : Transaction} {stage : TxStage}
    {call : Option WalCall} (slot : σ.tasks[i]? = some ⟨call, .transaction tx stage⟩) {it : Item}
    (pushed : it ∈ σ.shared.wal.history) : it.entry.txId = tx.id ↔ it.owner = i := by
  obtain ⟨call', tx', stage', at_owner, id'⟩ := pushed_by logs pushed
  constructor
  · intro same
    refine ids.unique at_owner slot ?_ rfl
    rw [← same, id']
    rfl
  · rintro rfl
    cases Option.some.inj (at_owner.symm.trans slot)
    exact id'

theorem entriesOf_owned (logs : TxLogs σ) (ids : TxIds first σ) {tx : Transaction} {stage : TxStage}
    {call : Option WalCall} (slot : σ.tasks[i]? = some ⟨call, .transaction tx stage⟩)
    {es : List WalEntry}
    (older : ∀ e ∈ es, e.txId < first) {its : List Item} (pushed : its ⊆ σ.shared.wal.history) :
    entriesOf tx.id (es ++ its.map Item.entry) =
      (its.filter fun it => it.owner = i).map Item.entry := by
  have drawn := (ids.drawn i _ tx.id slot rfl).1
  have none_old : entriesOf tx.id es = [] :=
    entriesOf_eq_nil.mpr fun e he => ne_of_lt (lt_of_lt_of_le (older e he) drawn)
  rw [entriesOf_append, none_old, List.nil_append, entriesOf, List.filter_map]
  congr 1
  refine List.filter_congr fun it hit => ?_
  simpa using owner_of_txId logs ids slot (pushed hit)

theorem read_txId_lt {es : List WalEntry} {its : List Item} (logs : TxLogs σ) (ids : TxIds first σ)
    (older : ∀ e ∈ es, e.txId < first) (pushed : its ⊆ σ.shared.wal.history) :
    ∀ e ∈ es ++ its.map Item.entry, e.txId < σ.shared.mem.nextTxId := by
  intro e he
  rcases List.mem_append.mp he with old | new
  · exact lt_of_lt_of_le (older e old) ids.bound
  · obtain ⟨it, hit, rfl⟩ := List.mem_map.mp new
    obtain ⟨call, tx, stage, slot, same⟩ := pushed_by logs (pushed hit)
    rw [same]
    exact (ids.drawn _ _ tx.id slot rfl).2

end Ids

end AsyncWalDb
