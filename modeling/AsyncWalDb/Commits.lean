import AsyncWalDb.TxLog

/-! Commits executed one after another: the operations applied to the
store are those of the committed transactions in the order of their
Commit entries, but for what a commit in progress has still to apply. -/
namespace AsyncWalDb

open Interleaving KeyedWrites

def commitOrder (w : Wal) : List Nat :=
  (w.history.filter fun it => it.entry.isCommit).map Item.owner

/-- The operations of the committed transactions, whole transactions in commit order. -/
def committedOps (w : Wal) : List WalEntry := (commitOrder w).flatMap fun i => (logged w i).filter
    fun e => !e.isMarker

def committedWrites (w : Wal) : List (Write String Bytes) :=
  (committedOps w).filterMap WalEntry.write?

def appliedOps (s : System) : List WalEntry := s.applied.map Prod.snd

def Prog.committing : Prog → Bool
  | .transaction _ .commitAppend | .transaction _ .commitLogged | .transaction _ .commitFlush
  | .transaction _ (.applying _) => true
  | _ => false

def CommitIdle (σ : SystemConfig) : Prop := ∀ t ∈ σ.tasks, t.prog.committing = false

instance (σ : SystemConfig) : Decidable (CommitIdle σ) := by
  unfold CommitIdle
  infer_instance

/-- A commit starts only when no other one is in progress. -/
def OneByOne (σ : SystemConfig) : SystemAction → Prop
  | .move _ (.commit _) => CommitIdle σ
  | _ => True

instance (σ : SystemConfig) (a : SystemAction) : Decidable (OneByOne σ a) := by
  unfold OneByOne
  split <;> infer_instance

def CommitsApply (σ : SystemConfig) : SystemAction → Prop
  | .move i .proceed =>
    match σ.tasks[i]? with
    | some ⟨none, .transaction _ (.applying (op :: _))⟩ =>
      (applyToStore σ.shared.mem.store op).isOk = true
    | _ => True
  | _ => True

instance (σ : SystemConfig) (a : SystemAction) : Decidable (CommitsApply σ a) := by
  unfold CommitsApply
  split
  · split <;> infer_instance
  · infer_instance

/-- What a commit with a pushed Commit entry has still to apply. -/
def Task.owed (t : Task) : List WalEntry :=
  match t.prog, t.call with
  | .transaction tx .commitAppend, some (.append _ pc) => if pc.pushed then tx.entries else []
  | .transaction tx .commitLogged, _ | .transaction tx .commitFlush, _ => tx.entries
  | .transaction _ (.applying rest), _ => rest
  | _, _ => []

def owedOps (σ : SystemConfig) : List WalEntry := σ.tasks.flatMap Task.owed

variable {crates : Crates} {w w' : Wal} {i j : Nat} {c : WalCall} {call : Option WalCall}
  {s s' : System} {σ σ' : SystemConfig} {a : SystemAction}

theorem writes_filter (es : List WalEntry) :
    (es.filter fun e => !e.isMarker).filterMap WalEntry.write? = es.filterMap WalEntry.write? := by
  rw [List.filterMap_filter]
  refine List.filterMap_congr fun e _ => ?_
  cases e <;> rfl

theorem committedWrites_eq (w : Wal) : committedWrites w =
    (w.history.filter fun it => it.entry.isCommit).flatMap fun c =>
      (logged w c.owner).filterMap WalEntry.write? := by
  simp only [committedWrites, committedOps, commitOrder, List.filterMap_flatMap, List.flatMap_map,
    writes_filter]

theorem owed_committing {t : Task} (h : t.prog.committing = false) : t.owed = [] := by
  obtain ⟨call, prog⟩ := t
  cases prog with
  | transaction tx stage => cases stage <;> first | rfl | cases h
  | flusher | storeHandle | stopFlusher | flushCaller | checkpoint => rfl

theorem control_committing {prog : Prog} (control : prog.isControl = true) :
    prog.committing = false := by
  cases prog with
  | transaction | checkpoint => cases control
  | flusher | storeHandle | stopFlusher | flushCaller => rfl

section Pushes

theorem committedOps_congr (same : w'.history = w.history) : committedOps w' = committedOps w := by
  simp only [committedOps, commitOrder, logged_congr same, same]

theorem mem_commitOrder : i ∈ commitOrder w ↔ ∃ e ∈ logged w i, e.isCommit = true := by
  simp only [commitOrder, logged, ownItems, List.mem_map, List.mem_filter, decide_eq_true_eq]
  constructor
  · rintro ⟨it, ⟨pushed, commit⟩, own⟩
    exact ⟨it.entry, ⟨it, ⟨pushed, own⟩, rfl⟩, commit⟩
  · rintro ⟨_, ⟨it, ⟨pushed, own⟩, rfl⟩, commit⟩
    exact ⟨it, ⟨pushed, commit⟩, own⟩

theorem Operations.filter {id : UInt64} {es : List WalEntry} (h : Operations id es) :
    (es.filter fun e => !e.isMarker) = es := by
  rw [List.filter_eq_self]
  intro e he
  simp [(h e he).1]

theorem committedOps_push {it : Item} (push : w'.history = w.history ++ [it])
    (fresh : it.owner ∉ commitOrder w) : committedOps w' = committedOps w ++
      if it.entry.isCommit then (logged w it.owner).filter fun e => !e.isMarker else [] := by
  have old : ∀ i ∈ commitOrder w, ((logged w' i).filter fun e => !e.isMarker) = (logged w i).filter
      fun e => !e.isMarker := by
    intro i hi
    have other : it.owner ≠ i := fun same => fresh (same ▸ hi)
    rw [logged, logged, ownItems_push_other push other]
  have order : commitOrder w' = commitOrder w ++ if it.entry.isCommit then [it.owner] else [] := by
    rw [commitOrder, push, List.filter_append, List.map_append, commitOrder]
    cases commit : it.entry.isCommit <;> simp [commit]
  rw [committedOps, order, List.flatMap_append, List.flatMap_congr old]
  cases commit : it.entry.isCommit with
  | false => rfl
  | true => simp [committedOps, logged, ownItems_push push, WalEntry.isMarker_of_isCommit commit]

theorem not_committed {id : UInt64} {es : List WalEntry} (operations : Operations id es)
    (log : logged w i = es) : i ∉ commitOrder w := by
  rw [mem_commitOrder]
  rintro ⟨e, he, commit⟩
  have op := (operations e (log ▸ he)).1
  rw [WalEntry.isMarker_of_isCommit commit] at op
  cases op

theorem committed_of_log {tx : Transaction} {es : List WalEntry} {now : UInt64}
    (log : logged w i = es ++ [.commit tx.id now]) : i ∈ commitOrder w :=
  mem_commitOrder.mpr ⟨.commit tx.id now, by rw [log]; simp, rfl⟩

theorem committed_stage {prog : Prog} (ok : TaskLogged w i ⟨call, prog⟩)
    (idle : prog.committing = false)
    (mem : i ∈ commitOrder w) : ∃ tx result, prog = .transaction tx (.returned result) ∧
      tx.state = .committed ∧
      ownItems w i ⊆ w.acked ∧ ∃ now, logged w i = tx.entries ++ [.commit tx.id now] := by
  obtain ⟨e, he, commit⟩ := mem_commitOrder.mp mem
  cases prog with
  | transaction tx stage =>
    obtain ⟨operations, log, _⟩ := ok
    have no_op : ∀ {ops : List WalEntry}, Operations tx.id ops → e ∉ ops := by
      intro ops only he
      have op := (only e he).1
      rw [WalEntry.isMarker_of_isCommit commit] at op
      cases op
    have no_abort : ∀ {ops : List WalEntry} {now : UInt64}, Operations tx.id ops →
        e ∉ ops ++ [.abort tx.id now] := by
      intro ops now only he
      rcases List.mem_append.mp he with op | last
      · exact no_op only op
      · rw [List.mem_singleton.mp last] at commit
        cases commit
    cases stage with
    | commitAppend | commitLogged | commitFlush | applying => cases idle
    | active | dropped => exact absurd (log.2.2 ▸ he) (no_op operations)
    | appending =>
      obtain ⟨_, pre, e', pc, _, entries, same⟩ := log
      rw [same] at he
      refine absurd ?_ (no_op operations)
      rw [entries]
      split at he
      · exact he
      · exact List.mem_append_left _ (by simpa using he)
    | abortAppend =>
      obtain ⟨_, now, pc, _, same⟩ := log
      rw [same] at he
      split at he
      · exact absurd he (no_abort operations)
      · exact absurd (by simpa using he) (no_op operations)
    | abortLogged | abortFlush =>
      obtain ⟨_, _, now, same⟩ := log
      exact absurd (same ▸ he) (no_abort operations)
    | returned result =>
      rcases log.2 with ⟨state, acked, done⟩ | ⟨_, ops, now, only, same⟩
      · exact ⟨tx, result, rfl, state, acked, done⟩
      · exact absurd (same ▸ he) (no_abort only)
  | flusher | storeHandle | stopFlusher | flushCaller | checkpoint =>
    rw [logged, ok.1] at he
    cases he

theorem commitOrder_nodup (logs : TxLogs σ) : (commitOrder σ.shared.wal).Nodup := by
  rw [List.nodup_iff_count_le_one]
  intro i
  have counted : (commitOrder σ.shared.wal).count i =
      ((logged σ.shared.wal i).filter WalEntry.isCommit).length := by
    simp only [commitOrder, logged, ownItems, List.count, List.countP_eq_length_filter,
      List.filter_filter, List.filter_map, List.length_map]
    congr 1
    refine List.filter_congr fun it _ => ?_
    simp [Bool.and_comm, beq_eq_decide]
  rw [counted]
  by_cases none_own : logged σ.shared.wal i = []
  · simp [none_own]
  · have some_own : ownItems σ.shared.wal i ≠ [] := fun empty =>
      none_own (by rw [logged, empty]; rfl)
    obtain ⟨it, hit⟩ := List.exists_mem_of_ne_nil _ some_own
    obtain ⟨pushed, own⟩ := List.mem_filter.mp hit
    have own : it.owner = i := by simpa using own
    have bound := logs.owners it pushed
    rw [own] at bound
    have ok := logs.tasks i _ (List.getElem?_eq_getElem bound)
    generalize σ.tasks[i] = t at ok
    obtain ⟨call, prog⟩ := t
    cases prog with
    | transaction tx stage =>
      obtain ⟨ops, ends, same, only, marker⟩ := txLogged_shape ok.1 ok.2.1
      have none_early : ops.filter WalEntry.isCommit = [] := by
        rw [List.filter_eq_nil_iff]
        intro e he commit
        have op := (only e he).1
        rw [WalEntry.isMarker_of_isCommit commit] at op
        cases op
      rw [same, List.filter_append, none_early]
      rcases marker with rfl | ⟨now, rfl⟩ | ⟨now, rfl, _⟩ <;>
        exact (List.length_filter_le _ _).trans (by simp)
    | flusher | storeHandle | stopFlusher | flushCaller | checkpoint => exact absurd ok.1 some_own

end Pushes

section Step

theorem call_owed {prog : Prog} (runs : Runs crates i w c w' call)
    (ok : TaskLogged w i ⟨some c, prog⟩) :
    (if call.isSome then prog else prog.returned (.ok ())).committing = prog.committing ∧
      ((committedOps w' = committedOps w ∧
          Task.owed ⟨call, if call.isSome then prog else prog.returned (.ok ())⟩ =
            Task.owed ⟨some c, prog⟩) ∨
        (prog.committing = true ∧ Task.owed ⟨some c, prog⟩ = [] ∧
          committedOps w' = committedOps w ++
          Task.owed ⟨call, if call.isSome then prog else prog.returned (.ok ())⟩)) := by
  cases prog with
  | transaction tx stage =>
    obtain ⟨operations, stageOk, _⟩ := ok
    cases stage with
    | active | commitLogged | applying | abortLogged | returned | dropped => cases stageOk.1
    | appending =>
      obtain ⟨_, pre, e, pc, same, entries, log⟩ := stageOk
      cases same
      rcases append_runs runs with ⟨pc', rfl, _, _, same⟩ | ⟨it, rfl, rfl, rfl, rfl, push, _⟩
        | ⟨it, rfl, rfl, same, _⟩
      · exact ⟨rfl, .inl ⟨committedOps_congr same, rfl⟩⟩
      · have op := operations it.entry (by rw [entries]; simp)
        have no_commit : it.entry.isCommit = false := by
          cases commit : it.entry.isCommit with
          | false => rfl
          | true => rw [WalEntry.isMarker_of_isCommit commit] at op; cases op.1
        have before : Operations tx.id pre := fun e he => operations e (by rw [entries]; simp [he])
        have fresh : it.owner ∉ commitOrder w :=
          not_committed before (by simpa [AppendPc.pushed] using log)
        exact ⟨rfl, .inl ⟨by simpa [no_commit] using committedOps_push push fresh, rfl⟩⟩
      · exact ⟨rfl, .inl ⟨committedOps_congr same, rfl⟩⟩
    | commitAppend =>
      obtain ⟨_, now, pc, same, log⟩ := stageOk
      cases same
      rcases append_runs runs with ⟨pc', rfl, no, no', same⟩ | ⟨it, rfl, rfl, commit, rfl, push, _⟩
        | ⟨it, rfl, rfl, same, _⟩
      · exact ⟨rfl, .inl ⟨committedOps_congr same, by simp [Task.owed, no, no']⟩⟩
      · have log : logged w it.owner = tx.entries := by simpa [AppendPc.pushed] using log
        have fresh := not_committed operations log
        refine ⟨rfl, .inr ⟨rfl, rfl, ?_⟩⟩
        simpa [commit, WalEntry.isCommit, log, operations.filter, Task.owed, AppendPc.pushed]
          using committedOps_push push fresh
      · exact ⟨rfl, .inl ⟨committedOps_congr same, rfl⟩⟩
    | abortAppend =>
      obtain ⟨_, now, pc, same, log⟩ := stageOk
      cases same
      rcases append_runs runs with ⟨pc', rfl, _, _, same⟩ | ⟨it, rfl, rfl, abort, rfl, push, _⟩
        | ⟨it, rfl, rfl, same, _⟩
      · exact ⟨rfl, .inl ⟨committedOps_congr same, rfl⟩⟩
      · have fresh : it.owner ∉ commitOrder w :=
          not_committed operations (by simpa [AppendPc.pushed] using log)
        exact ⟨rfl,
          .inl ⟨by simpa [abort, WalEntry.isCommit] using committedOps_push push fresh, rfl⟩⟩
      · exact ⟨rfl, .inl ⟨committedOps_congr same, rfl⟩⟩
    | commitFlush =>
      obtain ⟨_, ⟨_, before, same, flushing, _⟩, _⟩ := stageOk
      cases same
      obtain ⟨same, ⟨c', rfl, _⟩ | ⟨rfl, _⟩⟩ := flush_runs runs flushing <;>
        exact ⟨rfl, .inl ⟨committedOps_congr same, rfl⟩⟩
    | abortFlush =>
      obtain ⟨_, ⟨_, before, same, flushing⟩, _⟩ := stageOk
      cases same
      obtain ⟨same, ⟨c', rfl, _⟩ | ⟨rfl, _⟩⟩ := flush_runs runs flushing <;>
        exact ⟨rfl, .inl ⟨committedOps_congr same, rfl⟩⟩
  | flusher stage =>
    obtain ⟨same, _⟩ := other_runs runs fun e pc same => ok.2 e pc (congrArg some same)
    cases call with
    | some c' => exact ⟨rfl, .inl ⟨committedOps_congr same, rfl⟩⟩
    | none => cases stage <;> exact ⟨rfl, .inl ⟨committedOps_congr same, rfl⟩⟩
  | storeHandle | stopFlusher | flushCaller | checkpoint =>
    obtain ⟨same, _⟩ := other_runs runs fun e pc same => ok.2 e pc (congrArg some same)
    cases call <;> exact ⟨rfl, .inl ⟨committedOps_congr same, rfl⟩⟩

theorem own_owed {m : Move} {prog : Prog} {t' : Task} (runs : OwnRuns crates i s m prog s' t')
    (ok : TaskLogged s.wal i ⟨none, prog⟩)
    (steady : m = .interrupt → ∀ tx stage, prog ≠ .transaction tx stage)
    (applies : m = .proceed → ∀ tx op rest, prog = .transaction tx (.applying (op :: rest)) →
      (applyToStore s.mem.store op).isOk = true) :
    (t'.prog.committing = true → prog.committing = true ∨ ∃ now, m = .commit now) ∧
      ((s'.applied = s.applied ∧ t'.owed = Task.owed ⟨none, prog⟩) ∨
        ∃ tx op rest, prog = .transaction tx (.applying (op :: rest)) ∧
          t' = ⟨none, .transaction tx (.applying rest)⟩ ∧
          s'.applied = s.applied ++ [(i, op)]) := by
  cases runs with
  | commit => exact ⟨fun _ => .inr ⟨_, rfl⟩, .inl ⟨rfl, rfl⟩⟩
  | notActive state => exact absurd ok.2.1.2.1 state
  | commitFlush => exact ⟨fun _ => .inl rfl, .inl ⟨rfl, rfl⟩⟩
  | apply => exact ⟨fun _ => .inl rfl, .inr ⟨_, _, _, rfl, rfl, rfl⟩⟩
  | applyFails unlocked failed =>
    have succeeds := applies rfl _ _ _ rfl
    rw [failed] at succeeds
    cases succeeds
  | cancel => exact absurd rfl (steady rfl _ _)
  | control shutdown handle exited before after log appends =>
    refine ⟨fun busy => ?_, .inl ⟨rfl, (owed_committing (control_committing after)).trans
      (owed_committing (t := ⟨none, prog⟩) (control_committing before)).symm⟩⟩
    rw [control_committing after] at busy
    cases busy
  | ckpt moved =>
    obtain ⟨stage', rfl, ran⟩ := ckptMove_runs moved
    cases ran <;> exact ⟨fun busy => Bool.noConfusion busy, .inl ⟨rfl, rfl⟩⟩
  | refused | append | abort | discard | abortFlush | done =>
    exact ⟨fun busy => Bool.noConfusion busy, .inl ⟨rfl, rfl⟩⟩

structure CommitsInOrder (σ : SystemConfig) : Prop where
  alone : ∀ (i j : Nat) (t u : Task), σ.tasks[i]? = some t → σ.tasks[j]? = some u →
    t.prog.committing = true →
    u.prog.committing = true → i = j
  applied : appliedOps σ.shared ++ owedOps σ = committedOps σ.shared.wal

theorem CommitsInOrder.owed_alone (ok : CommitsInOrder σ) {t : Task} (slot : σ.tasks[i]? = some t)
    (busy : t.prog.committing = true) : ∀ (j : Nat) (u : Task), j ≠ i → σ.tasks[j]? = some u →
      u.owed = [] := by
  intro j u other at_j
  cases idle : u.prog.committing with
  | false => exact owed_committing idle
  | true => exact absurd (ok.alone j i u t at_j slot idle busy) other

theorem owedOps_set (slot : σ.tasks[i]? = some ⟨call, prog⟩) {s : System} {t' : Task}
    (same : t'.owed = Task.owed ⟨call, prog⟩) : owedOps ⟨s, σ.tasks.set i t'⟩ = owedOps σ := by
  simp only [owedOps, List.flatMap_def, map_set_same slot same]

theorem CommitsInOrder.owed_busy (ok : CommitsInOrder σ) {t : Task} (slot : σ.tasks[i]? = some t)
    (busy : t.prog.committing = true) :
    owedOps σ = t.owed ∧ ∀ (s : System) (t' : Task), owedOps ⟨s, σ.tasks.set i t'⟩ = t'.owed := by
  obtain ⟨bound, value⟩ := List.getElem?_eq_some_iff.mp slot
  have alone := flatMap_set_alone bound (ok.owed_alone slot busy)
  refine ⟨?_, fun s t' => alone t'⟩
  have back := alone t
  rw [← value, List.set_getElem_self] at back
  rw [owedOps, back, value]

theorem alone_set (ok : CommitsInOrder σ) {t t' : Task} (slot : σ.tasks[i]? = some t)
    (start : t'.prog.committing = true → t.prog.committing = true ∨ CommitIdle σ) :
    ∀ (j k : Nat) (u v : Task), (σ.tasks.set i t')[j]? = some u → (σ.tasks.set i t')[k]? = some v →
      u.prog.committing = true → v.prog.committing = true → j = k := by
  intro j k u v hj hk hu hv
  have clash : ∀ {k : Nat} {v : Task}, k ≠ i → σ.tasks[k]? = some v → v.prog.committing = true →
      t'.prog.committing = true → False := by
    intro k v other old hv busy
    rcases start busy with before | idle
    · exact other (ok.alone k i v t old slot hv before)
    · rw [idle v (List.mem_of_getElem? old)] at hv; cases hv
  rcases getElem?_set_cases hj with ⟨rfl, rfl, _⟩ | ⟨other, old⟩ <;>
    rcases getElem?_set_cases hk with ⟨rfl, rfl, _⟩ | ⟨other', old'⟩
  · rfl
  · exact (clash other' old' hv hu).elim
  · exact (clash other old hu hv).elim
  · exact ok.alone j k u v old old' hu hv

theorem commitsInOrder_step (ok : CommitsInOrder σ) (logs : TxLogs σ)
    (step : SystemStep crates σ a σ')
    (faultless : SystemFaultless σ a) (serial : OneByOne σ a) (applies : CommitsApply σ a) :
    CommitsInOrder σ' := by
  have spawned : ∀ (s : System) (t : Task), t.prog.committing = false →
    s.applied = σ.shared.applied →
      s.wal = σ.shared.wal → CommitsInOrder ⟨s, σ.tasks ++ [t]⟩ := by
    intro s t idle applied wal
    refine ⟨fun j k u v hj hk hu hv => ?_, ?_⟩
    · rcases getElem?_append_one hj with old | ⟨_, rfl⟩
      · rcases getElem?_append_one hk with old' | ⟨_, rfl⟩
        · exact ok.alone j k u v old old' hu hv
        · rw [idle] at hv; cases hv
      · rw [idle] at hu; cases hu
    · simpa [appliedOps, owedOps, owed_committing idle, applied, wal] using ok.applied
  cases step with
  | begin => exact spawned _ _ rfl rfl rfl
  | spawn other =>
    refine spawned _ _ ?_ rfl rfl
    rcases other with control | ⟨_, rfl⟩
    · exact control_committing control
    · rfl
  | @call i c prog w call slot runs =>
    obtain ⟨busy, out⟩ := call_owed runs (logs.tasks i _ slot)
    refine ⟨alone_set ok slot fun h => .inl (busy ▸ h), ?_⟩
    change appliedOps σ.shared ++ owedOps _ = committedOps w
    rcases out with ⟨same, owed⟩ | ⟨committing, none_owed, push⟩
    · rw [owedOps_set slot owed, same]
      exact ok.applied
    · obtain ⟨before, after⟩ := ok.owed_busy slot committing
      have applied := ok.applied
      rw [before, none_owed, List.append_nil] at applied
      rw [after, push, ← applied]
  | @fault i c k prog prog' slot fallible stops after =>
    cases k with
    | run => exact absurd rfl stops
    | fail | drop => exact faultless.elim
  | @own i m prog s' t' slot other runs =>
    have steady : m = .interrupt → ∀ tx stage, prog ≠ .transaction tx stage := by
      rintro rfl tx stage rfl
      exact faultless _ _ _ slot
    have succeed : m = .proceed → ∀ tx op rest, prog = .transaction tx (.applying (op :: rest)) →
        (applyToStore σ.shared.mem.store op).isOk = true := by
      rintro rfl tx op rest rfl
      simpa [CommitsApply, slot] using applies
    have same := committedOps_congr (logMove_records runs.log).1
    obtain ⟨busy, out⟩ := own_owed runs (logs.tasks i _ slot) steady succeed
    refine ⟨alone_set ok slot fun h => (busy h).imp_right ?_, ?_⟩
    · rintro ⟨now, rfl⟩
      exact serial
    · change appliedOps s' ++ owedOps _ = committedOps s'.wal
      rw [same]
      rcases out with ⟨applied, owed⟩ | ⟨tx, op, rest, rfl, rfl, applied⟩
      · rw [owedOps_set slot owed, appliedOps, applied]
        exact ok.applied
      · obtain ⟨before, after⟩ := ok.owed_busy slot rfl
        have all := ok.applied
        rw [before] at all
        rw [after, appliedOps, applied, ← all]
        simp [appliedOps, Task.owed]

theorem commitsInOrder_run {guard : SystemConfig → SystemAction → Prop} {m : Nat}
    {path : String} {base : Bytes} {ckpt : Option (List Char)} {mem : Memory}
    (assumed : ∀ σ a, guard σ a → SystemFaultless σ a ∧ OneByOne σ a ∧ CommitsApply σ a)
    (run : (systemProtocol crates).Reaches guard (System.start m path base ckpt mem) σ) :
    CommitsInOrder σ := by
  refine run.invariant_with (J := TxLogs)
    (fun τ reached => txLogs_run (fun σ a ok => (assumed σ a ok).1) reached)
    ⟨fun j k u v hj hk hu _ => ?_, rfl⟩ ?_
  · rcases start_slot hj with rfl | rfl <;> cases hu
  · intro τ a τ' logs _ ok guarded taken
    obtain ⟨faultless, serial, applies⟩ := assumed τ a guarded
    exact commitsInOrder_step ok logs (system_step_cases taken) faultless serial applies

theorem CommitsInOrder.idle (ok : CommitsInOrder σ) (idle : CommitIdle σ) :
    appliedOps σ.shared = committedOps σ.shared.wal := by
  have none_owed : owedOps σ = [] := List.flatMap_eq_nil_iff.mpr fun t ht =>
    owed_committing (idle t ht)
  rw [← ok.applied, none_owed, List.append_nil]

end Step

section Store

/-- Runs without checkpoints, in which only commits write the store. -/
def NoCheckpoint : SystemAction → Prop
  | .spawn .checkpoint => False
  | _ => True

instance : DecidablePred NoCheckpoint := fun a => by
  unfold NoCheckpoint
  split <;> infer_instance

def Prog.isCheckpoint : Prog → Bool
  | .checkpoint _ => true
  | _ => false

theorem returned_isCheckpoint (result : Except WalError Unit) (prog : Prog) :
    (prog.returned result).isCheckpoint = prog.isCheckpoint := by
  cases prog with
  | transaction tx stage => cases stage <;> cases result <;> rfl
  | flusher stage => cases stage <;> rfl
  | storeHandle | stopFlusher | flushCaller | checkpoint => rfl

theorem dropped_isCheckpoint (prog : Prog) : prog.dropped.isCheckpoint = prog.isCheckpoint := by
  cases prog with
  | transaction tx stage => cases stage <;> rfl
  | flusher | storeHandle | stopFlusher | flushCaller | checkpoint => rfl

theorem own_isCheckpoint {m : Move} {prog : Prog} {t' : Task}
    (runs : OwnRuns crates i s m prog s' t') : t'.prog.isCheckpoint = prog.isCheckpoint := by
  cases runs with
  | @control m prog w call prog' locked shutdown handle exited before after log appends =>
    cases prog <;> cases prog' <;> first | rfl | cases before <;> cases after
  | ckpt moved =>
    obtain ⟨stage', rfl, _⟩ := ckptMove_runs moved
    rfl
  | refused | append | commit | abort | notActive | discard | commitFlush | abortFlush | done
  | apply | applyFails | cancel =>
    rfl

theorem applied_step (step : SystemStep crates σ a σ')
    (idle : ∀ t ∈ σ.tasks, t.prog.isCheckpoint = false) (absent : NoCheckpoint a) :
    (∀ t ∈ σ'.tasks, t.prog.isCheckpoint = false) ∧
      ((σ'.shared.applied = σ.shared.applied ∧ σ'.shared.mem.store = σ.shared.mem.store) ∨
        ∃ i op, σ'.shared.applied = σ.shared.applied ++ [(i, op)] ∧
          applyToStore σ.shared.mem.store op = .ok σ'.shared.mem.store) := by
  have moved : ∀ {i : Nat} {t t' : Task}, σ.tasks[i]? = some t →
    t'.prog.isCheckpoint = t.prog.isCheckpoint →
      ∀ u ∈ σ.tasks.set i t', u.prog.isCheckpoint = false := by
    intro i t t' slot same u hu
    rcases List.mem_or_eq_of_mem_set hu with old | rfl
    · exact idle u old
    · exact same.trans (idle t (List.mem_of_getElem? slot))
  have spawned : ∀ {t : Task}, t.prog.isCheckpoint = false → ∀ u ∈ σ.tasks ++ [t],
      u.prog.isCheckpoint = false := by
    intro t new u hu
    rcases List.mem_append.mp hu with old | own
    · exact idle u old
    · cases List.mem_singleton.mp own
      exact new
  cases step with
  | begin => exact ⟨spawned rfl, .inl ⟨rfl, rfl⟩⟩
  | @spawn k prog other =>
    rcases other with control | ⟨rfl, rfl⟩
    · refine ⟨spawned ?_, .inl ⟨rfl, rfl⟩⟩
      cases prog with
      | transaction | checkpoint => cases control
      | flusher | storeHandle | stopFlusher | flushCaller => rfl
    · exact absent.elim
  | @call i c prog w call slot runs =>
    refine ⟨moved slot ?_, .inl ⟨rfl, rfl⟩⟩
    cases call
    · exact returned_isCheckpoint (.ok ()) prog
    · rfl
  | @fault i c k prog prog' slot fallible stops after =>
    refine ⟨moved slot ?_, .inl ⟨rfl, rfl⟩⟩
    rcases after with rfl | ⟨e, rfl⟩
    · exact dropped_isCheckpoint prog
    · exact returned_isCheckpoint (.error e) prog
  | @own i m prog s' t' slot other runs =>
    refine ⟨moved slot (own_isCheckpoint runs), ?_⟩
    cases runs with
    | apply unlocked applied => exact .inr ⟨i, _, rfl, applied⟩
    | ckpt moved => exact absurd (idle _ (List.mem_of_getElem? slot)) (by simp [Prog.isCheckpoint])
    | refused | append | commit | abort | notActive | discard | commitFlush | abortFlush | done
    | applyFails | cancel
    | control => exact .inl ⟨rfl, rfl⟩

theorem applied_run {guard : SystemConfig → SystemAction → Prop} {m : Nat}
    {path : String} {base : Bytes}
    {ckpt : Option (List Char)} {mem : Memory} (absent : ∀ σ a, guard σ a → NoCheckpoint a)
    (run : (systemProtocol crates).Reaches guard (System.start m path base ckpt mem) σ) :
    performAll WalEntry.key WalEntry.act mem.store (appliedOps σ.shared) =
      some σ.shared.mem.store := by
  have both : (∀ t ∈ σ.tasks, t.prog.isCheckpoint = false) ∧
      performAll WalEntry.key WalEntry.act mem.store (appliedOps σ.shared) =
        some σ.shared.mem.store := by
    apply run.invariant (I := fun σ => (∀ t ∈ σ.tasks, t.prog.isCheckpoint = false) ∧
      performAll WalEntry.key WalEntry.act mem.store (appliedOps σ.shared) =
        some σ.shared.mem.store)
    · exact ⟨by simp [System.start, Prog.isCheckpoint], rfl⟩
    · rintro τ a τ' ⟨idle, all⟩ guarded taken
      obtain ⟨idle', ⟨same, store⟩ | ⟨i, op, applied, store⟩⟩ :=
        applied_step (system_step_cases taken) idle (absent _ _ guarded)
      · exact ⟨idle', by rw [appliedOps, same, store]; exact all⟩
      · refine ⟨idle', ?_⟩
        rw [appliedOps, applied, List.map_append, performAll_append]
        change (performAll _ _ _ (appliedOps τ.shared)).bind _ = _
        rw [all]
        simp [performAll, applyToStore_perform store]
  exact both.2

theorem live_run {guard : SystemConfig → SystemAction → Prop} {m : Nat}
    {path : String} {base : Bytes}
    {ckpt : Option (List Char)} {mem : Memory} (absent : ∀ σ a, guard σ a → NoCheckpoint a)
    (run : (systemProtocol crates).Reaches guard (System.start m path base ckpt mem) σ) :
    σ.shared.mem.store = applyAll mem.store ((appliedOps σ.shared).filterMap WalEntry.write?) :=
  performAll_store (applied_run absent run)

end Store

end AsyncWalDb
