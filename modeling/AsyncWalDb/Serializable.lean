import AsyncWalDb.Acknowledged
import AsyncWalDb.Commits
import Mathlib.Data.List.Permutation

/-! Overlapping commits take the lock of the store for one operation at a time. The store is that of
a serial execution when the operations on every key come in one order of the transactions. -/
namespace AsyncWalDb

open Interleaving KeyedWrites

def appliedBy (s : System) (i : Nat) : List WalEntry :=
  (s.applied.filter fun a => a.1 = i).map Prod.snd

def operationsOf (σ : SystemConfig) (i : Nat) : List WalEntry :=
  match σ.tasks[i]? with
  | some ⟨_, .transaction tx _⟩ => tx.entries
  | _ => []

/-- Some order of the committed transactions, applied whole
one after another, gives the live store. -/
def Serializable (store : Store) (σ : SystemConfig) : Prop :=
  ∃ order : List Nat, order.Perm (commitOrder σ.shared.wal) ∧
    applyEntries store (order.flatMap (operationsOf σ)) = (.ok (), σ.shared.mem.store)

/-- An operation is applied only when no transaction later in
the order has applied one to its key. -/
def ConflictsFollow (order : List Nat) (σ : SystemConfig) : SystemAction → Prop
  | .move i .proceed =>
    match σ.tasks[i]? with
    | some ⟨none, .transaction _ (.applying (op :: _))⟩ =>
      ∀ a ∈ σ.shared.applied, a.2.key = op.key → order.idxOf a.1 ≤ order.idxOf i
    | _ => True
  | _ => True

instance (order : List Nat) (σ : SystemConfig) (a : SystemAction) :
    Decidable (ConflictsFollow order σ a) := by
  unfold ConflictsFollow
  rcases a with _ | ⟨i, _ | _ | _ | _ | _ | _ | _ | _ | _ | _⟩
  case move.proceed =>
    dsimp only
    rcases σ.tasks[i]? with _ | ⟨_ | _, ⟨_, _ | _ | _ | _ | _ | (_ | _) | _ | _ | _ | _ | _⟩ | _ | _
      | _ | _ | _⟩ <;> infer_instance
  all_goals infer_instance

variable {crates : Crates} {i j : Nat} {s s' : System} {σ σ' : SystemConfig} {a : SystemAction}

def Prog.failed : Prog → Bool
  | .transaction _ (.returned (.error _)) => true
  | _ => false

def CommitsOk (σ : SystemConfig) : Prop := CommitIdle σ ∧ ∀ t ∈ σ.tasks, t.prog.failed = false

instance (σ : SystemConfig) : Decidable (CommitsOk σ) := by
  unfold CommitsOk
  infer_instance

section Applied

def TaskApplied (s : System) (i : Nat) : Prog → Prop
  | .transaction tx (.applying rest) => appliedBy s i ++ rest = tx.entries
  | .transaction tx (.returned (.ok ())) =>
    appliedBy s i = tx.entries ∧ (tx.state = .aborted → tx.entries = [])
  | .transaction _ (.returned (.error _)) => True
  | _ => appliedBy s i = []

theorem taskApplied_congr {prog : Prog} (same : appliedBy s' i = appliedBy s i)
    (h : TaskApplied s i prog) : TaskApplied s' i prog := by
  cases prog with
  | transaction tx stage =>
    cases stage with
    | returned result =>
      cases result with
      | ok => simpa only [TaskApplied, same] using h
      | error => trivial
    | active | appending | commitAppend | commitLogged | commitFlush | applying | abortAppend
    | abortLogged | abortFlush
    | dropped => simpa only [TaskApplied, same] using h
  | flusher | storeHandle | stopFlusher | flushCaller | checkpoint => exact same.trans h

theorem returned_taskApplied {prog : Prog} (h : TaskApplied s i prog) :
    TaskApplied s i (prog.returned (.ok ())) := by
  cases prog with
  | transaction tx stage =>
    cases stage with
    | commitFlush => exact (congrArg (· ++ tx.entries) h).trans (List.nil_append _)
    | abortFlush => exact ⟨h, fun _ => rfl⟩
    | active | appending | commitAppend | commitLogged | applying | abortAppend | abortLogged
    | returned | dropped => exact h
  | flusher stage => cases stage <;> exact h
  | storeHandle | stopFlusher | flushCaller | checkpoint => exact h

theorem own_taskApplied {m : Move} {prog : Prog} {t' : Task}
    (runs : OwnRuns crates i s m prog s' t') (ok : TaskLogged s.wal i ⟨none, prog⟩)
    (steady : m = .interrupt → ∀ tx stage, prog ≠ .transaction tx stage)
    (h : TaskApplied s i prog) : TaskApplied s' i t'.prog := by
  cases runs with
  | @apply tx op rest store unlocked applied =>
    have more :
        appliedBy { s with
          mem := { s.mem with store := store }, applied := s.applied ++ [(i, op)] } i =
        appliedBy s i ++ [op] := by simp [appliedBy]
    change _ ++ rest = tx.entries
    rw [more, List.append_assoc]
    exact h
  | done =>
    have committed := ok.2.1.2.1
    exact ⟨(List.append_nil _).symm.trans h,
      fun aborted => by rw [committed] at aborted; cases aborted⟩
  | cancel => exact absurd rfl (steady rfl _ _)
  | @control m prog w call prog' locked shutdown handle exited before after log appends =>
    cases prog <;> cases prog' <;> first | exact h | cases before <;> cases after
  | ckpt moved =>
    obtain ⟨stage', rfl, ran⟩ := ckptMove_runs moved
    cases ran <;> exact h
  | notActive | applyFails => trivial
  | refused | append | commit | abort | discard | commitFlush | abortFlush => exact h

structure AppliedByTasks (σ : SystemConfig) : Prop where
  owners : ∀ a ∈ σ.shared.applied, a.1 < σ.tasks.length
  tasks : ∀ (i : Nat) (t : Task), σ.tasks[i]? = some t → TaskApplied σ.shared i t.prog

theorem own_applied {m : Move} {prog : Prog} {t' : Task} (runs : OwnRuns crates i s m prog s' t') :
    s'.applied = s.applied ∨ ∃ op, s'.applied = s.applied ++ [(i, op)] := by
  cases runs with
  | apply => exact .inr ⟨_, rfl⟩
  | ckpt moved =>
    obtain ⟨stage', rfl, ran⟩ := ckptMove_runs moved
    cases ran <;> exact .inl rfl
  | refused | append | commit | abort | notActive | discard | commitFlush | abortFlush | done
  | applyFails | cancel | control =>
    exact .inl rfl

theorem appliedByTasks_step (ok : AppliedByTasks σ) (logs : TxLogs σ)
    (step : SystemStep crates σ a σ') (faultless : SystemFaultless σ a) : AppliedByTasks σ' := by
  have spawned : ∀ (s : System) (t : Task), s.applied = σ.shared.applied →
    (appliedBy s σ.tasks.length = [] →
      TaskApplied s σ.tasks.length t.prog) → AppliedByTasks ⟨s, σ.tasks ++ [t]⟩ := by
    intro s t same new
    refine ⟨fun a ha => ?_, fun j u hj => ?_⟩
    · have bound := ok.owners a (same ▸ ha)
      simp
      omega
    · rcases getElem?_append_one hj with old | ⟨rfl, rfl⟩
      · exact taskApplied_congr (by rw [appliedBy, appliedBy, same]) (ok.tasks j u old)
      · apply new
        rw [appliedBy, same, List.map_eq_nil_iff, List.filter_eq_nil_iff]
        intro a ha
        have bound := ok.owners a ha
        simp
        omega
  cases step with
  | begin => exact spawned _ _ rfl fun none_applied => none_applied
  | @spawn k prog other =>
    refine spawned _ _ rfl fun none_applied => ?_
    rcases other with control | ⟨_, rfl⟩
    · cases prog with
      | transaction | checkpoint => cases control
      | flusher | storeHandle | stopFlusher | flushCaller => exact none_applied
    · exact none_applied
  | @call i c prog w call slot runs =>
    refine ⟨fun a ha => by rw [List.length_set]; exact ok.owners a ha, fun j u hj => ?_⟩
    rcases getElem?_set_cases hj with ⟨rfl, rfl, _⟩ | ⟨_, old⟩
    · have before := ok.tasks j _ slot
      cases call with
      | some c' => exact taskApplied_congr rfl before
      | none => exact taskApplied_congr rfl (returned_taskApplied before)
    · exact taskApplied_congr rfl (ok.tasks j u old)
  | @fault i c k prog prog' slot fallible stops after =>
    cases k with
    | run => exact absurd rfl stops
    | fail | drop => exact faultless.elim
  | @own i m prog s' t' slot other runs =>
    have steady : m = .interrupt → ∀ tx stage, prog ≠ .transaction tx stage := by
      rintro rfl tx stage rfl
      exact faultless _ _ _ slot
    have grows := own_applied runs
    refine ⟨fun a ha => ?_, fun j u hj => ?_⟩
    · rw [List.length_set]
      rcases grows with same | ⟨op, more⟩
      · exact ok.owners a (same ▸ ha)
      · change a ∈ s'.applied at ha
        rw [more] at ha
        rcases List.mem_append.mp ha with old | new
        · exact ok.owners a old
        · cases List.mem_singleton.mp new
          exact (List.getElem?_eq_some_iff.mp slot).1
    · rcases getElem?_set_cases hj with ⟨rfl, rfl, _⟩ | ⟨other, old⟩
      · exact own_taskApplied runs (logs.tasks j _ slot) steady (ok.tasks j _ slot)
      · refine taskApplied_congr ?_ (ok.tasks j u old)
        rcases grows with same | ⟨op, more⟩
        · rw [appliedBy, appliedBy, same]
        · rw [appliedBy, appliedBy, more]
          simp [Ne.symm other]

theorem appliedByTasks_run {guard : SystemConfig → SystemAction → Prop} {m : Nat}
    {path : String} {base : Bytes}
    {ckpt : Option (List Char)} {mem : Memory} (faultless : ∀ σ a, guard σ a → SystemFaultless σ a)
    (run : (systemProtocol crates).Reaches guard (System.start m path base ckpt mem) σ) :
    AppliedByTasks σ := by
  refine run.invariant_with (J := TxLogs) (fun τ reached => txLogs_run faultless reached)
    ⟨fun a ha => absurd ha List.not_mem_nil, fun j u hj => ?_⟩ ?_
  · rcases start_slot hj with rfl | rfl <;> rfl
  · intro τ a τ' logs _ ok guarded taken
    exact appliedByTasks_step ok logs (system_step_cases taken) (faultless τ a guarded)

theorem appliedBy_returned (ok : AppliedByTasks σ) (logs : TxLogs σ) (returned : CommitsOk σ) :
    (∀ i ∈ commitOrder σ.shared.wal, appliedBy σ.shared i = operationsOf σ i) ∧
      ∀ a ∈ σ.shared.applied, a.1 ∈ commitOrder σ.shared.wal := by
  have each : ∀ (i : Nat) (t : Task), σ.tasks[i]? = some t →
      if i ∈ commitOrder σ.shared.wal then
        appliedBy σ.shared i = operationsOf σ i
      else appliedBy σ.shared i = [] := by
    intro i t slot
    obtain ⟨call, prog⟩ := t
    have idle := returned.1 _ (List.mem_of_getElem? slot)
    have succeeded := returned.2 _ (List.mem_of_getElem? slot)
    have log := logs.tasks i _ slot
    have done := ok.tasks i _ slot
    split
    · rename_i mem
      obtain ⟨tx, result, rfl, _⟩ := committed_stage log idle mem
      cases result with
      | error e => cases succeeded
      | ok => simpa [operationsOf, slot] using done.1
    · rename_i absent
      cases prog with
      | transaction tx stage =>
        cases stage with
        | commitAppend | commitLogged | commitFlush | applying => cases idle
        | returned result =>
          cases result with
          | error e => cases succeeded
          | ok =>
            obtain ⟨_, ⟨_, ⟨_, _, now, same⟩ | ⟨aborted, _⟩⟩, _⟩ := log
            · exact absurd (committed_of_log same) absent
            · exact done.1.trans (done.2 aborted)
        | active | appending | abortAppend | abortLogged | abortFlush | dropped => exact done
      | flusher | storeHandle | stopFlusher | flushCaller | checkpoint => exact done
  have slotOf : ∀ i < σ.tasks.length, ∃ t, σ.tasks[i]? = some t := fun i bound =>
    ⟨_, List.getElem?_eq_getElem bound⟩
  refine ⟨fun i mem => ?_, fun a ha => ?_⟩
  · obtain ⟨it, hit, rfl⟩ := List.mem_map.mp mem
    obtain ⟨t, slot⟩ := slotOf it.owner (logs.owners it (List.mem_of_mem_filter hit))
    have out := each it.owner t slot
    rwa [if_pos mem] at out
  · obtain ⟨t, slot⟩ := slotOf a.1 (ok.owners a ha)
    have out := each a.1 t slot
    by_contra absent
    rw [if_neg absent] at out
    have mem : a.2 ∈ appliedBy σ.shared a.1 :=
      List.mem_map_of_mem (List.mem_filter.mpr ⟨ha, by simp⟩)
    rw [out] at mem
    cases mem

end Applied

section Conflicts

theorem conflictOrdered_step {order : List Nat} (step : SystemStep crates σ a σ')
    (follows : ConflictsFollow order σ a)
    (ok : ConflictOrdered WalEntry.key order σ.shared.applied) :
    ConflictOrdered WalEntry.key order σ'.shared.applied := by
  cases step with
  | begin | spawn | call | fault => exact ok
  | @own i m prog s' t' slot other runs =>
    cases runs with
    | @apply tx op rest store unlocked applied =>
      simp only [ConflictsFollow, slot] at follows
      refine List.pairwise_append.mpr ⟨ok, List.pairwise_singleton _ _, fun a ha b hb same => ?_⟩
      cases List.mem_singleton.mp hb
      exact follows a ha same
    | ckpt moved =>
      obtain ⟨stage', rfl, ran⟩ := ckptMove_runs moved
      cases ran <;> exact ok
    | refused | append | commit | abort | notActive | discard | commitFlush | abortFlush | done
    | applyFails | cancel
    | control => exact ok

variable {m : Nat} {path : String} {base : Bytes} {ckpt : Option (List Char)} {mem : Memory}

/-- In every run without faults and checkpoints whose conflicts
follow one order of the transactions, once their commits have
returned Ok the store is that of running them whole in this order. -/
theorem commits_serializable {order : List Nat}
    (run : (systemProtocol crates).Reaches
      (fun σ a => SystemNoFaultAnd (fun _ _ => True) σ a ∧ NoCheckpoint a ∧
        ConflictsFollow order σ a)
      (System.start m path base ckpt mem) σ)
    (returned : CommitsOk σ) (all : order.Perm (commitOrder σ.shared.wal)) :
    Serializable mem.store σ := by
  have logs : TxLogs σ := txLogs_run (fun _ _ ok => ok.1.faultless) run
  have tracked : AppliedByTasks σ := appliedByTasks_run (fun _ _ ok => ok.1.faultless) run
  have conflicts : ConflictOrdered WalEntry.key order σ.shared.applied := by
    apply run.invariant (I := fun σ => ConflictOrdered WalEntry.key order σ.shared.applied)
    · exact List.Pairwise.nil
    · intro τ a τ' ok guarded taken
      exact conflictOrdered_step (system_step_cases taken) guarded.2.2 ok
  obtain ⟨whole, covered⟩ := appliedBy_returned tracked logs returned
  have distinct : order.Nodup := all.nodup_iff.mpr (commitOrder_nodup logs)
  have live := applied_run (fun _ _ ok => ok.2.1) run
  refine ⟨order, all, applyEntries_ok_iff.mpr ?_⟩
  rw [← live, appliedOps, serial_of_conflictOrdered WalEntry.key WalEntry.act _ order _ distinct
    (fun a ha => all.mem_iff.mpr (covered a ha)) conflicts]
  congr 1
  exact List.flatMap_congr fun i hi => (whole i (all.mem_iff.mp hi)).symm

end Conflicts

def bothFlushed : List SystemAction :=
  [.spawn .transaction, .spawn .transaction] ++ insertInto "a" [1] 2 ++ insertInto "b" [1] 2 ++
    insertInto "a" [2] 3 ++
    insertInto "b" [2] 3 ++ [.move 2 (.commit 8)] ++ runs 2 4 ++ [.move 3 (.commit 9)] ++
      runs 3 4 ++ flusherRound 6 ++
    [.move 2 .proceed] ++ runs 2 3 ++ [.move 3 .proceed] ++ runs 3 3

def appliesIn (order : List Nat) : List SystemAction := bothFlushed ++ order.map fun i =>
    .move i .proceed

/-- The first transaction applies "a" first and "b" last. -/
def crossed : List SystemAction := appliesIn [2, 3, 3, 2, 2, 3]

def crossedEnd : SystemConfig :=
  ((systemProtocol (Bincode.crates true)).exec (fun σ a => SystemNoFaultAnd (fun _ _ => True) σ a ∧
    NoCheckpoint a)
    newDatabase crossed).get (by decide +kernel)

theorem serial_at {store : Store} {ops : List WalEntry}
    (serial : applyEntries store ops = (.ok (), σ.shared.mem.store))
    (key : String) : (applyEntries store ops).2 key = σ.shared.mem.store key := by rw [serial]

theorem crossed_not_serializable :
    ¬ ∀ (crates : Crates) (m : Nat) (path : String) (base : Bytes) (ckpt : Option (List Char))
      (mem : Memory)
      (σ : SystemConfig), (systemProtocol crates).Reaches
        (fun σ a => SystemNoFaultAnd (fun _ _ => True) σ a ∧ NoCheckpoint a)
        (System.start m path base ckpt mem) σ → CommitsOk σ → Serializable mem.store σ := by
  intro claim
  have reached : (systemProtocol (Bincode.crates true)).Reaches
      (fun σ a => SystemNoFaultAnd (fun _ _ => True) σ a ∧ NoCheckpoint a) newDatabase crossedEnd :=
    Protocol.reaches_exec crossed (by decide +kernel)
  obtain ⟨order, all, serial⟩ := claim _ _ _ _ _ _ _ reached (by decide +kernel)
  have serial : applyEntries (fun _ => none) (order.flatMap (operationsOf crossedEnd)) =
      (.ok (), crossedEnd.shared.mem.store) := serial
  have both : commitOrder crossedEnd.shared.wal = [2, 3] := by decide +kernel
  rw [both, List.perm_pair] at all
  -- whichever runs last leaves its own value under both keys
  rcases all with rfl | rfl
  · have differs : (applyEntries (fun _ => none) ([2, 3].flatMap (operationsOf crossedEnd))).2 "b" ≠
        crossedEnd.shared.mem.store "b" := by decide +kernel
    exact differs (serial_at serial "b")
  · have differs : (applyEntries (fun _ => none) ([3, 2].flatMap (operationsOf crossedEnd))).2 "a" ≠
        crossedEnd.shared.mem.store "a" := by decide +kernel
    exact differs (serial_at serial "a")

def alternating : List SystemAction := appliesIn [2, 3, 2, 3, 2, 3]

theorem commits_serializable_alternating :
    Serializable newDatabase.shared.mem.store (((systemProtocol (Bincode.crates true)).exec
      (fun σ a => SystemNoFaultAnd (fun _ _ => True) σ a ∧ NoCheckpoint a ∧
        ConflictsFollow [2, 3] σ a) newDatabase
      alternating).get (by decide +kernel)) :=
  commits_serializable (Protocol.reaches_exec alternating (by decide +kernel)) (by decide +kernel)
    (by decide +kernel : [2, 3].Perm _)

end AsyncWalDb
