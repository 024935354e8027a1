import AsyncWalDb.Bincode
import AsyncWalDb.Wal

/-! Backpressure and `Notify`. An append that found the queue full creates its Notified future in a
later step; `notify_waiters` stores no permit, so a wake-up that falls in between is lost. -/
namespace AsyncWalDb

open Interleaving

/-- The append sleeps on `space_available.notified()`: no
wake-up came since the future was created. -/
def Asleep (w : Wal) : Option WalCall → Prop
  | some (.append _ (.parked seen)) => w.spaceAvailable = seen
  | _ => False

/-- The drain has lowered the counter and is about to call `notify_waiters`. -/
def waking : Option WalCall → Bool
  | some (.drain _ .wake) => true
  | _ => false

def aside : Option WalCall → Bool
  | some (.append _ _) | some (.drain _ _) => false
  | _ => true

/-- An append sleeps, nothing is queued or counted, and there is no other append and no drain. -/
def Stranded (σ : WalConfig) : Prop :=
  ∃ i < σ.tasks.length, Asleep σ.shared (σ.tasks[i]?.getD none) ∧ σ.shared.pendingCount = 0 ∧
    σ.shared.pending = [] ∧
    ∀ u ∈ σ.others i, aside u = true

/-- An append creates its Notified future while the counter
is positive or a wake-up is still to come. -/
def ParksInTime (σ : WalConfig) (i : Nat) : Prop :=
  match σ.tasks[i]? with
  | some (some (.append _ .full)) => 0 < σ.shared.pendingCount ∨ ∃ u ∈ σ.tasks, waking u = true
  | _ => True

instance (σ : WalConfig) (i : Nat) : Decidable (ParksInTime σ i) := by
  unfold ParksInTime
  rcases σ.tasks[i]? with _ | _ | ⟨_, _ | _ | _ | _ | _ | _⟩ | _ | _ <;> infer_instance

instance (w : Wal) : DecidablePred (Asleep w) := fun t => by
  unfold Asleep
  split <;> infer_instance

instance (σ : WalConfig) : Decidable (Stranded σ) := by
  unfold Stranded
  infer_instance

/-- A sleeping append will be woken: entries are still counted, or a drain is about to notify. -/
structure Rescued (σ : WalConfig) : Prop where
  seen : ∀ e n, some (.append e (.parked n)) ∈ σ.tasks → n ≤ σ.shared.spaceAvailable
  rescued : ∀ t ∈ σ.tasks, Asleep σ.shared t → 0 < σ.shared.pendingCount ∨
    ∃ u ∈ σ.tasks, waking u = true

variable {crates : Crates} {m i : Nat} {w w' : Wal} {c : WalCall} {t : Option WalCall}
  {σ σ' : WalConfig} {a : WalAction}

theorem asleep_iff : Asleep w t ↔ ∃ e n, t = some (.append e (.parked n)) ∧
    w.spaceAvailable = n := by
  unfold Asleep
  split
  · rename_i e n
    simp [eq_comm]
  · rename_i other
    rw [false_iff]
    rintro ⟨e, n, same, _⟩
    exact other e n same

theorem run_parks {e : WalEntry} {n : Nat}
    (h : c.run crates i w = some (w', some (.append e (.parked n)))) :
    (∃ e', c = .append e' .full) ∧ w' = w ∧ n = w.spaceAvailable := by
  cases c with
  | append entry pc =>
    cases pc with
    | full => cases h; exact ⟨⟨_, rfl⟩, rfl, rfl⟩
    | push | notify => cases h
    | load | parked | exchange =>
      simp only [WalCall.run, appendRun] at h
      split at h <;> cases h
  | flush before pc => cases run_runs h
  | drain caller pc => cases run_runs h

theorem runs_rescue (h : Runs crates i w c w' t) :
    (w.spaceAvailable ≤ w'.spaceAvailable) ∧
      ((w'.spaceAvailable = w.spaceAvailable ∧ waking (some c) = false ∧
        (0 < w.pendingCount → 0 < w'.pendingCount ∨ waking t = true)) ∨
        w'.spaceAvailable = w.spaceAvailable + 1) := by
  cases h with
  | reserve => exact ⟨le_rfl, .inl ⟨rfl, rfl, fun _ => .inl (Nat.succ_pos _)⟩⟩
  | sub => exact ⟨le_rfl, .inl ⟨rfl, rfl, fun _ => .inr rfl⟩⟩
  | wake => exact ⟨Nat.le_succ _, .inr rfl⟩
  | wait | push | appended | poll | force | drained | pop | empty | popped | lock | header | payload
  | flush | sync =>
    exact ⟨le_rfl, .inl ⟨rfl, rfl, .inl⟩⟩

theorem waking_kept {t' : Option WalCall} (slot : σ.tasks[i]? = some t) (quiet : waking t = false)
    (wakes : ∃ v ∈ σ.tasks, waking v = true) : ∃ v ∈ σ.tasks.set i t', waking v = true := by
  obtain ⟨v, hv, wakes⟩ := wakes
  refine ⟨v, mem_set_other slot hv ?_, wakes⟩
  rintro rfl
  rw [wakes] at quiet
  contradiction

theorem rescued_before (ok : Rescued σ) (slot : σ.tasks[i]? = some (some c))
    (ran : c.run crates i σ.shared = some (w', t))
    (guard : ParksInTime σ i) {u : Option WalCall} (hu : u ∈ σ.tasks.set i t)
    (asleep : Asleep w' u) : (0 < σ.shared.pendingCount ∨ ∃ v ∈ σ.tasks, waking v = true) ∧
      waking (some c) = false ∧ (0 < σ.shared.pendingCount → 0 < w'.pendingCount ∨
        waking t = true) := by
  obtain ⟨e, n, rfl, same⟩ := asleep_iff.mp asleep
  rcases List.mem_or_eq_of_mem_set hu with old | rfl
  · rcases (runs_rescue (run_runs ran)).2 with ⟨kept, effect⟩ | notified
    · exact ⟨ok.rescued _ old (asleep_iff.mpr ⟨e, n, rfl, kept ▸ same⟩), effect⟩
    · have low := ok.seen e n old
      omega
  · obtain ⟨⟨e', rfl⟩, rfl, rfl⟩ := run_parks ran
    simp only [ParksInTime, slot] at guard
    exact ⟨guard, rfl, .inl⟩

theorem rescued_run (ok : Rescued σ) (slot : σ.tasks[i]? = some (some c))
    (ran : c.run crates i σ.shared = some (w', t))
    (guard : ParksInTime σ i) : Rescued ⟨w', σ.tasks.set i t⟩ := by
  have here : t ∈ σ.tasks.set i t := List.mem_set (List.getElem?_eq_some_iff.mp slot).1 t
  refine ⟨fun e n h => ?_, fun u hu asleep => ?_⟩
  · rcases List.mem_or_eq_of_mem_set h with old | rfl
    · exact le_trans (ok.seen e n old) (runs_rescue (run_runs ran)).1
    · obtain ⟨_, rfl, rfl⟩ := run_parks ran
      exact le_rfl
  · obtain ⟨before, quiet, still⟩ := rescued_before ok slot ran guard hu asleep
    rcases before with counted | wakes
    · exact (still counted).imp_right fun wakes => ⟨t, here, wakes⟩
    · exact .inr (waking_kept slot quiet wakes)

theorem rescued_step (ok : Rescued σ) (step : (walProtocol crates).step σ a = some σ')
    (guard : NoFaultAnd ParksInTime σ a) : Rescued σ' := by
  cases wal_step_cases step with
  | spawn =>
    refine ⟨fun e n h => ok.seen e n (by simpa using h), fun t ht asleep => ?_⟩
    have old : t ∈ σ.tasks := by
      rcases List.mem_append.mp ht with old | new
      · exact old
      · cases List.mem_singleton.mp new
        exact asleep.elim
    exact (ok.rescued t old asleep).imp_right fun ⟨u, hu, wakes⟩ =>
      ⟨u, List.mem_append_left _ hu, wakes⟩
  | @start i m t flushNotify slot fresh own =>
    refine ⟨fun e n h => ?_, fun u hu asleep => ?_⟩
    · rcases List.mem_or_eq_of_mem_set h with old | new
      · exact ok.seen e n old
      · rw [← new] at fresh
        cases fresh
    · have old : u ∈ σ.tasks := by
        rcases List.mem_or_eq_of_mem_set hu with old | rfl
        · exact old
        · cases fresh <;> exact asleep.elim
      exact (ok.rescued u old asleep).imp_right (waking_kept slot rfl)
  | @run i c w' t slot runs => exact rescued_run ok slot (wal_step_ran slot step) guard
  | @fault i c k slot fallible stops =>
    cases k with
    | run => exact absurd rfl stops
    | fail | drop => exact guard.elim

/-- In every run whose parking appends are in time, no writer is stranded. -/
theorem none_stranded (run : (walProtocol crates).Reaches (NoFaultAnd ParksInTime)
    ⟨Wal.new m, []⟩ σ) : ¬ Stranded σ := by
  have ok : Rescued σ := by
    apply run.invariant
    · exact ⟨fun _ _ h => absurd h List.not_mem_nil, List.forall_mem_nil _⟩
    · intro τ a τ' ok guard step
      exact rescued_step ok step guard
  rintro ⟨i, bound, asleep, zero, _, alone⟩
  rw [List.getElem?_eq_getElem bound, Option.getD_some] at asleep
  rcases ok.rescued _ (List.getElem_mem bound) asleep with counted | ⟨u, hu, wakes⟩
  · omega
  · obtain ⟨j, at_j⟩ := List.getElem?_of_mem hu
    obtain ⟨e, n, same, _⟩ := asleep_iff.mp asleep
    have other : j ≠ i := by
      rintro rfl
      rw [List.getElem?_eq_getElem bound, same] at at_j
      cases at_j
      cases wakes
    have drains := alone u (mem_others at_j other)
    unfold waking at wakes
    split at wakes
    · cases drains
    · cases wakes

/-- With room for one entry: the second append finds the queue full. -/
def secondFull : List WalAction :=
  [.spawn (), .spawn (), .spawn (), .move 0 (.append (.commit 1 7))] ++
    List.replicate 4 (.move 0 (.call .run)) ++
    [.move 1 (.append (.commit 2 7)), .move 1 (.call .run)]

def drainOne : List WalAction := [.move 2 .drain] ++ List.replicate 9 (.move 2 (.call .run))

/-- The drain comes between the capacity test and the Notified future. -/
theorem writer_stranded :
    ¬ ∀ (crates : Crates) (m : Nat) (σ : WalConfig), 1 ≤ m →
      (walProtocol crates).Reaches (fun _ a => Faultless a) ⟨Wal.new m, []⟩ σ → ¬ Stranded σ := by
  intro claim
  have reached : (walProtocol (Bincode.crates true)).Reaches (fun _ a => Faultless a)
      ⟨Wal.new 1, []⟩ _ :=
    Protocol.reaches_exec (secondFull ++ drainOne ++ [.move 1 (.call .run)]) (by decide +kernel)
  have none := claim _ 1 _ le_rfl reached
  revert none
  decide +kernel

theorem none_stranded_secondFull :
    ¬ Stranded (((walProtocol (Bincode.crates true)).exec (NoFaultAnd ParksInTime)
    ⟨Wal.new 1, []⟩ (secondFull ++ [.move 1 (.call .run)] ++ drainOne)).get (by decide +kernel)) :=
  none_stranded (Protocol.reaches_exec _ (by decide +kernel))

end AsyncWalDb
