import AsyncWalDb.Bincode
import AsyncWalDb.Durability

/-! The queue bound under every schedule, failing drains included: the counter
covers the queue, the batches and the reserved slots, an append reserves a
slot below the maximum only, and so the pop loop of a drain ends. -/
namespace AsyncWalDb

open Interleaving

variable {crates : Crates} {m i : Nat} {w w' : Wal} {c : WalCall} {t : Option WalCall}
  {σ σ' : WalConfig} {a : WalAction}

/-- The count an append is about to exchange was below the maximum when it was loaded. -/
def Admits (m : Nat) : Option WalCall → Prop
  | some (.append _ (.exchange current)) => current < m
  | _ => True

theorem runs_bound (h : Runs crates i w c w' t) (covered : taken (some c) ≤ w.pendingCount)
    (admits : Admits m (some c))
    (bound : w.pendingCount ≤ m) : w'.pendingCount ≤ m ∧ w'.maxQueueSize = w.maxQueueSize := by
  cases h with
  | reserve => exact ⟨admits, rfl⟩
  | sub =>
    simp only [taken, heldBy, reservedBy, DrainPc.batch, Nat.add_zero] at covered
    refine ⟨?_, rfl⟩
    simp only [Wal.fetchSub, if_pos covered]
    omega
  | wait | push | appended | poll | force | drained | pop | empty | popped | lock | header
  | payload | flush | sync
  | wake => exact ⟨bound, rfl⟩

theorem run_admits (h : c.run crates i w = some (w', t)) : Admits w.maxQueueSize t := by
  cases c with
  | append entry pc =>
    cases pc with
    | load =>
      simp only [WalCall.run, appendRun] at h
      split at h
      · cases h; trivial
      · rename_i room
        cases h
        exact Nat.lt_of_not_le room
    | full | push | notify => cases h; trivial
    | parked seen =>
      simp only [WalCall.run, appendRun] at h
      split at h
      · contradiction
      · cases h; trivial
    | exchange current =>
      simp only [WalCall.run, appendRun] at h
      split at h <;> (cases h; trivial)
  | flush before pc =>
    have no_append := run_runs h
    cases no_append <;> trivial
  | drain caller pc =>
    have no_append := run_runs h
    cases no_append <;> trivial

/-- The counter never exceeds the maximum, and no append is past its capacity test without room. -/
structure Bounded (m : Nat) (σ : WalConfig) : Prop where
  size : σ.shared.maxQueueSize = m
  count : σ.shared.pendingCount ≤ m
  admits : ∀ t ∈ σ.tasks, Admits m t

theorem mem_set_cases {t' u : Option WalCall} (h : u ∈ σ.tasks.set i t') : u = t' ∨ u ∈ σ.tasks :=
  (List.mem_or_eq_of_mem_set h).symm

theorem bounded_step (ok : Bounded m σ) (covered : used σ ≤ σ.shared.pendingCount)
    (step : (walProtocol crates).step σ a = some σ') : Bounded m σ' := by
  obtain ⟨size, count, admits⟩ := ok
  cases wal_step_cases step with
  | spawn =>
    refine ⟨size, count, fun u hu => ?_⟩
    rcases List.mem_append.mp hu with old | new
    · exact admits u old
    · cases List.mem_singleton.mp new; trivial
  | start flushNotify slot fresh own =>
    refine ⟨size, count, fun u hu => ?_⟩
    rcases mem_set_cases hu with rfl | old
    · cases fresh <;> trivial
    · exact admits u old
  | @run i c w' t slot runs =>
    obtain ⟨rest, total, _⟩ := total_move taken slot
    have own : taken (some c) ≤ σ.shared.pendingCount := by
      rw [used, total] at covered
      omega
    obtain ⟨bound, same⟩ := runs_bound runs own (admits _ (List.mem_of_getElem? slot)) count
    refine ⟨same.trans size, bound, fun u hu => ?_⟩
    rcases mem_set_cases hu with rfl | old
    · exact size ▸ run_admits (wal_step_ran slot step)
    · exact admits u old
  | @fault i c k slot fallible stops =>
    refine ⟨size, count, fun u hu => ?_⟩
    rcases mem_set_cases hu with rfl | old
    · trivial
    · exact admits u old

theorem bounded_run (run : (walProtocol crates).Reaches (fun _ _ => True) ⟨Wal.new m, []⟩ σ) :
    Bounded m σ := by
  apply run.invariant_with (J := fun σ => used σ ≤ σ.shared.pendingCount) fun τ => counter_covers
  · exact ⟨rfl, Nat.zero_le _, List.forall_mem_nil _⟩
  · intro τ a τ' covered _ ok _ step
    exact bounded_step ok covered step

def popping (σ : WalConfig) (i : Nat) : Option Nat :=
  match σ.tasks[i]? with
  | some (some (.drain _ (.pop batch))) => some batch.length
  | _ => none

/-- A part of a run through which the task stays in one pop loop, and how many moves it makes. -/
inductive StaysPopping (crates : Crates) (i : Nat) (σ : WalConfig) : Nat → WalConfig → Prop where
  | start (inside : (popping σ i).isSome = true) : StaysPopping crates i σ 0 σ
  | own {n τ τ' k} (run : StaysPopping crates i σ n τ)
    (step : (walProtocol crates).step τ (.move i k) = some τ')
    (inside : (popping τ' i).isSome = true) : StaysPopping crates i σ (n + 1) τ'
  | other {n τ τ' a} (run : StaysPopping crates i σ n τ)
    (step : (walProtocol crates).step τ a = some τ') (others : ∀ k, a ≠ .move i k)
    (inside : (popping τ' i).isSome = true) : StaysPopping crates i σ n τ'

/-- The three counts together stay within the counter and the counter within the maximum; a
subtraction never underflows, and a pop loop pops at most the maximum and makes no further move. -/
structure QueueBounded (crates : Crates) (m : Nat) (σ : WalConfig) : Prop where
  counted : σ.shared.pending.length + σ.total (fun t => (heldBy t).length) + σ.total reservedBy ≤
    σ.shared.pendingCount
  bounded : σ.shared.pendingCount ≤ m
  subtracts : ∀ (i : Nat) (caller : Caller) (batch : List Item),
    σ.tasks[i]? = some (some (.drain caller (.sub batch))) →
    batch.length ≤ σ.shared.pendingCount
  pops : ∀ (i : Nat) (caller : Caller) (pc : DrainPc),
    σ.tasks[i]? = some (some (.drain caller pc)) → pc.batch.length ≤ m
  ends : ∀ (i n : Nat) (σ' : WalConfig), StaysPopping crates i σ n σ' → n ≤ m

theorem held_le_used {j : Nat} (slot : σ.tasks[j]? = some t) : (heldBy t).length ≤ used σ := by
  obtain ⟨rest, total, _⟩ := total_move taken slot
  rw [used, total, taken]
  omega

theorem popping_some {n : Nat} (h : popping σ i = some n) :
    ∃ caller batch, σ.tasks[i]? = some (some (.drain caller (.pop batch))) ∧ batch.length = n := by
  unfold popping at h
  split at h
  · rename_i caller batch slot
    exact ⟨caller, batch, slot, Option.some.inj h⟩
  · contradiction

theorem popping_own {n : Nat} {k : WalMove} (before : popping σ i = some n)
    (step : (walProtocol crates).step σ (.move i k) = some σ')
    (inside : (popping σ' i).isSome = true) : popping σ' i = some (n + 1) := by
  obtain ⟨caller, batch, slot, rfl⟩ := popping_some before
  have bound := (List.getElem?_eq_some_iff.mp slot).1
  cases wal_step_cases step with
  | start flushNotify slot' =>
    cases Option.some.inj (slot.symm.trans slot')
  | run slot' runs =>
    cases Option.some.inj (Option.some.inj (slot.symm.trans slot'))
    cases runs with
    | pop front => simp [popping, bound]
    | empty none_left => simp [popping, bound] at inside
    | popped none_left some_popped => simp [popping, bound] at inside
  | fault slot' fallible stops =>
    cases Option.some.inj (Option.some.inj (slot.symm.trans slot'))
    cases fallible

theorem staysPopping_pops {n : Nat} (h : StaysPopping crates i σ n σ') :
    ∃ first last, popping σ i = some first ∧ popping σ' i = some last ∧ first + n = last := by
  induction h with
  | start inside =>
    obtain ⟨k, same⟩ := Option.isSome_iff_exists.mp inside
    exact ⟨k, k, same, same, rfl⟩
  | own run step inside ih =>
    obtain ⟨first, last, at_start, here, count⟩ := ih
    exact ⟨first, last + 1, at_start, popping_own here step inside, by omega⟩
  | @other n τ τ' a run step others inside ih =>
    obtain ⟨first, last, at_start, here, count⟩ := ih
    obtain ⟨caller, batch, slot, size⟩ := popping_some here
    refine ⟨first, last, at_start, ?_, count⟩
    rw [popping, Protocol.step_other step others slot]
    exact congrArg some size

theorem StaysPopping.reaches {n : Nat} (h : StaysPopping crates i σ n σ') :
    (walProtocol crates).Reaches (fun _ _ => True) σ σ' := by
  induction h with
  | start => exact .start
  | own _ step _ ih => exact ih.step trivial step
  | other _ step _ _ ih => exact ih.step trivial step

/-- In every run, whatever fails or is dropped. -/
theorem queue_bounded (run : (walProtocol crates).Reaches (fun _ _ => True) ⟨Wal.new m, []⟩ σ) :
    QueueBounded crates m σ := by
  have covered := counter_covers run
  have bounded := (bounded_run run).count
  have parts : used σ = σ.shared.pending.length + σ.total (fun t => (heldBy t).length) +
      σ.total reservedBy := by
    rw [used, Nat.add_assoc]
    congr 1
    exact List.sum_map_add
  refine ⟨parts ▸ covered, bounded, fun i caller batch slot => ?_, fun i caller pc slot => ?_,
    fun i n σ' stays => ?_⟩
  · exact le_trans (held_le_used slot) covered
  · exact le_trans (held_le_used slot) (le_trans covered bounded)
  · obtain ⟨first, last, _, here, count⟩ := staysPopping_pops stays
    obtain ⟨caller, batch, slot, size⟩ := popping_some here
    have later := run.trans stays.reaches
    have small :=
      le_trans (held_le_used slot) (le_trans (counter_covers later) (bounded_run later).count)
    rw [show (heldBy (some (.drain caller (.pop batch)))).length = batch.length from rfl] at small
    omega

def failingDrain : List WalAction :=
  [.spawn (), .spawn (), .move 0 (.append (.commit 1 7))] ++
    List.replicate 4 (.move 0 (.call .run)) ++
    [.move 1 .drain] ++ List.replicate 3 (.move 1 (.call .run)) ++
      [.move 0 (.append (.commit 2 7))] ++
    List.replicate 4 (.move 0 (.call .run)) ++ [.move 1 (.call (.fail .io)), .move 1 .drain]

theorem queue_bounded_failingDrain : QueueBounded (Bincode.crates true) 2
    (((walProtocol (Bincode.crates true)).exec (fun _ _ => True) ⟨Wal.new 2, []⟩ failingDrain).get
      (by decide +kernel)) :=
  queue_bounded (Protocol.reaches_exec failingDrain (by decide +kernel))

end AsyncWalDb
