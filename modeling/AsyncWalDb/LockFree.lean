import AsyncWalDb.Bincode
import AsyncWalDb.Quiescence

/-! The append path is lock-free. An append goes round its loop again only because somebody else got
on: every move in the loop that reserves no slot is paid for by an append that starts or reserves,
or by a drain that lowers the counter or wakes the sleepers. Without such progress the appends have
at most three moves each. -/
namespace AsyncWalDb

open Interleaving

inductive LoopEvent where
  | retry
  | progress
  deriving DecidableEq

/-- A retry is a move of the loop that does not reserve: a
load, a failed exchange, a park or the return from it. -/
def WalCall.loopEvent (w : Wal) : WalCall → Option LoopEvent
  | .append _ (.exchange current) => some (if w.pendingCount = current then .progress else .retry)
  | .append _ .load | .append _ .full | .append _ (.parked _) => some .retry
  | .append _ .push | .append _ (.notify _) => none
  | .drain _ (.sub _) | .drain _ .wake => some .progress
  | .drain _ _ | .flush _ _ => none

def loopEvent (σ : WalConfig) : WalAction → Option LoopEvent
  | .move _ (.append _) => some .progress
  | .move i (.call .run) => (σ.tasks[i]?.getD none).bind (WalCall.loopEvent σ.shared)
  | _ => none

def loopRank (w : Wal) : Option WalCall → Nat
  | some (.append _ pc) => pc.rank w
  | _ => 0

def retriesLeft (σ : WalConfig) : Nat := σ.total (loopRank σ.shared)

def retries (seen : List (LoopEvent × Unit)) : Nat := seen.countP fun e => e.1 = .retry

def progresses (seen : List (LoopEvent × Unit)) : Nat := seen.countP fun e => e.1 = .progress

variable {crates : Crates} {i : Nat} {w w' : Wal} {c : WalCall} {t : Option WalCall}
  {σ σ₀ σ' : WalConfig} {a : WalAction}

section Rank

theorem loopRank_le (w : Wal) (t : Option WalCall) : loopRank w t ≤ 3 := by
  cases t with
  | none => exact Nat.zero_le _
  | some c =>
    cases c with
    | append e pc =>
      have bound := rank_le w pc
      simp only [loopRank]
      split at bound <;> omega
    | flush | drain => exact Nat.zero_le _

theorem retriesLeft_le (σ : WalConfig) : retriesLeft σ ≤ 3 * σ.tasks.length := by
  have bound : ∀ ts : List (Option WalCall), (ts.map (loopRank σ.shared)).sum ≤ 3 * ts.length := by
    intro ts
    induction ts with
    | nil => exact Nat.zero_le _
    | cons t ts ih =>
      have one := loopRank_le σ.shared t
      rw [List.map_cons, List.sum_cons, List.length_cons]
      omega
  exact bound σ.tasks

theorem loopRank_quiet (count : w'.pendingCount = w.pendingCount)
    (space : w'.spaceAvailable = w.spaceAvailable) : loopRank w' = loopRank w := by
  funext t
  cases t with
  | none => rfl
  | some c =>
    cases c with
    | append e pc => cases pc <;> simp [loopRank, AppendPc.rank, count, space]
    | flush | drain => rfl

theorem retry_lower (ran : c.run crates i w = some (w', t)) (event : c.loopEvent w = some .retry) :
    w' = w ∧ loopRank w t < loopRank w (some c) := by
  cases c with
  | append e pc =>
    cases pc with
    | load =>
      simp only [WalCall.run, appendRun] at ran
      split at ran <;> (cases ran; simp [loopRank, AppendPc.rank])
    | full => cases ran; simp [loopRank, AppendPc.rank]
    | parked seen =>
      simp only [WalCall.run, appendRun] at ran
      split at ran
      · contradiction
      · rename_i woken
        cases ran
        simp [loopRank, AppendPc.rank, woken]
    | exchange current =>
      simp only [WalCall.run, appendRun] at ran
      split at ran
      · rename_i same
        simp [WalCall.loopEvent, same] at event
      · rename_i changed
        cases ran
        simp [loopRank, AppendPc.rank, changed]
    | push | notify => cases event
  | flush before pc => cases event
  | drain caller pc => cases pc <;> cases event

structure Quiet (w w' : Wal) (t : Option WalCall) : Prop where
  count : w'.pendingCount = w.pendingCount
  space : w'.spaceAvailable = w.spaceAvailable
  outside : loopRank w' t = 0

theorem run_quiet (ran : c.run crates i w = some (w', t)) (quiet : c.loopEvent w = none) :
    Quiet w w' t := by
  cases run_runs ran with
  | @wait _ pc _ before after =>
    cases pc with
    | push | notify => cases before
    | load | full | parked | exchange => cases quiet
  | reserve => simp [WalCall.loopEvent] at quiet
  | sub | wake => cases quiet
  | push | appended | poll | force | drained | pop | empty | popped | lock | header | payload
  | flush | sync =>
    exact ⟨rfl, rfl, rfl⟩

theorem start_quiet {k : WalMove} (moved : (walProtocol crates).move i k w none = some (w', t))
    (other : ∀ e, k ≠ .append e) : Quiet w w' t := by
  cases k with
  | call k => cases k <;> cases moved
  | append e => exact absurd rfl (other e)
  | flush | drain | notify => cases moved; exact ⟨rfl, rfl, rfl⟩
  | notified =>
    simp only [walProtocol] at moved
    split at moved
    · cases moved
      exact ⟨rfl, rfl, rfl⟩
    · cases moved

theorem left_quiet {t' : Option WalCall} (slot : σ.tasks[i]? = some t)
    (quiet : Quiet σ.shared w' t') : retriesLeft ⟨w', σ.tasks.set i t'⟩ ≤ retriesLeft σ := by
  obtain ⟨rest, before, after⟩ := total_move (loopRank σ.shared) slot
  have kept := after w' t'
  have outside := quiet.outside
  rw [loopRank_quiet quiet.count quiet.space] at outside
  rw [retriesLeft, loopRank_quiet quiet.count quiet.space, kept, outside, retriesLeft, before]
  omega

end Rank

section Runs

theorem loop_step (taken : (walProtocol crates).step σ a = some σ') :
    match loopEvent σ a with
    | some .retry => retriesLeft σ' < retriesLeft σ
    | some .progress => True
    | none => retriesLeft σ' ≤ retriesLeft σ := by
  cases a with
  | spawn k =>
    obtain ⟨s, t, new, rfl⟩ := Protocol.step_spawn taken
    cases new
    exact (total_spawn (loopRank σ.shared) σ.shared σ.tasks none).le
  | move i k =>
    obtain ⟨t, w', t', slot, moved, rfl⟩ := Protocol.step_move taken
    cases t with
    | none =>
      cases k with
      | append e => trivial
      | call k => cases k <;> cases moved
      | flush | drain | notify | notified => exact left_quiet slot (start_quiet moved (by simp))
    | some c =>
      cases k with
      | append | flush | drain | notify | notified => cases moved
      | call k =>
        cases k with
        | run =>
          have event : loopEvent σ (.move i (.call .run)) = c.loopEvent σ.shared := by
            simp [loopEvent, slot]
          rw [event]
          cases seen : c.loopEvent σ.shared with
          | none => exact left_quiet slot (run_quiet moved seen)
          | some e =>
            cases e with
            | progress => trivial
            | retry =>
              obtain ⟨rfl, lower⟩ := retry_lower moved seen
              obtain ⟨rest, before, after⟩ := total_move (loopRank σ.shared) slot
              have left := after σ.shared t'
              simp only [retriesLeft]
              omega
        | fail fault =>
          obtain ⟨⟨s, e⟩, failed, out⟩ := Option.map_eq_some_iff.mp moved
          cases out
          obtain ⟨_, _, rfl⟩ := fail_release failed
          exact left_quiet slot ⟨rfl, rfl, rfl⟩
        | drop =>
          obtain ⟨s, dropped, out⟩ := Option.map_eq_some_iff.mp moved
          cases out
          obtain ⟨_, rfl⟩ := drop_release dropped
          exact left_quiet slot ⟨rfl, rfl, rfl⟩

theorem tasks_grow (taken : (walProtocol crates).step σ a = some σ') :
    σ.tasks.length ≤ σ'.tasks.length := by
  cases a with
  | spawn k =>
    obtain ⟨s, t, _, rfl⟩ := Protocol.step_spawn taken
    simp
  | move i k =>
    obtain ⟨_, _, _, _, _, rfl⟩ := Protocol.step_move taken
    simp

/-- In every run, whatever fails and whoever is dropped, each progress of anybody accounts for at
most three retries of each task. -/
theorem append_lock_free {seen : List (LoopEvent × Unit)}
    (run : (walProtocol crates).Observed loopEvent (fun _ => ()) (fun _ _ => True) σ₀ seen σ) :
    retries seen ≤ 3 * (σ.tasks.length * (progresses seen + 1)) := by
  have spent : retries seen + retriesLeft σ ≤ 3 * (σ.tasks.length * (progresses seen + 1)) := by
    refine run.invariant (I := fun seen σ => retries seen + retriesLeft σ ≤ 3 *
      (σ.tasks.length * (progresses seen + 1))) ?_ ?_
    · have bound := retriesLeft_le σ₀
      simpa [retries, progresses] using bound
    · intro seen σ a σ' ih _ taken
      have step := loop_step taken
      have grow := Nat.mul_le_mul_right (progresses seen + 1) (tasks_grow taken)
      cases event : loopEvent σ a with
      | none =>
        rw [event] at step
        simp only [Option.toList_none, List.map_nil, List.append_nil]
        dsimp only at step
        omega
      | some e =>
        rw [event] at step
        cases e with
        | retry =>
          have more : retries (seen ++ [(.retry, ())]) = retries seen + 1 := by simp [retries]
          have same : progresses (seen ++ [(.retry, ())]) = progresses seen := by simp [progresses]
          simp only [Option.toList_some, List.map_cons, List.map_nil, more, same]
          dsimp only at step
          omega
        | progress =>
          have same : retries (seen ++ [(.progress, ())]) = retries seen := by simp [retries]
          have more : progresses (seen ++ [(.progress, ())]) = progresses seen + 1 := by
            simp [progresses]
          have bound := retriesLeft_le σ'
          simp only [Option.toList_some, List.map_cons, List.map_nil, more, same]
          rw [Nat.mul_add_one]
          omega
  omega

def racingAppends : List WalAction :=
  [.spawn (), .spawn (), .move 0 (.append (.commit 1 7)), .move 1 (.append (.commit 2 7)),
    .move 0 (.call .run),
    .move 1 (.call .run), .move 0 (.call .run)] ++ List.replicate 3 (.move 1 (.call .run))

def racedAppends : List (LoopEvent × Unit) × WalConfig :=
  ((walProtocol (Bincode.crates true)).observe loopEvent (fun _ => ()) (fun _ _ => True)
    ⟨Wal.new 4, []⟩ racingAppends).get
    (by decide +kernel)

theorem append_lock_free_racing :
    retries racedAppends.1 = 4 ∧ retries racedAppends.1 ≤ 3 *
      (racedAppends.2.tasks.length * (progresses racedAppends.1 + 1)) :=
  ⟨by decide +kernel,
    append_lock_free (Protocol.observed_of_observe racingAppends (Option.some_get _).symm)⟩

end Runs

end AsyncWalDb
