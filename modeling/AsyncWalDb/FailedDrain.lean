import AsyncWalDb.Bincode
import AsyncWalDb.Durability

/-! A drain that ends with an error, or whose future is dropped, keeps its batch on the counter:
only the success path subtracts it. No such ending restores the count. -/
namespace AsyncWalDb

open Interleaving

/-- Every entry of the batch is queued again or completely written, and the counter is the number
of queued entries, entries held by other drains and reserved slots. -/
def LosesNothing (batch : List Item) (after : WalConfig) : Prop :=
  (∀ it ∈ batch, it ∈ after.shared.pending ∨ after.shared.Inside after.shared.stream.length it) ∧
    after.shared.pendingCount = used after

instance (batch : List Item) (after : WalConfig) : Decidable (LosesNothing batch after) := by
  unfold LosesNothing Wal.Inside
  infer_instance

variable {crates : Crates} {m i : Nat} {σ σ' : WalConfig} {caller : Caller}
  {pc : DrainPc} {k : CallMove}

/-- Whatever happened before, a drain that ends without success leaves its batch on the counter. -/
theorem failed_drain_loses (run : (walProtocol crates).Reaches (fun _ _ => True) ⟨Wal.new m, []⟩ σ)
    (slot : σ.tasks[i]? = some (some (.drain caller pc))) (ended : k ≠ .run)
    (taken : (walProtocol crates).step σ (.move i (.call k)) = some σ') :
    ¬ LosesNothing pc.batch σ' := by
  rintro ⟨_, restored⟩
  have step := wal_step_cases taken
  have covered := counter_covers run
  have gap := counter_step step covered
  have lost : lostBy σ (.move i (.call k)) = pc.batch.length := by
    cases k with
    | run => exact absurd rfl ended
    | fail | drop => simp [lostBy, slot, heldBy]
  have nonempty : pc.batch ≠ [] := by
    have busy := busy_run run i _ slot
    cases step with
    | start flushNotify idle fresh own => exact absurd rfl (own k)
    | run => exact absurd rfl ended
    | fault slot' fallible stops =>
      cases Option.some.inj (slot.symm.trans slot')
      cases pc with
      | pop | sub | wake => cases fallible
      | lock | write | sync => exact busy
  have positive := List.length_pos_iff.mpr nonempty
  omega

def lockedDrain : List WalAction :=
  [.spawn (), .spawn (), .move 0 (.append (.commit 1 7))] ++
    List.replicate 4 (.move 0 (.call .run)) ++
    [.move 1 .drain] ++ List.replicate 3 (.move 1 (.call .run))

def lockedDrainEnd : WalConfig :=
  ((walProtocol (Bincode.crates true)).exec (fun _ _ => True) ⟨Wal.new 10000, []⟩ lockedDrain).get
    (by decide +kernel)

def headerFails : WalConfig :=
  ((walProtocol (Bincode.crates true)).step lockedDrainEnd (.move 1 (.call (.fail .io)))).get
    (by decide +kernel)

def lockedBatch : List Item := [⟨0, 0, .commit 1 7⟩]

theorem failed_header_loses :
    ¬ ∀ (crates : Crates) (m i : Nat) (σ σ' : WalConfig) (caller : Caller)
      (pc : DrainPc) (k : CallMove),
      (walProtocol crates).Reaches (fun _ _ => True) ⟨Wal.new m, []⟩ σ →
      σ.tasks[i]? = some (some (.drain caller pc)) → k ≠ .run →
      (walProtocol crates).step σ (.move i (.call k)) = some σ' → LosesNothing pc.batch σ' := by
  intro claim
  have kept := claim (Bincode.crates true) 10000 1 lockedDrainEnd headerFails .flusher
    (.write [] lockedBatch false)
    (.fail .io) (Protocol.reaches_exec lockedDrain (by decide +kernel)) (by decide +kernel)
      (by decide)
    (Option.some_get _).symm
  revert kept
  decide +kernel

theorem failed_drain_loses_headerFails : ¬ LosesNothing lockedBatch headerFails := by
  have slot : lockedDrainEnd.tasks[1]? =
      some (some (.drain .flusher (.write [] lockedBatch false))) := by
    decide +kernel
  exact failed_drain_loses (Protocol.reaches_exec lockedDrain (by decide +kernel)) slot
    (by decide : CallMove.fail .io ≠ .run) (Option.some_get _).symm

end AsyncWalDb
