import AsyncWalDb.Lib.Settling

/-! A lock that one task holds at a time. The shared state says whether it is taken, each task
whether it has it; one equation between the two is kept by every move that takes, keeps or releases
it, and leaves room for one holder. -/
namespace Interleaving

variable {S T K C : Type*} (locked : S → Bool) (holds : T → Bool)

/-- As many tasks hold the lock as the shared state says. -/
def Exclusive (σ : Config S T) : Prop :=
  σ.total (fun t => (holds t).toNat) = (locked σ.shared).toNat

def LockMove (s : S) (t : T) (s' : S) (t' : T) : Prop :=
  (holds t').toNat + (locked s).toNat = (holds t).toNat + (locked s').toNat

variable {locked holds} {σ : Config S T} {i j : Nat} {t u : T}

theorem LockMove.keep {s s' : S} {t' : T} (lock : locked s' = locked s) (own : holds t' = holds t) :
    LockMove locked holds s t s' t' := by rw [LockMove, lock, own]

theorem Exclusive.locked_of_holds (ok : Exclusive locked holds σ) (slot : σ.tasks[i]? = some t)
    (held : holds t = true) : locked σ.shared = true := by
  obtain ⟨rest, total, _⟩ := total_move (fun t => (holds t).toNat) slot
  rw [Exclusive, total, held, Bool.toNat_true] at ok
  have := Bool.toNat_le (locked σ.shared)
  exact Bool.toNat_eq_one.mp (by omega)

theorem Exclusive.holder (ok : Exclusive locked holds σ) (taken : locked σ.shared = true) :
    ∃ (i : Nat) (t : T), σ.tasks[i]? = some t ∧ holds t = true := by
  by_contra nobody
  push Not at nobody
  have zero : σ.total (fun t => (holds t).toNat) = 0 := by
    refine total_idle _ fun t mem => ?_
    obtain ⟨i, slot⟩ := List.getElem?_of_mem mem
    rw [Bool.toNat_eq_zero]
    simpa using nobody i t slot
  rw [Exclusive, zero, taken] at ok
  cases ok

theorem Exclusive.alone (ok : Exclusive locked holds σ) (at_i : σ.tasks[i]? = some t)
    (at_j : σ.tasks[j]? = some u) (held : holds t = true) (held' : holds u = true) : j = i := by
  by_contra other
  obtain ⟨k, at_k⟩ := List.getElem?_of_mem (mem_others at_j other)
  have total := sum_split (fun t => (holds t).toNat) at_i
  have rest := sum_split (fun t => (holds t).toNat) at_k
  simp only [held', Bool.toNat_true] at rest
  simp only [Config.others] at rest
  have ok := ok.symm.trans total
  rw [held, Bool.toNat_true, rest] at ok
  have := Bool.toNat_le (locked σ.shared)
  omega

theorem exclusive_spawn (ok : Exclusive locked holds σ) {s : S} (lock : locked s = locked σ.shared)
    (free : holds t = false) : Exclusive locked holds ⟨s, σ.tasks ++ [t]⟩ := by
  rw [Exclusive, total_spawn, free, lock]
  exact ok

theorem exclusive_move (ok : Exclusive locked holds σ) (slot : σ.tasks[i]? = some t)
    {s : S} {t' : T} (moved : LockMove locked holds σ.shared t s t') :
    Exclusive locked holds ⟨s, σ.tasks.set i t'⟩ := by
  obtain ⟨rest, total, after⟩ := total_move (fun t => (holds t).toNat) slot
  rw [Exclusive, total] at ok
  rw [Exclusive, after]
  rw [LockMove] at moved
  dsimp only
  omega

end Interleaving
