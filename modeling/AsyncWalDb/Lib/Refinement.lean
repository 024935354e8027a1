import Mathlib.Algebra.Order.Ring.Nat

/-! A machine run side by side with its specification. The machine may refuse an action and
answers the others; the specification sees action and answer. A relation between the two that
each step preserves holds after every run, within a budget that actions may use up. -/
namespace Refinement

variable {S T A R : Type*}

structure Paired (S T A R : Type*) where
  step : S → A → Option (S × R)
  next : T → A → R → T
  allowed : S → T → A → Prop

variable (P : Paired S T A R)

def Paired.exec [∀ s t a, Decidable (P.allowed s t a)] : S × T → List A → Option (S × T)
  | st, [] => some st
  | (s, t), a :: as =>
    if P.allowed s t a then
      (P.step s a).bind fun out => Paired.exec (out.1, P.next t a out.2) as
    else none

variable {P} [∀ s t a, Decidable (P.allowed s t a)]

theorem Paired.exec_cons {s : S} {t : T} {a : A} {as : List A} {out : S × T}
    (run : P.exec (s, t) (a :: as) = some out) :
    ∃ s' r, P.allowed s t a ∧ P.step s a = some (s', r) ∧
      P.exec (s', P.next t a r) as = some out := by
  simp only [Paired.exec] at run
  split at run
  · rename_i ok
    obtain ⟨⟨s', r⟩, taken, later⟩ := Option.bind_eq_some_iff.mp run
    exact ⟨s', r, ok, taken, later⟩
  · contradiction

theorem Paired.exec_append (st : S × T) (as bs : List A) :
    P.exec st (as ++ bs) = (P.exec st as).bind fun st' => P.exec st' bs := by
  induction as generalizing st with
  | nil => rfl
  | cons a as ih =>
    obtain ⟨s, t⟩ := st
    simp only [List.cons_append, Paired.exec]
    split
    · cases P.step s a with
      | none => rfl
      | some out => exact ih _
    · rfl

theorem Paired.exec_loop {body : List A} {f : Nat → S × T} (n : Nat)
    (each : ∀ i < n, P.exec (f i) body = some (f (i + 1))) :
    P.exec (f 0) (List.replicate n body).flatten = some (f n) := by
  induction n with
  | zero => rfl
  | succ n ih =>
    rw [List.replicate_succ', List.flatten_append, Paired.exec_append,
      ih fun i hi => each i (Nat.lt_succ_of_lt hi)]
    simpa using each n (Nat.lt_succ_self n)

theorem Paired.exec_invariant (cost : A → Nat) (budget : Nat) {I : Nat → S → T → Prop}
    (preserved : ∀ {n s t a s' r}, I n s t → n + cost a ≤ budget → P.allowed s t a →
      P.step s a = some (s', r) →
      I (n + cost a) s' (P.next t a r))
    {n : Nat} {s s' : S} {t t' : T} {as : List A} (run : P.exec (s, t) as = some (s', t'))
    (start : I n s t)
    (within : n + (as.map cost).sum ≤ budget) : I (n + (as.map cost).sum) s' t' := by
  induction as generalizing n s t with
  | nil => cases run; exact start
  | cons a as ih =>
    obtain ⟨s₁, r, ok, taken, later⟩ := Paired.exec_cons run
    rw [List.map_cons, List.sum_cons, ← Nat.add_assoc] at within ⊢
    exact ih later (preserved start (by omega) ok taken) within

end Refinement
