import AsyncWalDb.Lib.Interleaving
import Mathlib.Order.WellFounded

/-! Runs that come to an end. A measure that every guarded step makes smaller bounds the number of
steps when it is a number, and in any well-founded order leads each schedule to a configuration at
rest. A measure of one task alone bounds its own moves, whatever the others do meanwhile. -/
namespace Interleaving

variable {S T K C : Type*} (P : Protocol S T K C) (guard : Config S T → Action K C → Prop)

inductive Protocol.ReachesIn (σ₀ : Config S T) : Nat → Config S T → Prop where
  | start : Protocol.ReachesIn σ₀ 0 σ₀
  | step {n : Nat} {σ σ' : Config S T} {a : Action K C} (run : Protocol.ReachesIn σ₀ n σ)
    (ok : guard σ a) (taken : P.step σ a = some σ') : Protocol.ReachesIn σ₀ (n + 1) σ'

def Protocol.AtRest (σ : Config S T) : Prop := ∀ a, guard σ a → P.step σ a = none

/-- A part of a run through which task `i` stays within `Q`, by the number of its own moves. -/
inductive Protocol.Stays (Q : T → Prop) (i : Nat) (σ₀ : Config S T) : Nat → Config S T → Prop where
  | start {t : T} (slot : σ₀.tasks[i]? = some t) (within : Q t) : Protocol.Stays Q i σ₀ 0 σ₀
  | own {n : Nat} {σ σ' : Config S T} {c : C} {t : T} (run : Protocol.Stays Q i σ₀ n σ)
    (ok : guard σ (.move i c)) (taken : P.step σ (.move i c) = some σ')
    (slot : σ'.tasks[i]? = some t) (within : Q t) : Protocol.Stays Q i σ₀ (n + 1) σ'
  | other {n : Nat} {σ σ' : Config S T} {a : Action K C} (run : Protocol.Stays Q i σ₀ n σ)
    (ok : guard σ a) (others : ∀ c, a ≠ .move i c) (taken : P.step σ a = some σ') :
    Protocol.Stays Q i σ₀ n σ'

def Protocol.stayOwn (Q : T → Prop) [DecidablePred Q] (i : Nat) (c : C) : Nat → Config S T →
    Option (Config S T)
  | 0, σ => if (σ.tasks[i]?.any fun t => Q t) = true then some σ else none
  | n + 1, σ => ((Protocol.stayOwn Q i c n σ).bind fun σ' => P.step σ' (.move i c)).bind fun σ' =>
      if (σ'.tasks[i]?.any fun t => Q t) = true then some σ' else none

variable {P guard} {σ₀ σ : Config S T}

theorem Protocol.ReachesIn.reaches {n : Nat} (run : P.ReachesIn guard σ₀ n σ) :
    P.Reaches guard σ₀ σ := by
  induction run with
  | start => exact .start
  | step _ ok taken ih => exact ih.step ok taken

theorem Protocol.stays_of_stayOwn {Q : T → Prop} [DecidablePred Q] {i : Nat} {c : C}
    (ok : ∀ σ, guard σ (.move i c))
    {n : Nat} (run : P.stayOwn Q i c n σ₀ = some σ) : P.Stays guard Q i σ₀ n σ := by
  have inside : ∀ τ : Config S T, (τ.tasks[i]?.any fun t => Q t) = true →
      ∃ t, τ.tasks[i]? = some t ∧ Q t := by
    intro τ within
    obtain ⟨t, slot, within⟩ := (Option.any_eq_true _ _).mp within
    exact ⟨t, slot, of_decide_eq_true within⟩
  induction n generalizing σ with
  | zero =>
    simp only [Protocol.stayOwn] at run
    split at run
    · rename_i within
      cases run
      obtain ⟨t, slot, within⟩ := inside σ₀ within
      exact .start slot within
    · contradiction
  | succ n ih =>
    obtain ⟨τ, moved, ended⟩ := Option.bind_eq_some_iff.mp run
    obtain ⟨υ, earlier, taken⟩ := Option.bind_eq_some_iff.mp moved
    split at ended
    · rename_i within
      cases ended
      obtain ⟨t, slot, within⟩ := inside σ within
      exact .own (ih earlier) (ok υ) taken slot within
    · contradiction

theorem Protocol.ReachesIn.bounded (μ : Config S T → Nat) {n : Nat} (run : P.ReachesIn guard σ₀ n σ)
    (less : ∀ σ a σ', guard σ a → P.step σ a = some σ' → μ σ' < μ σ) : n + μ σ ≤ μ σ₀ := by
  induction run with
  | start => exact Nat.le_of_eq (Nat.zero_add _)
  | step _ ok taken ih =>
    have lower := less _ _ _ ok taken
    omega

/-- Wherever a schedule has come to, it can be led to rest; a
schedule that goes on for ever does not exist. -/
theorem Protocol.Reaches.settles {W : Type*} {r : W → W → Prop} (wf : WellFounded r)
    (μ : Config S T → W) {J : Config S T → Prop} (known : ∀ τ, P.Reaches guard σ₀ τ → J τ)
    (less : ∀ σ a σ', J σ → guard σ a → P.step σ a = some σ' → r (μ σ') (μ σ)) :
    (∃ σ, P.Reaches guard σ₀ σ ∧ P.AtRest guard σ) ∧
      ¬ ∃ f : Nat → Config S T, f 0 = σ₀ ∧ ∀ n, ∃ a, guard (f n) a ∧
        P.step (f n) a = some (f (n + 1)) := by
  have rest : ∀ σ, P.Reaches guard σ₀ σ → ∃ τ, P.Reaches guard σ₀ τ ∧ P.AtRest guard τ := by
    intro σ
    induction hσ : μ σ using wf.induction generalizing σ with
    | _ w ih =>
      intro run
      by_cases still : P.AtRest guard σ
      · exact ⟨σ, run, still⟩
      · simp only [Protocol.AtRest] at still
        push Not at still
        obtain ⟨a, ok, enabled⟩ := still
        obtain ⟨σ', taken⟩ := Option.ne_none_iff_exists'.mp enabled
        exact ih (μ σ') (hσ ▸ less σ a σ' (known σ run) ok taken) σ' rfl (run.step ok taken)
  refine ⟨rest σ₀ .start, ?_⟩
  rintro ⟨f, start, goes⟩
  have runs : ∀ n, P.Reaches guard σ₀ (f n) := by
    intro n
    induction n with
    | zero => exact start ▸ .start
    | succ n ih =>
      obtain ⟨a, ok, taken⟩ := goes n
      exact ih.step ok taken
  have descends : ∀ n, r (μ (f (n + 1))) (μ (f n)) := by
    intro n
    obtain ⟨a, ok, taken⟩ := goes n
    exact less _ a _ (known _ (runs n)) ok taken
  have wellFounded : IsWellFounded W r := ⟨wf⟩
  obtain ⟨n, stops⟩ := WellFounded.not_rel_apply_succ (r := r) fun n => μ (f n)
  exact stops (descends n)

theorem Protocol.Stays.reaches {Q : T → Prop} {i n : Nat} (stays : P.Stays guard Q i σ₀ n σ) :
    P.Reaches guard σ₀ σ := by
  induction stays with
  | start => exact .start
  | own _ ok taken _ _ ih => exact ih.step ok taken
  | other _ ok _ taken ih => exact ih.step ok taken

/-- What holds when the stay begins and survives the task's
own moves and the others' holds through the stay. -/
theorem Protocol.Stays.invariant {Q : T → Prop} {J I : Config S T → Prop} {i n : Nat}
    (stays : P.Stays guard Q i σ₀ n σ) (known : ∀ τ, P.Reaches guard σ₀ τ → J τ) (initial : I σ₀)
    (own : ∀ σ c σ' t t', J σ → I σ → σ.tasks[i]? = some t → σ'.tasks[i]? = some t' → Q t' →
      P.step σ (.move i c) = some σ' → I σ')
    (other : ∀ σ a σ', J σ → I σ → (∀ c, a ≠ .move i c) → P.step σ a = some σ' → I σ') : I σ := by
  induction stays with
  | start => exact initial
  | own run ok taken slot within ih =>
    obtain ⟨t, _, _, before, _, _⟩ := Protocol.step_move taken
    exact own _ _ _ _ _ (known _ run.reaches) ih before slot within taken
  | other run ok others taken ih => exact other _ _ _ (known _ run.reaches) ih others taken

theorem Protocol.Stays.bounded {Q : T → Prop} {J : Config S T → Prop} (μ : T → Nat)
    {i n : Nat} {t₀ : T} (stays : P.Stays guard Q i σ₀ n σ) (slot : σ₀.tasks[i]? = some t₀)
    (known : ∀ τ, P.Reaches guard σ₀ τ → J τ)
    (less : ∀ σ c σ' t t', J σ → J σ' → σ.tasks[i]? = some t → σ'.tasks[i]? = some t' → Q t → Q t' →
      guard σ (.move i c) → P.step σ (.move i c) = some σ' → μ t' < μ t) :
    ∃ t, σ.tasks[i]? = some t ∧ Q t ∧ n + μ t ≤ μ t₀ := by
  induction stays with
  | start slot' within =>
    cases Option.some.inj (slot.symm.trans slot')
    exact ⟨t₀, slot', within, Nat.le_of_eq (Nat.zero_add _)⟩
  | own run ok taken slot' within ih =>
    obtain ⟨t, here, before, count⟩ := ih
    have lower := less _ _ _ _ _ (known _ run.reaches) (known _ (run.reaches.step ok taken)) here
      slot' before within
      ok taken
    exact ⟨_, slot', within, by omega⟩
  | other run ok others taken ih =>
    obtain ⟨t, here, before, count⟩ := ih
    exact ⟨t, Protocol.step_other taken others here, before, count⟩

end Interleaving
