import Mathlib.Algebra.BigOperators.Group.List.Basic
import Mathlib.Algebra.Order.BigOperators.Group.List
import Mathlib.Algebra.Order.Group.Multiset

/-! Asynchronous interleaving of numbered tasks over one shared state.
A step lets exactly one task make one atomic move, or creates a task. A run is
guarded: the guard is the assumption a group of results makes about each step. -/
namespace Interleaving

/-- Local behaviour of the tasks; `none` means that the move is not enabled. -/
structure Protocol (S T K C : Type*) where
  spawn : K → S → Option (S × T)
  move : Nat → C → S → T → Option (S × T)

structure Config (S T : Type*) where
  shared : S
  tasks : List T

inductive Action (K C : Type*) where
  | spawn (k : K)
  | move (i : Nat) (c : C)

variable {S T K C : Type*} (P : Protocol S T K C)

def Protocol.step (σ : Config S T) : Action K C → Option (Config S T)
  | .spawn k => (P.spawn k σ.shared).map fun out => ⟨out.1, σ.tasks ++ [out.2]⟩
  | .move i c => σ.tasks[i]?.bind fun t =>
    (P.move i c σ.shared t).map fun out => ⟨out.1, σ.tasks.set i out.2⟩

inductive Protocol.Reaches (guard : Config S T → Action K C → Prop) (σ₀ : Config S T) :
    Config S T → Prop where
  | start : Protocol.Reaches guard σ₀ σ₀
  | step {σ σ' : Config S T} {a : Action K C} (run : Protocol.Reaches guard σ₀ σ)
      (ok : guard σ a) (taken : P.step σ a = some σ') : Protocol.Reaches guard σ₀ σ'

/-- Executable run of a schedule, refused at the first step that misses the guard. -/
def Protocol.exec (guard : Config S T → Action K C → Prop) [∀ σ a, Decidable (guard σ a)]
    (σ : Config S T) : List (Action K C) → Option (Config S T)
  | [] => some σ
  | a :: as => if guard σ a then (P.step σ a).bind fun σ' => Protocol.exec guard σ' as else none

variable {P} {guard : Config S T → Action K C → Prop}

theorem Protocol.Reaches.trans {σ₀ σ₁ σ₂ : Config S T} (first : P.Reaches guard σ₀ σ₁)
    (second : P.Reaches guard σ₁ σ₂) : P.Reaches guard σ₀ σ₂ := by
  induction second with
  | start => exact first
  | step _ ok taken ih => exact ih.step ok taken

theorem Protocol.reaches_of_exec [∀ σ a, Decidable (guard σ a)] {σ σ' : Config S T}
    (as : List (Action K C)) (run : P.exec guard σ as = some σ') : P.Reaches guard σ σ' := by
  induction as generalizing σ with
  | nil => cases Option.some.inj run; exact .start
  | cons a as ih =>
    simp only [Protocol.exec] at run
    split at run
    · rename_i ok
      obtain ⟨τ, taken, later⟩ := Option.bind_eq_some_iff.mp run
      exact (Protocol.Reaches.start.step ok taken).trans (ih later)
    · contradiction

theorem Protocol.reaches_exec [∀ σ a, Decidable (guard σ a)] {σ : Config S T}
    (as : List (Action K C))
    (run : (P.exec guard σ as).isSome = true) : P.Reaches guard σ ((P.exec guard σ as).get run) :=
  Protocol.reaches_of_exec as (Option.some_get run).symm

theorem Protocol.Reaches.weaken {looser : Config S T → Action K C → Prop} {σ₀ σ : Config S T}
    (imp : ∀ σ a, guard σ a → looser σ a) (run : P.Reaches guard σ₀ σ) : P.Reaches looser σ₀ σ := by
  induction run with
  | start => exact .start
  | step _ ok taken ih => exact ih.step (imp _ _ ok) taken

theorem Protocol.Reaches.invariant {I : Config S T → Prop} {σ₀ σ : Config S T}
    (run : P.Reaches guard σ₀ σ)
    (initial : I σ₀) (preserved : ∀ σ a σ', I σ → guard σ a → P.step σ a = some σ' → I σ') :
    I σ := by
  induction run with
  | start => exact initial
  | step _ ok taken ih => exact preserved _ _ _ ih ok taken

theorem Protocol.Reaches.invariant_with {I J : Config S T → Prop} {σ₀ σ : Config S T}
    (run : P.Reaches guard σ₀ σ) (known : ∀ τ, P.Reaches guard σ₀ τ → J τ) (initial : I σ₀)
    (preserved : ∀ σ a σ', J σ → J σ' → I σ → guard σ a → P.step σ a = some σ' → I σ') : I σ := by
  induction run with
  | start => exact initial
  | step earlier ok taken ih =>
    exact preserved _ _ _ (known _ earlier) (known _ (earlier.step ok taken)) ih ok taken

/-- Simulation: when each guarded step of `P` is one guarded step of `Q` or none, seen through
`view`, every run of `P` is seen as a run of `Q`. -/
theorem Protocol.Reaches.simulate {S' T' K' C' : Type*} {Q : Protocol S' T' K' C'}
    {guard' : Config S' T' → Action K' C' → Prop} (view : Config S T → Config S' T')
    {σ₀ σ : Config S T}
    (run : P.Reaches guard σ₀ σ) (step : ∀ σ a σ', guard σ a → P.step σ a = some σ' →
      view σ' = view σ ∨ ∃ b, guard' (view σ) b ∧ Q.step (view σ) b = some (view σ')) :
    Q.Reaches guard' (view σ₀) (view σ) := by
  induction run with
  | start => exact .start
  | step _ ok taken ih =>
    rcases step _ _ _ ok taken with same | ⟨b, ok', taken'⟩
    · rw [same]
      exact ih
    · exact ih.step ok' taken'

theorem Protocol.step_spawn {σ σ' : Config S T} {k : K} (taken : P.step σ (.spawn k) = some σ') :
    ∃ s t, P.spawn k σ.shared = some (s, t) ∧ σ' = ⟨s, σ.tasks ++ [t]⟩ := by
  obtain ⟨⟨s, t⟩, h, rfl⟩ := Option.map_eq_some_iff.mp taken
  exact ⟨s, t, h, rfl⟩

theorem Protocol.step_move {σ σ' : Config S T} {i : Nat} {c : C}
    (taken : P.step σ (.move i c) = some σ') :
    ∃ t s t', σ.tasks[i]? = some t ∧ P.move i c σ.shared t = some (s, t') ∧
      σ' = ⟨s, σ.tasks.set i t'⟩ := by
  simp only [Protocol.step, Option.bind_eq_some_iff, Option.map_eq_some_iff] at taken
  obtain ⟨t, ht, ⟨s, t'⟩, hm, rfl⟩ := taken
  exact ⟨t, s, t', ht, hm, rfl⟩

section Observers

variable {E O V : Type*} (P) (see : Config S T → Action K C → Option E) (shown : Config S T → O)

/-- Runs with what an observer has of them: the steps it
sees, each with what it is shown after it. -/
inductive Protocol.Observed (guard : Config S T → Action K C → Prop) (σ₀ : Config S T) :
    List (E × O) → Config S T → Prop where
  | start : Protocol.Observed guard σ₀ [] σ₀
  | step {σ σ' : Config S T} {a : Action K C} {seen : List (E × O)}
    (run : Protocol.Observed guard σ₀ seen σ) (ok : guard σ a) (taken : P.step σ a = some σ') :
    Protocol.Observed guard σ₀ (seen ++ (see σ a).toList.map fun e => (e, shown σ')) σ'

def Protocol.observe (guard : Config S T → Action K C → Prop) [∀ σ a, Decidable (guard σ a)]
    (σ : Config S T) : List (Action K C) → Option (List (E × O) × Config S T)
  | [] => some ([], σ)
  | a :: as =>
    if guard σ a then (P.step σ a).bind fun σ' =>
      (Protocol.observe guard σ' as).map fun out =>
        ((see σ a).toList.map (fun e => (e, shown σ')) ++ out.1, out.2)
    else none

variable {P} {see} {shown} {guard : Config S T → Action K C → Prop} {σ₀ : Config S T}

theorem Protocol.Observed.reaches {seen : List (E × O)} {σ : Config S T}
    (run : P.Observed see shown guard σ₀ seen σ) : P.Reaches guard σ₀ σ := by
  induction run with
  | start => exact .start
  | step _ ok taken ih => exact ih.step ok taken

theorem Protocol.Observed.invariant {I : List (E × O) → Config S T → Prop} {seen : List (E × O)}
    {σ : Config S T} (run : P.Observed see shown guard σ₀ seen σ) (initial : I [] σ₀)
    (preserved : ∀ seen σ a σ', I seen σ → guard σ a → P.step σ a = some σ' →
      I (seen ++ (see σ a).toList.map fun e => (e, shown σ')) σ') : I seen σ := by
  induction run with
  | start => exact initial
  | step _ ok taken ih => exact preserved _ _ _ _ ih ok taken

theorem Protocol.Observed.trans {seen later : List (E × O)} {σ₁ σ₂ : Config S T}
    (first : P.Observed see shown guard σ₀ seen σ₁)
    (second : P.Observed see shown guard σ₁ later σ₂) :
    P.Observed see shown guard σ₀ (seen ++ later) σ₂ := by
  induction second with
  | start => rw [List.append_nil]; exact first
  | step _ ok taken ih => rw [← List.append_assoc]; exact ih.step ok taken

theorem Protocol.observed_of_observe [∀ σ a, Decidable (guard σ a)] {σ : Config S T}
    (as : List (Action K C))
    {out : List (E × O) × Config S T} (run : P.observe see shown guard σ as = some out) :
    P.Observed see shown guard σ out.1 out.2 := by
  induction as generalizing σ out with
  | nil => cases Option.some.inj run; exact .start
  | cons a as ih =>
    simp only [Protocol.observe] at run
    split at run
    · rename_i ok
      obtain ⟨τ, taken, later⟩ := Option.bind_eq_some_iff.mp run
      obtain ⟨rest, observed, rfl⟩ := Option.map_eq_some_iff.mp later
      have first : P.Observed see shown guard σ ([] ++ (see σ a).toList.map
          fun e => (e, shown τ)) τ :=
        Protocol.Observed.start.step ok taken
      exact first.trans (ih observed)
    · contradiction

/-- What is shown when a view of its own makes the steps that are seen. -/
def follow (next : V → E → V) (out : V → O) (v : V) : List E → List (E × O)
  | [] => []
  | e :: es => (e, out (next v e)) :: follow next out (next v e) es

theorem follow_append {next : V → E → V} {out : V → O} (v : V) (es fs : List E) :
    follow next out v (es ++ fs) = follow next out v es ++
      follow next out (es.foldl next v) fs := by
  induction es generalizing v with
  | nil => rfl
  | cons e es ih => simp [follow, ih]

variable {J : Config S T → Prop} {view : Config S T → V} {next : V → E → V} {out : V → O}

theorem Protocol.Observed.follows (known : ∀ τ, P.Reaches guard σ₀ τ → J τ)
    (moves : ∀ σ a σ', J σ → guard σ a → P.step σ a = some σ' →
      view σ' = (see σ a).elim (view σ) (next (view σ)))
    (faithful : ∀ σ, shown σ = out (view σ)) {seen : List (E × O)} {σ : Config S T}
    (run : P.Observed see shown guard σ₀ seen σ) :
    view σ = (seen.map Prod.fst).foldl next (view σ₀) ∧
      seen = follow next out (view σ₀) (seen.map Prod.fst) := by
  induction run with
  | start => exact ⟨rfl, rfl⟩
  | @step σ σ' a seen run ok taken ih =>
    obtain ⟨here, before⟩ := ih
    have moved := moves σ a σ' (known σ run.reaches) ok taken
    cases event : see σ a with
    | none =>
      rw [event] at moved
      simpa using ⟨moved.trans here, before⟩
    | some e =>
      rw [event] at moved
      have there : view σ' = ((seen ++ [(e, shown σ')]).map Prod.fst).foldl next (view σ₀) := by
        rw [moved, here]
        simp
      refine ⟨there, ?_⟩
      simp only [Option.toList_some, List.map_cons, List.map_nil, List.map_append, follow_append,
        follow, ← before, ← here,
        faithful σ', moved, Option.elim_some]

theorem Protocol.Observed.agree (known : ∀ τ, P.Reaches guard σ₀ τ → J τ)
    (moves : ∀ σ a σ', J σ → guard σ a → P.step σ a = some σ' →
      view σ' = (see σ a).elim (view σ) (next (view σ)))
    (faithful : ∀ σ, shown σ = out (view σ)) {seen seen' : List (E × O)} {σ σ' : Config S T}
    (run : P.Observed see shown guard σ₀ seen σ) (run' : P.Observed see shown guard σ₀ seen' σ')
    (same : seen.map Prod.fst = seen'.map Prod.fst) : seen = seen' ∧ view σ = view σ' := by
  obtain ⟨here, shows⟩ := run.follows known moves faithful
  obtain ⟨here', shows'⟩ := run'.follows known moves faithful
  exact ⟨by rw [shows, shows', same], by rw [here, here', same]⟩

end Observers

section Totals

variable {M : Type*} [AddCommMonoid M] (f : T → M)

def Config.total (σ : Config S T) : M := (σ.tasks.map f).sum

theorem total_spawn (s : S) (ts : List T) (t : T) :
    Config.total f (⟨s, ts ++ [t]⟩ : Config S T) = (ts.map f).sum + f t := by
  simp [Config.total]

theorem total_idle {σ : Config S T} (idle : ∀ t ∈ σ.tasks, f t = 0) : σ.total f = 0 := by
  refine List.sum_eq_zero fun m hm => ?_
  obtain ⟨t, ht, rfl⟩ := List.mem_map.mp hm
  exact idle t ht

theorem sum_split {ts : List T} {i : Nat} {t : T} (at_i : ts[i]? = some t) :
    (ts.map f).sum = f t + ((ts.eraseIdx i).map f).sum := by
  obtain ⟨bound, rfl⟩ := List.getElem?_eq_some_iff.mp at_i
  have perm := (List.getElem_cons_eraseIdx_perm bound).symm.map f
  simpa using perm.sum_eq

theorem sum_set {ts : List T} {i : Nat} {t : T} (at_i : ts[i]? = some t) (t' : T) :
    ((ts.set i t').map f).sum = f t' + ((ts.eraseIdx i).map f).sum := by
  have bound : i < ts.length := (List.getElem?_eq_some_iff.mp at_i).1
  have here : (ts.set i t')[i]? = some t' := by simp [bound]
  simpa [List.eraseIdx_set_eq] using sum_split f here

theorem total_move {σ : Config S T} {i : Nat} {t : T} (at_i : σ.tasks[i]? = some t) :
    ∃ rest, σ.total f = f t + rest ∧
      ∀ s t', Config.total f (⟨s, σ.tasks.set i t'⟩ : Config S T) = f t' + rest :=
  ⟨_, sum_split f at_i, fun _ t' => sum_set f at_i t'⟩

theorem mem_total {α : Type*} {f : T → Multiset α} {σ : Config S T} {a : α} :
    a ∈ σ.total f ↔ ∃ (i : Nat) (t : T), σ.tasks[i]? = some t ∧ a ∈ f t := by
  have in_list : ∀ ts : List T, a ∈ (ts.map f).sum ↔ ∃ t ∈ ts, a ∈ f t := by
    intro ts
    induction ts with
    | nil => simp
    | cons t ts ih => simp [ih]
  rw [Config.total, in_list]
  constructor
  · rintro ⟨t, ht, ha⟩
    obtain ⟨i, hi⟩ := List.getElem?_of_mem ht
    exact ⟨i, t, hi, ha⟩
  · rintro ⟨i, t, hi, ha⟩
    exact ⟨t, List.mem_of_getElem? hi, ha⟩

end Totals

section Others

def Config.others (σ : Config S T) (i : Nat) : List T := σ.tasks.eraseIdx i

theorem mem_others {σ : Config S T} {i j : Nat} {u : T} (at_j : σ.tasks[j]? = some u)
    (other : j ≠ i) : u ∈ σ.others i :=
  List.mem_eraseIdx_iff_getElem?.mpr ⟨j, other, at_j⟩

theorem getElem?_set_cases {ts : List T} {i j : Nat} {t u : T} (h : (ts.set i t)[j]? = some u) :
    (j = i ∧ u = t ∧ i < ts.length) ∨ (j ≠ i ∧ ts[j]? = some u) := by
  rw [List.getElem?_set] at h
  split at h
  · rename_i same
    split at h
    · rename_i bound
      exact .inl ⟨same.symm, (Option.some.inj h).symm, bound⟩
    · contradiction
  · rename_i other
    exact .inr ⟨fun same => other same.symm, h⟩

theorem mem_set_other {ts : List T} {i : Nat} {t t' u : T} (at_i : ts[i]? = some t) (mem : u ∈ ts)
    (other : u ≠ t) : u ∈ ts.set i t' := by
  obtain ⟨j, at_j⟩ := List.getElem?_of_mem mem
  have apart : i ≠ j := by
    rintro rfl
    exact other (Option.some.inj (at_j.symm.trans at_i))
  exact List.mem_of_getElem? ((List.getElem?_set_ne apart).trans at_j)

theorem set_same {α : Type*} {xs : List α} {i : Nat} {x : α} (at_i : xs[i]? = some x) :
    xs.set i x = xs := by
  obtain ⟨bound, rfl⟩ := List.getElem?_eq_some_iff.mp at_i
  exact List.set_getElem_self bound

theorem map_set_same {β : Type*} {f : T → β} {ts : List T} {i : Nat} {t t' : T}
    (at_i : ts[i]? = some t) (same : f t' = f t) : (ts.set i t').map f = ts.map f := by
  rw [List.map_set, same]
  exact set_same (by rw [List.getElem?_map, at_i]; rfl)

theorem flatMap_set_alone {β : Type*} {f : T → List β} {ts : List T} {i : Nat}
    (bound : i < ts.length)
    (others : ∀ (j : Nat) (u : T), j ≠ i → ts[j]? = some u → f u = []) (t' : T) :
    (ts.set i t').flatMap f = f t' := by
  have front : (ts.take i).flatMap f = [] := by
    rw [List.flatMap_eq_nil_iff]
    intro u hu
    obtain ⟨j, hj⟩ := List.getElem?_of_mem hu
    have within : j < i :=
      lt_of_lt_of_le (List.getElem?_eq_some_iff.mp hj).1 (List.length_take_le _ _)
    exact others j u (Nat.ne_of_lt within) (by rw [← hj, List.getElem?_take_of_lt within])
  have back : (ts.drop (i + 1)).flatMap f = [] := by
    rw [List.flatMap_eq_nil_iff]
    intro u hu
    obtain ⟨j, hj⟩ := List.getElem?_of_mem hu
    exact others (i + 1 + j) u (by omega) (by rw [← hj, List.getElem?_drop])
  rw [List.set_eq_take_append_cons_drop, if_pos bound, List.flatMap_append, List.flatMap_cons,
    front, back]
  simp

theorem getElem?_append_one {ts : List T} {j : Nat} {t u : T} (h : (ts ++ [t])[j]? = some u) :
    ts[j]? = some u ∨ (j = ts.length ∧ u = t) := by
  rw [List.getElem?_append] at h
  split at h
  · exact .inl h
  · rename_i beyond
    rw [List.getElem?_singleton] at h
    split at h
    · rename_i zero
      exact .inr ⟨by omega, (Option.some.inj h).symm⟩
    · contradiction

theorem Protocol.step_other {σ σ' : Config S T} {a : Action K C} {i : Nat} {t : T}
    (taken : P.step σ a = some σ')
    (others : ∀ c, a ≠ .move i c) (slot : σ.tasks[i]? = some t) : σ'.tasks[i]? = some t := by
  cases a with
  | spawn k =>
    obtain ⟨s, u, _, rfl⟩ := Protocol.step_spawn taken
    rw [List.getElem?_append_left (List.getElem?_eq_some_iff.mp slot).1]
    exact slot
  | move j c =>
    obtain ⟨u, s, u', _, _, rfl⟩ := Protocol.step_move taken
    have other : j ≠ i := by
      rintro rfl
      exact others c rfl
    rw [List.getElem?_set_ne other]
    exact slot

end Others

end Interleaving
