import Mathlib.Data.List.Basic
import Mathlib.Logic.Function.Basic

/-! Writes to a keyed map: the last write to a key decides its value, replaying a
suffix over its own result changes nothing, and a schedule of guarded operations
depends on the subsequence of each key only. -/
namespace KeyedWrites

variable {K V O τ : Type*} [DecidableEq K] [DecidableEq τ]

structure Write (K V : Type*) where
  key : K
  value : Option V

def apply (s : K → Option V) (w : Write K V) : K → Option V := Function.update s w.key w.value

def applyAll (s : K → Option V) (ws : List (Write K V)) : K → Option V := ws.foldl apply s

/-- What the last write to the key leaves there, if the key is written at all. -/
def lastOn (k : K) : List (Write K V) → Option (Option V)
  | [] => none
  | w :: ws => (lastOn k ws).or (if w.key = k then some w.value else none)

@[simp] theorem applyAll_nil (s : K → Option V) : applyAll s [] = s := rfl

@[simp] theorem applyAll_cons (s : K → Option V) (w : Write K V) (ws : List (Write K V)) :
    applyAll s (w :: ws) = applyAll (apply s w) ws := rfl

@[simp] theorem applyAll_append (s : K → Option V) (ws vs : List (Write K V)) :
    applyAll s (ws ++ vs) = applyAll (applyAll s ws) vs := by simp [applyAll]

theorem lastOn_append (k : K) (ws vs : List (Write K V)) :
    lastOn k (ws ++ vs) = (lastOn k vs).or (lastOn k ws) := by
  induction ws with
  | nil => simp [lastOn]
  | cons w ws ih => simp [lastOn, ih, Option.or_assoc]

theorem lastOn_eq_none {k : K} {ws : List (Write K V)} : lastOn k ws = none ↔
    ∀ w ∈ ws, w.key ≠ k := by
  induction ws with
  | nil => simp [lastOn]
  | cons w ws ih => simp [lastOn, ih, Option.or_eq_none_iff, and_comm]

theorem applyAll_at (s : K → Option V) (ws : List (Write K V)) (k : K) :
    applyAll s ws k = (lastOn k ws).getD (s k) := by
  induction ws generalizing s with
  | nil => rfl
  | cons w ws ih =>
    rw [applyAll_cons, ih]
    by_cases same : w.key = k
    · subst same
      cases h : lastOn w.key ws <;> simp [lastOn, h, apply]
    · have other : k ≠ w.key := fun h => same h.symm
      cases h : lastOn k ws <;> simp [lastOn, h, apply, same, other]

theorem applyAll_untouched {s : K → Option V} {ws : List (Write K V)} {k : K}
    (h : ∀ w ∈ ws, w.key ≠ k) : applyAll s ws k = s k := by
  rw [applyAll_at, lastOn_eq_none.mpr h]
  rfl

/-- Every key holds what it held before or what one of these writes left there. -/
def WrittenFrom (before s : K → Option V) (Q : Write K V → Prop) : Prop :=
  ∀ k, s k = before k ∨ ∃ w, Q w ∧ w.key = k ∧ w.value = s k

omit [DecidableEq K] in
theorem WrittenFrom.mono {before s : K → Option V} {Q R : Write K V → Prop}
    (h : WrittenFrom before s Q) (imp : ∀ w, Q w → R w) : WrittenFrom before s R :=
  fun k => (h k).imp_right fun ⟨w, of, here⟩ => ⟨w, imp w of, here⟩

theorem WrittenFrom.apply {before s : K → Option V} {Q : Write K V → Prop}
    (h : WrittenFrom before s Q) {w : Write K V} (of : Q w) : WrittenFrom before (apply s w) Q := by
  intro k
  by_cases here : k = w.key
  · subst here
    exact .inr ⟨w, of, rfl, (Function.update_self w.key w.value s).symm⟩
  · rw [KeyedWrites.apply, Function.update_of_ne here]
    exact h k

theorem WrittenFrom.applyAll {before s : K → Option V} {Q : Write K V → Prop}
    (h : WrittenFrom before s Q)
    {ws : List (Write K V)} (of : ∀ w ∈ ws, Q w) : WrittenFrom before (applyAll s ws) Q := by
  induction ws generalizing s with
  | nil => exact h
  | cons w ws ih =>
    exact ih (h.apply (of w List.mem_cons_self)) fun v hv => of v (List.mem_cons_of_mem _ hv)

theorem applyAll_suffix_again (s : K → Option V) (ws vs : List (Write K V)) :
    applyAll (applyAll s (ws ++ vs)) vs = applyAll s (ws ++ vs) := by
  funext k
  rw [applyAll_at, applyAll_at, lastOn_append]
  cases lastOn k vs <;> simp

theorem applyAll_eq_iff (s : K → Option V) (ws vs : List (Write K V)) :
    applyAll s ws = applyAll s vs ↔ ∀ k, (lastOn k ws).getD (s k) = (lastOn k vs).getD (s k) := by
  simp only [funext_iff, applyAll_at]

theorem applyAll_suffix_iff (ws vs : List (Write K V)) :
    applyAll (fun _ => none) vs = applyAll (fun _ => none) (ws ++ vs) ↔
      ∀ w ∈ ws ++ vs, (applyAll (fun _ => none) (ws ++ vs) w.key).isSome = true → ∃ v ∈ vs,
        v.key = w.key := by
  constructor
  · intro same w _ present
    by_contra unwritten
    push Not at unwritten
    rw [← same, applyAll_untouched unwritten] at present
    contradiction
  · intro rewritten
    funext k
    rw [applyAll_at, applyAll_at, lastOn_append]
    cases later : lastOn k vs with
    | some v => rfl
    | none =>
      have quiet := lastOn_eq_none.mp later
      cases earlier : lastOn k ws with
      | none => rfl
      | some v =>
        cases v with
        | none => rfl
        | some value =>
          have written : ∃ w ∈ ws, w.key = k := by
            by_contra unwritten
            push Not at unwritten
            rw [lastOn_eq_none.mpr unwritten] at earlier
            contradiction
          obtain ⟨w, hw, rfl⟩ := written
          obtain ⟨v, hv, same⟩ := rewritten w (List.mem_append_left _ hw)
            (by rw [applyAll_at, lastOn_append, later, earlier]; rfl)
          exact absurd same (quiet v hv)

theorem lastOn_flatMap {ι : Type*} {k : K} {f : ι → List (Write K V)} {is : List ι} {v : Option V} :
    lastOn k (is.flatMap f) = some v ↔
      ∃ pre i post, is = pre ++ i :: post ∧ lastOn k (f i) = some v ∧ ∀ j ∈ post,
        lastOn k (f j) = none := by
  constructor
  · intro h
    induction is with
    | nil => cases h
    | cons a is ih =>
      rw [List.flatMap_cons, lastOn_append] at h
      cases later : lastOn k (is.flatMap f) with
      | none =>
        refine ⟨[], a, is, rfl, by simpa [later] using h, fun j hj => ?_⟩
        exact lastOn_eq_none.mpr fun w hw =>
          lastOn_eq_none.mp later w (List.mem_flatMap.mpr ⟨j, hj, hw⟩)
      | some u =>
        obtain ⟨pre, i, post, rfl, at_i, quiet⟩ := ih (by simpa [later] using h)
        exact ⟨a :: pre, i, post, rfl, at_i, quiet⟩
  · rintro ⟨pre, i, post, rfl, at_i, quiet⟩
    have later : lastOn k (post.flatMap f) = none := by
      rw [lastOn_eq_none]
      intro w hw
      obtain ⟨j, hj, hw⟩ := List.mem_flatMap.mp hw
      exact lastOn_eq_none.mp (quiet j hj) w hw
    rw [List.flatMap_append, List.flatMap_cons, lastOn_append, lastOn_append, later, at_i]
    rfl

theorem split_iff_position {ι : Type*} {l : List ι} {p q : ι → Prop} :
    (∃ pre x post, l = pre ++ x :: post ∧ p x ∧ ∀ y ∈ post, q y) ↔
      ∃ (i : ℕ) (x : ι), l[i]? = some x ∧ p x ∧
        ∀ (j : ℕ) (y : ι), i < j → l[j]? = some y → q y := by
  constructor
  · rintro ⟨pre, x, post, rfl, here, later⟩
    refine ⟨pre.length, x, by simp, here, fun j y after at_j => later y ?_⟩
    obtain ⟨n, rfl⟩ := Nat.exists_eq_add_of_lt after
    have at_n : post[n]? = some y := by
      rw [List.getElem?_append_right (by omega)] at at_j
      simpa [Nat.add_assoc] using at_j
    exact List.mem_of_getElem? at_n
  · rintro ⟨i, x, at_i, here, later⟩
    refine ⟨l.take i, x, l.drop (i + 1), ?_, here, fun y mem => ?_⟩
    · obtain ⟨short, rfl⟩ := List.getElem?_eq_some_iff.mp at_i
      simp
    · obtain ⟨n, at_n⟩ := List.mem_iff_getElem?.mp mem
      rw [List.getElem?_drop] at at_n
      exact later _ y (by omega) at_n

theorem lastOn_filterMap {ι : Type*} {k : K} {g : ι → Option (Write K V)} {l : List ι}
    {v : Option V} :
    lastOn k (l.filterMap g) = some v ↔ ∃ (i : ℕ) (x : ι), l[i]? = some x ∧ g x = some ⟨k, v⟩ ∧
      ∀ (j : ℕ) (y : ι), i < j → l[j]? = some y → ∀ w, g y = some w → w.key ≠ k := by
  have writes : ∀ x, lastOn k (g x).toList = some v ↔ g x = some ⟨k, v⟩ := by
    intro x
    cases h : g x with
    | none => simp [lastOn]
    | some w =>
      obtain ⟨key, value⟩ := w
      by_cases same : key = k <;> simp [lastOn, same]
  have quiet : ∀ y, lastOn k (g y).toList = none ↔ ∀ w, g y = some w → w.key ≠ k := by
    intro y
    rw [lastOn_eq_none]
    simp
  rw [List.filterMap_eq_flatMap_toList, lastOn_flatMap, ← split_iff_position]
  simp only [writes, quiet]

section Guarded

/- An operation reads and writes one cell, and may refuse the value it finds there. -/
variable (key : O → K) (act : O → Option V → Option (Option V))

def perform (s : K → Option V) (o : O) : Option (K → Option V) :=
  (act o (s (key o))).map (Function.update s (key o))

def performAll (s : K → Option V) : List O → Option (K → Option V)
  | [] => some s
  | o :: os => (perform key act s o).bind fun s' => performAll s' os

def performOn (v : Option V) : List O → Option (Option V)
  | [] => some v
  | o :: os => (act o v).bind fun v' => performOn v' os

theorem performAll_append (s : K → Option V) (os ps : List O) :
    performAll key act s (os ++ ps) = (performAll key act s os).bind fun s' =>
      performAll key act s' ps := by
  induction os generalizing s with
  | nil => rfl
  | cons o os ih =>
    cases h : perform key act s o <;> simp [performAll, h, ih]

theorem performAll_iff (s s' : K → Option V) (os : List O) :
    performAll key act s os = some s' ↔
      ∀ k, performOn act (s k) (os.filter fun o => key o = k) = some (s' k) := by
  induction os generalizing s with
  | nil => simp [performAll, performOn, funext_iff]
  | cons o os ih =>
    simp only [performAll, perform]
    cases h : act o (s (key o)) with
    | none =>
      simp only [Option.map_none, Option.bind_none, reduceCtorEq, false_iff, not_forall]
      exact ⟨key o, by simp [performOn, h]⟩
    | some v =>
      simp only [Option.map_some, Option.bind_some, ih]
      refine forall_congr' fun k => ?_
      by_cases same : key o = k
      · subst same
        simp [performOn, h]
      · have other : k ≠ key o := fun h => same h.symm
        simp [same, other]

theorem performAll_congr (s : K → Option V) (os ps : List O)
    (same : ∀ k, os.filter (fun o => key o = k) = ps.filter fun o => key o = k) :
    performAll key act s os = performAll key act s ps := by
  apply Option.ext
  intro s'
  rw [performAll_iff, performAll_iff]
  exact forall_congr' fun k => by rw [same k]

end Guarded

section Serial

theorem eq_flatMap_blocks (order : List τ) (l : List (τ × O)) (distinct : order.Nodup)
    (covered : ∀ a ∈ l, a.1 ∈ order)
    (ordered : l.Pairwise fun a b => order.idxOf a.1 ≤ order.idxOf b.1) :
    l = order.flatMap fun t => l.filter fun a => a.1 = t := by
  induction order generalizing l with
  | nil =>
    cases l with
    | nil => rfl
    | cons a l => exact absurd (covered a List.mem_cons_self) (by simp)
  | cons t order ih =>
    obtain ⟨fresh, distinct⟩ := List.nodup_cons.mp distinct
    -- everything tagged `t` stands before everything else
    have front : l = l.filter (fun a => a.1 = t) ++ l.filter (fun a => ¬ a.1 = t) := by
      clear ih covered
      induction l with
      | nil => rfl
      | cons a l ihl =>
        obtain ⟨head, tail⟩ := List.pairwise_cons.mp ordered
        by_cases ha : a.1 = t
        · simpa [ha] using ihl tail
        · have none_t : ∀ b ∈ l, b.1 ≠ t := by
            intro b hb hbt
            have le := head b hb
            have away : t ≠ a.1 := fun h => ha h.symm
            rw [hbt, List.idxOf_cons_self, List.idxOf_cons_ne _ away] at le
            omega
          have empty : l.filter (fun b => b.1 = t) = [] := by
            simpa [List.filter_eq_nil_iff] using fun c b hb => none_t (c, b) hb
          have all : l.filter (fun b => ¬ b.1 = t) = l := by
            simpa [List.filter_eq_self] using fun c b hb => none_t (c, b) hb
          simp only [List.filter_cons, ha, decide_false, decide_not, Bool.not_false, if_true,
            Bool.false_eq_true, if_false, empty, List.nil_append]
          simpa using all.symm
    have rest := ih (l.filter fun a => ¬ a.1 = t) distinct
      (by
        intro a ha
        obtain ⟨mem, ne⟩ := List.mem_filter.mp ha
        have ne : a.1 ≠ t := by simpa using ne
        exact (List.mem_cons.mp (covered a mem)).resolve_left ne)
      (by
        refine (ordered.filter _).imp_of_mem fun {a b} ha hb le => ?_
        have hat : a.1 ≠ t := by simpa using (List.mem_filter.mp ha).2
        have hbt : b.1 ≠ t := by simpa using (List.mem_filter.mp hb).2
        rw [List.idxOf_cons_ne _ (Ne.symm hat), List.idxOf_cons_ne _ (Ne.symm hbt)] at le
        omega)
    calc l = l.filter (fun a => a.1 = t) ++ l.filter (fun a => ¬ a.1 = t) := front
      _ = l.filter (fun a => a.1 = t) ++
          order.flatMap (fun u => (l.filter fun a => ¬ a.1 = t).filter fun a => a.1 = u) := by
            rw [← rest]
      _ = (t :: order).flatMap fun u => l.filter fun a => a.1 = u := by
        rw [List.flatMap_cons]
        congr 1
        refine List.flatMap_congr fun u hu => ?_
        have ne : u ≠ t := fun h => fresh (h ▸ hu)
        rw [List.filter_filter]
        refine List.filter_congr fun a _ => ?_
        by_cases hau : a.1 = u
        · simp [hau, ne]
        · simp [hau]

variable (key : O → K) (act : O → Option V → Option (Option V))

/-- On every key the operations come transaction by transaction, in the given order. -/
def ConflictOrdered (order : List τ) (schedule : List (τ × O)) : Prop :=
  schedule.Pairwise fun a b => key a.2 = key b.2 → order.idxOf a.1 ≤ order.idxOf b.1

theorem serial_of_conflictOrdered (s : K → Option V) (order : List τ) (schedule : List (τ × O))
    (distinct : order.Nodup) (covered : ∀ a ∈ schedule, a.1 ∈ order)
    (conflicts : ConflictOrdered key order schedule) :
    performAll key act s (schedule.map Prod.snd) =
      performAll key act s (order.flatMap
        fun t => (schedule.filter fun a => a.1 = t).map Prod.snd) := by
  apply performAll_congr
  intro k
  have onKey := eq_flatMap_blocks order (schedule.filter fun a => key a.2 = k) distinct
    (fun a ha => covered a (List.mem_filter.mp ha).1)
    ((conflicts.filter _).imp_of_mem fun {a b} ha hb imp => imp (by
      have ka : key a.2 = k := by simpa using (List.mem_filter.mp ha).2
      have kb : key b.2 = k := by simpa using (List.mem_filter.mp hb).2
      rw [ka, kb]))
  rw [List.filter_map, List.filter_flatMap]
  calc (schedule.filter ((fun o => decide (key o = k)) ∘ Prod.snd)).map Prod.snd
      = (order.flatMap fun t => (schedule.filter fun a => key a.2 = k).filter
        fun a => a.1 = t).map Prod.snd := by
        rw [← onKey]; rfl
    _ = order.flatMap fun t => ((schedule.filter fun a => a.1 = t).map Prod.snd).filter fun o =>
      key o = k := by
        rw [List.map_flatMap]
        refine List.flatMap_congr fun t _ => ?_
        rw [List.filter_map, List.filter_filter, List.filter_filter]
        congr 1
        refine List.filter_congr fun a _ => ?_
        simp [Bool.and_comm]

end Serial

end KeyedWrites
