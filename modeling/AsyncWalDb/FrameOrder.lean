import AsyncWalDb.Wal
import Mathlib.Data.Multiset.AddSub
import Mathlib.Tactic.Abel

/-! The order of frames in the file. Items leave the queue in order, but several drains can hold
batches at once, and the file order is decided by who takes the lock first. What must not be
overtaken is a parameter: `Must o c` says that `o` has to be written before `c`. -/
namespace AsyncWalDb

open Interleaving

def Piece.begins : Piece → Option Item
  | .header it => some it
  | .payload _ => none

def begun (w : Wal) : List Item := w.stream.filterMap Piece.begins

def framesOf (its : List Item) : List Piece := its.flatMap fun it => [.header it, .payload it]

def DrainPc.unbegun : DrainPc → List Item
  | .pop batch | .lock batch => batch
  | .write _ rest headed => if headed then rest.tail else rest
  | .sync _ | .sub _ | .wake => []

def unbegunBy : Option WalCall → List Item
  | some (.drain _ pc) => pc.unbegun
  | _ => []

def holds : Option WalCall → Bool
  | some c => c.holdsLock
  | none => false

/-- Every item that must precede an item of `out` is in `before` or earlier in `out`. -/
def Follows (Must : Item → Item → Prop) (history before out : List Item) : Prop :=
  ∀ pre c post, out = pre ++ c :: post → ∀ o ∈ history, Must o c → o ∈ before ∨ o ∈ pre

/-- A drain that takes the lock holds nothing that an
unwritten item of another drain must precede. -/
def LockOrder (Must : Item → Item → Prop) (σ : WalConfig) (i : Nat) : Prop :=
  match σ.tasks[i]? with
  | some (some (.drain _ (.lock batch))) =>
    ∀ c ∈ batch, ∀ u ∈ σ.others i, ∀ o ∈ unbegunBy u, ¬ Must o c
  | _ => True

instance (Must : Item → Item → Prop) [∀ o c, Decidable (Must o c)] (σ : WalConfig) (i : Nat) :
    Decidable (LockOrder Must σ i) := by
  unfold LockOrder
  rcases σ.tasks[i]? with _ | _ | _ | _ | ⟨_, _ | _ | _ | _ | _ | _⟩ <;> infer_instance

variable {crates : Crates} {σ σ' : WalConfig} {a : WalAction} {i : Nat} {w w' : Wal} {c : WalCall}
  {t : Option WalCall} {Must : Item → Item → Prop} {history before : List Item}

section Follows

theorem follows_nil : Follows Must history before [] := by
  intro pre c post split
  simp at split

theorem follows_append {xs ys : List Item} :
    Follows Must history before (xs ++ ys) ↔
      Follows Must history before xs ∧ Follows Must history (before ++ xs) ys := by
  constructor
  · intro h
    refine ⟨fun pre c post split o ho must => ?_, fun pre c post split o ho must => ?_⟩
    · exact h pre c (post ++ ys) (by rw [split]; simp) o ho must
    · have somewhere := h (xs ++ pre) c post (by rw [split]; simp) o ho must
      simpa [or_assoc] using somewhere
  · rintro ⟨front, back⟩ pre c post split o ho must
    rcases List.append_eq_append_iff.mp split with ⟨mid, rfl, rest⟩ | ⟨mid, rfl, rest⟩
    · have somewhere := back mid c post rest o ho must
      simpa [or_assoc] using somewhere
    · cases mid with
      | nil =>
        have somewhere := back [] c post (by simpa using rest.symm) o ho must
        simpa using somewhere
      | cons d mid =>
        obtain ⟨rfl, rfl⟩ := List.cons.inj rest
        exact front pre c mid rfl o ho must

end Follows

section Lock

structure LockOk (σ : WalConfig) : Prop where
  locked : ∀ (j : Nat) (t : Option WalCall), σ.tasks[j]? = some t → holds t = true →
    σ.shared.locked = true
  alone : ∀ (j k : Nat) (t u : Option WalCall), σ.tasks[j]? = some t → σ.tasks[k]? = some u →
    holds t = true → holds u = true → j = k
  held : σ.shared.locked = true → ∃ (j : Nat) (t : Option WalCall), σ.tasks[j]? = some t ∧
    holds t = true

theorem runs_lock (h : Runs crates i w c w' t) :
    (w'.locked = w.locked ∧ holds t = holds (some c)) ∨ (w.locked = false ∧ w'.locked = true ∧
      holds t = true) ∨
      (holds (some c) = true ∧ w'.locked = false ∧ holds t = false) := by
  cases h with
  | lock free => exact .inr (.inl ⟨free, rfl, rfl⟩)
  | wake => exact .inr (.inr ⟨rfl, rfl, rfl⟩)
  | wait | reserve | push | appended | poll | force | drained | pop | empty | popped | header
  | payload | flush | sync
  | sub => exact .inl ⟨rfl, rfl⟩

theorem runs_stream (h : Runs crates i w c w' t) :
    w'.stream = w.stream ∨ holds (some c) = true := by
  cases h with
  | header | payload => exact .inr rfl
  | wait | reserve | push | appended | poll | force | drained | pop | empty | popped | lock | flush
  | sync | sub | wake =>
    exact .inl rfl

theorem lockOk_set (ok : LockOk σ) {s : Wal} (slot : σ.tasks[i]? = some t) {t' : Option WalCall}
    (effect : (s.locked = σ.shared.locked ∧ holds t' = holds t) ∨
      (σ.shared.locked = false ∧ s.locked = true ∧ holds t' = true) ∨
      (holds t = true ∧ s.locked = false ∧ holds t' = false)) : LockOk ⟨s, σ.tasks.set i t'⟩ := by
  have here : (σ.tasks.set i t')[i]? = some t' := by simp [(List.getElem?_eq_some_iff.mp slot).1]
  refine ⟨fun j u hj hu => ?_, fun j k u v hj hk hu hv => ?_, fun now => ?_⟩
  · rcases getElem?_set_cases hj with ⟨rfl, rfl, _⟩ | ⟨other, old⟩
    · rcases effect with ⟨same, kept⟩ | ⟨_, now, _⟩ | ⟨_, _, none⟩
      · exact same.trans (ok.locked _ _ slot (kept ▸ hu))
      · exact now
      · rw [hu] at none; cases none
    · rcases effect with ⟨same, _⟩ | ⟨_, now, _⟩ | ⟨held, _, _⟩
      · exact same.trans (ok.locked j u old hu)
      · exact now
      · exact absurd (ok.alone j i u t old slot hu held) other
  · rcases getElem?_set_cases hj with ⟨rfl, rfl, _⟩ | ⟨other, old⟩ <;>
      rcases getElem?_set_cases hk with ⟨rfl, rfl, _⟩ | ⟨other', old'⟩
    · rfl
    · rcases effect with ⟨_, kept⟩ | ⟨free, _⟩ | ⟨_, _, none⟩
      · exact ok.alone _ _ _ _ slot old' (kept ▸ hu) hv
      · rw [ok.locked k v old' hv] at free; cases free
      · rw [hu] at none; cases none
    · rcases effect with ⟨_, kept⟩ | ⟨free, _⟩ | ⟨_, _, none⟩
      · exact ok.alone _ _ _ _ old slot hu (kept ▸ hv)
      · rw [ok.locked j u old hu] at free; cases free
      · rw [hv] at none; cases none
    · exact ok.alone j k u v old old' hu hv
  · rcases effect with ⟨same, kept⟩ | ⟨_, _, mine⟩ | ⟨_, free, _⟩
    · obtain ⟨j, u, at_j, held⟩ := ok.held (same ▸ now)
      by_cases own : j = i
      · subst own
        cases Option.some.inj (at_j.symm.trans slot)
        exact ⟨j, t', here, kept.trans held⟩
      · exact ⟨j, u, by rw [List.getElem?_set_ne (Ne.symm own)]; exact at_j, held⟩
    · exact ⟨i, t', here, mine⟩
    · rw [show s.locked = true from now] at free; cases free

theorem holds_fresh {t : Option WalCall} (h : Fresh w t) : holds t = false := by
  cases h <;> rfl

theorem lockOk_step (ok : LockOk σ) (step : WalStep crates σ a σ') : LockOk σ' := by
  cases step with
  | spawn =>
    refine ⟨fun j t hj ht => ?_, fun j k t u hj hk ht hu => ?_, fun now => ?_⟩
    · rcases getElem?_append_one hj with old | ⟨_, rfl⟩
      · exact ok.locked j t old ht
      · cases ht
    · rcases getElem?_append_one hj with old | ⟨_, rfl⟩
      · rcases getElem?_append_one hk with old' | ⟨_, rfl⟩
        · exact ok.alone j k t u old old' ht hu
        · cases hu
      · cases ht
    · obtain ⟨j, t, at_j, held⟩ := ok.held now
      exact ⟨j, t,
        by rw [List.getElem?_append_left (List.getElem?_eq_some_iff.mp at_j).1]; exact at_j, held⟩
  | start flushNotify slot fresh own => exact lockOk_set ok slot (.inl ⟨rfl, holds_fresh fresh⟩)
  | run slot runs => exact lockOk_set ok slot (runs_lock runs)
  | @fault i c k slot fallible stops =>
    refine lockOk_set ok slot ?_
    cases held : c.holdsLock with
    | false => exact .inl ⟨by simp [WalCall.release, held], held.symm⟩
    | true => exact .inr (.inr ⟨held, by simp [WalCall.release, held], rfl⟩)

end Lock

section Placement

def Stamped (w : Wal) : Prop := w.history.map Item.stamp = List.range w.history.length

structure Placement (σ : WalConfig) : Prop where
  conserved : (σ.shared.pending : Multiset Item) +
    σ.total (fun t => (unbegunBy t : Multiset Item)) +
    (begun σ.shared : Multiset Item) = (σ.shared.history : Multiset Item)
  stamped : Stamped σ.shared
  queue : σ.shared.pending <:+ σ.shared.history

theorem begun_append (w : Wal) (p : Piece) :
    begun { w with stream := w.stream ++ [p] } = begun w ++ p.begins.toList := by
  cases p <;> simp [begun, Piece.begins]

theorem runs_conserved (h : Runs crates i w c w' t) :
    (w'.pending : Multiset Item) + (unbegunBy t : Multiset Item) + (begun w' : Multiset Item) +
      (w.history : Multiset Item) =
      (w.pending : Multiset Item) + (unbegunBy (some c) : Multiset Item) +
        (begun w : Multiset Item) +
        (w'.history : Multiset Item) := by
  cases h with
  | push =>
    simp only [unbegunBy, begun, ← Multiset.coe_add]
    abel
  | @pop caller batch it rest front =>
    have cons : (w.pending : Multiset Item) = ([it] : List Item) + (rest : Multiset Item) := by
      rw [front]; rfl
    simp only [unbegunBy, DrainPc.unbegun, begun, ← Multiset.coe_add, cons]
    abel
  | @header caller done it rest fits =>
    have cons : ((it :: rest : List Item) : Multiset Item) = ([it] : List Item) +
      (rest : Multiset Item) := rfl
    simp only [begun_append, unbegunBy, DrainPc.unbegun, Piece.begins, Option.toList,
      ← Multiset.coe_add, cons,
      Bool.false_eq_true, if_false, if_true, List.tail_cons]
    abel
  | @payload caller done it rest =>
    rw [begun_append]
    simp [unbegunBy, DrainPc.unbegun, Piece.begins]
  | @flush caller done headed => cases headed <;> rfl
  | wait | reserve | appended | poll | force | drained | empty | popped | lock | sync
  | sub | wake => rfl

theorem runs_queue (h : Runs crates i w c w' t) (queue : w.pending <:+ w.history) :
    w'.pending <:+ w'.history := by
  cases h with
  | push =>
    obtain ⟨front, split⟩ := queue
    exact ⟨front, by simp [← split]⟩
  | @pop caller batch it rest front =>
    rw [front] at queue
    exact (List.suffix_cons it rest).trans queue
  | wait | reserve | appended | poll | force | drained | empty | popped | lock | header | payload
  | flush | sync | sub
  | wake => exact queue

theorem runs_stamped (h : Runs crates i w c w' t) (stamped : Stamped w) : Stamped w' := by
  cases h with
  | push =>
    rw [Stamped, List.map_append, stamped, List.length_append, List.length_singleton,
      List.range_succ]
    rfl
  | wait | reserve | appended | poll | force | drained | pop | empty | popped | lock | header
  | payload | flush | sync
  | sub | wake => exact stamped

theorem unbegun_fresh (h : Fresh w t) : unbegunBy t = [] := by
  cases h <;> rfl

theorem conserved_step {f : Option WalCall → Multiset Item} {g : Wal → Multiset Item}
    (idle : f none = 0) (fresh : ∀ {w t}, Fresh w t → f t = 0)
    (notified : ∀ w b, g { w with flushNotify := b } = g w)
    (moved : ∀ {i w w' c t}, Runs crates i w c w' t →
      (w'.pending : Multiset Item) + f t + g w' + (w.history : Multiset Item) =
        (w.pending : Multiset Item) + f (some c) + g w + (w'.history : Multiset Item))
    (conserved : (σ.shared.pending : Multiset Item) + σ.total f + g σ.shared =
      (σ.shared.history : Multiset Item))
    (step : WalStep crates σ a σ') (faultless : Faultless a) :
    (σ'.shared.pending : Multiset Item) + σ'.total f + g σ'.shared =
      (σ'.shared.history : Multiset Item) := by
  cases step with
  | spawn =>
    rw [total_spawn, idle, add_zero]
    exact conserved
  | start flushNotify slot started own =>
    obtain ⟨rest, before, after⟩ := total_move f slot
    rw [after, fresh started, notified]
    rw [before, idle] at conserved
    exact conserved
  | @run i c w' t slot runs =>
    obtain ⟨rest, before, after⟩ := total_move f slot
    have kept := moved runs
    rw [before] at conserved
    rw [after]
    rw [← conserved] at kept
    apply add_left_cancel (a := (σ.shared.pending : Multiset Item) + f (some c) + g σ.shared)
    rw [← kept]
    abel
  | @fault i c k slot fallible stops =>
    cases k with
    | run => exact absurd rfl stops
    | fail | drop => exact faultless.elim

theorem placement_new {m : Nat} {tasks : List (Option WalCall)} (idle : ∀ t ∈ tasks, t = none) :
    Placement ⟨Wal.new m, tasks⟩ := by
  have none_held : Config.total (fun t => (unbegunBy t : Multiset Item)) (⟨Wal.new m,
      tasks⟩ : WalConfig) = 0 :=
    total_idle _ fun t ht => by rw [idle t ht]; rfl
  refine ⟨?_, rfl, List.nil_suffix⟩
  rw [none_held]
  rfl

theorem placement_step (ok : Placement σ) (step : WalStep crates σ a σ') (faultless : Faultless a) :
    Placement σ' := by
  obtain ⟨conserved, stamped, queue⟩ := ok
  refine ⟨conserved_step rfl (fun h => by rw [unbegun_fresh h]; rfl) (fun _ _ => rfl)
    runs_conserved conserved step
    faultless, ?_, ?_⟩
  · cases step with
    | spawn | start => exact stamped
    | run slot runs => exact runs_stamped runs stamped
    | @fault i c k => cases k <;> contradiction
  · cases step with
    | spawn | start => exact queue
    | run slot runs => exact runs_queue runs queue
    | @fault i c k => cases k <;> contradiction

theorem Placement.sorted (ok : Placement σ) : σ.shared.history.Pairwise fun a b =>
    a.stamp < b.stamp := by
  have ascending := List.pairwise_lt_range (n := σ.shared.history.length)
  rw [← ok.stamped, List.pairwise_map] at ascending
  exact ascending

theorem Placement.nodup (ok : Placement σ) : σ.shared.history.Nodup :=
  ok.sorted.imp fun lt same => by rw [same] at lt; exact absurd lt (lt_irrefl _)

theorem Placement.stamp_lt (ok : Placement σ) {it : Item} (h : it ∈ σ.shared.history) :
    it.stamp < σ.shared.history.length := by
  have mem := List.mem_map_of_mem (f := Item.stamp) h
  rw [ok.stamped] at mem
  exact List.mem_range.mp mem

theorem Placement.stamp_inj (ok : Placement σ) {a b : Item} (ha : a ∈ σ.shared.history)
    (hb : b ∈ σ.shared.history) (same : a.stamp = b.stamp) : a = b := by
  have distinct : (σ.shared.history.map Item.stamp).Nodup := ok.stamped ▸ List.nodup_range
  exact List.inj_on_of_nodup_map distinct ha hb same

theorem Placement.somewhere (ok : Placement σ) {it : Item} :
    it ∈ σ.shared.history ↔ it ∈ σ.shared.pending ∨
      (∃ (j : Nat) (u : Option WalCall), σ.tasks[j]? = some u ∧ it ∈ unbegunBy u) ∨
        it ∈ begun σ.shared := by
  rw [← Multiset.mem_coe, ← ok.conserved, Multiset.mem_add, Multiset.mem_add, mem_total, or_assoc]
  simp only [Multiset.mem_coe]

theorem Placement.before_pending (ok : Placement σ) {j : Nat} {u : Option WalCall}
    (slot : σ.tasks[j]? = some u)
    {b p : Item} (hb : b ∈ unbegunBy u) (hp : p ∈ σ.shared.pending) : b.stamp < p.stamp := by
  obtain ⟨front, split⟩ := ok.queue
  have left : σ.total (fun t => (unbegunBy t : Multiset Item)) + (begun σ.shared : Multiset Item) =
      (front : Multiset Item) := by
    have conserved := ok.conserved
    rw [← split, ← Multiset.coe_add, add_assoc, add_comm] at conserved
    exact add_right_cancel conserved
  have mem : b ∈ front := by
    rw [← Multiset.mem_coe, ← left, Multiset.mem_add, mem_total]
    exact .inl ⟨j, u, slot, hb⟩
  have sorted := ok.sorted
  rw [← split] at sorted
  exact (List.pairwise_append.mp sorted).2.2 b mem p hp

theorem Placement.begun_le (ok : Placement σ) : (begun σ.shared : Multiset Item) ≤
    (σ.shared.history : Multiset Item) :=
  ok.conserved ▸ Multiset.le_add_left _ _

end Placement

section Ordered

def openedBy : Option WalCall → Option Item
  | some (.drain _ (.write _ (it :: _) true)) => some it
  | _ => none

/-- What holds of the file in every run without faults whose lock order respects `Must`. -/
structure FramesOrdered (crates : Crates) (Must : Item → Item → Prop) (σ : WalConfig) : Prop where
  lock : LockOk σ
  placed : Placement σ
  sorted : ∀ (j : Nat) (t : Option WalCall), σ.tasks[j]? = some t → (unbegunBy t).Pairwise
    fun a b => a.stamp < b.stamp
  ahead : ∀ (j : Nat) (t : Option WalCall), σ.tasks[j]? = some t → holds t = true →
    Follows Must σ.shared.history (begun σ.shared) (unbegunBy t)
  behind : Follows Must σ.shared.history [] (begun σ.shared)
  closed : σ.shared.locked = false → ∃ ws, σ.shared.stream = framesOf ws
  framed : ∀ (j : Nat) (t : Option WalCall), σ.tasks[j]? = some t → holds t = true →
    ∃ ws, σ.shared.stream = framesOf ws ++ (openedBy t).toList.map Piece.header
  fits : ∀ it ∈ begun σ.shared, crates.Fits it.entry

theorem runs_sorted (h : Runs crates i w c w' t)
    (sorted : (unbegunBy (some c)).Pairwise fun a b => a.stamp < b.stamp)
    (queued : ∀ b ∈ unbegunBy (some c), ∀ p ∈ w.pending, b.stamp < p.stamp) :
    (unbegunBy t).Pairwise fun a b => a.stamp < b.stamp := by
  cases h with
  | @pop caller batch it rest front =>
    refine List.pairwise_append.mpr ⟨sorted, List.pairwise_singleton _ _, fun b hb p hp => ?_⟩
    cases List.mem_singleton.mp hp
    exact queued b hb it (front ▸ List.mem_cons_self)
  | header => exact (List.pairwise_cons.mp sorted).2
  | lock | payload => exact sorted
  | wait | reserve | push | appended | poll | force | drained | empty | popped | flush
  | sync | sub | wake =>
    first | exact sorted | exact List.Pairwise.nil

theorem FramesOrdered.locks (ok : FramesOrdered crates Must σ)
    (older : ∀ o c, Must o c → o.stamp < c.stamp) {caller : Caller} {batch : List Item}
    (slot : σ.tasks[i]? = some (some (.drain caller (.lock batch))))
    (order : LockOrder Must σ i) : Follows Must σ.shared.history (begun σ.shared) batch := by
  simp only [LockOrder, slot] at order
  intro pre c post split o ho must
  have hc : c ∈ batch := by rw [split]; simp
  have lt := older o c must
  rcases ok.placed.somewhere.mp ho with queued | ⟨j, u, at_j, held⟩ | written
  · have gt := ok.placed.before_pending slot (b := c) hc queued
    omega
  · by_cases own : j = i
    · subst own
      cases Option.some.inj (at_j.symm.trans slot)
      -- the batch is sorted, so the older item stands before `c`
      have sorted := ok.sorted j _ slot
      simp only [unbegunBy, DrainPc.unbegun] at held sorted
      rw [split] at held sorted
      have after := (List.pairwise_cons.mp (List.pairwise_append.mp sorted).2.1).1
      rcases List.mem_append.mp held with front | back
      · exact .inr front
      · rcases List.mem_cons.mp back with rfl | later
        · omega
        · have gt := after o later
          omega
    · exact absurd must (order c hc u (mem_others at_j own) o held)
  · exact .inl written

theorem runs_ahead (h : Runs crates i w c w' t)
    (ahead : (holds (some c) = true ∨ ∃ caller batch, c = .drain caller (.lock batch)) →
      Follows Must w.history (begun w) (unbegunBy (some c))) (locked : holds t = true) :
    Follows Must w'.history (begun w') (unbegunBy t) := by
  cases h with
  | lock => exact ahead (.inr ⟨_, _, rfl⟩)
  | @header caller done it rest fits =>
    have parts := ahead (.inl rfl)
    rw [show unbegunBy (some (.drain caller (.write done (it :: rest) false))) = [it] ++ rest
      from rfl,
      follows_append] at parts
    rw [begun_append]
    exact parts.2
  | @payload caller done it rest =>
    rw [begun_append]
    simpa [Piece.begins, unbegunBy, DrainPc.unbegun] using ahead (.inl rfl)
  | flush | sync | sub => exact follows_nil
  | wait | reserve | push | poll | force | pop | popped | appended | drained | empty | wake =>
    cases locked

theorem runs_behind (h : Runs crates i w c w' t)
    (ahead : holds (some c) = true → Follows Must w.history (begun w) (unbegunBy (some c)))
    (behind : Follows Must w.history [] (begun w)) (late : ∀ it ∈ w'.history, it ∉ w.history →
      ∀ c ∈ begun w, ¬ Must it c) : Follows Must w'.history [] (begun w') := by
  cases h with
  | @header caller done it rest fits =>
    have parts := ahead rfl
    rw [show unbegunBy (some (.drain caller (.write done (it :: rest) false))) = [it] ++ rest
      from rfl,
      follows_append] at parts
    rw [begun_append]
    exact follows_append.mpr ⟨behind, parts.1⟩
  | payload =>
    rw [begun_append]
    simpa [Piece.begins] using behind
  | push =>
    intro pre c post split o ho must
    by_cases old : o ∈ w.history
    · exact behind pre c post split o old must
    · have written : c ∈ begun w := by rw [show begun w = pre ++ c :: post from split]; simp
      exact absurd must (late o ho old c written)
  | wait | reserve | appended | poll | force | drained | pop | empty | popped | lock | flush
  | sync | sub | wake =>
    exact behind

theorem framesOf_snoc (ws : List Item) (it : Item) :
    framesOf ws ++ [.header it] ++ [.payload it] = framesOf (ws ++ [it]) := by
  simp [framesOf]

theorem runs_framed (h : Runs crates i w c w' t)
    (closed : w.locked = false → ∃ ws, w.stream = framesOf ws)
    (framed : holds (some c) = true → ∃ ws, w.stream = framesOf ws ++
      (openedBy (some c)).toList.map Piece.header)
    (locked : holds t = true) :
    ∃ ws, w'.stream = framesOf ws ++ (openedBy t).toList.map Piece.header := by
  cases h with
  | lock free =>
    obtain ⟨ws, same⟩ := closed free
    exact ⟨ws, by simp [same, openedBy]⟩
  | header fits =>
    obtain ⟨ws, same⟩ := framed rfl
    exact ⟨ws, by simp [same, openedBy]⟩
  | @payload caller done it rest =>
    obtain ⟨ws, same⟩ := framed rfl
    refine ⟨ws ++ [it], ?_⟩
    have opened : openedBy (some (.drain caller (.write (done ++ [it]) rest false))) = none := by
      cases rest <;> rfl
    rw [opened, ← framesOf_snoc]
    simp [same, openedBy]
  | flush | sync | sub => exact framed rfl
  | wait | reserve | push | poll | force | pop | popped | appended | drained | empty | wake =>
    cases locked

theorem runs_closed (h : Runs crates i w c w' t)
    (closed : w.locked = false → ∃ ws, w.stream = framesOf ws)
    (framed : holds (some c) = true → ∃ ws, w.stream = framesOf ws ++
      (openedBy (some c)).toList.map Piece.header)
    (owned : holds (some c) = true → w.locked = true) (free : w'.locked = false) :
    ∃ ws, w'.stream = framesOf ws := by
  cases h with
  | lock => cases free
  | header | payload | flush | sync | sub => exact absurd (owned rfl) (Bool.eq_false_iff.mp free)
  | wake =>
    obtain ⟨ws, same⟩ := framed rfl
    exact ⟨ws, by simpa [openedBy] using same⟩
  | wait | reserve | push | appended | poll | force | drained | pop | empty | popped =>
    exact closed free

theorem runs_fits (h : Runs crates i w c w' t) (fits : ∀ it ∈ begun w, crates.Fits it.entry) :
    ∀ it ∈ begun w', crates.Fits it.entry := by
  cases h with
  | @header caller done it rest fit =>
    intro it' hit
    rw [begun_append] at hit
    rcases List.mem_append.mp hit with old | new
    · exact fits it' old
    · cases List.mem_singleton.mp new
      exact fit
  | payload =>
    rw [begun_append]
    simpa [Piece.begins] using fits
  | wait | reserve | push | appended | poll | force | drained | pop | empty | popped | lock | flush
  | sync | sub | wake =>
    exact fits

theorem framesOrdered_step (ok : FramesOrdered crates Must σ)
    (older : ∀ o c, Must o c → o.stamp < c.stamp)
    (step : WalStep crates σ a σ') (guard : NoFaultAnd (LockOrder Must) σ a) :
    FramesOrdered crates Must σ' := by
  have lock := lockOk_step ok.lock step
  have placed := placement_step ok.placed step guard.faultless
  cases step with
  | spawn =>
    refine ⟨lock, placed, fun j t hj => ?_, fun j t hj held => ?_, ok.behind, ok.closed,
      fun j t hj held => ?_, ok.fits⟩ <;>
      rcases getElem?_append_one hj with old | ⟨_, rfl⟩
    · exact ok.sorted j t old
    · exact List.Pairwise.nil
    · exact ok.ahead j t old held
    · cases held
    · exact ok.framed j t old held
    · cases held
  | start flushNotify slot fresh own =>
    refine ⟨lock, placed, fun j t hj => ?_, fun j t hj held => ?_, ok.behind, ok.closed,
      fun j t hj held => ?_, ok.fits⟩ <;>
      rcases getElem?_set_cases hj with ⟨_, rfl, _⟩ | ⟨_, old⟩
    · rw [unbegun_fresh fresh]; exact List.Pairwise.nil
    · exact ok.sorted j t old
    · rw [holds_fresh fresh] at held; cases held
    · exact ok.ahead j t old held
    · rw [holds_fresh fresh] at held; cases held
    · exact ok.framed j t old held
  | @run i c w' t slot runs =>
    have owned : holds (some c) = true → σ.shared.locked = true := ok.lock.locked i _ slot
    have framed := ok.framed i _ slot
    have late : ∀ it ∈ w'.history, it ∉ σ.shared.history → ∀ d ∈ σ.shared.history, ¬ Must it d := by
      intro it hit new d hd must
      have lt := older it d must
      have bound := ok.placed.stamp_lt hd
      rcases runs_mem_history runs hit with old | ⟨_, stamp⟩
      · exact new old
      · omega
    have begun_pushed : ∀ d ∈ begun σ.shared, d ∈ σ.shared.history := fun d hd =>
      ok.placed.somewhere.mpr (.inr (.inr hd))
    have others : ∀ (j : Nat) (u : Option WalCall), j ≠ i → σ.tasks[j]? = some u → holds u = true →
        w'.stream = σ.shared.stream := by
      intro j u other at_j held
      refine (runs_stream runs).resolve_right fun mine => ?_
      exact other (ok.lock.alone j i u _ at_j slot held mine)
    refine ⟨lock, placed, fun j u hj => ?_, fun j u hj held => ?_, ?_, ?_, fun j u hj held => ?_,
      runs_fits runs ok.fits⟩
    · rcases getElem?_set_cases hj with ⟨_, rfl, _⟩ | ⟨_, old⟩
      · exact runs_sorted runs (ok.sorted i _ slot) fun b hb p hp =>
          ok.placed.before_pending slot hb hp
      · exact ok.sorted j u old
    · rcases getElem?_set_cases hj with ⟨_, rfl, _⟩ | ⟨other, old⟩
      · refine runs_ahead runs ?_ held
        rintro (mine | ⟨caller, batch, rfl⟩)
        · exact ok.ahead i _ slot mine
        · exact ok.locks older slot guard
      · have same : begun w' = begun σ.shared := by rw [begun, begun, others j u other old held]
        have before := ok.ahead j u old held
        change Follows Must w'.history (begun w') (unbegunBy u)
        rw [same]
        intro pre d post split o ho must
        by_cases known : o ∈ σ.shared.history
        · exact before pre d post split o known must
        · have pushed : d ∈ σ.shared.history :=
            ok.placed.somewhere.mpr (.inr (.inl ⟨j, u, old, by rw [split]; simp⟩))
          exact absurd must (late o ho known d pushed)
    · exact runs_behind runs (ok.ahead i _ slot) ok.behind fun it hit new d hd =>
        late it hit new d (begun_pushed d hd)
    · exact runs_closed runs ok.closed framed owned
    · rcases getElem?_set_cases hj with ⟨_, rfl, _⟩ | ⟨other, old⟩
      · exact runs_framed runs ok.closed framed held
      · obtain ⟨ws, same⟩ := ok.framed j u old held
        exact ⟨ws, (others j u other old held).trans same⟩
  | @fault i c k slot fallible stops =>
    cases k with
    | run => exact absurd rfl stops
    | fail | drop => exact guard.elim

theorem framesOrdered_run {m : Nat} {tasks : List (Option WalCall)} (idle : ∀ t ∈ tasks, t = none)
    (older : ∀ o c, Must o c → o.stamp < c.stamp)
    (run : (walProtocol crates).Reaches (NoFaultAnd (LockOrder Must)) ⟨Wal.new m, tasks⟩ σ) :
    FramesOrdered crates Must σ := by
  have none_at : ∀ (j : Nat) (t : Option WalCall), tasks[j]? = some t → t = none :=
    fun j t hj => idle t (List.mem_of_getElem? hj)
  apply run.invariant
  · refine ⟨⟨fun j t hj held => ?_, fun j k t u hj hk held _ => ?_, fun now => by cases now⟩,
      placement_new idle,
      fun j t hj => ?_, fun j t hj held => ?_, follows_nil, fun _ => ⟨[], rfl⟩,
        fun j t hj held => ?_, by simp [begun, Wal.new]⟩
    · cases none_at j t hj; cases held
    · cases none_at j t hj; cases held
    · cases none_at j t hj; exact List.Pairwise.nil
    · cases none_at j t hj; cases held
    · cases none_at j t hj; cases held
  · intro τ a τ' ok guard taken
    exact framesOrdered_step ok older (wal_step_cases taken) guard

theorem NoFaultAnd.of_faultless {C : WalConfig → Nat → Prop} (always : ∀ σ i, C σ i)
    (faultless : Faultless a) : NoFaultAnd C σ a := by
  unfold NoFaultAnd
  split
  · exact always _ _
  · rename_i k stops
    cases k with
    | run => exact absurd rfl stops
    | fail | drop => exact faultless.elim
  · trivial

theorem lockOrder_free : LockOrder (fun _ _ => False) σ i := by
  unfold LockOrder
  split
  · exact fun _ _ _ _ _ _ must => must
  · trivial

theorem framesOrdered_faultless {m : Nat}
    (run : (walProtocol crates).Reaches (fun _ a => Faultless a) ⟨Wal.new m, []⟩ σ) :
    FramesOrdered crates (fun _ _ => False) σ := by
  exact framesOrdered_run (List.forall_mem_nil _) (fun _ _ must => must.elim)
    (run.weaken fun _ _ => .of_faultless fun _ _ => lockOrder_free)

end Ordered

end AsyncWalDb
