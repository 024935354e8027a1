import AsyncWalDb.Conserved
import AsyncWalDb.Quiescence

/-! What faults take from the queue. A drain that fails or is dropped keeps its batch on the
counter, and no later call gives the slots back: the counter is what is in use and what was lost,
and the log takes further entries exactly as long as less than the whole capacity is lost. -/
namespace AsyncWalDb

open Interleaving

def lostTotal (seen : List (Nat × Unit)) : Nat := (seen.map Prod.fst).sum

structure Capacity (crates : Crates) (m lost : Nat) (σ : WalConfig) : Prop where
  counter : σ.shared.pendingCount = used σ + lost
  room : used σ + lost ≤ m
  closed : lost = m → ∀ σ', (walProtocol crates).Reaches (fun _ _ => True) σ σ' →
    σ'.shared.history = σ.shared.history
  takes : lost < m → (∀ it ∈ σ.shared.history, crates.Fits it.entry) →
    ∃ σ', (walProtocol crates).Reaches (fun _ a => Faultless a) σ σ' ∧
      σ.shared.history.length < σ'.shared.history.length

variable {crates : Crates} {m i : Nat} {w w' : Wal} {c : WalCall} {t : Option WalCall}
  {σ σ₀ σ' : WalConfig} {a : WalAction}

section Counter

theorem counter_run {seen : List (Nat × Unit)}
    (run : (walProtocol crates).Observed (fun σ a => some (lostBy σ a)) (fun _ => ())
    (fun _ _ => True) ⟨Wal.new m, []⟩ seen σ) :
    σ.shared.pendingCount = used σ + lostTotal seen := by
  apply run.invariant (I := fun seen σ => σ.shared.pendingCount = used σ + lostTotal seen)
  · simp [used, Config.total, Wal.new, lostTotal]
  · intro seen σ a σ' counter _ taken
    have gap := counter_step (wal_step_cases taken) (by omega)
    have more : lostTotal (seen ++ [(lostBy σ a, ())]) = lostTotal seen + lostBy σ a := by
      simp [lostTotal]
    simp only [Option.toList_some, List.map_cons, List.map_nil, more]
    omega

theorem counter_faultless {lost : Nat}
    (run : (walProtocol crates).Reaches (fun _ a => Faultless a) σ σ')
    (counter : σ.shared.pendingCount = used σ + lost) :
    σ'.shared.pendingCount = used σ' + lost := by
  apply run.invariant (I := fun σ => σ.shared.pendingCount = used σ + lost) counter
  intro τ a τ' counter faultless taken
  have gap := counter_step (wal_step_cases taken) (by omega)
  rw [lostBy_faultless faultless] at gap
  omega

end Counter

section Closed

theorem history_unreserved (step : WalStep crates σ a σ') (unused : used σ = 0) :
    σ'.shared.history = σ.shared.history := by
  cases step with
  | spawn | start | fault => rfl
  | run slot runs =>
    cases runs with
    | push =>
      obtain ⟨rest, total, _⟩ := total_move taken slot
      simp [used, total, taken, reservedBy] at unused
    | wait | reserve | appended | poll | force | drained | pop | empty | popped | lock | header
    | payload | flush | sync
    | sub | wake => rfl

theorem closed_run (known : ∀ τ, (walProtocol crates).Reaches (fun _ _ => True) σ τ → Bounded m τ)
    (unused : used σ = 0) (full : σ.shared.pendingCount = m)
    (later : (walProtocol crates).Reaches (fun _ _ => True) σ σ') :
    σ'.shared.history = σ.shared.history := by
  have stays : σ'.shared.history = σ.shared.history ∧ used σ' = 0 ∧ σ'.shared.pendingCount = m := by
    refine later.invariant_with (I := fun τ => τ.shared.history = σ.shared.history ∧ used τ = 0 ∧
      τ.shared.pendingCount = m)
      known ⟨rfl, unused, full⟩ ?_
    rintro τ a τ' _ bounded ⟨same, unused, full⟩ _ taken
    have step := wal_step_cases taken
    have gap := counter_step step (by omega)
    have bound := bounded.count
    exact ⟨(history_unreserved step unused).trans same, by omega, by omega⟩
  exact stays.1

end Closed

section Pushed

structure Pushed (σ : WalConfig) : Prop where
  queue : σ.shared.pending ⊆ σ.shared.history
  held : ∀ (j : Nat) (t : Option WalCall), σ.tasks[j]? = some t → heldBy t ⊆ σ.shared.history

theorem runs_queue_pushed (h : Runs crates i w c w' t) (queue : w.pending ⊆ w.history) :
    w'.pending ⊆ w'.history := by
  cases h with
  | push =>
    exact List.append_subset.mpr ⟨List.subset_append_of_subset_left _ queue,
      List.subset_append_right _ _⟩
  | pop front => exact fun it later => queue (front ▸ List.mem_cons_of_mem _ later)
  | wait | reserve | appended | poll | force | drained | empty | popped | lock | header | payload
  | flush | sync | sub
  | wake => exact queue

theorem pushed_step (ok : Pushed σ) (step : WalStep crates σ a σ') : Pushed σ' := by
  refine ⟨?_, tasks_step ok.held step (fun t held it hit => step_history step (held hit)) ?_ ?_⟩
  · cases step with
    | spawn | start | fault => exact ok.queue
    | run slot runs => exact runs_queue_pushed runs ok.queue
  · intro t fresh
    cases fresh <;> exact List.nil_subset _
  · exact fun i c t _ _ held runs => runs_batch_pushed runs ok.queue held

theorem pushed_run (run : (walProtocol crates).Reaches (fun _ _ => True) ⟨Wal.new m, []⟩ σ) :
    Pushed σ := by
  apply run.invariant
  · exact ⟨List.Subset.refl _, fun j t hj => by cases hj⟩
  · exact fun τ a τ' ok _ taken => pushed_step ok (wal_step_cases taken)

theorem Pushed.stuck (ok : Pushed σ) (fits : ∀ it ∈ σ.shared.history, crates.Fits it.entry)
    (still : ∀ (j : Nat) (c : WalCall), σ.tasks[j]? = some (some c) →
      c.run crates j σ.shared = none) : Stuck crates σ := by
  intro j c slot
  refine ⟨still j c slot, ?_⟩
  rintro caller done it rest rfl
  exact fits it (ok.held j _ slot (by simp [heldBy, DrainPc.batch]))

end Pushed

section Takes

def RunOnly (_ : WalConfig) : WalAction → Prop
  | .move _ (.call .run) => True
  | _ => False

theorem RunOnly.callsOnly (h : RunOnly σ a) : CallsOnly σ a := by
  unfold RunOnly at h
  split at h
  · trivial
  · cases h

theorem RunOnly.faultless (h : RunOnly σ a) : Faultless a := by
  unfold RunOnly at h
  split at h
  · trivial
  · cases h

theorem run_step (slot : σ.tasks[i]? = some (some c))
    (ran : c.run crates i σ.shared = some (w', t)) :
    (walProtocol crates).step σ (.move i (.call .run)) = some ⟨w', σ.tasks.set i t⟩ := by
  simp [Protocol.step, slot, walProtocol, ran]

theorem run_none_of_step (slot : σ.tasks[i]? = some (some c))
    (still : (walProtocol crates).step σ (.move i (.call .run)) = none) :
    c.run crates i σ.shared = none := by
  cases ran : c.run crates i σ.shared with
  | none => rfl
  | some out =>
    rw [run_step slot ran] at still
    cases still

theorem calls_settle (crates : Crates) (guard : WalConfig → WalAction → Prop)
    (calls : ∀ σ a, guard σ a → CallsOnly σ a) (σ : WalConfig) :
    ∃ σ', (walProtocol crates).Reaches guard σ σ' ∧ (walProtocol crates).AtRest guard σ' :=
  (Protocol.Reaches.settles Nat.lt_wfRel.wf movesLeft (J := fun _ => True) (fun _ _ => trivial)
    fun τ a τ' _ ok taken => movesLeft_step τ a τ' (calls τ a ok) taken).1

theorem history_grows (run : (walProtocol crates).Reaches (fun _ a => Faultless a) σ σ') :
    σ.shared.history <+: σ'.shared.history := by
  apply run.invariant (I := fun τ => σ.shared.history <+: τ.shared.history) (List.prefix_refl _)
  intro τ a τ' grown _ taken
  refine grown.trans ?_
  cases wal_step_cases taken with
  | spawn | start | fault => exact List.prefix_refl _
  | run slot runs =>
    rcases runs_history runs with same | ⟨it, _, _, push⟩
    · exact same ▸ List.prefix_refl _
    · exact push ▸ List.prefix_append _ _

/-- A drain on its own in the last slot: its batch is still
growing, or it has seen the queue empty. -/
inductive DrainsAlone (σ₁ σ : WalConfig) : Prop where
  | popping (batch : List Item)
    (tasks : σ.tasks = σ₁.tasks ++ [some (.drain .flusher (.pop batch))])
    (same : σ.shared.history = σ₁.shared.history)
  | popped (pc : DrainPc) (past : ∀ batch, pc ≠ .pop batch)
    (tasks : σ.tasks = σ₁.tasks ++ [some (.drain .flusher pc)])
    (same : σ.shared.history = σ₁.shared.history) (empty : σ.shared.pending = [])
  | returned (tasks : σ.tasks = σ₁.tasks ++ [none]) (same : σ.shared.history = σ₁.shared.history)
      (empty : σ.shared.pending = [])

def OnlyRuns (i : Nat) (_ : WalConfig) (a : WalAction) : Prop := a = .move i (.call .run)

theorem last_run {σ₁ : WalConfig} (tasks : σ.tasks = σ₁.tasks ++ [some c])
    (taken : (walProtocol crates).step σ (.move σ₁.tasks.length (.call .run)) = some σ') :
    ∃ t, Runs crates σ₁.tasks.length σ.shared c σ'.shared t ∧ σ'.tasks = σ₁.tasks ++ [t] := by
  have last : σ.tasks[σ₁.tasks.length]? = some (some c) := by simp [tasks]
  cases wal_step_cases taken with
  | start flushNotify slot => cases Option.some.inj (last.symm.trans slot)
  | @run i c' w' t slot runs =>
    cases Option.some.inj (Option.some.inj (last.symm.trans slot))
    exact ⟨t, runs, by simp [tasks]⟩
  | fault slot fallible stops => exact absurd rfl stops

theorem drainsAlone_step {σ₁ : WalConfig} (alone : DrainsAlone σ₁ σ)
    (only : OnlyRuns σ₁.tasks.length σ a)
    (taken : (walProtocol crates).step σ a = some σ') : DrainsAlone σ₁ σ' := by
  cases only
  cases alone with
  | popping batch tasks same =>
    obtain ⟨t, runs, after⟩ := last_run tasks taken
    generalize h' : σ'.shared = w' at runs
    cases runs with
    | pop front => exact .popping _ after (by rw [h']; exact same)
    | empty none_left =>
      exact .returned after (by rw [h']; exact same) (by rw [h']; exact none_left)
    | popped none_left =>
      exact .popped _ (by simp) after (by rw [h']; exact same) (by rw [h']; exact none_left)
  | popped pc past tasks same empty =>
    obtain ⟨t, runs, after⟩ := last_run tasks taken
    generalize h' : σ'.shared = w' at runs
    cases runs with
    | pop | empty | popped => exact absurd rfl (past _)
    | lock | header | payload | flush | sync | sub =>
      exact .popped _ (by simp) after (by rw [h']; exact same) (by rw [h']; exact empty)
    | wake => exact .returned after (by rw [h']; exact same) (by rw [h']; exact empty)
  | returned tasks same empty =>
    obtain ⟨t, w', t', slot, moved, _⟩ := Protocol.step_move taken
    cases Option.some.inj
      (slot.symm.trans (show σ.tasks[σ₁.tasks.length]? = some none by simp [tasks]))
    cases moved

theorem OnlyRuns.callsOnly (h : OnlyRuns i σ a) : CallsOnly σ a := by
  cases h
  trivial

theorem OnlyRuns.faultless (h : OnlyRuns i σ a) : Faultless a := by
  cases h
  trivial

theorem drains_alone {σ₁ : WalConfig} (stuck : Stuck crates σ₁) (lock : LockOk σ₁)
    (pushed : Pushed σ₁) (fits : ∀ it ∈ σ₁.shared.history, crates.Fits it.entry) :
    ∃ σ', (walProtocol crates).Reaches (fun _ a => Faultless a) σ₁ σ' ∧
      σ'.tasks = σ₁.tasks ++ [none] ∧
      σ'.shared.history = σ₁.shared.history ∧ σ'.shared.pending = [] := by
  let σ₂ : WalConfig := ⟨σ₁.shared, σ₁.tasks ++ [some (.drain .flusher (.pop []))]⟩
  have started : (walProtocol crates).Reaches (fun _ a => Faultless a) σ₁ σ₂ := by
    refine (Protocol.Reaches.start.step (a := .spawn ()) trivial rfl).step
      (a := .move σ₁.tasks.length .drain) trivial ?_
    simp [Protocol.step, walProtocol, σ₂]
  obtain ⟨σ₃, drained, rest⟩ :=
    calls_settle crates (OnlyRuns σ₁.tasks.length) (fun _ _ => OnlyRuns.callsOnly) σ₂
  have alone : DrainsAlone σ₁ σ₃ := drained.invariant (.popping [] rfl rfl) fun τ a τ' =>
    drainsAlone_step
  have run : (walProtocol crates).Reaches (fun _ a => Faultless a) σ₁ σ₃ :=
    started.trans (drained.weaken fun _ _ => OnlyRuns.faultless)
  have lock₃ : LockOk σ₃ := run.invariant lock fun τ a τ' ok _ taken =>
    lockOk_step ok (wal_step_cases taken)
  have pushed₃ : Pushed σ₃ := run.invariant pushed fun τ a τ' ok _ taken =>
    pushed_step ok (wal_step_cases taken)
  have still : ∀ c, σ₃.tasks = σ₁.tasks ++ [some c] → σ₃.shared.history = σ₁.shared.history →
      ∀ caller pc, c ≠ .drain caller pc := by
    rintro _ tasks same caller pc rfl
    have slot : σ₃.tasks[σ₁.tasks.length]? = some (some (.drain caller pc)) := by simp [tasks]
    rcases run_none (run_none_of_step slot (rest _ rfl)) with ⟨e, other⟩ | ⟨locked, free⟩
      | ⟨_, done, it, left, stands, unfit⟩
    · cases other
    · -- whoever holds the lock slept in an append when the drain started
      obtain ⟨j, t, at_j, held⟩ := lock₃.held locked
      rw [tasks] at at_j
      rcases getElem?_append_one at_j with old | ⟨_, rfl⟩
      · cases t with
        | none => cases held
        | some c =>
          obtain ⟨e, rfl⟩ := stuck.asleep lock (List.mem_of_getElem? old)
          cases held
      · exact Bool.false_ne_true (free.symm.trans held)
    · refine unfit (fits it (same ▸ pushed₃.held _ _ slot ?_))
      rw [stands]
      simp [heldBy, DrainPc.batch]
  cases alone with
  | popping batch tasks same => exact absurd rfl (still _ tasks same _ _)
  | popped pc past tasks same => exact absurd rfl (still _ tasks same _ _)
  | returned tasks same empty => exact ⟨σ₃, run, tasks, same, empty⟩

theorem append_alone (crates : Crates) (entry : WalEntry) (slot : σ.tasks[i]? = some none)
    (room : σ.shared.pendingCount < σ.shared.maxQueueSize) :
    ∃ σ', (walProtocol crates).Reaches (fun _ a => Faultless a) σ σ' ∧
      σ'.shared.history = σ.shared.history ++ [⟨σ.shared.history.length, i, entry⟩] := by
  have bound := (List.getElem?_eq_some_iff.mp slot).1
  have move : ∀ {w w' : Wal} {c : WalCall} {t : Option WalCall},
      (walProtocol crates).Reaches (fun _ a => Faultless a) σ ⟨w, σ.tasks.set i (some c)⟩ →
        c.run crates i w = some (w', t) →
        (walProtocol crates).Reaches (fun _ a => Faultless a) σ ⟨w', σ.tasks.set i t⟩ := by
    intro w w' c t before ran
    refine before.step (a := .move i (.call .run)) trivial ?_
    simp [Protocol.step, bound, walProtocol, ran]
  have started : (walProtocol crates).step σ (.move i (.append entry)) =
      some ⟨σ.shared, σ.tasks.set i (some (.append entry .load))⟩ := by
    simp [Protocol.step, slot, walProtocol]
  have loads : WalCall.run crates i σ.shared (.append entry .load) =
      some (σ.shared, some (.append entry (.exchange σ.shared.pendingCount))) := by
    simp only [WalCall.run, appendRun, if_neg (Nat.not_le_of_lt room)]
  have reserves : WalCall.run crates i σ.shared (.append entry (.exchange σ.shared.pendingCount)) =
      some ({ σ.shared with pendingCount := σ.shared.pendingCount + 1 },
        some (.append entry .push)) := by
    simp only [WalCall.run, appendRun, if_pos]
  have begun : (walProtocol crates).Reaches (fun _ a => Faultless a) σ
      ⟨σ.shared, σ.tasks.set i (some (.append entry .load))⟩ :=
    Protocol.Reaches.start.step (a := .move i (.append entry)) trivial started
  exact ⟨_, move (move (move begun loads) reserves) rfl, rfl⟩

theorem takes_more {lost : Nat}
    (run : (walProtocol crates).Reaches (fun _ _ => True) ⟨Wal.new m, []⟩ σ)
    (counter : σ.shared.pendingCount = used σ + lost) (less : lost < m)
    (fits : ∀ it ∈ σ.shared.history, crates.Fits it.entry) :
    ∃ σ', (walProtocol crates).Reaches (fun _ a => Faultless a) σ σ' ∧
      σ.shared.history.length < σ'.shared.history.length := by
  obtain ⟨σ₁, settled, rest⟩ := calls_settle crates RunOnly (fun _ _ => RunOnly.callsOnly) σ
  have run₁ : (walProtocol crates).Reaches (fun _ a => Faultless a) σ σ₁ :=
    settled.weaken fun _ _ => RunOnly.faultless
  rcases (history_grows run₁).length_le.lt_or_eq with grown | same
  · exact ⟨σ₁, run₁, grown⟩
  have same : σ₁.shared.history = σ.shared.history := ((history_grows run₁).eq_of_length same).symm
  have reached := run.trans (run₁.weaken fun _ _ _ => trivial)
  rw [← same] at fits
  have stuck := (pushed_run reached).stuck fits fun j c slot =>
    run_none_of_step slot (rest _ trivial)
  obtain ⟨σ₂, run₂, tasks, kept, empty⟩ :=
    drains_alone stuck (lockOk_run reached) (pushed_run reached) fits
  have unused : used σ₂ = 0 := by
    suffices idle : ∀ t ∈ σ₂.tasks, taken t = 0 by
      rw [used, empty, total_idle taken idle]
      rfl
    intro t mem
    rw [tasks] at mem
    rcases List.mem_append.mp mem with old | last
    · cases t with
      | none => rfl
      | some c =>
        obtain ⟨e, rfl⟩ := stuck.asleep (lockOk_run reached) old
        rfl
    · cases List.mem_singleton.mp last
      rfl
  have free := counter_faultless (run₁.trans run₂) counter
  have size := (bounded_run (reached.trans (run₂.weaken fun _ _ _ => trivial))).size
  have last : σ₂.tasks[σ₁.tasks.length]? = some none := by simp [tasks]
  obtain ⟨σ₃, run₃, pushes⟩ := append_alone crates (.commit 0 0) last (by omega)
  refine ⟨σ₃, (run₁.trans run₂).trans run₃, ?_⟩
  rw [pushes, kept, same]
  simp

end Takes

/-- In every run, whatever fails or is dropped. -/
theorem capacity_lost {seen : List (Nat × Unit)}
    (run : (walProtocol crates).Observed (fun σ a => some (lostBy σ a)) (fun _ => ())
    (fun _ _ => True) ⟨Wal.new m, []⟩ seen σ) : Capacity crates m (lostTotal seen) σ := by
  have counter := counter_run run
  have bounded := bounded_run run.reaches
  have count := bounded.count
  refine ⟨counter, by omega, fun all σ' later => ?_,
    fun less fits => takes_more run.reaches counter less fits⟩
  exact closed_run (fun τ later => bounded_run (run.reaches.trans later)) (by omega)
    (by omega) later

def lossyDrain : List (Nat × Unit) × WalConfig :=
  ((walProtocol (Bincode.crates true)).observe (fun σ a => some (lostBy σ a)) (fun _ => ())
    (fun _ _ => True) ⟨Wal.new 2, []⟩
    failingDrain).get (by decide +kernel)

theorem capacity_lost_failingDrain : lostTotal lossyDrain.1 = 1 ∧
    Capacity (Bincode.crates true) 2 (lostTotal lossyDrain.1) lossyDrain.2 :=
  ⟨by decide +kernel,
    capacity_lost (Protocol.observed_of_observe failingDrain (Option.some_get _).symm)⟩

end AsyncWalDb
