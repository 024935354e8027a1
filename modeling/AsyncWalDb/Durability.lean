import AsyncWalDb.Wal

/-! Where a pushed item can be: in the queue, in the batch of a drain, or durable in the file.
The counter covers the queue, the batches and the reserved slots under every fault. -/
namespace AsyncWalDb

open Interleaving

def DrainPc.unsynced : DrainPc → List Item
  | .sub _ | .wake => []
  | pc => pc.batch

def heldBy : Option WalCall → List Item
  | some (.drain _ pc) => pc.batch
  | _ => []

def unsyncedBy : Option WalCall → List Item
  | some (.drain _ pc) => pc.unsynced
  | _ => []

def reservedBy : Option WalCall → Nat
  | some (.append _ .push) => 1
  | _ => 0

def taken (t : Option WalCall) : Nat := (heldBy t).length + reservedBy t

/-- Queued entries, entries of drains that have not subtracted them, and reserved slots. -/
def used (σ : WalConfig) : Nat := σ.shared.pending.length + σ.total taken

/-- What the failing or dropped call of this step held. -/
def lostBy (σ : WalConfig) : WalAction → Nat
  | .move i (.call .drop) | .move i (.call (.fail _)) => (heldBy (σ.tasks[i]?.getD none)).length
  | _ => 0

theorem lostBy_faultless {σ : WalConfig} {a : WalAction} (faultless : Faultless a) :
    lostBy σ a = 0 := by
  unfold lostBy
  split
  · exact faultless.elim
  · exact faultless.elim
  · rfl

theorem taken_fallible {c : WalCall} (h : c.fallible = true) :
    taken (some c) = (heldBy (some c)).length := by
  have none_reserved : reservedBy (some c) = 0 := by
    unfold reservedBy
    split
    · rename_i same
      cases same
      cases h
    · rfl
  rw [taken, none_reserved, Nat.add_zero]

theorem taken_fresh {w : Wal} {t : Option WalCall} (h : Fresh w t) : taken t = 0 := by
  cases h <;> rfl

variable {crates : Crates} {σ σ' : WalConfig} {a : WalAction}

section Counter

theorem taken_waiting {entry : WalEntry} {pc : AppendPc} (h : pc.waiting = true) :
    taken (some (.append entry pc)) = 0 := by
  cases pc <;> first | rfl | cases h

theorem runs_counter {owner : Nat} {w w' : Wal} {c : WalCall} {t : Option WalCall}
    (h : Runs crates owner w c w' t) (enough : taken (some c) ≤ w.pendingCount) :
    w'.pendingCount + (w.pending.length + taken (some c)) = w.pendingCount +
      (w'.pending.length + taken t) := by
  cases h with
  | wait before after => rw [taken_waiting before, taken_waiting after]
  | reserve =>
    simp only [taken, heldBy, reservedBy, List.length_nil]
    omega
  | push => simp [taken, heldBy, reservedBy]
  | pop front => simp [taken, heldBy, reservedBy, DrainPc.batch, front]; omega
  | payload => simp [taken, heldBy, reservedBy, DrainPc.batch]
  | sub =>
    have covered := enough
    simp only [taken, heldBy, reservedBy, DrainPc.batch, Nat.add_zero] at covered
    simp only [Wal.fetchSub, if_pos covered, taken, heldBy, reservedBy, DrainPc.batch,
      List.length_nil]
    omega
  | appended | poll | force | drained | empty | popped | lock | header | flush | sync | wake =>
    simp [taken, heldBy, reservedBy, DrainPc.batch]

theorem counter_step (step : WalStep crates σ a σ') (covered : used σ ≤ σ.shared.pendingCount) :
    σ'.shared.pendingCount + used σ = σ.shared.pendingCount + used σ' + lostBy σ a := by
  unfold used at covered ⊢
  cases step with
  | spawn =>
    rw [total_spawn]
    rfl
  | start flushNotify slot fresh own =>
    obtain ⟨rest, before, after⟩ := total_move taken slot
    rw [before, after, lostBy_faultless (faultless_own own), taken_fresh fresh]
    rfl
  | run slot runs =>
    obtain ⟨rest, before, after⟩ := total_move taken slot
    rw [before] at covered ⊢
    rw [after, lostBy_faultless (a := .move _ (.call .run)) trivial]
    have kept := runs_counter runs (by omega)
    dsimp only
    omega
  | @fault i c k slot fallible stops =>
    obtain ⟨rest, before, after⟩ := total_move taken slot
    have lost : lostBy σ (.move i (.call k)) = (heldBy (some c)).length := by
      cases k with
      | run => exact absurd rfl stops
      | fail | drop => simp [lostBy, slot]
    rw [before, after, lost, taken_fallible fallible]
    change σ.shared.pendingCount + _ = σ.shared.pendingCount +
      (σ.shared.pending.length + (0 + rest)) + _
    omega

theorem counter_covers {m : Nat}
    (run : (walProtocol crates).Reaches (fun _ _ => True) ⟨Wal.new m, []⟩ σ) :
    used σ ≤ σ.shared.pendingCount := by
  apply run.invariant
  · simp [used, Config.total, Wal.new]
  · intro τ a τ' covered _ taken
    have kept := counter_step (wal_step_cases taken) covered
    omega

def Busy : WalCall → Prop
  | .drain _ (.pop _) | .drain _ .wake => True
  | .drain _ pc => pc.batch ≠ []
  | _ => True

theorem runs_busy {owner : Nat} {w w' : Wal} {c : WalCall} {t : Option WalCall}
    (h : Runs crates owner w c w' t) (busy : Busy c) : ∀ c', t = some c' → Busy c' := by
  rintro c' rfl
  cases h with
  | popped none_left some_popped => exact some_popped
  | payload => simp [Busy, DrainPc.batch]
  | flush => simpa [Busy, DrainPc.batch] using busy
  | lock | header | sync => exact busy
  | wait | reserve | push | poll | force | pop | sub => trivial

theorem busy_run {m : Nat}
    (run : (walProtocol crates).Reaches (fun _ _ => True) ⟨Wal.new m, []⟩ σ) :
    ∀ (j : Nat) (c : WalCall), σ.tasks[j]? = some (some c) → Busy c := by
  apply run.invariant
  · intro j c hj
    cases hj
  · intro τ a τ' before _ taken
    refine calls_step before (wal_step_cases taken) (fun _ => id) ?_ fun i c t _ _ busy runs =>
      runs_busy runs busy
    intro c fresh
    cases fresh <;> trivial

end Counter

section Monotone

/-- The synced part of the file is handed to it, that part is written, and the next stamp is new. -/
structure Wal.Bounds (w : Wal) : Prop where
  synced : w.synced ≤ w.flushed
  flushed : w.flushed ≤ w.stream.length
  stamps : ∀ it ∈ w.history, it.stamp < w.history.length

/-- The file and what is known of it only grow, and nothing comes back into the queue. -/
structure Wal.Extends (w w' : Wal) : Prop where
  stream : w.stream <+: w'.stream
  flushed : w.flushed ≤ w'.flushed
  synced : w.synced ≤ w'.synced
  history : w.history <+: w'.history
  queue : ∀ it ∈ w.history, it ∈ w'.pending → it ∈ w.pending

theorem Wal.inside_mono {w w' : Wal} {n n' : Nat} {it : Item} (ext : w.stream <+: w'.stream)
    (more : n ≤ n') (h : w.Inside n it) : w'.Inside n' it := by
  obtain ⟨tail, ext⟩ := ext
  have grows : w.stream.take n ⊆ w'.stream.take n' := by
    intro p hp
    have wider := List.take_subset_take_left w.stream more hp
    rw [← ext, List.take_append]
    exact List.mem_append_left _ wider
  exact ⟨grows h.1, grows h.2⟩

theorem Wal.inside_all {w : Wal} {it : Item} :
    w.Inside w.stream.length it ↔ .header it ∈ w.stream ∧ .payload it ∈ w.stream := by
  rw [Wal.Inside, List.take_length]

theorem Wal.Extends.durable {w w' : Wal} (ext : w.Extends w') {it : Item} (h : w.Durable it) :
    w'.Durable it :=
  Wal.inside_mono ext.stream ext.synced h

theorem extends_same {w w' : Wal} (stream : w'.stream = w.stream) (flushed : w'.flushed = w.flushed)
    (synced : w'.synced = w.synced) (history : w'.history = w.history)
    (queue : w'.pending ⊆ w.pending) : w.Extends w' :=
  ⟨stream ▸ List.prefix_refl _, flushed ▸ le_rfl, synced ▸ le_rfl, history ▸ List.prefix_refl _,
    fun _ _ back => queue back⟩

variable {owner : Nat} {w w' : Wal} {c : WalCall} {t : Option WalCall}

theorem runs_extends (h : Runs crates owner w c w' t) (bounds : w.Bounds) :
    w.Extends w' ∧ w'.Bounds := by
  obtain ⟨synced, flushed, stamps⟩ := bounds
  have unqueued : ∀ it ∈ w.history, it ∈ w.pending → it ∈ w.pending := fun _ _ => id
  cases h with
  | push =>
    refine ⟨⟨List.prefix_refl _, le_rfl, le_rfl, List.prefix_append _ _, fun it old back => ?_⟩,
      synced, flushed, fun it hit => ?_⟩
    · rcases List.mem_append.mp back with queued | new
      · exact queued
      · have stamp := stamps it old
        rw [List.mem_singleton.mp new] at stamp
        exact absurd stamp (lt_irrefl _)
    · rw [List.length_append, List.length_singleton]
      rcases List.mem_append.mp hit with old | new
      · exact Nat.lt_succ_of_lt (stamps it old)
      · rw [List.mem_singleton.mp new]
        exact Nat.lt_succ_self _
  | header fits =>
    exact ⟨⟨List.prefix_append _ _, le_rfl, le_rfl, List.prefix_refl _, unqueued⟩, synced,
      by simp; omega, stamps⟩
  | payload =>
    exact ⟨⟨List.prefix_append _ _, le_rfl, le_rfl, List.prefix_refl _, unqueued⟩, synced,
      by simp; omega, stamps⟩
  | flush =>
    exact ⟨⟨List.prefix_refl _, flushed, le_rfl, List.prefix_refl _, unqueued⟩,
      le_trans synced flushed, le_rfl, stamps⟩
  | sync =>
    exact ⟨⟨List.prefix_refl _, le_rfl, synced, List.prefix_refl _, unqueued⟩, le_rfl,
      flushed, stamps⟩
  | pop front =>
    exact ⟨extends_same rfl rfl rfl rfl (front ▸ List.subset_cons_self _ _), synced,
      flushed, stamps⟩
  | wait | reserve | appended | poll | force | drained | empty | popped | lock | sub | wake =>
    exact ⟨extends_same rfl rfl rfl rfl (List.Subset.refl _), synced, flushed, stamps⟩

theorem step_extends (step : WalStep crates σ a σ') (bounds : σ.shared.Bounds) :
    σ.shared.Extends σ'.shared ∧ σ'.shared.Bounds := by
  cases step with
  | spawn => exact ⟨extends_same rfl rfl rfl rfl (List.Subset.refl _), bounds⟩
  | start | fault =>
    exact ⟨extends_same rfl rfl rfl rfl (List.Subset.refl _), bounds.synced,
      bounds.flushed, bounds.stamps⟩
  | run slot runs => exact runs_extends runs bounds

end Monotone

section Durable

def DrainOk (w : Wal) : DrainPc → Prop
  | .write done rest headed =>
    (∀ it ∈ done, w.Inside w.stream.length it) ∧
      (headed = true → ∀ it ∈ rest.head?, .header it ∈ w.stream)
  | .sync batch => ∀ it ∈ batch, w.Inside w.flushed it
  | _ => True

/-- What a flush waits for: it is somewhere, once its own drain has seen the queue empty it has left
the queue, and once that drain has the lock it is in the batch of the drain or durable. -/
def Awaited (w : Wal) (before : List Item) : DrainPc → Prop
  | .pop _ => before ⊆ w.history
  | .lock _ => ∀ it ∈ before, it ∈ w.history ∧ it ∉ w.pending
  | pc => ∀ it ∈ before, it ∈ pc.unsynced ∨ w.Durable it

def CallStored (w : Wal) : WalCall → Prop
  | .append _ (.notify it) => it ∈ w.history
  | .drain _ pc => DrainOk w pc
  | _ => True

def CallOk (w : Wal) : WalCall → Prop
  | .append _ (.notify it) => it ∈ w.history
  | .append _ _ => True
  | .flush before _ => before ⊆ w.history
  | .drain caller pc => DrainOk w pc ∧ Awaited w caller.before pc

def Placed (σ : WalConfig) : Prop :=
  ∀ it ∈ σ.shared.history, it ∈ σ.shared.pending ∨
    (∃ (j : Nat) (u : Option WalCall), σ.tasks[j]? = some u ∧ it ∈ unsyncedBy u) ∨
      σ.shared.Durable it

structure Stored (σ : WalConfig) : Prop where
  bounds : σ.shared.Bounds
  covered : used σ ≤ σ.shared.pendingCount
  placed : Placed σ
  returned : σ.shared.returned ⊆ σ.shared.history
  calls : ∀ (j : Nat) (c : WalCall), σ.tasks[j]? = some (some c) → CallStored σ.shared c

/-- No other drain holds one of these and has not synced it. -/
def HeldByNone (σ : WalConfig) (i : Nat) (before : List Item) : Prop :=
  ∀ it ∈ before, ∀ u ∈ σ.others i, it ∉ unsyncedBy u

instance (σ : WalConfig) (i : Nat) (before : List Item) : Decidable (HeldByNone σ i before) := by
  unfold HeldByNone
  infer_instance

/-- When the drain of a flush returns at an empty queue, and when it takes the file lock, no other
drain holds unsynced what was returned before the flush was called. -/
def ForcedDrainAlone (σ : WalConfig) (i : Nat) : Prop :=
  match σ.tasks[i]? with
  | some (some (.drain caller (.pop []))) => σ.shared.pending = [] → HeldByNone σ i caller.before
  | some (some (.drain caller (.lock _))) => HeldByNone σ i caller.before
  | _ => True

instance (σ : WalConfig) (i : Nat) : Decidable (ForcedDrainAlone σ i) := by
  unfold ForcedDrainAlone
  split <;> infer_instance

structure Kept (σ : WalConfig) : Prop where
  bounds : σ.shared.Bounds
  covered : used σ ≤ σ.shared.pendingCount
  placed : Placed σ
  returned : σ.shared.returned ⊆ σ.shared.history
  acked : ∀ it ∈ σ.shared.acked, σ.shared.Durable it
  calls : ∀ (j : Nat) (c : WalCall), σ.tasks[j]? = some (some c) → CallOk σ.shared c

theorem drainOk_mono {w w' : Wal} (ext : w.Extends w') {pc : DrainPc} (h : DrainOk w pc) :
    DrainOk w' pc := by
  cases pc with
  | write done rest headed =>
    exact ⟨fun it hit => Wal.inside_mono ext.stream ext.stream.length_le (h.1 it hit),
      fun headed it hit => ext.stream.subset (h.2 headed it hit)⟩
  | sync batch => exact fun it hit => Wal.inside_mono ext.stream ext.flushed (h it hit)
  | pop | lock | sub | wake => trivial

theorem awaited_mono {w w' : Wal} (ext : w.Extends w') {before : List Item} {pc : DrainPc}
    (h : Awaited w before pc) : Awaited w' before pc := by
  cases pc with
  | pop batch => exact fun it hit => ext.history.subset (h hit)
  | lock batch =>
    intro it hit
    obtain ⟨pushed, unqueued⟩ := h it hit
    exact ⟨ext.history.subset pushed, mt (ext.queue it pushed) unqueued⟩
  | write | sync | sub | wake => exact fun it hit => (h it hit).imp_right ext.durable

theorem callStored_mono {w w' : Wal} (ext : w.Extends w') {c : WalCall} (h : CallStored w c) :
    CallStored w' c := by
  cases c with
  | append entry pc =>
    cases pc with
    | notify it => exact ext.history.subset h
    | load | full | parked | exchange | push => trivial
  | flush before pc => trivial
  | drain caller pc => exact drainOk_mono ext h

theorem CallOk.stored {w : Wal} {c : WalCall} (h : CallOk w c) : CallStored w c := by
  cases c with
  | append entry pc => cases pc <;> exact h
  | flush before pc => trivial
  | drain caller pc => exact h.1

theorem Kept.stored (kept : Kept σ) : Stored σ :=
  ⟨kept.bounds, kept.covered, kept.placed, kept.returned,
    fun j c slot => (kept.calls j c slot).stored⟩

theorem callOk_mono {w w' : Wal} (ext : w.Extends w') {c : WalCall} (h : CallOk w c) :
    CallOk w' c := by
  cases c with
  | append entry pc =>
    cases pc with
    | notify it => exact ext.history.subset h
    | load | full | parked | exchange | push => trivial
  | flush before pc => exact fun it hit => ext.history.subset (h hit)
  | drain caller pc => exact ⟨drainOk_mono ext h.1, awaited_mono ext h.2⟩

theorem Kept.durable_of_zero (kept : Kept σ) (zero : σ.shared.pendingCount = 0) {it : Item}
    (pushed : it ∈ σ.shared.history) : σ.shared.Durable it := by
  have none_used := kept.covered
  rw [zero, used] at none_used
  have no_queue : σ.shared.pending.length = 0 := by omega
  have none_held : σ.total taken = 0 := by omega
  rcases kept.placed it pushed with queued | ⟨j, u, slot, held⟩ | durable
  · rw [List.eq_nil_of_length_eq_zero no_queue] at queued
    cases queued
  · obtain ⟨rest, sum, _⟩ := total_move taken slot
    have empty : heldBy u = [] := List.eq_nil_of_length_eq_zero (by rw [taken] at sum; omega)
    unfold unsyncedBy at held
    unfold heldBy at empty
    split at held
    · rename_i caller pc
      cases pc <;> simp_all [DrainPc.unsynced, DrainPc.batch]
    · cases held
  · exact durable

theorem Stored.awaited (stored : Stored σ) {i : Nat} {t : Option WalCall} {before : List Item}
    (slot : σ.tasks[i]? = some t)
    (left : ∀ it ∈ before, it ∈ σ.shared.history ∧ it ∉ σ.shared.pending)
    (alone : HeldByNone σ i before) : ∀ it ∈ before, it ∈ unsyncedBy t ∨ σ.shared.Durable it := by
  intro it hit
  obtain ⟨pushed, unqueued⟩ := left it hit
  rcases stored.placed it pushed with queued | ⟨j, u, at_j, held⟩ | durable
  · exact absurd queued unqueued
  · by_cases own : j = i
    · subst own
      cases Option.some.inj (at_j.symm.trans slot)
      exact .inl held
    · exact absurd held (alone it hit u (mem_others at_j own))
  · exact .inr durable

theorem Stored.emptied (stored : Stored σ) {i : Nat} {caller : Caller} {before : List Item}
    (slot : σ.tasks[i]? = some (some (.drain caller (.pop [])))) (none_left : σ.shared.pending = [])
    (pushed : before ⊆ σ.shared.history) (alone : HeldByNone σ i before) :
    ∀ it ∈ before, σ.shared.Durable it := by
  intro it hit
  have left : ∀ it ∈ before, it ∈ σ.shared.history ∧ it ∉ σ.shared.pending := fun it hit =>
    ⟨pushed hit, by rw [none_left]; exact List.not_mem_nil⟩
  exact (stored.awaited slot left alone it hit).resolve_left List.not_mem_nil

variable {owner : Nat} {w w' : Wal} {c : WalCall} {t : Option WalCall}

theorem runs_placed (h : Runs crates owner w c w' t) (ok : CallStored w c) :
    (∀ it ∈ w'.history, it ∈ w.history ∨ it ∈ w'.pending) ∧
    (∀ it ∈ w.pending, it ∈ w'.pending ∨ it ∈ unsyncedBy t) ∧
    ∀ it ∈ unsyncedBy (some c), it ∈ unsyncedBy t ∨ w'.Durable it := by
  cases h with
  | push =>
    refine ⟨fun it hit => ?_, fun it hit => .inl (List.mem_append_left _ hit),
      fun it hit => by cases hit⟩
    exact (List.mem_append.mp hit).imp_right (List.mem_append_right _)
  | pop front =>
    refine ⟨fun it hit => .inl hit, fun it hit => ?_,
      fun it hit => .inl (List.mem_append_left _ hit)⟩
    rw [front, List.mem_cons] at hit
    rcases hit with rfl | hit
    · exact .inr (List.mem_append_right _ List.mem_cons_self)
    · exact .inl hit
  | payload =>
    refine ⟨fun it hit => .inl hit, fun it hit => .inl hit, fun it hit => .inl ?_⟩
    simpa [unsyncedBy, DrainPc.unsynced, DrainPc.batch] using hit
  | flush =>
    refine ⟨fun it hit => .inl hit, fun it hit => .inl hit, fun it hit => .inl ?_⟩
    simpa [unsyncedBy, DrainPc.unsynced, DrainPc.batch] using hit
  | sync => exact ⟨fun it hit => .inl hit, fun it hit => .inl hit, fun it hit => .inr (ok it hit)⟩
  | wait | reserve | appended | poll | force | drained | empty | popped | lock
  | header | sub | wake =>
    exact ⟨fun it hit => .inl hit, fun it hit => .inl hit, fun it hit => .inl hit⟩

theorem runs_callStored (h : Runs crates owner w c w' t) (ok : CallStored w c)
    (ext : w.Extends w') : ∀ c', t = some c' → CallStored w' c' := by
  rintro c' rfl
  cases h with
  | @wait entry pc pc' before after => cases pc' <;> trivial
  | reserve | poll | force | pop | popped | sub => trivial
  | push => exact List.mem_append_right _ List.mem_cons_self
  | lock => exact ⟨by simp, by simp⟩
  | header fits =>
    refine ⟨fun it hit => ?_, fun _ it hit => ?_⟩
    · exact Wal.inside_mono ext.stream ext.stream.length_le (ok.1 it hit)
    · cases hit
      simp
  | @payload caller done it rest =>
    refine ⟨fun it' hit => ?_, by simp⟩
    rcases List.mem_append.mp hit with old | new
    · exact Wal.inside_mono ext.stream ext.stream.length_le (ok.1 it' old)
    · cases List.mem_singleton.mp new
      have headed := ok.2 rfl it rfl
      exact Wal.inside_all.mpr ⟨List.mem_append_left _ headed, List.mem_append_right _
        List.mem_cons_self⟩
  | flush => exact fun it hit => ok.1 it hit
  | sync => trivial

theorem runs_awaited {caller : Caller} {pc : DrainPc} {before : List Item}
    (h : Runs crates owner w (.drain caller pc) w' t)
    (ok : DrainOk w pc) (awaited : Awaited w before pc) (ext : w.Extends w')
    (emptied : pc = .pop [] → w.pending = [] → ∀ it ∈ before, w.Durable it)
    (locks : ∀ batch, pc = .lock batch → ∀ it ∈ before, it ∈ batch ∨ w.Durable it) :
    (∃ pc', t = some (.drain caller pc') ∧ Awaited w' before pc') ∨
      (t = none ∧ ∀ it ∈ before, w'.Durable it) := by
  cases h with
  | pop => exact .inl ⟨_, rfl, awaited⟩
  | empty none_left => exact .inr ⟨rfl, emptied rfl none_left⟩
  | popped none_left =>
    exact .inl ⟨_, rfl, fun it hit => ⟨awaited hit, by rw [none_left]; exact List.not_mem_nil⟩⟩
  | lock => exact .inl ⟨_, rfl, locks _ rfl⟩
  | header => exact .inl ⟨_, rfl, awaited_mono ext awaited⟩
  | @payload caller done it rest =>
    refine .inl ⟨_, rfl, fun it' hit => ?_⟩
    have somewhere := (awaited it' hit).imp_right ext.durable
    simpa [DrainPc.unsynced, DrainPc.batch] using somewhere
  | flush =>
    refine .inl ⟨_, rfl, fun it hit => ?_⟩
    have somewhere := (awaited it hit).imp_right ext.durable
    simpa [DrainPc.unsynced, DrainPc.batch] using somewhere
  | sync =>
    refine .inl ⟨_, rfl, fun it hit => .inr ?_⟩
    rcases awaited it hit with synced | durable
    · exact ok it synced
    · exact ext.durable durable
  | sub => exact .inl ⟨_, rfl, awaited⟩
  | wake =>
    exact .inr ⟨rfl, fun it hit => (awaited it hit).resolve_left (by simp [DrainPc.unsynced])⟩

theorem runs_callOk (h : Runs crates owner w c w' t) (ok : CallOk w c) (ext : w.Extends w')
    (emptied : ∀ caller, c = .drain caller (.pop []) → w.pending = [] →
      ∀ it ∈ caller.before, w.Durable it)
    (locks : ∀ caller batch, c = .drain caller (.lock batch) →
      ∀ it ∈ caller.before, it ∈ batch ∨ w.Durable it) : ∀ c', t = some c' → CallOk w' c' := by
  rintro c' rfl
  have stored := runs_callStored h ok.stored ext c' rfl
  cases c with
  | append entry pc =>
    cases h with
    | @wait _ _ pc' => cases pc' <;> trivial
    | reserve => trivial
    | push => exact stored
  | flush before pc =>
    cases h with
    | poll => exact ok
    | force => exact ⟨stored, ok⟩
  | drain caller pc =>
    rcases runs_awaited h ok.1 ok.2 ext (fun same => emptied caller (by rw [same]))
      (fun batch same => locks caller batch (by rw [same])) with ⟨pc', same, waits⟩ | ⟨none, _⟩
    · cases same
      exact ⟨stored, waits⟩
    · cases none

theorem Kept.runs_acked (kept : Kept σ) {i : Nat} (slot : σ.tasks[i]? = some (some c))
    (h : Runs crates owner σ.shared c w' t) (alone : ForcedDrainAlone σ i) :
    ∀ it ∈ w'.acked, σ.shared.Durable it := by
  intro it hit
  have ok := kept.calls i c slot
  cases h with
  | drained zero =>
    rcases List.mem_append.mp hit with old | new
    · exact kept.acked it old
    · exact kept.durable_of_zero zero (ok new)
  | empty none_left =>
    rcases List.mem_append.mp hit with old | new
    · exact kept.acked it old
    · simp only [ForcedDrainAlone, slot] at alone
      exact kept.stored.emptied slot none_left ok.2 (alone none_left) it new
  | wake =>
    rcases List.mem_append.mp hit with old | new
    · exact kept.acked it old
    · exact (ok.2 it new).resolve_left (by simp [DrainPc.unsynced])
  | wait | reserve | push | appended | poll | force | pop | popped | lock | header | payload
  | flush | sync | sub =>
    exact kept.acked it hit

theorem runs_returned (h : Runs crates owner w c w' t) (ok : CallStored w c) (ext : w.Extends w')
    (returned : w.returned ⊆ w.history) : w'.returned ⊆ w'.history := by
  cases h with
  | appended =>
    intro it hit
    rcases List.mem_append.mp hit with old | new
    · exact returned old
    · cases List.mem_singleton.mp new
      exact ok
  | push => exact fun it hit => ext.history.subset (returned hit)
  | wait | reserve | poll | force | drained | pop | empty | popped | lock | header | payload | flush
  | sync | sub | wake =>
    exact returned

theorem placed_run (kept : Stored σ) {i : Nat} (slot : σ.tasks[i]? = some (some c))
    (h : Runs crates owner σ.shared c w' t) (ext : σ.shared.Extends w') :
    Placed ⟨w', σ.tasks.set i t⟩ := by
  obtain ⟨pushed, queued, batched⟩ := runs_placed h (kept.calls i c slot)
  have here : (σ.tasks.set i t)[i]? = some t := by simp [(List.getElem?_eq_some_iff.mp slot).1]
  intro it hit
  rcases pushed it hit with old | new
  · rcases kept.placed it old with queue | ⟨j, u, at_j, held⟩ | durable
    · rcases queued it queue with queue | held
      · exact .inl queue
      · exact .inr (.inl ⟨i, t, here, held⟩)
    · by_cases own : j = i
      · subst own
        cases Option.some.inj (at_j.symm.trans slot)
        rcases batched it held with held | durable
        · exact .inr (.inl ⟨j, t, here, held⟩)
        · exact .inr (.inr durable)
      · exact .inr (.inl ⟨j, u, by rw [List.getElem?_set_ne (Ne.symm own)]; exact at_j, held⟩)
    · exact .inr (.inr (ext.durable durable))
  · exact .inl new

theorem placed_fresh (kept : Stored σ) {i : Nat} {b : Bool} (slot : σ.tasks[i]? = some none) :
    Placed ⟨{ σ.shared with flushNotify := b }, σ.tasks.set i t⟩ := by
  intro it hit
  rcases kept.placed it hit with queue | ⟨j, u, at_j, held⟩ | durable
  · exact .inl queue
  · have other : j ≠ i := by
      rintro rfl
      cases Option.some.inj (at_j.symm.trans slot)
      cases held
    exact .inr (.inl ⟨j, u, by rw [List.getElem?_set_ne (Ne.symm other)]; exact at_j, held⟩)
  · exact .inr (.inr durable)

theorem stored_step (stored : Stored σ) (step : WalStep crates σ a σ') (faultless : Faultless a) :
    Stored σ' := by
  obtain ⟨ext, bounds⟩ := step_extends step stored.bounds
  have counter := counter_step step stored.covered
  rw [lostBy_faultless faultless] at counter
  have covered : used σ' ≤ σ'.shared.pendingCount := by
    have before := stored.covered
    omega
  have calls := calls_step stored.calls step (fun _ => callStored_mono ext)
    (fun c fresh => by cases fresh <;> trivial) fun i c t _ _ ok runs => runs_callStored runs ok ext
  cases step with
  | spawn =>
    refine ⟨bounds, covered, fun it hit => ?_, stored.returned, calls⟩
    refine (stored.placed it hit).imp_right (Or.imp_left ?_)
    rintro ⟨j, u, at_j, held⟩
    exact ⟨j, u,
      by rw [List.getElem?_append_left (List.getElem?_eq_some_iff.mp at_j).1]; exact at_j, held⟩
  | start flushNotify slot fresh own =>
    exact ⟨bounds, covered, placed_fresh stored slot, stored.returned, calls⟩
  | @run i c w' t slot runs =>
    exact ⟨bounds, covered, placed_run stored slot runs ext,
      runs_returned runs (stored.calls i c slot) ext stored.returned, calls⟩
  | @fault i c k slot fallible stops =>
    cases k with
    | run => exact absurd rfl stops
    | fail | drop => exact faultless.elim

theorem stored_new {m : Nat} {tasks : List (Option WalCall)} (idle : ∀ t ∈ tasks, t = none) :
    Stored ⟨Wal.new m, tasks⟩ := by
  have none_taken : Config.total taken (⟨Wal.new m, tasks⟩ : WalConfig) = 0 :=
    total_idle _ fun t ht => congrArg taken (idle t ht)
  refine ⟨⟨le_rfl, le_rfl, List.forall_mem_nil _⟩, ?_, fun it hit => ?_, List.nil_subset _,
    fun j c hj => ?_⟩
  · simp only [used, none_taken]
    rfl
  · cases hit
  · cases idle _ (List.mem_of_getElem? hj)

theorem stored_run {m : Nat} {tasks : List (Option WalCall)} (idle : ∀ t ∈ tasks, t = none)
    (run : (walProtocol crates).Reaches (fun _ a => Faultless a) ⟨Wal.new m, tasks⟩ σ) : Stored σ :=
  run.invariant (stored_new idle) fun _ _ _ stored faultless taken =>
    stored_step stored (wal_step_cases taken) faultless

theorem kept_step (kept : Kept σ) (step : WalStep crates σ a σ')
    (ok : NoFaultAnd ForcedDrainAlone σ a) : Kept σ' := by
  obtain ⟨ext, _⟩ := step_extends step kept.bounds
  obtain ⟨bounds, covered, placed, returned, _⟩ := stored_step kept.stored step ok.faultless
  have calls : ∀ (j : Nat) (c : WalCall), σ'.tasks[j]? = some (some c) → CallOk σ'.shared c := by
    refine calls_step kept.calls step (fun _ => callOk_mono ext) ?_ ?_
    · intro c fresh
      cases fresh with
      | append entry => trivial
      | flush => exact fun it hit => ext.history.subset (kept.returned hit)
      | drain => exact ⟨trivial, List.nil_subset _⟩
    · rintro i c t rfl slot call_ok runs
      refine runs_callOk runs call_ok ext (fun caller drain none_left => ?_)
        fun caller batch drain => ?_
      · subst drain
        simp only [NoFaultAnd, ForcedDrainAlone, slot] at ok
        exact kept.stored.emptied slot none_left call_ok.2 (ok none_left)
      · subst drain
        simp only [NoFaultAnd, ForcedDrainAlone, slot] at ok
        exact kept.stored.awaited slot call_ok.2 ok
  cases step with
  | spawn | start => exact ⟨bounds, covered, placed, returned, kept.acked, calls⟩
  | run slot runs =>
    exact ⟨bounds, covered, placed, returned,
      fun it hit => ext.durable (kept.runs_acked slot runs ok it hit), calls⟩
  | @fault i c k slot fallible stops =>
    cases k with
    | run => exact absurd rfl stops
    | fail | drop => exact ok.elim

theorem kept_run {m : Nat} {tasks : List (Option WalCall)} (idle : ∀ t ∈ tasks, t = none)
    (run : (walProtocol crates).Reaches (NoFaultAnd ForcedDrainAlone) ⟨Wal.new m, tasks⟩ σ) :
    Kept σ := by
  apply run.invariant
  · obtain ⟨bounds, covered, placed, returned, _⟩ := stored_new (m := m) idle
    refine ⟨bounds, covered, placed, returned, fun it hit => ?_, fun j c hj => ?_⟩
    · cases hit
    · cases idle _ (List.mem_of_getElem? hj)
  · intro τ a τ' kept ok taken
    exact kept_step kept (wal_step_cases taken) ok

end Durable

end AsyncWalDb
