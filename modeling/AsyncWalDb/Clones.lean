import AsyncWalDb.Bincode
import AsyncWalDb.Conserved

/-! The clones of one `WalStorage`. They share the queue, the counter and the
open file until one of them truncates: the rename takes the file away from all
of them, and only the clone that truncates gets new parts on the new file.
Seen from one set of shared parts, every run is a run of `walProtocol`. -/
namespace AsyncWalDb

open Interleaving

inductive TruncateStage where
  | start
  | flushing
  | rename
  | create
  | returned (result : Except WalError Unit)
  | dropped
  deriving DecidableEq

/-- A borrower of a clone, the flusher that `start_flusher`
spawned through it, or `truncate_wal` on it. -/
inductive CloneRole where
  | user
  | flusher
  | truncate (stage : TruncateStage)
  deriving DecidableEq

/-- A task works on the parts its clone had when the task began. -/
structure CloneTask where
  clone : Nat
  store : Nat
  role : CloneRole
  call : Option WalCall

structure Clones where
  /-- What the Arcs of each `with_config` point to, each with its own open file. -/
  stores : List Wal
  /-- Which of them the fields of each clone point to. -/
  clones : List Nat
  /-- Whose file is the one at `path`; none between a rename and the creation of the new file. -/
  atPath : Option Nat
  /-- What was accepted through which clone since the last truncation; no move reads it. -/
  accepted : List (Nat × Item)
  /-- The clone that truncated last and the clones made from it since; no move reads it. -/
  current : List Nat

inductive CloneSpawn where
  | clone (c : Nat)
  | user (c : Nat)
  | flusher (c : Nat)
  | truncate (c : Nat)
  deriving DecidableEq

inductive CloneMove where
  | call (m : CallMove)
  | append (entry : WalEntry)
  | flush
  | drain
  | notified
  | proceed
  deriving DecidableEq

abbrev CloneConfig := Config Clones CloneTask

abbrev CloneAction := Action CloneSpawn CloneMove

def CloneRole.returned (result : Except WalError Unit) : CloneRole → CloneRole
  | .truncate .flushing =>
    match result with
    | .ok () => .truncate .rename
    | .error e => .truncate (.returned (.error e))
  | role => role

def CloneRole.dropped : CloneRole → CloneRole
  | .truncate _ => .truncate .dropped
  | role => role

def WalCall.accepts : WalCall → Option Item
  | .append _ (.notify it) => some it
  | _ => none

def cloneCall (crates : Crates) (i : Nat) (m : CallMove) (s : Clones) (t : CloneTask)
    (w : Wal) (c : WalCall) : Option (Clones × CloneTask) :=
  match m with
  | .run => (c.run crates i w).map fun out =>
    ({ s with stores := s.stores.set t.store out.1,
              accepted := s.accepted ++ (c.accepts.map fun it => (t.clone, it)).toList },
      { t with call := out.2, role := if out.2.isSome then t.role else t.role.returned (.ok ()) })
  | .fail fault => (c.fail w fault).map fun out =>
    ({ s with stores := s.stores.set t.store out.1 },
      { t with call := none, role := t.role.returned (.error out.2) })
  | .drop => (c.drop w).map fun w' =>
    ({ s with stores := s.stores.set t.store w' }, { t with call := none, role := t.role.dropped })

/-- A move between calls. A call through a clone needs the parts that the clone has now. -/
def cloneMove (m : CloneMove) (s : Clones) (t : CloneTask) (w : Wal) :
    Option (Clones × CloneTask) :=
  let drain : WalCall := .drain .flusher (.pop [])
  match t.role, m with
  | .user, .append entry =>
    if s.clones[t.clone]? = some t.store then
      some (s, { t with call := some (.append entry .load) })
    else none
  | .user, .flush =>
    if s.clones[t.clone]? = some t.store then
      some (s, { t with call := some (startFlush w) })
    else none
  | .flusher, .drain => some (s, { t with call := some drain })
  | .flusher, .notified =>
    if w.flushNotify then
      some ({ s with stores := s.stores.set t.store { w with flushNotify := false } },
        { t with call := some drain })
    else none
  | .truncate .start, .proceed =>
    if s.clones[t.clone]? = some t.store then
      some (s, { t with call := some (startFlush w), role := .truncate .flushing })
    else none
  | .truncate .rename, .proceed =>
    if s.atPath.isSome then
      some ({ s with atPath := none, accepted := [], current := [] },
        { t with role := .truncate .create })
    else
      some (s, { t with role := .truncate (.returned (.error
        (.checkpoint "Failed to rename WAL: No such file or directory (os error 2)"))) })
  | .truncate .create, .proceed =>
    some ({ stores := s.stores ++ [Wal.new w.maxQueueSize], clones :=
      s.clones.set t.clone s.stores.length,
            atPath := some s.stores.length, accepted := [], current := [t.clone] },
      { t with role := .truncate (.returned (.ok ())) })
  | _, _ => none

def cloneProtocol (crates : Crates) : Protocol Clones CloneTask CloneSpawn CloneMove where
  spawn k s :=
    match k with
    | .clone c => s.clones[c]?.map fun k =>
      ({ s with
          clones := s.clones ++ [k],
          current := if c ∈ s.current then s.current ++ [s.clones.length] else s.current },
        ⟨s.clones.length, k, .user, none⟩)
    | .user c => s.clones[c]?.map fun k => (s, ⟨c, k, .user, none⟩)
    | .flusher c => s.clones[c]?.map fun k => (s, ⟨c, k, .flusher, none⟩)
    | .truncate c => s.clones[c]?.map fun k => (s, ⟨c, k, .truncate .start, none⟩)
  move i m s t :=
    s.stores[t.store]?.bind fun w =>
      match t.call, m with
      | some c, .call k => cloneCall crates i k s t w c
      | some _, _ => none
      | none, .call _ => none
      | none, m => cloneMove m s t w

def Clones.start (maxQueueSize : Nat) : CloneConfig :=
  ⟨⟨[Wal.new maxQueueSize], [0], some 0, [], [0]⟩, []⟩

def CloneFaultless (_ : CloneConfig) : CloneAction → Prop
  | .move _ (.call (.fail _)) | .move _ (.call .drop) => False
  | _ => True

instance (σ : CloneConfig) (a : CloneAction) : Decidable (CloneFaultless σ a) := by
  unfold CloneFaultless
  split <;> infer_instance

/-- Accepted through the clone since the last truncation and acknowledged by a flush of its parts,
with no drain of these in progress. -/
def Flushed (σ : CloneConfig) (c : Nat) (it : Item) : Prop :=
  ∃ k w, σ.shared.clones[c]? = some k ∧ σ.shared.stores[k]? = some w ∧ (c, it) ∈ σ.shared.accepted ∧
    it ∈ w.acked ∧
    ∀ t ∈ σ.tasks, t.store = k → draining t.call = false

def OnPath (σ : CloneConfig) (it : Item) : Prop :=
  ∃ k w, σ.shared.atPath = some k ∧ σ.shared.stores[k]? = some w ∧ w.Durable it

section Settled

variable {crates : Crates} {σ σ' : WalConfig} {a : WalAction} {i : Nat} {w w' : Wal} {c : WalCall}
  {t : Option WalCall}

def Gone (w : Wal) (before : List Item) : Prop := ∀ it ∈ before, it ∈ w.history ∧ it ∉ w.pending

def Acknowledges (w : Wal) : WalCall → Prop
  | .flush before _ | .drain (.flush before) (.pop _) => before ⊆ w.history
  | .drain (.flush before) _ => Gone w before
  | _ => True

structure Settled (σ : WalConfig) : Prop where
  stored : Stored σ
  placed : Placement σ
  acked : Gone σ.shared σ.shared.acked
  calls : ∀ (j : Nat) (c : WalCall), σ.tasks[j]? = some (some c) → Acknowledges σ.shared c

theorem gone_empty {before : List Item} (pushed : before ⊆ w.history) (empty : w.pending = []) :
    Gone w before := by
  intro it hit
  rw [empty]
  exact ⟨pushed hit, List.not_mem_nil⟩

theorem gone_append {xs ys : List Item} (hx : Gone w xs) (hy : Gone w ys) : Gone w (xs ++ ys) := by
  intro it hit
  rcases List.mem_append.mp hit with old | new
  · exact hx it old
  · exact hy it new

theorem runs_gone (h : Runs crates i w c w' t)
    (fresh : ∀ it ∈ w.history, it.stamp < w.history.length)
    {before : List Item} (gone : Gone w before) : Gone w' before := by
  intro it hit
  obtain ⟨pushed, left⟩ := gone it hit
  cases h with
  | push =>
    refine ⟨List.mem_append_left _ pushed, fun queued => ?_⟩
    rcases List.mem_append.mp queued with old | new
    · exact left old
    · have stamp := fresh it pushed
      rw [List.mem_singleton.mp new] at stamp
      exact absurd stamp (lt_irrefl _)
  | pop front => exact ⟨pushed, fun queued => left (front ▸ List.mem_cons_of_mem _ queued)⟩
  | wait | reserve | appended | poll | force | drained | empty | popped | lock | header | payload
  | flush | sync | sub
  | wake => exact ⟨pushed, left⟩

theorem acknowledges_mono (ext : w.Extends w') (gone : ∀ before, Gone w before → Gone w' before)
    (ok : Acknowledges w c) : Acknowledges w' c := by
  cases c with
  | append => trivial
  | flush before pc => exact fun it hit => ext.history.subset (ok hit)
  | drain caller pc =>
    cases caller with
    | flusher => trivial
    | flush before =>
      cases pc with
      | pop batch => exact fun it hit => ext.history.subset (ok hit)
      | lock | write | sync | sub | wake => exact gone before ok

theorem runs_acknowledges (h : Runs crates i w c w' t) (ok : Acknowledges w c) (ext : w.Extends w')
    (gone : ∀ before, Gone w before → Gone w' before) : ∀ c', t = some c' → Acknowledges w' c' := by
  rintro c' rfl
  cases h with
  | wait | reserve | push => trivial
  | poll | force => exact ok
  | @pop caller batch it rest front =>
    cases caller with
    | flusher => trivial
    | flush before => exact ok
  | @popped caller batch none_left =>
    cases caller with
    | flusher => trivial
    | flush before => exact gone_empty ok none_left
  | @lock caller | @header caller | @payload caller | @flush caller | @sync caller | @sub caller =>
    cases caller with
    | flusher => trivial
    | flush before => exact gone before ok

theorem runs_acked (h : Runs crates i w c w' t) (ok : Acknowledges w c)
    (zero : w.pendingCount = 0 → w.pending = []) (acked : Gone w w.acked) : Gone w w'.acked := by
  cases h with
  | drained none_counted => exact gone_append acked (gone_empty ok (zero none_counted))
  | @empty caller none_left =>
    cases caller with
    | flusher => simpa [Caller.before] using acked
    | flush before => exact gone_append acked (gone_empty ok none_left)
  | @wake caller =>
    cases caller with
    | flusher => simpa [Caller.before] using acked
    | flush before => exact gone_append acked ok
  | wait | reserve | push | appended | poll | force | pop | popped | lock | header | payload
  | flush | sync | sub =>
    exact acked

theorem gone_step (settled : Settled σ) (step : WalStep crates σ a σ') (before : List Item)
    (gone : Gone σ.shared before) : Gone σ'.shared before := by
  cases step with
  | spawn | start | fault => exact gone
  | run slot runs => exact runs_gone runs (fun _ hit => settled.placed.stamp_lt hit) gone

theorem settled_step (settled : Settled σ) (step : WalStep crates σ a σ')
    (faultless : Faultless a) : Settled σ' := by
  have stored := stored_step settled.stored step faultless
  have placed := placement_step settled.placed step faultless
  obtain ⟨ext, _⟩ := step_extends step settled.stored.bounds
  have gone := gone_step settled step
  have calls : ∀ (j : Nat) (c : WalCall), σ'.tasks[j]? = some (some c) →
      Acknowledges σ'.shared c := by
    refine calls_step settled.calls step (fun _ => acknowledges_mono ext gone) ?_
      fun i c t _ _ ok runs => runs_acknowledges runs ok ext gone
    intro c fresh
    cases fresh with
    | append | drain => trivial
    | flush => exact fun it hit => ext.history.subset (settled.stored.returned hit)
  cases step with
  | spawn | start => exact ⟨stored, placed, settled.acked, calls⟩
  | @run i c w' t slot runs =>
    have zero : σ.shared.pendingCount = 0 → σ.shared.pending = [] := by
      intro none_counted
      have covered := settled.stored.covered
      rw [none_counted, used] at covered
      exact List.eq_nil_of_length_eq_zero (by omega)
    have acked := runs_acked runs (settled.calls i c slot) zero settled.acked
    exact ⟨stored, placed, gone _ acked, calls⟩
  | @fault i c k slot fallible stops =>
    cases k with
    | run => exact absurd rfl stops
    | fail | drop => exact faultless.elim

theorem settled_new {m : Nat} {tasks : List (Option WalCall)} (idle : ∀ t ∈ tasks, t = none) :
    Settled ⟨Wal.new m, tasks⟩ := by
  refine ⟨stored_new idle, placement_new idle, fun it hit => ?_, fun j c hj => ?_⟩
  · cases hit
  · cases idle _ (List.mem_of_getElem? hj)

theorem Settled.durable (settled : Settled σ) (idle : ∀ t ∈ σ.tasks, draining t = false) {it : Item}
    (acked : it ∈ σ.shared.acked) : σ.shared.Durable it := by
  obtain ⟨pushed, left⟩ := settled.acked it acked
  rcases settled.stored.placed it pushed with queued | ⟨j, u, slot, held⟩ | durable
  · exact absurd queued left
  · have quiet := idle u (List.mem_of_getElem? slot)
    unfold unsyncedBy at held
    split at held
    · cases quiet
    · cases held
  · exact durable

theorem Settled.pushed (settled : Settled σ) {it : Item} (durable : σ.shared.Durable it) :
    it ∈ σ.shared.history := by
  refine settled.placed.somewhere.mpr (.inr (.inr ?_))
  exact List.mem_filterMap.mpr ⟨_, List.mem_of_mem_take durable.1, rfl⟩

end Settled

section Steps

variable {crates : Crates} {σ σ' : CloneConfig} {a : CloneAction} {m : Nat}

inductive CloneStep (crates : Crates) (σ : CloneConfig) : CloneAction → CloneConfig → Prop where
  | clone {c k} (known : σ.shared.clones[c]? = some k) : CloneStep crates σ (.spawn (.clone c))
      ⟨{ σ.shared with
          clones := σ.shared.clones ++ [k],
          current := if c ∈ σ.shared.current then σ.shared.current ++ [σ.shared.clones.length]
            else σ.shared.current },
        σ.tasks ++ [⟨σ.shared.clones.length, k, .user, none⟩]⟩
  | borrow {a c k role} (known : σ.shared.clones[c]? = some k) :
    CloneStep crates σ (.spawn a) ⟨σ.shared, σ.tasks ++ [⟨c, k, role, none⟩]⟩
  | call {i t w c w' call role accepted} (slot : σ.tasks[i]? = some t)
    (here : σ.shared.stores[t.store]? = some w)
    (busy : t.call = some c) (runs : Runs crates i w c w' call) :
      CloneStep crates σ (.move i (.call .run))
      ⟨{ σ.shared with stores := σ.shared.stores.set t.store w', accepted := accepted },
        σ.tasks.set i { t with call := call, role := role }⟩
  | start {i m t w call role stores} (flushNotify : Bool) (slot : σ.tasks[i]? = some t)
    (here : σ.shared.stores[t.store]? = some w) (idle : t.call = none) (fresh : Fresh w call)
    (notified : stores = σ.shared.stores.set t.store { w with flushNotify := flushNotify }) :
    CloneStep crates σ (.move i m)
      ⟨{ σ.shared with stores := stores }, σ.tasks.set i { t with call := call, role := role }⟩
  | refused {i m t role} (slot : σ.tasks[i]? = some t) (idle : t.call = none) :
    CloneStep crates σ (.move i m) ⟨σ.shared, σ.tasks.set i { t with role := role }⟩
  | rename {i m t role} (slot : σ.tasks[i]? = some t) (idle : t.call = none) :
    CloneStep crates σ (.move i m)
      ⟨{ σ.shared with atPath := none, accepted := [], current := [] },
        σ.tasks.set i { t with role := role }⟩
  | create {i m t size role} (slot : σ.tasks[i]? = some t) (idle : t.call = none) :
    CloneStep crates σ (.move i m)
      ⟨{ stores := σ.shared.stores ++ [Wal.new size], clones :=
        σ.shared.clones.set t.clone σ.shared.stores.length,
         atPath := some σ.shared.stores.length, accepted := [], current := [t.clone] },
        σ.tasks.set i { t with role := role }⟩

theorem clone_step_cases (ok : CloneFaultless σ a)
    (taken : (cloneProtocol crates).step σ a = some σ') : CloneStep crates σ a σ' := by
  cases a with
  | spawn k =>
    obtain ⟨s, t, h, rfl⟩ := Protocol.step_spawn taken
    cases k with
    | clone c =>
      obtain ⟨k, known, same⟩ := Option.map_eq_some_iff.mp h
      cases same
      exact .clone known
    | user c | flusher c | truncate c =>
      obtain ⟨k, known, same⟩ := Option.map_eq_some_iff.mp h
      cases same
      exact .borrow known
  | move i m =>
    obtain ⟨t, s, t', slot, h, rfl⟩ := Protocol.step_move taken
    obtain ⟨w, here, h⟩ := Option.bind_eq_some_iff.mp h
    have unchanged : σ.shared.stores = σ.shared.stores.set t.store
      { w with flushNotify := w.flushNotify } := (set_same here).symm
    obtain ⟨clone, store, role, call⟩ := t
    cases call with
    | some c =>
      cases m with
      | call k =>
        cases k with
        | run =>
          obtain ⟨out, ran, same⟩ := Option.map_eq_some_iff.mp h
          cases same
          exact .call slot here rfl (run_runs ran)
        | fail | drop => exact ok.elim
      | append | flush | drain | notified | proceed => cases h
    | none =>
      have h : cloneMove m σ.shared ⟨clone, store, role, none⟩ w = some (s, t') := by
        cases m with
        | call k => cases h
        | append | flush | drain | notified | proceed => exact h
      unfold cloneMove at h
      dsimp only at h
      split at h
      · split at h
        · cases h; exact .start _ slot here rfl (.append _) unchanged
        · contradiction
      · split at h
        · cases h; exact .start _ slot here rfl .flush unchanged
        · contradiction
      · cases h; exact .start _ slot here rfl .drain unchanged
      · split at h
        · cases h; exact .start _ slot here rfl .drain rfl
        · contradiction
      · split at h
        · cases h; exact .start _ slot here rfl .flush unchanged
        · contradiction
      · split at h
        · cases h; exact .rename slot rfl
        · cases h; exact .refused slot rfl
      · cases h; exact .create slot rfl
      · contradiction

def callOn (k : Nat) (t : CloneTask) : Option WalCall := if t.store = k then t.call else none

def storeView (σ : CloneConfig) (k : Nat) (w : Wal) : WalConfig := ⟨w, σ.tasks.map (callOn k)⟩

theorem callOn_idle {k : Nat} {t : CloneTask} (idle : t.call = none) : callOn k t = none := by
  unfold callOn
  split
  · exact idle
  · rfl

structure Cloned (σ : CloneConfig) : Prop where
  settled : ∀ (k : Nat) (w : Wal), σ.shared.stores[k]? = some w → Settled (storeView σ k w)
  owners : ∀ (k : Nat) (w : Wal), σ.shared.stores[k]? = some w → ∀ it ∈ w.history,
    ∃ t, σ.tasks[it.owner]? = some t ∧ t.store = k
  tasks : ∀ t ∈ σ.tasks, t.store < σ.shared.stores.length ∧ t.clone < σ.shared.clones.length
  clones : ∀ k ∈ σ.shared.clones, k < σ.shared.stores.length
  known : ∀ c ∈ σ.shared.current, c < σ.shared.clones.length
  current : ∀ (c k : Nat), σ.shared.clones[c]? = some k →
    (c ∈ σ.shared.current ↔ σ.shared.atPath = some k)

theorem calls_set {i k : Nat} {t t' : CloneTask} {tasks : List CloneTask}
    (slot : tasks[i]? = some t) (same : t'.store = t.store) :
    (t.store = k ∧ (tasks.set i t').map (callOn k) = (tasks.map (callOn k)).set i t'.call) ∨
      (t.store ≠ k ∧ (tasks.set i t').map (callOn k) = tasks.map (callOn k)) := by
  by_cases here : t.store = k
  · exact .inl ⟨here, by rw [List.map_set, callOn, if_pos (same.trans here)]⟩
  · refine .inr ⟨here, map_set_same slot ?_⟩
    rw [callOn, callOn, if_neg here, if_neg (same ▸ here)]

theorem settled_moved (ok : Cloned σ) {i k : Nat} {t t' : CloneTask} {w w₀ w' : Wal} {b : WalAction}
    (slot : σ.tasks[i]? = some t) (same : t'.store = t.store)
    (at_t : σ.shared.stores[t.store]? = some w₀)
    (step : WalStep crates (storeView σ t.store w₀) b
      ⟨w', (storeView σ t.store w₀).tasks.set i t'.call⟩)
    (faultless : Faultless b) (here : (σ.shared.stores.set t.store w')[k]? = some w) :
    Settled ⟨w, (σ.tasks.set i t').map (callOn k)⟩ := by
  have moved := calls_set (k := k) slot same
  rcases getElem?_set_cases here with ⟨rfl, rfl, _⟩ | ⟨other, old⟩
  · rcases moved with ⟨_, moved⟩ | ⟨away, _⟩
    · rw [moved]
      exact settled_step (ok.settled _ _ at_t) step faultless
    · exact absurd rfl away
  · rcases moved with ⟨own, _⟩ | ⟨_, moved⟩
    · exact absurd own.symm other
    · rw [moved]
      exact ok.settled k w old

theorem settled_clones (ok : Cloned σ) (step : CloneStep crates σ a σ') (k : Nat) (w : Wal)
    (here : σ'.shared.stores[k]? = some w) : Settled (storeView σ' k w) := by
  have joined : ∀ t : CloneTask, t.call = none → σ.shared.stores[k]? = some w →
      Settled ⟨w, (σ.tasks ++ [t]).map (callOn k)⟩ := by
    intro t idle old
    rw [List.map_append, List.map_singleton, callOn_idle idle]
    have spawned : WalStep crates (storeView σ k w)
      (.spawn ()) ⟨w, (storeView σ k w).tasks ++ [none]⟩ := .spawn
    exact settled_step (ok.settled k w old) spawned trivial
  have still : ∀ {i : Nat} {t t' : CloneTask}, σ.tasks[i]? = some t → t.call = none →
    t'.call = none →
      (σ.tasks.set i t').map (callOn k) = σ.tasks.map (callOn k) :=
    fun slot idle idle' => map_set_same slot ((callOn_idle idle').trans (callOn_idle idle).symm)
  have seen : ∀ {i : Nat} {t : CloneTask}, σ.tasks[i]? = some t →
      (σ.tasks.map (callOn t.store))[i]? = some t.call := by
    intro i t slot
    rw [List.getElem?_map, slot, Option.map_some, callOn, if_pos rfl]
  cases step with
  | clone known => exact joined _ rfl here
  | borrow known => exact joined _ rfl here
  | @call i t w₀ c w' call role accepted slot at_t busy runs =>
    have ran : WalStep crates (storeView σ t.store w₀) (.move i (.call .run))
        ⟨w', (storeView σ t.store w₀).tasks.set i call⟩ :=
      .run (busy ▸ seen slot) runs
    exact settled_moved ok (t := t) slot rfl at_t ran trivial here
  | @start i m t w₀ call role stores flushNotify slot at_t idle fresh notified =>
    subst notified
    have started : WalStep crates (storeView σ t.store w₀) (.move i .flush)
        ⟨{ w₀ with flushNotify := flushNotify }, (storeView σ t.store w₀).tasks.set i call⟩ :=
      .start flushNotify (idle ▸ seen slot) fresh (by simp)
    exact settled_moved ok (t := t) slot rfl at_t started trivial here
  | refused slot idle =>
    rw [storeView, still slot idle (by exact idle)]
    exact ok.settled k w here
  | rename slot idle =>
    rw [storeView, still slot idle (by exact idle)]
    exact ok.settled k w here
  | @create i m t size role slot idle =>
    rw [storeView, still slot idle (by exact idle)]
    rcases getElem?_append_one here with old | ⟨rfl, rfl⟩
    · exact ok.settled k w old
    · refine settled_new fun call hcall => ?_
      obtain ⟨t, ht, rfl⟩ := List.mem_map.mp hcall
      rw [callOn, if_neg (Nat.ne_of_lt (ok.tasks t ht).1)]

theorem store_kept (step : CloneStep crates σ a σ') {j k : Nat}
    (h : ∃ t, σ.tasks[j]? = some t ∧ t.store = k) : ∃ t, σ'.tasks[j]? = some t ∧ t.store = k := by
  obtain ⟨u, at_j, own⟩ := h
  have bound := (List.getElem?_eq_some_iff.mp at_j).1
  have moved : ∀ {i : Nat} {t t' : CloneTask}, σ.tasks[i]? = some t → t'.store = t.store →
      ∃ v, (σ.tasks.set i t')[j]? = some v ∧ v.store = k := by
    intro i t t' slot same
    by_cases here : i = j
    · subst here
      cases Option.some.inj (at_j.symm.trans slot)
      exact ⟨t', by simp [bound], same.trans own⟩
    · exact ⟨u, by rw [List.getElem?_set_ne here]; exact at_j, own⟩
  cases step with
  | clone | borrow => exact ⟨u, by rw [List.getElem?_append_left bound]; exact at_j, own⟩
  | call slot | start _ slot | refused slot | rename slot | create slot => exact moved slot rfl

theorem owners_clones (ok : Cloned σ) (step : CloneStep crates σ a σ') (k : Nat) (w : Wal)
    (here : σ'.shared.stores[k]? = some w) : ∀ it ∈ w.history, ∃ t,
      σ'.tasks[it.owner]? = some t ∧ t.store = k := by
  have kept : ∀ v, σ.shared.stores[k]? = some v →
      ∀ it ∈ v.history, ∃ t, σ'.tasks[it.owner]? = some t ∧ t.store = k :=
    fun v at_k it hit => store_kept step (ok.owners k v at_k it hit)
  cases step with
  | clone | borrow | refused | rename => exact kept w here
  | @call i t w₀ c w' call role accepted slot at_t busy runs =>
    rcases getElem?_set_cases here with ⟨rfl, rfl, _⟩ | ⟨_, old⟩
    · intro it hit
      rcases runs_mem_history runs hit with old | ⟨own, _⟩
      · exact kept _ at_t it old
      · refine ⟨{ t with call := call, role := role }, ?_, rfl⟩
        rw [own]
        exact List.getElem?_set_self (List.getElem?_eq_some_iff.mp slot).1
    · exact kept w old
  | @start i m t w₀ call role stores flushNotify slot at_t idle fresh notified =>
    subst notified
    rcases getElem?_set_cases here with ⟨rfl, rfl, _⟩ | ⟨_, old⟩
    · exact fun it hit => kept _ at_t it hit
    · exact kept w old
  | create slot idle =>
    rcases getElem?_append_one here with old | ⟨_, rfl⟩
    · exact kept w old
    · intro it hit
      cases hit

theorem current_clones (ok : Cloned σ) (step : CloneStep crates σ a σ') :
    (∀ k ∈ σ'.shared.clones, k < σ'.shared.stores.length) ∧
      (∀ c ∈ σ'.shared.current, c < σ'.shared.clones.length) ∧
      ∀ (c k : Nat), σ'.shared.clones[c]? = some k →
        (c ∈ σ'.shared.current ↔ σ'.shared.atPath = some k) := by
  cases step with
  | @clone c k known =>
    refine ⟨fun k' hk => ?_, fun c' hc => ?_, fun c' k' hc => ?_⟩
    · rcases List.mem_append.mp hk with old | new
      · exact ok.clones k' old
      · rw [List.mem_singleton.mp new]
        exact ok.clones k (List.mem_of_getElem? known)
    · rw [List.length_append, List.length_singleton]
      dsimp only at hc
      split at hc
      · rcases List.mem_append.mp hc with old | new
        · exact Nat.lt_succ_of_lt (ok.known c' old)
        · rw [List.mem_singleton.mp new]
          exact Nat.lt_succ_self _
      · exact Nat.lt_succ_of_lt (ok.known c' hc)
    · have copied := ok.current c k known
      have unknown : σ.shared.clones.length ∉ σ.shared.current := fun h =>
        lt_irrefl _ (ok.known _ h)
      dsimp only
      rcases getElem?_append_one hc with old | ⟨rfl, rfl⟩
      · have other : c' ≠ σ.shared.clones.length :=
          Nat.ne_of_lt (List.getElem?_eq_some_iff.mp old).1
        rw [← ok.current c' k' old]
        split
        · simp [other]
        · rfl
      · rw [← copied]
        split
        · rename_i shared
          simp [shared]
        · rename_i apart
          simp [apart, unknown]
  | borrow | refused => exact ⟨ok.clones, ok.known, ok.current⟩
  | call => exact ⟨fun k hk => by rw [List.length_set]; exact ok.clones k hk, ok.known, ok.current⟩
  | start flushNotify slot here idle fresh notified =>
    subst notified
    exact ⟨fun k hk => by rw [List.length_set]; exact ok.clones k hk, ok.known, ok.current⟩
  | rename => exact ⟨ok.clones, fun _ none => (List.not_mem_nil none).elim, fun _ _ _ => by simp⟩
  | @create i m t size role slot idle =>
    have bound := (ok.tasks t (List.mem_of_getElem? slot)).2
    refine ⟨fun k hk => ?_, fun c hc => ?_, fun c k hc => ?_⟩
    · rw [List.length_append, List.length_singleton]
      rcases List.mem_or_eq_of_mem_set hk with old | rfl
      · exact Nat.lt_succ_of_lt (ok.clones k old)
      · exact Nat.lt_succ_self _
    · rw [List.mem_singleton.mp hc, List.length_set]
      exact bound
    · dsimp only
      rw [List.mem_singleton, Option.some_inj]
      rcases getElem?_set_cases hc with ⟨rfl, rfl, _⟩ | ⟨other, old⟩
      · exact iff_of_true rfl rfl
      · exact iff_of_false other (Nat.ne_of_gt (ok.clones k (List.mem_of_getElem? old)))

theorem tasks_clones (ok : Cloned σ) (step : CloneStep crates σ a σ') :
    ∀ t ∈ σ'.tasks, t.store < σ'.shared.stores.length ∧ t.clone < σ'.shared.clones.length := by
  intro u hu
  have moved : ∀ {i : Nat} {t t' : CloneTask}, u ∈ σ.tasks.set i t' → σ.tasks[i]? = some t →
    t'.store = t.store →
      t'.clone = t.clone → u.store < σ.shared.stores.length ∧ u.clone < σ.shared.clones.length := by
    intro i t t' hu slot store clone
    rcases List.mem_or_eq_of_mem_set hu with old | rfl
    · exact ok.tasks u old
    · rw [store, clone]
      exact ok.tasks t (List.mem_of_getElem? slot)
  cases step with
  | @clone c k known =>
    rw [List.length_append, List.length_singleton]
    rcases List.mem_append.mp hu with old | new
    · exact (ok.tasks u old).imp_right Nat.lt_succ_of_lt
    · rw [List.mem_singleton.mp new]
      exact ⟨ok.clones k (List.mem_of_getElem? known), Nat.lt_succ_self _⟩
  | @borrow a c k role known =>
    rcases List.mem_append.mp hu with old | new
    · exact ok.tasks u old
    · rw [List.mem_singleton.mp new]
      exact ⟨ok.clones k (List.mem_of_getElem? known), (List.getElem?_eq_some_iff.mp known).1⟩
  | call slot =>
    rw [List.length_set]
    exact moved hu slot rfl rfl
  | start flushNotify slot here idle fresh notified =>
    subst notified
    rw [List.length_set]
    exact moved hu slot rfl rfl
  | refused slot | rename slot => exact moved hu slot rfl rfl
  | create slot =>
    rw [List.length_append, List.length_set]
    exact (moved hu slot rfl rfl).imp_left Nat.lt_succ_of_lt

theorem cloned_step (ok : Cloned σ) (faultless : CloneFaultless σ a)
    (taken : (cloneProtocol crates).step σ a = some σ') : Cloned σ' := by
  have step := clone_step_cases faultless taken
  obtain ⟨clones, known, current⟩ := current_clones ok step
  exact ⟨settled_clones ok step, owners_clones ok step, tasks_clones ok step,
    clones, known, current⟩

theorem cloned_run (run : (cloneProtocol crates).Reaches CloneFaultless (Clones.start m) σ) :
    Cloned σ := by
  apply run.invariant
  · have one : ∀ (k : Nat) (w : Wal), [Wal.new m][k]? = some w → w = Wal.new m :=
      fun k w here => List.mem_singleton.mp (List.mem_of_getElem? here)
    refine ⟨fun k w here => ?_, fun k w here it hit => ?_, List.forall_mem_nil _,
      by simp [Clones.start], by simp [Clones.start],
      fun c k points => ?_⟩
    · rw [one k w here]
      exact settled_new (List.forall_mem_nil _)
    · rw [one k w here] at hit
      cases hit
    · have zero : k = 0 := List.mem_singleton.mp (List.mem_of_getElem? points)
      have bound : c < 1 := (List.getElem?_eq_some_iff.mp points).1
      simp only [Clones.start, List.mem_singleton, zero, iff_true]
      omega
  · intro τ a τ' ok faultless taken
    exact cloned_step ok faultless taken

end Steps

variable {crates : Crates} {σ : CloneConfig} {m c : Nat} {it : Item}

/-- In every run without faults, whatever was accepted through a clone
since the last truncation and flushed is in the file at the path exactly
when the clone is the one that truncated or was made from it. -/
theorem clone_reaches_path_iff
    (run : (cloneProtocol crates).Reaches CloneFaultless (Clones.start m) σ)
    (flushed : Flushed σ c it) : OnPath σ it ↔ c ∈ σ.shared.current := by
  have ok := cloned_run run
  obtain ⟨k, w, points, here, accepted, acked, quiet⟩ := flushed
  have settled := ok.settled k w here
  rw [ok.current c k points]
  constructor
  · rintro ⟨k', w', atPath, here', durable⟩
    obtain ⟨t, owner, own⟩ := ok.owners k w here it (settled.acked it acked).1
    obtain ⟨t', owner', own'⟩ := ok.owners k' w' here' it ((ok.settled k' w' here').pushed durable)
    cases Option.some.inj (owner.symm.trans owner')
    rw [atPath, ← own, ← own']
  · intro atPath
    refine ⟨k, w, atPath, here, settled.durable ?_ acked⟩
    intro call hcall
    obtain ⟨t, ht, rfl⟩ := List.mem_map.mp hcall
    unfold callOn
    split
    · rename_i same
      exact quiet t ht same
    · rfl

def CloneRole.truncated : CloneRole → Bool
  | .truncate (.returned (.ok ())) => true
  | _ => false

def steps (i n : Nat) : List CloneAction := List.replicate n (.move i (.call .run))

def truncateOne : List CloneAction :=
  [.spawn (.clone 0), .spawn (.truncate 0), .move 1 .proceed] ++ steps 1 3 ++
    [.move 1 .proceed, .move 1 .proceed]

def appendAndFlush (i j : Nat) : List CloneAction :=
  [.move i (.append (.insert 1 7 "k" [1]))] ++
    steps i 4 ++ [.move j .drain] ++ steps j 9 ++ [.move i .flush] ++ steps i 3

def throughOther : CloneConfig :=
  ((cloneProtocol (Bincode.crates true)).exec CloneFaultless (Clones.start 10000)
    (truncateOne ++ [.spawn (.flusher 1)] ++ appendAndFlush 0 2)).get (by decide +kernel)

theorem clone_misses_path :
    ¬ ∀ (crates : Crates) (m : Nat) (σ : CloneConfig) (c : Nat) (it : Item),
      (cloneProtocol crates).Reaches CloneFaultless (Clones.start m) σ →
        (∃ t ∈ σ.tasks, t.role.truncated = true) →
      Flushed σ c it → OnPath σ it := by
  intro claim
  have reached : (cloneProtocol (Bincode.crates true)).Reaches CloneFaultless (Clones.start
      10000) throughOther :=
    Protocol.reaches_exec _ (by decide +kernel)
  have flushed : Flushed throughOther 1 ⟨0, 0, .insert 1 7 "k" [1]⟩ :=
    ⟨0, throughOther.shared.stores.get
      ⟨0, by decide +kernel⟩, by decide +kernel, List.getElem?_eq_getElem _, by decide +kernel,
      by decide +kernel, by decide +kernel⟩
  obtain ⟨k, w, atPath, here, durable⟩ := claim _ _ _ _ _ reached (by decide +kernel) flushed
  have current : throughOther.shared.atPath = some 1 := by decide +kernel
  have empty : throughOther.shared.stores[1]?.map Wal.stream = some [] := by decide +kernel
  cases Option.some.inj (current.symm.trans atPath)
  rw [here] at empty
  have nothing : w.stream = [] := Option.some.inj empty
  have header := durable.1
  rw [nothing, List.take_nil] at header
  cases header

def throughTruncated : CloneConfig :=
  ((cloneProtocol (Bincode.crates true)).exec CloneFaultless (Clones.start 10000)
    (truncateOne ++ [.spawn (.user 0), .spawn (.flusher 0)] ++ appendAndFlush 2
      3)).get (by decide +kernel)

theorem clone_reaches_path_iff_throughTruncated :
    OnPath throughTruncated ⟨0, 2, .insert 1 7 "k" [1]⟩ := by
  have flushed : Flushed throughTruncated 0 ⟨0, 2, .insert 1 7 "k" [1]⟩ :=
    ⟨1, throughTruncated.shared.stores.get
      ⟨1, by decide +kernel⟩, by decide +kernel, List.getElem?_eq_getElem _,
      by decide +kernel, by decide +kernel, by decide +kernel⟩
  exact (clone_reaches_path_iff
    (Protocol.reaches_exec _ (by decide +kernel)) flushed).mpr (by decide +kernel)

end AsyncWalDb
