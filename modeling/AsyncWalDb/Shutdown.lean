import AsyncWalDb.Acknowledged

/-! The shutdown returns once the flusher has exited, and the flusher exits after a final drain.
That drain has everything that was returned before the shutdown was called, as long as the handle of
the flusher was stored by then and no other drain still holds a batch. -/
namespace AsyncWalDb

open Interleaving

def Prog.stopped : Prog → Bool
  | .stopFlusher .returned => true
  | _ => false

/-- When shutdown `k` has returned Ok, all of `before` is durable. -/
def ShutdownPersists (before : List Item) (k : Nat) (σ : SystemConfig) : Prop :=
  (σ.tasks[k]?.any fun t => t.prog.stopped) = true → ∀ it ∈ before, σ.shared.wal.Durable it

instance (before : List Item) (k : Nat) (σ : SystemConfig) :
    Decidable (ShutdownPersists before k σ) := by
  unfold ShutdownPersists
  infer_instance

def NotStopped (σ : SystemConfig) : SystemAction → Prop
  | .spawn .stopFlusher => False
  | a => SystemNoFaultAnd (fun _ _ => True) σ a

/-- A shutdown that looks for the handle of the flusher finds it, or the flusher has exited. -/
def HandleStored (σ : SystemConfig) : SystemAction → Prop
  | .move i _ =>
    match σ.tasks[i]? with
    | some ⟨none, .stopFlusher .take⟩ =>
      σ.shared.flusherHandle = true ∨ σ.shared.flusherExited = true
    | _ => True
  | _ => True

/-- When the final drain of the flusher returns at an empty queue, and when it takes the file lock,
no other drain holds one of `before` unsynced. -/
def FinalDrainAlone (before : List Item) (σ : SystemConfig) : SystemAction → Prop
  | .move i (.call .run) =>
    match σ.tasks[i]? with
    | some ⟨some (.drain _ (.pop [])), .flusher .final⟩ =>
      σ.shared.wal.pending = [] → HeldByNone (logView σ) i before
    | some ⟨some (.drain _ (.lock _)), .flusher .final⟩ => HeldByNone (logView σ) i before
    | _ => True
  | _ => True

def StopsInOrder (before : List Item) (σ : SystemConfig) (a : SystemAction) : Prop :=
  SystemNoFaultAnd (fun _ _ => True) σ a ∧ HandleStored σ a ∧ FinalDrainAlone before σ a

instance (σ : SystemConfig) (a : SystemAction) : Decidable (NotStopped σ a) := by
  unfold NotStopped
  split <;> infer_instance

instance (σ : SystemConfig) (a : SystemAction) : Decidable (HandleStored σ a) := by
  unfold HandleStored
  rcases a with _ | ⟨i, _⟩
  · infer_instance
  · dsimp only
    rcases σ.tasks[i]? with _ | ⟨_ | _, _ | _ | _ | (_ | _ | _ | _ | _) | _ | _⟩ <;> infer_instance

instance (before : List Item) (σ : SystemConfig) (a : SystemAction) :
    Decidable (FinalDrainAlone before σ a) := by
  unfold FinalDrainAlone
  rcases a with _ | ⟨i, (_ | _ | _) | _ | _ | _ | _ | _ | _ | _ | _ | _⟩
  · infer_instance
  · dsimp only
    rcases σ.tasks[i]? with _ | ⟨_ | _ | _ | ⟨_, ⟨_ | _⟩ | _ | _ | _ | _ | _⟩,
      _ | (_ | _ | _ | _ | _ | _) | _ | _ | _ | _⟩ <;> infer_instance
  all_goals infer_instance

instance (before : List Item) (σ : SystemConfig) (a : SystemAction) :
    Decidable (StopsInOrder before σ a) := by
  unfold StopsInOrder
  infer_instance

section Phases

variable {crates : Crates} {i : Nat} {m : Move} {s s' : System} {t' : Task}

def Prog.stops : Prog → Bool
  | .stopFlusher _ => true
  | _ => false

def Prog.last : Prog → Bool
  | .flusher .final | .flusher .leaving | .flusher .exited | .stopFlusher .returned => true
  | _ => false

inductive PhaseRuns (s : System) : Prog → System → Task → Prop where
  | aside {prog s' t'} (shutdown : s'.shutdown = s.shutdown)
    (exited : s'.flusherExited = s.flusherExited)
    (kind : t'.prog.stops = prog.stops) (early : t'.prog.last = false) : PhaseRuns s prog s' t'
  | signal : PhaseRuns s (.stopFlusher .signal) { s with shutdown := true }
    ⟨none, .stopFlusher .notify⟩
  | final (shutdown : s.shutdown = true) :
    PhaseRuns s (.flusher .check) s ⟨some (.drain .flusher (.pop [])), .flusher .final⟩
  | leave : PhaseRuns s (.flusher .leaving) { s with flusherExited := true }
    ⟨none, .flusher .exited⟩
  | missed (missing : s.flusherHandle = false) :
    PhaseRuns s (.stopFlusher .take) s ⟨none, .stopFlusher .returned⟩
  | joined (exited : s.flusherExited = true) :
    PhaseRuns s (.stopFlusher .join) { s with handleLocked := false } ⟨none, .stopFlusher .returned⟩

theorem ownMove_phase {prog : Prog} (h : ownMove crates i m s prog = some (s', t')) :
    PhaseRuns s prog s' t' := by
  cases prog with
  | transaction tx stage =>
    cases ownMove_runs h with
    | control _ _ _ before => cases before
    | refused | append | commit | abort | notActive | discard | commitFlush | abortFlush | done
    | apply | applyFails
    | cancel => exact .aside rfl rfl rfl rfl
  | flusher stage =>
    simp only [ownMove, flusherMove] at h
    split at h
    · cases h; exact .aside rfl rfl rfl rfl
    · split at h
      · cases h; exact .aside rfl rfl rfl rfl
      · contradiction
    · split at h
      · rename_i shutdown
        cases h; exact .final shutdown
      · cases h; exact .aside rfl rfl rfl rfl
    · cases h; exact .leave
    · contradiction
  | storeHandle stored =>
    simp only [ownMove] at h
    split at h
    · cases h; exact .aside rfl rfl rfl rfl
    · contradiction
  | stopFlusher stage =>
    simp only [ownMove, stopMove] at h
    split at h
    · cases h; exact .signal
    · cases h; exact .aside rfl rfl rfl rfl
    · split at h
      · contradiction
      · split at h
        · cases h; exact .aside rfl rfl rfl rfl
        · rename_i missing
          cases h; exact .missed (by simpa using missing)
    · split at h
      · rename_i exited
        cases h; exact .joined exited
      · contradiction
    · contradiction
  | flushCaller =>
    simp only [ownMove] at h
    split at h
    · cases h; exact .aside rfl rfl rfl rfl
    · contradiction
  | checkpoint stage =>
    obtain ⟨stage', rfl, runs⟩ := ckptMove_runs h
    cases runs <;> exact .aside rfl rfl rfl rfl

@[simp] theorem returned_stops (prog : Prog) (result : Except WalError Unit) :
    (prog.returned result).stops = prog.stops := by
  unfold Prog.returned
  split <;> (try split) <;> rfl

@[simp] theorem returned_last (prog : Prog) (result : Except WalError Unit) :
    (prog.returned result).last = prog.last := by
  unfold Prog.returned
  split <;> (try split) <;> rfl

theorem returned_stopFlusher {prog : Prog} {result : Except WalError Unit} {stage : StopStage}
    (h : prog.returned result = .stopFlusher stage) : prog = .stopFlusher stage := by
  unfold Prog.returned at h
  split at h <;> (try split at h) <;> first | exact h | cases h

inductive PhaseStep (crates : Crates) (σ : SystemConfig) : SystemAction → SystemConfig → Prop where
  | spawn {k s t} (wal : s.wal = σ.shared.wal) (exited : s.flusherExited = σ.shared.flusherExited)
    (shutdown : s.shutdown = σ.shared.shutdown) (stops : t.prog.stops = true → k = .stopFlusher)
    (early : t.prog.last = false) : PhaseStep crates σ (.spawn k) ⟨s, σ.tasks ++ [t]⟩
  | call {i c prog w call} (slot : σ.tasks[i]? = some ⟨some c, prog⟩)
    (runs : Runs crates i σ.shared.wal c w call) :
    PhaseStep crates σ (.move i (.call .run)) ⟨{ σ.shared with wal := w },
      σ.tasks.set i ⟨call, if call.isSome then prog else prog.returned (.ok ())⟩⟩
  | own {i m prog s' t'} (slot : σ.tasks[i]? = some ⟨none, prog⟩)
    (runs : PhaseRuns σ.shared prog s' t') : PhaseStep crates σ (.move i m) ⟨s', σ.tasks.set i t'⟩

theorem phase_step_cases {C : WalConfig → Nat → Prop} {σ σ' : SystemConfig} {a : SystemAction}
    (ok : SystemNoFaultAnd C σ a) (taken : (systemProtocol crates).step σ a = some σ') :
    PhaseStep crates σ a σ' := by
  cases a with
  | spawn k =>
    obtain ⟨s, t, h, rfl⟩ := Protocol.step_spawn taken
    cases k <;> cases h <;> exact .spawn rfl rfl rfl (by simp [Prog.stops]) rfl
  | move i m =>
    obtain ⟨⟨call, prog⟩, s, t', slot, h, rfl⟩ := Protocol.step_move taken
    cases call with
    | none =>
      cases m with
      | call k => cases h
      | proceed | notified | appendOp | commit | abort | discard | flush | see | interrupt =>
        exact .own slot (ownMove_phase h)
    | some c =>
      cases m with
      | call k =>
        cases k with
        | run =>
          obtain ⟨out, ran, same⟩ := Option.map_eq_some_iff.mp h
          cases same
          exact .call slot (run_runs ran)
        | fail | drop => exact ok.elim
      | proceed | notified | appendOp | commit | abort | discard | flush | see | interrupt =>
        cases h

end Phases

section Stopping

variable {crates : Crates} {before : List Item} {σ σ' : SystemConfig} {a : SystemAction}

theorem stored_system {C : WalConfig → Nat → Prop} (stored : Stored (logView σ))
    (ok : SystemNoFaultAnd C σ a) (taken : (systemProtocol crates).step σ a = some σ') :
    σ.shared.wal.Extends σ'.shared.wal ∧ Stored (logView σ') := by
  rcases log_step taken with ⟨same, _⟩ | ⟨b, matching, moved⟩
  · have wal : σ'.shared.wal = σ.shared.wal := congrArg Config.shared same
    rw [same, wal]
    exact ⟨extends_same rfl rfl rfl rfl (List.Subset.refl _), stored⟩
  · have faultless : Faultless b := by
      unfold Faultless
      split
      · rename_i i fault
        rw [(matching i (.fail fault)).mpr rfl] at ok
        exact ok
      · rename_i i
        rw [(matching i .drop).mpr rfl] at ok
        exact ok
      · trivial
    have step := wal_step_cases moved
    exact ⟨(step_extends step stored.bounds).1, stored_step stored step faultless⟩

/-- The final drain of the flusher holds what a shutdown waits
for, and has made it durable when the flusher goes on. -/
def FlusherHolds (w : Wal) (before : List Item) (t : Task) : Prop :=
  match t.prog with
  | .flusher .final => ∃ caller pc, t.call = some (.drain caller pc) ∧ Awaited w before pc
  | .flusher .leaving | .flusher .exited => ∀ it ∈ before, w.Durable it
  | _ => True

theorem flusherHolds_mono {w w' : Wal} (ext : w.Extends w') {t : Task}
    (h : FlusherHolds w before t) : FlusherHolds w' before t := by
  unfold FlusherHolds at h ⊢
  split at h
  · obtain ⟨caller, pc, drain, waits⟩ := h
    exact ⟨caller, pc, drain, awaited_mono ext waits⟩
  · exact fun it hit => ext.durable (h it hit)
  · exact fun it hit => ext.durable (h it hit)
  · trivial

theorem flusherHolds_early {w : Wal} {t : Task} (early : t.prog.last = false) :
    FlusherHolds w before t := by
  unfold FlusherHolds
  split
  · rename_i final
    rw [final] at early
    cases early
  · rename_i leaving
    rw [leaving] at early
    cases early
  · rename_i exited
    rw [exited] at early
    cases early
  · trivial

structure Stopping (before : List Item) (σ : SystemConfig) : Prop where
  stored : Stored (logView σ)
  pushed : before ⊆ σ.shared.wal.history
  flusher : ∀ (j : Nat) (t : Task), σ.tasks[j]? = some t → FlusherHolds σ.shared.wal before t
  exited : σ.shared.flusherExited = true → ∀ it ∈ before, σ.shared.wal.Durable it
  returned : ∀ (j : Nat) (call : Option WalCall),
    σ.tasks[j]? = some ⟨call, .stopFlusher .returned⟩ →
    σ.shared.flusherExited = true

theorem Stopping.flusherHolds_call (stopping : Stopping before σ) {i : Nat} {c : WalCall}
    {prog : Prog} {w : Wal} {call : Option WalCall} (slot : σ.tasks[i]? = some ⟨some c, prog⟩)
    (runs : Runs crates i σ.shared.wal c w call)
    (ext : σ.shared.wal.Extends w) (alone : FinalDrainAlone before σ (.move i (.call .run))) :
    FlusherHolds w before ⟨call, if call.isSome then prog else prog.returned (.ok ())⟩ := by
  have holds := stopping.flusher i _ slot
  cases prog with
  | flusher stage =>
    cases stage with
    | final =>
      obtain ⟨caller, pc, drain, waits⟩ := holds
      cases drain
      have at_i := logView_slot slot
      have emptied : pc = .pop [] → σ.shared.wal.pending = [] → ∀ it ∈ before,
          σ.shared.wal.Durable it := by
        rintro rfl none_left
        simp only [FinalDrainAlone, slot] at alone
        exact stopping.stored.emptied at_i none_left stopping.pushed (alone none_left)
      have locks : ∀ batch, pc = .lock batch → ∀ it ∈ before, it ∈ batch ∨
          σ.shared.wal.Durable it := by
        rintro batch rfl
        simp only [FinalDrainAlone, slot] at alone
        exact stopping.stored.awaited at_i waits alone
      rcases runs_awaited runs (stopping.stored.calls i _ at_i) waits ext emptied locks with ⟨pc',
        rfl, waits⟩ | ⟨rfl, durable⟩
      · exact ⟨caller, pc', rfl, waits⟩
      · exact durable
    | leaving | exited =>
      have kept : ∀ it ∈ before, w.Durable it := fun it hit => ext.durable (holds it hit)
      cases call <;> exact kept
    | select | draining | check => exact flusherHolds_early (by cases call <;> rfl)
  | stopFlusher stage => cases call <;> trivial
  | transaction | storeHandle | flushCaller | checkpoint =>
    refine flusherHolds_early ?_
    dsimp only
    split
    · rfl
    · rw [returned_last]
      rfl

theorem Stopping.move (stopping : Stopping before σ) {i : Nat} {s' : System} {t' : Task}
    (stored : Stored (logView ⟨s', σ.tasks.set i t'⟩)) (ext : σ.shared.wal.Extends s'.wal)
    (holds : FlusherHolds s'.wal before t')
    (keeps : σ.shared.flusherExited = true → s'.flusherExited = true)
    (exits : s'.flusherExited = true → σ.shared.flusherExited = true ∨
      ∀ it ∈ before, s'.wal.Durable it)
    (returns : ∀ call, t' = ⟨call, .stopFlusher .returned⟩ → s'.flusherExited = true) :
    Stopping before ⟨s', σ.tasks.set i t'⟩ := by
  refine ⟨stored, fun it hit => ext.history.subset (stopping.pushed hit), fun j t hj => ?_,
    fun exited => ?_,
    fun j call hj => ?_⟩
  · rcases getElem?_set_cases hj with ⟨_, rfl, _⟩ | ⟨_, old⟩
    · exact holds
    · exact flusherHolds_mono ext (stopping.flusher j t old)
  · rcases exits exited with earlier | durable
    · exact fun it hit => ext.durable (stopping.exited earlier it hit)
    · exact durable
  · rcases getElem?_set_cases hj with ⟨_, same, _⟩ | ⟨_, old⟩
    · exact returns call same.symm
    · exact keeps (stopping.returned j call old)

theorem stopping_step (stopping : Stopping before σ) (ok : StopsInOrder before σ a)
    (taken : (systemProtocol crates).step σ a = some σ') : Stopping before σ' := by
  obtain ⟨faultless, handle, alone⟩ := ok
  obtain ⟨ext, stored⟩ := stored_system stopping.stored faultless taken
  cases phase_step_cases faultless taken with
  | spawn wal exited shutdown stops early =>
    refine ⟨stored, fun it hit => ext.history.subset (stopping.pushed hit), fun j t hj => ?_,
      fun h it hit => ext.durable (stopping.exited (exited ▸ h) it hit), fun j call hj => ?_⟩
    · rcases getElem?_append_one hj with old | ⟨_, rfl⟩
      · exact flusherHolds_mono ext (stopping.flusher j t old)
      · exact flusherHolds_early early
    · rcases getElem?_append_one hj with old | ⟨_, rfl⟩
      · exact exited.trans (stopping.returned j call old)
      · cases early
  | @call i c prog w call slot runs =>
    refine stopping.move stored ext (stopping.flusherHolds_call slot runs ext alone) id .inl
      fun call' same => ?_
    have last : prog = .stopFlusher .returned := by
      have same := congrArg Task.prog same
      dsimp only at same
      split at same
      · exact same
      · exact returned_stopFlusher same
    exact stopping.returned i (some c) (last ▸ slot)
  | @own i m prog s' t' slot runs =>
    have holds := stopping.flusher i _ slot
    cases runs with
    | aside shutdown exited kind early =>
      refine stopping.move stored ext (flusherHolds_early early) exited.trans
        (fun h => .inl (exited ▸ h)) ?_
      rintro call rfl
      cases early
    | signal => exact stopping.move stored ext trivial id .inl (by simp)
    | final shutdown =>
      refine stopping.move stored ext ?_ id .inl (by simp)
      exact ⟨.flusher, .pop [], rfl, stopping.pushed⟩
    | leave => exact stopping.move stored ext holds (fun _ => rfl) (fun _ => .inr holds) (by simp)
    | missed missing =>
      simp only [HandleStored, slot, missing] at handle
      exact stopping.move stored ext trivial id .inl fun _ _ => handle.resolve_left (by simp)
    | joined exited => exact stopping.move stored ext trivial id .inl fun _ _ => exited

theorem stopping_run {σ₀ : SystemConfig}
    (run : (systemProtocol crates).Reaches (StopsInOrder before) σ₀ σ)
    (initial : Stopping before σ₀) : Stopping before σ :=
  run.invariant initial fun _ _ _ stopping ok taken => stopping_step stopping ok taken

end Stopping

section Before

variable {crates : Crates} {σ σ' : SystemConfig} {a : SystemAction}

structure Running (σ : SystemConfig) : Prop where
  shutdown : σ.shared.shutdown = false
  exited : σ.shared.flusherExited = false
  tasks : ∀ (j : Nat) (t : Task), σ.tasks[j]? = some t → t.prog.stops = false ∧ t.prog.last = false

theorem NotStopped.faultless (h : NotStopped σ a) : SystemNoFaultAnd (fun _ _ => True) σ a := by
  unfold NotStopped at h
  split at h
  · exact h.elim
  · exact h

theorem running_step (running : Running σ) (ok : NotStopped σ a)
    (taken : (systemProtocol crates).step σ a = some σ') : Running σ' := by
  cases phase_step_cases ok.faultless taken with
  | @spawn k s t wal exited shutdown stops early =>
    refine ⟨shutdown.trans running.shutdown, exited.trans running.exited, fun j u hj => ?_⟩
    rcases getElem?_append_one hj with old | ⟨_, rfl⟩
    · exact running.tasks j u old
    · refine ⟨?_, early⟩
      cases stop : u.prog.stops with
      | false => rfl
      | true =>
        cases stops stop
        exact ok.elim
  | call slot runs =>
    refine ⟨running.shutdown, running.exited, fun j u hj => ?_⟩
    rcases getElem?_set_cases hj with ⟨_, rfl, _⟩ | ⟨_, old⟩
    · have early := running.tasks _ _ slot
      dsimp only
      split
      · exact early
      · simpa using early
    · exact running.tasks j u old
  | @own i m prog s' t' slot runs =>
    have early := running.tasks i _ slot
    cases runs with
    | aside shutdown exited kind early' =>
      refine ⟨shutdown.trans running.shutdown, exited.trans running.exited, fun j u hj => ?_⟩
      rcases getElem?_set_cases hj with ⟨_, rfl, _⟩ | ⟨_, old⟩
      · exact ⟨kind.trans early.1, early'⟩
      · exact running.tasks j u old
    | final shutdown =>
      rw [running.shutdown] at shutdown
      cases shutdown
    | signal | missed | joined => cases early.1
    | leave => cases early.2

theorem stopping_called (running : Running σ) (stored : Stored (logView σ))
    (called : (systemProtocol crates).step σ (.spawn .stopFlusher) = some σ') :
    Stopping σ.shared.wal.returned σ' := by
  have faultless : SystemNoFaultAnd (fun _ _ => True) σ (.spawn .stopFlusher) := trivial
  obtain ⟨_, stored'⟩ := stored_system stored faultless called
  obtain ⟨s, t, h, rfl⟩ := Protocol.step_spawn called
  cases h
  refine ⟨stored', stored.returned, fun j t hj => ?_, fun exited => ?_, fun j call hj => ?_⟩
  · rcases getElem?_append_one hj with old | ⟨_, rfl⟩
    · exact flusherHolds_early (running.tasks j t old).2
    · trivial
  · rw [running.exited] at exited
    cases exited
  · rcases getElem?_append_one hj with old | ⟨_, same⟩
    · cases (running.tasks j _ old).2
    · cases same

end Before

variable {crates : Crates} {m : Nat} {path : String} {base : Bytes} {ckpt : Option (List Char)}
  {mem : Memory} {σ σ₁ τ : SystemConfig}

/-- In every run without faults that stops in order, the shutdown that returns has persisted every
entry whose append had returned when it was called. -/
theorem shutdown_persists
    (earlier : (systemProtocol crates).Reaches NotStopped (System.start m path base ckpt mem) σ)
    (called : (systemProtocol crates).step σ (.spawn .stopFlusher) = some σ₁)
    (later : (systemProtocol crates).Reaches (StopsInOrder σ.shared.wal.returned) σ₁ τ) :
    ShutdownPersists σ.shared.wal.returned σ.tasks.length τ := by
  have running : Running σ := by
    apply earlier.invariant
    · refine ⟨rfl, rfl, fun j t hj => ?_⟩
      have known := List.mem_of_getElem? hj
      simp only [System.start, List.mem_cons, List.not_mem_nil, or_false] at known
      rcases known with rfl | rfl <;> exact ⟨rfl, rfl⟩
    · intro υ a υ' running ok taken
      exact running_step running ok taken
  have log := log_reaches (earlier.weaken fun _ _ => NotStopped.faultless)
  have stored : Stored (logView σ) := stored_run (by simp [System.start]) (log.weaken
    fun _ _ => NoFaultAnd.faultless)
  have stopping := stopping_run later (stopping_called running stored called)
  intro returned
  obtain ⟨⟨call, prog⟩, slot, stopped⟩ := (Option.any_eq_true _ _).mp returned
  cases prog with
  | stopFlusher stage =>
    cases stage with
    | returned => exact stopping.exited (stopping.returned _ call slot)
    | signal | notify | take | join => cases stopped
  | transaction | flusher | storeHandle | flushCaller | checkpoint => cases stopped

def insertAppended : List SystemAction := [.spawn .transaction] ++ insertInto "k" [1] 2

def appendedEnd : SystemConfig :=
  ((systemProtocol (Bincode.crates true)).exec NotStopped newDatabase insertAppended).get
    (by decide +kernel)

def appendedStop : SystemConfig :=
  ((systemProtocol (Bincode.crates true)).step appendedEnd (.spawn .stopFlusher)).get
    (by decide +kernel)

/-- The shutdown raises the flag, notifies, and finds no handle. -/
def stopEarly : List SystemAction := [.move 3 .proceed, .move 3 .proceed, .move 3 .proceed]

theorem shutdown_returns_early :
    ¬ ∀ (crates : Crates) (m : Nat) (path : String) (base : Bytes) (ckpt : Option (List Char))
      (mem : Memory)
      (σ σ₁ τ : SystemConfig), (systemProtocol crates).Reaches NotStopped
        (System.start m path base ckpt mem) σ →
      (systemProtocol crates).step σ (.spawn .stopFlusher) = some σ₁ →
      (systemProtocol crates).Reaches (SystemNoFaultAnd fun _ _ => True) σ₁ τ →
      ShutdownPersists σ.shared.wal.returned σ.tasks.length τ := by
  intro claim
  have earlier : (systemProtocol (Bincode.crates true)).Reaches NotStopped
      newDatabase appendedEnd :=
    Protocol.reaches_exec insertAppended (by decide +kernel)
  have later : (systemProtocol (Bincode.crates true)).Reaches (SystemNoFaultAnd
      fun _ _ => True) appendedStop _ :=
    Protocol.reaches_exec stopEarly (by decide +kernel)
  have persists := claim _ _ _ _ _ _ _ _ _ earlier (Option.some_get _).symm later
  revert persists
  decide +kernel

def stopInOrder : List SystemAction :=
  [.move 1 .proceed, .move 3 .proceed, .move 3 .proceed, .move 3 .proceed, .move 0 .notified] ++
    runs 0 9 ++
    [.move 0 .proceed] ++ runs 0 1 ++ [.move 0 .proceed, .move 3 .proceed]

theorem shutdown_persists_stopInOrder :
    ShutdownPersists appendedEnd.shared.wal.returned appendedEnd.tasks.length
      (((systemProtocol (Bincode.crates true)).exec (StopsInOrder appendedEnd.shared.wal.returned)
        appendedStop
        stopInOrder).get (by decide +kernel)) :=
  shutdown_persists (Protocol.reaches_exec insertAppended (by decide +kernel))
    (Option.some_get _).symm
    (Protocol.reaches_exec stopInOrder (by decide +kernel))

end AsyncWalDb
