import AsyncWalDb.Lifetimes
import AsyncWalDb.LostWakeup
import AsyncWalDb.ShutdownEnds

/-! The log drains by itself. Each permit that an append or a flush stores is
worth one round of the flusher, and that is enough: with no tick of the
interval, no new work and nothing failing every schedule ends, and where it has
ended the queue is empty and everything that was ever pushed is durable. -/
namespace AsyncWalDb

open Interleaving

/-- No tick of the interval, no new work and no fault. -/
def Unprompted (σ : SystemConfig) : SystemAction → Prop
  | .move _ (.call .run) | .move _ .notified | .move _ (.see _) => True
  | .move i .proceed => ∀ call, σ.tasks[i]? ≠ some ⟨call, .flusher .select⟩
  | _ => False

def permitsBy : Option WalCall → Nat
  | some (.append _ _) | some (.flush _ .notify) => 1
  | _ => 0

def Prog.round : Prog → Nat
  | .flusher .draining | .flusher .final => 2
  | .flusher .check | .flusher .leaving => 1
  | _ => 0

/-- What the other tasks have left between calls; the flusher goes round as often as it is asked. -/
def Prog.leftAside : Prog → Nat
  | .flusher _ => 0
  | prog => prog.left

def roundsOf (s : System) (t : Task) : Nat :=
  3 * (permitsBy t.call + s.wal.flushNotify.toNat) + t.prog.round

def selfLeft (σ : SystemConfig) : Nat × Nat × Nat :=
  (σ.total fun t => t.prog.leftAside,
    3 * (σ.total (fun t => permitsBy t.call) + σ.shared.wal.flushNotify.toNat) +
      σ.total (fun t => t.prog.round),
    movesLeft (logView σ))

/-- The flusher waits for a permit, nothing is queued, and the file has it all; whoever is not at an
end sleeps in an append. -/
structure Drained (σ : SystemConfig) : Prop where
  waits : σ.tasks[0]? = some ⟨none, .flusher .select⟩ ∧ σ.shared.wal.flushNotify = false
  queue : σ.shared.wal.pending = []
  durable : ∀ it ∈ σ.shared.wal.history, σ.shared.wal.Durable it
  tasks : ∀ (i : Nat) (t : Task), 0 < i → σ.tasks[i]? = some t →
    (t.call = none ∧ t.prog.ended = true) ∨
    ∃ e tx stage, t = ⟨some (.append e (.parked σ.shared.wal.spaceAvailable)),
      .transaction tx stage⟩

structure DrainsItself (crates : Crates) (σ : SystemConfig) : Prop where
  ends : ¬ ∃ f : Nat → SystemConfig, f 0 = σ ∧
    ∀ n, ∃ a, Unprompted (f n) a ∧ (systemProtocol crates).step (f n) a = some (f (n + 1))
  restful : ∃ σ', (systemProtocol crates).Reaches Unprompted σ σ' ∧
    (systemProtocol crates).AtRest Unprompted σ'
  rest : ∀ σ', (systemProtocol crates).Reaches Unprompted σ σ' →
    (systemProtocol crates).AtRest Unprompted σ' →
    (∀ it ∈ σ'.shared.wal.history, crates.Fits it.entry) → Drained σ'

variable {crates : Crates} {i : Nat} {m : Move} {s s' : System} {t t' : Task} {w w' : Wal}
  {σ σ' : SystemConfig} {a : SystemAction}

section Measure

theorem run_permits {c : WalCall} {call : Option WalCall}
    (ran : c.run crates i w = some (w', call)) :
    permitsBy call + w'.flushNotify.toNat ≤ permitsBy (some c) + w.flushNotify.toNat := by
  cases c with
  | append entry pc =>
    cases pc with
    | load | parked | exchange =>
      simp only [WalCall.run, appendRun] at ran
      split at ran <;> cases ran <;> exact Nat.le_refl _
    | full | push => cases ran; exact Nat.le_refl _
    | notify it => cases ran; simp [permitsBy]
  | flush before pc =>
    cases pc with
    | notify => cases ran; simp [permitsBy]
    | poll | check =>
      simp only [WalCall.run, flushRun] at ran
      split at ran <;> cases ran <;> exact Nat.le_refl _
    | sleep => cases ran; exact Nat.le_refl _
  | drain caller pc => cases run_runs ran <;> exact Nat.le_refl _

theorem leftAside_le (prog : Prog) : prog.leftAside ≤ prog.left := by
  cases prog with
  | flusher => exact Nat.zero_le _
  | transaction | storeHandle | stopFlusher | flushCaller | checkpoint => exact Nat.le_refl _

theorem returned_aside (result : Except WalError Unit) (prog : Prog) :
    (prog.returned result).leftAside ≤ prog.leftAside ∧
      (prog.returned result).round ≤ prog.round := by
  cases prog with
  | transaction tx stage =>
    have less := returned_left result (.transaction tx stage)
    cases stage <;> cases result <;> exact ⟨less, Nat.le_refl _⟩
  | flusher stage => cases stage <;> simp [Prog.returned, Prog.leftAside, Prog.round]
  | storeHandle | stopFlusher | flushCaller | checkpoint => exact ⟨Nat.le_refl _, Nat.le_refl _⟩

theorem flusher_round {stage : FlusherStage}
    (ran : ownMove crates i m s (.flusher stage) = some (s', t'))
    (running : s.shutdown = false) (asked : m = .proceed → stage ≠ .select) :
    t'.prog.leftAside = 0 ∧ roundsOf s' t' < roundsOf s ⟨none, .flusher stage⟩ := by
  simp only [ownMove, flusherMove] at ran
  split at ran
  · exact absurd rfl (asked rfl)
  · split at ran
    · rename_i permit
      cases ran
      exact ⟨rfl, by simp [roundsOf, permitsBy, Prog.round, permit]⟩
    · contradiction
  · rw [running, if_neg Bool.false_ne_true] at ran
    cases ran
    exact ⟨rfl, by simp [roundsOf, permitsBy, Prog.round]⟩
  · cases ran
    exact ⟨rfl, by simp [roundsOf, permitsBy, Prog.round]⟩
  · contradiction

theorem self_moves (moves : ProgMoves crates i s t m s' t') (running : s.shutdown = false)
    (ok : Unprompted σ (.move i m)) (slot : σ.tasks[i]? = some t) :
    t'.prog.leftAside < t.prog.leftAside ∨
      (t'.prog.leftAside = t.prog.leftAside ∧ (roundsOf s' t' < roundsOf s t ∨
        (roundsOf s' t' = roundsOf s t ∧ ∃ k, m = .call k))) := by
  cases moves with
  | @own m prog s' t' ran =>
    by_cases flusher : ∃ stage, prog = .flusher stage
    · obtain ⟨stage, rfl⟩ := flusher
      obtain ⟨none_aside, less⟩ := flusher_round ran running (by
        rintro rfl rfl
        exact ok none slot)
      exact .inr ⟨none_aside, .inl less⟩
    · have other : ∀ stage, prog ≠ .flusher stage := fun stage same => flusher ⟨stage, same⟩
      have old : NoNewWork σ (.move i m) := by
        cases m with
        | call | proceed | notified | see | interrupt | discard => trivial
        | appendOp | commit | abort | flush => cases ok
      have whole : prog.leftAside = prog.left := by
        cases prog with
        | flusher stage => exact absurd rfl (other stage)
        | transaction | storeHandle | stopFlusher | flushCaller | checkpoint => rfl
      have less := ownMove_left ran (.inr other) old
      exact .inl (by dsimp only; rw [whole]; exact lt_of_le_of_lt (leftAside_le _) less)
  | @run c prog w c' ran =>
    have permits := run_permits ran
    refine .inr ⟨rfl, ?_⟩
    simp only [roundsOf]
    rcases Nat.lt_or_eq_of_le permits with less | same
    · exact .inl (by omega)
    · exact .inr ⟨by omega, _, rfl⟩
  | @returned c prog w ran =>
    have permits := run_permits ran
    obtain ⟨aside, round⟩ := returned_aside (.ok ()) prog
    rcases Nat.lt_or_eq_of_le aside with less | same
    · exact .inl less
    · refine .inr ⟨same, ?_⟩
      simp only [roundsOf]
      by_cases less : permitsBy none + w.flushNotify.toNat = permitsBy (some c) +
        s.wal.flushNotify.toNat ∧
          (prog.returned (.ok ())).round = prog.round
      · exact .inr ⟨by omega, _, rfl⟩
      · exact .inl (by omega)
  | failed | dropped => cases ok

theorem selfLeft_step (running : σ.shared.shutdown = false) (ok : Unprompted σ a)
    (taken : (systemProtocol crates).step σ a = some σ') :
    Prod.Lex (· < ·) (Prod.Lex (· < ·) (· < ·)) (selfLeft σ') (selfLeft σ) := by
  cases a with
  | spawn k => cases ok
  | move i m =>
    obtain ⟨t, s, t', slot, moved, rfl⟩ := Protocol.step_move taken
    obtain ⟨asideRest, aside, aside'⟩ := total_move (fun t : Task => t.prog.leftAside) slot
    obtain ⟨permitRest, permits, permits'⟩ := total_move (fun t : Task => permitsBy t.call) slot
    obtain ⟨roundRest, round, round'⟩ := total_move (fun t : Task => t.prog.round) slot
    simp only [selfLeft, aside, aside', permits, permits', round, round']
    rcases self_moves (progMoves moved) running ok slot with less | ⟨same, less | ⟨still, k, rfl⟩⟩
    · exact .left _ _ (by omega)
    · rw [same]
      simp only [roundsOf] at less
      exact .right _ (.left _ _ (by omega))
    · rw [same]
      simp only [roundsOf] at still
      rcases log_step taken with ⟨_, other⟩ | ⟨b, matching, walked⟩
      · exact absurd rfl (other i k)
      · rw [(matching i k).mp rfl] at walked
        have closer := movesLeft_step (logView σ) (.move i (.call k)) _ trivial walked
        rw [show 3 * (permitsBy t'.call + permitRest + s.wal.flushNotify.toNat) +
          (t'.prog.round + roundRest) =
          3 * (permitsBy t.call + permitRest + σ.shared.wal.flushNotify.toNat) +
            (t.prog.round + roundRest) by omega]
        exact .right _ (.right _ closer)

end Measure

section Rest

variable {max : Nat} {path : String} {base : Bytes} {ckpt : Option (List Char)} {mem : Memory}

theorem Unprompted.notStopped (ok : Unprompted σ a) : NotStopped σ a := by
  unfold Unprompted at ok
  split at ok <;> first | exact ok.elim | trivial

theorem NotStopped.kept (ok : NotStopped σ a) : FlusherKept σ a := by
  unfold FlusherKept
  split
  · exact ok
  · trivial

theorem running_run
    (run : (systemProtocol crates).Reaches NotStopped (System.start max path base ckpt mem) σ) :
    Running σ := by
  refine run.invariant ⟨rfl, rfl, fun j t slot => ?_⟩ fun _ _ _ running ok taken =>
    running_step running ok taken
  rcases start_slot slot with rfl | rfl <;> exact ⟨rfl, rfl⟩

theorem storedView_run
    (run : (systemProtocol crates).Reaches NotStopped (System.start max path base ckpt mem) σ) :
    Stored (logView σ) := by
  refine run.invariant (I := fun σ => Stored (logView σ)) ?_ fun _ _ _ stored ok taken =>
    (stored_system stored ok.faultless taken).2
  exact stored_new (by simp [System.start])

theorem unprompted_stuck (traced : Traced crates (logView σ))
    (rest : (systemProtocol crates).AtRest Unprompted σ)
    (fits : ∀ it ∈ σ.shared.wal.history, crates.Fits it.entry) : Stuck crates (logView σ) := by
  intro i c slot
  obtain ⟨⟨call, prog⟩, at_i, rfl⟩ :=
    Option.map_eq_some_iff.mp ((List.getElem?_map ..).symm.trans slot)
  have still := rest (.move i (.call .run)) trivial
  simp only [Protocol.step, at_i, Option.bind_some, Option.map_eq_none_iff, systemProtocol,
    callMove] at still
  refine ⟨still, ?_⟩
  rintro caller done it left rfl
  exact fits it (traced.held i _ slot (by simp [heldBy, DrainPc.batch]))

theorem unprompted_asleep (known : RestKnown σ) (stuck : Stuck crates (logView σ))
    {c : WalCall} {prog : Prog} (slot : σ.tasks[i]? = some ⟨some c, prog⟩) :
    ∃ e tx stage, c = .append e (.parked σ.shared.wal.spaceAvailable) ∧
      prog = .transaction tx stage := by
  obtain ⟨e, rfl⟩ := stuck.asleep known.lock (List.mem_of_getElem? (logView_slot slot))
  obtain ⟨tx, stage, rfl⟩ := staged_append (known.staged i _ slot) rfl
  exact ⟨e, tx, stage, rfl, rfl⟩

theorem unprompted_waits (known : RestKnown σ) (running : Running σ)
    (stuck : Stuck crates (logView σ)) (rest : (systemProtocol crates).AtRest Unprompted σ) :
    σ.tasks[0]? = some ⟨none, .flusher .select⟩ ∧ σ.shared.wal.flushNotify = false := by
  obtain ⟨call, stage, at_0, _⟩ := known.flusher
  have waits : σ.tasks[0]? = some ⟨none, .flusher .select⟩ := by
    cases call with
    | some c =>
      obtain ⟨_, _, _, _, other⟩ := unprompted_asleep known stuck at_0
      cases other
    | none =>
      have early := (running.tasks 0 _ at_0).2
      cases stage with
      | select => exact at_0
      | draining =>
        rcases known.staged 0 _ at_0 with same | ⟨caller, _⟩
        · cases same
        · cases caller
      | check =>
        have idle : OwnIdle crates σ 0 :=
          atRest_idle rest (fun call same => by cases at_0.symm.trans same) fun _ => trivial
        exact (idle.stuck at_0 (by simp [ownMove, flusherMove, running.shutdown])).elim
      | final | leaving | exited => cases early
  refine ⟨waits, ?_⟩
  by_contra stored
  have still := rest (.move 0 .notified) trivial
  simp only [Protocol.step, waits, Option.bind_some, Option.map_eq_none_iff] at still
  simp [systemProtocol, ownMove, flusherMove, stored] at still

theorem unprompted_drained
    (run : (systemProtocol crates).Reaches NotStopped (System.start max path base ckpt mem) σ)
    (rest : (systemProtocol crates).AtRest Unprompted σ)
    (fits : ∀ it ∈ σ.shared.wal.history, crates.Fits it.entry) : Drained σ := by
  have known := restKnown_run (fun _ _ => NotStopped.kept) restKnown_start run
  have running := running_run run
  have notified := flusherNotified_run flusherNotified_start (run.weaken fun _ _ _ => trivial)
  have stuck := unprompted_stuck (traced_run run) rest fits
  obtain ⟨waits, permit⟩ := unprompted_waits known running stuck rest
  have no_drain : ∀ t ∈ σ.tasks, ∀ c, t.call = some c →
      ∃ e, c = .append e (.parked σ.shared.wal.spaceAvailable) := by
    rintro ⟨call, prog⟩ mem c rfl
    obtain ⟨i, slot⟩ := List.getElem?_of_mem mem
    obtain ⟨e, tx, stage, same, _⟩ := unprompted_asleep known stuck slot
    exact ⟨e, same⟩
  have queue : σ.shared.wal.pending = [] := by
    by_contra queued
    rcases notified.queued queued with stored | ⟨t, mem, noticing⟩
    · rw [permit] at stored
      cases stored
    · obtain ⟨call, prog⟩ := t
      cases call with
      | none => cases noticing
      | some c =>
        obtain ⟨e, rfl⟩ := no_drain _ mem c rfl
        cases noticing
  refine ⟨⟨waits, permit⟩, queue, fun it pushed => ?_, ?_⟩
  · rcases (storedView_run run).placed it pushed with queued | ⟨j, u, slot, held⟩ | durable
    · rw [show (logView σ).shared.pending = [] from queue] at queued
      cases queued
    · obtain ⟨t, at_j, rfl⟩ := Option.map_eq_some_iff.mp ((List.getElem?_map ..).symm.trans slot)
      obtain ⟨call, prog⟩ := t
      cases call with
      | none => cases held
      | some c =>
        obtain ⟨e, rfl⟩ := no_drain _ (List.mem_of_getElem? at_j) c rfl
        cases held
    · exact durable
  · rintro i ⟨call, prog⟩ later slot
    cases call with
    | none =>
      have other : ∀ call stage, σ.tasks[i]? ≠ some ⟨call, .flusher stage⟩ := fun call stage same =>
        Nat.ne_of_gt later (notified.first i call stage same)
      have idle : ∀ i, (∀ call stage, σ.tasks[i]? ≠ some ⟨call, .flusher stage⟩) →
          OwnIdle crates σ i := fun i other =>
        atRest_idle rest (fun call => other call .select) fun _ => trivial
      exact .inl ⟨rfl, rest_ended (idle i other) (rest_store known idle)
        (.inr (running.tasks i _ slot).1) slot
        (known.staged i _ slot)⟩
    | some c =>
      obtain ⟨e, tx, stage, rfl, rfl⟩ := unprompted_asleep known stuck slot
      exact .inr ⟨e, tx, stage, rfl⟩

/-- From every configuration of every run without faults in which no shutdown is called. -/
theorem drains_itself
    (run : (systemProtocol crates).Reaches NotStopped (System.start max path base ckpt mem) σ) :
    DrainsItself crates σ := by
  have wf : WellFounded (Prod.Lex (· < ·) (Prod.Lex (· < ·) (· < ·)) : Nat × Nat × Nat →
      Nat × Nat × Nat → Prop) :=
    (Prod.lex Nat.lt_wfRel (Prod.lex Nat.lt_wfRel Nat.lt_wfRel)).wf
  have later : ∀ τ, (systemProtocol crates).Reaches Unprompted σ τ →
      (systemProtocol crates).Reaches NotStopped (System.start max path base ckpt mem) τ :=
    fun τ later => run.trans (later.weaken fun _ _ => Unprompted.notStopped)
  have settles :=
    Protocol.Reaches.settles wf selfLeft (fun τ reached => (running_run (later τ reached)).shutdown)
    fun τ a τ' running ok taken => selfLeft_step running ok taken
  exact ⟨settles.2, settles.1, fun τ reached rest fits => unprompted_drained
    (later τ reached) rest fits⟩

/-- Nothing fails, no shutdown is called, and no append parks after the wake-up it would need. -/
def InTime (σ : SystemConfig) (a : SystemAction) : Prop :=
  NotStopped σ a ∧ SystemNoFaultAnd ParksInTime σ a

instance (σ : SystemConfig) (a : SystemAction) : Decidable (InTime σ a) := by
  unfold InTime
  infer_instance

theorem counted_run {C : WalConfig → Nat → Prop} {tasks : List (Option WalCall)}
    (idle : ∀ t ∈ tasks, t = none) {τ : WalConfig}
    (run : (walProtocol crates).Reaches (NoFaultAnd C) ⟨Wal.new max, tasks⟩ τ) :
    τ.shared.pendingCount = used τ := by
  have stored : ∀ τ, (walProtocol crates).Reaches (NoFaultAnd C) ⟨Wal.new max, tasks⟩ τ →
      Stored τ := fun τ run =>
    stored_run idle (run.weaken fun _ _ => NoFaultAnd.faultless)
  refine run.invariant_with (I := fun τ => τ.shared.pendingCount = used τ) stored ?_ ?_
  · have none_taken : Config.total taken (⟨Wal.new max, tasks⟩ : WalConfig) = 0 :=
      total_idle _ fun t mem => congrArg taken (idle t mem)
    rw [used, none_taken]
    rfl
  · intro τ a τ' known _ equal ok taken
    have counter := counter_step (wal_step_cases taken) known.covered
    rw [lostBy_faultless ok.faultless] at counter
    omega

theorem rescued_start {tasks : List (Option WalCall)} (idle : ∀ t ∈ tasks, t = none) :
    Rescued ⟨Wal.new max, tasks⟩ := by
  refine ⟨fun e n mem => ?_, fun t mem asleep => ?_⟩
  · cases idle _ mem
  · rw [idle t mem] at asleep
    exact asleep.elim

/-- No call is in progress and every task but the flusher,
the first one, is at an end or between its operations. -/
def EveryoneReturned (σ : SystemConfig) : Prop :=
  ∀ (i : Nat) (t : Task), 0 < i → σ.tasks[i]? = some t → t.call = none ∧ t.prog.ended = true

/-- Without a lost wake-up nobody is left asleep: where nothing can move by itself every append,
flush, commit, abort and checkpoint has returned. -/
theorem everyone_returns
    (run : (systemProtocol crates).Reaches InTime (System.start max path base ckpt mem) σ)
    (rest : (systemProtocol crates).AtRest Unprompted σ)
    (fits : ∀ it ∈ σ.shared.wal.history, crates.Fits it.entry) : EveryoneReturned σ := by
  have drained := unprompted_drained (run.weaken fun _ _ => And.left) rest fits
  have log := log_reaches (run.weaken fun _ _ => And.right)
  have idle : ∀ t ∈ (logView (System.start max path base ckpt mem)).tasks, t = none := by
    simp [logView, System.start]
  have rescued : Rescued (logView σ) :=
    log.invariant (rescued_start idle) fun _ _ _ ok guarded taken => rescued_step ok taken guarded
  have counted := counted_run idle log
  have calls : ∀ t ∈ (logView σ).tasks, ∀ c, t = some c → ∃ e n, c = .append e (.parked n) := by
    rintro _ mem c rfl
    obtain ⟨⟨call, prog⟩, at_task, same⟩ := List.mem_map.mp mem
    obtain ⟨i, slot⟩ := List.getElem?_of_mem at_task
    rcases Nat.eq_zero_or_pos i with rfl | later
    · cases Option.some.inj (slot.symm.trans drained.waits.1)
      cases same
    · rcases drained.tasks i _ later slot with ⟨none_left, _⟩ | ⟨e, tx, stage, whole⟩
      · cases same.symm.trans none_left
      · cases whole
        cases same
        exact ⟨e, _, rfl⟩
  have zero : used (logView σ) = 0 := by
    have none_taken : (logView σ).total taken = 0 := by
      refine total_idle _ fun t mem => ?_
      cases t with
      | none => rfl
      | some c =>
        obtain ⟨e, n, rfl⟩ := calls _ mem c rfl
        rfl
    rw [used, none_taken, show (logView σ).shared.pending = [] from drained.queue]
    rfl
  intro i t later slot
  rcases drained.tasks i t later slot with ended | ⟨e, tx, stage, rfl⟩
  · exact ended
  · have mem := List.mem_of_getElem? (logView_slot slot)
    rcases rescued.rescued _ mem (asleep_iff.mpr ⟨e, _, rfl, rfl⟩) with positive | ⟨u, mem_u, wakes⟩
    · omega
    · cases u with
      | none => cases wakes
      | some c =>
        obtain ⟨e, n, rfl⟩ := calls _ mem_u c rfl
        cases wakes

def Prog.rests : Prog → Bool
  | .flusher .select => true
  | prog => prog.ended

theorem rests_idle {prog : Prog} (rests : prog.rests = true)
    (asked : m = .proceed ∨ m = .notified ∨ ∃ n, m = .see n)
    (other : m = .proceed → prog ≠ .flusher .select) (permit : s.wal.flushNotify = false) :
    ownMove crates i m s prog = none := by
  cases prog with
  | transaction tx stage =>
    cases stage with
    | active | returned | dropped => rcases asked with rfl | rfl | ⟨n, rfl⟩ <;> rfl
    | appending | commitAppend | commitLogged | commitFlush | applying | abortAppend | abortLogged
    | abortFlush => cases rests
  | flusher stage =>
    cases stage with
    | select =>
      rcases asked with rfl | rfl | ⟨n, rfl⟩
      · exact absurd rfl (other rfl)
      · simp [ownMove, flusherMove, permit]
      · rfl
    | exited => rcases asked with rfl | rfl | ⟨n, rfl⟩ <;> rfl
    | draining | check | final | leaving => cases rests
  | storeHandle stored =>
    cases stored with
    | true => simp [ownMove]
    | false => cases rests
  | stopFlusher stage =>
    cases stage with
    | returned => rcases asked with rfl | rfl | ⟨n, rfl⟩ <;> rfl
    | signal | notify | take | join => cases rests
  | flushCaller => rcases asked with rfl | rfl | ⟨n, rfl⟩ <;> rfl
  | checkpoint stage =>
    cases stage with
    | returned | interrupted => rcases asked with rfl | rfl | ⟨n, rfl⟩ <;> rfl
    | start | scan | replay | openMarker | writeMarker => cases rests

/-- Conversely, where everybody is at an end and no permit is stored, nothing moves by itself. -/
theorem rest_of_ended (tasks : ∀ t ∈ σ.tasks, t.call = none ∧ t.prog.rests = true)
    (permit : σ.shared.wal.flushNotify = false) : (systemProtocol crates).AtRest Unprompted σ := by
  intro a ok
  by_contra enabled
  obtain ⟨τ, taken⟩ := Option.ne_none_iff_exists'.mp enabled
  cases a with
  | spawn k => cases ok
  | move i m =>
    obtain ⟨⟨call, prog⟩, s, t', slot, moved, _⟩ := Protocol.step_move taken
    obtain ⟨idle, rests⟩ := tasks _ (List.mem_of_getElem? slot)
    cases idle
    cases m with
    | call k => cases moved
    | proceed =>
      have other : prog ≠ .flusher .select := by
        rintro rfl
        exact ok none slot
      cases (rests_idle rests (.inl rfl) (fun _ => other) permit).symm.trans moved
    | notified =>
      cases (rests_idle rests (.inr (.inl rfl)) (fun same => by cases same) permit).symm.trans moved
    | see n =>
      cases (rests_idle rests (.inr (.inr ⟨n, rfl⟩)) (fun same => by cases same) permit).symm.trans
        moved
    | appendOp | commit | abort | discard | flush | interrupt => cases ok

end Rest

def twoAppending : SystemConfig :=
  ((systemProtocol (Bincode.crates true)).exec NotStopped (System.start 1 "wal.log" [] none
    ⟨fun _ => none, 1⟩)
    ([.spawn .transaction, .spawn .transaction, .move 2 (.appendOp (.insert 0 0 "k" [1]) 7)] ++
      runs 2 3 ++
      [.move 3 (.appendOp (.insert 0 0 "k" [2]) 7)] ++ runs 3 2)).get (by decide +kernel)

theorem drains_itself_twoAppending : DrainsItself (Bincode.crates true) twoAppending :=
  drains_itself (Protocol.reaches_exec _ (by decide +kernel))

def allReturned : SystemConfig :=
  ((systemProtocol (Bincode.crates true)).exec InTime newDatabase
    (insertAlone [1] 2 ++ [.move 1 .proceed, .move 0 .notified] ++ runs 0 1 ++
      [.move 0 .proceed])).get (by decide +kernel)

theorem everyone_returns_allReturned : EveryoneReturned allReturned :=
  everyone_returns (Protocol.reaches_exec _ (by decide +kernel)) (rest_of_ended (by decide +kernel)
    (by decide +kernel))
    (by decide +kernel)

end AsyncWalDb
