import AsyncWalDb.CheckpointAtomic
import AsyncWalDb.FlushNotify
import AsyncWalDb.Quiescence
import AsyncWalDb.Shutdown

/-! The shutdown comes to an end. Once it is signalled and the users start nothing new, every
schedule of what is in progress is finite, whatever fails; where nothing can move any more the
flusher has exited, every shutdown and every commit has returned, and no lock is held. Only appends
may be left that sleep on `space_available`. -/
namespace AsyncWalDb

open Interleaving

/-- Everything but new work of the users: no task begins, and
a transaction between its operations is not moved on. -/
def NoNewWork (_ : SystemConfig) : SystemAction → Prop
  | .move _ (.call _) | .move _ .proceed | .move _ .notified | .move _ (.see _) | .move _ .interrupt
  | .move _ .discard => True
  | _ => False

/-- The runtime keeps the flusher's future, the first task. -/
def FlusherKept (_ : SystemConfig) : SystemAction → Prop
  | .move 0 (.call .drop) => False
  | _ => True

instance (σ : SystemConfig) (a : SystemAction) : Decidable (FlusherKept σ a) := by
  unfold FlusherKept
  split <;> infer_instance

/-- What happens without the users: no future is dropped. -/
def Unattended (_ : SystemConfig) : SystemAction → Prop
  | .move _ (.call .run) | .move _ (.call (.fail _)) | .move _ .proceed | .move _ .notified
  | .move _ (.see _) => True
  | _ => False

def Prog.left : Prog → Nat
  | .transaction tx stage =>
    match stage with
    | .active | .appending => 1
    | .commitAppend => tx.entries.length + 4
    | .commitLogged => tx.entries.length + 3
    | .commitFlush => tx.entries.length + 2
    | .applying rest => rest.length + 1
    | .abortAppend => 2
    | .abortLogged => 1
    | .abortFlush | .returned _ | .dropped => 0
  | .flusher stage =>
    match stage with
    | .select => 5
    | .draining => 4
    | .check => 3
    | .final => 2
    | .leaving => 1
    | .exited => 0
  | .storeHandle stored => if stored then 0 else 1
  | .stopFlusher stage =>
    match stage with
    | .signal => 4
    | .notify => 3
    | .take => 2
    | .join => 1
    | .returned => 0
  | .flushCaller => 0
  | .checkpoint stage =>
    match stage with
    -- the id has at most 20 digits
    | .start => 25
    | .scan _ => 24
    | .replay lastCkpt found => (decimal (maxCkpt lastCkpt found)).length + 3
    | .openMarker id => (decimal id).length + 2
    | .writeMarker id k => (decimal id).length - k + 1
    | .returned _ | .interrupted => 0

def WalCall.appends : WalCall → Bool
  | .append _ _ => true
  | .flush _ _ | .drain _ _ => false

def Prog.awaits : Prog → Option Bool
  | .transaction _ .appending | .transaction _ .commitAppend | .transaction _ .abortAppend =>
    some true
  | .transaction _ .commitFlush | .transaction _ .abortFlush => some false
  | .flusher .draining | .flusher .final => some false
  | _ => none

def Task.Staged (t : Task) : Prop :=
  t.call.map WalCall.appends = t.prog.awaits ∨
    (t.prog = .flushCaller ∧ t.call.map WalCall.appends = some false)

/-- At the end of its code, or where only a user moves it on. -/
def Prog.ended : Prog → Bool
  | .transaction _ .active | .transaction _ (.returned _) | .transaction _ .dropped => true
  | .flusher stage => stage == .exited
  | .storeHandle stored => stored
  | .stopFlusher stage => stage == .returned
  | .flushCaller => true
  | .checkpoint (.returned _) | .checkpoint .interrupted => true
  | _ => false

/-- Everybody is at an end, or sleeps on `space_available` in the append of a transaction. -/
structure AllEnded (σ : SystemConfig) : Prop where
  exited : σ.shared.flusherExited = true
  unlocked : σ.shared.wal.locked = false ∧ σ.shared.storeLocked = false ∧
    σ.shared.handleLocked = false
  tasks : ∀ t ∈ σ.tasks, (t.call = none ∧ t.prog.ended = true) ∨
    ∃ e tx stage, t = ⟨some (.append e (.parked σ.shared.wal.spaceAvailable)),
      .transaction tx stage⟩

/-- Waiting for the flusher a shutdown keeps the lock of the handle's place. -/
def Task.joins (t : Task) : Bool :=
  match t.prog with
  | .stopFlusher .join => true
  | _ => false

structure WindsDown (crates : Crates) (σ : SystemConfig) : Prop where
  ends : ¬ ∃ f : Nat → SystemConfig, f 0 = σ ∧ ∀ n, ∃ a, NoNewWork (f n) a ∧
    (systemProtocol crates).step (f n) a = some (f (n + 1))
  restful : ∃ σ', (systemProtocol crates).Reaches Unattended σ σ' ∧
    (systemProtocol crates).AtRest Unattended σ'
  rest : ∀ σ', (systemProtocol crates).Reaches (fun σ a => NoNewWork σ a ∧ FlusherKept σ a) σ σ' →
    (systemProtocol crates).AtRest Unattended σ' → AllEnded σ'

variable {crates : Crates} {i : Nat} {m : Move} {s s' : System} {t t' : Task} {σ σ' : SystemConfig}
  {a : SystemAction}

section Moves

inductive ProgMoves (crates : Crates) (i : Nat) (s : System) : Task → Move → System →
    Task → Prop where
  | own {m prog s' t'} (ran : ownMove crates i m s prog = some (s', t')) :
    ProgMoves crates i s ⟨none, prog⟩ m s' t'
  | run {c prog w c'} (ran : c.run crates i s.wal = some (w, some c')) :
    ProgMoves crates i s ⟨some c, prog⟩ (.call .run) { s with wal := w } ⟨some c', prog⟩
  | returned {c prog w} (ran : c.run crates i s.wal = some (w, none)) :
    ProgMoves crates i s ⟨some c, prog⟩ (.call .run) { s with wal := w }
      ⟨none, prog.returned (.ok ())⟩
  | failed {c prog fault w e} :
    ProgMoves crates i s ⟨some c, prog⟩ (.call (.fail fault)) { s with wal := w }
      ⟨none, prog.returned (.error e)⟩
  | dropped {c prog w} : ProgMoves crates i s ⟨some c, prog⟩ (.call .drop) { s with wal := w }
    ⟨none, prog.dropped⟩

theorem progMoves (moved : (systemProtocol crates).move i m s t = some (s', t')) :
    ProgMoves crates i s t m s' t' := by
  obtain ⟨call, prog⟩ := t
  cases call with
  | none =>
    cases m with
    | call k => cases moved
    | proceed | notified | appendOp | commit | abort | discard | flush | see | interrupt =>
      exact .own moved
  | some c =>
    cases m with
    | call k =>
      cases k with
      | run =>
        obtain ⟨⟨w, call'⟩, ran, same⟩ := Option.map_eq_some_iff.mp moved
        cases same
        cases call' with
        | some c' => exact .run ran
        | none => exact .returned ran
      | fail fault =>
        obtain ⟨out, failed, same⟩ := Option.map_eq_some_iff.mp moved
        cases same
        exact .failed
      | drop =>
        obtain ⟨w, dropped, same⟩ := Option.map_eq_some_iff.mp moved
        cases same
        exact .dropped
    | proceed | notified | appendOp | commit | abort | discard | flush | see | interrupt =>
      cases moved

theorem shutdown_stays (step : (systemProtocol crates).step σ a = some σ')
    (stopping : σ.shared.shutdown = true) : σ'.shared.shutdown = true := by
  cases a with
  | spawn k =>
    obtain ⟨s, t, spawned, rfl⟩ := Protocol.step_spawn step
    cases k <;> (cases spawned; exact stopping)
  | move i m =>
    obtain ⟨t, s, t', slot, moved, rfl⟩ := Protocol.step_move step
    cases progMoves moved with
    | @own _ prog _ _ ran =>
      cases control : prog.isControl with
      | true => cases ownMove_control control ran <;> first | exact stopping | rfl
      | false => exact (own_aside control (ownMove_runs ran)).1.trans stopping
    | run | returned | failed | dropped => exact stopping

end Moves

section Measure

theorem returned_left (result : Except WalError Unit) (prog : Prog) :
    (prog.returned result).left ≤ prog.left := by
  cases prog with
  | transaction tx stage => cases stage <;> cases result <;> simp [Prog.returned, Prog.left]
  | flusher stage => cases stage <;> simp [Prog.returned, Prog.left]
  | storeHandle | stopFlusher | flushCaller | checkpoint => exact Nat.le_refl _

theorem dropped_left (prog : Prog) : prog.dropped.left ≤ prog.left := by
  cases prog with
  | transaction tx stage => cases stage <;> simp [Prog.dropped, Prog.left]
  | flusher stage => cases stage <;> simp [Prog.dropped, Prog.left]
  | storeHandle | stopFlusher | flushCaller | checkpoint => exact Nat.le_refl _

theorem decimal_length_le (id : UInt64) : (decimal id).length ≤ 20 := by
  have small := id.toNat_lt
  exact (Nat.length_toDigits_le_iff (by decide) (by decide)).mpr (by omega)

theorem ckptMove_left {stage : CkptStage} (moved : ckptMove crates m s stage = some (s', t')) :
    t'.prog.left < Prog.left (.checkpoint stage) := by
  unfold ckptMove at moved
  split at moved
  · split at moved
    · cases moved; simp [Prog.left]
    · split at moved <;> (cases moved; simp [Prog.left])
  · split at moved
    · contradiction
    · split at moved
      · cases moved; simp [Prog.left]
      · cases moved; simp [Prog.left]
      · rename_i lastCkpt n _ _ found _
        have digits := decimal_length_le (maxCkpt lastCkpt found)
        split at moved
        · cases moved; simp [Prog.left]
        · cases moved
          simp only [Prog.left]
          omega
  · split at moved
    · contradiction
    · cases moved; simp [Prog.left]
  · cases moved; simp [Prog.left]
  · split at moved
    · cases moved
      simp only [Prog.left]
      omega
    · cases moved; simp [Prog.left]
  all_goals first | (cases moved; simp [Prog.left]) | contradiction

theorem control_left {prog : Prog} (runs : ControlRuns s prog s' t')
    (stopping : s.shutdown = true ∨ ∀ stage, prog ≠ .flusher stage) (old : prog ≠ .flushCaller) :
    t'.prog.left < prog.left := by
  cases runs with
  | again running =>
    rcases stopping with stopping | other
    · rw [running] at stopping
      cases stopping
    · exact absurd rfl (other .check)
  | flush => exact absurd rfl old
  | tick | notified | final | leave | store | signal | notify | take | missed | joined =>
    simp [Prog.left]

theorem ownMove_left {prog : Prog} (ran : ownMove crates i m s prog = some (s', t'))
    (stopping : s.shutdown = true ∨ ∀ stage, prog ≠ .flusher stage)
    (old : NoNewWork σ (.move i m)) : t'.prog.left < prog.left := by
  cases control : prog.isControl with
  | true =>
    refine control_left (ownMove_control control ran) stopping ?_
    rintro rfl
    cases m with
    | flush => cases old
    | call | proceed | notified | appendOp | commit | abort | discard | see | interrupt => cases ran
  | false =>
    cases ownMove_runs ran with
    | control _ _ _ before => rw [before] at control; cases control
    | ckpt moved => exact ckptMove_left moved
    | refused | append | commit | abort => cases old
    | notActive | discard | commitFlush | abortFlush | done | apply | applyFails | cancel =>
      simp [Prog.left]

theorem ProgMoves.left (moves : ProgMoves crates i s t m s' t') (stopping : s.shutdown = true)
    (old : NoNewWork σ (.move i m)) :
    t'.prog.left ≤ t.prog.left ∧ (t.call = none → t'.prog.left < t.prog.left) := by
  cases moves with
  | own ran =>
    have less := ownMove_left ran (.inl stopping) old
    exact ⟨less.le, fun _ => less⟩
  | run => exact ⟨Nat.le_refl _, fun busy => by cases busy⟩
  | @returned c prog w ran => exact ⟨returned_left (.ok ()) prog, fun busy => by cases busy⟩
  | @failed c prog fault w e => exact ⟨returned_left (.error e) prog, fun busy => by cases busy⟩
  | @dropped c prog w => exact ⟨dropped_left prog, fun busy => by cases busy⟩

/-- The moves left between calls, and then those left to the calls in progress. -/
def shutdownLeft (σ : SystemConfig) : Nat × Nat :=
  (σ.total fun t => t.prog.left, movesLeft (logView σ))

theorem shutdownLeft_step (stopping : σ.shared.shutdown = true) (old : NoNewWork σ a)
    (taken : (systemProtocol crates).step σ a = some σ') :
    Prod.Lex (· < ·) (· < ·) (shutdownLeft σ') (shutdownLeft σ) := by
  cases a with
  | spawn k => cases old
  | move i m =>
    obtain ⟨t, s, t', slot, moved, rfl⟩ := Protocol.step_move taken
    obtain ⟨fewer, own⟩ := (progMoves moved).left stopping old
    obtain ⟨rest, total, after⟩ := total_move (fun t => t.prog.left) slot
    have total' := after s t'
    rcases Nat.lt_or_eq_of_le fewer with less | same
    · exact .left _ _ (by omega)
    · -- the task is in a call, and the call comes closer to its end
      have busy : ∃ k, m = .call k := by
        obtain ⟨call, prog⟩ := t
        cases call with
        | none => exact absurd same (Nat.ne_of_lt (own rfl))
        | some c =>
          cases m with
          | call k => exact ⟨k, rfl⟩
          | proceed | notified | appendOp | commit | abort | discard | flush | see | interrupt =>
            cases moved
      obtain ⟨k, rfl⟩ := busy
      rcases log_step taken with ⟨_, other⟩ | ⟨b, matching, walked⟩
      · exact absurd rfl (other i k)
      · rw [(matching i k).mp rfl] at walked
        have less := movesLeft_step (logView σ) (.move i (.call k)) _ trivial walked
        have equal : (Config.total (fun t => t.prog.left) (⟨s, σ.tasks.set i t'⟩ : SystemConfig)) =
            σ.total fun t => t.prog.left := by
          omega
        rw [shutdownLeft, shutdownLeft, equal]
        exact .right _ less

end Measure

section Stages

theorem returned_awaits (result : Except WalError Unit) (prog : Prog) :
    (prog.returned result).awaits = none := by
  cases prog with
  | transaction tx stage => cases stage <;> cases result <;> rfl
  | flusher stage => cases stage <;> rfl
  | storeHandle | stopFlusher | flushCaller | checkpoint => rfl

theorem dropped_awaits (prog : Prog) : prog.dropped.awaits = none := by
  cases prog with
  | transaction tx stage => cases stage <;> rfl
  | flusher | storeHandle | stopFlusher | flushCaller | checkpoint => rfl

theorem run_appends {c c' : WalCall} {w w' : Wal} (ran : c.run crates i w = some (w', some c')) :
    c'.appends = c.appends := by
  cases run_runs ran <;> rfl

theorem staged_move (moves : ProgMoves crates i s t m s' t') (staged : t.Staged) : t'.Staged := by
  cases moves with
  | @own m prog s' t' ran =>
    cases control : prog.isControl with
    | true => cases ownMove_control control ran <;> first | exact .inl rfl | exact .inr ⟨rfl, rfl⟩
    | false =>
      cases ownMove_runs ran with
      | control _ _ _ before => rw [before] at control; cases control
      | ckpt moved =>
        obtain ⟨stage', rfl, _⟩ := ckptMove_runs moved
        exact .inl rfl
      | refused | append | commit | abort | notActive | discard | commitFlush | abortFlush | done
      | apply | applyFails | cancel =>
        exact .inl rfl
  | @run c prog w c' ran =>
    have same : (some c').map WalCall.appends = (some c).map WalCall.appends := by
      simp [run_appends ran]
    rcases staged with here | ⟨caller, here⟩
    · exact .inl (same.trans here)
    · exact .inr ⟨caller, same.trans here⟩
  | @returned c prog w ran => exact .inl (returned_awaits (.ok ()) prog).symm
  | @failed c prog fault w e => exact .inl (returned_awaits (.error e) prog).symm
  | @dropped c prog w => exact .inl (dropped_awaits prog).symm

/-- The flusher is the first task, and once it is through its last move it says so. -/
def FlusherRuns (σ : SystemConfig) : Prop :=
  ∃ call stage, σ.tasks[0]? = some ⟨call, .flusher stage⟩ ∧
    (stage = .exited → σ.shared.flusherExited = true)

theorem exited_stays (moves : ProgMoves crates i s t m s' t') (exited : s.flusherExited = true) :
    s'.flusherExited = true := by
  cases moves with
  | @own m prog s' t' ran =>
    cases control : prog.isControl with
    | true => cases ownMove_control control ran <;> first | exact exited | rfl
    | false =>
      cases ownMove_runs ran with
      | control _ _ _ before => rw [before] at control; cases control
      | ckpt moved =>
        obtain ⟨stage', rfl, runs⟩ := ckptMove_runs moved
        cases runs <;> exact exited
      | refused | append | commit | abort | notActive | discard | commitFlush | abortFlush | done
      | apply | applyFails | cancel =>
        exact exited
  | run | returned | failed | dropped => exact exited

theorem flusher_move {call : Option WalCall} {stage : FlusherStage}
    (moves : ProgMoves crates i s ⟨call, .flusher stage⟩ m s' t')
    (staged : Task.Staged ⟨call, .flusher stage⟩) (kept : m ≠ .call .drop) :
    ∃ call' stage', t' = ⟨call', .flusher stage'⟩ ∧
      (stage' = .exited → s'.flusherExited = true) := by
  cases moves with
  | own ran =>
    cases ownMove_control rfl ran with
    | leave => exact ⟨_, _, rfl, fun _ => rfl⟩
    | tick | notified | again | final => exact ⟨_, _, rfl, fun same => by cases same⟩
  | run ran =>
    refine ⟨_, stage, rfl, ?_⟩
    rintro rfl
    rcases staged with same | ⟨caller, _⟩
    · cases same
    · cases caller
  | returned | failed =>
    rcases staged with same | ⟨caller, _⟩
    · cases stage with
      | draining | final => exact ⟨_, _, rfl, fun same => by cases same⟩
      | select | check | leaving | exited => cases same
    · cases caller
  | dropped => exact absurd rfl kept

theorem returned_joins (result : Except WalError Unit) (prog : Prog) (call call' : Option WalCall) :
    Task.joins ⟨call, prog.returned result⟩ = Task.joins ⟨call', prog⟩ := by
  cases prog with
  | transaction tx stage => cases stage <;> cases result <;> rfl
  | flusher stage => cases stage <;> rfl
  | storeHandle | stopFlusher | flushCaller | checkpoint => rfl

theorem dropped_joins (prog : Prog) (call call' : Option WalCall) :
    Task.joins ⟨call, prog.dropped⟩ = Task.joins ⟨call', prog⟩ := by
  cases prog with
  | transaction tx stage => cases stage <;> rfl
  | flusher | storeHandle | stopFlusher | flushCaller | checkpoint => rfl

theorem joins_move (moves : ProgMoves crates i s t m s' t')
    (held : t.joins = true → s.handleLocked = true) :
    LockMove System.handleLocked Task.joins s t s' t' := by
  cases moves with
  | @own m prog s' t' ran =>
    cases control : prog.isControl with
    | true =>
      cases ownMove_control control ran with
      | take free stored => simp [LockMove, Task.joins, free]
      | joined exited => simp [LockMove, Task.joins, held rfl]
      | tick | notified | again | final | leave | store | signal | notify | missed | flush =>
        exact .keep rfl rfl
    | false =>
      cases ownMove_runs ran with
      | control _ _ _ before => rw [before] at control; cases control
      | ckpt moved =>
        obtain ⟨stage', rfl, runs⟩ := ckptMove_runs moved
        cases runs <;> exact .keep rfl rfl
      | refused | append | commit | abort | notActive | discard | commitFlush | abortFlush | done
      | apply | applyFails | cancel =>
        exact .keep rfl rfl
  | run => exact .keep rfl rfl
  | @returned c prog w ran => exact .keep rfl (returned_joins (.ok ()) prog none (some c))
  | @failed c prog fault w e => exact .keep rfl (returned_joins (.error e) prog none (some c))
  | @dropped c prog w => exact .keep rfl (dropped_joins prog none (some c))

theorem handleLock_step (ok : Exclusive System.handleLocked Task.joins σ)
    (taken : (systemProtocol crates).step σ a = some σ') :
    Exclusive System.handleLocked Task.joins σ' := by
  cases a with
  | spawn k =>
    obtain ⟨s, t, spawned, rfl⟩ := Protocol.step_spawn taken
    cases k <;> (cases spawned; exact exclusive_spawn ok rfl rfl)
  | move i m =>
    obtain ⟨t, s, t', slot, moved, rfl⟩ := Protocol.step_move taken
    exact exclusive_move ok slot (joins_move (progMoves moved) (ok.locked_of_holds slot))

end Stages

section Rest

structure RestKnown (σ : SystemConfig) : Prop where
  staged : ∀ (i : Nat) (t : Task), σ.tasks[i]? = some t → t.Staged
  flusher : FlusherRuns σ
  lock : LockOk (logView σ)
  store : Exclusive System.storeLocked Task.holdsStore σ
  handle : Exclusive System.handleLocked Task.joins σ

theorem lockOk_system (ok : LockOk (logView σ))
    (taken : (systemProtocol crates).step σ a = some σ') : LockOk (logView σ') := by
  rcases log_step taken with ⟨same, _⟩ | ⟨b, _, walked⟩
  · rw [same]
    exact ok
  · exact lockOk_step ok (wal_step_cases walked)

theorem restKnown_step (known : RestKnown σ) (kept : FlusherKept σ a)
    (taken : (systemProtocol crates).step σ a = some σ') : RestKnown σ' := by
  have step := system_step_cases taken
  refine ⟨?_, ?_, lockOk_system known.lock taken, storeLock_step known.store step,
    handleLock_step known.handle taken⟩
  · cases a with
    | spawn k =>
      obtain ⟨s, t, spawned, rfl⟩ := Protocol.step_spawn taken
      intro j u slot
      rcases getElem?_append_one slot with old | ⟨_, rfl⟩
      · exact known.staged j u old
      · cases k <;> (cases spawned; exact .inl rfl)
    | move i m =>
      obtain ⟨t, s, t', slot, moved, rfl⟩ := Protocol.step_move taken
      intro j u slot'
      rcases getElem?_set_cases slot' with ⟨_, rfl, _⟩ | ⟨_, old⟩
      · exact staged_move (progMoves moved) (known.staged i t slot)
      · exact known.staged j u old
  · obtain ⟨call, stage, at_0, exits⟩ := known.flusher
    cases a with
    | spawn k =>
      have still := Protocol.step_other taken (fun _ same => by cases same) at_0
      obtain ⟨s, t, spawned, rfl⟩ := Protocol.step_spawn taken
      refine ⟨call, stage, still, fun exited => ?_⟩
      cases k <;> (cases spawned; exact exits exited)
    | move i m =>
      by_cases own : i = 0
      · subst own
        obtain ⟨t, s, t', slot, moved, rfl⟩ := Protocol.step_move taken
        cases Option.some.inj (at_0.symm.trans slot)
        have awake : m ≠ .call .drop := by
          rintro rfl
          exact kept
        obtain ⟨call', stage', rfl, exits'⟩ :=
          flusher_move (progMoves moved) (known.staged 0 _ at_0) awake
        have bound := (List.getElem?_eq_some_iff.mp slot).1
        exact ⟨call', stage', List.getElem?_set_self bound, exits'⟩
      · have still := Protocol.step_other taken (fun _ same => by cases same; exact own rfl) at_0
        obtain ⟨t, s, t', slot, moved, rfl⟩ := Protocol.step_move taken
        exact ⟨call, stage, still, fun exited => exited_stays (progMoves moved) (exits exited)⟩

theorem atRest_log (rest : (systemProtocol crates).AtRest Unattended σ) :
    (walProtocol crates).AtRest Driven (logView σ) := by
  intro b driven
  by_contra enabled
  obtain ⟨τ, taken⟩ := Option.ne_none_iff_exists'.mp enabled
  unfold Driven at driven
  split at driven
  · rename_i i
    obtain ⟨call, w, call', slot, moved, _⟩ := Protocol.step_move taken
    have still := rest (.move i (.call .run)) trivial
    obtain ⟨t, at_i, rfl⟩ := Option.map_eq_some_iff.mp ((List.getElem?_map ..).symm.trans slot)
    obtain ⟨call, prog⟩ := t
    cases call with
    | none => cases moved
    | some c =>
      simp only [Protocol.step, at_i, Option.bind_some, Option.map_eq_none_iff, systemProtocol,
        callMove] at still
      rw [show c.run crates i σ.shared.wal = some (w, call') from moved] at still
      cases still
  · rename_i i fault
    obtain ⟨call, w, call', slot, moved, _⟩ := Protocol.step_move taken
    have still := rest (.move i (.call (.fail fault))) trivial
    obtain ⟨t, at_i, rfl⟩ := Option.map_eq_some_iff.mp ((List.getElem?_map ..).symm.trans slot)
    obtain ⟨call, prog⟩ := t
    cases call with
    | none => cases moved
    | some c =>
      obtain ⟨out, failed, _⟩ := Option.map_eq_some_iff.mp moved
      simp only [Protocol.step, at_i, Option.bind_some, Option.map_eq_none_iff, systemProtocol,
        callMove] at still
      rw [show c.fail σ.shared.wal fault = some out from failed] at still
      cases still
  · cases driven

def OwnIdle (crates : Crates) (σ : SystemConfig) (i : Nat) : Prop :=
  ∀ prog, σ.tasks[i]? = some ⟨none, prog⟩ → ownMove crates i .proceed σ.shared prog = none ∧
    ∀ n, ownMove crates i (.see n) σ.shared prog = none

theorem atRest_idle {guard : SystemConfig → SystemAction → Prop}
    (rest : (systemProtocol crates).AtRest guard σ)
    (proceeds : guard σ (.move i .proceed)) (sees : ∀ n, guard σ (.move i (.see n))) :
    OwnIdle crates σ i := by
  refine fun prog slot => ⟨?_, fun n => ?_⟩
  · have still := rest (.move i .proceed) proceeds
    simp only [Protocol.step, slot, Option.bind_some, Option.map_eq_none_iff] at still
    exact still
  · have still := rest (.move i (.see n)) (sees n)
    simp only [Protocol.step, slot, Option.bind_some, Option.map_eq_none_iff] at still
    exact still

theorem OwnIdle.stuck {prog : Prog} (idle : OwnIdle crates σ i)
    (slot : σ.tasks[i]? = some ⟨none, prog⟩)
    (enabled : (ownMove crates i .proceed σ.shared prog).isSome = true) : False := by
  rw [(idle prog slot).1] at enabled
  cases enabled

theorem rest_store (known : RestKnown σ)
    (idle : ∀ i, (∀ call stage, σ.tasks[i]? ≠ some ⟨call, .flusher stage⟩) → OwnIdle crates σ i) :
    σ.shared.storeLocked = false := by
  by_contra locked
  obtain ⟨i, ⟨call, prog⟩, slot, held⟩ := known.store.holder (by simpa using locked)
  have staged := known.staged i _ slot
  cases prog with
  | checkpoint stage =>
    have quiet : call = none := by
      rcases staged with same | ⟨caller, _⟩
      · exact Option.map_eq_none_iff.mp same
      · cases caller
    subst quiet
    have idle := idle i fun call stage same => by cases slot.symm.trans same
    cases stage with
    | openMarker => exact idle.stuck slot rfl
    | writeMarker id k => exact idle.stuck slot (by simp only [ownMove, ckptMove]; split <;> rfl)
    | start | scan | replay | returned | interrupted => cases held
  | transaction | flusher | storeHandle | stopFlusher | flushCaller => cases held

theorem ckpt_ended {stage : CkptStage} (idle : OwnIdle crates σ i)
    (unlocked : σ.shared.storeLocked = false)
    (slot : σ.tasks[i]? = some ⟨none, .checkpoint stage⟩) :
    Prog.ended (.checkpoint stage) = true := by
  cases stage with
  | returned | interrupted => rfl
  | openMarker => exact (idle.stuck slot rfl).elim
  | writeMarker id k =>
    exact (idle.stuck slot (by simp only [ownMove, ckptMove]; split <;> rfl)).elim
  | replay lastCkpt found => exact (idle.stuck slot (by simp [ownMove, ckptMove, unlocked])).elim
  | start =>
    refine (idle.stuck slot ?_).elim
    simp only [ownMove, ckptMove]
    split
    · rfl
    · split <;> rfl
  | scan lastCkpt =>
    have stuck := (idle _ slot).2 (σ.shared.flushedBytes crates)
    simp only [ownMove, ckptMove, lt_irrefl, if_false] at stuck
    split at stuck
    · contradiction
    · contradiction
    · split at stuck <;> contradiction

theorem tx_ended {tx : Transaction} {stage : TxStage} (idle : OwnIdle crates σ i)
    (unlocked : σ.shared.storeLocked = false)
    (slot : σ.tasks[i]? = some ⟨none, .transaction tx stage⟩)
    (staged : Task.Staged ⟨none, .transaction tx stage⟩) :
    Prog.ended (.transaction tx stage) = true := by
  have none_awaited : Prog.awaits (.transaction tx stage) = none := by
    rcases staged with same | ⟨caller, _⟩
    · exact same.symm
    · cases caller
  cases stage with
  | active | returned | dropped => rfl
  | appending | commitAppend | commitFlush | abortAppend | abortFlush => cases none_awaited
  | commitLogged | abortLogged => exact (idle.stuck slot rfl).elim
  | applying left =>
    refine (idle.stuck slot ?_).elim
    cases left with
    | nil => rfl
    | cons op left =>
      change (if σ.shared.storeLocked then none else _ : Option (System × Task)).isSome = true
      rw [unlocked, if_neg Bool.false_ne_true]
      split <;> rfl

theorem rest_ended {prog : Prog} (idle : OwnIdle crates σ i)
    (unlocked : σ.shared.storeLocked = false)
    (exited : (σ.shared.flusherExited = true ∧ σ.shared.handleLocked = false) ∨ prog.stops = false)
    (slot : σ.tasks[i]? = some ⟨none, prog⟩)
    (staged : Task.Staged ⟨none, prog⟩) : prog.ended = true := by
  cases prog with
  | transaction tx stage => exact tx_ended idle unlocked slot staged
  | checkpoint stage => exact ckpt_ended idle unlocked slot
  | flushCaller => rfl
  | storeHandle stored =>
    cases stored with
    | true => rfl
    | false => exact (idle.stuck slot rfl).elim
  | flusher stage =>
    cases stage with
    | exited => rfl
    | draining | final =>
      rcases staged with same | ⟨caller, _⟩
      · cases same
      · cases caller
    | select | leaving => exact (idle.stuck slot rfl).elim
    | check =>
      refine (idle.stuck slot ?_).elim
      simp only [ownMove, flusherMove]
      split <;> rfl
  | stopFlusher stage =>
    cases stage with
    | returned => rfl
    | signal | notify => exact (idle.stuck slot rfl).elim
    | take =>
      rcases exited with ⟨_, free⟩ | other
      · refine (idle.stuck slot ?_).elim
        simp only [ownMove, stopMove, free, Bool.false_eq_true, if_false]
        split <;> rfl
      · cases other
    | join =>
      rcases exited with ⟨exited, _⟩ | other
      · exact (idle.stuck slot (by simp [ownMove, stopMove, exited])).elim
      · cases other

theorem rest_handle (known : RestKnown σ) (idle : ∀ i, OwnIdle crates σ i)
    (exited : σ.shared.flusherExited = true) : σ.shared.handleLocked = false := by
  by_contra locked
  obtain ⟨i, ⟨call, prog⟩, slot, held⟩ := known.handle.holder (by simpa using locked)
  have staged := known.staged i _ slot
  unfold Task.joins at held
  split at held
  · rename_i join
    subst join
    rcases staged with same | ⟨caller, _⟩
    · cases Option.map_eq_none_iff.mp same
      exact (idle i).stuck slot (by simp [ownMove, stopMove, exited])
    · cases caller
  · cases held

theorem staged_append
    {c : WalCall} {prog : Prog} (staged : Task.Staged ⟨some c, prog⟩) (append : c.appends = true) :
    ∃ tx stage, prog = .transaction tx stage := by
  rcases staged with same | ⟨_, other⟩
  · replace same : some true = prog.awaits := by simpa [append] using same
    cases prog with
    | transaction tx stage => exact ⟨tx, stage, rfl⟩
    | flusher stage => cases stage <;> cases same
    | storeHandle | stopFlusher | flushCaller | checkpoint => cases same
  · simp [append] at other

theorem rest_allEnded (known : RestKnown σ)
    (rest : (systemProtocol crates).AtRest Unattended σ) : AllEnded σ := by
  have stuck := rest_stuck (atRest_log rest)
  have idle : ∀ i, OwnIdle crates σ i := fun i => atRest_idle rest trivial fun _ => trivial
  have unlocked := rest_store known fun i _ => idle i
  have asleep : ∀ (i : Nat) (c : WalCall) (prog : Prog), σ.tasks[i]? = some ⟨some c, prog⟩ →
      ∃ e tx stage, c = .append e (.parked σ.shared.wal.spaceAvailable) ∧
        prog = .transaction tx stage := by
    intro i c prog slot
    obtain ⟨e, rfl⟩ := stuck.asleep known.lock (List.mem_of_getElem? (logView_slot slot))
    obtain ⟨tx, stage, rfl⟩ := staged_append (known.staged i _ slot) rfl
    exact ⟨e, tx, stage, rfl, rfl⟩
  have exited : σ.shared.flusherExited = true := by
    obtain ⟨call, stage, slot, exits⟩ := known.flusher
    cases call with
    | some c =>
      obtain ⟨_, _, _, _, other⟩ := asleep 0 c _ slot
      cases other
    | none => exact exits (by
      simpa [Prog.ended] using rest_ended (idle 0) unlocked (.inr rfl) slot (known.staged 0 _ slot))
  have free := rest_handle known idle exited
  refine ⟨exited, ⟨stuck.unlocked known.lock, unlocked, free⟩, ?_⟩
  rintro ⟨call, prog⟩ mem
  obtain ⟨i, slot⟩ := List.getElem?_of_mem mem
  cases call with
  | none =>
    exact .inl ⟨rfl, rest_ended (idle i) unlocked (.inl ⟨exited, free⟩) slot
      (known.staged i _ slot)⟩
  | some c =>
    obtain ⟨e, tx, stage, rfl, rfl⟩ := asleep i c prog slot
    exact .inr ⟨e, tx, stage, rfl⟩

end Rest

section Runs

variable {m : Nat} {path : String} {base : Bytes} {ckpt : Option (List Char)} {mem : Memory}

theorem restKnown_start : RestKnown (System.start m path base ckpt mem) := by
  refine ⟨fun j t slot => ?_, ⟨none, .select, rfl, fun same => by cases same⟩, ?_,
    storeLock_start, rfl⟩
  · rcases start_slot slot with rfl | rfl <;> exact .inl rfl
  · have free : ∀ (j : Nat) (t : Option WalCall),
        (logView (System.start m path base ckpt mem)).tasks[j]? = some t → holds t = false := by
      intro j t slot
      obtain ⟨u, at_j, rfl⟩ := Option.map_eq_some_iff.mp ((List.getElem?_map ..).symm.trans slot)
      rcases start_slot at_j with rfl | rfl <;> rfl
    refine ⟨fun j t slot held => ?_, fun j k t u slot _ held _ => ?_, fun locked => by cases locked⟩
    all_goals
      rw [free j t slot] at held
      cases held

theorem restKnown_run {guard : SystemConfig → SystemAction → Prop}
    (kept : ∀ σ a, guard σ a → FlusherKept σ a)
    {σ₀ : SystemConfig} (known : RestKnown σ₀) (run : (systemProtocol crates).Reaches guard σ₀ σ) :
    RestKnown σ := by
  apply run.invariant (I := RestKnown) known
  intro τ a τ' known ok taken
  exact restKnown_step known (kept _ _ ok) taken

/-- From every configuration of every run in which a shutdown
has been signalled, with any calls in progress. -/
theorem shutdown_ends
    (run : (systemProtocol crates).Reaches FlusherKept (System.start m path base ckpt mem) σ)
    (stopping : σ.shared.shutdown = true) : WindsDown crates σ := by
  have wf : WellFounded (Prod.Lex (· < ·) (· < ·) : Nat × Nat → Nat × Nat → Prop) :=
    (Prod.lex Nat.lt_wfRel Nat.lt_wfRel).wf
  have stays : ∀ {guard : SystemConfig → SystemAction → Prop} (τ : SystemConfig),
    (systemProtocol crates).Reaches guard σ τ →
      τ.shared.shutdown = true := by
    intro guard τ later
    apply later.invariant (I := fun τ => τ.shared.shutdown = true) stopping
    intro τ a τ' stopping _ taken
    exact shutdown_stays taken stopping
  have driven : ∀ τ a, Unattended τ a → NoNewWork τ a := by
    intro τ a happens
    unfold Unattended at happens
    split at happens <;> trivial
  refine ⟨?_, ?_, fun σ' later rest => ?_⟩
  · exact (Protocol.Reaches.settles wf shutdownLeft stays
      fun τ a τ' stopping old taken => shutdownLeft_step stopping old taken).2
  · exact (Protocol.Reaches.settles wf shutdownLeft stays fun τ a τ' stopping happens taken =>
      shutdownLeft_step stopping (driven τ a happens) taken).1
  · exact rest_allEnded (restKnown_run (fun _ _ => And.right)
      (restKnown_run (fun _ _ => id) restKnown_start run) later) rest

end Runs

def signalledMidCommit : SystemConfig :=
  ((systemProtocol (Bincode.crates true)).exec FlusherKept newDatabase
    ([.spawn .transaction] ++ insertInto "k" [1] 2 ++ [.move 2 (.commit 9), .move 2 (.call .run),
      .spawn .checkpoint,
      .move 3 .proceed, .spawn .stopFlusher, .move 4 .proceed])).get (by decide +kernel)

theorem shutdown_ends_midCommit : WindsDown (Bincode.crates true) signalledMidCommit :=
  shutdown_ends (Protocol.reaches_exec _ (by decide +kernel)) (by decide +kernel)

end AsyncWalDb
