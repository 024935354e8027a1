import AsyncWalDb.Lib.Settling
import AsyncWalDb.FrameOrder
import AsyncWalDb.QueueBound

/-! The log comes to rest. When no call starts, the calls in progress make
finitely many moves under every schedule, whatever fails; where nothing can move
any more the lock is free and only appends are left that sleep on `space_available`.
A flush makes a bounded number of moves even while others keep appending. -/
namespace AsyncWalDb

open Interleaving

/-- Moves of calls in progress, failing and dropped ones included; no call starts. -/
def CallsOnly (_ : WalConfig) : WalAction → Prop
  | .move _ (.call _) => True
  | _ => False

/-- What happens without the callers: a future is not dropped by itself. -/
def Driven (_ : WalConfig) : WalAction → Prop
  | .move _ (.call .run) | .move _ (.call (.fail _)) => True
  | _ => False

def AppendPc.rank (w : Wal) : AppendPc → Nat
  | .load => 2
  | .full => 1
  | .parked seen => if w.spaceAvailable = seen then 0 else 3
  | .exchange current => if w.pendingCount = current then 1 else 3
  | .push | .notify _ => 0

def AppendPc.work : AppendPc → Nat
  | .notify _ => 1
  | .load | .full | .parked _ | .exchange _ | .push => 5

def FlushPc.work : FlushPc → Nat
  | .notify => 209
  | .poll retries => 8 + 2 * (100 - retries)
  | .sleep retries => 9 + 2 * (99 - retries)
  | .check => 7

def DrainPc.work : DrainPc → Nat
  | .pop batch => 6 + 2 * batch.length
  | .lock batch => 5 + 2 * batch.length
  | .write _ rest false => 4 + 2 * rest.length
  | .write _ rest true => max 4 (3 + 2 * rest.length)
  | .sync _ => 3
  | .sub _ => 2
  | .wake => 1

/-- The moves left to a call, the pops of what it pushes included. -/
def costOf (w : Wal) : Option WalCall → Nat
  | some (.append _ pc) => pc.work + pc.rank w
  | some (.flush _ pc) => pc.work
  | some (.drain _ pc) => pc.work
  | none => 0

def waitingBy : Option WalCall → Nat
  | some (.append _ pc) => if pc.waiting then 1 else 0
  | _ => 0

/-- How often the call can still change the counter or wake the sleepers. -/
def signalsBy : Option WalCall → Nat
  | some (.append _ pc) => if pc.waiting then 1 else 0
  | some (.flush _ _) => 2
  | some (.drain _ .wake) => 1
  | some (.drain _ _) => 2
  | none => 0

/-- Each signal makes each waiting append start again. -/
def movesLeft (σ : WalConfig) : Nat :=
  3 * (σ.total waitingBy * σ.total signalsBy) +
    (σ.total (costOf σ.shared) + 3 * σ.shared.pending.length)

variable {crates : Crates} {m i : Nat} {w w' : Wal} {c : WalCall} {t : Option WalCall}
  {σ σ' : WalConfig} {a : WalAction}

section Measure

/-- What a move does to the measure: the call itself comes closer to its end, and other appends are
disturbed only by a signal. -/
structure Closer (w w' : Wal) (t t' : Option WalCall) : Prop where
  lower : costOf w' t' + 3 * w'.pending.length < costOf w t + 3 * w.pending.length
  waiting : waitingBy t' ≤ waitingBy t
  signalling : signalsBy t' ≤ signalsBy t
  quiet : signalsBy t' < signalsBy t ∨ (w'.pendingCount = w.pendingCount ∧
    w'.spaceAvailable = w.spaceAvailable)

theorem append_closer {entry : WalEntry} {pc : AppendPc}
    (h : appendRun i w entry pc = some (w', t)) : Closer w w' (some (.append entry pc)) t := by
  cases pc with
  | load =>
    simp only [appendRun] at h
    split at h <;> (cases h; constructor <;> simp [costOf, waitingBy, signalsBy, AppendPc.work,
      AppendPc.rank, AppendPc.waiting])
  | full =>
    cases h; constructor <;> simp [costOf, waitingBy, signalsBy, AppendPc.work, AppendPc.rank,
      AppendPc.waiting]
  | parked seen =>
    simp only [appendRun] at h
    split at h
    · contradiction
    · rename_i woken
      cases h
      constructor <;> simp [costOf, waitingBy, signalsBy, AppendPc.work, AppendPc.rank,
        AppendPc.waiting, woken]
  | exchange current =>
    simp only [appendRun] at h
    split at h
    · rename_i same
      cases h
      constructor <;> simp [costOf, waitingBy, signalsBy, AppendPc.work, AppendPc.rank,
        AppendPc.waiting, same]
    · rename_i changed
      cases h
      constructor <;> simp [costOf, waitingBy, signalsBy, AppendPc.work, AppendPc.rank,
        AppendPc.waiting, changed]
  | push =>
    cases h
    constructor <;> simp [costOf, waitingBy, signalsBy, AppendPc.work, AppendPc.rank,
      AppendPc.waiting]
    omega
  | notify it =>
    cases h; constructor <;> simp [costOf, waitingBy, signalsBy, AppendPc.work, AppendPc.rank,
      AppendPc.waiting]

theorem flush_closer {before : List Item} {pc : FlushPc} (h : flushRun w before pc = (w', t)) :
    Closer w w' (some (.flush before pc)) t := by
  cases pc with
  | notify => cases h; constructor <;> simp [costOf, waitingBy, signalsBy, FlushPc.work]
  | poll retries =>
    simp only [flushRun] at h
    split at h
    · rename_i again
      cases h
      constructor <;> simp [costOf, waitingBy, signalsBy, FlushPc.work]
      omega
    · cases h
      constructor <;> simp [costOf, waitingBy, signalsBy, FlushPc.work]
      omega
  | sleep retries =>
    cases h
    constructor <;> simp [costOf, waitingBy, signalsBy, FlushPc.work]
  | check =>
    simp only [flushRun] at h
    split at h <;> (cases h; constructor <;> simp [costOf, waitingBy, signalsBy,
      FlushPc.work, DrainPc.work])

theorem drain_closer {caller : Caller} {pc : DrainPc}
    (h : Runs crates i w (.drain caller pc) w' t) : Closer w w' (some (.drain caller pc)) t := by
  cases h with
  | pop front =>
    constructor <;> simp [costOf, waitingBy, signalsBy, DrainPc.work, front]
    omega
  | header | payload | lock =>
    constructor <;> simp [costOf, waitingBy, signalsBy, DrainPc.work] <;> omega
  | @flush _ _ headed =>
    cases headed <;> (constructor <;> simp [costOf, waitingBy, signalsBy, DrainPc.work])
  | empty | popped | sync | sub | wake =>
    constructor <;> simp [costOf, waitingBy, signalsBy, DrainPc.work]

theorem run_closer (h : c.run crates i w = some (w', t)) : Closer w w' (some c) t := by
  cases c with
  | append entry pc => exact append_closer h
  | flush before pc => exact flush_closer (Option.some.inj h)
  | drain caller pc => exact drain_closer (run_runs h)

theorem release_closer (c : WalCall) (w : Wal) : Closer w (c.release w) (some c) none := by
  have positive : 0 < costOf w (some c) := by
    unfold costOf
    split
    · rename_i e pc same
      cases pc <;> simp [AppendPc.work]
    · rename_i before pc same
      cases pc <;> simp [FlushPc.work]
    · rename_i caller pc same
      rcases pc with _ | _ | ⟨_, _, _ | _⟩ | _ | _ | _ <;> simp [DrainPc.work]
    · contradiction
  exact ⟨Nat.add_lt_add_right positive _, Nat.zero_le _, Nat.zero_le _, .inr ⟨rfl, rfl⟩⟩

theorem rank_le (w : Wal) (pc : AppendPc) : pc.rank w ≤ if pc.waiting then 3 else 0 := by
  cases pc <;> simp [AppendPc.rank, AppendPc.waiting] <;> split <;> omega

theorem cost_disturbed (w w' : Wal) (u : Option WalCall) :
    costOf w' u ≤ costOf w u + 3 * waitingBy u := by
  unfold costOf
  split
  · rename_i e pc
    have rank := rank_le w' pc
    by_cases waiting : pc.waiting = true <;> simp [waitingBy, waiting] at rank ⊢ <;> omega
  all_goals omega

theorem cost_quiet (count : w'.pendingCount = w.pendingCount)
    (space : w'.spaceAvailable = w.spaceAvailable)
    (u : Option WalCall) : costOf w' u = costOf w u := by
  have ranks : ∀ pc : AppendPc, pc.rank w' = pc.rank w := by
    intro pc
    cases pc <;> simp [AppendPc.rank, count, space]
  unfold costOf
  split <;> simp [ranks]

theorem costs_disturbed (w w' : Wal) (us : List (Option WalCall)) :
    (us.map (costOf w')).sum ≤ (us.map (costOf w)).sum + 3 * (us.map waitingBy).sum := by
  induction us with
  | nil => simp
  | cons u us ih =>
    have head := cost_disturbed w w' u
    simp only [List.map_cons, List.sum_cons]
    omega

theorem movesLeft_lt (slot : σ.tasks[i]? = some (some c)) (closer : Closer σ.shared w' (some c) t) :
    movesLeft ⟨w', σ.tasks.set i t⟩ < movesLeft σ := by
  have waiting := closer.waiting
  have signalling := closer.signalling
  have lower := closer.lower
  simp only [movesLeft, Config.total, sum_split _ slot, sum_set _ slot]
  generalize hw : ((σ.tasks.eraseIdx i).map waitingBy).sum = others
  generalize ((σ.tasks.eraseIdx i).map signalsBy).sum = later
  rcases closer.quiet with loud | ⟨count, space⟩
  · have disturbed := costs_disturbed σ.shared w' (σ.tasks.eraseIdx i)
    rw [hw] at disturbed
    have fewer : (waitingBy t + others) * (signalsBy t + later + 1) ≤
        (waitingBy (some c) + others) * (signalsBy (some c) + later) :=
      Nat.mul_le_mul (by omega) (by omega)
    rw [Nat.mul_add, Nat.mul_one] at fewer
    omega
  · have same : (σ.tasks.eraseIdx i).map (costOf w') = (σ.tasks.eraseIdx i).map (costOf σ.shared) :=
      List.map_congr_left fun u _ => cost_quiet count space u
    have fewer : (waitingBy t + others) * (signalsBy t + later) ≤ (waitingBy (some c) + others) *
        (signalsBy (some c) + later) :=
      Nat.mul_le_mul (by omega) (by omega)
    rw [same]
    omega

theorem movesLeft_step (σ : WalConfig) (a : WalAction) (σ' : WalConfig) (ok : CallsOnly σ a)
    (taken : (walProtocol crates).step σ a = some σ') : movesLeft σ' < movesLeft σ := by
  cases wal_step_cases taken with
  | spawn => cases ok
  | @start i m t flushNotify slot fresh own =>
    cases m with
    | call k => exact absurd rfl (own k)
    | append | flush | drain | notify | notified => cases ok
  | run slot runs => exact movesLeft_lt slot (run_closer (wal_step_ran slot taken))
  | fault slot fallible stops => exact movesLeft_lt slot (release_closer _ _)

end Measure

section Rest

theorem Driven.callsOnly (h : Driven σ a) : CallsOnly σ a := by
  unfold Driven at h
  split at h
  · trivial
  · trivial
  · cases h

theorem run_none (h : c.run crates i w = none) :
    (∃ e, c = .append e (.parked w.spaceAvailable)) ∨ (w.locked = true ∧ c.holdsLock = false) ∨
      ∃ caller done it rest, c = .drain caller (.write done (it :: rest) false) ∧
        ¬ crates.Fits it.entry := by
  cases c with
  | append e pc =>
    left
    cases pc with
    | parked seen =>
      simp only [WalCall.run, appendRun] at h
      split at h
      · rename_i same
        exact ⟨e, same ▸ rfl⟩
      · contradiction
    | load | exchange =>
      simp only [WalCall.run, appendRun] at h
      split at h <;> contradiction
    | full | push | notify => contradiction
  | flush before pc => contradiction
  | drain caller pc =>
    have stuck := Option.map_eq_none_iff.mp h
    rcases pc with batch | batch | ⟨done, _ | ⟨it, rest⟩, _ | _⟩ | _ | _ | _
    · simp only [drainRun] at stuck
      split at stuck
      · contradiction
      · split at stuck <;> contradiction
    · simp only [drainRun] at stuck
      split at stuck
      · rename_i locked
        exact .inr (.inl ⟨locked, rfl⟩)
      · contradiction
    · contradiction
    · contradiction
    · simp only [drainRun] at stuck
      split at stuck
      · contradiction
      · rename_i unfit
        exact .inr (.inr ⟨caller, done, it, rest, rfl, unfit⟩)
    all_goals contradiction

def Stuck (crates : Crates) (σ : WalConfig) : Prop :=
  ∀ (i : Nat) (c : WalCall), σ.tasks[i]? = some (some c) → c.run crates i σ.shared = none ∧
    ∀ caller done it rest, c = .drain caller (.write done (it :: rest) false) → crates.Fits it.entry

theorem rest_stuck (rest : (walProtocol crates).AtRest Driven σ) : Stuck crates σ := by
  intro i c slot
  have still := rest (.move i (.call .run)) trivial
  have whole := rest (.move i (.call (.fail .serialization))) trivial
  simp only [Protocol.step, slot, Option.bind_some, Option.map_eq_none_iff] at still whole
  refine ⟨still, ?_⟩
  rintro caller done it rest rfl
  cases whole

theorem Stuck.unlocked (stuck : Stuck crates σ) (lock : LockOk σ) : σ.shared.locked = false := by
  by_contra locked
  obtain ⟨j, t, slot, held⟩ := lock.held (by simpa using locked)
  cases t with
  | none => cases held
  | some c =>
    obtain ⟨still, fits⟩ := stuck j c slot
    rcases run_none still with ⟨e, rfl⟩ | ⟨_, free⟩ | ⟨_, _, _, _, rfl, unfit⟩
    · cases held
    · rw [show c.holdsLock = true from held] at free
      cases free
    · exact unfit (fits _ _ _ _ rfl)

theorem Stuck.asleep (stuck : Stuck crates σ) (lock : LockOk σ) (mem : some c ∈ σ.tasks) :
    ∃ e, c = .append e (.parked σ.shared.spaceAvailable) := by
  obtain ⟨i, slot⟩ := List.getElem?_of_mem mem
  obtain ⟨still, fits⟩ := stuck i c slot
  rcases run_none still with asleep | ⟨locked, _⟩ | ⟨_, _, _, _, rfl, unfit⟩
  · exact asleep
  · rw [stuck.unlocked lock] at locked
    cases locked
  · exact absurd (fits _ _ _ _ rfl) unfit

end Rest

/-- When no call starts, every schedule of the calls in progress ends, failing and dropped ones
included. Where none of them can go on, all flushes and drains have returned, the lock is free, and
each append that is left sleeps. -/
structure Settles (crates : Crates) (σ : WalConfig) : Prop where
  bounded : ∀ (n : Nat) (σ' : WalConfig), (walProtocol crates).ReachesIn CallsOnly σ n σ' →
    n ≤ movesLeft σ
  restful : ∃ σ', (walProtocol crates).Reaches Driven σ σ' ∧ (walProtocol crates).AtRest Driven σ'
  rest : ∀ σ', (walProtocol crates).Reaches CallsOnly σ σ' → (walProtocol crates).AtRest Driven σ' →
    σ'.shared.locked = false ∧ ∀ c, some c ∈ σ'.tasks →
      ∃ e, c = .append e (.parked σ'.shared.spaceAvailable)

theorem lockOk_run (run : (walProtocol crates).Reaches (fun _ _ => True) ⟨Wal.new m, []⟩ σ) :
    LockOk σ := by
  apply run.invariant
  · constructor <;> simp [Wal.new]
  · intro τ a τ' ok _ step
    exact lockOk_step ok (wal_step_cases step)

theorem log_settles (run : (walProtocol crates).Reaches (fun _ _ => True) ⟨Wal.new m, []⟩ σ) :
    Settles crates σ := by
  refine ⟨fun n σ' steps => ?_, ?_, fun σ' later rest => ?_⟩
  · have bound := steps.bounded movesLeft movesLeft_step
    omega
  · refine (Protocol.Reaches.settles Nat.lt_wfRel.wf movesLeft (J := fun _ => True)
      (fun _ _ => trivial) ?_).1
    intro τ a τ' _ ok taken
    exact movesLeft_step τ a τ' ok.callsOnly taken
  · have lock := lockOk_run (run.trans (later.weaken fun _ _ _ => trivial))
    exact ⟨(rest_stuck rest).unlocked lock, fun c mem => (rest_stuck rest).asleep lock mem⟩

def midFlush : List WalAction :=
  [.spawn (), .spawn (), .spawn (), .move 0 (.append (.commit 1 7))] ++
    List.replicate 4 (.move 0 (.call .run)) ++
    [.move 1 .flush, .move 2 (.append (.commit 2 7))] ++ List.replicate 2 (.move 2 (.call .run)) ++
      [.move 1 (.call .run)]

def midFlushEnd : WalConfig :=
  ((walProtocol (Bincode.crates true)).exec (fun _ _ => True) ⟨Wal.new 1, []⟩ midFlush).get
    (by decide +kernel)

theorem log_settles_midFlush : Settles (Bincode.crates true) midFlushEnd :=
  log_settles (Protocol.reaches_exec midFlush (by decide +kernel))

section Flush

def Flushing : Option WalCall → Prop
  | some (.flush _ _) | some (.drain _ _) => True
  | _ => False

instance : DecidablePred Flushing := fun t => by
  unfold Flushing
  rcases t with _ | _ | _ | _ <;> infer_instance

/-- The moves left to a flush or a drain that may still pop entries until it holds `m`. -/
def flushLeft (m : Nat) : Option WalCall → Nat
  | some (.flush _ pc) => pc.work + 3 * m
  | some (.drain _ (.pop batch)) => 6 + 3 * m - batch.length
  | some (.drain _ pc) => pc.work
  | _ => 0

def Within (m : Nat) (σ : WalConfig) : Prop :=
  ∀ (j : Nat) (caller : Caller) (pc : DrainPc), σ.tasks[j]? = some (some (.drain caller pc)) →
    pc.batch.length ≤ m

theorem within_run (run : (walProtocol crates).Reaches (fun _ _ => True) ⟨Wal.new m, []⟩ σ) :
    Within m σ := fun _ _ _ slot =>
  le_trans (held_le_used slot) (le_trans (counter_covers run) (bounded_run run).count)

theorem flush_left {before : List Item} {pc : FlushPc} (h : flushRun w before pc = (w', t))
    (still : Flushing t) : flushLeft m t < flushLeft m (some (.flush before pc)) := by
  cases pc with
  | notify => cases h; simp [flushLeft, FlushPc.work]
  | poll retries =>
    simp only [flushRun] at h
    split at h <;> (cases h; simp [flushLeft, FlushPc.work]; omega)
  | sleep retries => cases h; simp [flushLeft, FlushPc.work]
  | check =>
    simp only [flushRun] at h
    split at h
    · cases h
      simp [flushLeft, FlushPc.work]
    · cases h
      cases still

theorem drain_left {caller : Caller} {pc : DrainPc} (h : Runs crates i w (.drain caller pc) w' t)
    (still : Flushing t)
    (small : pc.batch.length ≤ m) (small' : ∀ caller' pc',
      t = some (.drain caller' pc') → pc'.batch.length ≤ m) :
    flushLeft m t < flushLeft m (some (.drain caller pc)) := by
  cases h with
  | @pop _ batch it rest front =>
    have more := small' _ _ rfl
    simp only [DrainPc.batch, List.length_append, List.length_singleton] at more
    simp only [flushLeft, List.length_append, List.length_singleton]
    omega
  | popped none_left some_popped =>
    simp only [DrainPc.batch] at small
    simp only [flushLeft, DrainPc.work]
    omega
  | header | payload | lock => simp [flushLeft, DrainPc.work] <;> omega
  | @flush _ _ headed => cases headed <;> simp [flushLeft, DrainPc.work]
  | sync | sub => simp [flushLeft, DrainPc.work]
  | empty | wake => cases still

theorem flushLeft_own {k : WalMove} {t' : Option WalCall} (within : Within m σ)
    (within' : Within m σ')
    (slot : σ.tasks[i]? = some t) (slot' : σ'.tasks[i]? = some t') (before : Flushing t)
    (still : Flushing t') (taken : (walProtocol crates).step σ (.move i k) = some σ') :
    flushLeft m t' < flushLeft m t := by
  have bound := (List.getElem?_eq_some_iff.mp slot).1
  cases wal_step_cases taken with
  | start flushNotify idle =>
    cases Option.some.inj (slot.symm.trans idle)
    cases before
  | fault =>
    rw [List.getElem?_set_self bound] at slot'
    cases slot'
    cases still
  | @run _ c w' u here runs =>
    have ran := wal_step_ran here taken
    rw [List.getElem?_set_self bound] at slot'
    cases Option.some.inj slot'
    cases Option.some.inj (slot.symm.trans here)
    cases c with
    | append => cases before
    | flush before' pc => exact flush_left (Option.some.inj ran) still
    | drain caller pc =>
      refine drain_left runs still (within i caller pc slot) fun caller' pc' same => ?_
      exact within' i caller' pc' (by rw [List.getElem?_set_self bound, same])

theorem flushLeft_le (m : Nat) (t : Option WalCall)
    (small : ∀ caller pc, t = some (.drain caller pc) → pc.batch.length ≤ m) :
    flushLeft m t ≤ 3 * m + 209 := by
  unfold flushLeft
  split
  · rename_i before pc
    cases pc <;> simp [FlushPc.work] <;> omega
  · omega
  · rename_i caller pc other
    have most := small caller pc rfl
    rcases pc with _ | _ | ⟨_, _, _ | _⟩ | _ | _ | _ <;> simp [DrainPc.work, DrainPc.batch]
      at most ⊢ <;> omega
  · omega

theorem flushLeft_pos (m : Nat) (flushing : Flushing t)
    (small : ∀ caller pc, t = some (.drain caller pc) → pc.batch.length ≤ m) :
    0 < flushLeft m t := by
  unfold flushLeft
  split
  · rename_i before pc
    cases pc <;> simp [FlushPc.work]
  · rename_i caller batch
    have most : batch.length ≤ m := small caller _ rfl
    omega
  · rename_i caller pc other
    rcases pc with _ | _ | ⟨_, _, _ | _⟩ | _ | _ | _ <;> simp [DrainPc.work]
  · rename_i none_left none_popped other
    unfold Flushing at flushing
    split at flushing
    · exact absurd rfl (none_left _ _)
    · exact absurd rfl (other _ _)
    · cases flushing

/-- However many writers keep appending and whatever fails, a flush and the drain it forces make
fewer than `3 m + 209` moves before they return. -/
theorem flush_bounded (run : (walProtocol crates).Reaches (fun _ _ => True) ⟨Wal.new m, []⟩ σ)
    {n : Nat}
    (stays : (walProtocol crates).Stays (fun _ _ => True) Flushing i σ n σ') : n < 3 * m + 209 := by
  have known : ∀ τ, (walProtocol crates).Reaches (fun _ _ => True) σ τ → Within m τ :=
    fun τ later => within_run (run.trans later)
  have first : ∃ t, σ.tasks[i]? = some t := by
    induction stays with
    | start slot => exact ⟨_, slot⟩
    | own _ _ _ _ _ ih | other _ _ _ _ ih => exact ih
  obtain ⟨t₀, slot₀⟩ := first
  obtain ⟨t, slot, flushing, count⟩ := stays.bounded (flushLeft m) slot₀ known
    fun σ c σ' t t' within within' slot slot' before still _ taken =>
      flushLeft_own within within' slot slot' before still taken
  have most := flushLeft_le m t₀ fun caller pc same => known σ .start i caller pc (same ▸ slot₀)
  have least := flushLeft_pos m flushing fun caller pc same =>
    known σ' stays.reaches i caller pc (same ▸ slot)
  omega

def forcedThrough : Option WalConfig :=
  (walProtocol (Bincode.crates true)).stayOwn Flushing 1 (.call .run) 209 midFlushEnd

theorem flush_bounded_forcedThrough :
    (walProtocol (Bincode.crates true)).Stays (fun _ _ => True) Flushing 1 midFlushEnd 209
      (forcedThrough.get (by decide +kernel)) ∧ 209 < 3 * 1 + 209 := by
  have stays : (walProtocol (Bincode.crates true)).Stays (fun _ _ => True) Flushing 1
      midFlushEnd 209 _ :=
    Protocol.stays_of_stayOwn (fun _ => trivial)
      (Option.some_get (by decide +kernel : forcedThrough.isSome = true)).symm
  exact ⟨stays, flush_bounded (Protocol.reaches_exec midFlush (by decide +kernel)) stays⟩

end Flush

end AsyncWalDb
