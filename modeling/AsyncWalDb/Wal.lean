import AsyncWalDb.Lib.Interleaving
import AsyncWalDb.Reader

/-! `WalStorage` in memory: the queue with its counter, the file behind its lock, and the calls
`append`, `flush` and `drain_and_flush` cut into the atomic moves at which other tasks can run.
Items carry a stamp and the calling task, and the last three fields of the state record what has
been pushed, what append has returned and what flush has acknowledged; no move reads them. -/
namespace AsyncWalDb

open Interleaving

structure Item where
  stamp : Nat
  owner : Nat
  entry : WalEntry
  deriving DecidableEq, Repr

/-- What one `write_all` hands to the `BufWriter`. -/
inductive Piece where
  | header (it : Item)
  | payload (it : Item)
  deriving DecidableEq, Repr

structure Wal where
  maxQueueSize : Nat
  pending : List Item
  pendingCount : Nat
  /-- Calls of `space_available.notify_waiters` so far. -/
  spaceAvailable : Nat
  /-- The permit that `flush_notify.notify_one` stores. -/
  flushNotify : Bool
  locked : Bool
  stream : List Piece
  /-- How many pieces a completed `flush` handed to the file, and how many `sync_all` covers. -/
  flushed : Nat
  synced : Nat
  history : List Item
  returned : List Item
  acked : List Item

namespace Wal

def new (maxQueueSize : Nat) : Wal where
  maxQueueSize := maxQueueSize
  pending := []
  pendingCount := 0
  spaceAvailable := 0
  flushNotify := false
  locked := false
  stream := []
  flushed := 0
  synced := 0
  history := []
  returned := []
  acked := []

def fetchSub (count n : Nat) : Nat := if n ≤ count then count - n else count + 2 ^ 64 - n

def Inside (w : Wal) (n : Nat) (it : Item) : Prop :=
  .header it ∈ w.stream.take n ∧ .payload it ∈ w.stream.take n

/-- The frame lies in the part of the file that a completed `sync_all` covers. -/
def Durable (w : Wal) (it : Item) : Prop := w.Inside w.synced it

instance (w : Wal) (it : Item) : Decidable (w.Durable it) := by
  unfold Durable Inside
  infer_instance

end Wal

inductive AppendPc where
  | load
  | full
  | parked (seen : Nat)
  | exchange (current : Nat)
  | push
  | notify (it : Item)
  deriving DecidableEq, Repr

inductive FlushPc where
  | notify
  | poll (retries : Nat)
  | sleep (retries : Nat)
  | check
  deriving DecidableEq, Repr

inductive DrainPc where
  | pop (batch : List Item)
  | lock (batch : List Item)
  /-- Under the lock; `headed` once the header of the next entry is written. -/
  | write (done rest : List Item) (headed : Bool)
  | sync (batch : List Item)
  | sub (batch : List Item)
  | wake
  deriving DecidableEq, Repr

/-- Who runs a drain: the background flusher, or a flush,
which knows what was returned before it. -/
inductive Caller where
  | flusher
  | flush (before : List Item)
  deriving DecidableEq, Repr

inductive WalCall where
  | append (entry : WalEntry) (pc : AppendPc)
  | flush (before : List Item) (pc : FlushPc)
  | drain (caller : Caller) (pc : DrainPc)
  deriving DecidableEq, Repr

inductive Fault where
  | serialization
  | io
  deriving DecidableEq, Repr

def appendRun (owner : Nat) (w : Wal) (entry : WalEntry) : AppendPc → Option (Wal × Option WalCall)
  | .load =>
    if w.maxQueueSize ≤ w.pendingCount then some (w, some (.append entry .full))
    else some (w, some (.append entry (.exchange w.pendingCount)))
  | .full => some (w, some (.append entry (.parked w.spaceAvailable)))
  | .parked seen => if w.spaceAvailable = seen then none else some (w, some (.append entry .load))
  | .exchange current =>
    if w.pendingCount = current then
      some ({ w with pendingCount := current + 1 }, some (.append entry .push))
    else some (w, some (.append entry .load))
  | .push =>
    let it : Item := ⟨w.history.length, owner, entry⟩
    some ({ w with pending := w.pending ++ [it], history := w.history ++ [it] },
      some (.append entry (.notify it)))
  | .notify it => some ({ w with flushNotify := true, returned := w.returned ++ [it] }, none)

def flushRun (w : Wal) (before : List Item) : FlushPc → Wal × Option WalCall
  | .notify => ({ w with flushNotify := true }, some (.flush before (.poll 0)))
  | .poll retries =>
    if 0 < w.pendingCount ∧ retries < 100 then (w, some (.flush before (.sleep retries)))
    else (w, some (.flush before .check))
  | .sleep retries => (w, some (.flush before (.poll (retries + 1))))
  | .check =>
    if 0 < w.pendingCount then (w, some (.drain (.flush before) (.pop [])))
    else ({ w with acked := w.acked ++ before }, none)

/-- One move of `drain_and_flush`; a header is written only for an entry that serializes. -/
def drainRun (crates : Crates) (w : Wal) : DrainPc → Option (Wal × Option DrainPc)
  | .pop batch =>
    match w.pending with
    | it :: rest => some ({ w with pending := rest }, some (.pop (batch ++ [it])))
    | [] => if batch = [] then some (w, none) else some (w, some (.lock batch))
  | .lock batch =>
    if w.locked then none else some ({ w with locked := true }, some (.write [] batch false))
  | .write done (it :: rest) false =>
    if crates.Fits it.entry then
      some ({ w with stream := w.stream ++ [.header it] }, some (.write done (it :: rest) true))
    else none
  | .write done (it :: rest) true =>
    some ({ w with stream := w.stream ++ [.payload it] }, some (.write (done ++ [it]) rest false))
  | .write done [] _ => some ({ w with flushed := w.stream.length }, some (.sync done))
  | .sync batch => some ({ w with synced := w.flushed }, some (.sub batch))
  | .sub batch =>
    some ({ w with pendingCount := Wal.fetchSub w.pendingCount batch.length }, some .wake)
  | .wake => some ({ w with spaceAvailable := w.spaceAvailable + 1, locked := false }, none)

/-- A flush that returns Ok acknowledges what was returned before it was called. -/
def Caller.returnOk : Caller → Wal → Wal
  | .flusher, w => w
  | .flush before, w => { w with acked := w.acked ++ before }

def WalCall.run (crates : Crates) (owner : Nat) (w : Wal) : WalCall → Option (Wal × Option WalCall)
  | .append entry pc => appendRun owner w entry pc
  | .flush before pc => some (flushRun w before pc)
  | .drain caller pc =>
    (drainRun crates w pc).map fun out =>
      match out.2 with
      | some pc' => (out.1, some (.drain caller pc'))
      | none => (caller.returnOk out.1, none)

/-- A fallible step of a drain returns its error; the lock guard and the batch are dropped, and what
the `BufWriter` has accepted stays in it. A real one may have lost some of that. -/
def WalCall.fail (w : Wal) (fault : Fault) : WalCall → Option (Wal × WalError)
  | .drain _ (.write _ (_ :: _) false) =>
    some ({ w with locked := false }, match fault with
      | .serialization => .deserialization
      | .io => .io .other)
  | .drain _ (.write _ _ _) | .drain _ (.sync _) =>
    match fault with
    | .serialization => none
    | .io => some ({ w with locked := false }, .io .other)
  | _ => none

def WalCall.drop (w : Wal) : WalCall → Option Wal
  | .append _ (.parked _) | .flush _ (.sleep _) | .drain _ (.lock _) => some w
  | .drain _ (.write _ _ _) | .drain _ (.sync _) => some { w with locked := false }
  | _ => none

inductive CallMove where
  | run
  | fail (fault : Fault)
  | drop
  deriving DecidableEq, Repr

inductive WalMove where
  | call (m : CallMove)
  | append (entry : WalEntry)
  | flush
  | drain
  | notify
  | notified
  deriving DecidableEq, Repr

def startFlush (w : Wal) : WalCall := .flush w.returned .notify

/-- Any number of callers, each in at most one call of the log at a time. -/
def walProtocol (crates : Crates) : Protocol Wal (Option WalCall) Unit WalMove where
  spawn _ w := some (w, none)
  move i m w t :=
    match m, t with
    | .call .run, some c => c.run crates i w
    | .call (.fail fault), some c => (c.fail w fault).map fun out => (out.1, none)
    | .call .drop, some c => (c.drop w).map fun w' => (w', none)
    | .append entry, none => some (w, some (.append entry .load))
    | .flush, none => some (w, some (startFlush w))
    | .drain, none => some (w, some (.drain .flusher (.pop [])))
    | .notify, none => some ({ w with flushNotify := true }, none)
    | .notified, none =>
      if w.flushNotify then
        some ({ w with flushNotify := false }, some (.drain .flusher (.pop [])))
      else none
    | _, _ => none

abbrev WalConfig := Config Wal (Option WalCall)

abbrev WalAction := Action Unit WalMove

def Faultless : WalAction → Prop
  | .move _ (.call (.fail _)) | .move _ (.call .drop) => False
  | _ => True

instance : DecidablePred Faultless := fun a => by
  unfold Faultless
  split <;> infer_instance

theorem faultless_own {i : Nat} {m : WalMove} (own : ∀ k, m ≠ .call k) : Faultless (.move i m) := by
  cases m with
  | call k => exact absurd rfl (own k)
  | append | flush | drain | notify | notified => trivial

/-- Runs in which nothing fails and each move of a call meets the condition. -/
def NoFaultAnd (C : WalConfig → Nat → Prop) (σ : WalConfig) : WalAction → Prop
  | .move i (.call .run) => C σ i
  | .move _ (.call _) => False
  | _ => True

instance (C : WalConfig → Nat → Prop) [∀ σ i, Decidable (C σ i)] (σ : WalConfig) (a : WalAction) :
    Decidable (NoFaultAnd C σ a) := by
  unfold NoFaultAnd
  split <;> infer_instance

theorem NoFaultAnd.faultless {C : WalConfig → Nat → Prop} {σ : WalConfig} {a : WalAction}
    (h : NoFaultAnd C σ a) : Faultless a := by
  unfold Faultless
  split <;> simp_all [NoFaultAnd]

theorem NoFaultAnd.imp {C D : WalConfig → Nat → Prop} (weaker : ∀ σ i, C σ i → D σ i)
    {σ : WalConfig} {a : WalAction} (h : NoFaultAnd C σ a) : NoFaultAnd D σ a := by
  unfold NoFaultAnd at h ⊢
  split at h
  · exact weaker _ _ h
  · exact h.elim
  · trivial

section Inversion

def DrainPc.batch : DrainPc → List Item
  | .pop batch | .lock batch | .sync batch | .sub batch => batch
  | .write done rest _ => done ++ rest
  | .wake => []

def DrainPc.holdsLock : DrainPc → Bool
  | .write _ _ _ | .sync _ | .sub _ | .wake => true
  | .pop _ | .lock _ => false

def WalCall.holdsLock : WalCall → Bool
  | .drain _ pc => pc.holdsLock
  | _ => false

def AppendPc.waiting : AppendPc → Bool
  | .load | .full | .parked _ | .exchange _ => true
  | .push | .notify _ => false

def Caller.before : Caller → List Item
  | .flusher => []
  | .flush before => before

theorem returnOk_eq (caller : Caller) (w : Wal) :
    caller.returnOk w = { w with acked := w.acked ++ caller.before } := by
  cases caller <;> simp [Caller.returnOk, Caller.before]

variable {crates : Crates} {owner : Nat} {w w' : Wal} {c : WalCall} {t : Option WalCall}

inductive Runs (crates : Crates) (owner : Nat) (w : Wal) :
    WalCall → Wal → Option WalCall → Prop where
  | wait {entry pc pc'} (before : pc.waiting = true) (after : pc'.waiting = true) :
    Runs crates owner w (.append entry pc) w (some (.append entry pc'))
  | reserve {entry} : Runs crates owner w (.append entry (.exchange w.pendingCount))
      { w with pendingCount := w.pendingCount + 1 } (some (.append entry .push))
  | push {entry} : Runs crates owner w (.append entry .push)
      { w with pending := w.pending ++ [⟨w.history.length, owner, entry⟩],
               history := w.history ++ [⟨w.history.length, owner, entry⟩] }
      (some (.append entry (.notify ⟨w.history.length, owner, entry⟩)))
  | appended {entry it} : Runs crates owner w (.append entry (.notify it))
      { w with flushNotify := true, returned := w.returned ++ [it] } none
  | poll {before pc pc'} (flushNotify : Bool) : Runs crates owner w (.flush before pc)
      { w with flushNotify := flushNotify } (some (.flush before pc'))
  | force {before} (left : 0 < w.pendingCount) : Runs crates owner w (.flush before .check) w
      (some (.drain (.flush before) (.pop [])))
  | drained {before} (zero : w.pendingCount = 0) : Runs crates owner w (.flush before .check)
      { w with acked := w.acked ++ before } none
  | pop {caller batch it rest} (front : w.pending = it :: rest) :
    Runs crates owner w (.drain caller (.pop batch))
      { w with pending := rest } (some (.drain caller (.pop (batch ++ [it]))))
  | empty {caller} (none_left : w.pending = []) : Runs crates owner w (.drain caller (.pop []))
      { w with acked := w.acked ++ caller.before } none
  | popped {caller batch} (none_left : w.pending = []) (some_popped : batch ≠ []) :
    Runs crates owner w (.drain caller (.pop batch)) w (some (.drain caller (.lock batch)))
  | lock {caller batch} (free : w.locked = false) :
    Runs crates owner w (.drain caller (.lock batch))
      { w with locked := true } (some (.drain caller (.write [] batch false)))
  | header {caller done it rest} (fits : crates.Fits it.entry) :
    Runs crates owner w (.drain caller (.write done (it :: rest) false))
      { w with stream := w.stream ++ [.header it] }
        (some (.drain caller (.write done (it :: rest) true)))
  | payload {caller done it rest} :
    Runs crates owner w (.drain caller (.write done (it :: rest) true))
      { w with stream := w.stream ++ [.payload it] }
        (some (.drain caller (.write (done ++ [it]) rest false)))
  | flush {caller done headed} : Runs crates owner w (.drain caller (.write done [] headed))
      { w with flushed := w.stream.length } (some (.drain caller (.sync done)))
  | sync {caller batch} : Runs crates owner w (.drain caller (.sync batch))
      { w with synced := w.flushed } (some (.drain caller (.sub batch)))
  | sub {caller batch} : Runs crates owner w (.drain caller (.sub batch))
      { w with pendingCount := Wal.fetchSub w.pendingCount batch.length }
        (some (.drain caller .wake))
  | wake {caller} : Runs crates owner w (.drain caller .wake)
      { w with
        spaceAvailable := w.spaceAvailable + 1, locked := false,
        acked := w.acked ++ caller.before } none

theorem appendRun_runs {entry : WalEntry}
    {pc : AppendPc} (h : appendRun owner w entry pc = some (w', t)) :
    Runs crates owner w (.append entry pc) w' t := by
  cases pc with
  | load =>
    simp only [appendRun] at h
    split at h <;> (cases h; exact .wait rfl rfl)
  | full => cases h; exact .wait rfl rfl
  | parked seen =>
    simp only [appendRun] at h
    split at h
    · contradiction
    · cases h; exact .wait rfl rfl
  | exchange current =>
    simp only [appendRun] at h
    split at h
    · rename_i same
      subst same
      cases h
      exact .reserve
    · cases h; exact .wait rfl rfl
  | push => cases h; exact .push
  | notify it => cases h; exact .appended

theorem flushRun_runs {before : List Item} {pc : FlushPc} (h : flushRun w before pc = (w', t)) :
    Runs crates owner w (.flush before pc) w' t := by
  cases pc with
  | notify => cases h; exact .poll true
  | poll retries =>
    simp only [flushRun] at h
    split at h <;> (cases h; exact .poll w.flushNotify)
  | sleep retries => cases h; exact .poll w.flushNotify
  | check =>
    simp only [flushRun] at h
    split at h
    · rename_i left
      cases h
      exact .force left
    · rename_i zero
      cases h
      exact .drained (Nat.eq_zero_of_not_pos zero)

theorem drainRun_runs {caller : Caller} {pc : DrainPc}
    (h : WalCall.run crates owner w (.drain caller pc) = some (w', t)) :
    Runs crates owner w (.drain caller pc) w' t := by
  obtain ⟨⟨w₁, pc'⟩, ran, out⟩ := Option.map_eq_some_iff.mp h
  cases pc with
  | pop batch =>
    simp only [drainRun] at ran
    split at ran
    · rename_i front
      cases ran; cases out
      exact .pop front
    · rename_i none_left
      split at ran
      · rename_i none_popped
        subst none_popped
        cases ran
        simp only [returnOk_eq] at out
        cases out
        exact .empty none_left
      · rename_i some_popped
        cases ran; cases out
        exact .popped none_left some_popped
  | lock batch =>
    simp only [drainRun] at ran
    split at ran
    · contradiction
    · rename_i free
      cases ran; cases out
      exact .lock (by simpa using free)
  | write done rest headed =>
    cases rest with
    | nil => cases ran; cases out; exact .flush
    | cons it rest =>
      cases headed with
      | false =>
        simp only [drainRun] at ran
        split at ran
        · rename_i fits
          cases ran; cases out
          exact .header fits
        · contradiction
      | true => cases ran; cases out; exact .payload
  | sync batch => cases ran; cases out; exact .sync
  | sub batch => cases ran; cases out; exact .sub
  | wake =>
    cases ran
    simp only [returnOk_eq] at out
    cases out
    exact .wake

theorem run_runs (h : c.run crates owner w = some (w', t)) : Runs crates owner w c w' t := by
  cases c with
  | append entry pc => exact appendRun_runs h
  | flush before pc => exact flushRun_runs (Option.some.inj h)
  | drain caller pc => exact drainRun_runs h

/-- Where a call can end with an error or be dropped: it holds no reserved slot of the queue. -/
def WalCall.fallible : WalCall → Bool
  | .append _ pc => pc.waiting
  | .flush _ _ => true
  | .drain _ (.lock _) | .drain _ (.write _ _ _) | .drain _ (.sync _) => true
  | .drain _ (.pop _) | .drain _ (.sub _) | .drain _ .wake => false

def WalCall.release (c : WalCall) (w : Wal) : Wal := { w with locked := w.locked && !c.holdsLock }

theorem release_eq (c : WalCall) (w : Wal) :
    c.release w = if c.holdsLock then { w with locked := false } else w := by
  cases h : c.holdsLock <;> simp [WalCall.release, h]

theorem fail_release {fault : Fault} {e : WalError} (h : c.fail w fault = some (w', e)) :
    c.fallible = true ∧ c.holdsLock = true ∧ w' = c.release w := by
  cases c with
  | append | flush => simp [WalCall.fail] at h
  | drain caller pc =>
    rw [release_eq]
    cases pc with
    | pop | lock | sub | wake => simp [WalCall.fail] at h
    | sync batch => cases fault <;> simp_all [WalCall.fail, WalCall.fallible,
      WalCall.holdsLock, DrainPc.holdsLock]
    | write done rest headed =>
      cases rest <;> cases headed <;> cases fault <;>
        simp_all [WalCall.fail, WalCall.fallible, WalCall.holdsLock, DrainPc.holdsLock]

theorem drop_release (h : c.drop w = some w') : c.fallible = true ∧ w' = c.release w := by
  rw [release_eq]
  cases c with
  | append entry pc =>
    cases pc <;> simp_all [WalCall.drop, WalCall.fallible, AppendPc.waiting, WalCall.holdsLock]
  | flush before pc => cases pc <;> simp_all [WalCall.drop, WalCall.fallible, WalCall.holdsLock]
  | drain caller pc =>
    cases pc <;> simp_all [WalCall.drop, WalCall.fallible, WalCall.holdsLock, DrainPc.holdsLock]

inductive Fresh (w : Wal) : Option WalCall → Prop where
  | idle : Fresh w none
  | append (entry : WalEntry) : Fresh w (some (.append entry .load))
  | flush : Fresh w (some (startFlush w))
  | drain : Fresh w (some (.drain .flusher (.pop [])))

inductive WalStep (crates : Crates) (σ : WalConfig) : WalAction → WalConfig → Prop where
  | spawn : WalStep crates σ (.spawn ()) ⟨σ.shared, σ.tasks ++ [none]⟩
  | start {i m t} (flushNotify : Bool) (slot : σ.tasks[i]? = some none) (fresh : Fresh σ.shared t)
      (own : ∀ k, m ≠ .call k) :
    WalStep crates σ (.move i m) ⟨{ σ.shared with flushNotify := flushNotify }, σ.tasks.set i t⟩
  | run {i c w' t} (slot : σ.tasks[i]? = some (some c)) (runs : Runs crates i σ.shared c w' t) :
    WalStep crates σ (.move i (.call .run)) ⟨w', σ.tasks.set i t⟩
  | fault {i c k} (slot : σ.tasks[i]? = some (some c)) (fallible : c.fallible = true)
    (stops : k ≠ .run) :
    WalStep crates σ (.move i (.call k)) ⟨c.release σ.shared, σ.tasks.set i none⟩

theorem wal_step_cases {σ σ' : WalConfig} {a : WalAction}
    (taken : (walProtocol crates).step σ a = some σ') : WalStep crates σ a σ' := by
  cases a with
  | spawn k =>
    obtain ⟨s, t, h, rfl⟩ := Protocol.step_spawn taken
    cases h
    exact .spawn
  | move i m =>
    obtain ⟨t, s, t', slot, h, rfl⟩ := Protocol.step_move taken
    simp only [walProtocol] at h
    split at h
    · exact .run slot (run_runs h)
    · obtain ⟨⟨w', e⟩, failed, out⟩ := Option.map_eq_some_iff.mp h
      cases out
      obtain ⟨fallible, _, rfl⟩ := fail_release failed
      exact .fault slot fallible (by simp)
    · obtain ⟨w', dropped, out⟩ := Option.map_eq_some_iff.mp h
      cases out
      obtain ⟨fallible, rfl⟩ := drop_release dropped
      exact .fault slot fallible (by simp)
    · cases h; exact .start _ slot (.append _) (by simp)
    · cases h; exact .start _ slot .flush (by simp)
    · cases h; exact .start _ slot .drain (by simp)
    · cases h; exact .start _ slot .idle (by simp)
    · split at h
      · cases h; exact .start _ slot .drain (by simp)
      · contradiction
    · contradiction

theorem wal_step_ran {σ : WalConfig} {i : Nat} (slot : σ.tasks[i]? = some (some c))
    (taken : (walProtocol crates).step σ (.move i (.call .run)) = some ⟨w', σ.tasks.set i t⟩) :
    c.run crates i σ.shared = some (w', t) := by
  obtain ⟨u, s, t', slot', ran, out⟩ := Protocol.step_move taken
  cases Option.some.inj (slot.symm.trans slot')
  obtain ⟨rfl, same⟩ := Config.mk.inj out
  have bound := (List.getElem?_eq_some_iff.mp slot).1
  have here := congrArg (fun ts => ts[i]?) same
  simp only [List.getElem?_set_self bound] at here
  cases Option.some.inj here
  exact ran

theorem runs_history {owner : Nat} {w w' : Wal} {c : WalCall}
    {t : Option WalCall} (h : Runs crates owner w c w' t) : w'.history = w.history ∨
      ∃ it : Item, it.owner = owner ∧ it.stamp = w.history.length ∧
        w'.history = w.history ++ [it] := by
  cases h with
  | push => exact .inr ⟨_, rfl, rfl, rfl⟩
  | wait | reserve | appended | poll | force | drained | pop | empty | popped | lock
  | header | payload | flush | sync
  | sub | wake => exact .inl rfl

theorem runs_mem_history {owner : Nat} {w w' : Wal} {c : WalCall} {t : Option WalCall}
    (h : Runs crates owner w c w' t) {it : Item} (hit : it ∈ w'.history) :
    it ∈ w.history ∨ (it.owner = owner ∧ it.stamp = w.history.length) := by
  rcases runs_history h with same | ⟨new, own, stamp, push⟩
  · exact .inl (same ▸ hit)
  · rw [push] at hit
    rcases List.mem_append.mp hit with old | last
    · exact .inl old
    · cases List.mem_singleton.mp last
      exact .inr ⟨own, stamp⟩

theorem step_history {σ σ' : WalConfig} {a : WalAction} (step : WalStep crates σ a σ') :
    σ.shared.history ⊆ σ'.shared.history := by
  cases step with
  | spawn | start | fault => exact List.Subset.refl _
  | run slot runs =>
    rcases runs_history runs with same | ⟨it, _, _, push⟩
    · exact same ▸ List.Subset.refl _
    · exact push ▸ List.subset_append_left _ _

theorem tasks_step {σ σ' : WalConfig} {a : WalAction} {Q Q' : Option WalCall → Prop}
    (before : ∀ (j : Nat) (t : Option WalCall), σ.tasks[j]? = some t → Q t)
    (step : WalStep crates σ a σ') (keep : ∀ t, Q t → Q' t) (fresh : ∀ t, Fresh σ.shared t → Q' t)
    (moved : ∀ i c t, a = .move i (.call .run) → σ.tasks[i]? = some (some c) → Q (some c) →
      Runs crates i σ.shared c σ'.shared t → Q' t) :
    ∀ (j : Nat) (t : Option WalCall), σ'.tasks[j]? = some t → Q' t := by
  intro j t hj
  cases step with
  | spawn =>
    rcases getElem?_append_one hj with old | ⟨_, rfl⟩
    · exact keep t (before j t old)
    · exact fresh none .idle
  | start flushNotify slot begins own =>
    rcases getElem?_set_cases hj with ⟨_, rfl, _⟩ | ⟨_, old⟩
    · exact fresh t begins
    · exact keep t (before j t old)
  | run slot runs =>
    rcases getElem?_set_cases hj with ⟨_, rfl, _⟩ | ⟨_, old⟩
    · exact moved _ _ t rfl slot (before _ _ slot) runs
    · exact keep t (before j t old)
  | fault slot fallible stops =>
    rcases getElem?_set_cases hj with ⟨_, rfl, _⟩ | ⟨_, old⟩
    · exact fresh none .idle
    · exact keep t (before j t old)

theorem calls_step {σ σ' : WalConfig} {a : WalAction} {Q Q' : WalCall → Prop}
    (before : ∀ (j : Nat) (c : WalCall), σ.tasks[j]? = some (some c) → Q c)
    (step : WalStep crates σ a σ')
    (keep : ∀ c, Q c → Q' c) (fresh : ∀ c, Fresh σ.shared (some c) → Q' c)
    (moved : ∀ i c t, a = .move i (.call .run) → σ.tasks[i]? = some (some c) → Q c →
      Runs crates i σ.shared c σ'.shared t → ∀ d, t = some d → Q' d) :
    ∀ (j : Nat) (c : WalCall), σ'.tasks[j]? = some (some c) → Q' c := by
  have tasks : ∀ (j : Nat) (t : Option WalCall), σ'.tasks[j]? = some t → ∀ c, t = some c →
      Q' c := by
    refine tasks_step (Q := fun t => ∀ c, t = some c → Q c) ?_ step ?_ ?_ ?_
    · rintro j _ slot c rfl
      exact before j c slot
    · intro t ok c same
      exact keep c (ok c same)
    · rintro _ begins c rfl
      exact fresh c begins
    · intro i c t ran slot ok runs
      exact moved i c t ran slot (ok c rfl) runs
  exact fun j c slot => tasks j _ slot c rfl

end Inversion

end AsyncWalDb
