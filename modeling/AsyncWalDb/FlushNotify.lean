import AsyncWalDb.Acknowledged
import AsyncWalDb.System

/-! The flusher's side of `Notify`. `flush_notify.notify_one` stores a permit, so what the flusher
has to do cannot be missed: while an entry is queued or a shutdown is called, a permit is stored or
about to be stored, or somebody is popping the queue. The interval is never needed. -/
namespace AsyncWalDb

open Interleaving

inductive ControlRuns (s : System) : Prog → System → Task → Prop where
  | tick : ControlRuns s (.flusher .select) s ⟨some (.drain .flusher (.pop [])), .flusher .draining⟩
  | notified (permit : s.wal.flushNotify = true) : ControlRuns s (.flusher .select)
      { s with wal := { s.wal with flushNotify := false } } ⟨some (.drain .flusher (.pop [])),
        .flusher .draining⟩
  | again (running : s.shutdown = false) :
    ControlRuns s (.flusher .check) s ⟨none, .flusher .select⟩
  | final (stopping : s.shutdown = true) :
    ControlRuns s (.flusher .check) s ⟨some (.drain .flusher (.pop [])), .flusher .final⟩
  | leave : ControlRuns s (.flusher .leaving) { s with flusherExited := true }
    ⟨none, .flusher .exited⟩
  | store : ControlRuns s (.storeHandle false) { s with flusherHandle := true }
    ⟨none, .storeHandle true⟩
  | signal : ControlRuns s (.stopFlusher .signal) { s with shutdown := true }
    ⟨none, .stopFlusher .notify⟩
  | notify :
    ControlRuns s (.stopFlusher .notify) { s with wal := { s.wal with flushNotify := true } }
      ⟨none, .stopFlusher .take⟩
  | take (free : s.handleLocked = false) (stored : s.flusherHandle = true) :
    ControlRuns s (.stopFlusher .take)
      { s with flusherHandle := false, handleLocked := true } ⟨none, .stopFlusher .join⟩
  | missed (free : s.handleLocked = false) (missing : s.flusherHandle = false) :
    ControlRuns s (.stopFlusher .take) s ⟨none, .stopFlusher .returned⟩
  | joined (exited : s.flusherExited = true) : ControlRuns s (.stopFlusher .join)
      { s with handleLocked := false } ⟨none, .stopFlusher .returned⟩
  | flush : ControlRuns s .flushCaller s ⟨some (startFlush s.wal), .flushCaller⟩

/-- About to store a permit, or popping the queue until it is empty. -/
def notices : Option WalCall → Bool
  | some (.append _ (.notify _)) | some (.drain _ (.pop _)) => true
  | _ => false

structure FlusherNotified (σ : SystemConfig) : Prop where
  first : ∀ (i : Nat) (call : Option WalCall) (stage : FlusherStage),
    σ.tasks[i]? = some ⟨call, .flusher stage⟩ → i = 0
  queued : σ.shared.wal.pending ≠ [] → σ.shared.wal.flushNotify = true ∨ ∃ t ∈ σ.tasks,
    notices t.call = true
  stopping : σ.shared.shutdown = true → (∃ t ∈ σ.tasks, t.prog = .flusher .select) →
    σ.shared.wal.flushNotify = true ∨ ∃ t ∈ σ.tasks, t.prog = .stopFlusher .notify

variable {crates : Crates} {m : Move} {i : Nat} {s s' : System} {w w' : Wal} {c : WalCall}
  {t : Option WalCall} {u u' : Task} {σ σ' : SystemConfig} {a : SystemAction}

section Control

theorem ownMove_control {prog : Prog} (control : prog.isControl = true)
    (h : ownMove crates i m s prog = some (s', u')) : ControlRuns s prog s' u' := by
  cases prog with
  | transaction | checkpoint => cases control
  | flusher stage =>
    simp only [ownMove, flusherMove] at h
    split at h
    · cases h; exact .tick
    · split at h
      · rename_i permit
        cases h; exact .notified permit
      · contradiction
    · split at h
      · rename_i stopping
        cases h; exact .final stopping
      · rename_i running
        cases h; exact .again (by simpa using running)
    · cases h; exact .leave
    · contradiction
  | storeHandle stored =>
    simp only [ownMove] at h
    split at h
    · rename_i now
      obtain ⟨_, rfl⟩ := now
      cases h; exact .store
    · contradiction
  | stopFlusher stage =>
    simp only [ownMove, stopMove] at h
    split at h
    · cases h; exact .signal
    · cases h; exact .notify
    · split at h
      · contradiction
      · rename_i free
        have free : s.handleLocked = false := by simpa using free
        split at h
        · rename_i stored
          cases h; exact .take free stored
        · rename_i missing
          cases h; exact .missed free (by simpa using missing)
    · split at h
      · rename_i exited
        cases h; exact .joined exited
      · contradiction
    · contradiction
  | flushCaller =>
    simp only [ownMove] at h
    split at h
    · cases h; exact .flush
    · contradiction

end Control

section Permit

def Watches (w w' : Wal) (t t' : Option WalCall) : Prop :=
  w'.pending ≠ [] → w'.flushNotify = true ∨ notices t' = true ∨
    (w.pending ≠ [] ∧ notices t = false ∧ (w.flushNotify = true → w'.flushNotify = true))

theorem run_watches (h : c.run crates i w = some (w', t)) :
    Watches w w' (some c) t ∧ (w.flushNotify = true → w'.flushNotify = true) := by
  cases c with
  | append entry pc =>
    cases pc with
    | load | parked | exchange =>
      simp only [WalCall.run, appendRun] at h
      split at h <;> cases h <;> exact ⟨fun queued => .inr (.inr ⟨queued, rfl, id⟩), id⟩
    | full => cases h; exact ⟨fun queued => .inr (.inr ⟨queued, rfl, id⟩), id⟩
    | push => cases h; exact ⟨fun _ => .inr (.inl rfl), id⟩
    | notify it => cases h; exact ⟨fun _ => .inl rfl, fun _ => rfl⟩
  | flush before pc =>
    cases pc with
    | notify => cases h; exact ⟨fun _ => .inl rfl, fun _ => rfl⟩
    | poll =>
      simp only [WalCall.run, flushRun] at h
      split at h <;> cases h <;> exact ⟨fun queued => .inr (.inr ⟨queued, rfl, id⟩), id⟩
    | sleep => cases h; exact ⟨fun queued => .inr (.inr ⟨queued, rfl, id⟩), id⟩
    | check =>
      simp only [WalCall.run, flushRun] at h
      split at h
      · cases h; exact ⟨fun _ => .inr (.inl rfl), id⟩
      · cases h; exact ⟨fun queued => .inr (.inr ⟨queued, rfl, id⟩), id⟩
  | drain caller pc =>
    cases run_runs h with
    | pop front => exact ⟨fun _ => .inr (.inl rfl), id⟩
    | empty none_left => exact ⟨fun queued => absurd none_left queued, id⟩
    | popped none_left some_popped => exact ⟨fun queued => absurd none_left queued, id⟩
    | lock | header | payload | flush | sync | sub | wake =>
      exact ⟨fun queued => .inr (.inr ⟨queued, rfl, id⟩), id⟩

/-- The pop loop awaits nothing and an append that has pushed
awaits nothing, so neither is left by a fault. -/
theorem release_watches (fallible : c.fallible = true) : Watches w (c.release w) (some c) none := by
  refine fun queued => .inr (.inr ⟨queued, ?_, id⟩)
  unfold notices
  split
  · rename_i same
    cases same
    cases fallible
  · rename_i same
    cases same
    cases fallible
  · rfl

theorem control_watches {prog : Prog} (h : ControlRuns s prog s' u') :
    Watches s.wal s'.wal none u'.call := by
  cases h with
  | tick | notified | final => exact fun _ => .inr (.inl rfl)
  | notify => exact fun _ => .inl rfl
  | again | leave | store | signal | take | missed | joined | flush =>
    exact fun queued => .inr (.inr ⟨queued, rfl, id⟩)

theorem queued_set (ok : FlusherNotified σ) (slot : σ.tasks[i]? = some u)
    (watches : Watches σ.shared.wal s.wal u.call u'.call) (queued : s.wal.pending ≠ []) :
    s.wal.flushNotify = true ∨ ∃ v ∈ σ.tasks.set i u', notices v.call = true := by
  rcases watches queued with stored | watching | ⟨before, idle, kept⟩
  · exact .inl stored
  · exact .inr ⟨u', List.mem_set (List.getElem?_eq_some_iff.mp slot).1 u', watching⟩
  · rcases ok.queued before with stored | ⟨v, hv, watching⟩
    · exact .inl (kept stored)
    · refine .inr ⟨v, mem_set_other slot hv ?_, watching⟩
      rintro rfl
      rw [watching] at idle
      cases idle

inductive Stops (s s' : System) (prog prog' : Prog) : Prop where
  | keeps (shutdown : s'.shutdown = s.shutdown) (permit : s.wal.flushNotify = true →
    s'.wal.flushNotify = true)
    (signalled : prog ≠ .stopFlusher .notify) (selects : prog' = .flusher .select →
      prog = .flusher .select)
  | running (shutdown : s'.shutdown = false)
  | told (permit : s'.wal.flushNotify = true)
  | signals (stage : prog' = .stopFlusher .notify)
  | drains (stage : prog = .flusher .select) (left : prog' ≠ .flusher .select)

theorem control_stops {prog : Prog} (h : ControlRuns s prog s' u') : Stops s s' prog u'.prog := by
  cases h with
  | tick | notified => exact .drains rfl (by simp)
  | again running => exact .running running
  | notify => exact .told rfl
  | signal => exact .signals rfl
  | final | leave | store | take | missed | joined | flush =>
    exact .keeps rfl id (by simp) (by simp)

theorem stopping_set (ok : FlusherNotified σ) (slot : σ.tasks[i]? = some u)
    (stops : Stops σ.shared s u.prog u'.prog)
    (shutdown : s.shutdown = true) (selects : ∃ v ∈ σ.tasks.set i u', v.prog = .flusher .select) :
    s.wal.flushNotify = true ∨ ∃ v ∈ σ.tasks.set i u', v.prog = .stopFlusher .notify := by
  have here : u' ∈ σ.tasks.set i u' := List.mem_set (List.getElem?_eq_some_iff.mp slot).1 u'
  obtain ⟨v, hv, waits⟩ := selects
  cases stops with
  | keeps same permit signalled stays =>
    have before : ∃ v ∈ σ.tasks, v.prog = .flusher .select := by
      rcases List.mem_or_eq_of_mem_set hv with old | rfl
      · exact ⟨v, old, waits⟩
      · exact ⟨u, List.mem_of_getElem? slot, stays waits⟩
    rcases ok.stopping (same ▸ shutdown) before with stored | ⟨x, hx, notifies⟩
    · exact .inl (permit stored)
    · refine .inr ⟨x, mem_set_other slot hx ?_, notifies⟩
      rintro rfl
      exact signalled notifies
  | running none => rw [none] at shutdown; cases shutdown
  | told permit => exact .inl permit
  | signals stage => exact .inr ⟨u', here, stage⟩
  | drains stage left =>
    -- there is one flusher, and it does not wait any more
    obtain ⟨j, at_j⟩ := List.getElem?_of_mem hv
    obtain ⟨call, prog⟩ := u
    obtain ⟨call', prog'⟩ := v
    obtain rfl : prog = .flusher .select := stage
    obtain rfl : prog' = .flusher .select := waits
    rcases getElem?_set_cases at_j with ⟨_, same, _⟩ | ⟨other, old⟩
    · exact absurd (congrArg Task.prog same).symm left
    · exact absurd ((ok.first j _ _ old).trans (ok.first i _ _ slot).symm) other

theorem first_set (ok : FlusherNotified σ) (slot : σ.tasks[i]? = some u)
    (flusher : ∀ stage, u'.prog = .flusher stage → ∃ stage', u.prog = .flusher stage') (j : Nat)
    (call : Option WalCall)
    (stage : FlusherStage) (at_j : (σ.tasks.set i u')[j]? = some ⟨call, .flusher stage⟩) :
    j = 0 := by
  rcases getElem?_set_cases at_j with ⟨rfl, rfl, _⟩ | ⟨_, old⟩
  · obtain ⟨stage', same⟩ := flusher stage rfl
    obtain ⟨call', prog⟩ := u
    obtain rfl : prog = .flusher stage' := same
    exact ok.first _ _ _ slot
  · exact ok.first j call stage old

theorem flusherNotified_set (ok : FlusherNotified σ) (slot : σ.tasks[i]? = some u)
    (watches : Watches σ.shared.wal s.wal u.call u'.call) (stops : Stops σ.shared s u.prog u'.prog)
    (flusher : ∀ stage, u'.prog = .flusher stage → ∃ stage', u.prog = .flusher stage') :
    FlusherNotified ⟨s, σ.tasks.set i u'⟩ :=
  ⟨first_set ok slot flusher, queued_set ok slot watches, stopping_set ok slot stops⟩

end Permit

section Steps

theorem flusherNotified_spawn (ok : FlusherNotified σ) (wal : s.wal = σ.shared.wal)
    (shutdown : s.shutdown = σ.shared.shutdown)
    (other : ∀ stage, u.prog ≠ .flusher stage) : FlusherNotified ⟨s, σ.tasks ++ [u]⟩ := by
  refine ⟨fun j call stage at_j => ?_, fun queued => ?_, fun stopping selects => ?_⟩
  · rcases getElem?_append_one at_j with old | ⟨_, same⟩
    · exact ok.first j call stage old
    · exact absurd (congrArg Task.prog same).symm (other stage)
  · rw [wal] at queued ⊢
    exact (ok.queued queued).imp_right fun ⟨v, hv, watching⟩ =>
      ⟨v, List.mem_append_left _ hv, watching⟩
  · obtain ⟨v, hv, waits⟩ := selects
    rw [wal]
    rcases List.mem_append.mp hv with old | new
    · exact (ok.stopping (shutdown ▸ stopping) ⟨v, old, waits⟩).imp_right
        fun ⟨x, hx, notifies⟩ => ⟨x, List.mem_append_left _ hx, notifies⟩
    · cases List.mem_singleton.mp new
      exact absurd waits (other _)

theorem returned_stops_at (prog : Prog) (result : Except WalError Unit) :
    (prog.returned result = .flusher .select → prog = .flusher .select) ∧
      ∀ stage, prog.returned result = .flusher stage → ∃ stage', prog = .flusher stage' := by
  unfold Prog.returned
  split <;> (try split) <;> simp_all

theorem dropped_stops_at (prog : Prog) :
    (prog.dropped = .flusher .select → prog = .flusher .select) ∧
      ∀ stage, prog.dropped = .flusher stage → ∃ stage', prog = .flusher stage' := by
  unfold Prog.dropped
  split <;> simp_all

theorem flusherNotified_call (ok : FlusherNotified σ) {prog prog' : Prog}
    (slot : σ.tasks[i]? = some ⟨some c, prog⟩) (watches : Watches σ.shared.wal w (some c) t)
    (permit : σ.shared.wal.flushNotify = true → w.flushNotify = true)
    (after : prog' = prog ∨ prog' = prog.dropped ∨ ∃ result, prog' = prog.returned result) :
    FlusherNotified ⟨{ σ.shared with wal := w }, σ.tasks.set i ⟨t, prog'⟩⟩ := by
  have kept : (prog = .stopFlusher .notify → prog' = .stopFlusher .notify) ∧
      (prog' = .flusher .select → prog = .flusher .select) ∧
      ∀ stage, prog' = .flusher stage → ∃ stage', prog = .flusher stage' := by
    rcases after with rfl | rfl | ⟨result, rfl⟩
    · exact ⟨id, id, fun stage same => ⟨stage, same⟩⟩
    · exact ⟨by rintro rfl; rfl, dropped_stops_at prog⟩
    · exact ⟨by rintro rfl; rfl, returned_stops_at prog result⟩
  refine flusherNotified_set ok slot watches ?_ kept.2.2
  by_cases notifies : prog = .stopFlusher .notify
  · exact .signals (kept.1 notifies)
  · exact .keeps rfl permit notifies kept.2.1

theorem own_aside {prog : Prog} (aside : prog.isControl = false)
    (runs : OwnRuns crates i s m prog s' u') :
    s'.shutdown = s.shutdown ∧ s'.wal = s.wal ∧ u'.prog.isControl = false := by
  cases runs with
  | control _ _ _ before => rw [before] at aside; cases aside
  | ckpt moved =>
    obtain ⟨stage', rfl, runs⟩ := ckptMove_runs moved
    cases runs <;> exact ⟨rfl, rfl, rfl⟩
  | refused | append | commit | abort | notActive | discard | commitFlush | abortFlush | done
  | apply | applyFails
  | cancel => exact ⟨rfl, rfl, rfl⟩

theorem flusherNotified_own (ok : FlusherNotified σ) {prog : Prog}
    (slot : σ.tasks[i]? = some ⟨none, prog⟩)
    (ran : ownMove crates i m σ.shared prog = some (s', u')) :
    FlusherNotified ⟨s', σ.tasks.set i u'⟩ := by
  cases control : prog.isControl with
  | true =>
    have runs := ownMove_control control ran
    refine flusherNotified_set ok slot (control_watches runs) (control_stops runs)
      fun stage same => ?_
    cases runs with
    | tick | notified | again | final | leave => exact ⟨_, rfl⟩
    | store | signal | notify | take | missed | joined | flush => cases same
  | false =>
    obtain ⟨shutdown, wal, aside⟩ := own_aside control (ownMove_runs ran)
    have apart : ∀ p : Prog, p.isControl = false → p ≠ .stopFlusher .notify ∧ ∀ stage,
        p ≠ .flusher stage := by
      intro p none_such
      constructor
      · rintro rfl
        cases none_such
      · rintro stage rfl
        cases none_such
    refine flusherNotified_set ok slot ?_ ?_ fun stage same => absurd same ((apart _ aside).2 stage)
    · intro queued
      exact .inr (.inr ⟨wal ▸ queued, rfl, fun stored => wal ▸ stored⟩)
    · exact .keeps shutdown (fun stored => wal ▸ stored) (apart _ control).1 fun same =>
        absurd same ((apart _ aside).2 _)

theorem flusherNotified_step (ok : FlusherNotified σ)
    (taken : (systemProtocol crates).step σ a = some σ') : FlusherNotified σ' := by
  cases a with
  | spawn k =>
    obtain ⟨s, u, h, rfl⟩ := Protocol.step_spawn taken
    have same : s.wal = σ.shared.wal ∧ s.shutdown = σ.shared.shutdown ∧ ∀ stage,
        u.prog ≠ .flusher stage := by
      cases k <;> cases h <;> simp
    exact flusherNotified_spawn ok same.1 same.2.1 same.2.2
  | move i m =>
    obtain ⟨⟨call, prog⟩, s, t', slot, h, rfl⟩ := Protocol.step_move taken
    cases call with
    | none =>
      cases m with
      | call k => cases h
      | proceed | notified | appendOp | commit | abort | discard | flush | see | interrupt =>
        exact flusherNotified_own ok slot h
    | some c =>
      cases m with
      | call k =>
        cases k with
        | run =>
          obtain ⟨⟨w, call'⟩, ran, same⟩ := Option.map_eq_some_iff.mp h
          cases same
          obtain ⟨watches, permit⟩ := run_watches ran
          cases call' with
          | some c' => exact flusherNotified_call ok slot watches permit (.inl rfl)
          | none => exact flusherNotified_call ok slot watches permit (.inr (.inr ⟨.ok (), rfl⟩))
        | fail fault =>
          obtain ⟨⟨w, e⟩, failed, same⟩ := Option.map_eq_some_iff.mp h
          cases same
          obtain ⟨fallible, _, rfl⟩ := fail_release failed
          exact flusherNotified_call ok slot (release_watches fallible) id (.inr (.inr ⟨_, rfl⟩))
        | drop =>
          obtain ⟨w, dropped, same⟩ := Option.map_eq_some_iff.mp h
          cases same
          obtain ⟨fallible, rfl⟩ := drop_release dropped
          exact flusherNotified_call ok slot (release_watches fallible) id (.inr (.inl rfl))
      | proceed | notified | appendOp | commit | abort | discard | flush | see | interrupt =>
        cases h

theorem flusherNotified_start {max : Nat} {path : String} {base : Bytes} {ckpt : Option (List Char)}
    {mem : Memory} : FlusherNotified (System.start max path base ckpt mem) := by
  refine ⟨fun i call stage at_i => ?_, fun queued => absurd rfl queued,
    fun stopping => by cases stopping⟩
  rcases i with _ | _ | i
  · rfl
  · cases at_i
  · cases at_i

theorem flusherNotified_run {σ₀ : SystemConfig} (start : FlusherNotified σ₀)
    (run : (systemProtocol crates).Reaches (fun _ _ => True) σ₀ σ) : FlusherNotified σ :=
  run.invariant start fun _ _ _ ok _ taken => flusherNotified_step ok taken

/-- In every run, whatever fails or is dropped. -/
theorem flusher_notified {max : Nat} {path : String} {base : Bytes} {ckpt : Option (List Char)}
    {mem : Memory}
    (run : (systemProtocol crates).Reaches (fun _ _ => True)
      (System.start max path base ckpt mem) σ) : FlusherNotified σ :=
  flusherNotified_run flusherNotified_start run

def flusherAsked : List SystemAction :=
  [.spawn .transaction, .spawn .stopFlusher, .move 2 (.appendOp (.insert 0 0 "k" [1]) 7)] ++
    runs 2 3 ++ [.move 3 .proceed]

theorem flusher_notified_asked : FlusherNotified
    (((systemProtocol (Bincode.crates true)).exec (fun _ _ => True) newDatabase flusherAsked).get
      (by decide +kernel)) :=
  flusher_notified (Protocol.reaches_exec flusherAsked (by decide +kernel))

end Steps

end AsyncWalDb
