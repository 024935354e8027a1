import AsyncWalDb.CheckpointAtomic
import AsyncWalDb.TornMarker

/-! The marker file over a whole run of the scheduler. Seen from outside it is an automaton: each
checkpoint that ends moves it up to the highest committed id of the log it read, and an interrupted
write leaves the digits written so far, which read as a lower number, as the whole one, or, when
there are none, as an error for good. -/
namespace AsyncWalDb

open Interleaving

/-- How a write of the marker's digits comes to its end. -/
inductive MarkerEvent where
  | written (id : UInt64)
  | cut (id : UInt64) (digits : Nat)
  deriving DecidableEq

def MarkerEvent.isCut : MarkerEvent → Bool
  | .written _ => false
  | .cut _ _ => true

def MarkerEvent.id : MarkerEvent → UInt64
  | .written id | .cut id _ => id

def markerWrite (σ : SystemConfig) : SystemAction → Option MarkerEvent
  | .move i .proceed =>
    match σ.tasks[i]? with
    | some ⟨none, .checkpoint (.writeMarker id k)⟩ =>
      if k < (decimal id).length then none else some (.written id)
    | _ => none
  | .move i .interrupt =>
    match σ.tasks[i]? with
    | some ⟨none, .checkpoint (.writeMarker id k)⟩ => some (.cut id k)
    | _ => none
  | _ => none

/-- The highest id above `last` whose transaction is committed in a front of the file. -/
def NextMarker (crates : Crates) (s : System) (last id : UInt64) : Prop :=
  ∃ bytes, bytes <+: s.file crates ∧ id ∈ ckptIds last (readLog crates bytes).items ∧
    ∀ j ∈ ckptIds last (readLog crates bytes).items, j ≤ id

/-- What the first `k` digits of a marker say; without any the marker is unreadable. -/
def frontMarker (id : UInt64) (k : Nat) : Option UInt64 :=
  if k = 0 then none else some (UInt64.ofNat (id.toNat / 10 ^ ((decimal id).length - k)))

/-- What the marker says after these writes; nothing follows an unreadable one. -/
inductive MarkerRun (crates : Crates) (s : System) (first : UInt64) : List MarkerEvent →
    Option UInt64 → Prop where
  | start : MarkerRun crates s first [] (some first)
  | advance {es : List MarkerEvent} {last id : UInt64}
    (run : MarkerRun crates s first es (some last)) (next : NextMarker crates s last id) :
    MarkerRun crates s first (es ++ [.written id]) (some id)
  | tear {es : List MarkerEvent} {last id : UInt64}
    (run : MarkerRun crates s first es (some last)) (next : NextMarker crates s last id)
    (k : Nat) : MarkerRun crates s first (es ++ [.cut id k]) (frontMarker id k)

def MarkerReads (ckpt : Option (List Char)) : Option UInt64 → Prop
  | some id => getLastCheckpoint ckpt = .ok id
  | none =>
    getLastCheckpoint ckpt =
      .error (.checkpoint "Invalid checkpoint TxID: cannot parse integer from empty string")

/-- The marker's file follows the automaton, through the time a checkpoint writes it. -/
inductive MarkerPhase (crates : Crates) (first : UInt64) (es : List MarkerEvent)
    (σ : SystemConfig) : Prop where
  | idle {marker : Option UInt64} (run : MarkerRun crates σ.shared first es marker)
    (unlocked : σ.shared.storeLocked = false) (reads : MarkerReads σ.shared.ckpt marker)
  | busy {i : Nat} {last id : UInt64} {before : Option (List Char)}
    (run : MarkerRun crates σ.shared first es (some last))
    (next : NextMarker crates σ.shared last id) (reads : getLastCheckpoint before = .ok last)
    (writing : Writing i id before σ)

variable {crates : Crates} {s s' : System} {first last id : UInt64} {es : List MarkerEvent}
  {marker : Option UInt64} {i : Nat} {σ σ' : SystemConfig} {a : SystemAction}

section Automaton

theorem NextMarker.mono (next : NextMarker crates s last id)
    (grows : s.file crates <+: s'.file crates) : NextMarker crates s' last id := by
  obtain ⟨bytes, front, mem, highest⟩ := next
  exact ⟨bytes, front.trans grows, mem, highest⟩

theorem NextMarker.lt (next : NextMarker crates s last id) : last < id := by
  obtain ⟨bytes, front, mem, highest⟩ := next
  exact (mem_ckptIds.mp mem).1

theorem MarkerRun.mono (run : MarkerRun crates s first es marker)
    (grows : s.file crates <+: s'.file crates) : MarkerRun crates s' first es marker := by
  induction run with
  | start => exact .start
  | advance run next ih => exact ih.advance (next.mono grows)
  | tear run next k ih => exact ih.tear (next.mono grows) k

theorem frontMarker_le {k : Nat} {n : UInt64} (reads : frontMarker id k = some n) : n ≤ id := by
  unfold frontMarker at reads
  split at reads
  · cases reads
  · cases reads
    rw [UInt64.le_iff_toNat_le, UInt64.toNat_ofNat']
    exact le_trans (Nat.mod_le _ _) (Nat.div_le_self _ _)

theorem MarkerRun.bounded (run : MarkerRun crates s first es marker) {n : UInt64}
    (reads : marker = some n) : n = first ∨ ∃ e ∈ es, n ≤ e.id := by
  cases run with
  | start => cases reads; exact .inl rfl
  | @advance es last id' run next =>
    cases reads
    exact .inr ⟨.written n, by simp, le_refl n⟩
  | @tear es last id' run next k => exact .inr ⟨.cut id' k, by simp, frontMarker_le reads⟩

theorem MarkerRun.ascends (run : MarkerRun crates s first es marker) :
    ∀ older newer, es = older ++ newer →
    (∀ e ∈ newer, e.isCut = false) → (newer.map MarkerEvent.id).Pairwise (· < ·) ∧
      ∀ last, marker = some last → ∀ e ∈ newer, e.id ≤ last := by
  induction run with
  | start =>
    intro older newer split _
    obtain ⟨rfl, rfl⟩ := List.append_eq_nil_iff.mp split.symm
    exact ⟨.nil, fun _ _ _ mem => by cases mem⟩
  | @advance es last id run next ih =>
    intro older newer split uncut
    rcases List.eq_nil_or_concat newer with rfl | ⟨newer, e, rfl⟩
    · exact ⟨.nil, fun _ _ _ mem => by cases mem⟩
    · rw [List.concat_eq_append, ← List.append_assoc] at split
      obtain ⟨earlier, same⟩ := List.append_inj' split rfl
      cases same
      rw [List.concat_eq_append] at uncut ⊢
      obtain ⟨sorted, below⟩ := ih older newer earlier fun e mem =>
        uncut e (List.mem_append_left _ mem)
      have lower : ∀ e ∈ newer, e.id < id := fun e mem =>
        lt_of_le_of_lt (below last rfl e mem) next.lt
      refine ⟨?_, fun top same e mem => ?_⟩
      · rw [List.map_append, List.map_singleton]
        refine List.pairwise_append.mpr ⟨sorted, List.pairwise_singleton _ _, fun j mem k one => ?_⟩
        obtain ⟨e, he, rfl⟩ := List.mem_map.mp mem
        rw [List.mem_singleton.mp one]
        exact lower e he
      · cases same
        rcases List.mem_append.mp mem with old | new
        · exact (lower e old).le
        · rw [List.mem_singleton.mp new]
          exact le_refl id
  | @tear es last id run next k ih =>
    intro older newer split uncut
    rcases List.eq_nil_or_concat newer with rfl | ⟨newer, e, rfl⟩
    · exact ⟨.nil, fun _ _ _ mem => by cases mem⟩
    · rw [List.concat_eq_append, ← List.append_assoc] at split
      obtain ⟨_, same⟩ := List.append_inj' split rfl
      cases same
      cases uncut (.cut id k) (by simp)

end Automaton

section Steps

theorem markerWrite_holds {e : MarkerEvent} (write : markerWrite σ a = some e) :
    ∃ (i : Nat) (m : Move) (t : Task), a = .move i m ∧ σ.tasks[i]? = some t ∧
      t.holdsStore = true := by
  unfold markerWrite at write
  split at write
  · split at write
    · rename_i slot
      exact ⟨_, _, _, rfl, slot, rfl⟩
    · contradiction
  · split at write
    · rename_i slot
      exact ⟨_, _, _, rfl, slot, rfl⟩
    · contradiction
  · contradiction

theorem markerWrite_none (quiet : ∀ (i : Nat) (m : Move) (t : Task), a = .move i m →
    σ.tasks[i]? = some t → t.holdsStore = false) : markerWrite σ a = none := by
  rw [Option.eq_none_iff_forall_ne_some]
  intro e write
  obtain ⟨i, m, t, same, slot, held⟩ := markerWrite_holds write
  rw [quiet i m t same slot] at held
  cases held

theorem unlocked_step (lock : Exclusive System.storeLocked Task.holdsStore σ)
    (unlocked : σ.shared.storeLocked = false) (step : SystemStep crates σ a σ') :
    (σ'.shared.storeLocked = false ∧ σ'.shared.ckpt = σ.shared.ckpt) ∨
      ∃ (i : Nat) (lastCkpt : UInt64) (found : CkptScan),
        σ.tasks[i]? = some ⟨none, .checkpoint (.replay lastCkpt found)⟩ ∧
        Writing i (maxCkpt lastCkpt found) σ.shared.ckpt σ' := by
  have free : ∀ {i : Nat} {t : Task}, σ.tasks[i]? = some t → t.holdsStore = true → False := by
    intro i t slot held
    rw [lock.locked_of_holds slot held] at unlocked
    cases unlocked
  cases step with
  | begin | spawn | call => exact .inl ⟨unlocked, rfl⟩
  | fault slot fallible => exact .inl ⟨unlocked, rfl⟩
  | @own i m prog s' t' slot other runs =>
    have bound := (List.getElem?_eq_some_iff.mp slot).1
    cases runs with
    | ckpt moved =>
      obtain ⟨stage', rfl, ran⟩ := ckptMove_runs moved
      cases ran with
      | read => exact .inl ⟨unlocked, rfl⟩
      | replay => exact .inr ⟨i, _, _, slot, .opening (by simp [bound]) rfl⟩
      | openMarker | writeMarker | unlock => exact (free slot rfl).elim
      | interrupt locking =>
        obtain ⟨id, k, rfl | rfl⟩ := locking
        all_goals exact (free slot rfl).elim
    | refused | append | commit | abort | notActive | discard | commitFlush | abortFlush | done
    | apply | applyFails | cancel
    | control => exact .inl ⟨unlocked, rfl⟩

theorem stillRead_next {lastCkpt : UInt64} {found : CkptScan}
    (still : StillRead crates s (.replay lastCkpt found)) :
    getLastCheckpoint s.ckpt = .ok lastCkpt ∧
      NextMarker crates s lastCkpt (maxCkpt lastCkpt found) := by
  obtain ⟨reads, _, some_new, bytes, front, scanned⟩ := still
  obtain ⟨mem, highest⟩ := (checkpointScan_ok scanned).maxCkpt_spec (by simp [some_new])
  exact ⟨reads, bytes, front, mem, highest⟩

theorem MarkerReads.unique {ckpt : Option (List Char)} (reads : MarkerReads ckpt marker)
    (read : getLastCheckpoint ckpt = .ok last) : marker = some last := by
  cases marker with
  | none => cases read.symm.trans reads
  | some id => cases read.symm.trans reads; rfl

theorem front_reads (id : UInt64) (k : Nat) :
    MarkerReads (some ((decimal id).take k)) (frontMarker id k) := by
  have torn := @marker_torn id none k
  rw [written_marker] at torn
  unfold frontMarker
  split
  · rename_i zero
    subst zero
    rfl
  · rename_i some_written
    exact torn (Nat.pos_of_ne_zero some_written)

theorem markerPhase_own {m : Move} {before : Option (List Char)}
    (run : MarkerRun crates σ.shared first es (some last))
    (next : NextMarker crates σ.shared last id) (reads : getLastCheckpoint before = .ok last)
    (writing : Writing i id before σ)
    (taken : (systemProtocol crates).step σ (.move i m) = some σ') :
    MarkerPhase crates first (es ++ (markerWrite σ (.move i m)).toList) σ' := by
  have grows := file_step (system_step_cases taken)
  obtain ⟨t, s, t', slot, moved, rfl⟩ := Protocol.step_move taken
  have bound := (List.getElem?_eq_some_iff.mp slot).1
  have here : (σ.tasks.set i t')[i]? = some t' := by simp [bound]
  have run := run.mono grows
  have next := next.mono grows
  cases writing with
  | opening slot' marker =>
    cases Option.some.inj (slot.symm.trans slot')
    cases m with
    | proceed =>
      cases moved
      have opened : Writing i id before ⟨{ σ.shared with ckpt := openMarker σ.shared.ckpt }, _⟩ :=
        .writing (k := 0) here rfl
      simpa [markerWrite, slot] using MarkerPhase.busy run next reads opened
    | interrupt =>
      cases moved
      simpa [markerWrite, slot] using MarkerPhase.idle run rfl (show MarkerReads σ.shared.ckpt
        (some last) from marker ▸ reads)
    | call | notified | appendOp | commit | abort | discard | flush | see => cases moved
  | @writing k slot' marker =>
    cases Option.some.inj (slot.symm.trans slot')
    cases m with
    | proceed =>
      simp only [systemProtocol, ownMove, ckptMove] at moved
      split at moved
      · rename_i more
        cases moved
        have written :
            Writing i id before ⟨{ σ.shared with ckpt := writeDigits id (k + 1) σ.shared.ckpt },
            _⟩ :=
          .writing (k := k + 1) here (marker ▸ writeDigits_next id k)
        simpa [markerWrite, slot, more] using MarkerPhase.busy run next reads written
      · rename_i all
        cases moved
        have reads : MarkerReads σ.shared.ckpt (some id) := by
          rw [marker, List.take_of_length_le (Nat.le_of_not_lt all), ← setCheckpoint_eq id none]
          exact getLastCheckpoint_setCheckpoint id none
        simpa [markerWrite, slot, all] using MarkerPhase.idle (run.advance next) rfl reads
    | interrupt =>
      cases moved
      have reads : MarkerReads σ.shared.ckpt (frontMarker id k) := marker ▸ front_reads id k
      simpa [markerWrite, slot] using MarkerPhase.idle (run.tear next k) rfl reads
    | call | notified | appendOp | commit | abort | discard | flush | see => cases moved

theorem markerPhase_step (lock : Exclusive System.storeLocked Task.holdsStore σ)
    (alone : CkptAlone crates σ)
    (phase : MarkerPhase crates first es σ) (taken : (systemProtocol crates).step σ a = some σ') :
    MarkerPhase crates first (es ++ (markerWrite σ a).toList) σ' := by
  have step := system_step_cases taken
  have grows := file_step step
  cases phase with
  | idle run unlocked reads =>
    have quiet : markerWrite σ a = none := by
      refine markerWrite_none fun i m t _ slot => ?_
      by_contra held
      rw [lock.locked_of_holds slot (by simpa using held)] at unlocked
      cases unlocked
    rw [quiet, Option.toList_none, List.append_nil]
    rcases unlocked_step lock unlocked step with ⟨still, same⟩ | ⟨i, lastCkpt, found, slot, writing⟩
    · exact .idle (run.mono grows) still (same ▸ reads)
    · obtain ⟨read, next⟩ := stillRead_next (alone.read i none _ slot)
      cases reads.unique read
      exact .busy (run.mono grows) (next.mono grows) read writing
  | @busy i last id before run next reads writing =>
    by_cases own : ∃ m, a = .move i m
    · obtain ⟨m, rfl⟩ := own
      exact markerPhase_own run next reads writing taken
    · have others : ∀ m, a ≠ .move i m := fun m same => own ⟨m, same⟩
      have quiet : markerWrite σ a = none := by
        refine markerWrite_none fun j m t same slot => ?_
        by_contra held
        obtain ⟨u, at_i, held'⟩ := writing.holds
        exact others m ((lock.alone at_i slot held' (by simpa using held)) ▸ same)
      rw [quiet, Option.toList_none, List.append_nil]
      exact .busy (run.mono grows) (next.mono grows) reads
        (writing_other lock writing others taken).1

end Steps

variable {m : Nat} {path : String} {base : Bytes} {ckpt : Option (List Char)} {mem : Memory}
  {seen : List (MarkerEvent × Unit)}

/-- In every run in which checkpoints come one at a time, whatever else runs or fails: each write of
the marker is of the highest id committed above the last one in a front of the file, ids ascend as
long as no write is cut off, and while no checkpoint holds the store the marker reads as it was last
written, or as the digits that a cut has left. -/
theorem scheduler_markers (readable : getLastCheckpoint ckpt = .ok first)
    (run : (systemProtocol crates).Observed markerWrite (fun _ => ()) OneCheckpoint
      (System.start m path base ckpt mem) seen σ) :
    ∃ marker, MarkerRun crates σ.shared first (seen.map Prod.fst) marker ∧
      (∀ older newer, seen.map Prod.fst = older ++ newer → (∀ e ∈ newer, e.isCut = false) →
        (newer.map MarkerEvent.id).Pairwise (· < ·)) ∧
      (∀ n, marker = some n → n = first ∨ ∃ e ∈ seen.map Prod.fst, n ≤ e.id) ∧
      (σ.shared.storeLocked = false → MarkerReads σ.shared.ckpt marker) := by
  have phase : MarkerPhase crates first (seen.map Prod.fst) σ ∧ CkptAlone crates σ ∧
      Exclusive System.storeLocked Task.holdsStore σ := by
    refine run.invariant (I := fun seen σ => MarkerPhase crates first (seen.map Prod.fst) σ ∧
      CkptAlone crates σ ∧
      Exclusive System.storeLocked Task.holdsStore σ) ⟨.idle .start rfl readable, ?_,
        storeLock_start⟩ ?_
    · exact ckptAlone_run (fun _ _ => id) .start
    · rintro seen τ a τ' ⟨phase, alone, lock⟩ single taken
      have step := system_step_cases taken
      refine ⟨?_, ckptAlone_step alone single step, storeLock_step lock step⟩
      simpa [Function.comp_def] using markerPhase_step lock alone phase taken
  obtain ⟨phase, _, lock⟩ := phase
  cases phase with
  | idle run unlocked reads =>
    exact ⟨_, run, fun older newer split uncut => (run.ascends older newer split uncut).1,
      fun _ => run.bounded,
      fun _ => reads⟩
  | busy run next reads writing =>
    refine ⟨_, run, fun older newer split uncut => (run.ascends older newer split uncut).1,
      fun _ => run.bounded,
      fun unlocked => ?_⟩
    obtain ⟨t, slot, held⟩ := writing.holds
    rw [lock.locked_of_holds slot held] at unlocked
    cases unlocked

def tornThird : Option (List (MarkerEvent × Unit) × SystemConfig) :=
  (systemProtocol (Bincode.crates true)).observe markerWrite (fun _ => ()) OneCheckpoint newDatabase
    (insertAlone [1] 2 ++ readFile 3 ++ replayRead 3 ++ insertAlone [2] 4 ++
      readFile 5 ++ replayRead 5 ++
      insertAlone [3] 6 ++ readFile 7 ++ [.move 7 .proceed, .move 7 .proceed, .move 7 .interrupt])

def tornMarkers : List MarkerEvent := [.written 1, .written 2, .cut 3 0]

def MarkersFollow (seen : List MarkerEvent) (s : System) : Prop :=
  ∃ marker, MarkerRun (Bincode.crates true) s 0 seen marker ∧
    (∀ older newer, seen = older ++ newer → (∀ e ∈ newer, e.isCut = false) →
      (newer.map MarkerEvent.id).Pairwise (· < ·)) ∧
    (∀ n, marker = some n → n = 0 ∨ ∃ e ∈ seen, n ≤ e.id) ∧
    (s.storeLocked = false → MarkerReads s.ckpt marker)

theorem scheduler_markers_tornThird :
    let ended := tornThird.get (by decide +kernel)
    ended.1.map Prod.fst = tornMarkers ∧ MarkersFollow (ended.1.map Prod.fst) ended.2.shared :=
  ⟨by decide +kernel,
    scheduler_markers rfl (Protocol.observed_of_observe _ (Option.some_get _).symm)⟩

end AsyncWalDb
