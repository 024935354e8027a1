import AsyncWalDb.Bincode
import AsyncWalDb.Checkpoint
import AsyncWalDb.CrashImage

/-! Everything written is read back: successive drains, each taking whatever is queued to the file,
leave a file that both reading loops read as the concatenation of the batches. -/
namespace AsyncWalDb

open KeyedWrites

/-- The moves of one drain up to its return, at most `fuel` of them. -/
def drainAlone (crates : Crates) : Nat → Wal → DrainPc → Option Wal
  | 0, _, _ => none
  | fuel + 1, w, pc => (drainRun crates w pc).bind fun out =>
    match out.2 with
    | none => some out.1
    | some pc' => drainAlone crates fuel out.1 pc'

def Wal.queue (w : Wal) (batch : List WalEntry) : Wal :=
  { w with
    pending := w.pending ++ batch.map (Item.mk 0 0),
    pendingCount := w.pendingCount + batch.length }

/-- One drain for each batch; each has enough moves for three per entry and six more. -/
def drainBatches (crates : Crates) : Wal → List (List WalEntry) → Option Wal
  | w, [] => some w
  | w, batch :: batches =>
    (drainAlone crates (3 * (w.queue batch).pending.length + 6) (w.queue batch) (.pop [])).bind
      fun w' => drainBatches crates w' batches

variable {crates : Crates} {w w' : Wal}

theorem drainAlone_pops (fuel : Nat) (batch : List Item) :
    drainAlone crates (fuel + w.pending.length) w (.pop batch) =
      drainAlone crates fuel { w with pending := [] } (.pop (batch ++ w.pending)) := by
  generalize same : w.pending = its
  induction its generalizing w batch with
  | nil =>
    have unchanged : { w with pending := [] } = w := by rw [← same]
    rw [unchanged, List.append_nil]
    rfl
  | cons it its ih =>
    rw [List.length_cons, ← Nat.add_assoc, drainAlone, drainRun, same]
    have next := ih (w := { w with pending := its }) (batch ++ [it]) rfl
    rw [List.append_assoc] at next
    exact next

theorem drainAlone_writes (fuel : Nat) (done rest : List Item) :
    drainAlone crates (fuel + 2 * rest.length) w (.write done rest false) =
      if ∀ it ∈ rest, crates.Fits it.entry then
        drainAlone crates fuel { w with stream := w.stream ++ framesOf rest }
          (.write (done ++ rest) [] false)
      else none := by
  induction rest generalizing w done with
  | nil => simp [framesOf]
  | cons it rest ih =>
    have moves : fuel + 2 * (it :: rest).length = fuel + 2 * rest.length + 1 + 1 := by
      rw [List.length_cons]
      omega
    rw [moves, drainAlone, drainRun]
    by_cases fits : crates.Fits it.entry
    · simp only [if_pos fits, Option.bind_some, drainAlone, drainRun]
      rw [ih]
      simp [fits, framesOf]
    · simp [fits]

theorem drainAlone_eq (free : w.locked = false) :
    drainAlone crates (3 * w.pending.length + 6) w (.pop []) =
      if w.pending = [] then some w
      else if ∀ it ∈ w.pending, crates.Fits it.entry then
        some { w with
          pending := []
          stream := w.stream ++ framesOf w.pending
          flushed := (w.stream ++ framesOf w.pending).length
          synced := (w.stream ++ framesOf w.pending).length
          pendingCount := Wal.fetchSub w.pendingCount w.pending.length
          spaceAvailable := w.spaceAvailable + 1 }
      else none := by
  by_cases empty : w.pending = []
  · simp [empty, drainAlone, drainRun]
  · have moves : 3 * w.pending.length + 6 = 4 + 2 * w.pending.length + 1 + 1 +
      w.pending.length := by omega
    rw [moves, drainAlone_pops, List.nil_append, if_neg empty, drainAlone]
    simp only [drainRun, if_neg empty, Option.bind_some, drainAlone, free, Bool.false_eq_true,
      if_false]
    rw [drainAlone_writes]
    rfl

structure Wrote (crates : Crates) (w : Wal) (es : List WalEntry) : Prop where
  free : w.locked = false
  drained : w.pending = []
  bytes : streamBytes crates w.stream = es.flatMap (frame crates)
  fits : ∀ e ∈ es, crates.Fits e

theorem wrote_batch {es batch : List WalEntry} (before : Wrote crates w es)
    (drain : drainAlone crates (3 * (w.queue batch).pending.length + 6) (w.queue batch)
      (.pop []) = some w') : Wrote crates w' (es ++ batch) := by
  have queued : (w.queue batch).pending = batch.map (Item.mk 0 0) := by
    rw [Wal.queue, before.drained, List.nil_append]
  rw [drainAlone_eq (show (w.queue batch).locked = false from before.free), queued] at drain
  split at drain
  · rename_i empty
    have nothing : batch = [] := by simpa using empty
    cases drain
    subst nothing
    rw [List.append_nil]
    exact ⟨before.free, queued, before.bytes, before.fits⟩
  · split at drain
    · rename_i fits
      cases drain
      have entries : (batch.map (Item.mk 0 0)).map Item.entry = batch := by simp [Function.comp_def]
      refine ⟨before.free, rfl, ?_, fun e he => ?_⟩
      · change streamBytes crates (w.stream ++ framesOf (batch.map (Item.mk 0 0))) = _
        rw [streamBytes_append, streamBytes_framesOf, entries, before.bytes, List.flatMap_append]
      · rcases List.mem_append.mp he with old | new
        · exact before.fits e old
        · exact fits _ (List.mem_map_of_mem new)
    · contradiction

theorem wrote_batches {es : List WalEntry} {batches : List (List WalEntry)}
    (before : Wrote crates w es) (drains : drainBatches crates w batches = some w') :
    Wrote crates w' (es ++ batches.flatten) := by
  induction batches generalizing w es with
  | nil =>
    cases drains
    rw [List.flatten_nil, List.append_nil]
    exact before
  | cons batch batches ih =>
    obtain ⟨w₁, drain, later⟩ := Option.bind_eq_some_iff.mp drains
    rw [List.flatten_cons, ← List.append_assoc]
    exact ih (wrote_batch before drain) later

theorem drainBatches_some {es : List WalEntry} {batches : List (List WalEntry)}
    (before : Wrote crates w es) (fits : ∀ e ∈ batches.flatten, crates.Fits e) :
    ∃ w', drainBatches crates w batches = some w' := by
  induction batches generalizing w es with
  | nil => exact ⟨w, rfl⟩
  | cons batch batches ih =>
    obtain ⟨w₁, drain⟩ : ∃ w₁, drainAlone crates (3 * (w.queue batch).pending.length + 6)
        (w.queue batch) (.pop []) = some w₁ := by
      rw [drainAlone_eq (show (w.queue batch).locked = false from before.free)]
      split
      · exact ⟨_, rfl⟩
      · refine ⟨_, if_pos fun it hit => ?_⟩
        rw [Wal.queue, before.drained, List.nil_append] at hit
        obtain ⟨e, he, rfl⟩ := List.mem_map.mp hit
        exact fits e (by rw [List.flatten_cons]; exact List.mem_append_left _ he)
    obtain ⟨w', later⟩ := ih (wrote_batch before drain) fun e he =>
      fits e (by rw [List.flatten_cons]; exact List.mem_append_right _ he)
    exact ⟨w', Option.bind_eq_some_iff.mpr ⟨w₁, drain, later⟩⟩

/-- Both readers yield these entries in this order and end at the end of the file; the checkpoint
follows each of them but those at or below its marker. -/
def ReadsBack (crates : Crates) (bytes : Bytes) (es : List WalEntry) : Prop :=
  readLog crates bytes = ⟨es, .headerEof, []⟩ ∧
    ∀ lastCkpt, checkpointScan crates lastCkpt bytes = .ok (es.foldl (ckptTrack lastCkpt) .empty)

/-- Whatever the batches are, either all drains succeed and the file reads back as their
concatenation, or an entry does not serialize into a `Vec`. -/
theorem written_read_back (crates : Crates) (m : Nat) (batches : List (List WalEntry)) :
    (∃ w, drainBatches crates (Wal.new m) batches = some w ∧
      ReadsBack crates (streamBytes crates w.stream) batches.flatten) ∨
      ∃ e ∈ batches.flatten, ¬ crates.Fits e := by
  have fresh : Wrote crates (Wal.new m) [] := ⟨rfl, rfl, rfl, List.forall_mem_nil _⟩
  by_cases fits : ∀ e ∈ batches.flatten, crates.Fits e
  · left
    obtain ⟨w, drains⟩ := drainBatches_some fresh fits
    have wrote := wrote_batches fresh drains
    rw [List.nil_append] at wrote
    have read := (ValidLog.of_entries fits).read_all
    rw [← wrote.bytes] at read
    exact ⟨w, drains, read, fun lastCkpt => by simp only [checkpointScan, read]⟩
  · right
    push Not at fits
    exact fits

end AsyncWalDb
