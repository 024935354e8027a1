import AsyncWalDb.Format
import AsyncWalDb.Recovery

/-! Recovery reads the longest run of valid frames at the start of the
file, and nothing behind it counts. The loop of the source reads into one
buffer that it resizes; what the buffer held before does not matter. -/
namespace AsyncWalDb

open Framing

def resize (buffer : Bytes) (len : Nat) : Bytes :=
  buffer.take len ++ List.replicate (len - buffer.length) 0

/-- `read_exact`: it overwrites the whole buffer, or meets the end of the file. -/
def readExact (buffer bytes : Bytes) : Option (Bytes × Bytes) :=
  if bytes.length < buffer.length then none
    else some (bytes.take buffer.length, bytes.drop buffer.length)

/-- One turn of the loop with the buffer of the turn before;
it returns the buffer for the next one. -/
def readFrameInto (crates : Crates) (buffer bytes : Bytes) :
    Except ReadExit (WalEntry × Bytes × Bytes) :=
  match readExact (List.replicate WalEntryHeader.SIZE 0) bytes with
  | none => .error .headerEof
  | some (headerBytes, body) =>
    let header := WalEntryHeader.fromBytes headerBytes
    let len := header.length.toNat
    if isizeMax < len then .error .capacityOverflow
    else match readExact (resize buffer len) body with
      | none => .error .payloadEof
      | some (buffer, rest) =>
        match header.validate crates buffer with
        | .error e => .error (.checksum e)
        | .ok () =>
          match crates.deserialize buffer with
          | none => .error .undecodable
          | some entry => .ok (entry, buffer, rest)

@[simp] theorem resize_length (buffer : Bytes) (len : Nat) : (resize buffer len).length = len := by
  rw [resize, List.length_append, List.length_take, List.length_replicate]
  omega

theorem readFrameInto_eq (crates : Crates) (buffer bytes : Bytes) :
    (readFrameInto crates buffer bytes).map (fun out => (out.1, out.2.2)) =
      readFrame crates bytes := by
  unfold readFrameInto readFrame readExact
  simp only [List.length_replicate, resize_length]
  by_cases short : bytes.length < WalEntryHeader.SIZE
  · simp only [if_pos short]
    rfl
  · simp only [if_neg short]
    by_cases large :
      isizeMax < (WalEntryHeader.fromBytes (bytes.take WalEntryHeader.SIZE)).length.toNat
    · simp only [if_pos large]
      rfl
    · simp only [if_neg large]
      split
      · rename_i torn
        split at torn
        · rename_i short_body
          rw [if_pos short_body]
          rfl
        · contradiction
      · rename_i buffer rest filled
        split at filled
        · contradiction
        · rename_i whole
          cases filled
          rw [if_neg whole]
          cases WalEntryHeader.validate crates _ _ with
          | error e => rfl
          | ok _ => cases crates.deserialize _ <;> rfl

theorem readFrameInto_ok {crates : Crates} {buffer bytes buffer' rest : Bytes} {e : WalEntry}
    (h : readFrameInto crates buffer bytes = .ok (e, buffer', rest)) :
    readFrame crates bytes = .ok (e, rest) := by
  rw [← readFrameInto_eq crates buffer, h]
  rfl

def scanInto (crates : Crates) (buffer bytes : Bytes) : Reading UInt8 WalEntry ReadExit :=
  match h : readFrameInto crates buffer bytes with
  | .error exit => ⟨[], exit, bytes⟩
  | .ok (e, buffer', rest) =>
    have _shorter : rest.length < bytes.length := readFrame_shrinks _ _ _ (readFrameInto_ok h)
    let later := scanInto crates buffer' rest
    ⟨e :: later.items, later.exit, later.rest⟩
termination_by bytes.length

theorem scanInto_eq (crates : Crates) (buffer bytes : Bytes) :
    scanInto crates buffer bytes = readLog crates bytes := by
  induction hn : bytes.length using Nat.strong_induction_on generalizing buffer bytes with
  | _ n ih =>
    rw [scanInto]
    split
    · rename_i exit stop
      have stop' : readFrame crates bytes = .error exit := by
        rw [← readFrameInto_eq crates buffer, stop]; rfl
      rw [readLog_stop stop']
    · rename_i e buffer' rest taken
      have taken' := readFrameInto_ok taken
      have step : readLog crates bytes = _ := (walReader crates).run_ok taken'
      rw [step, ih rest.length (hn ▸ readFrame_shrinks _ _ _ taken') buffer' rest rfl]
      rfl

/-- A header of 13 bytes, as many payload bytes as its length field says, their CRC in its checksum
field, and an entry that they deserialize to. -/
def FrameOf (crates : Crates) (bytes : Bytes) (e : WalEntry) : Prop :=
  ∃ header payload, bytes = header ++ payload ∧ header.length = WalEntryHeader.SIZE ∧
    (WalEntryHeader.fromBytes header).length.toNat = payload.length ∧
    crates.hash payload = (WalEntryHeader.fromBytes header).checksum ∧
      crates.deserialize payload = some e

/-- The file starts with consecutive frames of these entries, and `rest` follows. -/
inductive StartsWith (crates : Crates) : Bytes → List WalEntry → Bytes → Prop where
  | nothing (bytes : Bytes) : StartsWith crates bytes [] bytes
  | frame {bytes rest last : Bytes} {e : WalEntry} {es : List WalEntry}
    (head : FrameOf crates bytes e) (tail : StartsWith crates rest es last) :
    StartsWith crates (bytes ++ rest) (e :: es) last

/-- A buffer can be allocated for each length that is declared behind consecutive frames. -/
def Allocates (crates : Crates) (bytes : Bytes) : Prop :=
  ∀ es rest, StartsWith crates bytes es rest → ¬ Oversized rest

/-- What follows is a header and its payload, with a CRC other than the one of the header. -/
def Corrupt (crates : Crates) (bytes : Bytes) : Prop :=
  ∃ header payload more, bytes = header ++ (payload ++ more) ∧ header.length = WalEntryHeader.SIZE ∧
    (WalEntryHeader.fromBytes header).length.toNat = payload.length ∧
    crates.hash payload ≠ (WalEntryHeader.fromBytes header).checksum

/-- The classification of the transactions, without the counts of what ended the scan. -/
def RecoveryStats.counts (s : RecoveryStats) : Nat × Nat × Nat × Nat :=
  (s.totalTransactions, s.committed, s.aborted, s.incomplete)

def Outcome.counts : Outcome RecoveryStats → Outcome (Nat × Nat × Nat × Nat)
  | .ok s => .ok s.counts
  | .err e => .err e
  | .panicked => .panicked

def SameUse (out out' : Outcome RecoveryStats × Memory) : Prop :=
  out.1.counts = out'.1.counts ∧ out.2 = out'.2

variable {crates : Crates} {bytes rest f : Bytes} {e : WalEntry} {es : List WalEntry}

theorem ValidFrame.frameOf (valid : ValidFrame crates f e) : FrameOf crates f e := by
  have header := valid.header
  have total := valid.length
  refine ⟨f.take WalEntryHeader.SIZE, f.drop WalEntryHeader.SIZE, (List.take_append_drop _ _).symm,
    ?_, ?_,
    (WalEntryHeader.validate_ok_iff _ _ _).mp valid.checksum, valid.decodes⟩
  · rw [List.length_take]
    exact Nat.min_eq_left header
  · rw [List.length_drop]
    omega

theorem FrameOf.reads (h : FrameOf crates f e) (small : ¬ Oversized (f ++ rest)) :
    readFrame crates (f ++ rest) = .ok (e, rest) := by
  obtain ⟨header, payload, rfl, size, length, checksum, decodes⟩ := h
  have head : (header ++ payload).take WalEntryHeader.SIZE = header := List.take_left' size
  have body : (header ++ payload).drop WalEntryHeader.SIZE = payload := List.drop_left' size
  have small : (WalEntryHeader.fromBytes header).length.toNat ≤ isizeMax := by
    by_contra large
    refine small ⟨?_, ?_⟩
    · rw [List.append_assoc, List.length_append]
      omega
    · rw [List.append_assoc, List.take_left' size]
      exact Nat.lt_of_not_le large
  have valid : ValidFrame crates (header ++ payload) e := by
    refine ⟨?_, ?_, ?_, ?_, ?_⟩
    · rw [List.length_append]
      omega
    · rw [head, length, List.length_append, size]
    · rw [head]
      exact small
    · rw [head, body]
      exact (WalEntryHeader.validate_ok_iff _ _ _).mpr checksum
    · rw [body]
      exact decodes
  exact valid.reads rest

theorem Allocates.tail (h : Allocates crates (f ++ rest)) (head : FrameOf crates f e) :
    Allocates crates rest :=
  fun es last starts => h (e :: es) last (.frame head starts)

theorem StartsWith.append (starts : StartsWith crates bytes es rest) (more : Bytes) :
    StartsWith crates (bytes ++ more) es (rest ++ more) := by
  induction starts with
  | nothing bytes => exact .nothing _
  | frame head _ ih => rw [List.append_assoc]; exact .frame head ih

theorem Oversized.append (large : Oversized bytes) (more : Bytes) : Oversized (bytes ++ more) := by
  obtain ⟨long, length⟩ := large
  refine ⟨?_, by rw [List.take_append_of_le_length long]; exact length⟩
  rw [List.length_append]
  omega

theorem Allocates.before (h : Allocates crates (bytes ++ rest)) : Allocates crates bytes :=
  fun es _ starts large => h es _ (starts.append rest) (large.append rest)

theorem StartsWith.reads (starts : StartsWith crates bytes es rest)
    (allocates : Allocates crates bytes) : Reads crates bytes es rest := by
  induction starts with
  | nothing bytes => exact .start bytes
  | frame head _ ih =>
    exact .next (head.reads (allocates [] _ (.nothing _))) (ih (allocates.tail head))

theorem Reads.startsWith (reads : Reads crates bytes es rest) :
    StartsWith crates bytes es rest := by
  induction reads with
  | start bytes => exact .nothing bytes
  | next head _ ih =>
    obtain ⟨f, rfl, valid⟩ := readFrame_ok head
    exact .frame valid.frameOf ih

theorem allocates_iff :
    Allocates crates bytes ↔ (readLog crates bytes).exit ≠ .capacityOverflow := by
  constructor
  · intro allocates overflow
    have reads : Reads crates bytes _ _ := reads_readLog bytes
    have stop : readFrame crates (readLog crates bytes).rest = _ :=
      (walReader crates).run_stops bytes
    exact allocates _ _ reads.startsWith
      (readFrame_overflow_iff.mp (stop.trans (congrArg _ overflow)))
  · intro readable es rest starts
    induction starts with
    | nothing bytes =>
      intro large
      exact readable (by rw [readLog_stop (readFrame_overflow_iff.mpr large)])
    | @frame f rest last e es head tail ih =>
      have small : ¬ Oversized (f ++ rest) := fun large =>
        readable (by rw [readLog_stop (readFrame_overflow_iff.mpr large)])
      have step : readLog crates (f ++ rest) = _ := (walReader crates).run_ok (head.reads small)
      rw [step] at readable
      exact ih readable

theorem Corrupt.no_frame (corrupt : Corrupt crates bytes) : ¬ ∃ f more e, bytes = f ++ more ∧
    FrameOf crates f e := by
  obtain ⟨header, payload, more, rfl, size, length, mismatch⟩ := corrupt
  rintro ⟨_, more', e, split, header', payload', rfl, size', length', checksum, _⟩
  rw [List.append_assoc] at split
  obtain ⟨rfl, bodies⟩ := List.append_inj split (size.trans size'.symm)
  obtain ⟨rfl, _⟩ := List.append_inj bodies (length.symm.trans length')
  exact mismatch checksum

theorem recover_sameUse {bytes' : Bytes}
    (same : (readLog crates bytes).items = (readLog crates bytes').items)
    (readable : (readLog crates bytes).exit ≠ .capacityOverflow)
    (readable' : (readLog crates bytes').exit ≠ .capacityOverflow) (mem : Memory) :
    SameUse (recoverWithValidation crates (some bytes) mem) (recoverWithValidation crates
      (some bytes') mem) := by
  simp only [recoverWithValidation, if_neg readable, if_neg readable', same]
  split
  · exact ⟨rfl, rfl⟩
  · split
    · exact ⟨rfl, rfl⟩
    · split <;> exact ⟨rfl, rfl⟩

/-- The entries read are those of the longest run of frames at the start of the
file, whatever the buffer holds. All frames before the first place that holds
none, such as a frame with a changed payload, are used, and what stands from
there on changes neither the store nor the classification nor the id counter. -/
structure ReadsLongest (crates : Crates) (bytes : Bytes) : Prop where
  starts : ∃ rest, StartsWith crates bytes (readLog crates bytes).items rest
  longest : ∀ es rest, StartsWith crates bytes es rest → es <+: (readLog crates bytes).items
  buffer : ∀ buffer, scanInto crates buffer bytes = readLog crates bytes
  ends : ∀ front rest es, bytes = front ++ rest → StartsWith crates front es [] →
    (Corrupt crates rest ∨ ¬ ∃ f more e, rest = f ++ more ∧ FrameOf crates f e) →
    (readLog crates bytes).items = es ∧
      ∀ mem, SameUse (recoverWithValidation crates (some bytes) mem)
        (recoverWithValidation crates (some front) mem)

theorem longest_prefix_read (allocates : Allocates crates bytes) : ReadsLongest crates bytes := by
  have longest : ∀ es rest, StartsWith crates bytes es rest →
      (readLog crates bytes).items = es ++ (readLog crates rest).items := by
    intro es rest starts
    rw [(starts.reads allocates).read]
  refine ⟨⟨_, (reads_readLog bytes).startsWith⟩, fun es rest starts => ⟨_,
    (longest es rest starts).symm⟩,
    fun buffer => scanInto_eq crates buffer bytes, ?_⟩
  rintro front rest es rfl starts no_frame
  have no_frame : ¬ ∃ f more e, rest = f ++ more ∧ FrameOf crates f e :=
    no_frame.elim Corrupt.no_frame id
  have items : (readLog crates (front ++ rest)).items = es := by
    rw [longest es rest (starts.append rest)]
    cases next : readFrame crates rest with
    | error exit => rw [readLog_stop next, List.append_nil]
    | ok out =>
      obtain ⟨f, split, valid⟩ := readFrame_ok next
      exact absurd ⟨f, _, _, split, valid.frameOf⟩ no_frame
  have alone : readLog crates front = ⟨es, .headerEof, []⟩ := by
    rw [(starts.reads allocates.before).read, readLog_nil, List.append_nil]
  refine ⟨items, recover_sameUse ?_ (allocates_iff.mp allocates)
    (allocates_iff.mp allocates.before)⟩
  rw [items, alone]

def flippedLog : Bytes :=
  let changed := frame (Bincode.crates true) (.insert 2 7 "b" [2])
  frame (Bincode.crates true) (.commit 1 7) ++ (changed.set (changed.length - 1) 3 ++
    frame (Bincode.crates true) (.commit 2 7))

theorem longest_prefix_read_flippedLog : ReadsLongest (Bincode.crates true) flippedLog :=
  longest_prefix_read (allocates_iff.mpr (by decide +kernel))

end AsyncWalDb
