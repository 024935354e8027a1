import AsyncWalDb.Bincode
import AsyncWalDb.Reader

/-! What the reading loops accept, against what `drain_and_flush` writes. The loops pin down the
length, the checksum and the entry of a frame; nothing looks at its version byte, and
`bincode::deserialize` leaves bytes behind the entry unread. -/
namespace AsyncWalDb

open Framing

/-- bincode reads an entry only where its serialized form stands; bytes behind it are left over. -/
def Crates.Canonical (crates : Crates) : Prop :=
  ∀ bytes e, crates.deserialize bytes = some e → ∃ trailing, bytes = crates.serialize e ++ trailing

theorem Bincode.canonical (overflowChecks : Bool) : (Bincode.crates overflowChecks).Canonical :=
  fun _ _ => Bincode.deserialize_prefix

/-- The reading loop goes from `bytes` to `rest` and reads `es` on the way. -/
inductive Reads (crates : Crates) : Bytes → List WalEntry → Bytes → Prop where
  | start (bytes : Bytes) : Reads crates bytes [] bytes
  | next {bytes rest last : Bytes} {e : WalEntry} {es : List WalEntry}
      (head : readFrame crates bytes = .ok (e, rest)) (tail : Reads crates rest es last) :
        Reads crates bytes (e :: es) last

/-- The loop takes these bytes as the frame of the entry. -/
def Accepts (crates : Crates) (bytes frame : Bytes) (e : WalEntry) : Prop :=
  ∃ es after, Reads crates bytes es (frame ++ after) ∧
    readFrame crates (frame ++ after) = .ok (e, after)

variable {crates : Crates} {bytes rest f : Bytes} {e : WalEntry} {es : List WalEntry}

theorem Reads.read (reads : Reads crates bytes es rest) :
    readLog crates bytes =
      ⟨es ++ (readLog crates rest).items, (readLog crates rest).exit,
        (readLog crates rest).rest⟩ := by
  induction reads with
  | start bytes => rfl
  | @next bytes rest last e es head tail ih =>
    have step : readLog crates bytes = _ := (walReader crates).run_ok head
    rw [step]
    change (⟨e :: (readLog crates rest).items, (readLog crates rest).exit,
      (readLog crates rest).rest⟩ : Reading UInt8 WalEntry ReadExit) = _
    rw [ih]
    rfl

theorem Reads.split {last : Bytes} {pre post : List WalEntry}
    (reads : Reads crates bytes (pre ++ e :: post) last) :
    ∃ rest later, Reads crates bytes pre rest ∧ readFrame crates rest = .ok (e, later) := by
  induction pre generalizing bytes with
  | nil =>
    cases reads with
    | next head tail => exact ⟨bytes, _, .start bytes, head⟩
  | cons d pre ih =>
    cases reads with
    | next head tail =>
      obtain ⟨rest, later, before, taken⟩ := ih tail
      exact ⟨rest, later, .next head before, taken⟩

theorem reads_readLog (bytes : Bytes) :
    Reads crates bytes (readLog crates bytes).items (readLog crates bytes).rest := by
  induction hn : bytes.length using Nat.strong_induction_on generalizing bytes with
  | _ n ih =>
    cases h : readFrame crates bytes with
    | error exit =>
      rw [readLog_stop h]
      exact .start bytes
    | ok out =>
      obtain ⟨e, rest⟩ := out
      have step : readLog crates bytes = _ := (walReader crates).run_ok h
      rw [step]
      exact .next h (ih rest.length (hn ▸ readFrame_shrinks _ _ _ h) rest rfl)

theorem mem_readLog_iff : e ∈ (readLog crates bytes).items ↔ ∃ f, Accepts crates bytes f e := by
  constructor
  · intro mem
    obtain ⟨pre, post, items⟩ := List.append_of_mem mem
    have reads : Reads crates bytes _ _ := reads_readLog bytes
    rw [items] at reads
    obtain ⟨rest, later, before, taken⟩ := reads.split
    obtain ⟨f, rfl, _⟩ := readFrame_ok taken
    exact ⟨f, pre, later, before, taken⟩
  · rintro ⟨f, es, after, before, taken⟩
    have next : readLog crates (f ++ after) = _ := (walReader crates).run_ok taken
    rw [before.read, next]
    simp

/-- Whatever the loops accept has the length and the checksum of its payload in the header, and the
payload begins with the serialized entry. It is the writer's frame exactly when the version byte is
`VERSION` and nothing follows the entry. -/
theorem accepted_frames (canonical : crates.Canonical) (accepted : Accepts crates bytes f e) :
    ∃ (header : WalEntryHeader) (trailing : Bytes),
      f = header.toBytes ++ (crates.serialize e ++ trailing) ∧
      header.length.toNat = (crates.serialize e ++ trailing).length ∧
      header.checksum = crates.hash (crates.serialize e ++ trailing) ∧
      (f = frame crates e ↔ header.version = WalEntryHeader.VERSION ∧ trailing = []) := by
  obtain ⟨es, after, _, taken⟩ := accepted
  obtain ⟨front, split, valid⟩ := readFrame_ok taken
  obtain rfl : f = front := List.append_cancel_right split
  obtain ⟨trailing, payload⟩ := canonical _ _ valid.decodes
  have size : (f.take WalEntryHeader.SIZE).length = WalEntryHeader.SIZE := by
    rw [List.length_take]
    exact Nat.min_eq_left valid.header
  have header := WalEntryHeader.toBytes_fromBytes size
  have length : (WalEntryHeader.fromBytes (f.take WalEntryHeader.SIZE)).length.toNat =
      (f.drop WalEntryHeader.SIZE).length := by
    have total := valid.length
    rw [List.length_drop]
    omega
  have checksum := (WalEntryHeader.validate_ok_iff _ _ _).mp valid.checksum
  have parts : f = (WalEntryHeader.fromBytes (f.take WalEntryHeader.SIZE)).toBytes ++
      f.drop WalEntryHeader.SIZE := by
    rw [header, List.take_append_drop]
  generalize WalEntryHeader.fromBytes (f.take WalEntryHeader.SIZE) = h
    at header length checksum parts
  rw [payload] at length checksum parts
  refine ⟨h, trailing, parts, length, checksum.symm, ?_⟩
  constructor
  · intro same
    rw [parts, frame] at same
    obtain ⟨heads, bodies⟩ := List.append_inj same (by simp)
    have written : h = WalEntryHeader.new crates (crates.serialize e) := by
      rw [← WalEntryHeader.fromBytes_toBytes h, heads, WalEntryHeader.fromBytes_toBytes]
    exact ⟨by rw [written]; rfl, by simpa using bodies⟩
  · rintro ⟨version, rfl⟩
    rw [List.append_nil] at length checksum parts
    have written : h = WalEntryHeader.new crates (crates.serialize e) := by
      cases h
      simp only at length checksum version
      rw [WalEntryHeader.new, checksum, ← length, UInt64.ofNat_toNat, version]
    rw [parts, written, frame]

def foreignFrame : Bytes :=
  let payload := (Bincode.crates true).serialize (.commit 1 7) ++ [0]
  WalEntryHeader.toBytes { WalEntryHeader.new (Bincode.crates true) payload with version := 2 } ++
    payload

theorem foreignFrame_accepted :
    Accepts (Bincode.crates true) foreignFrame foreignFrame (.commit 1 7) :=
  ⟨[], [], by rw [List.append_nil]; exact .start _, by decide +kernel⟩

/-- No check of the loops looks at the version, and trailing bytes pass. -/
theorem accepts_foreign_frame :
    ¬ ∀ (crates : Crates) (bytes f : Bytes) (e : WalEntry), crates.Canonical →
      Accepts crates bytes f e →
      f = frame crates e ∧
        (WalEntryHeader.fromBytes (f.take WalEntryHeader.SIZE)).version =
          WalEntryHeader.VERSION := by
  intro claim
  have same := claim (Bincode.crates true) foreignFrame foreignFrame (.commit 1 7)
    (Bincode.canonical true) foreignFrame_accepted
  revert same
  decide +kernel

theorem accepted_frames_foreign : ∃ (header : WalEntryHeader) (trailing : Bytes),
    foreignFrame = header.toBytes ++ ((Bincode.crates true).serialize (.commit 1 7) ++ trailing) ∧
    header.length.toNat = ((Bincode.crates true).serialize (.commit 1 7) ++ trailing).length ∧
    header.checksum =
      (Bincode.crates true).hash ((Bincode.crates true).serialize (.commit 1 7) ++ trailing) ∧
    (foreignFrame = frame (Bincode.crates true) (.commit 1 7) ↔
      header.version = WalEntryHeader.VERSION ∧ trailing = []) :=
  accepted_frames (Bincode.canonical true) foreignFrame_accepted

end AsyncWalDb
