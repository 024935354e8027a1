import AsyncWalDb.Types

/-! Frames of the WAL file: what `drain_and_flush` writes for an entry, and the frame that the
loops of `recover_with_validation` and `checkpoint` read. The two loops repeat the same reads and
checks and differ only in what they do with the outcome, so `readFrame` is shared. -/
namespace AsyncWalDb

open Framing

/-- Why a reading loop finds no further entry. -/
inductive ReadExit where
  | headerEof
  | capacityOverflow
  | payloadEof
  | checksum (error : WalError)
  | undecodable
  deriving DecidableEq, Repr

/-- One round of the loop, where every buffer of at most `isize::MAX` bytes is granted;
`readAllocating` has the allocator that refuses some. -/
def readFrame (crates : Crates) (bytes : Bytes) : Except ReadExit (WalEntry × Bytes) :=
  if bytes.length < WalEntryHeader.SIZE then .error .headerEof
  else
    let header := WalEntryHeader.fromBytes (bytes.take WalEntryHeader.SIZE)
    let body := bytes.drop WalEntryHeader.SIZE
    let len := header.length.toNat
    -- `buffer.resize(len, 0)` panics on more bytes than a `Vec` can hold
    if isizeMax < len then .error .capacityOverflow
    else if body.length < len then .error .payloadEof
    else
      let buffer := body.take len
      match header.validate crates buffer with
      | .error e => .error (.checksum e)
      | .ok () =>
        match crates.deserialize buffer with
        | none => .error .undecodable
        | some entry => .ok (entry, body.drop len)

def frame (crates : Crates) (e : WalEntry) : Bytes :=
  let encoded := crates.serialize e
  (WalEntryHeader.new crates encoded).toBytes ++ encoded

/-- A complete frame that passes every check of the reading loops, whoever wrote it. -/
structure ValidFrame (crates : Crates) (bytes : Bytes) (e : WalEntry) : Prop where
  header : WalEntryHeader.SIZE ≤ bytes.length
  length : bytes.length =
    WalEntryHeader.SIZE + (WalEntryHeader.fromBytes (bytes.take WalEntryHeader.SIZE)).length.toNat
  allocates : (WalEntryHeader.fromBytes (bytes.take WalEntryHeader.SIZE)).length.toNat ≤ isizeMax
  checksum : (WalEntryHeader.fromBytes (bytes.take WalEntryHeader.SIZE)).validate crates
    (bytes.drop WalEntryHeader.SIZE) = .ok ()
  decodes : crates.deserialize (bytes.drop WalEntryHeader.SIZE) = some e

variable {crates : Crates}

theorem validFrame_take {bytes : Bytes} {e : WalEntry} {len : Nat}
    (size : WalEntryHeader.SIZE ≤ bytes.length)
    (announced : (WalEntryHeader.fromBytes (bytes.take WalEntryHeader.SIZE)).length.toNat = len)
    (small : len ≤ isizeMax) (whole : len ≤ (bytes.drop WalEntryHeader.SIZE).length)
    (valid : (WalEntryHeader.fromBytes (bytes.take WalEntryHeader.SIZE)).validate crates
      ((bytes.drop WalEntryHeader.SIZE).take len) = .ok ())
    (decoded : crates.deserialize ((bytes.drop WalEntryHeader.SIZE).take len) = some e) :
    ValidFrame crates (bytes.take (WalEntryHeader.SIZE + len)) e := by
  have head : (bytes.take (WalEntryHeader.SIZE + len)).take WalEntryHeader.SIZE =
      bytes.take WalEntryHeader.SIZE := by
    rw [List.take_take, Nat.min_eq_left (Nat.le_add_right _ _)]
  have body : (bytes.take (WalEntryHeader.SIZE + len)).drop WalEntryHeader.SIZE =
      (bytes.drop WalEntryHeader.SIZE).take len := by
    rw [List.drop_take, Nat.add_sub_cancel_left]
  rw [List.length_drop] at whole
  have within : WalEntryHeader.SIZE + len ≤ bytes.length := by omega
  refine ⟨?_, ?_, ?_, ?_, ?_⟩
  · rw [List.length_take]
    exact Nat.le_min.mpr ⟨Nat.le_add_right _ _, size⟩
  · rw [head, announced, List.length_take, Nat.min_eq_left within]
  · rw [head, announced]
    exact small
  · rw [head, body]
    exact valid
  · rw [body]
    exact decoded

theorem readFrame_ok {bytes rest : Bytes} {e : WalEntry}
    (h : readFrame crates bytes = .ok (e, rest)) :
    ∃ front, bytes = front ++ rest ∧ ValidFrame crates front e := by
  unfold readFrame at h
  split at h
  · contradiction
  · rename_i long
    dsimp only at h
    split at h
    · contradiction
    · rename_i small
      split at h
      · contradiction
      · rename_i whole
        split at h
        · contradiction
        · rename_i valid
          split at h
          · contradiction
          · rename_i entry decoded
            cases Except.ok.inj h
            refine ⟨_, ?_, validFrame_take (Nat.le_of_not_lt long) rfl (Nat.le_of_not_lt small)
              (Nat.le_of_not_lt whole)
              valid decoded⟩
            rw [List.drop_drop, List.take_append_drop]

theorem readFrame_shrinks (bytes : Bytes) (e : WalEntry) (rest : Bytes)
    (h : readFrame crates bytes = .ok (e, rest)) : rest.length < bytes.length := by
  obtain ⟨front, rfl, valid⟩ := readFrame_ok h
  have size : 13 ≤ front.length := valid.header
  rw [List.length_append]
  omega

def walReader (crates : Crates) : Reader UInt8 WalEntry ReadExit :=
  ⟨readFrame crates, readFrame_shrinks⟩

/-- The entries the reading loop yields, why it stops and the bytes it stops at. -/
def readLog (crates : Crates) (bytes : Bytes) : Reading UInt8 WalEntry ReadExit :=
  (walReader crates).run bytes

theorem ValidFrame.reads {bytes : Bytes} {e : WalEntry} (h : ValidFrame crates bytes e) :
    (walReader crates).Frame bytes e := by
  intro rest
  have size := h.header
  have head : (bytes ++ rest).take WalEntryHeader.SIZE = bytes.take WalEntryHeader.SIZE :=
    List.take_append_of_le_length size
  have body : (bytes ++ rest).drop WalEntryHeader.SIZE = bytes.drop WalEntryHeader.SIZE ++ rest :=
    List.drop_append_of_le_length size
  have len : (bytes.drop WalEntryHeader.SIZE).length =
      (WalEntryHeader.fromBytes (bytes.take WalEntryHeader.SIZE)).length.toNat := by
    have total := h.length
    rw [List.length_drop]
    omega
  have long : ¬ (bytes ++ rest).length < WalEntryHeader.SIZE := by
    rw [List.length_append]
    omega
  have small := Nat.not_lt_of_le h.allocates
  have whole : ¬ (bytes.drop WalEntryHeader.SIZE ++ rest).length <
      (bytes.drop WalEntryHeader.SIZE).length := by
    rw [List.length_append]
    omega
  change readFrame crates (bytes ++ rest) = _
  unfold readFrame
  simp only [head, body, ← len] at small ⊢
  rw [if_neg long, if_neg small, if_neg whole, List.take_left, h.checksum]
  simp only [h.decodes, List.drop_left]

theorem readFrame_ok_iff {bytes rest : Bytes} {e : WalEntry} :
    readFrame crates bytes = .ok (e, rest) ↔ ∃ front, bytes = front ++ rest ∧
      ValidFrame crates front e := by
  constructor
  · exact readFrame_ok
  · rintro ⟨front, rfl, valid⟩
    exact valid.reads rest

section Written

variable {e : WalEntry} (fits : crates.Fits e)
include fits

theorem header_length : (WalEntryHeader.new crates (crates.serialize e)).length.toNat =
    (crates.serialize e).length := by
  have small : isizeMax < 2 ^ 64 := by decide
  unfold Crates.Fits at fits
  rw [WalEntryHeader.new, UInt64.toNat_ofNat', Nat.mod_eq_of_lt (by omega)]

theorem frame_valid : ValidFrame crates (frame crates e) e := by
  have head : (frame crates e).take WalEntryHeader.SIZE =
      (WalEntryHeader.new crates (crates.serialize e)).toBytes :=
    List.take_left' (WalEntryHeader.toBytes_length _)
  have body : (frame crates e).drop WalEntryHeader.SIZE = crates.serialize e :=
    List.drop_left' (WalEntryHeader.toBytes_length _)
  have len : (frame crates e).length = WalEntryHeader.SIZE + (crates.serialize e).length := by
    rw [frame, List.length_append, WalEntryHeader.toBytes_length]
  constructor
  · omega
  · rw [head, WalEntryHeader.fromBytes_toBytes, header_length fits, len]
  · rw [head, WalEntryHeader.fromBytes_toBytes, header_length fits]
    exact fits
  · rw [head, body, WalEntryHeader.fromBytes_toBytes]
    exact WalEntryHeader.new_validates _ _
  · rw [body]
    exact crates.deserialize_serialize e fits

theorem frame_reads : (walReader crates).Frame (frame crates e) e := (frame_valid fits).reads

omit fits

theorem ValidFrame.torn_exit {bytes : Bytes} (h : ValidFrame crates bytes e) {k : Nat}
    (cut : k < bytes.length) :
    readFrame crates (bytes.take k) = .error (if k < WalEntryHeader.SIZE then .headerEof
      else .payloadEof) := by
  have total := h.length
  unfold readFrame
  by_cases short : k < WalEntryHeader.SIZE
  · rw [if_pos (by rw [List.length_take]; omega), if_pos short]
  · have head : (bytes.take k).take WalEntryHeader.SIZE = bytes.take WalEntryHeader.SIZE := by
      rw [List.take_take, Nat.min_eq_left (by omega)]
    have small := Nat.not_lt_of_le h.allocates
    simp only [head]
    rw [if_neg (by rw [List.length_take]; omega), if_neg small,
      if_pos (by rw [List.length_drop, List.length_take]; omega), if_neg short]

theorem ValidFrame.torn {bytes : Bytes} (h : ValidFrame crates bytes e) {k : Nat}
    (cut : k < bytes.length) :
    readFrame crates (bytes.take k) = .error .headerEof ∨
      readFrame crates (bytes.take k) = .error .payloadEof := by
  rw [h.torn_exit cut]
  by_cases short : k < WalEntryHeader.SIZE <;> simp [short]

end Written

theorem readFrame_headerEof_iff {bytes : Bytes} :
    readFrame crates bytes = .error .headerEof ↔ bytes.length < WalEntryHeader.SIZE := by
  constructor
  · intro stop
    by_contra long
    unfold readFrame at stop
    rw [if_neg long] at stop
    dsimp only at stop
    split at stop
    · cases stop
    · split at stop
      · cases stop
      · split at stop
        · cases stop
        · split at stop <;> cases stop
  · intro short
    unfold readFrame
    rw [if_pos short]

theorem readFrame_nil (crates : Crates) : readFrame crates [] = .error .headerEof :=
  readFrame_headerEof_iff.mpr (by decide)

theorem readLog_nil (crates : Crates) : readLog crates [] = ⟨[], .headerEof, []⟩ :=
  (walReader crates).run_error (readFrame_nil crates)

theorem readLog_stop {bytes : Bytes} {exit : ReadExit} (h : readFrame crates bytes = .error exit) :
    readLog crates bytes = ⟨[], exit, bytes⟩ := (walReader crates).run_error h

inductive ValidLog (crates : Crates) : Bytes → List WalEntry → Prop where
  | nil : ValidLog crates [] []
  | cons {bytes rest : Bytes} {e : WalEntry} {es : List WalEntry} (head : ValidFrame crates bytes e)
      (tail : ValidLog crates rest es) : ValidLog crates (bytes ++ rest) (e :: es)

theorem ValidLog.frames {bytes : Bytes} {es : List WalEntry} (h : ValidLog crates bytes es) :
    (walReader crates).Frames bytes es := by
  induction h with
  | nil => exact .nil
  | cons head _ ih => exact .cons head.reads ih

theorem ValidLog.append {bytes more : Bytes} {es fs : List WalEntry} (h : ValidLog crates bytes es)
    (h' : ValidLog crates more fs) : ValidLog crates (bytes ++ more) (es ++ fs) := by
  induction h with
  | nil => exact h'
  | cons head _ ih => rw [List.append_assoc]; exact .cons head ih

theorem ValidLog.of_entries {es : List WalEntry} (fits : ∀ e ∈ es, crates.Fits e) :
    ValidLog crates (es.flatMap (frame crates)) es := by
  induction es with
  | nil => exact .nil
  | cons e es ih =>
    exact .cons (frame_valid (fits e List.mem_cons_self)) (ih
      fun f hf => fits f (List.mem_cons_of_mem _ hf))

theorem ValidLog.read {bytes : Bytes} {es : List WalEntry} (h : ValidLog crates bytes es)
    (rest : Bytes) : readLog crates (bytes ++ rest) =
      ⟨es ++ (readLog crates rest).items, (readLog crates rest).exit, (readLog crates rest).rest⟩ :=
  h.frames.run rest

theorem ValidLog.read_all {bytes : Bytes} {es : List WalEntry} (h : ValidLog crates bytes es) :
    readLog crates bytes = ⟨es, .headerEof, []⟩ := by
  have all := h.read []
  rw [List.append_nil, readLog_nil, List.append_nil] at all
  exact all

theorem ValidLog.read_short {bytes rest : Bytes} {es : List WalEntry} (h : ValidLog crates bytes es)
    (short : rest.length < WalEntryHeader.SIZE) :
    readLog crates (bytes ++ rest) = ⟨es, .headerEof, rest⟩ := by
  rw [h.read, readLog_stop (readFrame_headerEof_iff.mpr short), List.append_nil]

theorem ValidLog.read_torn {bytes tail unwritten : Bytes} {es : List WalEntry} {e : WalEntry}
    (h : ValidLog crates bytes es)
    (valid : ValidFrame crates (tail ++ unwritten) e) (cut : unwritten ≠ []) :
    readLog crates (bytes ++ tail) =
      ⟨es, if tail.length < WalEntryHeader.SIZE then .headerEof else .payloadEof, tail⟩ := by
  have shorter : tail.length < (tail ++ unwritten).length := by
    rw [List.length_append]
    exact Nat.lt_add_of_pos_right (List.length_pos_iff.mpr cut)
  have stop := valid.torn_exit shorter
  rw [List.take_left] at stop
  rw [h.read, readLog_stop stop, List.append_nil]

theorem readLog_take {es : List WalEntry} (fits : ∀ e ∈ es, crates.Fits e) (c : Nat) :
    (readLog crates ((es.flatMap (frame crates)).take c)).items = wholeWithin (frame crates) es c ∧
      ((readLog crates ((es.flatMap (frame crates)).take c)).exit = .headerEof ∨
        (readLog crates ((es.flatMap (frame crates)).take c)).exit = .payloadEof) := by
  apply Reader.run_take (R := walReader crates) (frame crates) fun e =>
    e = .headerEof ∨ e = .payloadEof
  · exact fun e he => frame_reads (fits e he)
  · intro e he k hk
    rcases (frame_valid (fits e he)).torn hk with h | h
    · exact ⟨_, .inl rfl, h⟩
    · exact ⟨_, .inr rfl, h⟩
  · exact ⟨_, .inl rfl, readFrame_nil crates⟩

theorem readLog_take_readable {es : List WalEntry} (fits : ∀ e ∈ es, crates.Fits e) (c : Nat) :
    (readLog crates ((es.flatMap (frame crates)).take c)).exit ≠ .capacityOverflow := by
  rcases (readLog_take fits c).2 with h | h <;> rw [h] <;> decide

/-- The loop stops because the length it reads exceeds what a `Vec` can hold. -/
def Oversized (bytes : Bytes) : Prop :=
  WalEntryHeader.SIZE ≤ bytes.length ∧
    isizeMax < (WalEntryHeader.fromBytes (bytes.take WalEntryHeader.SIZE)).length.toNat

theorem readFrame_overflow_iff {bytes : Bytes} : readFrame crates bytes = .error .capacityOverflow ↔
    Oversized bytes := by
  unfold readFrame Oversized
  split
  · rename_i short
    simp [short]
  · rename_i long
    have long := Nat.le_of_not_lt long
    dsimp only
    split
    · rename_i large
      simp [long, large]
    · rename_i small
      have exits : ∀ {α : Type} {a : Except ReadExit α}, a ≠ .error .capacityOverflow →
          (a = .error .capacityOverflow ↔ WalEntryHeader.SIZE ≤ bytes.length ∧
            isizeMax < (WalEntryHeader.fromBytes (bytes.take WalEntryHeader.SIZE)).length.toNat) :=
        fun h => ⟨fun h' => absurd h' h, fun h' => absurd h'.2 small⟩
      apply exits
      split
      · simp
      · split
        · simp
        · split <;> simp

/-- The bytes begin with the whole valid frames of `es`, and at `rest` no further one begins. -/
structure FrontFrames (crates : Crates) (bytes : Bytes) (es : List WalEntry) (rest : Bytes) :
    Prop where
  front : ∃ front, bytes = front ++ rest ∧ ValidLog crates front es
  stops : ∀ next more e, rest = next ++ more → ¬ ValidFrame crates next e

theorem readLog_front (bytes : Bytes) :
    FrontFrames crates bytes (readLog crates bytes).items (readLog crates bytes).rest := by
  constructor
  · induction hn : bytes.length using Nat.strong_induction_on generalizing bytes with
    | _ n ih =>
      cases h : readFrame crates bytes with
      | error exit =>
        rw [readLog_stop h]
        exact ⟨[], rfl, .nil⟩
      | ok out =>
        obtain ⟨e, later⟩ := out
        obtain ⟨first, rfl, valid⟩ := readFrame_ok h
        obtain ⟨front, split, whole⟩ := ih later.length (hn ▸ readFrame_shrinks _ _ _ h) later rfl
        have read : readLog crates (first ++ later) = _ :=
          (walReader crates).run_ok (valid.reads later)
        rw [read]
        exact ⟨first ++ front, by rw [List.append_assoc]; exact congrArg (first ++ ·) split,
          .cons valid whole⟩
  · rintro next more e split valid
    have stop : readFrame crates (readLog crates bytes).rest = _ :=
      (walReader crates).run_stops bytes
    have goes : readFrame crates (next ++ more) = _ := valid.reads more
    rw [split, goes] at stop
    contradiction

theorem readLog_whole {bytes : Bytes} (readable : (readLog crates bytes).exit = .headerEof) :
    ∃ front rest, bytes = front ++ rest ∧ ValidLog crates front (readLog crates bytes).items ∧
      rest.length < WalEntryHeader.SIZE := by
  have begins : FrontFrames crates bytes _ _ := readLog_front bytes
  obtain ⟨front, split, whole⟩ := begins.front
  have stop : readFrame crates (readLog crates bytes).rest = _ := (walReader crates).run_stops bytes
  exact ⟨front, _, split, whole, readFrame_headerEof_iff.mp (stop.trans (congrArg _ readable))⟩

theorem ValidLog.frontFrames {bytes : Bytes} {es : List WalEntry} (h : ValidLog crates bytes es) :
    FrontFrames crates bytes es [] := by
  have front : FrontFrames crates bytes _ _ := readLog_front bytes
  rwa [h.read_all] at front

theorem FrontFrames.read {bytes rest : Bytes} {es : List WalEntry}
    (h : FrontFrames crates bytes es rest) :
    ∃ exit, readFrame crates rest = .error exit ∧ readLog crates bytes = ⟨es, exit, rest⟩ := by
  obtain ⟨front, rfl, whole⟩ := h.front
  cases stop : readFrame crates rest with
  | error exit =>
    refine ⟨exit, rfl, ?_⟩
    rw [whole.read, readLog_stop stop, List.append_nil]
  | ok out =>
    obtain ⟨next, split, valid⟩ := readFrame_ok stop
    exact absurd valid (h.stops next out.2 out.1 split)

end AsyncWalDb
