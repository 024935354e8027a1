import AsyncWalDb.Bincode
import AsyncWalDb.Checkpoint
import AsyncWalDb.Lib.Crc

/-! Damage that the checksum cannot miss. Payload and checksum of a frame are
tied by CRC-32, so a frame whose payload is changed within 32 bits in a row, or
whose checksum is changed at all, stops both reading loops: recovery keeps what
lies before it and says so, and a checkpoint reports it and changes nothing. -/
namespace AsyncWalDb

open Framing

namespace Bincode

def bitsOf (data : Bytes) : List Bool := data.flatMap fun b => Crc.octet b.toBitVec

def polynomial : BitVec 32 := 0xEDB88320

theorem shift_toBitVec (x : UInt32) :
    ((x >>> 1) ^^^ (if x &&& 1 = 1 then 0xEDB88320 else 0)).toBitVec =
      Crc.shift polynomial x.toBitVec := by
  have low : (x &&& 1 = 1) ↔ x.toBitVec.getLsbD 0 = true := by
    rw [← UInt32.toBitVec_inj, UInt32.toBitVec_and]
    change x.toBitVec &&& 1#32 = 1#32 ↔ _
    rw [BitVec.and_one_eq_setWidth_ofBool_getLsbD]
    cases x.toBitVec.getLsbD 0 <;> decide
  rw [Crc.shift, UInt32.toBitVec_xor, UInt32.toBitVec_shiftRight]
  by_cases fell : x &&& 1 = 1
  · rw [if_pos fell, if_pos (low.mp fell)]
    rfl
  · rw [if_neg fell, if_neg (mt low.mpr fell)]
    rfl

theorem crcBits_toBitVec (n : Nat) (x : UInt32) :
    (crcBits n x).toBitVec = (Crc.shift polynomial)^[n] x.toBitVec := by
  induction n generalizing x with
  | zero => rfl
  | succ n ih => rw [crcBits, ih, shift_toBitVec, Function.iterate_succ_apply]

theorem crc_register (data : Bytes) (c : UInt32) :
    (data.foldl (fun crc b => crcBits 8 (crc ^^^ b.toUInt32)) c).toBitVec =
      Crc.register polynomial c.toBitVec (bitsOf data) := by
  induction data generalizing c with
  | nil => rfl
  | cons b data ih =>
    have split : bitsOf (b :: data) = Crc.octet b.toBitVec ++ bitsOf data := List.flatMap_cons
    rw [List.foldl_cons, ih, crcBits_toBitVec, UInt32.toBitVec_xor, UInt8.toBitVec_toUInt32,
      ← Crc.register_octet polynomial (by decide), split, Crc.register_append]

theorem crc32_ne_of_burst {data data' : Bytes} (burst : Crc.Burst 32 (bitsOf data) (bitsOf data')) :
    crc32 data ≠ crc32 data' := by
  intro same
  have top : polynomial.getLsbD (32 - 1) = true := by decide
  refine Crc.register_ne_of_burst top (UInt32.toBitVec 0xFFFFFFFF) burst ?_
  rw [← crc_register, ← crc_register]
  exact congrArg UInt32.toBitVec ((UInt32.xor_left_inj _).mp same)

end Bincode

/-- Damage to a frame: to at most 32 bits in a row of its payload, or to its checksum. -/
inductive Damaged (frame : Bytes) : Bytes → Prop where
  | payload {payload : Bytes}
    (burst : Crc.Burst 32 (Bincode.bitsOf (frame.drop WalEntryHeader.SIZE))
      (Bincode.bitsOf payload)) : Damaged frame (frame.take WalEntryHeader.SIZE ++ payload)
  | checksum {sum : Bytes} (size : sum.length = 4) (changed : sum ≠ (frame.drop 8).take 4) :
    Damaged frame (frame.take 8 ++ sum ++ frame.drop 12)

def Outcome.map {α β : Type} (f : α → β) : Outcome α → Outcome β
  | .ok a => .ok (f a)
  | .err e => .err e
  | .panicked => .panicked

section Detected

variable {crates : Crates} {frame frame' front : Bytes} {e : WalEntry} {es : List WalEntry}

theorem bitsOf_length (data : Bytes) : (Bincode.bitsOf data).length = 8 * data.length := by
  induction data with
  | nil => rfl
  | cons b data ih =>
    have split : Bincode.bitsOf (b :: data) = Crc.octet b.toBitVec ++ Bincode.bitsOf data :=
      List.flatMap_cons
    rw [split, List.length_append, Crc.octet_length, ih, List.length_cons]
    omega

theorem burst_length {data data' : Bytes}
    (burst : Crc.Burst 32 (Bincode.bitsOf data) (Bincode.bitsOf data')) :
    data'.length = data.length := by
  have one := bitsOf_length data
  have two := bitsOf_length data'
  obtain ⟨pre, x, y, post, same, same', length, _⟩ := burst
  rw [same] at one
  rw [same'] at two
  simp only [List.length_append] at one two
  omega

theorem readFrame_mismatch {head payload : Bytes} (size : head.length = WalEntryHeader.SIZE)
    (announced : (WalEntryHeader.fromBytes head).length.toNat = payload.length)
    (allocates : payload.length ≤ isizeMax)
    (differs : crates.hash payload ≠ (WalEntryHeader.fromBytes head).checksum) (rest : Bytes) :
    readFrame crates (head ++ payload ++ rest) =
      .error (.checksum (.checksumMismatch (WalEntryHeader.fromBytes head).checksum
        (crates.hash payload))) := by
  have front : (head ++ payload ++ rest).take WalEntryHeader.SIZE = head := by
    rw [List.append_assoc, List.take_left' size]
  have body : (head ++ payload ++ rest).drop WalEntryHeader.SIZE = payload ++ rest := by
    rw [List.append_assoc, List.drop_left' size]
  have long : ¬ (head ++ payload ++ rest).length < WalEntryHeader.SIZE := by
    simp only [List.length_append]
    omega
  have whole : ¬ (payload ++ rest).length < payload.length := by
    rw [List.length_append]
    omega
  unfold readFrame
  simp only [front, body, announced]
  rw [if_neg long, if_neg (Nat.not_lt_of_le allocates), if_neg whole, List.take_left]
  simp only [WalEntryHeader.validate, if_pos differs]

theorem changed_checksum {head sum : Bytes} (size : head.length = WalEntryHeader.SIZE)
    (four : sum.length = 4) (changed : sum ≠ (head.drop 8).take 4) :
    (head.take 8 ++ sum ++ head.drop 12).length = WalEntryHeader.SIZE ∧
      (WalEntryHeader.fromBytes (head.take 8 ++ sum ++ head.drop 12)).length =
        (WalEntryHeader.fromBytes head).length ∧
      (WalEntryHeader.fromBytes (head.take 8 ++ sum ++ head.drop 12)).checksum ≠
        (WalEntryHeader.fromBytes head).checksum := by
  have size : head.length = 13 := size
  have eight : (head.take 8).length = 8 := by rw [List.length_take]; omega
  have number : (head.take 8 ++ sum ++ head.drop 12).take 8 = head.take 8 := by
    rw [List.append_assoc, List.take_left' eight]
  have field : ((head.take 8 ++ sum ++ head.drop 12).drop 8).take 4 = sum := by
    rw [List.append_assoc, List.drop_left' eight, List.take_left' four]
  refine ⟨?_, ?_, fun same => changed ?_⟩
  · simp only [List.length_append, eight, four, List.length_drop, size]
    rfl
  · simp only [WalEntryHeader.fromBytes, number]
  · simp only [WalEntryHeader.fromBytes, field] at same
    have four' : ((head.drop 8).take 4).length = 4 := by
      rw [List.length_take, List.length_drop]; omega
    have small := leValue_lt sum
    have small' := leValue_lt ((head.drop 8).take 4)
    rw [four] at small
    rw [four'] at small'
    have values := congrArg UInt32.toNat same
    rw [UInt32.toNat_ofNat', UInt32.toNat_ofNat', Nat.mod_eq_of_lt (by omega),
      Nat.mod_eq_of_lt (by omega)] at values
    rw [← leBytes_leValue sum, ← leBytes_leValue ((head.drop 8).take 4), values, four, four']

theorem Damaged.refused (hashes : crates.hash = Bincode.crc32) (valid : ValidFrame crates frame e)
    (damaged : Damaged frame frame') (rest : Bytes) : ∃ expected actual, expected ≠ actual ∧
      readFrame crates (frame' ++ rest) =
        .error (.checksum (.checksumMismatch expected actual)) := by
  have size : (frame.take WalEntryHeader.SIZE).length = WalEntryHeader.SIZE := by
    rw [List.length_take, Nat.min_eq_left valid.header]
  have total := valid.length
  have announced : (WalEntryHeader.fromBytes (frame.take WalEntryHeader.SIZE)).length.toNat =
      (frame.drop WalEntryHeader.SIZE).length := by
    rw [List.length_drop]
    omega
  have allocates := valid.allocates
  have sum := (WalEntryHeader.validate_ok_iff _ _ _).mp valid.checksum
  cases damaged with
  | @payload payload burst =>
    have length := burst_length burst
    have differs : crates.hash payload ≠
        (WalEntryHeader.fromBytes (frame.take WalEntryHeader.SIZE)).checksum := by
      rw [← sum, hashes]
      exact (Bincode.crc32_ne_of_burst burst).symm
    exact ⟨_, _, differs.symm, readFrame_mismatch size (announced.trans length.symm)
      (by omega) differs rest⟩
  | @checksum sum' four changed =>
    have split : frame = frame.take WalEntryHeader.SIZE ++ frame.drop WalEntryHeader.SIZE :=
      (List.take_append_drop _ _).symm
    have field : (frame.drop 8).take 4 = ((frame.take WalEntryHeader.SIZE).drop 8).take 4 := by
      rw [List.drop_take, List.take_take]
      rfl
    obtain ⟨size', length, other⟩ := changed_checksum size four (field ▸ changed)
    have bytes : frame.take 8 ++ sum' ++ frame.drop 12 =
        (frame.take WalEntryHeader.SIZE).take 8 ++ sum' ++
          (frame.take WalEntryHeader.SIZE).drop 12 ++ frame.drop WalEntryHeader.SIZE := by
      have tail : frame.drop 12 =
          (frame.take WalEntryHeader.SIZE).drop 12 ++ frame.drop WalEntryHeader.SIZE := by
        conv_lhs => rw [split]
        rw [List.drop_append_of_le_length (by rw [size]; decide)]
      rw [tail, List.take_take]
      simp only [List.append_assoc]
      rfl
    have differs : crates.hash (frame.drop WalEntryHeader.SIZE) ≠ (WalEntryHeader.fromBytes
        ((frame.take WalEntryHeader.SIZE).take 8 ++ sum' ++ (frame.take WalEntryHeader.SIZE).drop
          12)).checksum := by
      rw [sum]
      exact other.symm
    rw [bytes]
    exact ⟨_, _, differs.symm, readFrame_mismatch size' (length ▸ announced)
      (by omega) differs rest⟩

end Detected

end AsyncWalDb
