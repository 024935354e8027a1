import AsyncWalDb.Lib.Framing
import AsyncWalDb.Lib.KeyedWrites
import Mathlib.Order.Defs.LinearOrder

/-! The shared types: entries, errors, recovery statistics and the frame header.
Keys are strings, values byte lists, and 64-bit numbers keep their width. -/
namespace AsyncWalDb

open Framing KeyedWrites

abbrev Bytes := List UInt8

/-- The in-memory `HashMap<String, Vec<u8>>`, as the finite map it stands for. -/
abbrev Store := String → Option Bytes

/-- `isize::MAX`, the most bytes a `Vec` can hold. -/
def isizeMax : Nat := 2 ^ 63 - 1

instance linearOrderUInt64 : LinearOrder UInt64 where
  le_refl _ := UInt64.le_refl _
  le_trans _ _ _ := UInt64.le_trans
  le_antisymm _ _ := UInt64.le_antisymm
  le_total _ _ := UInt64.le_total _ _
  lt_iff_le_not_ge a b := by
    simp only [UInt64.lt_iff_toNat_lt, UInt64.le_iff_toNat_le]
    omega
  toDecidableLE := inferInstance

inductive IoErrorKind where
  | unexpectedEof
  | other
  deriving DecidableEq, Repr

inductive WalError where
  | io (kind : IoErrorKind)
  | serialization
  | deserialization
  | openWal
  | validation (message : String)
  | noNewCheckpoints
  | checkpoint (message : String)
  | invalidState (message : String)
  | applyStore (message : String)
  | checksumMismatch (expected actual : UInt32)
  deriving DecidableEq, Repr

inductive WalEntry where
  | insert (txId timestamp : UInt64) (key : String) (value : Bytes)
  | update (txId timestamp : UInt64) (key : String) (oldValue newValue : Bytes)
  | delete (txId timestamp : UInt64) (key : String) (oldValue : Bytes)
  | commit (txId timestamp : UInt64)
  | abort (txId timestamp : UInt64)
  deriving DecidableEq, Repr

namespace WalEntry

def txId : WalEntry → UInt64
  | commit id _ | abort id _ | insert id _ _ _ | update id _ _ _ _ | delete id _ _ _ => id

def isCommit : WalEntry → Bool
  | commit _ _ => true
  | _ => false

/-- `matches!(e, Commit | Abort)`. -/
def isMarker : WalEntry → Bool
  | commit _ _ | abort _ _ => true
  | _ => false

/-- What replay does to the store: an insert or update puts, a delete removes. -/
def write? : WalEntry → Option (Write String Bytes)
  | insert _ _ key value => some ⟨key, some value⟩
  | update _ _ key _ newValue => some ⟨key, some newValue⟩
  | delete _ _ key _ => some ⟨key, none⟩
  | commit _ _ | abort _ _ => none

theorem isMarker_of_isCommit {e : WalEntry} (h : e.isCommit = true) : e.isMarker = true := by
  cases e <;> simp_all [isCommit, isMarker]

theorem write?_isSome (e : WalEntry) : e.write?.isSome = !e.isMarker := by
  cases e <;> rfl

end WalEntry

inductive RecoveryAction where
  | commit
  | rollback
  | incomplete
  deriving DecidableEq, Repr

structure RecoveryStats where
  totalTransactions : Nat := 0
  committed : Nat := 0
  aborted : Nat := 0
  incomplete : Nat := 0
  partialWrites : Nat := 0
  checksumFailures : Nat := 0
  deriving DecidableEq, Repr

/-- What the crate takes from outside: bincode with its default
options, `crc32fast::hash`, and whether the build checks integer
overflow. bincode gives back whatever fits the memory of a `Vec`. -/
structure Crates where
  serialize : WalEntry → Bytes
  deserialize : Bytes → Option WalEntry
  hash : Bytes → UInt32
  overflowChecks : Bool
  deserialize_serialize : ∀ e, (serialize e).length ≤ isizeMax → deserialize (serialize e) = some e

def Crates.Fits (crates : Crates) (e : WalEntry) : Prop := (crates.serialize e).length ≤ isizeMax

instance (crates : Crates) (e : WalEntry) : Decidable (crates.Fits e) := by
  unfold Crates.Fits
  infer_instance

structure WalEntryHeader where
  length : UInt64
  checksum : UInt32
  version : UInt8
  deriving DecidableEq, Repr

namespace WalEntryHeader

def VERSION : UInt8 := 1

def SIZE : Nat := 13

def new (crates : Crates) (data : Bytes) : WalEntryHeader :=
  ⟨UInt64.ofNat data.length, crates.hash data, VERSION⟩

def toBytes (h : WalEntryHeader) : Bytes :=
  leBytes 8 h.length.toNat ++ leBytes 4 h.checksum.toNat ++ [h.version]

def fromBytes (bytes : Bytes) : WalEntryHeader where
  length := UInt64.ofNat (leValue (bytes.take 8))
  checksum := UInt32.ofNat (leValue ((bytes.drop 8).take 4))
  version := (bytes.drop 12).headD 0

def validate (crates : Crates) (h : WalEntryHeader) (data : Bytes) : Except WalError Unit :=
  let actual := crates.hash data
  if actual ≠ h.checksum then .error (.checksumMismatch h.checksum actual) else .ok ()

@[simp] theorem toBytes_length (h : WalEntryHeader) : h.toBytes.length = SIZE := by
  simp [toBytes, SIZE]

theorem fromBytes_toBytes (h : WalEntryHeader) : fromBytes h.toBytes = h := by
  have len := UInt64.toNat_lt h.length
  have sum := UInt32.toNat_lt h.checksum
  have length : UInt64.ofNat (leValue (h.toBytes.take 8)) = h.length := by
    have first : h.toBytes.take 8 = leBytes 8 h.length.toNat := by
      rw [toBytes, List.append_assoc]
      exact List.take_left' (leBytes_length _ _)
    rw [first, leValue_leBytes, Nat.mod_eq_of_lt (by omega), UInt64.ofNat_toNat]
  have checksum : UInt32.ofNat (leValue ((h.toBytes.drop 8).take 4)) = h.checksum := by
    have second : (h.toBytes.drop 8).take 4 = leBytes 4 h.checksum.toNat := by
      rw [toBytes, List.append_assoc, List.drop_left' (leBytes_length _ _)]
      exact List.take_left' (leBytes_length _ _)
    rw [second, leValue_leBytes, Nat.mod_eq_of_lt (by omega), UInt32.ofNat_toNat]
  have version : (h.toBytes.drop 12).headD 0 = h.version := by
    have third : h.toBytes.drop 12 = [h.version] := by
      rw [toBytes]
      exact List.drop_left' (by simp)
    rw [third]
    rfl
  cases h
  simp only [fromBytes, length, checksum, version]

theorem toBytes_fromBytes {bytes : Bytes} (size : bytes.length = SIZE) :
    (fromBytes bytes).toBytes = bytes := by
  have size : bytes.length = 13 := size
  have length : leBytes 8 (fromBytes bytes).length.toNat = bytes.take 8 := by
    have digits : (bytes.take 8).length = 8 := by rw [List.length_take]; omega
    have bound := leValue_lt (bytes.take 8)
    have back := leBytes_leValue (bytes.take 8)
    rw [digits] at bound back
    rw [fromBytes, UInt64.toNat_ofNat', Nat.mod_eq_of_lt (by omega), back]
  have checksum : leBytes 4 (fromBytes bytes).checksum.toNat = (bytes.drop 8).take 4 := by
    have digits : ((bytes.drop 8).take 4).length = 4 := by
      rw [List.length_take, List.length_drop]; omega
    have bound := leValue_lt ((bytes.drop 8).take 4)
    have back := leBytes_leValue ((bytes.drop 8).take 4)
    rw [digits] at bound back
    rw [fromBytes, UInt32.toNat_ofNat', Nat.mod_eq_of_lt (by omega), back]
  have version : [(fromBytes bytes).version] = bytes.drop 12 := by
    have one : (bytes.drop 12).length = 1 := by rw [List.length_drop]; omega
    obtain ⟨v, hv⟩ := List.length_eq_one_iff.mp one
    rw [fromBytes, hv]
    rfl
  have last : (bytes.drop 8).drop 4 = bytes.drop 12 := List.drop_drop ..
  rw [toBytes, length, checksum, version, ← last, List.append_assoc, List.take_append_drop,
    List.take_append_drop]

theorem validate_ok_iff (crates : Crates) (h : WalEntryHeader) (data : Bytes) :
    h.validate crates data = .ok () ↔ crates.hash data = h.checksum := by
  by_cases same : crates.hash data = h.checksum <;> simp [validate, same]

theorem new_validates (crates : Crates) (data : Bytes) :
    (new crates data).validate crates data = .ok () :=
  (validate_ok_iff _ _ _).mpr rfl

end WalEntryHeader

end AsyncWalDb
