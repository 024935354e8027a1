import AsyncWalDb.Types

/-! The outside code on concrete inputs: bincode's default layout (little-endian, fixed width,
a 32-bit variant index, 64-bit lengths, trailing bytes allowed) and the reflected CRC-32.
General results take `Crates` as a parameter; this instance is what runs are evaluated with. -/
namespace AsyncWalDb.Bincode

open Framing

def word (x : UInt64) : Bytes := leBytes 8 x.toNat

def sized (bs : Bytes) : Bytes := leBytes 8 bs.length ++ bs

def utf8 (s : String) : Bytes := s.toByteArray.data.toList

def serialize : WalEntry → Bytes
  | .insert id ts key value => leBytes 4 0 ++ word id ++ word ts ++ sized (utf8 key) ++ sized value
  | .update id ts key old new =>
    leBytes 4 1 ++ word id ++ word ts ++ sized (utf8 key) ++ sized old ++ sized new
  | .delete id ts key old => leBytes 4 2 ++ word id ++ word ts ++ sized (utf8 key) ++ sized old
  | .commit id ts => leBytes 4 3 ++ word id ++ word ts
  | .abort id ts => leBytes 4 4 ++ word id ++ word ts

def takeBytes (n : Nat) (bs : Bytes) : Option (Bytes × Bytes) :=
  if bs.length < n then none else some (bs.take n, bs.drop n)

def takeNumber (w : Nat) (bs : Bytes) : Option (Nat × Bytes) :=
  (takeBytes w bs).map fun out => (leValue out.1, out.2)

def takeWord (bs : Bytes) : Option (UInt64 × Bytes) :=
  (takeNumber 8 bs).map fun out => (UInt64.ofNat out.1, out.2)

def takeSized (bs : Bytes) : Option (Bytes × Bytes) :=
  (takeNumber 8 bs).bind fun out => takeBytes out.1 out.2

def takeString (bs : Bytes) : Option (String × Bytes) :=
  (takeSized bs).bind fun out => (String.fromUTF8? ⟨⟨out.1⟩⟩).map fun s => (s, out.2)

def deserialize (bs : Bytes) : Option WalEntry := do
  let (variant, bs) ← takeNumber 4 bs
  let (id, bs) ← takeWord bs
  let (ts, bs) ← takeWord bs
  match variant with
  | 0 => do
    let (key, bs) ← takeString bs
    let (value, _) ← takeSized bs
    some (.insert id ts key value)
  | 1 => do
    let (key, bs) ← takeString bs
    let (old, bs) ← takeSized bs
    let (new, _) ← takeSized bs
    some (.update id ts key old new)
  | 2 => do
    let (key, bs) ← takeString bs
    let (old, _) ← takeSized bs
    some (.delete id ts key old)
  | 3 => some (.commit id ts)
  | 4 => some (.abort id ts)
  | _ => none

theorem takeBytes_append (bs rest : Bytes) :
    takeBytes bs.length (bs ++ rest) = some (bs, rest) := by
  simp [takeBytes]

theorem takeNumber_append (w x : Nat) (rest : Bytes) (fits : x < 256 ^ w) :
    takeNumber w (leBytes w x ++ rest) = some (x, rest) := by
  have h := takeBytes_append (leBytes w x) rest
  rw [leBytes_length] at h
  simp [takeNumber, h, leValue_leBytes, Nat.mod_eq_of_lt fits]

theorem takeWord_append (x : UInt64) (rest : Bytes) :
    takeWord (word x ++ rest) = some (x, rest) := by
  simp [takeWord, word, takeNumber_append 8 x.toNat rest x.toNat_lt]

theorem takeSized_append (bs rest : Bytes) (fits : bs.length < 256 ^ 8) :
    takeSized (sized bs ++ rest) = some (bs, rest) := by
  simp [takeSized, sized, takeNumber_append 8 bs.length (bs ++ rest) fits, takeBytes_append]

theorem takeString_append (s : String) (rest : Bytes) (fits : (utf8 s).length < 256 ^ 8) :
    takeString (sized (utf8 s) ++ rest) = some (s, rest) := by
  have back : String.fromUTF8? ⟨⟨utf8 s⟩⟩ = some s := dif_pos s.isValidUTF8
  simp [takeString, takeSized_append (utf8 s) rest fits, back]

theorem deserialize_serialize (e : WalEntry) (fits : (serialize e).length ≤ isizeMax) :
    deserialize (serialize e) = some e := by
  have small : isizeMax < 256 ^ 8 := by decide
  cases e with
  | insert id ts key value =>
    simp only [serialize, List.length_append, sized, leBytes_length] at fits
    have hk := takeString_append key (sized value) (by omega)
    have hv := takeSized_append value [] (by omega)
    rw [List.append_nil] at hv
    simp [deserialize, serialize, List.append_assoc, takeNumber_append, takeWord_append, hk, hv]
  | update id ts key old new =>
    simp only [serialize, List.length_append, sized, leBytes_length] at fits
    have hk := takeString_append key (sized old ++ sized new) (by omega)
    have ho := takeSized_append old (sized new) (by omega)
    have hn := takeSized_append new [] (by omega)
    rw [List.append_nil] at hn
    simp [deserialize, serialize, List.append_assoc, takeNumber_append, takeWord_append, hk, ho, hn]
  | delete id ts key old =>
    simp only [serialize, List.length_append, sized, leBytes_length] at fits
    have hk := takeString_append key (sized old) (by omega)
    have ho := takeSized_append old [] (by omega)
    rw [List.append_nil] at ho
    simp [deserialize, serialize, List.append_assoc, takeNumber_append, takeWord_append, hk, ho]
  | commit id ts =>
    have ht := takeWord_append ts []
    rw [List.append_nil] at ht
    simp [deserialize, serialize, List.append_assoc, takeNumber_append, takeWord_append, ht]
  | abort id ts =>
    have ht := takeWord_append ts []
    rw [List.append_nil] at ht
    simp [deserialize, serialize, List.append_assoc, takeNumber_append, takeWord_append, ht]

theorem takeBytes_some {n : Nat} {bs out rest : Bytes} (h : takeBytes n bs = some (out, rest)) :
    bs = out ++ rest ∧ out.length = n := by
  unfold takeBytes at h
  split at h
  · contradiction
  · rename_i enough
    cases h
    exact ⟨(List.take_append_drop n bs).symm, by rw [List.length_take]; omega⟩

theorem takeNumber_some {w x : Nat} {bs rest : Bytes} (h : takeNumber w bs = some (x, rest)) :
    bs = leBytes w x ++ rest ∧ x < 256 ^ w := by
  obtain ⟨⟨out, rest⟩, taken, same⟩ := Option.map_eq_some_iff.mp h
  cases same
  obtain ⟨rfl, rfl⟩ := takeBytes_some taken
  exact ⟨by rw [leBytes_leValue], leValue_lt out⟩

theorem takeWord_some {x : UInt64} {bs rest : Bytes} (h : takeWord bs = some (x, rest)) :
    bs = word x ++ rest := by
  obtain ⟨⟨n, rest⟩, taken, same⟩ := Option.map_eq_some_iff.mp h
  cases same
  obtain ⟨rfl, bound⟩ := takeNumber_some taken
  rw [word, UInt64.toNat_ofNat', Nat.mod_eq_of_lt (by omega)]

theorem takeSized_some {bs out rest : Bytes} (h : takeSized bs = some (out, rest)) :
    bs = sized out ++ rest := by
  obtain ⟨⟨n, later⟩, number, taken⟩ := Option.bind_eq_some_iff.mp h
  obtain ⟨rfl, _⟩ := takeNumber_some number
  obtain ⟨rfl, rfl⟩ := takeBytes_some taken
  rw [sized, List.append_assoc]

theorem takeString_some {s : String} {bs rest : Bytes} (h : takeString bs = some (s, rest)) :
    bs = sized (utf8 s) ++ rest := by
  obtain ⟨⟨out, later⟩, taken, decoded⟩ := Option.bind_eq_some_iff.mp h
  obtain ⟨s', valid, same⟩ := Option.map_eq_some_iff.mp decoded
  cases same
  have text : utf8 s = out := by
    unfold String.fromUTF8? at valid
    split at valid
    · cases valid
      rfl
    · contradiction
  rw [takeSized_some taken, text]

theorem deserialize_prefix {bs : Bytes} {e : WalEntry} (h : deserialize bs = some e) :
    ∃ trailing, bs = serialize e ++ trailing := by
  simp only [deserialize, Option.bind_eq_bind, Option.bind_eq_some_iff] at h
  obtain ⟨⟨variant, bs₁⟩, number, ⟨id, bs₂⟩, ids, ⟨ts, bs₃⟩, times, body⟩ := h
  dsimp only at ids times body
  obtain ⟨rfl, _⟩ := takeNumber_some number
  obtain rfl := takeWord_some ids
  obtain rfl := takeWord_some times
  split at body
  · obtain ⟨⟨key, bs₄⟩, keys, body⟩ := Option.bind_eq_some_iff.mp body
    obtain ⟨⟨value, trailing⟩, values, same⟩ := Option.bind_eq_some_iff.mp body
    dsimp only at values same
    cases same
    exact ⟨trailing, by rw [takeString_some keys, takeSized_some values]; simp [serialize,
      List.append_assoc]⟩
  · obtain ⟨⟨key, bs₄⟩, keys, body⟩ := Option.bind_eq_some_iff.mp body
    obtain ⟨⟨old, bs₅⟩, olds, body⟩ := Option.bind_eq_some_iff.mp body
    obtain ⟨⟨new, trailing⟩, news, same⟩ := Option.bind_eq_some_iff.mp body
    dsimp only at olds news same
    cases same
    exact ⟨trailing, by
      rw [takeString_some keys, takeSized_some olds, takeSized_some news]; simp [serialize,
        List.append_assoc]⟩
  · obtain ⟨⟨key, bs₄⟩, keys, body⟩ := Option.bind_eq_some_iff.mp body
    obtain ⟨⟨old, trailing⟩, olds, same⟩ := Option.bind_eq_some_iff.mp body
    dsimp only at olds same
    cases same
    exact ⟨trailing, by rw [takeString_some keys, takeSized_some olds]; simp [serialize,
      List.append_assoc]⟩
  · cases body
    exact ⟨bs₃, by simp [serialize, List.append_assoc]⟩
  · cases body
    exact ⟨bs₃, by simp [serialize, List.append_assoc]⟩
  · contradiction

def crcBits : Nat → UInt32 → UInt32
  | 0, x => x
  | n + 1, x => crcBits n ((x >>> 1) ^^^ (if x &&& 1 = 1 then 0xEDB88320 else 0))

def crc32 (data : Bytes) : UInt32 :=
  data.foldl (fun crc b => crcBits 8 (crc ^^^ b.toUInt32)) 0xFFFFFFFF ^^^ 0xFFFFFFFF

-- the check value every implementation of this CRC publishes, on the digits 1 to 9
example : crc32 [49, 50, 51, 52, 53, 54, 55, 56, 57] = 0xCBF43926 := by decide +kernel

/-- The crates as they are, in a build with or without overflow checks. -/
def crates (overflowChecks : Bool) : Crates where
  serialize := serialize
  deserialize := deserialize
  hash := crc32
  overflowChecks := overflowChecks
  deserialize_serialize := deserialize_serialize

end AsyncWalDb.Bincode
