import Mathlib.Data.List.Basic
import Mathlib.Tactic.Ring

/-! Self-delimiting frames in a byte string. A reader takes one frame off the front or
stops with a reason; reading on until it stops yields the items, the reason and what is
left. Fixed-width little-endian numbers are the fields such frames are made of. -/
namespace Framing

section LittleEndian

def leBytes : Nat → Nat → List UInt8
  | 0, _ => []
  | w + 1, x => UInt8.ofNat (x % 256) :: leBytes w (x / 256)

def leValue : List UInt8 → Nat
  | [] => 0
  | b :: bs => b.toNat + 256 * leValue bs

@[simp] theorem leBytes_length (w x : Nat) : (leBytes w x).length = w := by
  induction w generalizing x with
  | zero => rfl
  | succ w ih => simp [leBytes, ih]

theorem leValue_lt (bs : List UInt8) : leValue bs < 256 ^ bs.length := by
  induction bs with
  | nil => simp [leValue]
  | cons b bs ih =>
    have digit := b.toNat_lt
    rw [leValue, List.length_cons, Nat.pow_succ]
    omega

theorem leValue_leBytes (w x : Nat) : leValue (leBytes w x) = x % 256 ^ w := by
  induction w generalizing x with
  | zero => simp [leBytes, leValue, Nat.mod_one]
  | succ w ih =>
    have digit : (UInt8.ofNat (x % 256)).toNat = x % 256 := by
      rw [UInt8.toNat_ofNat']
      omega
    rw [leBytes, leValue, ih, digit, Nat.pow_succ, Nat.mul_comm (256 ^ w), Nat.mod_mul]

theorem leBytes_leValue (bs : List UInt8) : leBytes bs.length (leValue bs) = bs := by
  induction bs with
  | nil => rfl
  | cons b bs ih =>
    have digit := b.toNat_lt
    have low : (b.toNat + 256 * leValue bs) % 256 = b.toNat := by omega
    have high : (b.toNat + 256 * leValue bs) / 256 = leValue bs := by omega
    simp only [List.length_cons, leValue, leBytes, low, high, ih, UInt8.ofNat_toNat]

end LittleEndian

variable {α β ε : Type*}

/-- Reads one item off the front, or says why it stops. What it reads is never empty. -/
structure Reader (α β ε : Type*) where
  next : List α → Except ε (β × List α)
  shrinks : ∀ s b r, next s = .ok (b, r) → r.length < s.length

structure Reading (α β ε : Type*) where
  items : List β
  exit : ε
  rest : List α
  deriving DecidableEq

def Reader.run (R : Reader α β ε) (s : List α) : Reading α β ε :=
  match h : R.next s with
  | .error e => ⟨[], e, s⟩
  | .ok (b, r) =>
    have : r.length < s.length := R.shrinks s b r h
    let later := R.run r
    ⟨b :: later.items, later.exit, later.rest⟩
termination_by s.length

variable (R : Reader α β ε)

theorem Reader.run_error {s : List α} {e : ε} (h : R.next s = .error e) : R.run s = ⟨[], e, s⟩ := by
  rw [Reader.run]
  split
  · rename_i e' h'
    rw [h] at h'
    cases h'
    rfl
  · rename_i b r h'
    rw [h] at h'
    cases h'

theorem Reader.run_ok {s r : List α} {b : β} (h : R.next s = .ok (b, r)) :
    R.run s = ⟨b :: (R.run r).items, (R.run r).exit, (R.run r).rest⟩ := by
  rw [Reader.run]
  split
  · rename_i e h'
    rw [h] at h'
    cases h'
  · rename_i b' r' h'
    rw [h] at h'
    cases h'
    rfl

theorem Reader.run_stops (s : List α) : R.next (R.run s).rest = .error (R.run s).exit := by
  induction hn : s.length using Nat.strong_induction_on generalizing s with
  | _ n ih =>
    cases h : R.next s with
    | error e => rw [R.run_error h]; exact h
    | ok out =>
      obtain ⟨b, r⟩ := out
      rw [R.run_ok h]
      exact ih r.length (hn ▸ R.shrinks s b r h) r rfl

/-- A frame: in front of any bytes the reader takes exactly these and yields the item. -/
def Reader.Frame (bytes : List α) (item : β) : Prop :=
  ∀ rest, R.next (bytes ++ rest) = .ok (item, rest)

inductive Reader.Frames : List α → List β → Prop where
  | nil : Reader.Frames [] []
  | cons {bytes rest : List α} {item : β} {items : List β} (head : R.Frame bytes item)
      (tail : Reader.Frames rest items) : Reader.Frames (bytes ++ rest) (item :: items)

variable {R}

theorem Reader.Frames.run {s : List α} {items : List β} (h : R.Frames s items) (rest : List α) :
    R.run (s ++ rest) = ⟨items ++ (R.run rest).items, (R.run rest).exit, (R.run rest).rest⟩ := by
  induction h with
  | nil => rfl
  | cons head _ ih => rw [List.append_assoc, R.run_ok (head _), ih]; rfl

section Guarded

/-- The reader that may be turned away before it takes a frame; it then gives no reason. -/
def Reader.guarded (R : Reader α β ε) (refused : List α → Bool) : Reader α β (Option ε) where
  next s := if refused s then .error none else (R.next s).mapError some
  shrinks s b r taken := by
    split at taken
    · cases taken
    · cases next : R.next s with
      | error e => rw [next] at taken; cases taken
      | ok out =>
        rw [next] at taken
        cases taken
        exact R.shrinks s b r next

variable {refused : List α → Bool}

theorem Reader.guarded_refused {s : List α} (turned : refused s = true) :
    (R.guarded refused).next s = .error none := if_pos turned

theorem Reader.guarded_next {s : List α} (admitted : refused s = false) :
    (R.guarded refused).next s = (R.next s).mapError some := by
  simp [Reader.guarded, admitted]

theorem Reader.run_guarded {s : List α} {e : ε}
    (admitted : ((R.guarded refused).run s).exit = some e) :
    (R.guarded refused).run s = ⟨(R.run s).items, some (R.run s).exit, (R.run s).rest⟩ := by
  induction hn : s.length using Nat.strong_induction_on generalizing s with
  | _ n ih =>
    cases turned : refused s with
    | true =>
      rw [Reader.run_error _ (guarded_refused turned)] at admitted
      cases admitted
    | false =>
      have same := guarded_next (R := R) turned
      cases next : R.next s with
      | error e' =>
        rw [next] at same
        rw [Reader.run_error _ same, R.run_error next]
      | ok out =>
        obtain ⟨b, r⟩ := out
        rw [next] at same
        rw [Reader.run_ok _ same] at admitted ⊢
        rw [ih r.length (hn ▸ R.shrinks s b r next) admitted rfl, R.run_ok next]

end Guarded

section Encoded

variable (encode : β → List α)

def wholeWithin : List β → Nat → List β
  | [], _ => []
  | b :: bs, c => if (encode b).length ≤ c then b :: wholeWithin bs (c - (encode b).length) else []

theorem wholeWithin_prefix (bs : List β) (c : Nat) : wholeWithin encode bs c <+: bs := by
  induction bs generalizing c with
  | nil => exact List.prefix_refl _
  | cons b bs ih =>
    simp only [wholeWithin]
    split
    · exact List.cons_prefix_cons.mpr ⟨rfl, ih _⟩
    · exact List.nil_prefix

theorem prefix_wholeWithin_iff (as bs : List β) (c : Nat) (h : as <+: bs) :
    as <+: wholeWithin encode bs c ↔ (as.flatMap encode).length ≤ c ∨ as = [] := by
  induction bs generalizing as c with
  | nil => simp [List.prefix_nil.mp h, wholeWithin]
  | cons b bs ih =>
    cases as with
    | nil => simp
    | cons a as =>
      obtain ⟨rfl, tail⟩ := List.cons_prefix_cons.mp h
      simp only [wholeWithin, List.flatMap_cons, List.length_append, reduceCtorEq, or_false]
      split
      · rename_i fits
        rw [List.cons_prefix_cons, ih as _ tail]
        constructor
        · rintro ⟨_, hl | rfl⟩
          · omega
          · simpa using fits
        · intro hl
          exact ⟨rfl, .inl (by omega)⟩
      · rename_i beyond
        simp only [List.prefix_nil, reduceCtorEq, false_iff]
        omega

theorem Reader.run_take {items : List β} (Torn : ε → Prop)
    (whole : ∀ b ∈ items, R.Frame (encode b) b)
    (torn : ∀ b ∈ items, ∀ k, k < (encode b).length → ∃ e, Torn e ∧
      R.next ((encode b).take k) = .error e)
    (stop : ∃ e, Torn e ∧ R.next [] = .error e) (c : Nat) :
    (R.run ((items.flatMap encode).take c)).items = wholeWithin encode items c ∧
      Torn (R.run ((items.flatMap encode).take c)).exit := by
  induction items generalizing c with
  | nil =>
    obtain ⟨e, ht, he⟩ := stop
    rw [List.flatMap_nil, List.take_nil, R.run_error he]
    exact ⟨rfl, ht⟩
  | cons b items ih =>
    rw [List.flatMap_cons, wholeWithin, List.take_append]
    split
    · rename_i fits
      have later := ih (fun c hc => whole c (List.mem_cons_of_mem _ hc))
        (fun c hc => torn c (List.mem_cons_of_mem _ hc)) (c - (encode b).length)
      rw [List.take_of_length_le fits, R.run_ok (whole b List.mem_cons_self _), later.1]
      exact ⟨rfl, later.2⟩
    · rename_i beyond
      have none_left : c - (encode b).length = 0 := by omega
      obtain ⟨e, ht, he⟩ := torn b List.mem_cons_self c (by omega)
      rw [none_left, List.take_zero, List.append_nil, R.run_error he]
      exact ⟨rfl, ht⟩

end Encoded

end Framing
