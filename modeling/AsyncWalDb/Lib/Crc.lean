import Mathlib.Data.List.GetD
import Mathlib.Logic.Function.Iterate

/-! Cyclic redundancy checks as shift registers, one bit of the message at a
time, its low bits first. The register is linear in what is fed to it, and when
the top bit of the polynomial is set a shift loses nothing; so two messages that
differ within as many bits as the register holds leave different registers. -/
namespace Crc

variable {w : Nat} (poly : BitVec w)

/-- The bit that falls out at the low end feeds the polynomial back. -/
def shift (c : BitVec w) : BitVec w := (c >>> 1) ^^^ if c.getLsbD 0 then poly else 0

def bit (b : Bool) : BitVec w := (BitVec.ofBool b).setWidth w

def feed (c : BitVec w) (b : Bool) : BitVec w := shift poly (c ^^^ bit b)

def register (c : BitVec w) (bs : List Bool) : BitVec w := bs.foldl (feed poly) c

def word (bs : List Bool) : BitVec w := (BitVec.ofBoolListLE bs).setWidth w

/-- The messages are equal but for at most `n` bits in a row, and some of these differ. -/
def Burst (n : Nat) (bs cs : List Bool) : Prop :=
  ∃ pre x y post, bs = pre ++ x ++ post ∧ cs = pre ++ y ++ post ∧ x.length = y.length ∧
    x.length ≤ n ∧ x ≠ y

theorem getLsbD_bit (b : Bool) (i : Nat) :
    (bit b : BitVec w).getLsbD i = (decide (i < w) && (decide (i = 0) && b)) := by
  rw [bit, BitVec.getLsbD_setWidth, BitVec.getLsbD_ofBool]

theorem getLsbD_word (bs : List Bool) (i : Nat) :
    (word bs : BitVec w).getLsbD i = (decide (i < w) && bs.getD i false) := by
  rw [word, BitVec.getLsbD_setWidth, BitVec.getLsbD_ofBoolListLE]

theorem word_nil : (word [] : BitVec w) = 0#w := by
  apply BitVec.eq_of_getLsbD_eq
  intro i bound
  rw [getLsbD_word]
  simp

theorem word_cons (b : Bool) (bs : List Bool) :
    (word (b :: bs) : BitVec w) = bit b ^^^ (word bs <<< 1) := by
  apply BitVec.eq_of_getLsbD_eq
  intro i bound
  simp only [getLsbD_word, BitVec.getLsbD_xor, getLsbD_bit, BitVec.getLsbD_shiftLeft]
  cases i with
  | zero => simp [bound]
  | succ i =>
    have before : i < w := by omega
    simp [bound, before]

theorem word_injective {bs cs : List Bool} (same : bs.length = cs.length) (fits : bs.length ≤ w)
    (words : (word bs : BitVec w) = word cs) : bs = cs := by
  refine List.ext_getElem same fun i inside inside' => ?_
  have bits := congrArg (fun v => v.getLsbD i) words
  have bound : i < w := by omega
  simp only [getLsbD_word, bound, decide_true, Bool.true_and] at bits
  rwa [List.getD_eq_getElem _ _ inside, List.getD_eq_getElem _ _ inside'] at bits

theorem shift_xor (a b : BitVec w) : shift poly (a ^^^ b) = shift poly a ^^^ shift poly b := by
  apply BitVec.eq_of_getLsbD_eq
  intro i bound
  simp only [shift, BitVec.getLsbD_xor, BitVec.getLsbD_ushiftRight]
  cases a.getLsbD 0 <;> cases b.getLsbD 0 <;>
    simp <;> cases a.getLsbD (1 + i) <;> cases b.getLsbD (1 + i) <;> cases poly.getLsbD i <;> rfl

theorem shift_shiftLeft {c : BitVec w} (room : c.getLsbD (w - 1) = false) :
    shift poly (c <<< 1) = c := by
  apply BitVec.eq_of_getLsbD_eq
  intro i bound
  have low : (c <<< 1).getLsbD 0 = false := by simp
  rw [shift, low]
  simp only [Bool.false_eq_true, if_false, BitVec.getLsbD_xor, BitVec.getLsbD_ushiftRight,
    BitVec.getLsbD_shiftLeft]
  by_cases top : i + 1 < w
  · simp [Nat.add_comm 1 i, top]
  · have last : i = w - 1 := by omega
    have none_there : ¬ 1 + i < w := by omega
    subst last
    rw [decide_eq_false none_there, room]
    simp

theorem register_append (c : BitVec w) (bs cs : List Bool) :
    register poly c (bs ++ cs) = register poly (register poly c bs) cs := List.foldl_append

theorem register_word (c : BitVec w) {bs : List Bool} (fits : bs.length ≤ w) :
    register poly c bs = (shift poly)^[bs.length] (c ^^^ word bs) := by
  induction bs generalizing c with
  | nil => rw [word_nil, BitVec.xor_zero]; rfl
  | cons b bs ih =>
    rw [List.length_cons] at fits
    have room : (word bs : BitVec w).getLsbD (w - 1) = false := by
      rw [getLsbD_word, List.getD_eq_default _ _ (by omega), Bool.and_false]
    have later := ih (feed poly c b) (by omega)
    rw [register, List.foldl_cons, List.length_cons, Function.iterate_succ_apply, word_cons,
      ← BitVec.xor_assoc, shift_xor,
      shift_shiftLeft poly room]
    exact later

variable {poly}

section Detection

variable (top : poly.getLsbD (w - 1) = true)
include top

theorem shift_eq_zero {c : BitVec w} (h : shift poly c = 0) : c = 0 := by
  have wide : 0 < w := by
    rcases Nat.eq_zero_or_pos w with rfl | wide
    · simp at top
    · exact wide
  -- the top bit of the result is the low bit that fell out
  have low : c.getLsbD 0 = false := by
    have highest := congrArg (fun v => v.getLsbD (w - 1)) h
    have beyond : c.getLsbD (1 + (w - 1)) = false := BitVec.getLsbD_of_ge c _ (by omega)
    cases fell : c.getLsbD 0 with
    | false => rfl
    | true => simp [shift, fell, beyond, top] at highest
  apply BitVec.eq_of_getLsbD_eq
  intro i bound
  cases i with
  | zero => simpa using low
  | succ i =>
    have here := congrArg (fun v => v.getLsbD i) h
    simpa [shift, low, Nat.add_comm 1 i] using here

theorem shift_injective : Function.Injective (shift poly) := by
  intro a b same
  have difference : shift poly (a ^^^ b) = 0 := by rw [shift_xor, same, BitVec.xor_self]; rfl
  exact BitVec.xor_eq_zero_iff.mp (shift_eq_zero top difference)

theorem feed_injective (b : Bool) : Function.Injective fun c => feed poly c b := by
  intro c d same
  have words := shift_injective top same
  exact (BitVec.xor_left_inj _).mp words

theorem register_injective (bs : List Bool) : Function.Injective fun c => register poly c bs := by
  induction bs with
  | nil => exact fun c d same => same
  | cons b bs ih => exact fun c d same => feed_injective top b (ih same)

theorem register_ne_of_burst (c : BitVec w) {bs cs : List Bool} (burst : Burst w bs cs) :
    register poly c bs ≠ register poly c cs := by
  obtain ⟨pre, x, y, post, rfl, rfl, same, fits, differ⟩ := burst
  intro equal
  simp only [register_append] at equal
  have window := register_injective top post equal
  have left := register_word poly (register poly c pre) fits
  have right := register_word poly (register poly c pre) (same ▸ fits : y.length ≤ w)
  rw [left, right, ← same] at window
  have words := (BitVec.xor_right_inj _).mp ((shift_injective top).iterate _ window)
  exact differ (word_injective same fits words)

end Detection

section Octets

def octet (b : BitVec 8) : List Bool := List.ofFn fun i : Fin 8 => b.getLsbD i

@[simp] theorem octet_length (b : BitVec 8) : (octet b).length = 8 := List.length_ofFn

theorem word_octet (b : BitVec 8) : (word (octet b) : BitVec w) = b.setWidth w := by
  apply BitVec.eq_of_getLsbD_eq
  intro i bound
  rw [getLsbD_word, BitVec.getLsbD_setWidth]
  by_cases inside : i < 8
  · rw [List.getD_eq_getElem _ _ (by simpa using inside)]
    simp only [octet, List.getElem_ofFn]
  · rw [List.getD_eq_default _ _ (by simpa using inside), BitVec.getLsbD_of_ge b i (by omega)]

theorem register_octet (poly : BitVec w) (wide : 8 ≤ w) (c : BitVec w) (b : BitVec 8) :
    register poly c (octet b) = (shift poly)^[8] (c ^^^ b.setWidth w) := by
  rw [register_word poly c (by simpa using wide), octet_length, word_octet]

end Octets

end Crc
