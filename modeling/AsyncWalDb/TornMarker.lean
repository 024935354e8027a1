import AsyncWalDb.Checkpoint

/-! A crash while `set_checkpoint` replaces the marker. The file is truncated
in place and then written, so a crash leaves a front of the decimal text: the
empty one does not parse, the others are numbers of their own. -/
namespace AsyncWalDb

inductive CrashPoint where
  | unopened
  | written (k : Nat)

/-- The marker file when the crash comes at this point of `set_checkpoint`. -/
def CrashPoint.marker (id : UInt64) (ckpt : Option (List Char)) : CrashPoint → Option (List Char)
  | .unopened => ckpt
  | .written k => some ((decimal id).take k ++ ((openMarker ckpt).getD []).drop k)

def OldOrNew (old new : UInt64) (ckpt : Option (List Char)) : Prop :=
  getLastCheckpoint ckpt = .ok old ∨ getLastCheckpoint ckpt = .ok new

instance (old new : UInt64) (ckpt : Option (List Char)) : Decidable (OldOrNew old new ckpt) := by
  unfold OldOrNew
  infer_instance

/-- Where the old or the new number is read back: some digit is written, and either all of them are
or the number that lacks the others is the old one. -/
def CrashPoint.safe (old new : UInt64) : CrashPoint → Prop
  | .unopened => True
  | .written k => 0 < k ∧
    ((decimal new).length ≤ k ∨ new.toNat / 10 ^ ((decimal new).length - k) = old.toNat)

section Digits

theorem digit_value_lt {c : Char} (h : c.isDigit = true) : c.toNat - '0'.toNat < 10 := by
  have high := (Char.isDigit_iff_toNat.mp h).2
  have nine : '9'.toNat = 57 := rfl
  have zero : '0'.toNat = 48 := rfl
  omega

theorem ofDigitChars_lt {cs : List Char} (digits : ∀ c ∈ cs, c.isDigit = true) :
    Nat.ofDigitChars 10 cs 0 < 10 ^ cs.length := by
  induction cs with
  | nil => simp
  | cons c cs ih =>
    have head := digit_value_lt (digits c List.mem_cons_self)
    have tail := ih fun d hd => digits d (List.mem_cons_of_mem _ hd)
    rw [Nat.ofDigitChars_cons, Nat.ofDigitChars_eq_ofDigitChars_zero, List.length_cons,
      Nat.pow_succ]
    generalize c.toNat - '0'.toNat = d at head
    have most : 10 ^ cs.length * (10 * 0 + d) ≤ 10 ^ cs.length * 9 :=
      Nat.mul_le_mul_left _ (by omega)
    omega

theorem ofDigitChars_front (front : List Char) {back : List Char}
    (digits : ∀ c ∈ back, c.isDigit = true) :
    Nat.ofDigitChars 10 (front ++ back) 0 / 10 ^ back.length = Nat.ofDigitChars 10 front 0 := by
  have small := ofDigitChars_lt digits
  rw [Nat.ofDigitChars_append, Nat.ofDigitChars_eq_ofDigitChars_zero,
    Nat.mul_add_div (Nat.pow_pos (by decide)),
    Nat.div_eq_of_lt small, Nat.add_zero]

theorem ofDigitChars_take (id : UInt64) (k : Nat) :
    Nat.ofDigitChars 10 ((decimal id).take k) 0 = id.toNat / 10 ^ ((decimal id).length - k) := by
  have lacking : ∀ c ∈ (decimal id).drop k, c.isDigit = true :=
    fun c hc => decimal_isDigit id c (List.mem_of_mem_drop hc)
  have quotient := ofDigitChars_front ((decimal id).take k) lacking
  rw [List.take_append_drop, ofDigitChars_decimal, List.length_drop] at quotient
  exact quotient.symm

end Digits

section Torn

variable {crates : Crates} {old id : UInt64} {ckpt : Option (List Char)} {k : Nat}

theorem written_marker : (CrashPoint.written k).marker id ckpt = some ((decimal id).take k) := by
  simp [CrashPoint.marker, openMarker]

theorem marker_unwritten : getLastCheckpoint ((CrashPoint.written 0).marker id ckpt) =
    .error (.checkpoint "Invalid checkpoint TxID: cannot parse integer from empty string") := by
  rw [written_marker]
  rfl

theorem marker_torn (some_written : 0 < k) :
    getLastCheckpoint ((CrashPoint.written k).marker id ckpt) =
    .ok (UInt64.ofNat (id.toNat / 10 ^ ((decimal id).length - k))) := by
  have digits : ∀ c ∈ (decimal id).take k, c.isDigit = true := fun c hc =>
    decimal_isDigit id c (List.mem_of_mem_take hc)
  have nonempty : (decimal id).take k ≠ [] := by
    rw [Ne, List.take_eq_nil_iff]
    rintro (zero | empty)
    · omega
    · exact decimal_ne_nil id empty
  have value := ofDigitChars_take id k
  have small : id.toNat / 10 ^ ((decimal id).length - k) < 2 ^ 64 :=
    lt_of_le_of_lt (Nat.div_le_self _ _) id.toNat_lt
  rw [written_marker]
  simp only [getLastCheckpoint, trim_digits digits, parseU64_digits nonempty digits (value ▸ small),
    value]

theorem quotient_eq_iff (m : Nat) (n : UInt64) : UInt64.ofNat (id.toNat / 10 ^ m) = n ↔
    id.toNat / 10 ^ m = n.toNat := by
  have small : id.toNat / 10 ^ m < 2 ^ 64 := lt_of_le_of_lt (Nat.div_le_self _ _) id.toNat_lt
  rw [← UInt64.toNat_inj, UInt64.toNat_ofNat', Nat.mod_eq_of_lt small]

theorem quotient_self (some_written : 0 < k)
    (same : id.toNat / 10 ^ ((decimal id).length - k) = id.toNat) : (decimal id).length ≤ k := by
  by_contra lacking
  have lacking : 0 < (decimal id).length - k := by omega
  rcases Nat.eq_zero_or_pos id.toNat with zero | positive
  · have one_digit : (decimal id).length = 1 := by rw [decimal, zero]; rfl
    omega
  · have less :=
      Nat.div_lt_self positive (Nat.one_lt_pow (Nat.ne_of_gt lacking) (by decide : 1 < 10))
    omega

/-- After a crash at this point the old or the new number is read exactly at the safe points. -/
theorem marker_old_or_new_iff (marker : getLastCheckpoint ckpt = .ok old) (new : UInt64)
    (point : CrashPoint) : OldOrNew old new (point.marker new ckpt) ↔ point.safe old new := by
  cases point with
  | unopened => exact iff_of_true (.inl marker) trivial
  | written k =>
    rcases Nat.eq_zero_or_pos k with rfl | some_written
    · simp [OldOrNew, marker_unwritten, CrashPoint.safe]
    · simp only [OldOrNew, marker_torn some_written, Except.ok.injEq, quotient_eq_iff,
        CrashPoint.safe, some_written,
        true_and]
      constructor
      · rintro (older | whole)
        · exact .inr older
        · exact .inl (quotient_self some_written whole)
      · rintro (whole | older)
        · right
          rw [Nat.sub_eq_zero_of_le whole, Nat.pow_zero, Nat.div_one]
        · exact .inl older

/-- The marker goes from 8 to 12; one digit is written. -/
theorem torn_marker_third_number : ¬ ∀ (ckpt : Option (List Char)) (old new : UInt64)
    (point : CrashPoint),
    getLastCheckpoint ckpt = .ok old → OldOrNew old new (point.marker new ckpt) := by
  intro claim
  have read := claim (some ['8']) 8 12 (.written 1) (by decide +kernel)
  revert read
  decide +kernel

theorem marker_old_or_new_iff_next :
    OldOrNew 1 12 ((CrashPoint.written 1).marker 12 (some ['1'])) ↔
      (CrashPoint.written 1).safe 1 12 :=
  marker_old_or_new_iff (by decide +kernel) 12 (.written 1)

/-- The empty marker makes every later checkpoint fail, whatever the log holds. -/
theorem unwritten_marker_blocks (disk : Disk) (store : Store) (id : UInt64) :
    let crashed := { disk with ckpt := (CrashPoint.written 0).marker id disk.ckpt }
    checkpoint crates crashed store =
      (.err (.checkpoint "Invalid checkpoint TxID: cannot parse integer from empty string"),
        crashed, store) := by
  intro crashed
  simp only [checkpoint, crashed, marker_unwritten]

end Torn

end AsyncWalDb
