import LocationPath.Token.Lexer
import Mathlib.Data.List.Induction

/-! # Digits of natural numbers

The decimal digits of a natural number are read back as the number, and there are no more of them
than in any other way to write it.

Main results: `Text.numeral_ofNat` and `Text.length_ofNat_numeral_le`. -/

namespace LocationPath

/-! ## One digit -/

/-- The character of a digit counts as the digit. -/
theorem digitValue?_digitChar : ∀ n < 10, digitValue? n.digitChar = some n := by
  decide

/-- The character of a digit is a digit. -/
theorem isDigit_digitChar {n : Nat} (lt : n < 10) : isDigit n.digitChar = true := by
  rw [isDigit, digitValue?_digitChar n lt, Option.isSome_some]

/-- A character counts less than ten. -/
theorem digitValue?_getD_lt (c : Char) : (digitValue? c).getD 0 < 10 := by
  cases value : digitValue? c with
  | none => exact Nat.succ_pos 9
  | some n => exact digitValue?_lt value

namespace Text

/-! ## Runs of digits -/

/-- Digits in front of others count by the places of these. -/
theorem numeral_append (digits more : Text) :
    numeral (digits ++ more) = numeral digits * Nat.pow 10 more.length + numeral more := by
  induction more using List.reverseRecOn with
  | nil =>
    rw [List.append_nil]
    exact (Nat.mul_one _).symm
  | append_singleton more c ih =>
    have place : Nat.pow 10 (more.length + 1) = Nat.pow 10 more.length * 10 := rfl
    rw [← List.append_assoc, numeral_append_singleton, numeral_append_singleton, ih,
      List.length_append, List.length_singleton, place, Nat.mul_add, Nat.mul_left_comm,
      Nat.mul_comm 10 (Nat.pow 10 more.length), Nat.add_assoc]

/-- A number of some digits is less than the power of ten with as many zeros. -/
theorem numeral_lt (digits : Text) : numeral digits < Nat.pow 10 digits.length := by
  induction digits using List.reverseRecOn with
  | nil => exact Nat.succ_pos 0
  | append_singleton digits c ih =>
    have last := digitValue?_getD_lt c
    have place : Nat.pow 10 (digits.length + 1) = Nat.pow 10 digits.length * 10 := rfl
    rw [numeral_append_singleton, List.length_append, List.length_singleton, place]
    omega

/-- Zeros are the number zero. -/
theorem numeral_zeros (count : Nat) : numeral (List.replicate count '0') = 0 := by
  induction count with
  | zero => rfl
  | succ count ih =>
    rw [List.replicate_succ', numeral_append_singleton, ih]
    rfl

/-- Zeros in front of digits do not count. -/
theorem numeral_zeros_append (count : Nat) (digits : Text) :
    numeral (List.replicate count '0' ++ digits) = numeral digits := by
  rw [numeral_append, numeral_zeros, Nat.zero_mul, Nat.zero_add]

/-- Zeros behind digits are factors of ten. -/
theorem numeral_append_zeros (digits : Text) (count : Nat) :
    numeral (digits ++ List.replicate count '0') = numeral digits * Nat.pow 10 count := by
  rw [numeral_append, numeral_zeros, List.length_replicate, Nat.add_zero]

/-- Zeros are digits. -/
theorem all_isDigit_zeros (count : Nat) : (List.replicate count '0').all isDigit = true := by
  rw [List.all_replicate]
  cases count <;> rfl

/-- A text is what is left when the marks at its end are dropped, and these marks. -/
theorem exists_dropTrailing (mark : Char) (text : Text) :
    ∃ count, text = text.dropTrailing mark ++ List.replicate count mark := by
  -- Seen from the end, the dropped characters come first.
  have split := List.takeWhile_append_dropWhile (p := (· == mark)) (l := text.reverse)
  refine ⟨(text.reverse.takeWhile (· == mark)).length, ?_⟩
  have marks : text.reverse.takeWhile (· == mark) =
      List.replicate (text.reverse.takeWhile (· == mark)).length mark := by
    rw [List.eq_replicate_iff]
    exact ⟨rfl, fun c mem => beq_iff_eq.1 (List.all_eq_true.1 List.all_takeWhile c mem)⟩
  rw [marks] at split
  rw [← List.reverse_inj, dropTrailing, List.reverse_append, List.reverse_reverse,
    List.reverse_replicate, split]

/-! ## The digits of a number -/

/-- A number has digits. -/
theorem ofNat_ne_nil (n : Nat) : ofNat n ≠ [] := Nat.toDigits_ne_nil

/-- The last digit of a number counts what is left of it by ten. -/
theorem ofNat_of_ten_le {n : Nat} (le : 10 ≤ n) :
    ofNat n = ofNat (n / 10) ++ [(n % 10).digitChar] :=
  Nat.toDigits_of_base_le (by decide) le

/-- The digits of a number are digits. -/
theorem all_isDigit_ofNat (n : Nat) : (ofNat n).all isDigit = true := by
  induction n using Nat.strongRecOn with
  | ind n ih =>
    by_cases lt : n < 10
    · rw [ofNat, Nat.toDigits_of_lt_base lt, List.all_cons, isDigit_digitChar lt]
      rfl
    · rw [ofNat_of_ten_le (Nat.le_of_not_lt lt), List.all_append, ih (n / 10) (by omega),
        List.all_cons, isDigit_digitChar (Nat.mod_lt n (by decide))]
      rfl

/-- **The digits of a number are read back as the number.** -/
theorem numeral_ofNat (n : Nat) : numeral (ofNat n) = n := by
  induction n using Nat.strongRecOn with
  | ind n ih =>
    by_cases lt : n < 10
    · rw [ofNat, Nat.toDigits_of_lt_base lt]
      show 10 * 0 + (digitValue? n.digitChar).getD 0 = n
      rw [digitValue?_digitChar n lt, Option.getD_some, Nat.mul_zero, Nat.zero_add]
    · rw [ofNat_of_ten_le (Nat.le_of_not_lt lt), numeral_append_singleton, ih (n / 10) (by omega),
        digitValue?_digitChar _ (Nat.mod_lt n (by decide)), Option.getD_some]
      exact Nat.div_add_mod n 10

/-- **A number has no more digits than it may be written with.** -/
theorem length_ofNat_numeral_le {digits : Text} (ne : digits ≠ []) :
    (ofNat (numeral digits)).length ≤ digits.length := by
  rw [ofNat, Nat.length_toDigits_le_iff (by decide) (List.length_pos_iff.2 ne)]
  exact numeral_lt digits

end Text

end LocationPath
