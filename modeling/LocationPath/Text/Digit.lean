import LocationPath.Text

/-! # Decimal digits

The decimal digits of all scripts of Unicode (general category Nd). They come in runs of ten
neighbouring code points, zero first, so the table lists the zeros alone. -/

namespace LocationPath

/-- The code points of the zeros, one for each run of ten digits. -/
def zeroDigits : List Nat :=
  [0x30, 0x660, 0x6f0, 0x7c0, 0x966, 0x9e6, 0xa66, 0xae6, 0xb66, 0xbe6, 0xc66, 0xce6, 0xd66,
    0xde6, 0xe50, 0xed0, 0xf20, 0x1040, 0x1090, 0x17e0, 0x1810, 0x1946, 0x19d0, 0x1a80, 0x1a90,
    0x1b50, 0x1bb0, 0x1c40, 0x1c50, 0xa620, 0xa8d0, 0xa900, 0xa9d0, 0xa9f0, 0xaa50, 0xabf0,
    0xff10, 0x104a0, 0x10d30, 0x11066, 0x110f0, 0x11136, 0x111d0, 0x112f0, 0x11450, 0x114d0,
    0x11650, 0x116c0, 0x11730, 0x118e0, 0x11950, 0x11c50, 0x11d50, 0x11da0, 0x16a60, 0x16ac0,
    0x16b50, 0x1d7ce, 0x1d7d8, 0x1d7e2, 0x1d7ec, 0x1d7f6, 0x1e140, 0x1e2f0, 0x1e950, 0x1fbf0]

/-- What a character counts as a decimal digit, if it is one. -/
def digitValue? (c : Char) : Option Nat :=
  (zeroDigits.find? fun start => start ≤ c.toNat && c.toNat < start + 10).map (c.toNat - ·)

/-- Whether a character is a decimal digit. -/
def isDigit (c : Char) : Bool := (digitValue? c).isSome

/-- A digit counts less than ten. -/
theorem digitValue?_lt {c : Char} {value : Nat} (h : digitValue? c = some value) : value < 10 := by
  obtain ⟨start, found, rfl⟩ := Option.map_eq_some_iff.1 h
  have := List.find?_some found
  simp only [Bool.and_eq_true, decide_eq_true_eq] at this
  omega

namespace Text

/-- The number that a run of digits writes. A character that is no digit counts as zero. -/
def numeral (digits : Text) : Nat :=
  digits.foldl (fun number c => 10 * number + (digitValue? c).getD 0) 0

/-- A last digit multiplies the number of the digits before it by ten. -/
@[simp] theorem numeral_append_singleton (digits : Text) (c : Char) :
    numeral (digits ++ [c]) = 10 * numeral digits + (digitValue? c).getD 0 := by
  simp [numeral]

end Text

end LocationPath
