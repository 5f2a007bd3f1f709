import LocationPath.Binary64.Written
import LocationPath.Proofs.Printing.Digits
import LocationPath.Proofs.Printing.Rank

/-! # Written numbers

A number that is not negative is written in one of three ways: as infinity, in places, or with an
exponent. In places its text is digits with a point between them that are rounded to the number.

Main definitions: `Binary64.isInPlaces`, `Text.IsPlaces` and `Text.IsScientific`. Main result:
`Binary64.written_cases`. -/

namespace LocationPath

/-- Whether a number is written in places, neither as infinity nor with an exponent. -/
def Binary64.isInPlaces (number : Binary64) : Bool :=
  number.written != "inf".toList && !number.written.contains 'e'

/-- A number is written in places if its text is not that of infinity and shows no exponent. -/
theorem Binary64.isInPlaces_iff (number : Binary64) : number.isInPlaces = true ↔
    number.written ≠ "inf".toList ∧ 'e' ∉ number.written := by
  rw [isInPlaces, Bool.and_eq_true, bne_iff_ne, Bool.not_eq_true', List.contains_eq_mem,
    decide_eq_false_iff_not]

namespace Text

/-- A text is digits with a point between them that are rounded to a rank. -/
def IsPlaces (text : Text) (rank : Nat) : Prop :=
  ∃ c whole fraction, text = c :: (whole ++ '.' :: fraction) ∧ isDigit c = true ∧
    whole.all isDigit = true ∧ fraction.all isDigit = true ∧
      rankOfDecimal (numeral (c :: whole ++ fraction)) (-(fraction.length : Int)) = rank

/-- A text is one digit, or more with a point behind the first, and an exponent with a sign. -/
def IsScientific (text : Text) : Prop :=
  ∃ c mantissa sign exponent, text = c :: (mantissa ++ 'e' :: sign :: exponent) ∧
    isDigit c = true ∧ (mantissa = [] ∨ ∃ more, mantissa = '.' :: more ∧ more.all isDigit = true) ∧
      (sign = '+' ∨ sign = '-')

/-- Digits on both sides of a point are places of the rank that they are rounded to. -/
theorem isPlaces_append {whole fraction : Text} (ne : whole ≠ [])
    (whole_digits : whole.all isDigit = true) (fraction_digits : fraction.all isDigit = true) :
    IsPlaces (whole ++ '.' :: fraction)
      (rankOfDecimal (numeral (whole ++ fraction)) (-(fraction.length : Int))) := by
  obtain ⟨c, more, rfl⟩ := List.exists_cons_of_ne_nil ne
  rw [List.all_cons, Bool.and_eq_true] at whole_digits
  exact ⟨c, more, fraction, rfl, whole_digits.1, whole_digits.2, fraction_digits, rfl⟩

/-- What is written in places has no exponent and is not infinity. -/
theorem IsPlaces.no_exponent {text : Text} {rank : Nat} (h : text.IsPlaces rank) :
    text ≠ "inf".toList ∧ 'e' ∉ text := by
  rcases h with ⟨c, whole, fraction, rfl, first, whole_digits, fraction_digits, -⟩
  have no_digit : isDigit 'e' = false ∧ isDigit 'i' = false := by decide
  constructor
  · intro eq
    -- No digit is the first letter of infinity.
    have letter : c = 'i' := (List.cons.inj eq).1
    rw [letter, no_digit.2] at first
    contradiction
  · intro mem
    rw [List.mem_cons, List.mem_append, List.mem_cons] at mem
    rcases mem with rfl | mem | point | mem
    · rw [no_digit.1] at first
      contradiction
    · have digit := List.all_eq_true.1 whole_digits _ mem
      rw [no_digit.1] at digit
      contradiction
    · contradiction
    · have digit := List.all_eq_true.1 fraction_digits _ mem
      rw [no_digit.1] at digit
      contradiction

/-- What is written with an exponent shows it. -/
theorem IsScientific.mem {text : Text} (h : text.IsScientific) : 'e' ∈ text := by
  rcases h with ⟨c, mantissa, sign, exponent, rfl, -⟩
  apply List.mem_cons_of_mem
  apply List.mem_append_right
  exact List.mem_cons_self

end Text

namespace Binary64

/-! ## The two layouts -/

/-- Digits that all stand in front of the point have zeros behind them. -/
private theorem isPlaces_inPlaces_of_le {digits : Text} (all : digits.all isDigit = true) {e : Nat}
    (fits : digits.length ≤ e + 1) : (inPlaces digits (.ofNat e)).IsPlaces
      (rankOfDecimal digits.numeral (.ofNat e + 1 - digits.length)) := by
  obtain ⟨zeros, length⟩ := Nat.exists_eq_add_of_le fits
  have text_eq : inPlaces digits (.ofNat e) =
      digits ++ List.replicate zeros '0' ++ '.' :: ['0'] := by
    rw [inPlaces, List.take_of_length_le fits, List.drop_of_length_le fits, List.rightpad,
      length, Nat.add_sub_cancel_left]
    rfl
  have ne : digits ++ List.replicate zeros '0' ≠ [] := by
    rw [← List.length_pos_iff, List.length_append, List.length_replicate]
    omega
  have places := Text.isPlaces_append ne
    (by rw [List.all_append, all, Text.all_isDigit_zeros]; rfl) (show ['0'].all isDigit = true by rfl)
  -- The zeros multiply the digits, and the exponent makes up for it.
  have value : Text.numeral (digits ++ List.replicate zeros '0' ++ ['0']) =
      digits.numeral * Nat.pow 10 (zeros + 1) := by
    rw [List.append_assoc, ← List.replicate_succ', Text.numeral_append_zeros]
  rw [value, rankOfDecimal_mul_pow] at places
  rw [text_eq]
  convert places using 2
  show (e : Int) + 1 - digits.length = -1 + (zeros + 1 : Nat)
  omega

/-- Digits that do not all stand in front of the point are parted by it. -/
private theorem isPlaces_inPlaces_of_lt {digits : Text} (all : digits.all isDigit = true) {e : Nat}
    (lt : e + 1 < digits.length) : (inPlaces digits (.ofNat e)).IsPlaces
      (rankOfDecimal digits.numeral (.ofNat e + 1 - digits.length)) := by
  have text_eq : inPlaces digits (.ofNat e) =
      digits.take (e + 1) ++ '.' :: digits.drop (e + 1) := by
    have rest : (digits.drop (e + 1)).isEmpty = false := by
      rw [List.isEmpty_eq_false_iff, ← List.length_pos_iff, List.length_drop]
      omega
    have full : (digits.take (e + 1)).length = e + 1 := by
      rw [List.length_take]
      omega
    simp only [inPlaces, rest, List.rightpad, full, Nat.sub_self, List.replicate_zero,
      List.append_nil]
    rfl
  have ne : digits.take (e + 1) ≠ [] := by
    rw [← List.length_pos_iff, List.length_take]
    omega
  rw [← List.take_append_drop (e + 1) digits, List.all_append, Bool.and_eq_true] at all
  have places := Text.isPlaces_append ne all.1 all.2
  rw [List.take_append_drop, List.length_drop] at places
  rw [text_eq]
  convert places using 2
  show (e : Int) + 1 - digits.length = -(digits.length - (e + 1) : Nat)
  omega

/-- **Digits in places** are rounded to what they stand for with the given exponent of the first
one. -/
theorem isPlaces_inPlaces {digits : Text} (all : digits.all isDigit = true) (exponent : Int) :
    (inPlaces digits exponent).IsPlaces
      (rankOfDecimal digits.numeral (exponent + 1 - digits.length)) := by
  cases exponent with
  | ofNat e =>
    obtain lt | fits := Nat.lt_or_ge (e + 1) digits.length
    · exact isPlaces_inPlaces_of_lt all lt
    · exact isPlaces_inPlaces_of_le all fits
  | negSucc e =>
    -- Zeros stand between the point and the digits.
    have text_eq : inPlaces digits (.negSucc e) =
        ['0'] ++ '.' :: (List.replicate e '0' ++ digits) := rfl
    have places := @Text.isPlaces_append ['0'] (List.replicate e '0' ++ digits) (by simp) rfl
      (by rw [List.all_append, all, Text.all_isDigit_zeros]; rfl)
    have value : Text.numeral (['0'] ++ (List.replicate e '0' ++ digits)) = digits.numeral := by
      rw [← List.append_assoc, List.singleton_append, ← List.replicate_succ,
        Text.numeral_zeros_append]
    rw [value, List.length_append, List.length_replicate] at places
    rw [text_eq]
    convert places using 2
    rw [Int.negSucc_eq]
    omega

/-- Digits with an exponent are written so. -/
theorem isScientific_withExponent {digits : Text} (ne : digits ≠ []) (all : digits.all isDigit = true)
    (exponent : Int) : (withExponent digits exponent).IsScientific := by
  have sign : (if exponent < 0 then '-' else '+') = '+' ∨ (if exponent < 0 then '-' else '+') = '-' := by
    split
    · exact .inr rfl
    · exact .inl rfl
  obtain ⟨c, more, rfl⟩ := List.exists_cons_of_ne_nil ne
  rw [List.all_cons, Bool.and_eq_true] at all
  cases more with
  | nil => exact ⟨c, [], _, _, rfl, all.1, .inl rfl, sign⟩
  | cons d more => exact ⟨c, '.' :: d :: more, _, _, rfl, all.1, .inr ⟨_, rfl, all.2⟩, sign⟩

/-! ## Decimals and numbers -/

/-- A decimal is written in places, which are rounded to its rank, or with an exponent. -/
theorem writtenDecimal_cases (decimal : Decimal) :
    (writtenDecimal decimal).IsPlaces decimal.rank ∨ (writtenDecimal decimal).IsScientific := by
  rw [writtenDecimal]
  by_cases zero : decimal.digits = 0
  · have places := @isPlaces_inPlaces ['0'] rfl 0
    have digits : Text.numeral ['0'] = 0 := rfl
    rw [digits, rankOfDecimal_zero] at places
    rw [if_pos zero, Decimal.rank, zero, rankOfDecimal_zero]
    exact .inl places
  · rw [if_neg zero]
    dsimp only
    obtain ⟨zeros, split⟩ := Text.exists_dropTrailing '0' (Text.ofNat decimal.digits)
    generalize (Text.ofNat decimal.digits).dropTrailing '0' = digits at split
    -- The dropped zeros are made up for by the exponent.
    have value : decimal.digits = digits.numeral * Nat.pow 10 zeros := by
      rw [← Text.numeral_append_zeros, ← split, Text.numeral_ofNat]
    have ne : digits ≠ [] := by
      rintro rfl
      exact zero (value.trans (Nat.zero_mul _))
    have all : digits.all isDigit = true := by
      have all := Text.all_isDigit_ofNat decimal.digits
      rw [split, List.all_append, Bool.and_eq_true] at all
      exact all.1
    have length : (Text.ofNat decimal.digits).length = digits.length + zeros := by
      rw [split, List.length_append, List.length_replicate]
    have pos := List.length_pos_iff.2 ne
    rw [length]
    split
    · have places := isPlaces_inPlaces all (decimal.exponent + (digits.length + zeros - 1 : Nat))
      have moved : decimal.exponent + (digits.length + zeros - 1 : Nat) + 1 - digits.length =
          decimal.exponent + zeros := by omega
      rw [moved, ← rankOfDecimal_mul_pow, ← value] at places
      exact .inl places
    · exact .inr (isScientific_withExponent ne all _)

/-- **A number that is not negative is written as infinity, in places or with an exponent.** -/
theorem written_cases {number : Binary64} (positive : number.negative = false)
    (le : number.rank.val ≤ infinityRank) :
    number.written = "inf".toList ∨ number.written.IsPlaces number.rank ∨
      number.written.IsScientific := by
  have no_nan : number.isNaN = false := by simpa [isNaN] using le
  by_cases infinite : number.rank.val = infinityRank
  · have is_infinite : number.isInfinite = true := by simp [isInfinite, infinite]
    left
    rw [written, no_nan, is_infinite, positive, if_neg Bool.false_ne_true, if_pos rfl,
      if_neg Bool.false_ne_true, List.nil_append]
  · have finite : number.isInfinite = false := by simpa [isInfinite] using infinite
    have text_eq : number.written = writtenDecimal (Decimal.shortest number.rank) := by
      rw [written, no_nan, finite, positive, if_neg Bool.false_ne_true, if_neg Bool.false_ne_true,
        if_neg Bool.false_ne_true, List.nil_append]
    have cases := writtenDecimal_cases (Decimal.shortest number.rank)
    rw [Decimal.rank_shortest_of_lt (Nat.lt_of_le_of_ne le infinite)] at cases
    rw [text_eq]
    exact .inr cases

end Binary64

end LocationPath
