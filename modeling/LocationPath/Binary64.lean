/-! # Binary64 numbers

The numbers of the double precision format with 53 significant bits, as a sign and a **rank**. The
ranks below infinity's number the finite values that are not negative, from zero upward; the ranks
above it stand for no number. All arithmetic is exact: a finite value is a natural number of
**units** of `2 ^ (-1074)`, the least positive value.

Main definitions: `unitsOfRank` (the value of a rank), `rankOfRatio` (the rank nearest to a
quotient, where of two equally near ones the even one is taken) and `Binary64.ofDecimal`. -/

namespace LocationPath

/-- The number of ranks from one power of two to the next: `2 ^ 52`. -/
def ranksPerBinade : Nat := Nat.pow 2 52

/-- The number of units in the number one: `2 ^ 1074`. -/
def unitsPerOne : Nat := Nat.pow 2 1074

/-- The rank of infinity. -/
def infinityRank : Nat := 2047 * ranksPerBinade

/-- The number of all ranks. -/
def rankCount : Nat := 2048 * ranksPerBinade

/-- A number of the binary64 format. -/
structure Binary64 where
  /-- Whether the number has a minus sign; a zero may have one. -/
  negative : Bool
  /-- The place of the absolute value among all absolute values. -/
  rank : Fin rankCount
  deriving DecidableEq

/-- The quotient of two natural numbers, rounded to the nearest one, a half to the even neighbour.
-/
def roundHalfEven (num den : Nat) : Nat :=
  let below := num / den
  let rest := 2 * (num % den)
  if rest < den then below
  else if den < rest then below + 1
  -- Midway an odd number goes up to the even one.
  else below + below % 2

/-- A number of whole parts is not changed by rounding. -/
@[simp] theorem roundHalfEven_mul (count : Nat) {den : Nat} (h : 0 < den) :
    roundHalfEven (count * den) den = count := by
  simp [roundHalfEven, Nat.mul_div_cancel _ h, h]

/-- The value of a finite rank, in units. Up to `2 ^ 53` the ranks are the values; from there on the
distance between neighbours doubles with each power of two. -/
def unitsOfRank (rank : Nat) : Nat :=
  if rank < ranksPerBinade then rank
  else (ranksPerBinade + rank % ranksPerBinade) * Nat.pow 2 (rank / ranksPerBinade - 1)

/-- The rank nearest to the quotient `num / den`. With `shift` the number of bits that do not fit in
front of the last of 53, the quotient is rounded to a multiple of `2 ^ shift` units. -/
def rankOfRatio (num den : Nat) : Nat :=
  let units := num * unitsPerOne
  -- The subtraction stops at zero, so small quotients are rounded to whole units.
  let shift := (units / den).log2 - 52
  min infinityRank (shift * ranksPerBinade + roundHalfEven units (den * Nat.pow 2 shift))

/-- The rank nearest to `digits * 10 ^ exponent`. -/
def rankOfDecimal (digits : Nat) : (exponent : Int) → Nat
  | .ofNat e => rankOfRatio (digits * Nat.pow 10 e) 1
  | .negSucc e => rankOfRatio digits (Nat.pow 10 (e + 1))

/-- No quotient has a rank beyond infinity. -/
theorem rankOfRatio_le (num den : Nat) : rankOfRatio num den ≤ infinityRank := by
  unfold rankOfRatio
  exact Nat.min_le_left _ _

/-- No decimal has a rank beyond infinity. -/
theorem rankOfDecimal_le (digits : Nat) (exponent : Int) :
    rankOfDecimal digits exponent ≤ infinityRank := by
  cases exponent <;> exact rankOfRatio_le _ _

namespace Binary64

/-- Infinity with a sign. -/
def infinity (negative : Bool) : Binary64 := ⟨negative, ⟨infinityRank, by decide⟩⟩

/-- What stands for no number. -/
def nan : Binary64 := ⟨false, ⟨infinityRank + 1, by decide⟩⟩

/-- The number nearest to `digits * 10 ^ exponent`, with a sign. -/
def ofDecimal (negative : Bool) (digits : Nat) (exponent : Int) : Binary64 :=
  ⟨negative, ⟨rankOfDecimal digits exponent,
    Nat.lt_of_le_of_lt (rankOfDecimal_le digits exponent) (by decide)⟩⟩

/-- Whether the number is infinite. -/
def isInfinite (number : Binary64) : Bool := number.rank.val == infinityRank

/-- Whether what the value stands for is no number. -/
def isNaN (number : Binary64) : Bool := infinityRank < number.rank.val

end Binary64

end LocationPath
