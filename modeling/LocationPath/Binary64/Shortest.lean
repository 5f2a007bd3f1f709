import LocationPath.Binary64
import LocationPath.Text

/-! # The shortest decimal of a binary64 number

Of all decimals that are rounded to a given binary64 number, the one with the fewest digits is its
short form, and of several with the same number of digits the nearest. For each count of digits only
the two neighbours of the value on the grid of that many digits have to be tried, because a grid
that hits the interval around the value hits it with one of them. -/

namespace LocationPath

/-- A decimal: the number `digits * 10 ^ exponent`. -/
structure Decimal where
  /-- The digits, read as a natural number. -/
  digits : Nat
  /-- The power of ten that the digits are multiplied by. -/
  exponent : Int
  deriving DecidableEq

namespace Decimal

/-- The rank of the binary64 number that a decimal is rounded to. -/
def rank (decimal : Decimal) : Nat := rankOfDecimal decimal.digits decimal.exponent

/-- The value of a finite rank, in full: a unit is `5 ^ 1074 * 10 ^ (-1074)`. -/
def ofRank (rank : Nat) : Decimal := ⟨unitsOfRank rank * Nat.pow 5 1074, -1074⟩

/-- The multiple of `10 ^ drop` at or below a decimal, without the dropped digits. -/
def floor (decimal : Decimal) (drop : Nat) : Decimal :=
  ⟨decimal.digits / Nat.pow 10 drop, decimal.exponent + drop⟩

/-- The next decimal with the same exponent. -/
def next (decimal : Decimal) : Decimal := ⟨decimal.digits + 1, decimal.exponent⟩

/-- Whether the floor is nearer to a decimal than the next point of the grid of `10 ^ drop`. Midway
the even neighbour counts as the nearer one. -/
def nearFloor (decimal : Decimal) (drop : Nat) : Bool :=
  let grid := Nat.pow 10 drop
  let rest := 2 * (decimal.digits % grid)
  rest < grid || rest == grid && decimal.digits / grid % 2 == 0

/-- The point of the grid of `10 ^ drop` next to a decimal that has the given rank, if there is one,
and the nearer one if both neighbours have it. -/
def onGrid? (decimal : Decimal) (rank drop : Nat) : Option Decimal :=
  let below := decimal.floor drop
  let above := below.next
  -- The nearer neighbour is tried first.
  let ordered := if decimal.nearFloor drop then [below, above] else [above, below]
  ordered.find? (·.rank == rank)

/-- A point found on a grid has the rank that was asked for. -/
theorem rank_of_onGrid? {decimal found : Decimal} {rank drop : Nat}
    (h : decimal.onGrid? rank drop = some found) : found.rank = rank := by
  simpa using List.find?_some h

/-- The digits of a binary64 number's decimal that are enough to tell it from all others. -/
def enoughDigits : Nat := 17

/-- The decimal with the fewest digits that has the given rank; the full value if no decimal of up
to seventeen digits has it. -/
def shortest (rank : Nat) : Decimal :=
  let full := ofRank rank
  let width := (Text.ofNat full.digits).length
  -- Fewer digits are tried first: with `count + 1` digits all others are dropped.
  let found := (List.range enoughDigits).findSome? fun count =>
    full.onGrid? rank (width - (count + 1))
  found.getD full

/-- The shortest decimal has the rank that it was made for, or is the full value. -/
theorem rank_shortest (rank : Nat) :
    (shortest rank).rank = rank ∨ shortest rank = ofRank rank := by
  unfold shortest
  simp only
  cases found : (List.range enoughDigits).findSome? fun count =>
      (ofRank rank).onGrid? rank ((Text.ofNat (ofRank rank).digits).length - (count + 1)) with
  | none => exact .inr rfl
  | some decimal =>
    obtain ⟨count, -, hit⟩ := List.exists_of_findSome?_eq_some found
    exact .inl (rank_of_onGrid? hit)

end Decimal

end LocationPath
