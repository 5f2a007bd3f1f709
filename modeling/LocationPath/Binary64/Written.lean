import LocationPath.Binary64.Shortest
import LocationPath.Text.Digit

/-! # Binary64 numbers as texts

A finite number is written with its shortest digits. From `0.0001` on and below `10 ^ 16` it is
written in places, with at least one digit after the point; all others have one digit before the
point and an exponent of two digits or more with a sign. -/

namespace LocationPath

/-- The layout of a written number. -/
structure NumberLayout where
  /-- The least exponent of the first digit that is written in places. -/
  leastInPlaces : Int
  /-- The least exponent of the first digit from there on that is not. -/
  leastWithExponent : Int
  /-- The least number of digits of an exponent. -/
  exponentWidth : Nat

namespace Binary64

/-- Numbers are written in places from `10 ^ (-4)` on and below `10 ^ 16`, and an exponent has at
least two digits. -/
def layout : NumberLayout := ⟨-4, 16, 2⟩

/-- Digits in places, where the first one has the exponent `exponent`. -/
def inPlaces (digits : Text) : (exponent : Int) → Text
  | .ofNat e =>
    let whole := digits.take (e + 1)
    let rest := digits.drop (e + 1)
    whole.rightpad (e + 1) '0' ++ '.' :: (if rest.isEmpty then ['0'] else rest)
  | .negSucc e => '0' :: '.' :: (List.replicate e '0' ++ digits)

/-- Digits with an exponent, where the first one has the exponent `exponent`. -/
def withExponent (digits : Text) (exponent : Int) : Text :=
  let mantissa := match digits with
    | [] => []
    | [first] => [first]
    | first :: rest => first :: '.' :: rest
  mantissa ++ 'e' :: (if exponent < 0 then '-' else '+') ::
    (Text.ofNat exponent.natAbs).leftpad layout.exponentWidth '0'

/-- A decimal in the layout of written numbers. -/
def writtenDecimal (decimal : Decimal) : Text :=
  if decimal.digits = 0 then inPlaces ['0'] 0
  else
    let all := Text.ofNat decimal.digits
    -- The exponent of the first digit chooses the layout; zeros at the end do not change it.
    let exponent := decimal.exponent + (all.length - 1 : Nat)
    let digits := all.dropTrailing '0'
    if layout.leastInPlaces ≤ exponent ∧ exponent < layout.leastWithExponent then
      inPlaces digits exponent
    else withExponent digits exponent

/-- A number as a text. -/
def written (number : Binary64) : Text :=
  if number.isNaN then "nan".toList
  else
    let sign := if number.negative then ['-'] else []
    if number.isInfinite then sign ++ "inf".toList
    else sign ++ writtenDecimal (Decimal.shortest number.rank)

/-- Splits a text into the digits at its start and the rest. -/
def splitDigits (text : Text) : Text × Text := text.span isDigit

/-- The exponent written at the end of a number: none at all, or `e`, a sign or none, and digits. -/
def exponent? : Text → Option Int
  | [] => some 0
  | 'e' :: '-' :: digits => digitsOnly digits |>.map fun n => -(n : Int)
  | 'e' :: '+' :: digits => digitsOnly digits |>.map fun n => (n : Int)
  | 'e' :: digits => digitsOnly digits |>.map fun n => (n : Int)
  | _ => none
where
  /-- The number that a text of digits writes. -/
  digitsOnly (digits : Text) : Option Nat :=
    if !digits.isEmpty && digits.all isDigit then some digits.numeral else none

/-- The number that digits with a point and an exponent write. -/
def ofUnsigned? (negative : Bool) (text : Text) : Option Binary64 :=
  let (whole, rest) := splitDigits text
  let (fraction, rest) := match rest with
    | '.' :: rest => splitDigits rest
    | rest => ([], rest)
  if whole.isEmpty && fraction.isEmpty then none
  else (exponent? rest).map fun exponent =>
    ofDecimal negative (whole ++ fraction).numeral (exponent - fraction.length)

/-- The number that a text writes: digits with a point and an exponent, `inf` or `nan`, with a minus
sign or without. -/
def ofText? (text : Text) : Option Binary64 :=
  let (negative, unsigned) := match text with
    | '-' :: rest => (true, rest)
    | rest => (false, rest)
  if unsigned = "inf".toList then some (infinity negative)
  else if unsigned = "nan".toList then some nan
  else ofUnsigned? negative unsigned

end Binary64

end LocationPath
