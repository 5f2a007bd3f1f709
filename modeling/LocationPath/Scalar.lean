import LocationPath.Binary64.Written
import LocationPath.Text.Quoted

/-! # Scalar values

What a token or a literal stands for: a text, an integer of any size, or a binary64 number. -/

namespace LocationPath

/-- A text or a number. -/
inductive Scalar where
  /-- A text, without the quotation marks of its literal. -/
  | text (value : Text)
  /-- An integer of any size. -/
  | integer (value : Int)
  /-- A number with a point. -/
  | float (value : Binary64)
  deriving DecidableEq

namespace Scalar

/-- The value itself: a text as it is, a number in its written form. -/
def plain : Scalar → Text
  | .text value => value
  | .integer value => Text.ofInt value
  | .float value => value.written

/-- The value as records show it: a text is quoted, a number is not. -/
def shown : Scalar → Text
  | .text value => value.quoted
  | number => number.plain

end Scalar

end LocationPath
