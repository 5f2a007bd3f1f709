import LocationPath.Text.Blank

/-! # Names

The characters of a name without a colon. Besides letters a name may hold digits, dots, hyphens and
combining marks, but not as its first character. -/

namespace LocationPath

/-- The code points that a name can start with. -/
def nameStartRanges : List (Nat × Nat) :=
  [(0x41, 0x5a), (0x5f, 0x5f), (0x61, 0x7a), (0xc0, 0xd6), (0xd8, 0xf6), (0xf8, 0x2ff),
    (0x370, 0x37d), (0x37f, 0x1fff), (0x200c, 0x200d), (0x2070, 0x218f), (0x2c00, 0x2fef),
    (0x3001, 0xd7ff), (0xf900, 0xfdcf), (0xfdf0, 0xfffd), (0x10000, 0xeffff)]

/-- The code points that a name can hold only after its first character. -/
def nameFurtherRanges : List (Nat × Nat) :=
  [(0x2d, 0x2e), (0x30, 0x39), (0xb7, 0xb7), (0x300, 0x36f), (0x203f, 0x2040)]

/-- Whether a name can start with a character. -/
def isNameStart (c : Char) : Bool := inRanges nameStartRanges c.toNat

/-- Whether a name can hold a character. -/
def isNameChar (c : Char) : Bool := isNameStart c || inRanges nameFurtherRanges c.toNat

/-- A character that a name can start with can stand at every place of it. -/
theorem isNameChar_of_isNameStart {c : Char} (h : isNameStart c = true) : isNameChar c = true := by
  simp [isNameChar, h]

/-- Whether a text is a name. -/
def Text.isName : Text → Bool
  | [] => false
  | c :: rest => isNameStart c && rest.all isNameChar

end LocationPath
