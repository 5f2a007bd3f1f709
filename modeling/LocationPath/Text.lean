/-! # Texts

A **text** is the list of its characters, so that a position in a text counts code points. This file
holds the operations that the rest of the library cuts and tests texts with; the classes of
characters are in the files beside it. -/

namespace LocationPath

/-- A text, as the list of its characters. -/
abbrev Text := List Char

namespace Text

/-- The characters from position `start` up to, but not including, position `stop`. A bound past the
end of the text stands for the end. -/
def slice (text : Text) (start stop : Nat) : Text := (text.take stop).drop start

/-- A slice lies inside its text. -/
theorem length_slice (text : Text) (start stop : Nat) :
    (text.slice start stop).length = min stop text.length - start := by
  simp [slice]

/-- The slice between two positions of a concatenation that enclose its middle part is that part. -/
theorem slice_append (before middle after : Text) :
    slice (before ++ middle ++ after) before.length (before ++ middle).length = middle := by
  simp [slice, List.take_append]

/-- The text without the occurrences of `mark` at its end. -/
def dropTrailing (mark : Char) (text : Text) : Text :=
  (text.reverse.dropWhile (· == mark)).reverse

/-- The text without the occurrences of `mark` at its start. -/
def dropLeading (mark : Char) (text : Text) : Text := text.dropWhile (· == mark)

/-- Whether `part` occurs in the text as a run of neighbouring characters. -/
def holds (text part : Text) : Bool :=
  match text with
  | [] => part.isEmpty
  | c :: rest => part.isPrefixOf (c :: rest) || holds rest part

/-- A text holds the parts that stand in it, and no other. -/
theorem holds_iff_infix (text part : Text) : holds text part = true ↔ part <:+: text := by
  induction text with
  | nil => simp [holds, List.isEmpty_iff]
  | cons c rest ih => simp [holds, ih, List.infix_cons_iff]

/-- A part between two marks. -/
def between (opening closing : Char) (part : Text) : Text := opening :: part ++ [closing]

/-- The decimal digits of a natural number. -/
def ofNat (n : Nat) : Text := Nat.toDigits 10 n

/-- The decimal digits of an integer, after a minus sign if it is negative. -/
def ofInt : Int → Text
  | .ofNat n => ofNat n
  | .negSucc n => '-' :: ofNat (n + 1)

end Text

end LocationPath
