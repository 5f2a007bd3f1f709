import LocationPath.Text

/-! # Blank characters

Two classes of blank characters are told apart. **Layout** is what may stand between the tokens of
an expression: space, tab, carriage return and line feed. **White space** is the wider class that is
removed around a step and around a setting: every character of Unicode that separates words, lines
or paragraphs, with the information separators U+001C to U+001F. -/

namespace LocationPath

/-- Whether a character may stand between two tokens. -/
def isLayout (c : Char) : Bool := c == ' ' || c == '\t' || c == '\r' || c == '\n'

/-- Whether a code point lies in one of the given ranges, whose bounds belong to them. -/
def inRanges (ranges : List (Nat × Nat)) (code : Nat) : Bool :=
  ranges.any fun range => range.1 ≤ code && code ≤ range.2

/-- A code point is in a list of ranges if one of them encloses it. -/
theorem inRanges_iff (ranges : List (Nat × Nat)) (code : Nat) :
    inRanges ranges code = true ↔ ∃ range ∈ ranges, range.1 ≤ code ∧ code ≤ range.2 := by
  simp [inRanges]

/-- The code points of white space. -/
def whiteSpaceRanges : List (Nat × Nat) :=
  [(0x09, 0x0d), (0x1c, 0x20), (0x85, 0x85), (0xa0, 0xa0), (0x1680, 0x1680), (0x2000, 0x200a),
    (0x2028, 0x2029), (0x202f, 0x202f), (0x205f, 0x205f), (0x3000, 0x3000)]

/-- Whether a character is white space. -/
def isWhiteSpace (c : Char) : Bool := inRanges whiteSpaceRanges c.toNat

/-- Layout is white space. -/
theorem isWhiteSpace_of_isLayout {c : Char} (h : isLayout c = true) : isWhiteSpace c = true := by
  simp only [isLayout, Bool.or_eq_true, beq_iff_eq] at h
  rcases h with ((rfl | rfl) | rfl) | rfl <;> rfl

namespace Text

/-- The text without the white space at its two ends. -/
def trim (text : Text) : Text :=
  ((text.dropWhile isWhiteSpace).reverse.dropWhile isWhiteSpace).reverse

/-- Whether a text holds nothing but white space. -/
def isBlank (text : Text) : Bool := text.all isWhiteSpace

private theorem dropWhile_eq_self_of_head {p : Char → Bool} {text : Text}
    (h : ∀ c rest, text = c :: rest → p c = false) : text.dropWhile p = text := by
  cases text with
  | nil => rfl
  | cons c rest => simp [h c rest rfl]

private theorem head_dropWhile {p : Char → Bool} {text : Text} {c : Char} {rest : Text}
    (h : text.dropWhile p = c :: rest) : p c = false := by
  induction text with
  | nil => simp at h
  | cons d tail ih =>
    rw [List.dropWhile_cons] at h
    split at h
    · exact ih h
    · simp_all

/-- Dropping from both ends leaves nothing more to drop from the start. -/
private theorem dropWhile_trim (text : Text) : text.trim.dropWhile isWhiteSpace = text.trim := by
  refine dropWhile_eq_self_of_head fun c rest h => ?_
  have dropped : (text.dropWhile isWhiteSpace).reverse.dropWhile isWhiteSpace <:+
      (text.dropWhile isWhiteSpace).reverse := List.dropWhile_suffix _
  have kept : text.trim <+: text.dropWhile isWhiteSpace := by
    simpa [trim] using List.reverse_prefix.2 dropped
  obtain ⟨tail, tail_eq⟩ := kept
  rw [h] at tail_eq
  exact head_dropWhile tail_eq.symm

/-- Trimming a trimmed text changes nothing. -/
@[simp] theorem trim_trim (text : Text) : text.trim.trim = text.trim := by
  rw [trim, dropWhile_trim, trim, List.reverse_reverse]
  refine congrArg List.reverse (dropWhile_eq_self_of_head fun c rest h => head_dropWhile h)

end Text

end LocationPath
