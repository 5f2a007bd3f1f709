import LocationPath.Text

/-! # Literals

A text as a literal of an expression stands between two marks of one kind, and a mark of this kind
inside it is written twice.

Main definitions: `Literal.write`, and `Literal.body` that reads what follows the opening mark. -/

namespace LocationPath

namespace Literal

/-- The mark around a literal: a quotation mark, unless the text holds one. -/
def mark (value : Text) : Char := if value.contains '"' then '\'' else '"'

/-- The mark around a literal is one of the two. -/
theorem mark_eq (value : Text) : mark value = '"' ∨ mark value = '\'' := by
  unfold mark
  split
  · exact .inr rfl
  · exact .inl rfl

/-- A text with each occurrence of a mark written twice. -/
def double (mark : Char) (value : Text) : Text :=
  value.flatMap fun c => if c = mark then [c, c] else [c]

/-- The mark is written twice. -/
theorem double_cons_self (mark : Char) (value : Text) :
    double mark (mark :: value) = mark :: mark :: double mark value := by
  simp [double]

/-- A character that is no mark is written once. -/
theorem double_cons_of_ne {mark c : Char} (h : c ≠ mark) (value : Text) :
    double mark (c :: value) = c :: double mark value := by
  simp [double, h]

/-- A text without the mark in it is written as it is. -/
theorem double_eq_self {mark : Char} {value : Text} (h : mark ∉ value) :
    double mark value = value := by
  induction value with
  | nil => rfl
  | cons c value ih =>
    rw [List.mem_cons, not_or] at h
    rw [double_cons_of_ne (Ne.symm h.1), ih h.2]

/-- A text as a literal. -/
def write (value : Text) : Text :=
  let mark := mark value
  Text.between mark mark (double mark value)

/-- A text without a quotation mark in it needs nothing but two of them around it. -/
theorem write_of_not_mem {value : Text} (h : '"' ∉ value) :
    write value = Text.between '"' '"' value := by
  have mark_eq : mark value = '"' := by simp [mark, h]
  rw [write, mark_eq, double_eq_self h]

/-- The value of a literal after its opening mark, and the number of characters up to and with its
closing mark. A mark written twice stands for itself. If the marks after some place are all written
twice, so that none closes the literal, the first mark of the last such pair closes it. -/
def body (mark : Char) : Text → Option (Text × Nat)
  | [] => none
  | c :: rest =>
    if c = mark then
      match rest with
      | [] => some ([], 1)
      | d :: after =>
        if d = mark then
          match body mark after with
          | some (value, used) => some (mark :: value, used + 2)
          | none => some ([], 1)
        else some ([], 1)
    else (body mark rest).map (Prod.map (c :: ·) (· + 1))

/-- A character that is no mark belongs to the value. -/
@[simp] theorem body_cons_of_ne {mark c : Char} (h : c ≠ mark) (rest : Text) :
    body mark (c :: rest) = (body mark rest).map (Prod.map (c :: ·) (· + 1)) := by
  rw [body.eq_def]
  simp [h]

/-- A text without the mark in it does not close a literal. -/
theorem body_eq_none {mark : Char} {text : Text} (h : mark ∉ text) : body mark text = none := by
  induction text with
  | nil => rfl
  | cons c rest ih =>
    simp only [List.mem_cons, not_or] at h
    simp [Ne.symm h.1, ih h.2]

end Literal

end LocationPath
