import LocationPath.Proofs.Lexing.Rules

/-! # Literals and their rule

The rule of literals does not say where a literal ends, since each mark in a text could close it. The
literal that is read is the longest one that the rule matches, and its value is what stands between
the marks, with each doubled mark made single. So a text that is written as a literal is read back
wherever its mark does not stand behind it.

Main definition: `Literal.undouble`. Main results: `Literal.longest_of_body` and
`Lexing.ofText_write`. -/

namespace LocationPath

namespace Literal

variable {mark : Char} {text value : Text}

/-! ## Doubled marks -/

/-- A text with each pair of marks, taken from left to right, made a single mark. -/
def undouble (mark : Char) : Text → Text
  | c :: d :: rest =>
    if c = mark ∧ d = mark then mark :: undouble mark rest else c :: undouble mark (d :: rest)
  | text => text

/-- A character that is no mark is kept. -/
theorem undouble_cons_of_ne {c : Char} (h : c ≠ mark) (text : Text) :
    undouble mark (c :: text) = c :: undouble mark text := by
  cases text with
  | nil => rfl
  | cons d rest => rw [undouble, if_neg fun both => h both.1]

/-- **Making doubled marks single undoes their doubling.** -/
@[simp] theorem undouble_double (mark : Char) (value : Text) :
    undouble mark (double mark value) = value := by
  induction value with
  | nil => rfl
  | cons c value ih =>
    by_cases eq : c = mark
    · subst eq
      rw [double_cons_self, undouble, if_pos ⟨rfl, rfl⟩, ih]
    · rw [double_cons_of_ne eq, undouble_cons_of_ne eq, ih]

/-! ## The longest match -/

/-- A doubled text that ends at a mark cannot end later than another one behind which no literal is
closed. -/
theorem prefix_of_double {other behind rest : Text}
    (last : ∀ after, behind = mark :: after → mark ∉ after)
    (eq : double mark other ++ mark :: rest = double mark value ++ mark :: behind) :
    other <+: value := by
  -- Pair by pair and character by character both go on alike until the match ends.
  induction other generalizing value with
  | nil => exact List.nil_prefix
  | cons c other ih =>
    by_cases first : c = mark
    · subst first
      rw [double_cons_self] at eq
      cases value with
      | nil =>
        -- The first mark of the pair closes the value, and behind the second one a mark follows.
        obtain rfl := (List.cons.inj eq).2
        exact absurd (by simp) (last _ rfl)
      | cons d value =>
        obtain rfl : d = c := by
          by_contra ne
          rw [double_cons_of_ne ne] at eq
          exact ne (List.cons.inj eq).1.symm
        rw [double_cons_self] at eq
        simp only [List.cons_append, List.cons.injEq, true_and] at eq
        exact List.cons_prefix_cons.2 ⟨rfl, ih eq⟩
    · rw [double_cons_of_ne first] at eq
      cases value with
      -- Here the value ends at a mark, but the first character of the match is none.
      | nil => exact absurd (List.cons.inj eq).1 first
      | cons d value =>
        have ne : d ≠ mark := by
          rintro rfl
          rw [double_cons_self] at eq
          exact first (List.cons.inj eq).1
        rw [double_cons_of_ne ne, List.cons_append, List.cons_append, List.cons.injEq] at eq
        exact List.cons_prefix_cons.2 ⟨eq.1, ih eq.2⟩

/-- **A literal is read as the longest match of its rule**, and its value is what stands between the
marks, with doubled marks made single. -/
theorem longest_of_body {used : Nat} (h : body mark text = some (value, used)) :
    mark :: text.take used ∈ quoted mark ∧
      (∀ matched ∈ quoted mark, matched <+: mark :: text → matched <+: mark :: text.take used) ∧
      undouble mark (text.take (used - 1)) = value := by
  obtain ⟨behind, rfl, rfl, last⟩ := exists_of_body h
  have taken : (double mark value ++ mark :: behind).take ((double mark value).length + 1) =
      double mark value ++ [mark] := by
    simp [List.take_append]
  rw [taken]
  refine ⟨mem_quoted.2 ⟨value, rfl⟩, fun matched mem starts => ?_, by simp⟩
  obtain ⟨other, rfl⟩ := mem_quoted.1 mem
  have shorter : other <+: value := by
    obtain ⟨rest, eq⟩ := starts
    have bodies : double mark other ++ mark :: rest = double mark value ++ mark :: behind := by
      simpa using eq
    exact prefix_of_double (fun after eq => not_mem_of_body_eq_none (last after eq)) bodies
  -- Both stand at the start of the text, so the shorter one is the start of the other.
  refine List.prefix_of_prefix_length_le starts ⟨behind, by simp⟩ ?_
  obtain ⟨more, rfl⟩ := shorter
  simp [double]

/-! ## Written literals -/

/-- A text written as a literal is spelled as one. -/
theorem spelled_write (afterOperand : Bool) (value : Text) :
    (Lexeme.literal value).Spelled afterOperand (Literal.mark value)
      (double (Literal.mark value) value ++ [Literal.mark value]) :=
  .literal (mark_eq value) value

/-- A written literal is read back in front of anything but its mark. -/
theorem body_write {behind : Text} (free : behind.head? ≠ some (Literal.mark value)) :
    body (Literal.mark value) (double (Literal.mark value) value ++ [Literal.mark value] ++ behind) =
      some (value, (double (Literal.mark value) value).length + 1) := by
  rw [List.append_assoc, List.singleton_append]
  exact body_double free value

/-- The rule of literals matches a written literal. -/
theorem write_mem_literalRule (value : Text) : write value ∈ literalRule := by
  have mem : write value ∈ quoted (Literal.mark value) := mem_quoted.2 ⟨value, rfl⟩
  obtain eq | eq := mark_eq value
  · exact .inl (eq ▸ mem)
  · exact .inr (eq ▸ mem)

/-- A match of the rule of literals is quoted by the mark that it starts with. -/
theorem mem_quoted_of_literalRule {c : Char} {matched : Text} (mem : matched ∈ literalRule)
    (starts : matched <+: c :: text) : matched ∈ quoted c := by
  have of_quoted : ∀ other, matched ∈ quoted other → matched ∈ quoted c := by
    intro other mem
    obtain ⟨value, rfl⟩ := mem_quoted.1 mem
    rwa [(List.cons_prefix_cons.1 starts).1] at mem ⊢
  obtain mem | mem := mem
  · exact of_quoted '"' mem
  · exact of_quoted '\'' mem

/-- **In front of anything but its mark, a written literal is the longest match of the rule.** -/
theorem prefix_write {behind matched : Text} (free : behind.head? ≠ some (Literal.mark value))
    (mem : matched ∈ literalRule) (starts : matched <+: write value ++ behind) :
    matched <+: write value := by
  have longest := (longest_of_body (body_write free)).2.1 matched
    (mem_quoted_of_literalRule mem starts) starts
  rwa [List.take_append_of_le_length (by simp), List.take_of_length_le (by simp)] at longest

/-- Between its marks a written literal is the value with the marks in it doubled. -/
theorem cutInside_write (value behind : Text) :
    (⟨0, (write value).length⟩ : Span).cutInside (write value ++ behind) =
      double (Literal.mark value) value := by
  simp [Span.cutInside, Text.slice, write, Text.between]

end Literal

/-! ## Reading -/

namespace Lexing

/-- **A written literal is a token of its own** at any place of a text, in front of anything but its
mark, and reading goes on behind it. -/
theorem ofTextFrom_write (afterOperand : Bool) (start : Nat) {value behind : Text}
    (free : behind.head? ≠ some (Literal.mark value)) :
    (ofTextFrom afterOperand start (Literal.write value ++ behind)).tokens =
      ⟨.literal value, ⟨start, start + (Literal.write value).length⟩⟩ ::
        (ofTextFrom true (start + (Literal.write value).length) behind).tokens := by
  have length_eq : start + (Literal.write value).length =
      start + 1 + (Literal.double (Literal.mark value) value ++ [Literal.mark value]).length := by
    simp only [Literal.write, Text.between, List.length_append, List.length_cons]
    omega
  have first := ofTextFrom_of_spelled start (Literal.spelled_write afterOperand value) free
  rw [length_eq]
  exact congrArg tokens first

/-- **Quoting is undone by reading.** In front of any text that does not start with its mark, a text
written as a literal is the first token, with this text as its value and just its own place. No match
of the rule of literals goes on further than the literal, whatever marks follow; and the value is what
stands between the marks, with doubled marks made single. -/
theorem ofText_write {value behind : Text} (free : behind.head? ≠ some (Literal.mark value)) :
    (ofText (Literal.write value ++ behind)).tokens.head? =
        some ⟨.literal value, ⟨0, (Literal.write value).length⟩⟩ ∧
      Literal.write value ∈ literalRule ∧
      (∀ matched ∈ literalRule, matched <+: Literal.write value ++ behind →
        matched <+: Literal.write value) ∧
      Literal.undouble (Literal.mark value)
        ((⟨0, (Literal.write value).length⟩ : Span).cutInside (Literal.write value ++ behind)) =
          value := by
  refine ⟨?_, Literal.write_mem_literalRule value, fun _ => Literal.prefix_write free, ?_⟩
  · rw [ofText, ofTextFrom_write false 0 free, List.head?_cons, Nat.zero_add]
  · rw [Literal.cutInside_write, Literal.undouble_double]

/-- A text with both marks, one of them doubled and the other at its start, is read back in front of
another literal of the other kind and marks of its own. -/
theorem ofText_write_of_both_marks :
    Literal.mark ['\'', '"', '"', '\'', '\'', '\n'] = '\'' ∧
      ['"', '\'', '"', '\'', '\''].head? ≠ some '\'' ∧
      Literal.write ['\'', '"', '"', '\'', '\'', '\n'] =
        ['\'', '\'', '\'', '"', '"', '\'', '\'', '\'', '\'', '\n', '\''] ∧
      (ofText (Literal.write ['\'', '"', '"', '\'', '\'', '\n'] ++
        ['"', '\'', '"', '\'', '\''])).tokens.head? =
          some ⟨.literal ['\'', '"', '"', '\'', '\'', '\n'], ⟨0, 11⟩⟩ ∧
      ∀ matched ∈ literalRule, matched <+: Literal.write ['\'', '"', '"', '\'', '\'', '\n'] ++
        ['"', '\'', '"', '\'', '\''] → matched.length ≤ 11 := by
  have free : ['"', '\'', '"', '\'', '\''].head? ≠
      some (Literal.mark ['\'', '"', '"', '\'', '\'', '\n']) := by decide
  obtain ⟨first, -, longest, -⟩ := ofText_write free
  exact ⟨rfl, by decide, rfl, first, fun matched mem starts =>
    (longest matched mem starts).length_le⟩

end Lexing

end LocationPath
