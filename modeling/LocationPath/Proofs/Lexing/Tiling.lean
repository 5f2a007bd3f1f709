import LocationPath.Proofs.Lexing.Rules
import LocationPath.Proofs.Lexing.Tokenized
import LocationPath.Proofs.Decomposition.Failures

/-! # Tokens tile a text

Up to where their reading ends, the tokens of a text cover all of it but layout. Where reading ends
there is the end of the text, or the first character behind the last token that is no layout and
where no rule of tokens matches anything.

Main definition: `Token.Tile`. Main result: `Lexing.tiles`. -/

namespace LocationPath

/-- Tokens cover a part of a text, but for layout. -/
structure Token.Tile (text : Text) (start stop : Nat) (tokens : List Token) : Prop where
  /-- No token is empty, and no two overlap. -/
  inOrder : InOrder tokens
  /-- The tokens stand in the part. -/
  within : ∀ token ∈ tokens, start ≤ token.span.start ∧ token.span.stop ≤ stop
  /-- The part ends no earlier than it starts. -/
  start_le : start ≤ stop
  /-- The part ends inside of the text. -/
  stop_le : stop ≤ text.length
  /-- What no token covers is layout. -/
  layout : ∀ position c, start ≤ position → position < stop → text[position]? = some c →
    (∃ token ∈ tokens, token.span.start ≤ position ∧ position < token.span.stop) ∨
      isLayout c = true
  /-- Each token is spelled at its place. -/
  spelled : ∀ token ∈ tokens, ∃ afterOperand c more,
    token.span.cut text = c :: more ∧ token.lexeme.Spelled afterOperand c more

namespace Token.Tile

variable {text : Text} {stop : Nat} {tokens : List Token}

/-- No tokens are needed where nothing is to be covered. -/
theorem nil {start : Nat} (le : start ≤ text.length) : Tile text start start [] :=
  ⟨⟨by simp, by simp⟩, by simp, Nat.le_refl _, le, fun _ _ _ _ => by omega, by simp⟩

/-- Layout in front of a part needs no token. -/
theorem cons_layout {start : Nat} {c : Char} (h : Tile text (start + 1) stop tokens)
    (found : text[start]? = some c) (layout : isLayout c = true) : Tile text start stop tokens := by
  refine ⟨h.inOrder, fun token mem => ?_, Nat.le_of_succ_le h.start_le, h.stop_le,
    fun position d le lt found' => ?_, h.spelled⟩
  · have := h.within token mem
    omega
  · obtain rfl | further : start = position ∨ start + 1 ≤ position := by omega
    · obtain rfl := Option.some.inj (found.symm.trans found')
      exact .inr layout
    · exact h.layout position d further lt found'

/-- A token in front of a part covers its own place. -/
theorem cons {afterOperand : Bool} {token : Token} {c : Char} {more : Text}
    (lt : token.span.start < token.span.stop)
    (cut : token.span.cut text = c :: more) (spelled : token.lexeme.Spelled afterOperand c more)
    (h : Tile text token.span.stop stop tokens) :
    Tile text token.span.start stop (token :: tokens) where
  inOrder := InOrder.cons_iff.2 ⟨lt, h.inOrder, fun other mem => (h.within other mem).1⟩
  within := by
    intro other mem
    obtain rfl | mem := List.mem_cons.1 mem
    · exact ⟨Nat.le_refl _, h.start_le⟩
    · have := h.within other mem
      omega
  start_le := Nat.le_trans (Nat.le_of_lt lt) h.start_le
  stop_le := h.stop_le
  layout := by
    intro position d start_le lt_stop found
    -- A place is in the token or behind it.
    obtain inside | further : position < token.span.stop ∨ token.span.stop ≤ position := by omega
    · exact .inl ⟨token, List.mem_cons_self, start_le, inside⟩
    · refine (h.layout position d further lt_stop found).imp_left ?_
      rintro ⟨other, mem, covers⟩
      exact ⟨other, List.mem_cons_of_mem _ mem, covers⟩
  spelled := by
    intro other mem
    obtain rfl | mem := List.mem_cons.1 mem
    · exact ⟨afterOperand, c, more, cut, spelled⟩
    · exact h.spelled other mem

/-- The text of each token is matched by a rule. -/
theorem matched {start : Nat} (h : Tile text start stop tokens) :
    ∀ token ∈ tokens, ∃ rule ∈ tokenRules, token.span.cut text ∈ rule := by
  intro token mem
  obtain ⟨afterOperand, c, more, cut, spelled⟩ := h.spelled token mem
  rw [cut]
  exact spelled.matched

end Token.Tile

/-! ## What tokens stand for -/

/-- The classes of the lexemes that stand for something other than their spelling. -/
def Lexeme.convertedTypes : List Text := ["LITERAL".toList, "FLOAT".toList, "INTEGER".toList]

/-- The symbols stand for their spelling. -/
theorem Lexeme.value_of_mem_symbols :
    ∀ symbol ∈ symbols, symbol.1.value = .text (symbol.2.1 :: symbol.2.2) := by
  decide +kernel

/-- A lexeme that is no literal and no number stands for its spelling. -/
theorem Lexeme.Spelled.value_eq {afterOperand : Bool} {lexeme : Lexeme} {c : Char} {more : Text}
    (h : lexeme.Spelled afterOperand c more) (kept : lexeme.typeName ∉ convertedTypes) :
    lexeme.value = .text (c :: more) := by
  cases h with
  | literal => exact absurd (.head _) kept
  | pointed | fraction => exact absurd (.tail _ (.head _)) kept
  | integer => exact absurd (.tail _ (.tail _ (.head _))) kept
  | name | nodeType | times | star => rfl
  | word _ _ _ _ spelling => exact congrArg Scalar.text (OperatorWord.spelling_of_ofName? spelling)
  | symbol mem => exact value_of_mem_symbols _ mem

/-! ## Reading -/

namespace Lexing

/-- **The tokens that are read tile the text up to where their reading ends.** -/
theorem exists_tile {text tail : Text} {afterOperand : Bool} {start : Nat}
    (eq : text.drop start = tail) (le : start ≤ text.length) :
    ∃ stop, Token.Tile text start stop (ofTextFrom afterOperand start tail).tokens ∧
      ((ofTextFrom afterOperand start tail).ending = .finished → stop = text.length) ∧
      ∀ rest position, (ofTextFrom afterOperand start tail).ending = .unknown rest position →
        stop = position := by
  -- Only the rest of the text is read, but positions stay those in the whole of it.
  fun_induction ofTextFrom afterOperand start tail with
  | case1 afterOperand start =>
    have := List.drop_eq_nil_iff.1 eq
    exact ⟨start, .nil le, fun _ => by omega, by simp⟩
  | case2 afterOperand start c rest layout ih =>
    have found : text[start]? = some c := by rw [← List.head?_drop, eq, List.head?_cons]
    have eq' : text.drop (start + 1) = rest := by rw [← List.tail_drop, eq, List.tail_cons]
    obtain ⟨stop, tile, ends⟩ := ih eq' (List.getElem?_eq_some_iff.1 found).1
    exact ⟨stop, tile.cons_layout found layout, ends⟩
  | case3 afterOperand start c rest _ lexeme used next middle later ih =>
    obtain ⟨more, behind, rfl, rfl, spelled, -⟩ := Scan.exists_spelled_of_next next
    have length := congrArg List.length eq
    rw [List.length_drop, List.length_cons, List.length_append] at length
    have eq' : text.drop middle = (more ++ behind).drop more.length := by
      rw [show middle = start + (more.length + 1) by omega, ← List.drop_drop, eq,
        List.drop_succ_cons]
    have cut : (⟨start, middle⟩ : Span).cut text = c :: more := by
      rw [Span.cut, Text.slice, List.drop_take, eq, show middle - start = more.length + 1 by omega,
        List.take_succ_cons, List.take_left]
    have lt : start < middle := by omega
    obtain ⟨stop, tile, ends⟩ := ih eq' (by omega)
    exact ⟨stop, @Token.Tile.cons _ _ _ _ ⟨lexeme, ⟨start, middle⟩⟩ _ _ lt cut spelled tile, ends⟩
  | case4 => exact ⟨_, .nil le, by simp, by simp⟩
  | case5 =>
    refine ⟨_, .nil le, by simp, fun rest position ending => ?_⟩
    exact (Ending.unknown.inj ending).2

/-- Where the reading of tokens breaks off there is a character that is no layout. -/
theorem exists_of_ending_unknown {afterOperand : Bool} {start : Nat} {text rest : Text}
    {position : Nat} (h : (ofTextFrom afterOperand start text).ending = .unknown rest position) :
    ∃ c more, rest = c :: more ∧ isLayout c = false := by
  fun_induction ofTextFrom afterOperand start text with
  | case1 | case4 => simp at h
  | case2 _ _ _ _ _ ih => exact ih h
  | case3 _ _ _ _ _ _ _ _ _ _ ih => exact ih h
  | case5 afterOperand start c tail no_layout _ =>
    obtain ⟨rfl, -⟩ := Ending.unknown.inj h
    exact ⟨c, tail, rfl, by simpa using no_layout⟩

/-- Where the reading of tokens breaks off, no rule matches. -/
theorem not_matched_of_ending_unknown {text rest : Text} {position : Nat}
    (h : (ofText text).ending = .unknown rest position) {rule : Language Char}
    (mem : rule ∈ tokenRules) {matched : Text} (is_matched : matched ∈ rule) :
    ¬ matched <+: rest := by
  rintro ⟨behind, rfl⟩
  obtain ⟨lexeme, c, more, others, rfl, spelled⟩ := exists_spelled_of_mem_tokenRules mem is_matched
  exact (of_ending_unknown h).2.2.2 false lexeme c more (others ++ behind) (by simp) spelled

/-- **Tokens tile their text.** When no run of digits is too long for an integer, reading ends, be it
at the end of the text or with an error at a character that is no layout and where no rule matches.
Up to there the tokens cover all but layout, none of them is empty, and no two overlap. Each stands
for its own text unless it is a literal or a number. -/
theorem tiles {text : Text} (short : ∀ run ∈ text.digitRuns, run.length ≤ maxIntegerDigits) :
    (∀ token ∈ (ofText text).tokens, token.lexeme.typeName ∉ Lexeme.convertedTypes →
      token.lexeme.value = .text (token.span.cut text)) ∧
    ((ofText text).ending = .finished ∧ Token.Tile text 0 text.length (ofText text).tokens ∨
      ∃ position c, Token.Tile text 0 position (ofText text).tokens ∧
        text[position]? = some c ∧ isLayout c = false ∧
        (∀ rule ∈ tokenRules, ∀ matched ∈ rule, ¬ matched <+: text.drop position) ∧
        ∀ known, (ofText text).ending.error? known =
          some (.malformed ⟨.unknownText (text.drop position), known, some position⟩)) := by
  obtain ⟨stop, tile, finished, unknown⟩ :=
    @exists_tile text text false 0 List.drop_zero (Nat.zero_le _)
  constructor
  · intro token mem kept
    obtain ⟨afterOperand, c, more, cut, spelled⟩ := tile.spelled token mem
    rw [spelled.value_eq kept, cut]
  · cases ending : (ofText text).ending with
    | finished => exact .inl ⟨rfl, finished ending ▸ tile⟩
    | unknown rest position =>
      obtain rfl := unknown rest position ending
      obtain ⟨-, rfl, -⟩ := of_ending_unknown ending
      obtain ⟨c, more, eq, no_layout⟩ := exists_of_ending_unknown ending
      refine .inr ⟨stop, c, tile, ?_, no_layout, fun rule mem matched is_matched =>
        not_matched_of_ending_unknown ending mem is_matched, fun known => rfl⟩
      rw [← List.head?_drop]
      exact eq ▸ rfl
    -- The digits that are too many are a part of one of the runs.
    | tooLong =>
      obtain ⟨tail, suffix, long⟩ := exists_long_run ending
      obtain ⟨run, mem, le⟩ := Text.exists_digitRun_of_suffix suffix
      have := short run mem
      omega

/-- Next to dots there are numbers, and a name may hold dots, hyphens and digits. A literal ends in
front of a further mark that closes no other literal, so that nothing matches at this mark. -/
theorem tiles_of_open_literal :
    (∀ run ∈ Text.digitRuns "1...2 a.b-3\t'x''y".toList, run.length ≤ maxIntegerDigits) ∧
      (ofText "1...2 a.b-3\t'x''y".toList).tokens.map (·.span) =
        [⟨0, 2⟩, ⟨2, 4⟩, ⟨4, 5⟩, ⟨6, 11⟩, ⟨12, 15⟩] ∧
      Token.Tile "1...2 a.b-3\t'x''y".toList 0 15 (ofText "1...2 a.b-3\t'x''y".toList).tokens ∧
      ∀ rule ∈ tokenRules, ∀ matched ∈ rule, ¬ matched <+: "'y".toList := by
  have short : ∀ run ∈ Text.digitRuns "1...2 a.b-3\t'x''y".toList,
      run.length ≤ maxIntegerDigits := by decide +kernel
  have ending : (ofText "1...2 a.b-3\t'x''y".toList).ending = .unknown "'y".toList 15 := by
    decide +kernel
  obtain ⟨-, finished | ⟨position, c, tile, -, -, nothing, error⟩⟩ := tiles short
  · rw [ending] at finished
    exact absurd finished.1 (by simp)
  · obtain rfl : 15 = position := by
      have reported := error none
      simp only [ending, Ending.error?, Option.some.injEq, PathError.malformed.injEq,
        SyntaxError.mk.injEq] at reported
      exact reported.2.2
    exact ⟨short, by decide +kernel, tile, nothing⟩

end Lexing

end LocationPath
