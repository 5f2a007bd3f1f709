import LocationPath.Token.Lexer
import Mathlib.Data.List.Pairwise

/-! # Tokens in order

The tokens of a text stand one behind another. What is built of some of them takes the place from
the start of one token up to the end of another, so that two parts of an expression stand in the
order of their tokens.

Main definitions: `Token.InOrder`, `Span.On` (a span from one token to another) and `Span.Covers` (a
span from the first token through the last). Main result: `Lexing.inOrder_ofText`. -/

namespace LocationPath

/-- Of things at places one behind another only one is around a place that is not empty. -/
theorem Span.eq_of_within {α : Type} {place : α → Span} {things : List α}
    (apart : things.Pairwise fun first second => (place first).stop ≤ (place second).start)
    {first second : α} (first_mem : first ∈ things) (second_mem : second ∈ things) {span : Span}
    (lt : span.start < span.stop) (first_within : span.within (place first) = true)
    (second_within : span.within (place second) = true) : first = second := by
  by_contra ne
  rw [within_iff] at first_within second_within
  have symm : Std.Symm fun first second : α =>
      (place first).stop ≤ (place second).start ∨ (place second).stop ≤ (place first).start :=
    ⟨fun _ _ => Or.symm⟩
  have either : things.Pairwise fun first second =>
      (place first).stop ≤ (place second).start ∨ (place second).stop ≤ (place first).start :=
    apart.imp .inl
  have := either.forall first_mem second_mem ne
  omega

/-- No token is empty, and none starts before those in front of it have ended. -/
structure Token.InOrder (tokens : List Token) : Prop where
  /-- Every token has a character. -/
  start_lt_stop : ∀ token ∈ tokens, token.span.start < token.span.stop
  /-- No two tokens overlap. -/
  apart : tokens.Pairwise fun first second => first.span.stop ≤ second.span.start

namespace Token.InOrder

/-- Tokens behind one another are in order if both parts are and the second part is behind the
first. -/
theorem append_iff {tokens tokens' : List Token} : InOrder (tokens ++ tokens') ↔
    InOrder tokens ∧ InOrder tokens' ∧
      ∀ first ∈ tokens, ∀ second ∈ tokens', first.span.stop ≤ second.span.start := by
  constructor
  · rintro ⟨start_lt_stop, apart⟩
    obtain ⟨front, behind, cross⟩ := List.pairwise_append.1 apart
    exact ⟨⟨fun token mem => start_lt_stop token (List.mem_append_left _ mem), front⟩,
      ⟨fun token mem => start_lt_stop token (List.mem_append_right _ mem), behind⟩, cross⟩
  · rintro ⟨front, behind, cross⟩
    refine ⟨fun token mem => ?_, List.pairwise_append.2 ⟨front.apart, behind.apart, cross⟩⟩
    obtain mem | mem := List.mem_append.1 mem
    · exact front.start_lt_stop token mem
    · exact behind.start_lt_stop token mem

/-- The first part of tokens in order is in order. -/
theorem left {tokens tokens' : List Token} (h : InOrder (tokens ++ tokens')) : InOrder tokens :=
  (append_iff.1 h).1

/-- The second part of tokens in order is in order. -/
theorem right {tokens tokens' : List Token} (h : InOrder (tokens ++ tokens')) : InOrder tokens' :=
  (append_iff.1 h).2.1

/-- Tokens behind a first one are in order if they are behind it. -/
theorem cons_iff {token : Token} {tokens : List Token} : InOrder (token :: tokens) ↔
    token.span.start < token.span.stop ∧ InOrder tokens ∧
      ∀ second ∈ tokens, token.span.stop ≤ second.span.start := by
  constructor
  · rintro ⟨start_lt_stop, apart⟩
    obtain ⟨cross, behind⟩ := List.pairwise_cons.1 apart
    exact ⟨start_lt_stop token (by simp),
      ⟨fun other mem => start_lt_stop other (List.mem_cons_of_mem _ mem), behind⟩, cross⟩
  · rintro ⟨start_lt_stop, behind, cross⟩
    refine ⟨fun other mem => ?_, List.pairwise_cons.2 ⟨cross, behind.apart⟩⟩
    obtain rfl | mem := List.mem_cons.1 mem
    · exact start_lt_stop
    · exact behind.start_lt_stop other mem

/-- What stands behind the first of tokens in order is in order. -/
theorem tail {token : Token} {tokens : List Token} (h : InOrder (token :: tokens)) :
    InOrder tokens :=
  (cons_iff.1 h).2.1

/-- Tokens side by side among tokens in order are in order. -/
theorem of_infix {tokens tokens' : List Token} (h : InOrder tokens') (inside : tokens <:+: tokens') :
    InOrder tokens :=
  ⟨fun token mem => h.start_lt_stop token (inside.subset mem), h.apart.sublist inside.sublist⟩

/-- Of tokens in order only one starts at a position. -/
theorem eq_of_start_eq {tokens : List Token} (h : InOrder tokens) {first second : Token}
    (first_mem : first ∈ tokens) (second_mem : second ∈ tokens)
    (eq : first.span.start = second.span.start) : first = second := by
  have lt := h.start_lt_stop first first_mem
  have lt' := h.start_lt_stop second second_mem
  let place : Span := ⟨first.span.start, first.span.start + 1⟩
  have within : place.within first.span = true ∧ place.within second.span = true := by
    simp only [place, Span.within_iff]
    omega
  exact Span.eq_of_within h.apart first_mem second_mem (Nat.lt_succ_self _) within.1 within.2

end Token.InOrder

/-! ## Spans of tokens -/

namespace Span

/-- A span starts where one of some tokens starts and stops where one of them stops. -/
def On (span : Span) (tokens : List Token) : Prop :=
  ∃ first ∈ tokens, ∃ last ∈ tokens,
    span.start = first.span.start ∧ span.stop = last.span.stop

/-- A span starts with the first of some tokens and stops with the last. -/
def Covers (span : Span) (tokens : List Token) : Prop :=
  ∃ first ∈ tokens.head?, ∃ last ∈ tokens.getLast?,
    span.start = first.span.start ∧ span.stop = last.span.stop

/-- A span on some tokens is on any that hold these. -/
theorem On.mono {span : Span} {tokens tokens' : List Token} (h : span.On tokens)
    (subset : tokens ⊆ tokens') : span.On tokens' := by
  obtain ⟨first, mem, last, mem', start, stop⟩ := h
  exact ⟨first, subset mem, last, subset mem', start, stop⟩

/-- A span over all tokens is on them. -/
theorem Covers.on {span : Span} {tokens : List Token} (h : span.Covers tokens) :
    span.On tokens := by
  obtain ⟨first, mem, last, mem', start, stop⟩ := h
  exact ⟨first, List.mem_of_head? mem, last, List.mem_of_getLast? mem', start, stop⟩

/-- A token stands over itself. -/
theorem covers_singleton (token : Token) : token.span.Covers [token] :=
  ⟨token, rfl, token, rfl, rfl, rfl⟩

/-- From the start of the first tokens through the end of the second ones is over both. -/
theorem Covers.append {span span' : Span} {tokens tokens' : List Token} (h : span.Covers tokens)
    (h' : span'.Covers tokens') : (span.through span').Covers (tokens ++ tokens') := by
  obtain ⟨first, mem, -, -, start, -⟩ := h
  obtain ⟨-, -, last, mem', -, stop⟩ := h'
  refine ⟨first, ?_, last, ?_, start, stop⟩
  · rw [List.head?_append, Option.mem_def.1 mem]
    rfl
  · rw [List.getLast?_append, Option.mem_def.1 mem']
    rfl

/-- What a single token in front of others begins is over all of them. -/
theorem Covers.cons {span : Span} {tokens : List Token} (token : Token) (h : span.Covers tokens) :
    (token.span.through span).Covers (token :: tokens) :=
  (covers_singleton token).append h

/-- From the start of one token through the end of another is over both and all between them. -/
theorem covers_between (first last : Token) (tokens : List Token) :
    (first.span.through last.span).Covers (first :: (tokens ++ [last])) := by
  refine ⟨first, rfl, last, ?_, rfl, rfl⟩
  rw [← List.cons_append, List.getLast?_concat]
  rfl

/-- A span on the first of two parts in order ends before one on the second part starts. -/
theorem On.stop_le {span span' : Span} {tokens tokens' : List Token}
    (order : Token.InOrder (tokens ++ tokens')) (h : span.On tokens) (h' : span'.On tokens') :
    span.stop ≤ span'.start := by
  obtain ⟨-, -, last, mem, -, stop⟩ := h
  obtain ⟨first, mem', -, -, start, -⟩ := h'
  rw [stop, start]
  exact (Token.InOrder.append_iff.1 order).2.2 last mem first mem'

/-- Of tokens in order the first one starts no later than any of them. -/
theorem Covers.start_le {span : Span} {tokens : List Token} (order : Token.InOrder tokens)
    (h : span.Covers tokens) {token : Token} (mem : token ∈ tokens) :
    span.start ≤ token.span.start := by
  obtain ⟨first, head, -, -, start, -⟩ := h
  cases tokens with
  | nil => simp at mem
  | cons head' tail =>
    obtain rfl := Option.mem_some.1 head
    obtain ⟨lt, -, cross⟩ := Token.InOrder.cons_iff.1 order
    obtain rfl | mem := List.mem_cons.1 mem
    · exact Nat.le_of_eq start
    · have := cross token mem
      omega

/-- Of tokens in order the last one stops no earlier than any of them. -/
theorem Covers.le_stop {span : Span} {tokens : List Token} (order : Token.InOrder tokens)
    (h : span.Covers tokens) {token : Token} (mem : token ∈ tokens) :
    token.span.stop ≤ span.stop := by
  obtain ⟨-, -, last, mem_last, -, stop⟩ := h
  obtain ⟨front, rfl⟩ := List.getLast?_eq_some_iff.1 mem_last
  obtain ⟨-, singleton, cross⟩ := Token.InOrder.append_iff.1 order
  have lt := singleton.start_lt_stop last (by simp)
  obtain mem | mem := List.mem_append.1 mem
  · have := cross token mem last (by simp)
    omega
  · rw [List.mem_singleton.1 mem]
    exact Nat.le_of_eq stop.symm

/-- A span on tokens in order lies inside the one over them all. -/
theorem On.within {span outer : Span} {tokens : List Token} (order : Token.InOrder tokens)
    (h : span.On tokens) (around : outer.Covers tokens) : span.within outer = true := by
  obtain ⟨first, mem, last, mem', start, stop⟩ := h
  have := around.start_le order mem
  have := around.le_stop order mem'
  rw [Span.within_iff]
  omega

/-- A span over tokens in order is not empty. -/
theorem Covers.start_lt_stop {span : Span} {tokens : List Token} (order : Token.InOrder tokens)
    (h : span.Covers tokens) : span.start < span.stop := by
  obtain ⟨first, mem, -, -, start, -⟩ := id h
  have mem := List.mem_of_head? mem
  have := order.start_lt_stop first mem
  have := h.le_stop order mem
  omega

end Span

/-! ## The tokens of a text -/

namespace Lexing

/-- The tokens of a text are in order and start no earlier than the text. -/
theorem inOrder_ofTextFrom (afterOperand : Bool) (start : Nat) (text : Text) :
    Token.InOrder (ofTextFrom afterOperand start text).tokens ∧
      ∀ token ∈ (ofTextFrom afterOperand start text).tokens, start ≤ token.span.start := by
  fun_induction ofTextFrom afterOperand start text with
  | case1 => exact ⟨⟨by simp, by simp⟩, by simp⟩
  | case2 afterOperand start c rest layout ih =>
    refine ⟨ih.1, fun token mem => ?_⟩
    have := ih.2 token mem
    omega
  | case3 afterOperand start c rest _ lexeme more _ stop later ih =>
    obtain ⟨order, behind⟩ := ih
    refine ⟨Token.InOrder.cons_iff.2 ⟨?_, order, behind⟩, fun token mem => ?_⟩
    · show start < start + 1 + more
      omega
    · obtain rfl | mem := List.mem_cons.1 mem
      · exact Nat.le_refl start
      · have := behind token mem
        omega
  | case4 => exact ⟨⟨by simp, by simp⟩, by simp⟩
  | case5 => exact ⟨⟨by simp, by simp⟩, by simp⟩

/-- **The tokens of a text are in order.** -/
theorem inOrder_ofText (text : Text) : Token.InOrder (ofText text).tokens :=
  (inOrder_ofTextFrom false 0 text).1

end Lexing

end LocationPath
