import LocationPath.Proofs.Grammar.Boundary
import LocationPath.Proofs.Grammar.Outcome

/-! # One token ahead

What a reading finds depends on the tokens that it takes and on the first one that it leaves, and on
nothing behind that one. This holds of each single choice by the first token, and it passes from two
readings to one behind the other.

Main definition: `LooksAhead`. Main result: `Reading.looks`. -/

namespace LocationPath

variable {α β : Type}

/-- A reading of at most `limit` tokens leaves the end of them, and it **looks ahead** at no more
than the first token that it leaves: others behind that one would change nothing. -/
structure LooksAhead (limit : Nat) (read : List Token → Outcome α) : Prop where
  /-- What is left is the end of the tokens. -/
  suffix : ∀ tokens, tokens.length ≤ limit → (read tokens).2 <:+ tokens
  /-- What stands behind the first token that is left does not matter. -/
  same : ∀ (taken : List Token) (token : Token) (rest other : List Token) (found : Option α),
    (taken ++ token :: rest).length ≤ limit → read (taken ++ token :: rest) = (found, token :: rest) →
      read (taken ++ token :: other) = (found, token :: other)

namespace LooksAhead

variable {limit : Nat}

/-- Fewer tokens are read alike. -/
theorem of_le {more : Nat} {read : List Token → Outcome α} (h : LooksAhead more read)
    (le : limit ≤ more) : LooksAhead limit read where
  suffix tokens short := h.suffix tokens (by omega)
  same taken token rest other found short := h.same taken token rest other found (by omega)

/-- Finding something without taking any token looks at none. -/
theorem leave (found : Option α) : LooksAhead limit fun tokens => (found, tokens) where
  suffix tokens _ := List.suffix_rfl
  same taken token rest other found' _ h := by
    obtain ⟨rfl, eq⟩ := Prod.mk.inj h
    obtain rfl := List.append_left_eq_self.1 eq
    rfl

/-- One reading behind another one looks as far ahead as each of them, where the second one is about
the tokens that the first one leaves. -/
theorem andThen_left {first : List Token → Outcome α} {next : α → List Token → Outcome β}
    (first_looks : LooksAhead limit first)
    (next_looks : ∀ tokens value middle, tokens.length ≤ limit →
      first tokens = (some value, middle) → LooksAhead middle.length (next value)) :
    LooksAhead limit fun tokens => (first tokens).andThen (next · ·) where
  suffix tokens short := by
    have left := first_looks.suffix tokens short
    rcases eq : first tokens with ⟨_ | value, middle⟩ <;> rw [eq] at left
    · exact left
    · exact ((next_looks tokens value middle short eq).suffix middle (Nat.le_refl _)).trans left
  same taken token rest other found short h := by
    have left := first_looks.suffix _ short
    rcases eq : first (taken ++ token :: rest) with ⟨_ | value, middle⟩ <;> rw [eq] at left h
    · obtain ⟨rfl, rfl⟩ := Prod.mk.inj h
      rw [first_looks.same taken token rest other none short eq]
      rfl
    · -- The first reading has stopped at the token or at one before it.
      have looks := next_looks _ value middle short eq
      have behind := looks.suffix middle (Nat.le_refl _)
      rw [Outcome.andThen_some] at h
      rw [h] at behind
      dsimp only at left behind
      obtain ⟨later, rfl⟩ := behind
      obtain ⟨earlier, split⟩ := left
      obtain rfl : earlier ++ later = taken := by
        rw [← List.append_assoc] at split
        exact List.append_cancel_right split
      have found_first : first (earlier ++ later ++ token :: other) =
          (some value, later ++ token :: other) := by
        -- The token that it has stopped at is the given one, or the first of those before it.
        cases later with
        | nil =>
          rw [List.append_nil] at eq short ⊢
          exact first_looks.same earlier token rest other _ short eq
        | cons here later =>
          rw [List.append_assoc] at eq short ⊢
          exact first_looks.same earlier here (later ++ token :: rest) _ _ short eq
      rw [found_first, Outcome.andThen_some]
      exact looks.same later token rest other found (Nat.le_refl _) h

/-- One reading behind another one looks as far ahead as each of them. -/
theorem andThen {first : List Token → Outcome α} {next : α → List Token → Outcome β}
    (first_looks : LooksAhead limit first) (next_looks : ∀ value, LooksAhead limit (next value)) :
    LooksAhead limit fun tokens => (first tokens).andThen (next · ·) := by
  refine first_looks.andThen_left fun tokens value middle short eq => (next_looks value).of_le ?_
  have left := (first_looks.suffix tokens short).length_le
  rw [eq] at left
  exact Nat.le_trans left short

/-- Finishing what is found looks at no token. -/
theorem finish {read : List Token → Outcome α} (h : LooksAhead limit read) (make : α → β) :
    LooksAhead limit fun tokens => (read tokens).finish make :=
  h.andThen fun value => leave (some (make value))

/-- A reading may choose by the first token whether it takes it and what it goes on with. -/
theorem of_first {read : List Token → Outcome α} (nil : (read []).2 = [])
    (cons : ∀ token : Token, (∀ fewer < limit, LooksAhead fewer fun tail => read (token :: tail)) ∨
      ∃ choice, LooksAhead limit choice ∧ ∀ tail, read (token :: tail) = choice (token :: tail)) :
    LooksAhead limit read where
  suffix tokens short := by
    cases tokens with
    | nil => simp [nil]
    | cons token tail =>
      rcases cons token with takes | ⟨choice, looks, eq⟩
      · exact ((takes tail.length short).suffix tail (Nat.le_refl _)).trans (List.suffix_cons token tail)
      · rw [eq]
        exact looks.suffix _ short
  same taken token rest other found short h := by
    cases taken with
    | nil =>
      rcases cons token with takes | ⟨choice, looks, eq⟩
      · -- A token that is taken cannot be left.
        have left := ((takes rest.length short).suffix rest (Nat.le_refl _)).length_le
        simp only [List.nil_append] at h
        simp only [h, List.length_cons] at left
        omega
      · rw [List.nil_append, eq] at h ⊢
        exact looks.same [] token rest other found short h
    | cons first taken =>
      rcases cons first with takes | ⟨choice, looks, eq⟩
      · exact (takes _ short).same taken token rest other found (Nat.le_refl _) h
      · rw [List.cons_append, eq] at h ⊢
        exact looks.same (first :: taken) token rest other found short h

/-- A reading that is the same as another one looks as far ahead. -/
theorem congr {read read' : List Token → Outcome α} (h : LooksAhead limit read)
    (eq : ∀ tokens, read' tokens = read tokens) : LooksAhead limit read' := by
  rwa [funext eq]

end LooksAhead

/-! ## Heads -/

/-- An expected token is looked at alone. -/
theorem Token.looksAhead_expect (limit : Nat) (lexeme : Lexeme) :
    LooksAhead limit fun tokens => Outcome.of (Token.expect lexeme tokens) := by
  refine .of_first rfl fun token => ?_
  by_cases eq : token.lexeme = lexeme
  · refine .inl fun fewer _ => (LooksAhead.leave (some token.span)).congr fun tail => ?_
    rw [Token.expect, if_pos eq, Outcome.of]
  · refine .inr ⟨_, LooksAhead.leave none, fun tail => ?_⟩
    rw [Token.expect, if_neg eq, Outcome.of]

/-- The tokens of a node test are told by the one behind them. -/
theorem NodeTest.looksAhead (limit : Nat) :
    LooksAhead limit fun tokens => Outcome.of (NodeTest.ofTokens tokens) := by
  refine .of_first rfl fun ⟨lexeme, span⟩ => ?_
  cases lexeme with
  | star => exact .inl fun fewer _ => .leave _
  | name first =>
    refine .inl fun fewer _ => .of_first rfl fun ⟨lexeme, colon⟩ => ?_
    cases lexeme with
    | colon =>
      refine .inl fun fewer _ => .of_first rfl fun ⟨lexeme, last⟩ => ?_
      cases lexeme with
      | name | star => exact .inl fun fewer _ => .leave _
      | _ => exact .inr ⟨_, .leave _, fun tail => rfl⟩
    | _ => exact .inr ⟨_, .leave _, fun tail => rfl⟩
  -- A node type goes on with parentheses, in which a literal may stand.
  | nodeType label =>
    refine .inl fun fewer _ => .of_first rfl fun ⟨lexeme, paren⟩ => ?_
    cases lexeme with
    | openParen =>
      refine .inl fun fewer _ => .of_first rfl fun ⟨lexeme, span⟩ => ?_
      cases lexeme with
      | literal value =>
        refine .inl fun fewer _ => .of_first rfl fun ⟨lexeme, closing⟩ => ?_
        cases lexeme with
        | closeParen => exact .inl fun fewer _ => .leave _
        | _ => exact .inr ⟨_, .leave _, fun tail => rfl⟩
      | closeParen => exact .inl fun fewer _ => .leave _
      | _ => exact .inr ⟨_, .leave _, fun tail => rfl⟩
    | _ => exact .inr ⟨_, .leave _, fun tail => rfl⟩
  | _ => exact .inr ⟨_, .leave _, fun tail => rfl⟩

/-- The name of a variable is told by the token behind it. -/
theorem Opening.looksAhead_variable (limit : Nat) (dollar : Span) :
    LooksAhead limit fun tokens => Outcome.of (Opening.variableOfTokens dollar tokens) := by
  refine .of_first rfl fun ⟨lexeme, span⟩ => ?_
  cases lexeme with
  | name first =>
    refine .inl fun fewer _ => .of_first rfl fun ⟨lexeme, colon⟩ => ?_
    cases lexeme with
    | colon =>
      refine .inl fun fewer _ => .of_first rfl fun ⟨lexeme, last⟩ => ?_
      cases lexeme with
      | name => exact .inl fun fewer _ => .leave _
      | _ => exact .inr ⟨_, .leave _, fun tail => rfl⟩
    | _ => exact .inr ⟨_, .leave _, fun tail => rfl⟩
  | _ => exact .inr ⟨_, .leave _, fun tail => rfl⟩

/-- The finished outcome of taking some tokens. -/
theorem Outcome.of_bind (taking : Except (List Token) (α × List Token)) (make : α → β) :
    Outcome.of (taking >>= fun pair => pure (make pair.1, pair.2)) =
      (Outcome.of taking).finish make := by
  cases taking <;> rfl

/-- What a name opens is told by the tokens behind it, each by the next one. -/
theorem Opening.looksAhead_behind_name (limit : Nat) (first : Text) (span : Span) :
    LooksAhead limit fun tail => Outcome.of (Opening.ofTokens (⟨.name first, span⟩ :: tail)) := by
  refine .of_first rfl fun ⟨lexeme, mark⟩ => ?_
  cases lexeme with
  | openParen =>
    refine .inl fun fewer _ => .of_first rfl fun ⟨lexeme, closing⟩ => ?_
    cases lexeme with
    | closeParen => exact .inl fun fewer _ => .leave _
    | _ => exact .inr ⟨_, .leave _, fun tail => rfl⟩
  -- Behind an axis the node test tells what is read.
  | axisMark =>
    exact .inl fun fewer _ => ((NodeTest.looksAhead fewer).finish _).congr fun tail =>
      Outcome.of_bind (NodeTest.ofTokens tail) fun test =>
        Opening.head (.step span.start (.named first) test)
  -- Only the parenthesis behind the second part of a name makes it a function.
  | colon =>
    refine .inl fun fewer _ => .of_first rfl fun ⟨lexeme, last⟩ => ?_
    cases lexeme with
    | name label =>
      refine .inl fun fewer _ => .of_first rfl fun ⟨lexeme, paren⟩ => ?_
      cases lexeme with
      | openParen =>
        refine .inl fun fewer _ => .of_first rfl fun ⟨lexeme, closing⟩ => ?_
        cases lexeme with
        | closeParen => exact .inl fun fewer _ => .leave _
        | _ => exact .inr ⟨_, .leave _, fun tail => rfl⟩
      | _ => exact .inr ⟨_, .leave _, fun tail => rfl⟩
    | star => exact .inl fun fewer _ => .leave _
    | _ => exact .inr ⟨_, .leave _, fun tail => rfl⟩
  | _ => exact .inr ⟨_, .leave _, fun tail => rfl⟩

/-- How a step starts is told by its first tokens, each by the next one. -/
theorem Opening.looksAhead (limit : Nat) :
    LooksAhead limit fun tokens => Outcome.of (Opening.ofTokens tokens) := by
  refine .of_first rfl fun ⟨lexeme, span⟩ => ?_
  cases lexeme with
  | dot | dots | literal | float | integer => exact .inl fun fewer _ => .leave _
  | dollar =>
    exact .inl fun fewer _ => ((looksAhead_variable fewer span).finish _).congr fun tail =>
      Outcome.of_bind (variableOfTokens span tail) fun reference => Opening.head (.primary reference)
  | openParen =>
    refine .inl fun fewer _ => .of_first rfl fun ⟨lexeme, closing⟩ => ?_
    cases lexeme with
    | closeParen => exact .inl fun fewer _ => .leave _
    | _ => exact .inr ⟨_, .leave _, fun tail => rfl⟩
  | name first => exact .inl fun fewer _ => looksAhead_behind_name fewer first span
  | atSign =>
    exact .inl fun fewer _ => ((NodeTest.looksAhead fewer).finish _).congr fun tail =>
      Outcome.of_bind (NodeTest.ofTokens tail) fun test =>
        Opening.head (.step span.start .attribute test)
  -- All else starts a node test, or nothing at all.
  | _ =>
    exact .inr ⟨_, (NodeTest.looksAhead limit).finish _, fun tail =>
      Outcome.of_bind (NodeTest.ofTokens (_ :: tail)) fun test =>
        Opening.head (.step test.span.start .unwritten test)⟩

/-! ## Expressions -/

namespace Reading

/-- An expression of a level is told by the token behind it, among at most `limit` tokens. -/
def Looks (limit : Nat) (level : Level) : Prop :=
  LooksAhead limit fun tokens => outcome (expression level tokens)

section

variable {limit : Nat} (fewer : ∀ less < limit, ∀ level, Looks less level)

include fewer

/-- Where a chain ends is told by the token behind it. -/
theorem looksAhead_linked (chain : Chain) (left : Node) : LooksAhead limit (linked chain left) := by
  -- Each operator is taken before its operand is read, so the rest of the chain is among fewer tokens.
  induction limit generalizing left with
  | zero => exact .of_first (by rw [linked_nil]) fun token => .inl fun less lt => absurd lt (by simp)
  | succ limit ih =>
    refine .of_first (by rw [linked_nil]) fun token => ?_
    cases joins : chain.joins token.lexeme with
    | false => exact .inr ⟨_, .leave (some left), linked_of_not_joins joins left⟩
    | true =>
      refine .inl fun less lt => ?_
      have further := fun left => (ih (fun less lt => fewer less (by omega)) left).of_le
        (show less ≤ limit by omega)
      exact ((fewer less lt chain.operand).andThen fun right => further _).congr
        (linked_of_joins joins left)

/-- Where predicates end is told by the token behind them. -/
theorem looksAhead_conditions : LooksAhead limit conditions := by
  induction limit with
  | zero =>
    exact .of_first (by rw [conditions_end (by simp)]) fun token =>
      .inl fun less lt => absurd lt (by simp)
  | succ limit ih =>
    refine .of_first (by rw [conditions_end (by simp)]) ?_
    rintro ⟨lexeme, opening⟩
    by_cases bracket : lexeme = .openBracket
    · subst bracket
      refine .inl fun less lt => ?_
      have further := (ih fun less lt => fewer less (by omega)).of_le (show less ≤ limit by omega)
      exact ((fewer less lt (.chain .sequence)).andThen fun inner =>
        (Token.looksAhead_expect less .closeBracket).andThen fun closing =>
          further.finish (.predicate (opening.through closing) inner :: ·)).congr
            (conditions_open opening)
    · exact .inr ⟨_, .leave (some []), fun tail => conditions_end (by simpa using bracket)⟩

/-- What is read behind a head is told by the token behind it. -/
theorem looksAhead_headed (head : Head) : LooksAhead limit (headed head) :=
  (looksAhead_conditions fewer).finish head.withPredicates

end

/-- Where arguments end is told by the parenthesis that closes them. -/
theorem looksAhead_arguments {limit : Nat} (upTo : ∀ less ≤ limit, ∀ level, Looks less level) :
    LooksAhead limit fun tokens => outcome (arguments tokens) := by
  induction limit using Nat.strongRecOn with
  | ind limit ih =>
    -- The first argument may take as many tokens as there are, but further ones stand behind a comma.
    refine ((upTo limit (Nat.le_refl _) _).andThen fun first => ?_).congr outcome_arguments
    refine .of_first rfl ?_
    rintro ⟨lexeme, span⟩
    cases lexeme with
    | comma =>
      refine .inl fun less lt => ?_
      exact (ih less lt fun least le => upTo least (by omega)).finish fun more =>
        (first :: more.1, more.2)
    | closeParen => exact .inl fun less _ => .leave _
    | _ => exact .inr ⟨_, .leave none, fun tail => rfl⟩

/-- What follows an opening is told by the token behind it. -/
theorem looksAhead_opened {limit : Nat} (upTo : ∀ less ≤ limit, ∀ level, Looks less level)
    (opening : Opening) : LooksAhead limit (opened opening) := by
  have fewer : ∀ less < limit, ∀ level, Looks less level := fun less lt => upTo less (by omega)
  cases opening with
  | head head => exact looksAhead_headed fewer head
  | group paren =>
    exact (upTo limit (Nat.le_refl _) (.chain .sequence)).andThen fun inner =>
      (Token.looksAhead_expect limit .closeParen).andThen fun last => looksAhead_headed fewer _
  | call name qualifier function =>
    exact (looksAhead_arguments upTo).andThen fun inner => looksAhead_headed fewer _

section

variable {limit : Nat} (fewer : ∀ less < limit, ∀ level, Looks less level)

include fewer

/-- Where a step ends is told by the token behind it. -/
theorem looksAhead_step : LooksAhead limit fun tokens => outcome (step tokens) := by
  refine LooksAhead.congr ?_ outcome_step
  refine (Opening.looksAhead limit).andThen_left fun tokens opening rest short found => ?_
  -- The opening has taken a token, so all that follows it is among fewer.
  have shorter := Opening.length_lt_of_ofTokens (Outcome.of_eq_some_iff.1 found)
  exact looksAhead_opened (fun less le => fewer less (by omega)) opening

/-- Where a negation ends is told by the token behind it. -/
theorem looks_negation (union_looks : Looks limit (.chain .union)) : Looks limit .negation := by
  apply LooksAhead.of_first
  · rw [outcome_negation (by simp)]
    exact List.suffix_nil.1 (union_looks.suffix [] (Nat.zero_le _))
  rintro ⟨lexeme, span⟩
  by_cases minus : lexeme = .minus
  · subst minus
    exact .inl fun less lt => ((fewer less lt .negation).finish _).congr (outcome_minus span)
  · exact .inr ⟨_, union_looks, fun tail => outcome_negation (by simpa using minus)⟩

/-- Where a path ends is told by the token behind it. -/
theorem looks_path (steps_looks : Looks limit (.chain .steps)) : Looks limit .path := by
  apply LooksAhead.of_first
  · rw [outcome_path (by simp)]
    exact List.suffix_nil.1 (steps_looks.suffix [] (Nat.zero_le _))
  rintro ⟨lexeme, span⟩
  by_cases slash : lexeme = .slash
  · subst slash
    refine .inl fun less lt => ?_
    -- Whether steps follow the root is told by the token behind it.
    refine .of_first (by rw [outcome_slash]; rfl) fun token => .inr ?_
    cases start : token.lexeme.startsStep with
    | true =>
      refine ⟨_, (fewer less lt (.chain .steps)).finish fun steps =>
        .absolute (span.through steps.span) ['/'] steps, fun tail => ?_⟩
      rw [outcome_slash, if_pos (by rw [Opening.canStart_cons, start])]
    | false =>
      refine ⟨_, .leave (some (.root span ['/'])), fun tail => ?_⟩
      rw [outcome_slash, if_neg (by simp [Opening.canStart_cons, start])]
  by_cases slashes : lexeme = .slashes
  · subst slashes
    exact .inl fun less lt => ((fewer less lt (.chain .steps)).finish _).congr (outcome_slashes span)
  · exact .inr ⟨_, steps_looks, fun tail => outcome_path (by simpa using ⟨slash, slashes⟩)⟩

/-- All levels are climbed from the steps upward. -/
theorem looks_of_height (height : Nat) : ∀ level : Level, level.height = height → Looks limit level := by
  induction height using Nat.strongRecOn with
  | ind height ih =>
    rintro level rfl
    cases level with
    | chain chain =>
      exact ((ih _ chain.height_operand_lt chain.operand rfl).andThen
        (looksAhead_linked fewer chain)).congr (outcome_chain chain)
    | negation => exact looks_negation fewer (ih 3 (by decide) _ rfl)
    | path => exact looks_path fewer (ih 1 (by decide) _ rfl)
    | step => exact (looksAhead_step fewer).congr outcome_expression_step

end

/-- **An expression is told by the token behind it**, for every level. -/
theorem looks (limit : Nat) (level : Level) : Looks limit level := by
  induction limit using Nat.strongRecOn generalizing level with
  | ind limit ih => exact looks_of_height (fun less lt level => ih less lt level) _ level rfl

end Reading

end LocationPath
