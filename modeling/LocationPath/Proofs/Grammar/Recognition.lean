import LocationPath.Proofs.Grammar.Completeness
import LocationPath.Proofs.Grammar.Soundness
import LocationPath.Proofs.Lexing.Tokenized

/-! # The expressions that are accepted

A list of tokens is accepted exactly if its classes are derivable, and the tree is what the one
derivation of the tokens builds. Productions look at the classes of tokens only, so a derivation can
be moved to other tokens of the same classes.

Main definition: `Alike`. Main results: `Derivation.exists_of_alike`,
`Node.ofTokens_eq_ok_iff` and `Node.ofTokens_recognizes`. -/

namespace LocationPath

/-! ## Tokens of the same classes -/

/-- Two lists of tokens have the same classes in the same order. -/
def Alike (tokens tokens' : List Token) : Prop :=
  tokens.map (·.lexeme.typeName) = tokens'.map (·.lexeme.typeName)

namespace Lexeme

/-- One lexeme of each class. -/
def samples : List Lexeme :=
  [.slash, .slashes, .dot, .dots, .axisMark, .atSign, .openParen, .closeParen, .openBracket,
    .closeBracket, .bar, .equal, .less, .plus, .minus, .times, .star, .comma, .colon, .dollar,
    .literal [], .float .nan, .integer 0, .name [], .nodeType [], .word .or, .word .and,
    .word .div, .word .idiv, .word .mod, .word .eq]

/-- The lexeme that stands for all of a class. -/
def sample : Lexeme → Lexeme
  | .equal | .notEqual => .equal
  | .less | .lessEqual | .greater | .greaterEqual => .less
  | .literal _ => .literal []
  | .float _ => .float .nan
  | .integer _ => .integer 0
  | .name _ => .name []
  | .nodeType _ => .nodeType []
  | .word .ne | .word .lt | .word .le | .word .gt | .word .ge => .word .eq
  | lexeme => lexeme

/-- The sample of a lexeme is one of the samples. -/
theorem sample_mem (lexeme : Lexeme) : lexeme.sample ∈ samples := by
  cases lexeme with
  | word word => cases word <;> simp [sample, samples]
  | _ => simp [sample, samples]

/-- The sample of a lexeme is of its class. -/
theorem typeName_sample (lexeme : Lexeme) : lexeme.sample.typeName = lexeme.typeName := by
  cases lexeme with
  | word word => cases word <;> rfl
  | _ => rfl

/-- Each sample is found by the name of its class. -/
theorem find?_samples :
    ∀ lexeme ∈ samples, samples.find? (·.typeName == lexeme.typeName) = some lexeme := by
  decide +kernel

/-- Lexemes of one class have one sample. -/
theorem sample_eq_of_typeName_eq {lexeme other : Lexeme} (h : lexeme.typeName = other.typeName) :
    lexeme.sample = other.sample := by
  have found := find?_samples lexeme.sample lexeme.sample_mem
  have found' := find?_samples other.sample other.sample_mem
  rw [typeName_sample, h, ← typeName_sample other, found'] at found
  exact (Option.some.inj found).symm

/-- Which chain a lexeme is an operator of depends on its class only. -/
theorem chain?_sample (lexeme : Lexeme) : lexeme.sample.chain? = lexeme.chain? := by
  cases lexeme with
  | word word => cases word <;> rfl
  | _ => rfl

/-- Whether a lexeme is the only one of its class, and productions name the class. -/
def alone : Lexeme → Bool
  | .slash | .slashes | .dot | .dots | .axisMark | .atSign | .openParen | .closeParen => true
  | .openBracket | .closeBracket | .minus | .star | .comma | .colon | .dollar => true
  | _ => false

/-- A lexeme of the class of one that is alone in it is that one. -/
theorem eq_of_alone {lexeme fixed : Lexeme} (alone : fixed.alone = true)
    (h : lexeme.typeName = fixed.typeName) : lexeme = fixed := by
  have sample_fixed : fixed.sample = fixed := by
    cases fixed <;> simp_all [Lexeme.alone, sample]
  have sample_eq : lexeme.sample = fixed := by rw [sample_eq_of_typeName_eq h, sample_fixed]
  cases lexeme with
  | word word => cases word <;> simp_all [← sample_eq, Lexeme.alone, sample]
  | _ => simp_all [← sample_eq, Lexeme.alone, sample]

/-- A lexeme carries a value of the kind that another one carries, if that carries any. -/
def Carries (lexeme : Lexeme) : Lexeme → Prop
  | .name _ => ∃ text, lexeme = .name text
  | .nodeType _ => ∃ type, lexeme = .nodeType type
  | .literal _ => ∃ value, lexeme = .literal value
  | .float _ => ∃ value, lexeme = .float value
  | .integer _ => ∃ value, lexeme = .integer value
  | _ => True

/-- Lexemes of one class carry values of the same kind. -/
theorem carries_of_typeName_eq {lexeme other : Lexeme} (h : lexeme.typeName = other.typeName) :
    lexeme.Carries other := by
  have sample_eq := sample_eq_of_typeName_eq h
  cases other with
  | name | nodeType | literal | float | integer =>
    cases lexeme with
    | word word => cases word <;> simp [sample] at sample_eq
    | _ => simp_all [sample, Carries]
  | _ => trivial

end Lexeme

/-- Operators of one class are operators of the same chains. -/
theorem Chain.joins_of_typeName_eq {chain : Chain} {lexeme other : Lexeme}
    (h : lexeme.typeName = other.typeName) (joins : chain.joins other = true) :
    chain.joins lexeme = true := by
  rw [joins_iff] at joins ⊢
  rw [← Lexeme.chain?_sample, Lexeme.sample_eq_of_typeName_eq h, Lexeme.chain?_sample, joins]

/-- No other tokens are like none. -/
@[simp] theorem alike_nil {tokens : List Token} : Alike tokens [] ↔ tokens = [] := by
  simp [Alike]

/-- Tokens are like a first one and others if their parts are. -/
theorem Alike.exists_cons {tokens tail : List Token} {first : Token}
    (h : Alike tokens (first :: tail)) : ∃ lexeme span behind, tokens = ⟨lexeme, span⟩ :: behind ∧
      lexeme.typeName = first.lexeme.typeName ∧ Alike behind tail := by
  obtain ⟨⟨lexeme, span⟩, behind, rfl, eq, alike⟩ := List.map_eq_cons_iff.1 h
  exact ⟨lexeme, span, behind, rfl, eq, alike⟩

/-- Tokens are like two lists behind one another if their parts are. -/
theorem Alike.exists_append {tokens first second : List Token}
    (h : Alike tokens (first ++ second)) : ∃ front behind, tokens = front ++ behind ∧
      Alike front first ∧ Alike behind second := by
  rw [Alike, List.map_append, List.map_eq_append_iff] at h
  obtain ⟨front, behind, rfl, alike, alike'⟩ := h
  exact ⟨front, behind, rfl, alike, alike'⟩

/-- Tokens are like a lexeme that is alone in its class and others if they begin with it. -/
theorem Alike.exists_fixed {tokens tail : List Token} {fixed : Lexeme} {place : Span}
    (h : Alike tokens (⟨fixed, place⟩ :: tail)) (alone : fixed.alone = true) :
    ∃ span behind, tokens = ⟨fixed, span⟩ :: behind ∧ Alike behind tail := by
  obtain ⟨lexeme, span, behind, rfl, eq, alike⟩ := h.exists_cons
  exact ⟨span, behind, by rw [Lexeme.eq_of_alone alone eq], alike⟩

/-- Tokens are like one that is alone in its class if they are that one. -/
theorem Alike.exists_only {tokens : List Token} {fixed : Lexeme} {place : Span}
    (h : Alike tokens [⟨fixed, place⟩]) (alone : fixed.alone = true) :
    ∃ span, tokens = [⟨fixed, span⟩] := by
  obtain ⟨span, behind, rfl, alike⟩ := h.exists_fixed alone
  obtain rfl := alike_nil.1 alike
  exact ⟨span, rfl⟩

/-- Tokens are like a first one that carries a value if they begin with one that carries such a
value. -/
theorem Alike.exists_carrying {tokens tail : List Token} {lexeme : Lexeme} {place : Span}
    (h : Alike tokens (⟨lexeme, place⟩ :: tail)) :
    ∃ other span behind, tokens = ⟨other, span⟩ :: behind ∧ other.Carries lexeme ∧
      Alike behind tail := by
  obtain ⟨other, span, behind, rfl, eq, alike⟩ := h.exists_cons
  exact ⟨other, span, behind, rfl, Lexeme.carries_of_typeName_eq eq, alike⟩

/-- Tokens are like a name and others if they begin with a name. -/
theorem Alike.exists_name {tokens tail : List Token} {text : Text} {place : Span}
    (h : Alike tokens (⟨.name text, place⟩ :: tail)) :
    ∃ other span behind, tokens = ⟨.name other, span⟩ :: behind ∧ Alike behind tail := by
  obtain ⟨-, span, behind, rfl, ⟨other, rfl⟩, alike⟩ := h.exists_carrying
  exact ⟨other, span, behind, rfl, alike⟩

/-- Tokens are like a node type and others if they begin with a node type. -/
theorem Alike.exists_nodeType {tokens tail : List Token} {text : Text} {place : Span}
    (h : Alike tokens (⟨.nodeType text, place⟩ :: tail)) :
    ∃ other span behind, tokens = ⟨.nodeType other, span⟩ :: behind ∧ Alike behind tail := by
  obtain ⟨-, span, behind, rfl, ⟨other, rfl⟩, alike⟩ := h.exists_carrying
  exact ⟨other, span, behind, rfl, alike⟩

namespace Derivation

/-! ## Derivations of the same classes -/

/-- Tokens of the same classes as those of a derivation are derived as the same phrase. -/
def Transfers {phrase : Phrase} (derivation : Derivation phrase) : Prop :=
  ∀ {other : List Token}, Alike other derivation.tokens →
    ∃ moved : Derivation phrase, moved.tokens = other

/-- What is like a part with tokens behind it is such a part with such tokens behind it. -/
theorem Transfers.before {phrase : Phrase} {part : Derivation phrase} (transfers : part.Transfers)
    {other tail : List Token} (h : Alike other (part.tokens ++ tail)) :
    ∃ (moved : Derivation phrase) (behind : List Token),
      other = moved.tokens ++ behind ∧ Alike behind tail := by
  obtain ⟨front, behind, rfl, alike, next⟩ := h.exists_append
  obtain ⟨moved, rfl⟩ := transfers alike
  exact ⟨moved, behind, rfl, next⟩

/-- What is like two parts behind one another is two such parts. -/
theorem Transfers.append {phrase phrase' : Phrase} {first : Derivation phrase}
    {second : Derivation phrase'} (transfers : first.Transfers) (transfers' : second.Transfers)
    {other : List Token} (h : Alike other (first.tokens ++ second.tokens)) :
    ∃ (moved : Derivation phrase) (moved' : Derivation phrase'),
      other = moved.tokens ++ moved'.tokens := by
  obtain ⟨moved, behind, rfl, alike⟩ := transfers.before h
  obtain ⟨moved', rfl⟩ := transfers' alike
  exact ⟨moved, moved', rfl⟩

/-- What is like a part behind a token that is alone in its class is such a part behind it. -/
theorem Transfers.behind {phrase : Phrase} {part : Derivation phrase} (transfers : part.Transfers)
    {other : List Token} {fixed : Lexeme} {place : Span}
    (h : Alike other (⟨fixed, place⟩ :: part.tokens)) (alone : fixed.alone = true) :
    ∃ (span : Span) (moved : Derivation phrase), other = ⟨fixed, span⟩ :: moved.tokens := by
  obtain ⟨span, behind, rfl, alike⟩ := h.exists_fixed alone
  obtain ⟨moved, rfl⟩ := transfers alike
  exact ⟨span, moved, rfl⟩

/-- What is like a part between two tokens that are alone in their classes is such a part between
them. -/
theorem Transfers.between {phrase : Phrase} {part : Derivation phrase} (transfers : part.Transfers)
    {other : List Token} {opening closing : Lexeme} {first last : Span}
    (h : Alike other (⟨opening, first⟩ :: (part.tokens ++ [⟨closing, last⟩])))
    (alone : opening.alone = true) (alone' : closing.alone = true) :
    ∃ (first : Span) (moved : Derivation phrase) (last : Span),
      other = ⟨opening, first⟩ :: (moved.tokens ++ [⟨closing, last⟩]) := by
  obtain ⟨first, behind, rfl, alike⟩ := h.exists_fixed alone
  obtain ⟨moved, behind, rfl, next⟩ := transfers.before alike
  obtain ⟨last, rfl⟩ := next.exists_only alone'
  exact ⟨first, moved, last, rfl⟩

/-- Every derivation can be moved to other tokens of the same classes. -/
theorem transfers {phrase : Phrase} (derivation : Derivation phrase) : derivation.Transfers := by
  intro other h
  induction derivation generalizing other with
  | operand only ih =>
    obtain ⟨only, rfl⟩ := ih h
    exact ⟨.operand only, rfl⟩
  | link left op joins right ihl ihr =>
    obtain ⟨left, behind, rfl, next⟩ := Transfers.before ihl h
    obtain ⟨lexeme, span, behind, rfl, eq, further⟩ := next.exists_cons
    obtain ⟨right, rfl⟩ := ihr further
    -- Another operator of the class joins the same operands.
    exact ⟨.link left ⟨lexeme, span⟩ (Chain.joins_of_typeName_eq eq joins) right, rfl⟩
  | negated minus negative ih =>
    obtain ⟨span, negative, rfl⟩ := Transfers.behind ih h rfl
    exact ⟨.negated span negative, rfl⟩
  | unnegated union ih =>
    obtain ⟨union, rfl⟩ := ih h
    exact ⟨.unnegated union, rfl⟩
  | relative steps ih =>
    obtain ⟨steps, rfl⟩ := ih h
    exact ⟨.relative steps, rfl⟩
  | root slash =>
    obtain ⟨span, rfl⟩ := h.exists_only rfl
    exact ⟨.root span, rfl⟩
  | absolute slash steps ih =>
    obtain ⟨span, steps, rfl⟩ := Transfers.behind ih h rfl
    exact ⟨.absolute span steps, rfl⟩
  | anywhere slashes steps ih =>
    obtain ⟨span, steps, rfl⟩ := Transfers.behind ih h rfl
    exact ⟨.anywhere span steps, rfl⟩
  | axisStep step ih =>
    obtain ⟨step, rfl⟩ := ih h
    exact ⟨.axisStep step, rfl⟩
  | filterStep step ih =>
    obtain ⟨step, rfl⟩ := ih h
    exact ⟨.filterStep step, rfl⟩
  | testStep test conditions iht ihc =>
    obtain ⟨test, conditions, rfl⟩ := Transfers.append iht ihc h
    exact ⟨.testStep test conditions, rfl⟩
  | attributeStep sign test conditions iht ihc =>
    obtain ⟨span, behind, rfl, alike⟩ := h.exists_fixed rfl
    obtain ⟨test, conditions, rfl⟩ := Transfers.append iht ihc alike
    exact ⟨.attributeStep span test conditions, rfl⟩
  | namedAxisStep axis name mark test conditions iht ihc =>
    obtain ⟨axis, first, behind, rfl, alike⟩ := h.exists_name
    obtain ⟨span, behind, rfl, next⟩ := alike.exists_fixed rfl
    obtain ⟨test, conditions, rfl⟩ := Transfers.append iht ihc next
    exact ⟨.namedAxisStep axis first span test conditions, rfl⟩
  | selfStep dot conditions ih =>
    obtain ⟨span, conditions, rfl⟩ := Transfers.behind ih h rfl
    exact ⟨.selfStep span conditions, rfl⟩
  | parentStep dots conditions ih =>
    obtain ⟨span, conditions, rfl⟩ := Transfers.behind ih h rfl
    exact ⟨.parentStep span conditions, rfl⟩
  | nameTest name ih =>
    obtain ⟨name, rfl⟩ := ih h
    exact ⟨.nameTest name, rfl⟩
  | anyTest star =>
    obtain ⟨span, rfl⟩ := h.exists_only rfl
    exact ⟨.anyTest span, rfl⟩
  | anyQualifiedTest qualifier first colon star =>
    obtain ⟨qualifier, first, behind, rfl, alike⟩ := h.exists_name
    obtain ⟨colon, behind, rfl, next⟩ := alike.exists_fixed rfl
    obtain ⟨star, rfl⟩ := next.exists_only rfl
    exact ⟨.anyQualifiedTest qualifier first colon star, rfl⟩
  | typeTest type name opening closing =>
    obtain ⟨type, name, behind, rfl, alike⟩ := h.exists_nodeType
    obtain ⟨opening, behind, rfl, next⟩ := alike.exists_fixed rfl
    obtain ⟨closing, rfl⟩ := next.exists_only rfl
    exact ⟨.typeTest type name opening closing, rfl⟩
  | typeTestFor type name opening value literal closing =>
    obtain ⟨type, name, behind, rfl, alike⟩ := h.exists_nodeType
    obtain ⟨opening, behind, rfl, next⟩ := alike.exists_fixed rfl
    obtain ⟨-, literal, behind, rfl, ⟨value, rfl⟩, further⟩ := next.exists_carrying
    obtain ⟨closing, rfl⟩ := further.exists_only rfl
    exact ⟨.typeTestFor type name opening value literal closing, rfl⟩
  | plainName name span =>
    obtain ⟨name, span, behind, rfl, alike⟩ := h.exists_name
    obtain rfl := alike_nil.1 alike
    exact ⟨.plainName name span, rfl⟩
  | prefixedName qualifier name first colon last =>
    obtain ⟨qualifier, first, behind, rfl, alike⟩ := h.exists_name
    obtain ⟨colon, behind, rfl, next⟩ := alike.exists_fixed rfl
    obtain ⟨name, last, behind, rfl, further⟩ := next.exists_name
    obtain rfl := alike_nil.1 further
    exact ⟨.prefixedName qualifier name first colon last, rfl⟩
  | noPredicate =>
    obtain rfl := alike_nil.1 h
    exact ⟨.noPredicate, rfl⟩
  | morePredicates earlier last ihe ihl =>
    obtain ⟨earlier, last, rfl⟩ := Transfers.append ihe ihl h
    exact ⟨.morePredicates earlier last, rfl⟩
  | predicate opening condition closing ih =>
    obtain ⟨opening, condition, closing, rfl⟩ := Transfers.between ih h rfl rfl
    exact ⟨.predicate opening condition closing, rfl⟩
  | filtered base conditions ihb ihc =>
    obtain ⟨base, conditions, rfl⟩ := Transfers.append ihb ihc h
    exact ⟨.filtered base conditions, rfl⟩
  | reference dollar name ih =>
    obtain ⟨dollar, name, rfl⟩ := Transfers.behind ih h rfl
    exact ⟨.reference dollar name, rfl⟩
  | group opening inner closing ih =>
    obtain ⟨opening, inner, closing, rfl⟩ := Transfers.between ih h rfl rfl
    exact ⟨.group opening inner closing, rfl⟩
  | emptySequence opening closing =>
    obtain ⟨opening, behind, rfl, alike⟩ := h.exists_fixed rfl
    obtain ⟨closing, rfl⟩ := alike.exists_only rfl
    exact ⟨.emptySequence opening closing, rfl⟩
  | text value span =>
    obtain ⟨-, span, behind, rfl, ⟨value, rfl⟩, alike⟩ := h.exists_carrying
    obtain rfl := alike_nil.1 alike
    exact ⟨.text value span, rfl⟩
  | float value span =>
    obtain ⟨-, span, behind, rfl, ⟨value, rfl⟩, alike⟩ := h.exists_carrying
    obtain rfl := alike_nil.1 alike
    exact ⟨.float value span, rfl⟩
  | integer value span =>
    obtain ⟨-, span, behind, rfl, ⟨value, rfl⟩, alike⟩ := h.exists_carrying
    obtain rfl := alike_nil.1 alike
    exact ⟨.integer value span, rfl⟩
  | emptyCall name opening closing ih =>
    obtain ⟨name, behind, rfl, next⟩ := Transfers.before ih h
    obtain ⟨opening, behind, rfl, further⟩ := next.exists_fixed rfl
    obtain ⟨closing, rfl⟩ := further.exists_only rfl
    exact ⟨.emptyCall name opening closing, rfl⟩
  | call name opening arguments closing ihn iha =>
    obtain ⟨name, behind, rfl, next⟩ := Transfers.before ihn h
    obtain ⟨opening, arguments, closing, rfl⟩ := Transfers.between iha next rfl rfl
    exact ⟨.call name opening arguments closing, rfl⟩
  | argument only ih =>
    obtain ⟨only, rfl⟩ := ih h
    exact ⟨.argument only, rfl⟩
  | moreArguments earlier comma last ihe ihl =>
    obtain ⟨earlier, behind, rfl, next⟩ := Transfers.before ihe h
    obtain ⟨comma, last, rfl⟩ := Transfers.behind ihl next rfl
    exact ⟨.moreArguments earlier comma last, rfl⟩

/-- **Tokens of the same classes as derived ones are derived too.** -/
theorem exists_of_alike {phrase : Phrase} (derivation : Derivation phrase) {other : List Token}
    (h : Alike other derivation.tokens) : ∃ moved : Derivation phrase, moved.tokens = other :=
  derivation.transfers h

end Derivation

/-! ## The parser -/

/-- Tokens are accepted exactly if reading takes them all. -/
theorem Node.ofTokens_eq_ok_iff_gives {tokens : List Token} {tree : Node} :
    Node.ofTokens tokens = .ok tree ↔
      (Reading.expression (.chain .sequence) tokens).Gives tree [] := by
  unfold Node.ofTokens
  split
  · rename_i error eq
    rw [eq]
    exact ⟨fun h => by simp at h, fun h => absurd h Reading.not_gives_error⟩
  · rename_i node lt eq
    rw [eq, Reading.gives_ok]
    simp [eq_comm]
  · rename_i node token rest lt eq
    rw [eq, Reading.gives_ok]
    simp

/-- The tree of some tokens is what a derivation of them builds. -/
theorem Node.ofTokens_eq_ok_iff {tokens : List Token} {tree : Node} :
    Node.ofTokens tokens = .ok tree ↔
      ∃ derivation : Derivation .expression,
        derivation.tokens = tokens ∧ derivation.value = tree := by
  rw [Node.ofTokens_eq_ok_iff_gives]
  constructor
  · intro gives
    obtain ⟨derivation, tokens_eq, value_eq⟩ := Reading.sound _ _ _ _ gives
    rw [List.append_nil] at tokens_eq
    exact ⟨derivation, tokens_eq, value_eq⟩
  · rintro ⟨derivation, rfl, rfl⟩
    have := derivation.gives_of_stops (Level.stops_nil _)
    rwa [List.append_nil] at this

/-- The tree of a text is that of its tokens, all of which must have been read. -/
theorem Node.parse_eq_ok_iff {text : Text} {tree : Node} :
    Node.parse text = .ok tree ↔
      (Lexing.ofText text).ending = .finished ∧
        Node.ofTokens (Lexing.ofText text).tokens = .ok tree := by
  rw [← @Ending.error?_eq_none_iff (some text), Node.parse]
  split
  · rename_i token behind error eq
    simp [eq]
  · rename_i error ended _
    simp [ended]
  · rename_i eq _
    simp [eq]
  · rename_i found eq finished
    simp [eq, finished]

/-- The tree of a text is what a derivation builds of the tokens that the text is. -/
theorem Node.parse_eq_ok_iff_exists {text : Text} {tree : Node} :
    Node.parse text = .ok tree ↔ ∃ derivation : Derivation .expression,
      Tokenized false 0 text derivation.tokens ∧ derivation.value = tree := by
  rw [Node.parse_eq_ok_iff, Node.ofTokens_eq_ok_iff]
  constructor
  · rintro ⟨finished, derivation, tokens_eq, value_eq⟩
    refine ⟨derivation, tokenized_iff.2 ?_, value_eq⟩
    rw [tokens_eq, ← finished]
    rfl
  · rintro ⟨derivation, tokenized, value_eq⟩
    rw [Lexing.ofText, tokenized_iff.1 tokenized]
    exact ⟨rfl, derivation, rfl, value_eq⟩

/-- **The parser accepts exactly its grammar.** A tree is found exactly if the classes of the tokens
are derivable; it is found exactly if a derivation of the tokens builds it; and there is no more
than one derivation of them. -/
theorem Node.ofTokens_recognizes (tokens : List Token) :
    ((∃ tree, Node.ofTokens tokens = .ok tree) ↔
      ∃ derivation : Derivation .expression,
        derivation.tokens.map (·.lexeme.typeName) = tokens.map (·.lexeme.typeName)) ∧
    (∀ tree, Node.ofTokens tokens = .ok tree ↔
      ∃ derivation : Derivation .expression,
        derivation.tokens = tokens ∧ derivation.value = tree) ∧
    ∀ derivation other : Derivation .expression,
      derivation.tokens = tokens → other.tokens = tokens → derivation = other := by
  refine ⟨⟨?_, ?_⟩, fun tree => Node.ofTokens_eq_ok_iff, ?_⟩
  · rintro ⟨tree, found⟩
    obtain ⟨derivation, rfl, -⟩ := Node.ofTokens_eq_ok_iff.1 found
    exact ⟨derivation, rfl⟩
  · rintro ⟨derivation, alike⟩
    have alike' : Alike tokens derivation.tokens := alike.symm
    obtain ⟨moved, eq⟩ := derivation.exists_of_alike alike'
    exact ⟨moved.value, Node.ofTokens_eq_ok_iff.2 ⟨moved, eq, rfl⟩⟩
  · intro derivation other eq eq'
    exact Derivation.eq_of_tokens_eq (eq.trans eq'.symm) (Level.stops_nil _)

end LocationPath
