import LocationPath.Token.Lexer

/-! # Errors

What can be wrong with an expression or with what is asked of a path, each with its message.

Main definitions: `SyntaxError` (a text is no expression), `PathError` (all errors of the library)
and `Ending.error?` (the error that ends the reading of tokens). -/

namespace LocationPath

/-- What is wrong at a place of an expression. -/
inductive Fault where
  /-- The text ends where the expression has to go on. -/
  | unexpectedEnd
  /-- A token with a value stands where no expression can go on with it. -/
  | unexpected (value : Scalar)
  /-- No token starts with the text `rest`. -/
  | unknownText (rest : Text)
  deriving DecidableEq

/-- A fault in words. -/
def Fault.message : Fault → Text
  | .unexpectedEnd => "Unexpected end of expression".toList
  | .unexpected value => "Unexpected '".toList ++ value.plain ++ ['\'']
  | .unknownText rest => "Unknown text '".toList ++ rest ++ ['\'']

/-- A message with the text that it is about and the position in it. Without a text the message
stands alone; without a position the fault is at the end. -/
def located (message : Text) (text : Option Text) (position : Option Nat) : Text :=
  match text, position with
  | none, _ => message
  | some text, none => message ++ " in ".toList ++ text.quoted ++ " (at end of expression)".toList
  | some text, some position =>
    message ++ " in ".toList ++ text.quoted ++ " at position ".toList ++ Text.ofNat position

/-- A text is no expression. -/
structure SyntaxError where
  /-- What is wrong. -/
  fault : Fault
  /-- The whole text, if it is known. -/
  text : Option Text
  /-- The position of the fault, unless it is at the end. -/
  position : Option Nat
  deriving DecidableEq

/-- A syntax error in words. -/
def SyntaxError.message (error : SyntaxError) : Text :=
  located error.fault.message error.text error.position

/-- What can be wrong with an expression or with what is asked of a path. -/
inductive PathError where
  /-- A text is no expression. -/
  | malformed (error : SyntaxError)
  /-- A text holds an integer with more digits than can be converted. -/
  | integerTooLong
  /-- A step has a blank text. -/
  | blankStep
  /-- A path has no step that an axis could be applied to. -/
  | nothingToQualify (axis path : Text)
  /-- The second path goes back further than the first one leads. -/
  | nothingToGoBackFrom (first second : Text)
  /-- A path has no step to an element. -/
  | noElementStep
  /-- Two steps that are the same are asked which one is narrower. -/
  | sameStep
  deriving DecidableEq

/-- An error in words; an integer that is too long is reported without any. -/
def PathError.message? : PathError → Option Text
  | .malformed error => some error.message
  | .integerTooLong => none
  | .blankStep => some "Step text must not be empty".toList
  | .nothingToQualify axis path =>
    some ("No steps left in ".toList ++ path.quoted ++ " to apply axis ".toList ++ axis.quoted ++
      " to".toList)
  | .nothingToGoBackFrom first second =>
    some ("Cannot join ".toList ++ second.quoted ++ " to ".toList ++ first.quoted ++
      ": no step left to go back from".toList)
  | .noElementStep => some "Path has no element steps".toList
  | .sameStep =>
    some "is_same_as_or_narrower_than() called without checking is_same_as() first".toList

/-- The error that the reading of tokens ends with, if any, in a text that may be known. -/
def Ending.error? (text : Option Text) : Ending → Option PathError
  | .finished => none
  | .unknown rest position => some (.malformed ⟨.unknownText rest, text, some position⟩)
  | .tooLong => some .integerTooLong

/-- Reading that comes to the end of the text ends without an error, and no other reading does. -/
theorem Ending.error?_eq_none_iff {text : Option Text} {ending : Ending} :
    ending.error? text = none ↔ ending = .finished := by
  cases ending <;> simp [Ending.error?]

/-- One computation after another comes to a result if both do. -/
theorem bind_eq_ok_iff {ε α β : Type} {first : Except ε α} {second : α → Except ε β} {result : β} :
    (first >>= second) = .ok result ↔
      ∃ middle, first = .ok middle ∧ second middle = .ok result := by
  cases first with
  | error error => simp [bind, Except.bind]
  | ok middle => simp [bind, Except.bind]

/-- One computation after another comes to an error if the first does, or the second after it. -/
theorem bind_eq_error_iff {ε α β : Type} {first : Except ε α} {second : α → Except ε β} {error : ε} :
    (first >>= second) = .error error ↔
      first = .error error ∨ ∃ middle, first = .ok middle ∧ second middle = .error error := by
  cases first with
  | error found => simp [bind, Except.bind]
  | ok middle => simp [bind, Except.bind]

/-- A computation with a finished result comes to that result if it comes to one that is finished
so. -/
theorem map_eq_ok_iff {ε α β : Type} {first : Except ε α} {finish : α → β} {result : β} :
    first.map finish = .ok result ↔ ∃ found, first = .ok found ∧ finish found = result := by
  cases first with
  | error error => simp [Except.map]
  | ok found => simp [Except.map]

end LocationPath
