import LocationPath.Text.Literal
import LocationPath.Text.Name
import LocationPath.Token

/-! # Reading tokens

A text is cut into tokens from left to right. At each place the rules are tried in this order: a
literal, a number with a point, an integer, a name, a star, and then the symbols, of which a longer
one goes before the shorter one that it begins with. Between tokens layout is skipped.

Two rules look around. A star or an operator word is an operator exactly after a token that can end
an operand; and the name of a node type is one only in front of a parenthesis.

Main definitions: `Scan.next` (the token at one place) and `Lexing.ofText` (all of them). -/

namespace LocationPath

/-- What is found at a place where a token must start. -/
inductive Scan where
  /-- A lexeme, and how many characters it takes besides its first one. -/
  | lexeme (lexeme : Lexeme) (more : Nat)
  /-- An integer with more digits than can be converted. -/
  | tooLong
  /-- Nothing that a token can start with. -/
  | unknown
  deriving DecidableEq

/-! ## Numbers -/

/-- The greatest number of digits that an integer may have, leading zeros included. -/
def maxIntegerDigits : Nat := 4300

/-- The number with a point between two runs of digits. -/
def Lexeme.pointed (whole fraction : Text) : Lexeme :=
  .float (.ofDecimal false (Text.numeral (whole ++ fraction)) (-(fraction.length : Int)))

/-- The number that starts with a character. A point needs a digit on one of its sides. -/
def Scan.number? (c : Char) (rest : Text) : Option Scan :=
  if isDigit c then
    let more := rest.takeWhile isDigit
    match rest.drop more.length with
    | '.' :: after =>
      let fraction := after.takeWhile isDigit
      some (.lexeme (.pointed (c :: more) fraction) (more.length + 1 + fraction.length))
    | _ =>
      -- The first digit is counted besides the others.
      if more.length < maxIntegerDigits then
        some (.lexeme (.integer (Text.numeral (c :: more))) more.length)
      else some .tooLong
  -- The point itself stands in place of the digits in front of it.
  else if c = '.' then
    let fraction := rest.takeWhile isDigit
    if fraction.isEmpty then none else some (.lexeme (.pointed [] fraction) fraction.length)
  else none

/-! ## Names -/

/-- The names of the node types. -/
def nodeTypeNames : List Text :=
  ["comment".toList, "text".toList, "processing-instruction".toList, "node".toList]

/-- Whether the first character of a text that is not layout is an opening parenthesis. -/
def opensParen (text : Text) : Bool := (text.dropWhile isLayout).head? == some '('

/-- What a name says after an operand or elsewhere, in front of the text `after`. -/
def Lexeme.ofName (afterOperand : Bool) (name after : Text) : Lexeme :=
  match if afterOperand then OperatorWord.ofName? name else none with
  | some keyword => .word keyword
  | none => if nodeTypeNames.contains name && opensParen after then .nodeType name else .name name

/-! ## Symbols -/

/-- The symbol that starts with a character, and how many more characters it takes. -/
def Lexeme.symbol? (c : Char) (next : Option Char) : Option (Lexeme × Nat) :=
  match c with
  | '/' => some (if next = some '/' then (.slashes, 1) else (.slash, 0))
  | '.' => some (if next = some '.' then (.dots, 1) else (.dot, 0))
  | ':' => some (if next = some ':' then (.axisMark, 1) else (.colon, 0))
  | '!' => if next = some '=' then some (.notEqual, 1) else none
  | '<' => some (if next = some '=' then (.lessEqual, 1) else (.less, 0))
  | '>' => some (if next = some '=' then (.greaterEqual, 1) else (.greater, 0))
  | '=' => some (.equal, 0)
  | '@' => some (.atSign, 0)
  | '(' => some (.openParen, 0)
  | ')' => some (.closeParen, 0)
  | '[' => some (.openBracket, 0)
  | ']' => some (.closeBracket, 0)
  | '|' => some (.bar, 0)
  | '+' => some (.plus, 0)
  | '-' => some (.minus, 0)
  | ',' => some (.comma, 0)
  | '$' => some (.dollar, 0)
  | _ => none

/-! ## All tokens of a text -/

/-- The token that starts with a character, in front of the text `rest`, after an operand or
elsewhere. -/
def Scan.next (afterOperand : Bool) (c : Char) (rest : Text) : Scan :=
  if c = '"' || c = '\'' then
    match Literal.body c rest with
    | some (value, more) => .lexeme (.literal value) more
    | none => .unknown
  else
    match number? c rest with
    | some found => found
    | none =>
      -- Names are read before they are told from operator words and node types.
      if isNameStart c then
        let more := rest.takeWhile isNameChar
        .lexeme (.ofName afterOperand (c :: more) (rest.drop more.length)) more.length
      else if c = '*' then .lexeme (if afterOperand then .times else .star) 0
      else
        match Lexeme.symbol? c rest.head? with
        | some (found, more) => .lexeme found more
        | none => .unknown

/-- How the reading of tokens ends. -/
inductive Ending where
  /-- Nothing but layout is left. -/
  | finished
  /-- No token starts at a position; `rest` is the text from there. -/
  | unknown (rest : Text) (position : Nat)
  /-- The next token is an integer with more digits than can be converted. -/
  | tooLong
  deriving DecidableEq

/-- The tokens of a text, as far as they can be read. -/
structure Lexing where
  /-- The tokens in the order of the text. -/
  tokens : List Token
  /-- How their reading ends. -/
  ending : Ending
  deriving DecidableEq

namespace Lexing

/-- The tokens of a text that starts at position `start`, after an operand or elsewhere. -/
def ofTextFrom (afterOperand : Bool) (start : Nat) (text : Text) : Lexing :=
  match text with
  | [] => ⟨[], .finished⟩
  | c :: rest =>
    if isLayout c then ofTextFrom afterOperand (start + 1) rest
    else
      match Scan.next afterOperand c rest with
      | .lexeme lexeme more =>
        let stop := start + 1 + more
        -- What the token is decides how a star or an operator word behind it is read.
        let later := ofTextFrom lexeme.endsOperand stop (rest.drop more)
        ⟨⟨lexeme, ⟨start, stop⟩⟩ :: later.tokens, later.ending⟩
      | .tooLong => ⟨[], .tooLong⟩
      | .unknown => ⟨[], .unknown (c :: rest) start⟩
termination_by text.length
decreasing_by all_goals simp; try omega

/-- The tokens of a text. -/
def ofText (text : Text) : Lexing := ofTextFrom false 0 text

/-- An empty text has no tokens. -/
@[simp] theorem ofText_nil : ofText [] = ⟨[], .finished⟩ := by simp [ofText, ofTextFrom]

/-- The listing of the tokens, a line for each. -/
def listed (lexing : Lexing) : Text := lexing.tokens.flatMap Token.listed

end Lexing

end LocationPath
