import LocationPath.Scalar
import LocationPath.Span

/-! # Tokens

The words that expressions are made of. A **lexeme** is what a token says; a token is a lexeme with
its place in the text. The star and the operator words have two readings each, one as a name in a
step and one as an operator; these are different lexemes.

Main definitions: `Lexeme.value` (what a lexeme stands for), `Lexeme.typeName` (its class) and
`Lexeme.endsOperand` (whether an operator may follow it). -/

namespace LocationPath

/-- The words that are operators where an operator may stand. -/
inductive OperatorWord where
  | or | and | div | idiv | mod | eq | ne | lt | le | gt | ge
  deriving DecidableEq, Repr

namespace OperatorWord

/-- All operator words. -/
def all : List OperatorWord := [.or, .and, .div, .idiv, .mod, .eq, .ne, .lt, .le, .gt, .ge]

/-- An operator word as it is written. -/
def spelling : OperatorWord → Text
  | .or => "or".toList
  | .and => "and".toList
  | .div => "div".toList
  | .idiv => "idiv".toList
  | .mod => "mod".toList
  | .eq => "eq".toList
  | .ne => "ne".toList
  | .lt => "lt".toList
  | .le => "le".toList
  | .gt => "gt".toList
  | .ge => "ge".toList

/-- The operator word that a name spells, if it spells one. -/
def ofName? (name : Text) : Option OperatorWord := all.find? (·.spelling == name)

/-- Each operator word is found by its spelling. -/
@[simp] theorem ofName?_spelling (word : OperatorWord) : ofName? word.spelling = some word := by
  cases word <;> rfl

/-- A name that is found to be an operator word is its spelling. -/
theorem spelling_of_ofName? {name : Text} {word : OperatorWord} (h : ofName? name = some word) :
    word.spelling = name := by
  simpa using List.find?_some h

end OperatorWord

/-- What a token says. -/
inductive Lexeme where
  /-- The slash between two steps. -/
  | slash
  /-- The double slash between two steps. -/
  | slashes
  /-- The single dot. -/
  | dot
  /-- The double dot. -/
  | dots
  /-- The double colon after the name of an axis. -/
  | axisMark
  /-- The sign of the attribute axis. -/
  | atSign
  | openParen | closeParen | openBracket | closeBracket
  /-- The bar of a union. -/
  | bar
  | equal | notEqual | less | lessEqual | greater | greaterEqual
  | plus | minus
  /-- The star as an operator. -/
  | times
  /-- The star as a name. -/
  | star
  | comma | colon | dollar
  /-- A quoted text, by its value. -/
  | literal (value : Text)
  /-- A number with a point. -/
  | float (value : Binary64)
  /-- A number without a point. -/
  | integer (value : Nat)
  /-- A name without a colon. -/
  | name (text : Text)
  /-- The name of a node type, in front of a parenthesis. -/
  | nodeType (text : Text)
  /-- An operator word as an operator. -/
  | word (word : OperatorWord)
  deriving DecidableEq

namespace Lexeme

/-- What a lexeme stands for: a literal for its value, all others for their spelling. -/
def value : Lexeme → Scalar
  | .slash => .text "/".toList
  | .slashes => .text "//".toList
  | .dot => .text ".".toList
  | .dots => .text "..".toList
  | .axisMark => .text "::".toList
  | .atSign => .text "@".toList
  | .openParen => .text "(".toList
  | .closeParen => .text ")".toList
  | .openBracket => .text "[".toList
  | .closeBracket => .text "]".toList
  | .bar => .text "|".toList
  | .equal => .text "=".toList
  | .notEqual => .text "!=".toList
  | .less => .text "<".toList
  | .lessEqual => .text "<=".toList
  | .greater => .text ">".toList
  | .greaterEqual => .text ">=".toList
  | .plus => .text "+".toList
  | .minus => .text "-".toList
  | .times => .text "*".toList
  | .star => .text "*".toList
  | .comma => .text ",".toList
  | .colon => .text ":".toList
  | .dollar => .text "$".toList
  | .literal value => .text value
  | .float value => .float value
  | .integer value => .integer value
  | .name text => .text text
  | .nodeType text => .text text
  | .word w => .text w.spelling

/-- The class of a lexeme, as token listings name it. -/
def typeName : Lexeme → Text
  | .slash => "PATH_SEP".toList
  | .slashes => "ABBREV_PATH_SEP".toList
  | .dot => "ABBREV_STEP_SELF".toList
  | .dots => "ABBREV_STEP_PARENT".toList
  | .axisMark => "AXIS_SEP".toList
  | .atSign => "ABBREV_AXIS_AT".toList
  | .openParen => "OPEN_PAREN".toList
  | .closeParen => "CLOSE_PAREN".toList
  | .openBracket => "OPEN_BRACKET".toList
  | .closeBracket => "CLOSE_BRACKET".toList
  | .bar => "UNION_OP".toList
  | .equal | .notEqual => "EQUAL_OP".toList
  | .less | .lessEqual | .greater | .greaterEqual => "REL_OP".toList
  | .plus => "PLUS_OP".toList
  | .minus => "MINUS_OP".toList
  | .times => "MULT_OP".toList
  | .star => "STAR_OP".toList
  | .comma => "COMMA".toList
  | .colon => "COLON".toList
  | .dollar => "DOLLAR".toList
  | .literal _ => "LITERAL".toList
  | .float _ => "FLOAT".toList
  | .integer _ => "INTEGER".toList
  | .name _ => "NCNAME".toList
  | .nodeType _ => "NODETYPE".toList
  | .word .or => "OR_OP".toList
  | .word .and => "AND_OP".toList
  | .word .div => "DIV_OP".toList
  | .word .idiv => "IDIV_OP".toList
  | .word .mod => "MOD_OP".toList
  | .word _ => "VALUE_COMP_OP".toList

/-- Whether an operand can end with a lexeme, so that a star or an operator word after it is an
operator. -/
def endsOperand : Lexeme → Bool
  | .dot | .dots | .closeParen | .closeBracket | .star => true
  | .literal _ | .float _ | .integer _ | .name _ | .nodeType _ => true
  | _ => false

end Lexeme

/-- A lexeme with its place in a text. -/
structure Token where
  /-- What the token says. -/
  lexeme : Lexeme
  /-- Where the token stands. -/
  span : Span
  deriving DecidableEq

namespace Token

/-- The line of a token in a listing: its class, its value, the number of the first line and its
start. -/
def listed (token : Token) : Text :=
  "LexToken(".toList ++ token.lexeme.typeName ++ ',' :: token.lexeme.value.shown ++ ",1,".toList ++
    Text.ofNat token.span.start ++ [')', '\n']

end Token

end LocationPath
