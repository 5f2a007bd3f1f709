import LocationPath.Token

/-! # Levels of expressions

Expressions are sorted into **levels** by how tightly their operators bind, from lists between
commas down to single steps. Most levels are **chains**: operands of the next tighter level, with
operators between them that associate to the left.

Main definitions: `Level`, `Chain`, `Chain.operand` (the level of a chain's operands) and
`Chain.joins` (the operators of a chain). -/

namespace LocationPath

/-- The levels whose expressions are chains: operands with operators between them. -/
inductive Chain where
  /-- Expressions between commas. -/
  | sequence
  | disjunction
  | conjunction
  /-- Comparisons for equality, and comparisons of values by a word. -/
  | equality
  | relation
  | sum
  | product
  /-- Paths between bars. -/
  | union
  /-- Steps between slashes. -/
  | steps
  deriving DecidableEq, Repr

/-- How tightly an expression binds. -/
inductive Level where
  /-- A chain. -/
  | chain (chain : Chain)
  /-- An expression behind any number of minus signs. -/
  | negation
  /-- A path, which may start at the root. -/
  | path
  /-- One step. -/
  | step
  deriving DecidableEq, Repr

/-- The level of the operands of a chain. -/
def Chain.operand : Chain → Level
  | .sequence => .chain .disjunction
  | .disjunction => .chain .conjunction
  | .conjunction => .chain .equality
  | .equality => .chain .relation
  | .relation => .chain .sum
  | .sum => .chain .product
  | .product => .negation
  | .union => .path
  | .steps => .step

/-- Whether a lexeme is an operator between the operands of a chain. -/
def Chain.joins : Chain → Lexeme → Bool
  | .sequence, .comma => true
  | .disjunction, .word .or => true
  | .conjunction, .word .and => true
  | .equality, .equal | .equality, .notEqual => true
  | .equality, .word word => word ∈ [.eq, .ne, .lt, .le, .gt, .ge]
  | .relation, .less | .relation, .lessEqual => true
  | .relation, .greater | .relation, .greaterEqual => true
  | .sum, .plus | .sum, .minus => true
  | .product, .times => true
  | .product, .word word => word ∈ [.div, .idiv, .mod]
  | .union, .bar => true
  | .steps, .slash | .steps, .slashes => true
  | _, _ => false

/-- The number of levels that bind tighter. -/
def Level.height : Level → Nat
  | .chain .sequence => 11
  | .chain .disjunction => 10
  | .chain .conjunction => 9
  | .chain .equality => 8
  | .chain .relation => 7
  | .chain .sum => 6
  | .chain .product => 5
  | .negation => 4
  | .chain .union => 3
  | .path => 2
  | .chain .steps => 1
  | .step => 0

/-- No level is higher than the loosest one. -/
theorem Level.height_le (level : Level) : level.height ≤ 11 := by
  unfold height
  split <;> decide

/-- The operands of a chain bind tighter than the chain. -/
theorem Chain.height_operand_lt (chain : Chain) :
    chain.operand.height < (Level.chain chain).height := by
  cases chain <;> decide

end LocationPath
