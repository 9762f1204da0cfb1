import CMinus.Token

/-!
# Operator: binary operators and how tightly they bind

Twelve operators on four tiers. An operator of a higher tier binds tighter, and on each tier a
chain groups to the left.
-/

namespace CMinus

/-! ## 1. Tiers -/

/-- How tightly an operator binds, loosest first. -/
inductive Tier
  | logical | relational | additive | multiplicative
deriving DecidableEq, Repr, Inhabited

namespace Tier

/-- The tier as a number. -/
def rank : Tier → Nat
  | logical => 1
  | relational => 2
  | additive => 3
  | multiplicative => 4

/-- The next tighter tier. -/
def tighter? : Tier → Option Tier
  | logical => some relational
  | relational => some additive
  | additive => some multiplicative
  | multiplicative => none

/-- The class that the tree of a program names. -/
def name : Tier → String
  | logical => "Logical"
  | relational => "Relational"
  | additive => "Arithmetic"
  | multiplicative => "Arithmetic"

end Tier

/-! ## 2. Operators -/

/-- The binary operators. -/
inductive BinaryOp
  | and | or
  | eq | ne | le | lt | ge | gt
  | add | sub
  | mul | div
deriving DecidableEq, Repr, Inhabited

namespace BinaryOp

/-- Every operator once. -/
def all : List BinaryOp :=
  [and, or, eq, ne, le, lt, ge, gt, add, sub, mul, div]

/-- The tier an operator belongs to. -/
def tier : BinaryOp → Tier
  | and | or => .logical
  | eq | ne | le | lt | ge | gt => .relational
  | add | sub => .additive
  | mul | div => .multiplicative

/-- The symbol an operator is written as. -/
def symbol : BinaryOp → Symbol
  | and => .and
  | or => .or
  | eq => .equal
  | ne => .notEqual
  | le => .lessEqual
  | lt => .less
  | ge => .greaterEqual
  | gt => .greater
  | add => .plus
  | sub => .minus
  | mul => .times
  | div => .divide

/-- The characters of an operator. -/
def spelling (op : BinaryOp) : String :=
  op.symbol.spelling

/-- The operator a token stands for between two operands. -/
def ofToken? : Token → Option BinaryOp
  | .symbol .and => some and
  | .symbol .or => some or
  | .symbol .equal => some eq
  | .symbol .notEqual => some ne
  | .symbol .lessEqual => some le
  | .symbol .less => some lt
  | .symbol .greaterEqual => some ge
  | .symbol .greater => some gt
  | .symbol .plus => some add
  | .symbol .minus => some sub
  | .symbol .times => some mul
  | .symbol .divide => some div
  | _ => none

theorem ofToken?_symbol (op : BinaryOp) : ofToken? (.symbol op.symbol) = some op := by
  cases op <;> rfl

end BinaryOp

/-- The operator of a tier that a token stands for. -/
def Tier.operator? (tier : Tier) (t : Token) : Option BinaryOp :=
  (BinaryOp.ofToken? t).filter (·.tier = tier)

/-! ## 3. Types -/

/-- The types of C-minus. -/
inductive ValueType
  | int | float
deriving DecidableEq, Repr, Inhabited

namespace ValueType

/-- The keyword of a type. -/
def keyword : ValueType → Keyword
  | int => .intKw
  | float => .floatKw

/-- The word for a type. -/
def spelling (type : ValueType) : String :=
  type.keyword.spelling

/-- The type a token names. -/
def ofToken? : Token → Option ValueType
  | .keyword .intKw => some int
  | .keyword .floatKw => some float
  | _ => none

theorem ofToken?_keyword (type : ValueType) : ofToken? (.keyword type.keyword) = some type := by
  cases type <;> rfl

end ValueType

end CMinus
