import CMinus.Syntax.Operator

/-!
# Expression: values and the places they are kept in

Every node has the line of the source it came from. The node of a binary operator takes the line
of its left operand (`Expression.combine`). A variable is either an expression of its own or the
target of an assignment; `Variable` is the second view, and `place?` leads from the first to it.
-/

namespace CMinus

/-- An expression. -/
inductive Expression
  | binary (op : BinaryOp) (left right : Expression) (line : Nat)
  | not (operand : Expression) (line : Nat)
  /-- A variable. -/
  | scalar (name : String) (line : Nat)
  /-- An element of an array. -/
  | element (name : String) (index : Expression) (line : Nat)
  /-- A procedure called without arguments. -/
  | call (name : String) (line : Nat)
  | int (value : Int) (line : Nat)
  | float (value : Binary64) (line : Nat)
  | string (text : String) (line : Nat)
deriving DecidableEq, Inhabited

/-- A variable or an element of an array, as a place that can be written to. -/
structure Variable where
  name : String
  index : Option Expression
  line : Nat
deriving DecidableEq, Inhabited

namespace Expression

/-- The line of a node. -/
def line : Expression → Nat
  | binary _ _ _ line | not _ line | scalar _ line | element _ _ line => line
  | call _ line | int _ line | float _ line | string _ line => line

/-- Two operands joined by an operator. -/
def combine (op : BinaryOp) (left right : Expression) : Expression :=
  .binary op left right left.line

/-- How tightly the outermost part of an expression binds; a negation binds like a logical
    operator, and what needs no operator binds tightest. -/
def rank : Expression → Nat
  | binary op _ _ _ => op.tier.rank
  | not _ _ => 1
  | _ => 5

/-- The expression is a string literal. -/
def isString : Expression → Bool
  | string _ _ => true
  | _ => false

/-- The place that an expression names. -/
def place? : Expression → Option Variable
  | scalar name line => some ⟨name, none, line⟩
  | element name index line => some ⟨name, some index, line⟩
  | _ => none

/-- The same tree on the same lines, floats compared as numbers. -/
def same : Expression → Expression → Bool
  | binary o l r n, binary o' l' r' n' => o == o' && same l l' && same r r' && n == n'
  | not e n, not e' n' => same e e' && n == n'
  | scalar x n, scalar x' n' => x == x' && n == n'
  | element x i n, element x' i' n' => x == x' && same i i' && n == n'
  | call x n, call x' n' => x == x' && n == n'
  | int v n, int v' n' => v == v' && n == n'
  | float v n, float v' n' => v.sameNumber v' && n == n'
  | string t n, string t' n' => t == t' && n == n'
  | _, _ => false

end Expression

namespace Variable

/-- The place is an element of an array. -/
def isIndexed (v : Variable) : Bool :=
  v.index.isSome

/-- The place as the value kept in it. -/
def toExpression : Variable → Expression
  | ⟨name, none, line⟩ => .scalar name line
  | ⟨name, some index, line⟩ => .element name index line

/-- The same place on the same line. -/
def same (v w : Variable) : Bool :=
  v.toExpression.same w.toExpression

theorem place?_toExpression (v : Variable) : v.toExpression.place? = some v := by
  rcases v with ⟨name, _ | index, line⟩ <;> rfl

end Variable

end CMinus
