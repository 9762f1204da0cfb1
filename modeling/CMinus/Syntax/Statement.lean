import CMinus.Syntax.Expression

/-!
# Statement: what a procedure does
-/

namespace CMinus

/-- Items in a row and the line they belong to. -/
structure Block (α : Type) where
  items : List α
  line : Nat
deriving DecidableEq, Inhabited

/-- A statement. -/
inductive Statement
  | assign (target : Variable) (value : Expression) (line : Nat)
  | ifThen (condition : Expression) (body : Block Statement) (line : Nat)
  | ifElse (condition : Expression) (body other : Block Statement) (line : Nat)
  | whileDo (condition : Expression) (body : Statement) (line : Nat)
  | read (target : Variable) (line : Nat)
  /-- Writes a value, or a string literal. -/
  | write (value : Expression) (line : Nat)
  | returns (value : Expression) (line : Nat)
  | exit (line : Nat)
  /-- Statements between braces. -/
  | compound (body : Block Statement)
deriving Inhabited

namespace Statement

/-- The line of a node. -/
def line : Statement → Nat
  | assign _ _ line | ifThen _ _ line | ifElse _ _ _ line | whileDo _ _ line => line
  | read _ line | write _ line | returns _ line | exit line => line
  | compound body => body.line

/-- Whether a `write` writes a string literal; nothing for other statements. -/
def writesString? : Statement → Option Bool
  | write value _ => some value.isString
  | _ => none

mutual

/-- The same statement on the same lines, floats compared as numbers. -/
def same : Statement → Statement → Bool
  | assign v e n, assign v' e' n' => v.same v' && e.same e' && n == n'
  | ifThen c b n, ifThen c' b' n' => c.same c' && sameBlock b b' && n == n'
  | ifElse c b o n, ifElse c' b' o' n' =>
    c.same c' && sameBlock b b' && sameBlock o o' && n == n'
  | whileDo c b n, whileDo c' b' n' => c.same c' && same b b' && n == n'
  | read v n, read v' n' => v.same v' && n == n'
  | write e n, write e' n' => e.same e' && n == n'
  | returns e n, returns e' n' => e.same e' && n == n'
  | exit n, exit n' => n == n'
  | compound b, compound b' => sameBlock b b'
  | _, _ => false

/-- The same block on the same lines. -/
def sameBlock : Block Statement → Block Statement → Bool
  | ⟨xs, n⟩, ⟨ys, n'⟩ => sameList xs ys && n == n'

/-- The same statements one by one. -/
def sameList : List Statement → List Statement → Bool
  | [], [] => true
  | x :: xs, y :: ys => same x y && sameList xs ys
  | _, _ => false

end

end Statement

end CMinus
