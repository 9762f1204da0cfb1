import CMinus.Syntax.Statement

/-!
# Program: declarations and procedures
-/

namespace CMinus

/-! ## 1. Declarations -/

/-- A declared variable, or an array when there is a size. -/
structure Declaration where
  name : String
  type : ValueType
  size : Option Nat
  line : Nat
deriving DecidableEq, Inhabited

/-- The declaration is one of an array. -/
def Declaration.isArray (d : Declaration) : Bool :=
  d.size.isSome

/-- The first declaration of a name. -/
def Block.declared? (ds : Block Declaration) (name : String) : Option Declaration :=
  ds.items.find? (·.name == name)

/-! ## 2. Procedures and programs -/

/-- A procedure: its local variables and what it does. -/
structure Procedure where
  returnType : ValueType
  name : String
  locals : Block Declaration
  body : Block Statement
  line : Nat
deriving Inhabited

/-- A program: its global variables, if it has any, and its procedures. -/
structure Program where
  globals : Option (Block Declaration)
  procedures : List Procedure
  line : Nat
deriving Inhabited

/-- The first procedure of a name. -/
def Program.procedure? (p : Program) (name : String) : Option Procedure :=
  p.procedures.find? (·.name == name)

/-- The global variable that a name stands for: what `Block.declared?` finds in the block of the
    global declarations, and nothing in a program without such a block. -/
def Program.global? (p : Program) (name : String) : Option Declaration :=
  p.globals.bind (·.declared? name)

/-! ## 3. Sameness, floats compared as numbers -/

/-- The same procedure on the same lines. -/
def Procedure.same (p q : Procedure) : Bool :=
  p.returnType == q.returnType && p.name == q.name && p.locals == q.locals &&
    Statement.sameBlock p.body q.body && p.line == q.line

/-- The same procedures one by one. -/
def Procedure.sameList : List Procedure → List Procedure → Bool
  | [], [] => true
  | p :: ps, q :: qs => p.same q && sameList ps qs
  | _, _ => false

/-- The same program on the same lines. -/
def Program.same (p q : Program) : Bool :=
  p.globals == q.globals && Procedure.sameList p.procedures q.procedures && p.line == q.line

end CMinus
