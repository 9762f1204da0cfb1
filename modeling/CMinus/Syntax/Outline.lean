import CMinus.Syntax.Program

/-!
# Outline: a tree with one node on a line

Each line is the label of a node behind one bar for each level above it. A variable inside an
expression is one line, a compound statement holds its statements directly, and the blocks of a
conditional stand below lines of their own.
-/

namespace CMinus

/-- One line of an outline. -/
structure OutlineLine where
  depth : Nat
  label : String
deriving DecidableEq, Inhabited

/-- The text of a line, without its end. -/
def OutlineLine.text (l : OutlineLine) : String :=
  String.join (List.replicate l.depth "| ") ++ l.label

/-! ## 1. Expressions -/

/-- The lines of an expression at the given depth. -/
def Expression.outline (depth : Nat) : Expression → List OutlineLine
  | .binary op left right _ =>
    ⟨depth, op.tier.name ++ " " ++ op.spelling⟩
      :: left.outline (depth + 1) ++ right.outline (depth + 1)
  | .not operand _ => ⟨depth, "Not"⟩ :: operand.outline (depth + 1)
  | .scalar name _ => [⟨depth, "Variable " ++ name⟩]
  | .element name index _ =>
    ⟨depth, "Variable " ++ name ++ "[]"⟩ :: index.outline (depth + 1)
  | .call name _ => [⟨depth, "Call " ++ name⟩]
  | .int value _ => [⟨depth, "IntConst " ++ (Token.int value).spelling⟩]
  | .float value _ => [⟨depth, "FloatConst " ++ (Token.float value).spelling⟩]
  | .string text _ => [⟨depth, "StringConst " ++ (Token.string text).spelling⟩]

/-- The lines of a variable. -/
def Variable.outline (depth : Nat) (v : Variable) : List OutlineLine :=
  v.toExpression.outline depth

/-! ## 2. Statements -/

namespace Statement

mutual

/-- The lines of a statement. -/
def outline (depth : Nat) : Statement → List OutlineLine
  | assign target value _ =>
    ⟨depth, "Assignment"⟩ :: target.outline (depth + 1) ++ value.outline (depth + 1)
  | ifThen condition body _ =>
    ⟨depth, "If"⟩ :: condition.outline (depth + 1)
      ++ ⟨depth + 1, "Then"⟩ :: outlineBlock (depth + 2) body
  | ifElse condition body other _ =>
    ⟨depth, "If"⟩ :: condition.outline (depth + 1)
      ++ ⟨depth + 1, "Then"⟩ :: outlineBlock (depth + 2) body
      ++ ⟨depth + 1, "Else"⟩ :: outlineBlock (depth + 2) other
  | whileDo condition body _ =>
    ⟨depth, "While"⟩ :: condition.outline (depth + 1) ++ outline (depth + 1) body
  | read target _ => ⟨depth, "Read"⟩ :: target.outline (depth + 1)
  | write value _ => ⟨depth, "Write"⟩ :: value.outline (depth + 1)
  | returns value _ => ⟨depth, "Return"⟩ :: value.outline (depth + 1)
  | exit _ => [⟨depth, "Exit"⟩]
  | compound ⟨items, _⟩ => ⟨depth, "Compound"⟩ :: outlineList (depth + 1) items

/-- The lines of a block, below one for the block itself. -/
def outlineBlock (depth : Nat) : Block Statement → List OutlineLine
  | ⟨items, _⟩ => ⟨depth, "StatementList"⟩ :: outlineList (depth + 1) items

/-- The lines of statements one after the other. -/
def outlineList (depth : Nat) : List Statement → List OutlineLine
  | [] => []
  | s :: rest => outline depth s ++ outlineList depth rest

end

end Statement

/-! ## 3. Declarations, procedures, programs -/

/-- The line of a declaration. -/
def Declaration.outline (depth : Nat) (d : Declaration) : OutlineLine :=
  let size := match d.size with
    | none => ""
    | some size => "[" ++ toString size ++ "]"
  ⟨depth, "VarDecl " ++ d.name ++ ": " ++ d.type.spelling ++ size⟩

/-- The lines of declarations, below one for all of them. -/
def outlineDeclarations (depth : Nat) (ds : Block Declaration) : List OutlineLine :=
  ⟨depth, "DeclList"⟩ :: ds.items.map (Declaration.outline (depth + 1))

/-- The lines of a procedure. -/
def Procedure.outline (depth : Nat) (p : Procedure) : List OutlineLine :=
  ⟨depth, "ProcedureDecl " ++ p.returnType.spelling ++ " " ++ p.name⟩
    :: outlineDeclarations (depth + 1) p.locals ++ Statement.outlineBlock (depth + 1) p.body

/-- The lines of a program. -/
def Program.outlineLines (p : Program) : List OutlineLine :=
  ⟨0, "Program"⟩
    :: (match p.globals with
      | none => []
      | some globals => outlineDeclarations 1 globals)
    ++ p.procedures.flatMap (Procedure.outline 1)

/-- The outline of a program as text. -/
def Program.outline (p : Program) : String :=
  String.join (p.outlineLines.map fun l => l.text ++ "\n")

end CMinus
