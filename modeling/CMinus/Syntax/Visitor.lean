import CMinus.Syntax.Program

/-!
# Visitor: one walk over all nodes of a tree

A visitor is called at every node, in source order, with the node and the walk over what is below
it. It decides what to do there and whether to walk on. An expression that is a variable is met
twice, as an expression and as a place, and a compound statement as a statement and as a block.
-/

namespace CMinus

/-! ## 1. Nodes -/

/-- The kinds of nodes. -/
inductive NodeKind
  | program | declarations | declaration | procedure | block | statement | expression | place
deriving DecidableEq, Repr, Inhabited

/-- What a visitor can meet. -/
inductive Node
  | program (p : Program)
  | declarations (ds : Block Declaration)
  | declaration (d : Declaration)
  | procedure (p : Procedure)
  | block (b : Block Statement)
  | statement (s : Statement)
  | expression (e : Expression)
  | place (v : Variable)
deriving Inhabited

namespace Node

/-- The kind of a node. -/
def kind : Node → NodeKind
  | program _ => .program
  | declarations _ => .declarations
  | declaration _ => .declaration
  | procedure _ => .procedure
  | block _ => .block
  | statement _ => .statement
  | expression _ => .expression
  | place _ => .place

/-- The line of a node. -/
def line : Node → Nat
  | program p => p.line
  | declarations ds => ds.line
  | declaration d => d.line
  | procedure p => p.line
  | block b => b.line
  | statement s => s.line
  | expression e => e.line
  | place v => v.line

end Node

/-! ## 2. The walk -/

/-- What to do at a node, given the walk over the nodes below it. -/
abbrev Visitor (σ : Type) := Node → (σ → σ) → σ → σ

variable {σ : Type}

/-- Visits an expression: operands from left to right. -/
def Expression.visit (f : Visitor σ) : Expression → σ → σ
  | .binary op left right line =>
    f (.expression (.binary op left right line)) fun s => right.visit f (left.visit f s)
  | .not operand line => f (.expression (.not operand line)) (operand.visit f)
  | .scalar name line =>
    f (.expression (.scalar name line)) (f (.place ⟨name, none, line⟩) id)
  | .element name index line =>
    f (.expression (.element name index line))
      (f (.place ⟨name, some index, line⟩) (index.visit f))
  | .call name line => f (.expression (.call name line)) id
  | .int value line => f (.expression (.int value line)) id
  | .float value line => f (.expression (.float value line)) id
  | .string text line => f (.expression (.string text line)) id

/-- Visits a place: its index, if it has one. -/
def Variable.visit (f : Visitor σ) (v : Variable) : σ → σ :=
  f (.place v) (match v.index with
    | none => id
    | some index => index.visit f)

namespace Statement

mutual

/-- Visits a statement: its parts in source order. -/
def visit (f : Visitor σ) : Statement → σ → σ
  | assign target value line =>
    f (.statement (.assign target value line)) fun s => value.visit f (target.visit f s)
  | ifThen condition body line =>
    f (.statement (.ifThen condition body line)) fun s => visitBlock f body (condition.visit f s)
  | ifElse condition body other line =>
    f (.statement (.ifElse condition body other line)) fun s =>
      visitBlock f other (visitBlock f body (condition.visit f s))
  | whileDo condition body line =>
    f (.statement (.whileDo condition body line)) fun s => visit f body (condition.visit f s)
  | read target line => f (.statement (.read target line)) (target.visit f)
  | write value line => f (.statement (.write value line)) (value.visit f)
  | returns value line => f (.statement (.returns value line)) (value.visit f)
  | exit line => f (.statement (.exit line)) id
  | compound body => f (.statement (.compound body)) (visitBlock f body)

/-- Visits a block: its statements in order. -/
def visitBlock (f : Visitor σ) : Block Statement → σ → σ
  | ⟨items, line⟩ => f (.block ⟨items, line⟩) (visitList f items)

/-- Visits statements in order. -/
def visitList (f : Visitor σ) : List Statement → σ → σ
  | [], s => s
  | x :: rest, s => visitList f rest (visit f x s)

end

end Statement

/-- Visits declarations in order. -/
def visitDeclarations (f : Visitor σ) (ds : Block Declaration) : σ → σ :=
  f (.declarations ds) fun s => ds.items.foldl (fun s d => f (.declaration d) id s) s

/-- Visits a procedure: locals, then the body. -/
def Procedure.visit (f : Visitor σ) (p : Procedure) : σ → σ :=
  f (.procedure p) fun s => Statement.visitBlock f p.body (visitDeclarations f p.locals s)

/-- Visits a program: globals, if there are any, then the procedures. -/
def Program.visit (f : Visitor σ) (p : Program) : σ → σ :=
  f (.program p) fun s =>
    let s := match p.globals with
      | none => s
      | some globals => visitDeclarations f globals s
    p.procedures.foldl (fun s q => q.visit f s) s

/-! ## 3. Visitors -/

/-- Counts the nodes. -/
def Visitor.count : Visitor Nat :=
  fun _ walk n => walk (n + 1)

/-- Notes what `note` gives for a node and walks on, except below the nodes of a kind in `stop`. -/
def Visitor.collect {α : Type} (note : Node → Option α) (stop : List NodeKind) :
    Visitor (List α) :=
  fun node walk found =>
    let found := found ++ (note node).toList
    if node.kind ∈ stop then found else walk found

/-- How many nodes a visitor meets in a program. -/
def Program.nodeCount (p : Program) : Nat :=
  p.visit Visitor.count 0

/-- What a visitor notes in a program. -/
def Program.collect {α : Type} (p : Program) (note : Node → Option α) (stop : List NodeKind) :
    List α :=
  p.visit (Visitor.collect note stop) []

end CMinus
