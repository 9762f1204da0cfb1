import CMinus.Syntax.Source

/-!
# Bare: trees without their lines

Two trees say the same when they differ in their lines only. `bare` puts every line of a tree to
zero, so that this is an equation: `p.bare = q.bare`. Floats stay words, and are compared by their
bits. Canonical text is made from what is left (`pieces_bare`, `source_bare`).
-/

namespace CMinus

/-! ## 1. Expressions -/

/-- The expression with every line at zero. -/
def Expression.bare : Expression → Expression
  | .binary op left right _ => .binary op left.bare right.bare 0
  | .not operand _ => .not operand.bare 0
  | .scalar name _ => .scalar name 0
  | .element name index _ => .element name index.bare 0
  | .call name _ => .call name 0
  | .int value _ => .int value 0
  | .float value _ => .float value 0
  | .string text _ => .string text 0

/-- The place with every line at zero. -/
def Variable.bare (v : Variable) : Variable :=
  ⟨v.name, v.index.map Expression.bare, 0⟩

@[simp] theorem Variable.toExpression_bare (v : Variable) :
    v.bare.toExpression = v.toExpression.bare := by
  rcases v with ⟨name, _ | index, line⟩ <;> rfl

@[simp] theorem Expression.line_bare (e : Expression) : e.bare.line = 0 := by
  cases e <;> rfl

@[simp] theorem Expression.rank_bare (e : Expression) : e.bare.rank = e.rank := by
  cases e <;> rfl

@[simp] theorem Expression.bare_combine (op : BinaryOp) (left right : Expression) :
    (Expression.combine op left right).bare = .combine op left.bare right.bare := by
  simp only [combine, bare, line_bare]

@[simp] theorem Expression.pieces_bare (e : Expression) : e.bare.pieces = e.pieces := by
  induction e with
  | binary op left right line ihl ihr => simp only [bare, pieces, rank_bare, ihl, ihr]
  | not operand line ih => simp only [bare, pieces, rank_bare, ih]
  | element name index line ih => simp only [bare, pieces, ih]
  | scalar | call | int | float | string => rfl

@[simp] theorem Variable.pieces_bare (v : Variable) : v.bare.pieces = v.pieces := by
  simp only [pieces, toExpression_bare, Expression.pieces_bare]

/-! ## 2. Statements -/

namespace Statement

mutual

/-- The statement with every line at zero. -/
def bare : Statement → Statement
  | assign target value _ => assign target.bare value.bare 0
  | ifThen condition body _ => ifThen condition.bare (bareBlock body) 0
  | ifElse condition body other _ => ifElse condition.bare (bareBlock body) (bareBlock other) 0
  | whileDo condition body _ => whileDo condition.bare (bare body) 0
  | read target _ => read target.bare 0
  | write value _ => write value.bare 0
  | returns value _ => returns value.bare 0
  | exit _ => exit 0
  | compound body => compound (bareBlock body)

/-- The block with every line at zero. -/
def bareBlock : Block Statement → Block Statement
  | ⟨items, _⟩ => ⟨bareList items, 0⟩

/-- The statements with every line at zero. -/
def bareList : List Statement → List Statement
  | [] => []
  | s :: rest => bare s :: bareList rest

end

theorem bareList_eq_map (ss : List Statement) : bareList ss = ss.map bare := by
  induction ss with
  | nil => rfl
  | cons s rest ih => simp only [bareList, ih, List.map_cons]

@[simp] theorem line_bareBlock (b : Block Statement) : (bareBlock b).line = 0 := by
  cases b
  rfl

@[simp] theorem line_bare (s : Statement) : s.bare.line = 0 := by
  cases s with
  | compound body => exact line_bareBlock body
  | _ => rfl

mutual

theorem lines_bare (level : Nat) : (s : Statement) → s.bare.lines level = s.lines level
  | assign target value _ => by
    simp only [bare, lines, Variable.pieces_bare, Expression.pieces_bare]
  | ifThen condition body _ => by
    simp only [bare, lines, Expression.pieces_bare, braces_bare level body]
  | ifElse condition body other _ => by
    simp only [bare, lines, Expression.pieces_bare, braces_bare level body,
      braces_bare level other]
  | whileDo condition body _ => by
    have ih := lines_bare (level + 1) body
    cases body with
    | compound block =>
      simp only [bare, lines, Expression.pieces_bare, braces_bare level block]
    | read | write | returns | assign | exit =>
      simp only [bare, lines, Variable.pieces_bare, Expression.pieces_bare]
    | ifThen | ifElse | whileDo =>
      simpa only [bare, lines, Expression.pieces_bare, List.append_cancel_left_eq,
        List.cons.injEq, true_and] using ih
  | read target _ => by simp only [bare, lines, Variable.pieces_bare]
  | write value _ => by simp only [bare, lines, Expression.pieces_bare]
  | returns value _ => by simp only [bare, lines, Expression.pieces_bare]
  | exit _ => rfl
  | compound body => by simp only [bare, lines, braces_bare level body]

theorem braces_bare (level : Nat) : (b : Block Statement) →
    braces level (bareBlock b) = braces level b
  | ⟨items, _⟩ => by simp only [bareBlock, braces, linesOf_bare (level + 1) items]

theorem linesOf_bare (level : Nat) : (ss : List Statement) →
    linesOf level (bareList ss) = linesOf level ss
  | [] => rfl
  | s :: rest => by simp only [bareList, linesOf, lines_bare level s, linesOf_bare level rest]

end

end Statement

/-! ## 3. Programs -/

/-- The declaration with its line at zero. -/
def Declaration.bare (d : Declaration) : Declaration :=
  { d with line := 0 }

/-- The declarations with every line at zero. -/
def Block.bareDeclarations (ds : Block Declaration) : Block Declaration :=
  ⟨ds.items.map Declaration.bare, 0⟩

/-- The procedure with every line at zero. -/
def Procedure.bare (p : Procedure) : Procedure :=
  ⟨p.returnType, p.name, p.locals.bareDeclarations, Statement.bareBlock p.body, 0⟩

/-- The program with every line at zero. -/
def Program.bare (p : Program) : Program :=
  ⟨p.globals.map Block.bareDeclarations, p.procedures.map Procedure.bare, 0⟩

theorem declarationLines_bare (level : Nat) (ds : List Declaration) :
    declarationLines level (ds.map Declaration.bare) = declarationLines level ds := by
  unfold declarationLines
  rw [List.flatMap_map]
  rfl

theorem Procedure.pieces_bare (p : Procedure) : p.bare.pieces = p.pieces := by
  rcases p with ⟨type, name, locals, ⟨items, line⟩, line'⟩
  simp only [bare, pieces, Block.bareDeclarations, declarationLines_bare, Statement.bareBlock,
    Statement.linesOf_bare]

theorem Procedure.piecesOf_bare (ps : List Procedure) :
    piecesOf (ps.map Procedure.bare) = piecesOf ps := by
  induction ps with
  | nil => rfl
  | cons p rest ih =>
    cases rest with
    | nil => simp only [List.map_cons, List.map_nil, piecesOf, pieces_bare]
    | cons q rest =>
      simp only [List.map_cons, piecesOf, pieces_bare] at ih ⊢
      rw [ih]

theorem Program.pieces_bare (p : Program) : p.bare.pieces = p.pieces := by
  rcases p with ⟨_ | globals, procedures, line⟩
  · simp only [bare, pieces, Option.map_none, Procedure.piecesOf_bare]
  · simp only [bare, pieces, Option.map_some, Procedure.piecesOf_bare, Block.bareDeclarations,
      declarationLines_bare]

/-- Canonical text does not depend on lines. -/
theorem Program.source_bare (p : Program) : p.bare.source = p.source := by
  unfold source
  rw [pieces_bare]

end CMinus
