import CMinus.Syntax.Visitor

/-!
# Preorder: the nodes of a tree in the order in which they are met

Every node stands in front of those below it, and these follow in source order (`nodes`). A visitor
that notes what it meets and always walks on notes it along this list (`collect_eq`).
-/

namespace CMinus

/-! ## 1. Nodes -/

/-- An expression and what is below it. A variable is met as an expression and as a place. -/
def Expression.nodes : Expression → List Node
  | .binary op left right line =>
    .expression (.binary op left right line) :: (left.nodes ++ right.nodes)
  | .not operand line => .expression (.not operand line) :: operand.nodes
  | .scalar name line => [.expression (.scalar name line), .place ⟨name, none, line⟩]
  | .element name index line =>
    .expression (.element name index line) :: .place ⟨name, some index, line⟩ :: index.nodes
  | .call name line => [.expression (.call name line)]
  | .int value line => [.expression (.int value line)]
  | .float value line => [.expression (.float value line)]
  | .string text line => [.expression (.string text line)]

/-- A place and what is in its index. -/
def Variable.nodes (v : Variable) : List Node :=
  .place v :: match v.index with
    | none => []
    | some index => index.nodes

namespace Statement

mutual

/-- A statement and what is below it. Statements between braces are met as a block as well. -/
def nodes : Statement → List Node
  | assign target value line =>
    .statement (.assign target value line) :: (target.nodes ++ value.nodes)
  | ifThen condition body line =>
    .statement (.ifThen condition body line) :: (condition.nodes ++ nodesBlock body)
  | ifElse condition body other line =>
    .statement (.ifElse condition body other line) ::
      (condition.nodes ++ nodesBlock body ++ nodesBlock other)
  | whileDo condition body line =>
    .statement (.whileDo condition body line) :: (condition.nodes ++ nodes body)
  | read target line => .statement (.read target line) :: target.nodes
  | write value line => .statement (.write value line) :: value.nodes
  | returns value line => .statement (.returns value line) :: value.nodes
  | exit line => [.statement (.exit line)]
  | compound body => .statement (.compound body) :: nodesBlock body

/-- A block and what is below it. -/
def nodesBlock : Block Statement → List Node
  | ⟨items, line⟩ => .block ⟨items, line⟩ :: nodesList items

/-- Statements in a row and what is below them. -/
def nodesList : List Statement → List Node
  | [] => []
  | s :: rest => nodes s ++ nodesList rest

end

end Statement

/-- Declarations: the whole and each of them. -/
def Block.declarationNodes (ds : Block Declaration) : List Node :=
  .declarations ds :: ds.items.map .declaration

/-- A procedure and what is below it. -/
def Procedure.nodes (p : Procedure) : List Node :=
  .procedure p :: (p.locals.declarationNodes ++ Statement.nodesBlock p.body)

/-- A program and what is below it. -/
def Program.nodes (p : Program) : List Node :=
  .program p :: ((match p.globals with
    | none => []
    | some globals => globals.declarationNodes) ++ p.procedures.flatMap Procedure.nodes)

/-! ## 2. A visitor that always walks on -/

section Visits

variable {α : Type} (note : Node → Option α)

theorem collect_walk (node : Node) (f : List α → List α) (found : List α) :
    Visitor.collect note [] node f found = f (found ++ (note node).toList) := by
  unfold Visitor.collect
  rw [if_neg List.not_mem_nil]

theorem filterMap_cons_toList (node : Node) (rest : List Node) :
    (node :: rest).filterMap note = (note node).toList ++ rest.filterMap note := by
  rw [List.filterMap_cons]
  cases note node <;> rfl

/-- A walk that notes the nodes of a list behind one that is noted first. -/
theorem collect_step {node : Node} {rest : List Node} {f : List α → List α}
    (h : ∀ found, f found = found ++ rest.filterMap note) (found : List α) :
    Visitor.collect note [] node f found = found ++ (node :: rest).filterMap note := by
  rw [collect_walk, h, filterMap_cons_toList, List.append_assoc]

/-- One walk after the other. -/
theorem walk_append {first second : List Node} {f g : List α → List α}
    (hf : ∀ found, f found = found ++ first.filterMap note)
    (hg : ∀ found, g found = found ++ second.filterMap note) (found : List α) :
    g (f found) = found ++ (first ++ second).filterMap note := by
  rw [hf, hg, List.filterMap_append, List.append_assoc]

/-- Nothing is walked. -/
theorem walk_nil (found : List α) : id found = found ++ ([] : List Node).filterMap note :=
  (List.append_nil found).symm

theorem Expression.visit_collect (e : Expression) :
    ∀ found, e.visit (Visitor.collect note []) found = found ++ e.nodes.filterMap note := by
  induction e with
  | binary op left right line ihl ihr => exact collect_step note (walk_append note ihl ihr)
  | not operand line ih => exact collect_step note ih
  | scalar name line => exact collect_step note (collect_step note (walk_nil note))
  | element name index line ih => exact collect_step note (collect_step note ih)
  | call | int | float | string => exact collect_step note (walk_nil note)

theorem Variable.visit_collect (v : Variable) :
    ∀ found, v.visit (Visitor.collect note []) found = found ++ v.nodes.filterMap note := by
  obtain ⟨name, index, line⟩ := v
  cases index with
  | none => exact collect_step note (walk_nil note)
  | some index => exact collect_step note (index.visit_collect note)

namespace Statement

mutual

theorem visit_collect : (s : Statement) →
    ∀ found, s.visit (Visitor.collect note []) found = found ++ s.nodes.filterMap note
  | assign target value _ =>
    collect_step note (walk_append note (target.visit_collect note) (value.visit_collect note))
  | ifThen condition body _ =>
    collect_step note (walk_append note (condition.visit_collect note) (visit_collectBlock body))
  | ifElse condition body other _ =>
    collect_step note (walk_append note
      (walk_append note (condition.visit_collect note) (visit_collectBlock body))
      (visit_collectBlock other))
  | whileDo condition body _ =>
    collect_step note (walk_append note (condition.visit_collect note) (visit_collect body))
  | read target _ => collect_step note (target.visit_collect note)
  | write value _ | returns value _ => collect_step note (value.visit_collect note)
  | exit _ => collect_step note (walk_nil note)
  | compound body => collect_step note (visit_collectBlock body)

theorem visit_collectBlock : (b : Block Statement) →
    ∀ found, visitBlock (Visitor.collect note []) b found =
      found ++ (nodesBlock b).filterMap note
  | ⟨items, _⟩ => collect_step note (visit_collectList items)

theorem visit_collectList : (ss : List Statement) →
    ∀ found, visitList (Visitor.collect note []) ss found =
      found ++ (nodesList ss).filterMap note
  | [] => walk_nil note
  | s :: rest =>
    walk_append (f := visit (Visitor.collect note []) s) note (visit_collect s)
      (visit_collectList rest)

end

end Statement

/-- Items are visited one by one. -/
theorem foldl_collect {β : Type} {visit : β → List α → List α} {nodes : β → List Node}
    (h : ∀ b found, visit b found = found ++ (nodes b).filterMap note) (bs : List β) :
    ∀ found, bs.foldl (fun found b => visit b found) found =
      found ++ (bs.flatMap nodes).filterMap note := by
  induction bs with
  | nil => exact walk_nil note
  | cons b rest ih => exact walk_append (f := visit b) note (h b) ih

theorem visitDeclarations_collect (ds : Block Declaration) :
    ∀ found, visitDeclarations (Visitor.collect note []) ds found =
      found ++ ds.declarationNodes.filterMap note := by
  refine collect_step note fun found => ?_
  rw [List.map_eq_flatMap]
  exact foldl_collect note (fun d => collect_step note (walk_nil note)) ds.items found

theorem Procedure.visit_collect (p : Procedure) :
    ∀ found, p.visit (Visitor.collect note []) found = found ++ p.nodes.filterMap note :=
  collect_step note (walk_append note (visitDeclarations_collect note p.locals)
    (Statement.visit_collectBlock note p.body))

/-- **What is noted in a program** by a visitor that always walks on is noted along its nodes. -/
theorem Program.collect_eq (p : Program) : p.collect note [] = p.nodes.filterMap note := by
  have hprocedures := foldl_collect note (Procedure.visit_collect note) p.procedures
  obtain ⟨globals, procedures, line⟩ := p
  cases globals with
  | none => exact collect_step note hprocedures []
  | some globals =>
    exact collect_step note (walk_append note (visitDeclarations_collect note globals)
      hprocedures) []

end Visits

end CMinus
