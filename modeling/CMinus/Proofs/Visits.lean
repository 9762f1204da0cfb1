import CMinus.Proofs.Address
import CMinus.Proofs.Preorder

/-!
# Visits: which nodes a visitor meets, and in which order

A node has other nodes directly below it (`Node.children`), and that alone says where every node of
a program stands. A visitor that notes each node and walks on, except below the nodes of some kinds,
notes the nodes that have none of these kinds above them, each once and in preorder
(`visited_in_preorder`).

Two visitors that do alike at every node do alike on a whole program (`Program.visit_alike`). So
nodes are counted as they are noted, and a visitor that acts at some kinds of nodes only acts at
those among all nodes.
-/

namespace CMinus

/-! ## 1. What is directly below a node -/

/-- The operands of an operator, the place that a variable names. -/
def Expression.children : Expression → List Node
  | .binary _ left right _ => [.expression left, .expression right]
  | .not operand _ => [.expression operand]
  | .scalar name line => [.place ⟨name, none, line⟩]
  | .element name index line => [.place ⟨name, some index, line⟩]
  | .call _ _ | .int _ _ | .float _ _ | .string _ _ => []

/-- The parts of a statement in source order. -/
def Statement.children : Statement → List Node
  | .assign target value _ => [.place target, .expression value]
  | .ifThen condition body _ => [.expression condition, .block body]
  | .ifElse condition body other _ => [.expression condition, .block body, .block other]
  | .whileDo condition body _ => [.expression condition, .statement body]
  | .read target _ => [.place target]
  | .write value _ | .returns value _ => [.expression value]
  | .exit _ => []
  | .compound body => [.block body]

/-- The nodes directly below a node, in source order. -/
def Node.children : Node → List Node
  | .program p => (p.globals.map .declarations).toList ++ p.procedures.map .procedure
  | .declarations ds => ds.items.map .declaration
  | .declaration _ => []
  | .procedure p => [.declarations p.locals, .block p.body]
  | .block b => b.items.map .statement
  | .statement s => s.children
  | .expression e => e.children
  | .place v => (v.index.map .expression).toList

/-- The node stands at the address in the program, and no node above it is of a kind in `stop`. -/
def Program.MetAt (p : Program) (stop : List NodeKind) (address : List Nat) (node : Node) : Prop :=
  nodeAt Node.children (.program p) address = some node ∧
    ∀ above, above <+: address → above ≠ address →
      ∀ m, nodeAt Node.children (.program p) above = some m → m.kind ∉ stop

/-! ## 2. Noting nodes -/

/-- What is walked below a node: nothing where the walk stops. -/
def Node.childrenUnless (stop : List NodeKind) (node : Node) : List Node :=
  if node.kind ∈ stop then [] else node.children

/-- Below the nodes at which the walk stops there is no node left. -/
theorem nodeAt_childrenUnless (stop : List NodeKind) (root node : Node) (address : List Nat) :
    nodeAt (Node.childrenUnless stop) root address = some node ↔
      nodeAt Node.children root address = some node ∧
        ∀ above, above <+: address → above ≠ address →
          ∀ m, nodeAt Node.children root above = some m → m.kind ∉ stop := by
  induction address generalizing root with
  | nil =>
    refine (and_iff_left fun above habove hne => ?_).symm
    exact absurd (List.prefix_nil.mp habove) hne
  | cons i address ih =>
    rw [nodeAt, nodeAt, Node.childrenUnless]
    split
    · rename_i hstop
      refine iff_of_false (fun h => by cases h) fun h => ?_
      exact h.2 [] List.nil_prefix (List.cons_ne_nil _ _).symm root rfl hstop
    · rename_i hstop
      cases hchild : root.children[i]? with
      | none => exact iff_of_false (fun h => by cases h) fun h => by cases h.1
      | some child =>
        rw [Option.bind_some, Option.bind_some, ih child]
        refine and_congr_right fun _ => ⟨fun h above habove hne m hm => ?_,
          fun h above habove hne m hm => ?_⟩
        · cases above with
          | nil =>
            -- the root itself is above every other address
            cases hm
            exact hstop
          | cons j above =>
            obtain ⟨rfl, hbehind⟩ := List.cons_prefix_cons.mp habove
            rw [nodeAt, hchild] at hm
            exact h above hbehind (fun e => hne (congrArg _ e)) m hm
        · refine h (i :: above) (List.cons_prefix_cons.mpr ⟨rfl, habove⟩)
            (fun e => hne (List.cons.inj e).2) m ?_
          rw [nodeAt, hchild]
          exact hm

section Noting

variable {stop : List NodeKind}

/-- The walk notes the nodes at and below a node in preorder, as far as it goes. -/
def Notes (stop : List NodeKind) (node : Node) (walk : List Node → List Node) : Prop :=
  ∃ row, RowOf (Node.childrenUnless stop) node row ∧ ∀ found, walk found = found ++ row.map Prod.snd

/-- Walks one after the other. -/
def inTurn {σ : Type} (walks : List (σ → σ)) (s : σ) : σ :=
  walks.foldl (fun s walk => walk s) s

theorem exists_rows {nodes : List Node} {walks : List (List Node → List Node)}
    (h : List.Forall₂ (Notes stop) nodes walks) :
    ∃ rows, List.Forall₂ (RowOf (Node.childrenUnless stop)) nodes rows ∧
      ∀ found, inTurn walks found = found ++ rows.flatMap (·.map Prod.snd) := by
  induction h with
  | nil => exact ⟨[], .nil, fun found => (List.append_nil found).symm⟩
  | cons hfirst _ ih =>
    obtain ⟨row, hrow, hwalk⟩ := hfirst
    obtain ⟨rows, hrows, hwalks⟩ := ih
    refine ⟨row :: rows, .cons hrow hrows, fun found => ?_⟩
    rw [inTurn, List.foldl_cons, ← inTurn, hwalk, hwalks, List.flatMap_cons, List.append_assoc]

/-- A node is noted, then what is directly below it in turn. -/
theorem notes_node {node : Node} {walk : List Node → List Node}
    {walks : List (List Node → List Node)} (h : List.Forall₂ (Notes stop) node.children walks)
    (hwalk : ∀ found, walk found = inTurn walks found) :
    Notes stop node (Visitor.collect some stop node walk) := by
  obtain ⟨rows, hrows, hwalks⟩ := exists_rows h
  by_cases hstop : node.kind ∈ stop
  · have hnone : List.Forall₂ (RowOf (Node.childrenUnless stop)) (node.childrenUnless stop) [] := by
      rw [Node.childrenUnless, if_pos hstop]
      exact .nil
    refine ⟨_, inPreorder_node hnone, fun found => ?_⟩
    rw [Visitor.collect, if_pos hstop]
    rfl
  · have hall : node.childrenUnless stop = node.children := if_neg hstop
    refine ⟨_, inPreorder_node (by rw [hall]; exact hrows), fun found => ?_⟩
    have hnodes := map_sideBySide (fun _ n => n) 0 rows
    rw [Visitor.collect, if_neg hstop, hwalk, hwalks, List.map_cons, hnodes, List.append_assoc]
    rfl

/-- Nothing is below the node. -/
theorem notes_leaf {node : Node} (h : node.children = []) :
    Notes stop node (Visitor.collect some stop node id) := by
  have hnone : List.Forall₂ (Notes stop) node.children [] := by
    rw [h]
    exact .nil
  exact notes_node hnone fun _ => rfl

theorem Expression.notes (e : Expression) :
    Notes stop (.expression e) (e.visit (Visitor.collect some stop)) := by
  induction e with
  | binary op left right line ihl ihr => exact notes_node (.cons ihl (.cons ihr .nil)) fun _ => rfl
  | not operand line ih => exact notes_node (.cons ih .nil) fun _ => rfl
  | scalar name line => exact notes_node (.cons (notes_leaf rfl) .nil) fun _ => rfl
  | element name index line ih =>
    exact notes_node (.cons (notes_node (.cons ih .nil) fun _ => rfl) .nil) fun _ => rfl
  | call | int | float | string => exact notes_leaf rfl

theorem Variable.notes (v : Variable) :
    Notes stop (.place v) (v.visit (Visitor.collect some stop)) := by
  obtain ⟨name, index, line⟩ := v
  cases index with
  | none => exact notes_leaf rfl
  | some index => exact notes_node (.cons index.notes .nil) fun _ => rfl

theorem Statement.visitList_eq {σ : Type} (f : Visitor σ) (ss : List Statement) (s : σ) :
    visitList f ss s = inTurn (ss.map (visit f)) s := by
  induction ss generalizing s with
  | nil => rfl
  | cons x rest ih => exact ih (x.visit f s)

namespace Statement

mutual

theorem notes : (s : Statement) → Notes stop (.statement s) (s.visit (Visitor.collect some stop))
  | assign target value _ => notes_node (.cons target.notes (.cons value.notes .nil)) fun _ => rfl
  | ifThen condition body _ =>
    notes_node (.cons condition.notes (.cons (notes_block body) .nil)) fun _ => rfl
  | ifElse condition body other _ =>
    notes_node (.cons condition.notes (.cons (notes_block body) (.cons (notes_block other) .nil)))
      fun _ => rfl
  | whileDo condition body _ =>
    notes_node (.cons condition.notes (.cons (notes body) .nil)) fun _ => rfl
  | read target _ => notes_node (.cons target.notes .nil) fun _ => rfl
  | write value _ | returns value _ => notes_node (.cons value.notes .nil) fun _ => rfl
  | exit _ => notes_leaf rfl
  | compound body => notes_node (.cons (notes_block body) .nil) fun _ => rfl

theorem notes_block : (b : Block Statement) →
    Notes stop (.block b) (visitBlock (Visitor.collect some stop) b)
  | ⟨items, _⟩ => notes_node (notes_list items) (visitList_eq _ items)

theorem notes_list : (ss : List Statement) →
    List.Forall₂ (Notes stop) (ss.map .statement) (ss.map (visit (Visitor.collect some stop)))
  | [] => .nil
  | s :: rest => .cons (notes s) (notes_list rest)

end

end Statement

theorem foldl_eq_inTurn {σ β : Type} (walk : β → σ → σ) (bs : List β) (s : σ) :
    bs.foldl (fun s b => walk b s) s = inTurn (bs.map walk) s := by
  rw [inTurn, List.foldl_map]

theorem notes_declarations (ds : Block Declaration) :
    Notes stop (.declarations ds) (visitDeclarations (Visitor.collect some stop) ds) :=
  notes_node (forall₂_map (fun _ => notes_leaf rfl) ds.items) (foldl_eq_inTurn _ ds.items)

theorem Procedure.notes (p : Procedure) :
    Notes stop (.procedure p) (p.visit (Visitor.collect some stop)) :=
  notes_node (.cons (notes_declarations p.locals) (.cons (Statement.notes_block p.body) .nil))
    fun _ => rfl

theorem Program.notes (p : Program) :
    Notes stop (.program p) (p.visit (Visitor.collect some stop)) := by
  have hprocedures : List.Forall₂ (Notes stop) (p.procedures.map .procedure) _ :=
    forall₂_map Procedure.notes p.procedures
  obtain ⟨globals, procedures, line⟩ := p
  cases globals with
  | none => exact notes_node hprocedures (foldl_eq_inTurn _ procedures)
  | some globals =>
    exact notes_node (.cons (notes_declarations globals) hprocedures)
      fun found => foldl_eq_inTurn _ procedures _

end Noting

/-! ## 3. Visitors that do alike -/

section Alike

variable {σ τ : Type} {R : σ → τ → Prop}

/-- Two walks that lead from related states to related states. -/
def Alike (R : σ → τ → Prop) (walk : σ → σ) (walk' : τ → τ) : Prop :=
  ∀ s t, R s t → R (walk s) (walk' t)

theorem Alike.comp {first second : σ → σ} {first' second' : τ → τ} (h : Alike R first first')
    (h' : Alike R second second') :
    Alike R (fun s => second (first s)) fun t => second' (first' t) :=
  fun s t hst => h' _ _ (h s t hst)

theorem alike_id : Alike R id id :=
  fun _ _ h => h

/-- Two visitors that do alike at every node, if what is below it is walked alike. -/
def Visitor.Alike (R : σ → τ → Prop) (f : Visitor σ) (g : Visitor τ) : Prop :=
  ∀ node walk walk', CMinus.Alike R walk walk' → CMinus.Alike R (f node walk) (g node walk')

variable {f : Visitor σ} {g : Visitor τ}

theorem Expression.visit_alike (h : f.Alike R g) (e : Expression) :
    Alike R (e.visit f) (e.visit g) := by
  induction e with
  | binary op left right line ihl ihr => exact h _ _ _ (ihl.comp ihr)
  | not operand line ih => exact h _ _ _ ih
  | scalar name line => exact h _ _ _ (h _ _ _ alike_id)
  | element name index line ih => exact h _ _ _ (h _ _ _ ih)
  | call | int | float | string => exact h _ _ _ alike_id

theorem Variable.visit_alike (h : f.Alike R g) (v : Variable) :
    Alike R (v.visit f) (v.visit g) := by
  obtain ⟨name, index, line⟩ := v
  cases index with
  | none => exact h _ _ _ alike_id
  | some index => exact h _ _ _ (index.visit_alike h)

namespace Statement

mutual

theorem visit_alike (h : f.Alike R g) : (s : Statement) → Alike R (s.visit f) (s.visit g)
  | assign target value _ => h _ _ _ ((target.visit_alike h).comp (value.visit_alike h))
  | ifThen condition body _ => h _ _ _ ((condition.visit_alike h).comp (visitBlock_alike h body))
  | ifElse condition body other _ =>
    h _ _ _ (((condition.visit_alike h).comp (visitBlock_alike h body)).comp
      (visitBlock_alike h other))
  | whileDo condition body _ => h _ _ _ ((condition.visit_alike h).comp (visit_alike h body))
  | read target _ => h _ _ _ (target.visit_alike h)
  | write value _ | returns value _ => h _ _ _ (value.visit_alike h)
  | exit _ => h _ _ _ alike_id
  | compound body => h _ _ _ (visitBlock_alike h body)

theorem visitBlock_alike (h : f.Alike R g) : (b : Block Statement) →
    Alike R (visitBlock f b) (visitBlock g b)
  | ⟨items, _⟩ => h _ _ _ (visitList_alike h items)

theorem visitList_alike (h : f.Alike R g) : (ss : List Statement) →
    Alike R (visitList f ss) (visitList g ss)
  | [] => alike_id
  | s :: rest => (visit_alike h s).comp (visitList_alike h rest)

end

end Statement

theorem foldl_alike {β : Type} {walk : β → σ → σ} {walk' : β → τ → τ}
    (hwalk : ∀ b, Alike R (walk b) (walk' b)) (bs : List β) :
    Alike R (fun s => bs.foldl (fun s b => walk b s) s) fun t =>
      bs.foldl (fun t b => walk' b t) t := by
  induction bs with
  | nil => exact alike_id
  | cons b rest ih => exact (hwalk b).comp ih

theorem visitDeclarations_alike (h : f.Alike R g) (ds : Block Declaration) :
    Alike R (visitDeclarations f ds) (visitDeclarations g ds) :=
  h _ _ _ (foldl_alike (fun _ => h _ _ _ alike_id) ds.items)

theorem Procedure.visit_alike (h : f.Alike R g) (p : Procedure) :
    Alike R (p.visit f) (p.visit g) :=
  h _ _ _ ((visitDeclarations_alike h p.locals).comp (Statement.visitBlock_alike h p.body))

/-- **Visitors that do alike at every node do alike on a whole program.** -/
theorem Program.visit_alike (h : f.Alike R g) (p : Program) : Alike R (p.visit f) (p.visit g) := by
  have hprocedures := foldl_alike (Procedure.visit_alike h) p.procedures
  obtain ⟨globals, procedures, line⟩ := p
  cases globals with
  | none => exact h _ _ _ hprocedures
  | some globals => exact h _ _ _ ((visitDeclarations_alike h globals).comp hprocedures)

end Alike

/-! ## 4. Visitors of all kinds and of some -/

/-- As many nodes are noted as are counted. -/
theorem Program.length_collect (p : Program) : (p.collect some []).length = p.nodeCount := by
  have halike : (Visitor.collect some []).Alike (fun (found : List Node) n => found.length = n)
      Visitor.count := by
    intro node walk walk' hwalk found n hn
    rw [collect_walk]
    refine hwalk _ _ ?_
    show (found ++ [node]).length = n + 1
    rw [List.length_append, hn, List.length_singleton]
  exact p.visit_alike halike [] 0 rfl

/-- The visitor that does as `f` says at the nodes of some kinds, and only walks on at others. -/
def Visitor.overriding {σ : Type} (kinds : List NodeKind) (f : Visitor σ) : Visitor σ :=
  fun node walk => if node.kind ∈ kinds then f node walk else walk

/-- A visitor that notes some kinds of nodes only notes those among all nodes. -/
theorem Program.visit_overriding (p : Program) (kinds : List NodeKind) :
    p.visit (Visitor.overriding kinds (Visitor.collect some [])) [] =
      (p.collect some []).filter (·.kind ∈ kinds) := by
  have halike : (Visitor.overriding kinds (Visitor.collect some [])).Alike
      (fun found all => found = all.filter (·.kind ∈ kinds)) (Visitor.collect some []) := by
    intro node walk walk' hwalk found all hfound
    rw [collect_walk, Visitor.overriding]
    split
    · rename_i hkind
      rw [collect_walk]
      refine hwalk _ _ ?_
      show found ++ [node] = (all ++ [node]).filter (·.kind ∈ kinds)
      rw [List.filter_append, hfound, List.filter_cons_of_pos (by simpa using hkind),
        List.filter_nil]
    · rename_i hkind
      refine hwalk _ _ ?_
      show found = (all ++ [node]).filter (·.kind ∈ kinds)
      rw [List.filter_append, hfound, List.filter_cons_of_neg (by simpa using hkind),
        List.filter_nil, List.append_nil]
  exact p.visit_alike halike [] [] rfl

/-- **A visitor meets the nodes in preorder.** One that notes each node and walks on, except below
    the nodes of some kinds, notes the nodes that have none of these kinds above them, each once
    and in the order of their addresses. When it always walks on it notes as many nodes as are
    counted; and one that does so at some kinds of nodes, and only walks on at all others, notes
    the nodes of these kinds among all. -/
theorem visited_in_preorder (p : Program) (stop kinds : List NodeKind) :
    (∃ row, InPreorder (p.MetAt stop) row ∧ p.collect some stop = row.map Prod.snd) ∧
    (p.collect some []).length = p.nodeCount ∧
    p.visit (Visitor.overriding kinds (Visitor.collect some [])) [] =
      (p.collect some []).filter (·.kind ∈ kinds) := by
  refine ⟨?_, p.length_collect, p.visit_overriding kinds⟩
  obtain ⟨row, hrow, hwalk⟩ : Notes stop (.program p) _ := p.notes
  refine ⟨row, ⟨hrow.ordered, fun address n => ?_⟩, hwalk []⟩
  rw [hrow.mem_iff]
  exact nodeAt_childrenUnless stop _ n address

end CMinus
