import Mathlib.Algebra.Ring.Nat
import CMinus.Proofs.Diagnostics
import CMinus.Proofs.Lines
import CMinus.Proofs.Visits
import CMinus.Syntax.Outline

/-!
# Outlined: what the lines of an outline stand for

An outline has a line for each of its entries (`Entry`). Most nodes of a program are entries. A
place has no line of its own below the variable that names it, nor a block below a compound
statement, and the blocks of a conditional are entries twice, since a line above each says which one
it is. The entries stand in preorder, each as deep as its line (`outline_in_preorder`).

An entry keeps to its line unless it is a string literal that breaks its line itself.
-/

namespace CMinus

/-! ## 1. Entries -/

/-- What has a line in an outline: a node, or the place of a block in a conditional. -/
inductive Entry
  | node (n : Node)
  | thenBlock (body : Block Statement)
  | elseBlock (other : Block Statement)

/-- The entries directly below an entry, in source order. -/
def Entry.children : Entry → List Entry
  | .node (.expression (.scalar _ _)) => []
  | .node (.expression (.element _ index _)) => [.node (.expression index)]
  | .node (.statement (.ifThen condition body _)) =>
    [.node (.expression condition), .thenBlock body]
  | .node (.statement (.ifElse condition body other _)) =>
    [.node (.expression condition), .thenBlock body, .elseBlock other]
  | .node (.statement (.compound body)) => (Node.block body).children.map .node
  | .node n => n.children.map .node
  | .thenBlock body | .elseBlock body => [.node (.block body)]

/-- The kind of an expression, and what it names or says. -/
def Expression.label : Expression → String
  | .binary op _ _ _ => op.tier.name ++ " " ++ op.spelling
  | .not _ _ => "Not"
  | .scalar name _ => "Variable " ++ name
  | .element name _ _ => "Variable " ++ name ++ "[]"
  | .call name _ => "Call " ++ name
  | .int value _ => "IntConst " ++ (Token.int value).spelling
  | .float value _ => "FloatConst " ++ (Token.float value).spelling
  | .string text _ => "StringConst " ++ (Token.string text).spelling

/-- The kind of a statement. -/
def Statement.label : Statement → String
  | .assign _ _ _ => "Assignment"
  | .ifThen _ _ _ | .ifElse _ _ _ _ => "If"
  | .whileDo _ _ _ => "While"
  | .read _ _ => "Read"
  | .write _ _ => "Write"
  | .returns _ _ => "Return"
  | .exit _ => "Exit"
  | .compound _ => "Compound"

/-- A declared name with its type, and its size if it has one. -/
def Declaration.label (d : Declaration) : String :=
  "VarDecl " ++ d.name ++ ": " ++ d.type.spelling ++
    match d.size with
    | none => ""
    | some size => "[" ++ toString size ++ "]"

/-- A procedure's type and its name. -/
def Procedure.label (p : Procedure) : String :=
  "ProcedureDecl " ++ p.returnType.spelling ++ " " ++ p.name

/-- What an outline says of a node. -/
def Node.label : Node → String
  | .program _ => "Program"
  | .declarations _ => "DeclList"
  | .declaration d => d.label
  | .procedure p => p.label
  | .block _ => "StatementList"
  | .statement s => s.label
  | .expression e => e.label
  | .place v => v.toExpression.label

/-- What the line of an entry says behind its bars. -/
def Entry.label : Entry → String
  | .node n => n.label
  | .thenBlock _ => "Then"
  | .elseBlock _ => "Else"

/-- The line of an entry at an address. -/
def lineOf (e : List Nat × Entry) : OutlineLine :=
  ⟨e.1.length, e.2.label⟩

/-! ## 2. Every entry has its line -/

section Lines

/-- The lines are those of an entry at the given depth and of the entries below it, in preorder. -/
def Outlines (e : Entry) (lines : Nat → List OutlineLine) : Prop :=
  ∃ row, RowOf Entry.children e row ∧
    ∀ depth, lines depth = row.map fun x => ⟨depth + x.1.length, x.2.label⟩

variable {e : Entry} {es : List Entry} {lines : Nat → List OutlineLine}
  {parts : List (Nat → List OutlineLine)}

theorem rows_of_outlines (h : List.Forall₂ Outlines es parts) :
    ∃ rows, List.Forall₂ (RowOf Entry.children) es rows ∧
      ∀ depth, parts.flatMap (fun lines => lines depth) =
        rows.flatMap fun row => row.map fun x => ⟨depth + x.1.length, x.2.label⟩ := by
  induction h with
  | nil => exact ⟨[], .nil, fun _ => rfl⟩
  | cons hfirst _ ih =>
    obtain ⟨row, hrow, hlines⟩ := hfirst
    obtain ⟨rows, hrows, hparts⟩ := ih
    refine ⟨row :: rows, .cons hrow hrows, fun depth => ?_⟩
    rw [List.flatMap_cons, List.flatMap_cons, hlines, hparts]

/-- The line of an entry, then the lines of what is directly below it, one level deeper. -/
theorem outlines_entry (h : List.Forall₂ Outlines e.children parts)
    (hlines : ∀ depth,
      lines depth = ⟨depth, e.label⟩ :: parts.flatMap fun lines => lines (depth + 1)) :
    Outlines e lines := by
  obtain ⟨rows, hrows, hparts⟩ := rows_of_outlines h
  refine ⟨_, inPreorder_node hrows, fun depth => ?_⟩
  have hbelow := map_sideBySide (fun d (n : Entry) => OutlineLine.mk (depth + d) n.label) 0 rows
  rw [hlines, hparts, List.map_cons, hbelow]
  simp only [List.length_nil, Nat.add_zero, Nat.add_right_comm, Nat.add_assoc]

/-- The lines of an entry that is no deeper than the first column. -/
theorem Outlines.exists_row (h : Outlines e lines) {all : List OutlineLine} (hall : all = lines 0) :
    ∃ row, RowOf Entry.children e row ∧ all = row.map lineOf := by
  obtain ⟨row, hrow, hlines⟩ := h
  refine ⟨row, hrow, ?_⟩
  rw [hall, hlines]
  simp only [Nat.zero_add]
  rfl

section Below

variable {a b c : Entry} {as bs cs : Nat → List OutlineLine}

/-- A line with nothing below it. -/
theorem outlines_leaf (he : e.children = []) : Outlines e fun depth => [⟨depth, e.label⟩] := by
  have hbelow : List.Forall₂ Outlines e.children [] := by
    rw [he]
    exact .nil
  exact outlines_entry hbelow fun _ => rfl

theorem outlines_one (ha : Outlines a as) (he : e.children = [a]) :
    Outlines e fun depth => ⟨depth, e.label⟩ :: as (depth + 1) := by
  have hbelow : List.Forall₂ Outlines e.children [as] := by
    rw [he]
    exact .cons ha .nil
  exact outlines_entry hbelow fun depth => by simp

theorem outlines_two (ha : Outlines a as) (hb : Outlines b bs) (he : e.children = [a, b]) :
    Outlines e fun depth => ⟨depth, e.label⟩ :: as (depth + 1) ++ bs (depth + 1) := by
  have hbelow : List.Forall₂ Outlines e.children [as, bs] := by
    rw [he]
    exact .cons ha (.cons hb .nil)
  exact outlines_entry hbelow fun depth => by simp

theorem outlines_three (ha : Outlines a as) (hb : Outlines b bs) (hc : Outlines c cs)
    (he : e.children = [a, b, c]) :
    Outlines e fun depth =>
      ⟨depth, e.label⟩ :: as (depth + 1) ++ bs (depth + 1) ++ cs (depth + 1) := by
  have hbelow : List.Forall₂ Outlines e.children [as, bs, cs] := by
    rw [he]
    exact .cons ha (.cons hb (.cons hc .nil))
  exact outlines_entry hbelow fun depth => by simp

end Below

end Lines

theorem Expression.outlines (e : Expression) :
    Outlines (.node (.expression e)) fun depth => e.outline depth := by
  induction e with
  | binary op left right line ihl ihr => exact outlines_two ihl ihr rfl
  | not operand line ih => exact outlines_one ih rfl
  | element name index line ih => exact outlines_one ih rfl
  | scalar | call | int | float | string => exact outlines_leaf rfl

theorem Variable.outlines (v : Variable) :
    Outlines (.node (.place v)) fun depth => v.outline depth := by
  obtain ⟨name, index, line⟩ := v
  cases index with
  | none => exact outlines_leaf rfl
  | some index => exact outlines_one index.outlines rfl

namespace Statement

theorem outlineList_eq_flatMap (depth : Nat) (ss : List Statement) :
    outlineList depth ss =
      (ss.map fun s depth => s.outline depth).flatMap fun lines => lines depth := by
  induction ss with
  | nil => rfl
  | cons s rest ih => rw [outlineList, ih, List.map_cons, List.flatMap_cons]

section Branches

variable {b : Block Statement}
  (h : Outlines (.node (.block b)) fun depth => outlineBlock depth b)
include h

theorem outlines_then :
    Outlines (.thenBlock b) fun depth => ⟨depth, "Then"⟩ :: outlineBlock (depth + 1) b :=
  outlines_one h rfl

theorem outlines_else :
    Outlines (.elseBlock b) fun depth => ⟨depth, "Else"⟩ :: outlineBlock (depth + 1) b :=
  outlines_one h rfl

end Branches

mutual

theorem outlines : (s : Statement) →
    Outlines (.node (.statement s)) fun depth => s.outline depth
  | assign target value _ => outlines_two target.outlines value.outlines rfl
  | ifThen condition body _ =>
    outlines_two condition.outlines (outlines_then (outlines_block body)) rfl
  | ifElse condition body other _ =>
    outlines_three condition.outlines (outlines_then (outlines_block body))
      (outlines_else (outlines_block other)) rfl
  | whileDo condition body _ => outlines_two condition.outlines (outlines body) rfl
  | read target _ => outlines_one target.outlines rfl
  | write value _ | returns value _ => outlines_one value.outlines rfl
  | exit _ => outlines_leaf rfl
  | compound ⟨items, _⟩ =>
    outlines_entry (outlines_list items) fun depth => by
      -- the block of a compound statement has no line, its items are directly below
      rw [outline, outlineList_eq_flatMap]
      rfl

theorem outlines_block : (b : Block Statement) →
    Outlines (.node (.block b)) fun depth => outlineBlock depth b
  | ⟨items, _⟩ =>
    outlines_entry (outlines_list items) fun depth => by
      rw [outlineBlock, outlineList_eq_flatMap]
      rfl

theorem outlines_list : (ss : List Statement) →
    List.Forall₂ Outlines ((ss.map .statement).map .node) (ss.map fun s depth => s.outline depth)
  | [] => .nil
  | s :: rest => .cons (outlines s) (outlines_list rest)

end

end Statement

/-- Items are outlined one by one. -/
theorem forall₂_outlines {β : Type} {node : β → Node} {lines : β → Nat → List OutlineLine}
    (h : ∀ b, Outlines (.node (node b)) (lines b)) (bs : List β) :
    List.Forall₂ Outlines ((bs.map node).map .node) (bs.map lines) := by
  rw [List.map_map]
  exact forall₂_map h bs

theorem outlines_declarations (ds : Block Declaration) :
    Outlines (.node (.declarations ds)) fun depth => outlineDeclarations depth ds := by
  refine outlines_entry (forall₂_outlines (fun _ => outlines_leaf rfl) ds.items) fun depth => ?_
  rw [outlineDeclarations, List.flatMap_map, ← List.map_eq_flatMap]
  rfl

theorem Procedure.outlines (p : Procedure) :
    Outlines (.node (.procedure p)) fun depth => p.outline depth :=
  outlines_two (outlines_declarations p.locals) (Statement.outlines_block p.body) rfl

/-- The lines of a program are those of its entries. -/
theorem Program.exists_row (p : Program) :
    ∃ row, RowOf Entry.children (.node (.program p)) row ∧ p.outlineLines = row.map lineOf := by
  have hprocedures := forall₂_outlines Procedure.outlines p.procedures
  obtain ⟨globals, procedures, line⟩ := p
  cases globals with
  | none =>
    have houtlines : Outlines (.node (.program ⟨none, procedures, line⟩)) _ :=
      outlines_entry hprocedures fun _ => rfl
    refine houtlines.exists_row ?_
    rw [List.flatMap_map]
    rfl
  | some globals =>
    have houtlines : Outlines (.node (.program ⟨some globals, procedures, line⟩)) _ :=
      outlines_entry (.cons (outlines_declarations globals) hprocedures) fun _ => rfl
    refine houtlines.exists_row ?_
    rw [List.flatMap_cons, List.flatMap_map]
    rfl

/-! ## 3. Entries of a well-formed program -/

/-- Every part of the node is well-formed. -/
def Node.WellFormed : Node → Prop
  | .program p => p.WellFormed
  | .declarations ds => ∀ d ∈ ds.items, d.WellFormed
  | .declaration d => d.WellFormed
  | .procedure p => p.WellFormed
  | .block b => Statement.WellFormedBlock b
  | .statement s => s.WellFormed
  | .expression e => e.Writable
  | .place v => v.WellFormed

/-- Every part of the entry is well-formed. -/
def Entry.WellFormed : Entry → Prop
  | .node n => n.WellFormed
  | .thenBlock b | .elseBlock b => Statement.WellFormedBlock b

theorem Statement.WellFormedList.forall_mem {ss : List Statement} (h : WellFormedList ss) :
    ∀ s ∈ ss, s.WellFormed := by
  induction ss with
  | nil => exact List.forall_mem_nil _
  | cons s rest ih => exact List.forall_mem_cons.mpr ⟨h.1, ih h.2⟩

theorem Expression.wellFormed_children {e : Expression} (h : e.Writable) :
    ∀ child ∈ e.children, child.WellFormed := by
  cases e with
  | binary op left right line =>
    exact List.forall_mem_cons.mpr
      ⟨WellFormed.writable h.1, List.forall_mem_singleton.mpr (WellFormed.writable h.2)⟩
  | not operand line => exact List.forall_mem_singleton.mpr (WellFormed.writable h)
  | scalar name line => exact List.forall_mem_singleton.mpr h
  | element name index line => exact List.forall_mem_singleton.mpr h
  | call | int | float | string => exact List.forall_mem_nil _

theorem Statement.wellFormed_children {s : Statement} (h : s.WellFormed) :
    ∀ child ∈ s.children, child.WellFormed := by
  cases s with
  | assign target value line =>
    exact List.forall_mem_cons.mpr ⟨h.1, List.forall_mem_singleton.mpr h.2.writable⟩
  | ifThen condition body line =>
    exact List.forall_mem_cons.mpr ⟨h.1.writable, List.forall_mem_singleton.mpr h.2⟩
  | ifElse condition body other line =>
    exact List.forall_mem_cons.mpr ⟨h.1.writable,
      List.forall_mem_cons.mpr ⟨h.2.1, List.forall_mem_singleton.mpr h.2.2⟩⟩
  | whileDo condition body line =>
    exact List.forall_mem_cons.mpr ⟨h.1.writable, List.forall_mem_singleton.mpr h.2⟩
  | read target line => exact List.forall_mem_singleton.mpr h
  | write value line => exact List.forall_mem_singleton.mpr h
  | returns value line => exact List.forall_mem_singleton.mpr (Expression.WellFormed.writable h)
  | exit line => exact List.forall_mem_nil _
  | compound body => exact List.forall_mem_singleton.mpr h

/-- What is directly below a well-formed node is well-formed. -/
theorem Node.wellFormed_children {n : Node} (h : n.WellFormed) :
    ∀ child ∈ n.children, child.WellFormed := by
  cases n with
  | program p =>
    obtain ⟨globals, procedures, line⟩ := p
    obtain ⟨hglobals, _, hprocedures⟩ := h
    cases globals with
    | none => exact List.forall_mem_map.mpr hprocedures
    | some globals =>
      exact List.forall_mem_cons.mpr ⟨(hglobals globals rfl).2, List.forall_mem_map.mpr hprocedures⟩
  | declarations ds => exact List.forall_mem_map.mpr h
  | declaration d => exact List.forall_mem_nil _
  | procedure p => exact List.forall_mem_cons.mpr ⟨h.2.1, List.forall_mem_singleton.mpr h.2.2⟩
  | block b =>
    obtain ⟨items, line⟩ := b
    exact List.forall_mem_map.mpr (Statement.WellFormedList.forall_mem h.2)
  | statement s => exact Statement.wellFormed_children h
  | expression e => exact Expression.wellFormed_children h
  | place v =>
    obtain ⟨name, index, line⟩ := v
    cases index with
    | none => exact List.forall_mem_nil _
    | some index => exact List.forall_mem_singleton.mpr (Expression.WellFormed.writable h.2)

/-- What is directly below a well-formed entry is well-formed. -/
theorem Entry.wellFormed_children {e : Entry} (h : e.WellFormed) :
    ∀ child ∈ e.children, child.WellFormed := by
  cases e with
  | thenBlock b | elseBlock b => exact List.forall_mem_singleton.mpr h
  | node n =>
    have hbelow : ∀ child ∈ n.children, child.WellFormed := n.wellFormed_children h
    cases n with
    | statement s =>
      cases s with
      | ifThen condition body line =>
        exact List.forall_mem_cons.mpr ⟨h.1.writable, List.forall_mem_singleton.mpr h.2⟩
      | ifElse condition body other line =>
        exact List.forall_mem_cons.mpr ⟨h.1.writable,
          List.forall_mem_cons.mpr ⟨h.2.1, List.forall_mem_singleton.mpr h.2.2⟩⟩
      | compound body =>
        have hitems : ∀ child ∈ (Node.block body).children, child.WellFormed :=
          Node.wellFormed_children h
        exact List.forall_mem_map.mpr hitems
      | assign | whileDo | read | write | returns | exit => exact List.forall_mem_map.mpr hbelow
    | expression e =>
      cases e with
      | scalar name line => exact List.forall_mem_nil _
      | element name index line =>
        exact List.forall_mem_singleton.mpr (Expression.WellFormed.writable h.2)
      | binary | not | call | int | float | string => exact List.forall_mem_map.mpr hbelow
    | program | declarations | declaration | procedure | block | place =>
      exact List.forall_mem_map.mpr hbelow

/-- The entries of a well-formed program are well-formed. -/
theorem wellFormed_of_mem_row {p : Program} (hp : p.WellFormed) {row : List (List Nat × Entry)}
    (hrow : RowOf Entry.children (.node (.program p)) row) {e : List Nat × Entry} (he : e ∈ row) :
    e.2.WellFormed := by
  have hroot : (Entry.node (.program p)).WellFormed := hp
  exact forall_nodeAt (fun _ => Entry.wellFormed_children) hroot ((hrow.mem_iff e.1 e.2).mp he)

/-! ## 4. Entries that break their line -/

/-- The entry is a string literal that holds the text. -/
def Entry.Quotes (e : Entry) (text : String) : Prop :=
  ∃ line, e = .node (.expression (.string text line))

theorem BinaryOp.oneLine_label (op : BinaryOp) : OneLine (op.tier.name ++ " " ++ op.spelling) := by
  cases op <;> decide

/-- An expression that is no string literal keeps to its line. -/
theorem Expression.oneLine_label {e : Expression} (h : e.Writable) :
    OneLine e.label ↔ ∀ text line, e = .string text line → OneLine text := by
  cases e with
  | string text line =>
    have hspelling : OneLine (Token.string text).spelling ↔ OneLine text := oneLine_quoted text
    rw [label, oneLine_append, hspelling, and_iff_right (by decide)]
    exact ⟨fun htext _ _ e => (Expression.string.inj e).1 ▸ htext, fun hall => hall text line rfl⟩
  | binary op left right line => exact iff_of_true op.oneLine_label fun _ _ e => by cases e
  | not operand line =>
    have hnot : OneLine "Not" := by decide
    exact iff_of_true hnot fun _ _ e => by cases e
  | scalar name line =>
    exact iff_of_true (OneLine.append (by decide) (IsName.oneLine h)) fun _ _ e => by cases e
  | element name index line =>
    exact iff_of_true (oneLine_between (by decide) (IsName.oneLine h.1) (by decide))
      fun _ _ e => by cases e
  | call name line =>
    exact iff_of_true (OneLine.append (by decide) (IsName.oneLine h)) fun _ _ e => by cases e
  | int value line =>
    have hspelling := (Token.oneLine_spelling (t := .int value) h).mpr fun _ e => by cases e
    exact iff_of_true (OneLine.append (by decide) hspelling) fun _ _ e => by cases e
  | float value line =>
    have hspelling := (Token.oneLine_spelling (t := .float value) h).mpr fun _ e => by cases e
    exact iff_of_true (OneLine.append (by decide) hspelling) fun _ _ e => by cases e

theorem Statement.oneLine_label (s : Statement) : OneLine s.label := by
  cases s <;> rw [label] <;> decide

theorem ValueType.oneLine_spelling (type : ValueType) : OneLine type.spelling := by
  cases type <;> decide

theorem Declaration.oneLine_label {d : Declaration} (h : d.WellFormed) : OneLine d.label := by
  obtain ⟨name, type, size, line⟩ := d
  have hfront : OneLine ("VarDecl " ++ name ++ ": " ++ type.spelling) := by
    exact (oneLine_between (by decide) h.1.oneLine (by decide)).append type.oneLine_spelling
  cases size with
  | none =>
    have hnone : OneLine "" := by decide
    exact hfront.append hnone
  | some size =>
    exact hfront.append (oneLine_between (by decide) (oneLine_nat size) (by decide))

theorem Procedure.oneLine_label {p : Procedure} (h : p.WellFormed) : OneLine p.label := by
  have hfront : OneLine ("ProcedureDecl " ++ p.returnType.spelling ++ " ") :=
    oneLine_between (by decide) p.returnType.oneLine_spelling (by decide)
  exact hfront.append h.1.oneLine

/-- An entry that is no string literal keeps to its line. -/
theorem Entry.oneLine_label {e : Entry} (h : e.WellFormed) :
    OneLine e.label ↔ ∀ text, e.Quotes text → OneLine text := by
  have hkeeps : OneLine e.label → (∀ e', e ≠ .node (.expression e')) →
      (OneLine e.label ↔ ∀ text, e.Quotes text → OneLine text) :=
    fun hlabel hne => iff_of_true hlabel fun _ ⟨_, he⟩ => absurd he (hne _)
  cases e with
  | thenBlock b => exact hkeeps (show OneLine "Then" by decide) fun _ e => by cases e
  | elseBlock b => exact hkeeps (show OneLine "Else" by decide) fun _ e => by cases e
  | node n =>
    cases n with
    | program p => exact hkeeps (show OneLine "Program" by decide) fun _ e => by cases e
    | declarations ds => exact hkeeps (show OneLine "DeclList" by decide) fun _ e => by cases e
    | declaration d => exact hkeeps (Declaration.oneLine_label h) fun _ e => by cases e
    | procedure p => exact hkeeps (Procedure.oneLine_label h) fun _ e => by cases e
    | block b => exact hkeeps (show OneLine "StatementList" by decide) fun _ e => by cases e
    | statement s => exact hkeeps s.oneLine_label fun _ e => by cases e
    | place v =>
      have hlabel := (Expression.oneLine_label (Expression.WellFormed.writable h)).mpr
        fun text line e => by
          obtain ⟨name, index, line⟩ := v
          cases index <;> cases e
      exact hkeeps hlabel fun _ e => by cases e
    | expression e =>
      show OneLine e.label ↔ _
      rw [Expression.oneLine_label h]
      constructor
      · intro hall text hquotes
        obtain ⟨line, he⟩ := hquotes
        cases he
        exact hall text line rfl
      · intro hall text line he
        exact hall text ⟨line, by rw [he]⟩

/-! ## 5. As many lines as entries -/

/-- The node is an expression that names a place. -/
def Node.isVariable : Node → Bool
  | .expression e => e.place?.isSome
  | _ => false

/-- The node is a compound statement. -/
def Node.isCompound : Node → Bool
  | .statement (.compound _) => true
  | _ => false

/-- How many blocks a conditional has. -/
def Node.branches : Node → Nat
  | .statement (.ifThen _ _ _) => 1
  | .statement (.ifElse _ _ _ _) => 2
  | _ => 0

/-- How many lines an outline has for a node, without those for what is below it. -/
def Node.ownLines : Node → Nat
  | .expression (.scalar _ _) | .expression (.element _ _ _) | .statement (.compound _) => 0
  | .statement (.ifThen _ _ _) => 2
  | .statement (.ifElse _ _ _ _) => 3
  | _ => 1

theorem Node.ownLines_add (n : Node) :
    n.ownLines + n.isVariable.toNat + n.isCompound.toNat = 1 + n.branches := by
  cases n with
  | expression e => cases e <;> rfl
  | statement s => cases s <;> rfl
  | program | declarations | declaration | procedure | block | place => rfl

/-- A variable and a compound statement are two nodes with one line, a block of a conditional is
    one node with two lines. -/
theorem sum_ownLines (nodes : List Node) :
    (nodes.map Node.ownLines).sum + nodes.countP Node.isVariable + nodes.countP Node.isCompound =
      nodes.length + (nodes.map Node.branches).sum := by
  have hcount : ∀ (b : Bool), (if b = true then 1 else 0) = b.toNat := by decide
  induction nodes with
  | nil => rfl
  | cons n rest ih =>
    have hn := n.ownLines_add
    simp only [List.map_cons, List.sum_cons, List.countP_cons, List.length_cons, hcount]
    omega

/-- There are as many lines as the nodes have. -/
def Tallied (lines : List OutlineLine) (nodes : List Node) : Prop :=
  lines.length = (nodes.map Node.ownLines).sum

section Tallied

variable {l l' l'' : OutlineLine} {as bs cs : List OutlineLine} {n : Node} {ms ns : List Node}

theorem Tallied.append (h : Tallied as ms) (h' : Tallied bs ns) :
    Tallied (as ++ bs) (ms ++ ns) := by
  unfold Tallied at *
  rw [List.length_append, List.map_append, List.sum_append, h, h']

/-- A node with a line of its own. -/
theorem Tallied.line (h : Tallied as ns) (hn : n.ownLines = 1) : Tallied (l :: as) (n :: ns) := by
  unfold Tallied at *
  rw [List.length_cons, List.map_cons, List.sum_cons, h, hn, Nat.add_comm]

/-- A node that is said on the line of another one. -/
theorem Tallied.silent (h : Tallied as ns) (hn : n.ownLines = 0) : Tallied as (n :: ns) := by
  unfold Tallied at *
  rw [List.map_cons, List.sum_cons, h, hn, Nat.zero_add]

theorem Tallied.branch (h : Tallied (as ++ bs) ns) (hn : n.ownLines = 2) :
    Tallied (l :: as ++ l' :: bs) (n :: ns) := by
  unfold Tallied at *
  rw [List.length_append] at h
  rw [List.length_append, List.length_cons, List.length_cons, List.map_cons, List.sum_cons, hn]
  omega

theorem Tallied.branches (h : Tallied (as ++ bs ++ cs) ns) (hn : n.ownLines = 3) :
    Tallied (l :: as ++ l' :: bs ++ l'' :: cs) (n :: ns) := by
  unfold Tallied at *
  simp only [List.length_append, List.length_cons, List.map_cons, List.sum_cons] at h ⊢
  omega

theorem tallied_nil : Tallied [] [] := rfl

end Tallied

theorem Expression.tallied (e : Expression) (depth : Nat) :
    Tallied (e.outline depth) e.nodes := by
  induction e generalizing depth with
  | binary op left right line ihl ihr => exact ((ihl _).append (ihr _)).line rfl
  | not operand line ih => exact (ih _).line rfl
  | element name index line ih =>
    have hplace : Tallied (outline depth (.element name index line))
        (.place ⟨name, some index, line⟩ :: index.nodes) := (ih _).line rfl
    exact hplace.silent rfl
  | scalar | call | int | float | string => rfl

theorem Variable.tallied (v : Variable) (depth : Nat) : Tallied (v.outline depth) v.nodes := by
  obtain ⟨name, index, line⟩ := v
  cases index with
  | none => rfl
  | some index => exact (index.tallied _).line rfl

namespace Statement

mutual

theorem tallied (depth : Nat) : (s : Statement) → Tallied (s.outline depth) s.nodes
  | assign target value _ => ((target.tallied _).append (value.tallied _)).line rfl
  | ifThen condition body _ => ((condition.tallied _).append (tallied_block _ body)).branch rfl
  | ifElse condition body other _ =>
    (((condition.tallied _).append (tallied_block _ body)).append (tallied_block _ other)).branches
      rfl
  | whileDo condition body _ => ((condition.tallied _).append (tallied _ body)).line rfl
  | read target _ => (target.tallied _).line rfl
  | write value _ | returns value _ => (value.tallied _).line rfl
  | exit _ => rfl
  | compound ⟨items, _⟩ => Tallied.silent ((tallied_list _ items).line rfl) rfl

theorem tallied_block (depth : Nat) : (b : Block Statement) →
    Tallied (outlineBlock depth b) (nodesBlock b)
  | ⟨items, _⟩ => (tallied_list _ items).line rfl

theorem tallied_list (depth : Nat) : (ss : List Statement) →
    Tallied (outlineList depth ss) (nodesList ss)
  | [] => tallied_nil
  | s :: rest => (tallied _ s).append (tallied_list _ rest)

end

end Statement

theorem tallied_declarations (depth : Nat) (ds : Block Declaration) :
    Tallied (outlineDeclarations depth ds) ds.declarationNodes := by
  have hitems : Tallied (ds.items.map (Declaration.outline (depth + 1)))
      (ds.items.map .declaration) := by
    induction ds.items with
    | nil => exact tallied_nil
    | cons d rest ih => exact ih.line rfl
  exact hitems.line rfl

theorem Procedure.tallied (depth : Nat) (p : Procedure) : Tallied (p.outline depth) p.nodes :=
  ((tallied_declarations _ p.locals).append (Statement.tallied_block _ p.body)).line rfl

theorem Program.tallied (p : Program) : Tallied p.outlineLines p.nodes := by
  have hprocedures : Tallied (p.procedures.flatMap (Procedure.outline 1))
      (p.procedures.flatMap Procedure.nodes) := by
    induction p.procedures with
    | nil => exact tallied_nil
    | cons q rest ih =>
      rw [List.flatMap_cons, List.flatMap_cons]
      exact (q.tallied 1).append ih
  obtain ⟨globals, procedures, line⟩ := p
  cases globals with
  | none => exact hprocedures.line rfl
  | some globals => exact ((tallied_declarations 1 globals).append hprocedures).line rfl

/-! ## 6. The whole outline -/

/-- The text of an outline is its lines, each with its end. -/
theorem Program.outline_eq_ofLines (p : Program) :
    p.outline = ofLines (p.outlineLines.map OutlineLine.text) := by
  rw [outline, ofLines, List.map_map]
  rfl

theorem OutlineLine.oneLine_text (l : OutlineLine) : OneLine l.text ↔ OneLine l.label := by
  have hbars : ∀ n, OneLine (String.join (List.replicate n "| ")) := by
    intro n
    induction n with
    | zero => decide
    | succ n ih =>
      rw [List.replicate_succ, String.join_cons]
      exact OneLine.append (by decide) ih
  rw [text, oneLine_append]
  exact and_iff_right (hbars l.depth)

/-- **The outline of an accepted program** is a row of lines, one for each entry of the program in
    preorder, as deep as the entry stands. There are as many as nodes, without one for each
    variable and each compound statement, and with one more for each block of a conditional. The
    lines of the text are these lines unless a string literal breaks its own. -/
theorem outline_in_preorder (source : String) (o : Options) (p : Program)
    (h : parse source o = .ok p) :
    ∃ row, RowOf Entry.children (.node (.program p)) row ∧
      p.outline = ofLines (row.map fun e => (lineOf e).text) ∧
      row.length + (p.collect some []).countP Node.isVariable +
          (p.collect some []).countP Node.isCompound =
        p.nodeCount + ((p.collect some []).map Node.branches).sum ∧
      (linesOf p.outline = (row.map fun e => (lineOf e).text) ++ [""] ↔
        ∀ e ∈ row, ∀ text, e.2.Quotes text → OneLine text) := by
  obtain ⟨row, hrow, hlines⟩ := p.exists_row
  have htext : p.outline = ofLines (row.map fun e => (lineOf e).text) := by
    rw [p.outline_eq_ofLines, hlines, List.map_map]
    rfl
  refine ⟨row, hrow, htext, ?_, ?_⟩
  · have hnodes : p.collect some [] = p.nodes := by
      rw [p.collect_eq, List.filterMap_some]
    have hlength : p.outlineLines.length = (p.nodes.map Node.ownLines).sum := p.tallied
    have hsum := sum_ownLines p.nodes
    have hcount := p.length_collect
    rw [hlines, List.length_map] at hlength
    rw [hnodes] at hcount ⊢
    omega
  · rw [htext, linesOf_ofLines_iff, List.forall_mem_map]
    refine forall₂_congr fun e he => ?_
    rw [OutlineLine.oneLine_text]
    exact Entry.oneLine_label (wellFormed_of_mem_row (wellFormed_of_parse h) hrow he)

/-- A string literal that goes on in the next line takes two lines of the text. -/
theorem outline_in_preorder_broken :
    ∃ p row, parse "int f() \x7b write('a\nb'); \x7d" {} = .ok p ∧
      RowOf Entry.children (.node (.program p)) row ∧
      linesOf p.outline ≠ (row.map fun e => (lineOf e).text) ++ [""] ∧
      ∃ e ∈ row, ∃ text, e.2.Quotes text ∧ ¬OneLine text := by
  have hok : (parse "int f() \x7b write('a\nb'); \x7d" {}).isOk = true := by decide +kernel
  obtain ⟨p, hp⟩ := exists_ok_of_isOk hok
  obtain ⟨row, hrow, _, hcount, hlines⟩ := outline_in_preorder _ _ p hp
  have hnumbers : (parse "int f() \x7b write('a\nb'); \x7d" {}).toOption.map (fun p =>
      ((linesOf p.outline).length, p.nodeCount, ((p.collect some []).map Node.branches).sum)) =
        some (8, 6, 0) := by decide +kernel
  rw [hp] at hnumbers
  simp only [Except.toOption, Option.map_some, Option.some.injEq, Prod.mk.injEq] at hnumbers
  obtain ⟨hlength, hnodes, hbranches⟩ := hnumbers
  have hbroken : linesOf p.outline ≠ (row.map fun e => (lineOf e).text) ++ [""] := by
    intro heq
    have hsame := congrArg List.length heq
    rw [hlength, List.length_append, List.length_map, List.length_singleton] at hsame
    omega
  refine ⟨p, row, hp, hrow, hbroken, ?_⟩
  by_contra hnone
  refine hbroken (hlines.mpr fun e he text hquotes => ?_)
  by_contra hbreaks
  exact hnone ⟨e, he, text, hquotes, hbreaks⟩

end CMinus
