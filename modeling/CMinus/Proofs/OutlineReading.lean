import CMinus.Proofs.OutlineLines

/-!
# OutlineReading: an outline says its program

Two accepted programs have one outline if and only if they differ in their lines only
(`outline_eq_iff`). The text says the lines it is made of, and these say how deep each entry stands
and what it is called, so the entries of both programs agree at every address (`agree_of_rows`).
What an entry is follows from what it is called and from what is below it, one constructor after the
other: that a conditional has an else-block is seen below it only.
-/

namespace CMinus

open Scan

/-! ## 1. What is called alike is alike -/

/-- A token is known by its spelling. -/
theorem Token.spelling_injective {t t' : Token} (ht : t.Spellable) (ht' : t'.Spellable)
    (h : t.spelling = t'.spelling) : t = t' := by
  have hsegments := Token.segments_spelling ht (stopsAt_nil _)
  rw [h, Token.segments_spelling ht' (stopsAt_nil _)] at hsegments
  exact (Segment.token.inj (List.cons.inj hsegments).1).1.symm

theorem BinaryOp.label_injective (op op' : BinaryOp)
    (h : op.tier.name ++ " " ++ op.spelling = op'.tier.name ++ " " ++ op'.spelling) : op = op' := by
  revert h
  cases op <;> cases op' <;> decide

/-- The outermost parts of two expressions are the same, whatever is below them. -/
def Expression.SameHead : Expression → Expression → Prop
  | .binary op _ _ _, .binary op' _ _ _ => op = op'
  | .not _ _, .not _ _ => True
  | .element name _ _, .element name' _ _ => name = name'
  | e, e' => e.bare = e'.bare

theorem Expression.eq_binary_of_label {op : BinaryOp} {left right e : Expression} {line : Nat}
    (h : (binary op left right line).label = e.label) :
    ∃ left' right' line', e = binary op left' right' line' := by
  have hchars := congrArg String.toList h
  cases e with
  | binary op' left' right' line' =>
    rw [BinaryOp.label_injective op op' h]
    exact ⟨_, _, _, rfl⟩
  | not | scalar | element | call | int | float | string =>
    cases op <;> simp [label, BinaryOp.tier, Tier.name] at hchars

/-- The operator that joins two operands. -/
def Expression.op? : Expression → Option BinaryOp
  | .binary op _ _ _ => some op
  | _ => none

theorem Expression.op?_of_label {e e' : Expression} (h : e.label = e'.label) : e.op? = e'.op? := by
  cases e with
  | binary op left right line =>
    obtain ⟨_, _, _, rfl⟩ := eq_binary_of_label h
    rfl
  | not | scalar | element | call | int | float | string =>
    cases e' with
    | binary op' left' right' line' =>
      obtain ⟨_, _, _, he⟩ := eq_binary_of_label h.symm
      cases he
    | not | scalar | element | call | int | float | string => rfl

theorem IsName.bracket_notMem {name : String} (h : IsName name) : '[' ∉ name.toList :=
  fun hmem => absurd (h.start_or_word _ hmem) (by decide)

theorem IsName.colon_notMem {name : String} (h : IsName name) : ':' ∉ name.toList :=
  fun hmem => absurd (h.start_or_word _ hmem) (by decide)

/-- A variable is not called like an element. -/
theorem element_label_ne_scalar {name name' : String} (h' : IsName name') :
    "Variable " ++ name ++ "[]" ≠ "Variable " ++ name' := by
  intro heq
  have hchars := congrArg String.toList heq
  simp only [String.toList_append, List.append_assoc, List.append_cancel_left_eq] at hchars
  refine h'.bracket_notMem ?_
  rw [← hchars]
  exact List.mem_append_right _ List.mem_cons_self

/-- An expression is known by what it is called, up to what is below it. -/
theorem Expression.sameHead_of_label {e e' : Expression} (h : e.Writable) (h' : e'.Writable)
    (heq : e.label = e'.label) : SameHead e e' := by
  have hchars := congrArg String.toList heq
  have hop := op?_of_label heq
  cases e with
  | binary op left right line =>
    obtain ⟨_, _, _, rfl⟩ := eq_binary_of_label heq
    rfl
  | not operand line =>
    cases e' with
    | binary op' left' right' line' => cases hop
    | not operand' line' => trivial
    | scalar | element | call | int | float | string => simp [label] at hchars
  | scalar name line =>
    cases e' with
    | binary op' left' right' line' => cases hop
    | scalar name' line' =>
      have hname : name = name' := by simpa [label] using heq
      exact congrArg (scalar · 0) hname
    | element name' index' line' => exact absurd heq.symm (element_label_ne_scalar h)
    | not | call | int | float | string => simp [label] at hchars
  | element name index line =>
    cases e' with
    | binary op' left' right' line' => cases hop
    | scalar name' line' => exact absurd heq (element_label_ne_scalar h')
    | element name' index' line' =>
      have hname : name = name' := by simpa [label] using heq
      exact hname
    | not | call | int | float | string => simp [label] at hchars
  | call name line =>
    cases e' with
    | binary op' left' right' line' => cases hop
    | call name' line' =>
      have hname : name = name' := by simpa [label] using heq
      exact congrArg (call · 0) hname
    | not | scalar | element | int | float | string => simp [label] at hchars
  | int value line =>
    cases e' with
    | binary op' left' right' line' => cases hop
    | int value' line' =>
      have hspelling : (Token.int value).spelling = (Token.int value').spelling := by
        simpa [label] using heq
      exact congrArg (int · 0) (Token.int.inj (Token.spelling_injective h h' hspelling))
    | not | scalar | element | call | float | string => simp [label] at hchars
  | float value line =>
    cases e' with
    | binary op' left' right' line' => cases hop
    | float value' line' =>
      have hspelling : (Token.float value).spelling = (Token.float value').spelling := by
        simpa [label] using heq
      exact congrArg (float · 0) (Token.float.inj (Token.spelling_injective h h' hspelling))
    | not | scalar | element | call | int | string => simp [label] at hchars
  | string text line =>
    cases e' with
    | binary op' left' right' line' => cases hop
    | string text' line' =>
      have hspelling : (Token.string text).spelling = (Token.string text').spelling := by
        simpa [label] using heq
      exact congrArg (string · 0) (Token.string.inj (Token.spelling_injective h h' hspelling))
    | not | scalar | element | call | int | float => simp [label] at hchars

theorem ValueType.spelling_cancel {type type' : ValueType} {rest rest' : List Char}
    (h : type.spelling.toList ++ rest = type'.spelling.toList ++ rest') :
    type = type' ∧ rest = rest' := by
  cases type with
  | int =>
    cases type' with
    | int => exact ⟨rfl, List.append_cancel_left h⟩
    | float => simp [spelling, keyword, Keyword.spelling] at h
  | float =>
    cases type' with
    | int => simp [spelling, keyword, Keyword.spelling] at h
    | float => exact ⟨rfl, List.append_cancel_left h⟩

/-- How a declared type is said, with a size if there is one. -/
def Declaration.typeChars (d : Declaration) : List Char :=
  d.type.spelling.toList ++
    match d.size with
    | none => []
    | some size => '[' :: ((Token.int size).spelling.toList ++ [']'])

theorem Declaration.toList_label (d : Declaration) :
    d.label.toList = "VarDecl ".toList ++ (d.name.toList ++ ':' :: ' ' :: d.typeChars) := by
  obtain ⟨name, type, size, line⟩ := d
  cases size with
  | none =>
    show ("VarDecl " ++ name ++ ": " ++ type.spelling ++ "").toList = _
    simp only [String.toList_append, List.append_assoc]
    rfl
  | some size =>
    show ("VarDecl " ++ name ++ ": " ++ type.spelling ++ ("[" ++ toString size ++ "]")).toList = _
    simp only [String.toList_append, List.append_assoc]
    rfl

theorem Declaration.eq_of_typeChars {d d' : Declaration} (h : d.WellFormed) (h' : d'.WellFormed)
    (heq : d.typeChars = d'.typeChars) : d.type = d'.type ∧ d.size = d'.size := by
  obtain ⟨name, type, size, line⟩ := d
  obtain ⟨name', type', size', line'⟩ := d'
  obtain ⟨htype, hsize⟩ := ValueType.spelling_cancel heq
  refine ⟨htype, ?_⟩
  cases size with
  | none =>
    cases size' with
    | none => rfl
    | some size' => cases hsize
  | some size =>
    cases size' with
    | none => cases hsize
    | some size' =>
      have hspelling := String.toList_injective (List.append_cancel_right (List.cons.inj hsize).2)
      have htoken := Token.spelling_injective (h.2 size rfl) (h'.2 size' rfl) hspelling
      exact congrArg some (Int.ofNat.inj (Token.int.inj htoken))

/-- A declaration is known by its label. -/
theorem Declaration.bare_eq_of_label {d d' : Declaration} (h : d.WellFormed) (h' : d'.WellFormed)
    (heq : d.label = d'.label) : d.bare = d'.bare := by
  have hchars := congrArg String.toList heq
  rw [toList_label, toList_label] at hchars
  have hsplit := congrArg (until? ':') (List.append_cancel_left hchars)
  rw [until?_append_stop h.1.colon_notMem, until?_append_stop h'.1.colon_notMem,
    Option.some.injEq, Prod.mk.injEq] at hsplit
  obtain ⟨hname, hbehind⟩ := hsplit
  obtain ⟨htype, hsize⟩ := eq_of_typeChars h h' (List.cons.inj hbehind).2
  rw [bare, bare, String.toList_injective hname, htype, hsize]

/-- The type and the name of a procedure are known by its label. -/
theorem Procedure.eq_of_label {p q : Procedure} (heq : p.label = q.label) :
    p.returnType = q.returnType ∧ p.name = q.name := by
  have hchars := congrArg String.toList heq
  rw [toList_label, toList_label] at hchars
  obtain ⟨htype, hname⟩ := ValueType.spelling_cancel (List.append_cancel_left hchars)
  exact ⟨htype, String.toList_injective (List.cons.inj hname).2⟩

/-! ## 2. Entries that agree -/

/-- Two entries that are called alike, as is everything below them. -/
abbrev Entry.Agree : Entry → Entry → Prop :=
  CMinus.Agree Entry.children Entry.label

theorem Expression.bare_eq_of_agree {e e' : Expression} (h : e.Writable) (h' : e'.Writable)
    (hagree : Entry.Agree (.node (.expression e)) (.node (.expression e'))) : e.bare = e'.bare := by
  induction e generalizing e' with
  | binary op left right line ihl ihr =>
    have hhead := sameHead_of_label h h' hagree.label_eq
    cases e' with
    | binary op' left' right' line' =>
      obtain ⟨hleft, hbelow⟩ := List.forall₂_cons.mp hagree.below
      obtain ⟨hright, _⟩ := List.forall₂_cons.mp hbelow
      have hop : op = op' := hhead
      rw [bare, bare, hop, ihl (WellFormed.writable h.1) (WellFormed.writable h'.1) hleft,
        ihr (WellFormed.writable h.2) (WellFormed.writable h'.2) hright]
    | not | scalar | element | call | int | float | string => cases hhead
  | not operand line ih =>
    have hhead := sameHead_of_label h h' hagree.label_eq
    cases e' with
    | not operand' line' =>
      have hwell : operand'.Writable := WellFormed.writable h'
      obtain ⟨hoperand, _⟩ := List.forall₂_cons.mp hagree.below
      rw [bare, bare, ih (WellFormed.writable h) hwell hoperand]
    | binary | scalar | element | call | int | float | string => cases hhead
  | element name index line ih =>
    have hhead := sameHead_of_label h h' hagree.label_eq
    cases e' with
    | element name' index' line' =>
      obtain ⟨hindex, _⟩ := List.forall₂_cons.mp hagree.below
      have hname : name = name' := hhead
      rw [bare, bare, hname, ih (WellFormed.writable h.2) (WellFormed.writable h'.2) hindex]
    | binary | not | scalar | call | int | float | string => cases hhead
  | scalar | call | int | float | string =>
    have hhead := sameHead_of_label h h' hagree.label_eq
    cases e' <;> exact hhead

/-- A place is called as the variable that names it. -/
theorem Variable.agree_toExpression {v v' : Variable}
    (hagree : Entry.Agree (.node (.place v)) (.node (.place v'))) :
    Entry.Agree (.node (.expression v.toExpression)) (.node (.expression v'.toExpression)) := by
  have hbelow : ∀ v : Variable,
      (Entry.node (.expression v.toExpression)).children = (Entry.node (.place v)).children := by
    intro v
    obtain ⟨name, index, line⟩ := v
    cases index <;> rfl
  intro address
  cases address with
  | nil => exact hagree []
  | cons i address =>
    rw [nodeAt, nodeAt, hbelow, hbelow]
    exact hagree (i :: address)

theorem Variable.bare_eq_of_agree {v v' : Variable} (h : v.WellFormed) (h' : v'.WellFormed)
    (hagree : Entry.Agree (.node (.place v)) (.node (.place v'))) : v.bare = v'.bare := by
  have hbare := Expression.bare_eq_of_agree (Expression.WellFormed.writable h)
    (Expression.WellFormed.writable h') (agree_toExpression hagree)
  rw [← toExpression_bare, ← toExpression_bare] at hbare
  have hplace := congrArg Expression.place? hbare
  rw [place?_toExpression, place?_toExpression] at hplace
  exact Option.some.inj hplace

namespace Statement

mutual

theorem bare_eq_of_agree : (s s' : Statement) → s.WellFormed → s'.WellFormed →
    Entry.Agree (.node (.statement s)) (.node (.statement s')) → s.bare = s'.bare
  | assign target value _, s', h, h', hagree => by
    have hlabel : "Assignment" = s'.label := hagree.label_eq
    cases s' with
    | assign target' value' line' =>
      obtain ⟨htarget, hbelow⟩ := List.forall₂_cons.mp hagree.below
      obtain ⟨hvalue, _⟩ := List.forall₂_cons.mp hbelow
      rw [bare, bare, Variable.bare_eq_of_agree h.1 h'.1 htarget,
        Expression.bare_eq_of_agree h.2.writable h'.2.writable hvalue]
    | ifThen | ifElse | whileDo | read | write | returns | exit | compound => simp [label] at hlabel
  | ifThen condition body _, s', h, h', hagree => by
    have hlabel : "If" = s'.label := hagree.label_eq
    cases s' with
    | ifThen condition' body' line' =>
      obtain ⟨hcondition, hbelow⟩ := List.forall₂_cons.mp hagree.below
      obtain ⟨hthen, _⟩ := List.forall₂_cons.mp hbelow
      obtain ⟨hbody, _⟩ := List.forall₂_cons.mp hthen.below
      rw [bare, bare, Expression.bare_eq_of_agree h.1.writable h'.1.writable hcondition,
        bareBlock_eq_of_agree body body' h.2 h'.2 hbody]
    | ifElse =>
      -- both are called `If`, but one has an entry more below it
      cases hagree.below.length_eq
    | assign | whileDo | read | write | returns | exit | compound => simp [label] at hlabel
  | ifElse condition body other _, s', h, h', hagree => by
    have hlabel : "If" = s'.label := hagree.label_eq
    cases s' with
    | ifElse condition' body' other' line' =>
      obtain ⟨hcondition, hbelow⟩ := List.forall₂_cons.mp hagree.below
      obtain ⟨hthen, hbelow⟩ := List.forall₂_cons.mp hbelow
      obtain ⟨helse, _⟩ := List.forall₂_cons.mp hbelow
      obtain ⟨hbody, _⟩ := List.forall₂_cons.mp hthen.below
      obtain ⟨hother, _⟩ := List.forall₂_cons.mp helse.below
      rw [bare, bare, Expression.bare_eq_of_agree h.1.writable h'.1.writable hcondition,
        bareBlock_eq_of_agree body body' h.2.1 h'.2.1 hbody,
        bareBlock_eq_of_agree other other' h.2.2 h'.2.2 hother]
    | ifThen => cases hagree.below.length_eq
    | assign | whileDo | read | write | returns | exit | compound => simp [label] at hlabel
  | whileDo condition body _, s', h, h', hagree => by
    have hlabel : "While" = s'.label := hagree.label_eq
    cases s' with
    | whileDo condition' body' line' =>
      obtain ⟨hcondition, hbelow⟩ := List.forall₂_cons.mp hagree.below
      obtain ⟨hbody, _⟩ := List.forall₂_cons.mp hbelow
      rw [bare, bare, Expression.bare_eq_of_agree h.1.writable h'.1.writable hcondition,
        bare_eq_of_agree body body' h.2 h'.2 hbody]
    | assign | ifThen | ifElse | read | write | returns | exit | compound => simp [label] at hlabel
  | read target _, s', h, h', hagree => by
    have hlabel : "Read" = s'.label := hagree.label_eq
    cases s' with
    | read target' line' =>
      obtain ⟨htarget, _⟩ := List.forall₂_cons.mp hagree.below
      rw [bare, bare, Variable.bare_eq_of_agree h h' htarget]
    | assign | ifThen | ifElse | whileDo | write | returns | exit | compound =>
      simp [label] at hlabel
  | write value _, s', h, h', hagree => by
    have hlabel : "Write" = s'.label := hagree.label_eq
    cases s' with
    | write value' line' =>
      obtain ⟨hvalue, _⟩ := List.forall₂_cons.mp hagree.below
      rw [bare, bare, Expression.bare_eq_of_agree h h' hvalue]
    | assign | ifThen | ifElse | whileDo | read | returns | exit | compound =>
      simp [label] at hlabel
  | returns value _, s', h, h', hagree => by
    have hlabel : "Return" = s'.label := hagree.label_eq
    cases s' with
    | returns value' line' =>
      have hwell : value.WellFormed := h
      have hwell' : value'.WellFormed := h'
      obtain ⟨hvalue, _⟩ := List.forall₂_cons.mp hagree.below
      rw [bare, bare, Expression.bare_eq_of_agree hwell.writable hwell'.writable hvalue]
    | assign | ifThen | ifElse | whileDo | read | write | exit | compound => simp [label] at hlabel
  | exit _, s', h, h', hagree => by
    have hlabel : "Exit" = s'.label := hagree.label_eq
    cases s' with
    | exit line' => rfl
    | assign | ifThen | ifElse | whileDo | read | write | returns | compound =>
      simp [label] at hlabel
  | compound ⟨items, _⟩, s', h, h', hagree => by
    have hlabel : "Compound" = s'.label := hagree.label_eq
    cases s' with
    | compound body' =>
      obtain ⟨items', line'⟩ := body'
      rw [bare, bare, bareBlock, bareBlock,
        bareList_eq_of_agree items items' h.2 h'.2 hagree.below]
    | assign | ifThen | ifElse | whileDo | read | write | returns | exit => simp [label] at hlabel

theorem bareBlock_eq_of_agree : (b b' : Block Statement) → WellFormedBlock b →
    WellFormedBlock b' → Entry.Agree (.node (.block b)) (.node (.block b')) →
    bareBlock b = bareBlock b'
  | ⟨items, _⟩, ⟨items', _⟩, h, h', hagree => by
    rw [bareBlock, bareBlock, bareList_eq_of_agree items items' h.2 h'.2 hagree.below]

theorem bareList_eq_of_agree : (ss ss' : List Statement) → WellFormedList ss →
    WellFormedList ss' →
    List.Forall₂ Entry.Agree ((ss.map .statement).map .node) ((ss'.map .statement).map .node) →
    bareList ss = bareList ss'
  | [], [], _, _, _ => rfl
  | [], _ :: _, _, _, hagree => by cases hagree
  | _ :: _, [], _, _, hagree => by cases hagree
  | s :: rest, s' :: rest', h, h', hagree => by
    obtain ⟨hfirst, hbelow⟩ := List.forall₂_cons.mp hagree
    rw [bareList, bareList, bare_eq_of_agree s s' h.1 h'.1 hfirst,
      bareList_eq_of_agree rest rest' h.2 h'.2 hbelow]

end

end Statement

/-- Items that agree one by one are the same one by one. -/
theorem map_eq_of_agree {β γ : Type} {node : β → Node} {bare : β → γ} {P : β → Prop}
    (hone : ∀ {b b'}, P b → P b' → Entry.Agree (.node (node b)) (.node (node b')) →
      bare b = bare b')
    {bs bs' : List β} (h : ∀ b ∈ bs, P b) (h' : ∀ b ∈ bs', P b)
    (hagree : List.Forall₂ Entry.Agree ((bs.map node).map .node) ((bs'.map node).map .node)) :
    bs.map bare = bs'.map bare := by
  induction bs generalizing bs' with
  | nil =>
    cases bs' with
    | nil => rfl
    | cons b' rest' => cases hagree
  | cons b rest ih =>
    cases bs' with
    | nil => cases hagree
    | cons b' rest' =>
      obtain ⟨hb, hrest⟩ := List.forall_mem_cons.mp h
      obtain ⟨hb', hrest'⟩ := List.forall_mem_cons.mp h'
      obtain ⟨hfirst, hbelow⟩ := List.forall₂_cons.mp hagree
      rw [List.map_cons, List.map_cons, hone hb hb' hfirst, ih hrest hrest' hbelow]

theorem Declaration.bare_eq_of_agree {d d' : Declaration} (h : d.WellFormed) (h' : d'.WellFormed)
    (hagree : Entry.Agree (.node (.declaration d)) (.node (.declaration d'))) : d.bare = d'.bare :=
  bare_eq_of_label h h' hagree.label_eq

theorem bareDeclarations_eq_of_agree {ds ds' : Block Declaration}
    (h : ∀ d ∈ ds.items, d.WellFormed) (h' : ∀ d ∈ ds'.items, d.WellFormed)
    (hagree : Entry.Agree (.node (.declarations ds)) (.node (.declarations ds'))) :
    ds.bareDeclarations = ds'.bareDeclarations := by
  have hitems := map_eq_of_agree Declaration.bare_eq_of_agree h h' hagree.below
  rw [Block.bareDeclarations, Block.bareDeclarations, hitems]

theorem Procedure.bare_eq_of_agree {p q : Procedure} (h : p.WellFormed) (h' : q.WellFormed)
    (hagree : Entry.Agree (.node (.procedure p)) (.node (.procedure q))) : p.bare = q.bare := by
  obtain ⟨htype, hname⟩ := eq_of_label hagree.label_eq
  obtain ⟨hlocals, hbelow⟩ := List.forall₂_cons.mp hagree.below
  obtain ⟨hbody, _⟩ := List.forall₂_cons.mp hbelow
  rw [bare, bare, htype, hname, bareDeclarations_eq_of_agree h.2.1 h'.2.1 hlocals,
    Statement.bareBlock_eq_of_agree p.body q.body h.2.2 h'.2.2 hbody]

theorem Procedure.label_ne_declarations (p : Procedure) : p.label ≠ "DeclList" := by
  intro heq
  have hchars := congrArg String.toList heq
  rw [toList_label] at hchars
  simp at hchars

theorem Program.bare_eq_of_agree {p q : Program} (h : p.WellFormed) (h' : q.WellFormed)
    (hagree : Entry.Agree (.node (.program p)) (.node (.program q))) : p.bare = q.bare := by
  obtain ⟨globals, procedures, line⟩ := p
  obtain ⟨globals', procedures', line'⟩ := q
  obtain ⟨hglobals, hsome, hprocedures⟩ := h
  obtain ⟨hglobals', hsome', hprocedures'⟩ := h'
  cases globals with
  | none =>
    cases globals' with
    | none =>
      rw [bare, bare, map_eq_of_agree Procedure.bare_eq_of_agree hprocedures hprocedures'
        hagree.below]
    | some globals' =>
      -- a procedure is not called like the declarations
      obtain ⟨p, rest, rfl⟩ := List.exists_cons_of_ne_nil hsome
      obtain ⟨hfirst, _⟩ := List.forall₂_cons.mp hagree.below
      exact absurd hfirst.label_eq p.label_ne_declarations
  | some globals =>
    cases globals' with
    | none =>
      obtain ⟨p, rest, rfl⟩ := List.exists_cons_of_ne_nil hsome'
      obtain ⟨hfirst, _⟩ := List.forall₂_cons.mp hagree.below
      exact absurd hfirst.label_eq.symm p.label_ne_declarations
    | some globals' =>
      obtain ⟨hfirst, hbelow⟩ := List.forall₂_cons.mp hagree.below
      have hdeclarations := bareDeclarations_eq_of_agree (hglobals globals rfl).2
        (hglobals' globals' rfl).2 hfirst
      rw [bare, bare, map_eq_of_agree Procedure.bare_eq_of_agree hprocedures hprocedures' hbelow,
        Option.map_some, Option.map_some, hdeclarations]

/-- Programs with the same lines in their outlines are the same up to their lines in the source. -/
theorem Program.bare_eq_of_outlineLines {p q : Program} (h : p.WellFormed) (h' : q.WellFormed)
    (hlines : p.outlineLines = q.outlineLines) : p.bare = q.bare := by
  obtain ⟨row, hrow, hrows⟩ := p.exists_row
  obtain ⟨row', hrow', hrows'⟩ := q.exists_row
  rw [hrows, hrows'] at hlines
  have hdepths := congrArg (List.map OutlineLine.depth) hlines
  have hlabels := congrArg (List.map OutlineLine.label) hlines
  rw [List.map_map, List.map_map] at hdepths hlabels
  exact bare_eq_of_agree h h' (agree_of_rows hrow hrow' hdepths hlabels)

/-! ## 3. An outline does not depend on lines of the source -/

theorem Expression.outline_bare (e : Expression) (depth : Nat) :
    e.bare.outline depth = e.outline depth := by
  induction e generalizing depth with
  | binary op left right line ihl ihr => simp only [bare, outline, ihl, ihr]
  | not operand line ih => simp only [bare, outline, ih]
  | element name index line ih => simp only [bare, outline, ih]
  | scalar | call | int | float | string => rfl

theorem Variable.outline_bare (v : Variable) (depth : Nat) :
    v.bare.outline depth = v.outline depth := by
  rw [outline, toExpression_bare, Expression.outline_bare, outline]

namespace Statement

mutual

theorem outline_bare (depth : Nat) : (s : Statement) → s.bare.outline depth = s.outline depth
  | assign target value _ => by
    simp only [bare, outline, Variable.outline_bare, Expression.outline_bare]
  | ifThen condition body _ => by
    simp only [bare, outline, Expression.outline_bare, outlineBlock_bare _ body]
  | ifElse condition body other _ => by
    simp only [bare, outline, Expression.outline_bare, outlineBlock_bare _ body,
      outlineBlock_bare _ other]
  | whileDo condition body _ => by
    simp only [bare, outline, Expression.outline_bare, outline_bare _ body]
  | read target _ => by simp only [bare, outline, Variable.outline_bare]
  | write value _ | returns value _ => by simp only [bare, outline, Expression.outline_bare]
  | exit _ => rfl
  | compound ⟨items, _⟩ => by simp only [bare, bareBlock, outline, outlineList_bare _ items]

theorem outlineBlock_bare (depth : Nat) : (b : Block Statement) →
    outlineBlock depth (bareBlock b) = outlineBlock depth b
  | ⟨items, _⟩ => by simp only [bareBlock, outlineBlock, outlineList_bare _ items]

theorem outlineList_bare (depth : Nat) : (ss : List Statement) →
    outlineList depth (bareList ss) = outlineList depth ss
  | [] => rfl
  | s :: rest => by
    simp only [bareList, outlineList, outline_bare _ s, outlineList_bare _ rest]

end

end Statement

theorem outlineDeclarations_bare (depth : Nat) (ds : Block Declaration) :
    outlineDeclarations depth ds.bareDeclarations = outlineDeclarations depth ds := by
  rw [outlineDeclarations, Block.bareDeclarations, List.map_map]
  rfl

theorem Procedure.outline_bare (depth : Nat) (p : Procedure) :
    p.bare.outline depth = p.outline depth := by
  simp only [bare, outline, outlineDeclarations_bare, Statement.outlineBlock_bare]

theorem Program.outline_bare (p : Program) : p.bare.outline = p.outline := by
  have hlines : p.bare.outlineLines = p.outlineLines := by
    obtain ⟨globals, procedures, line⟩ := p
    cases globals <;>
      simp only [bare, outlineLines, Option.map_none, Option.map_some, outlineDeclarations_bare,
        List.flatMap_map, Procedure.outline_bare]
  rw [outline, outline, hlines]

/-- **An outline says its program.** Two accepted programs have one outline if and only if they are
    the same program up to lines of the source, whatever their string literals hold. -/
theorem outline_eq_iff (source source' : String) (o o' : Options) (p q : Program)
    (hp : parse source o = .ok p) (hq : parse source' o' = .ok q) :
    p.outline = q.outline ↔ p.bare = q.bare := by
  constructor
  · intro h
    have hwell := wellFormed_of_parse hp
    have hwell' := wellFormed_of_parse hq
    exact Program.bare_eq_of_outlineLines hwell hwell' (outlineLines_eq hwell hwell' h)
  · intro h
    rw [← p.outline_bare, h, q.outline_bare]

/-- A procedure that writes a text with a line that looks like a statement, with its brace and what
    it writes on the given lines. -/
def lookalike (brace body : Nat) : Program :=
  ⟨none, [⟨.int, "f", ⟨[], brace⟩, ⟨[.write (.string "a\n| | | Exit" body) body], body⟩, 1⟩], 1⟩

theorem outline_eq_iff_lookalike :
    parse "int f() \x7b write('a\n| | | Exit'); \x7d" {} = .ok (lookalike 1 1) ∧
      parse "int f()\n\x7b\n  write('a\n| | | Exit');\n\x7d" {} = .ok (lookalike 2 3) ∧
      (lookalike 1 1).outline = (lookalike 2 3).outline ∧
      (lookalike 1 1).bare = (lookalike 2 3).bare := by
  have hp : parse "int f() \x7b write('a\n| | | Exit'); \x7d" {} = .ok (lookalike 1 1) := by
    with_unfolding_all rfl
  have hq : parse "int f()\n\x7b\n  write('a\n| | | Exit');\n\x7d" {} =
      .ok (lookalike 2 3) := by
    with_unfolding_all rfl
  have houtline : (lookalike 1 1).outline = (lookalike 2 3).outline := by decide +kernel
  exact ⟨hp, hq, houtline, (outline_eq_iff _ _ _ _ _ _ hp hq).mp houtline⟩

end CMinus
