import CMinus.Proofs.Complete.Statement

/-!
# Complete.Program: a derived program is read

Declarations need no levels. A program needs those of the procedure that needs most.
-/

namespace CMinus.Parse

open Grammar

variable {α : Type}

/-! ## 1. Declarations -/

section Rows

variable {δ : Type} {more : List Lexeme → Bool} {item : Production α} {tokens : δ → List Token}
  {value : δ → α} {budget : Nat} (levels : δ → Nat) (follow : List Lexeme → Prop)

/-- Items in a row, each of them read when what may follow it follows, and one more as long as one
    starts. -/
theorem repeatWhile_within
    (hi : ∀ d rest, follow rest →
      Within (levels d) budget (item (row (tokens d) ++ rest)) (.ok (value d, rest)))
    (hm : ∀ d rest, more (row (tokens d) ++ rest) = true)
    (hf : ∀ d rest, follow (row (tokens d) ++ rest)) (hne : ∀ d, tokens d ≠ [])
    {rest : List Lexeme} (hend : more rest = false) (hrest : follow rest) (ds : List δ) :
    Within ((ds.map levels).foldr max 0) budget
      (repeatWhile more item (row (ds.flatMap tokens) ++ rest)) (.ok (ds.map value, rest)) := by
  induction ds with
  | nil =>
    show Within 0 budget (repeatWhile more item rest) (.ok ([], rest))
    rw [repeatWhile_nil hend]
    exact .refl _
  | cons d ds ih =>
    rw [List.flatMap_cons, row_append, List.append_assoc]
    have hnext : follow (row (ds.flatMap tokens) ++ rest) := by
      cases ds with
      | nil => exact hrest
      | cons e es =>
        rw [List.flatMap_cons, row_append, List.append_assoc]
        exact hf e _
    exact repeatWhile_cons (hm d _) (hi d _ hnext) (length_lt_row_append (hne d) _) ih

end Rows

theorem foldr_max_zero {δ : Type} (ds : List δ) : (ds.map fun _ => 0).foldr max 0 = 0 := by
  induction ds with
  | nil => rfl
  | cons d ds ih => rw [List.map_cons, List.foldr_cons, ih, Nat.max_self]

/-- Items that need no levels. -/
theorem repeatWhile_eq {δ : Type} {more : List Lexeme → Bool} {item : Production α}
    {tokens : δ → List Token} {value : δ → α} (follow : List Lexeme → Prop)
    (hi : ∀ d rest, follow rest → item (row (tokens d) ++ rest) = .ok (value d, rest))
    (hm : ∀ d rest, more (row (tokens d) ++ rest) = true)
    (hf : ∀ d rest, follow (row (tokens d) ++ rest)) (hne : ∀ d, tokens d ≠ [])
    {rest : List Lexeme} (hend : more rest = false) (hrest : follow rest) (ds : List δ) :
    repeatWhile more item (row (ds.flatMap tokens) ++ rest) = .ok (ds.map value, rest) := by
  have hi' : ∀ d rest, follow rest →
      Within 0 0 (item (row (tokens d) ++ rest)) (.ok (value d, rest)) := by
    intro d rest h
    rw [hi d rest h]
    exact .refl _
  have h := repeatWhile_within (fun _ => 0) follow hi' hm hf hne hend hrest ds
  rw [foldr_max_zero] at h
  exact h.1 (Nat.le_refl 0)

theorem dimension_declarator (d : Declarator) {rest : List Lexeme}
    (h : startsWith (· = .symbol .lbracket) rest = false) :
    ∃ more, row d.tokens ++ rest = ⟨.ident d.name, 0⟩ :: more ∧
      dimension more = .ok (d.size, rest) := by
  rcases d with ⟨name, _ | size⟩
  · exact ⟨rest, rfl, dimension_none h⟩
  · exact ⟨_, rfl, rfl⟩

theorem nextDeclaration_row (type : ValueType) (d : Declarator) {rest : List Lexeme}
    (h : startsWith (· = .symbol .lbracket) rest = false) :
    nextDeclaration type (row (.symbol .comma :: d.tokens) ++ rest) = .ok (d.tree type, rest) := by
  obtain ⟨more, e, hd⟩ := dimension_declarator d h
  simp only [row_cons, List.cons_append, e, nextDeclaration, sign_cons, ok_bind, identifier_cons,
    hd]
  rfl

theorem valueType_keyword (type : ValueType) (rest : List Lexeme) :
    valueType (⟨.keyword type.keyword, 0⟩ :: rest) = .ok ((type, 0), rest) := by
  cases type <;> rfl

theorem group_row (g : Group) (rest : List Lexeme) :
    group (row g.tokens ++ rest) = .ok (g.trees, rest) := by
  rcases g with ⟨type, first, others⟩
  have hb : startsWith (· = .symbol .lbracket)
      (row (others.flatMap fun d => .symbol .comma :: d.tokens) ++ ⟨.symbol .semicolon, 0⟩ :: rest)
      = false := by
    cases others <;> rfl
  have hothers : repeatWhile (startsWith (· = .symbol .comma)) (nextDeclaration type)
      (row (others.flatMap fun d => .symbol .comma :: d.tokens) ++ ⟨.symbol .semicolon, 0⟩ :: rest)
      = .ok (others.map (·.tree type), ⟨.symbol .semicolon, 0⟩ :: rest) :=
    repeatWhile_eq (startsWith (· = .symbol .lbracket) · = false)
      (fun d rest hb => nextDeclaration_row type d hb) (fun d rest => rfl)
      (fun d rest => rfl) (fun d => List.cons_ne_nil _ _) rfl rfl others
  obtain ⟨more, e, hfirst⟩ := dimension_declarator first hb
  simp only [Group.tokens, row_cons, row_append, row_nil, List.cons_append, List.append_assoc,
    List.nil_append, e, group, valueType_keyword, ok_bind, identifier_cons, hfirst, hothers,
    sign_cons]
  rfl

theorem isType_keyword (type : ValueType) : Token.isType (.keyword type.keyword) = true := by
  cases type <;> rfl

theorem declarations_row (gs : List Group) {rest : List Lexeme}
    (h : startsWith Token.isType rest = false) :
    declarations (row (gs.flatMap Group.tokens) ++ rest) = .ok (gs.flatMap Group.trees, rest) := by
  have hgs : repeatWhile (startsWith Token.isType) group (row (gs.flatMap Group.tokens) ++ rest)
      = .ok (gs.map Group.trees, rest) :=
    repeatWhile_eq (fun _ => True) (fun g rest _ => group_row g rest)
      (fun g rest => isType_keyword g.type) (fun g rest => trivial)
      (fun g => List.cons_ne_nil _ _) h trivial gs
  rw [declarations, hgs, ok_bind]
  rfl

/-! ## 2. Procedures and programs -/

theorem line_first (cs : Clauses) : cs.first.line = 0 := by
  have h : ∀ c : Clause, c.tree.line = 0 := by
    intro c
    cases c <;> simp only [Clause.tree, Statement.line]
  cases cs with
  | one c => exact h c
  | more c cs => exact h c

theorem line_of_mem_trees {gs : List Group} {d : Declaration}
    (h : d ∈ gs.flatMap Group.trees) : d.line = 0 := by
  obtain ⟨g, _, hd⟩ := List.mem_flatMap.mp h
  obtain ⟨x, _, rfl⟩ := List.mem_map.mp hd
  rfl

theorem blockOf_zero {ds : List Declaration} (h : ∀ d ∈ ds, d.line = 0) :
    blockOf 0 ds = ⟨ds, 0⟩ := by
  cases ds with
  | nil => rfl
  | cons d ds => rw [blockOf, h d List.mem_cons_self]

theorem isType_of_startsStatement {ts : List Lexeme}
    (h : startsWith Token.startsStatement ts = true) : startsWith Token.isType ts = false := by
  rcases ts with _ | ⟨⟨t, line⟩, rest⟩
  · rfl
  · cases t with
    | keyword word =>
      cases word with
      | intKw | floatKw => cases h
      | _ => rfl
    | _ => rfl

theorem procedure_within (d : Definition) (budget : Nat) (rest : List Lexeme) :
    Within d.body.levels budget (procedure budget (row d.tokens ++ rest)) (.ok (d.tree, rest)) := by
  rcases d with ⟨type, name, before, behind, body⟩
  have hlocals : blockOf 0 (before.flatMap Group.trees ++ behind.flatMap Group.trees)
      = ⟨(before ++ behind).flatMap Group.trees, 0⟩ := by
    rw [← List.flatMap_append]
    exact blockOf_zero fun d hd => line_of_mem_trees hd
  have hbehind := declarations_row behind
    (isType_of_startsStatement (startsStatement_clauses body (⟨.symbol .rbrace, 0⟩ :: rest)))
  have hbefore : ∀ ts,
      declarations (row (before.flatMap Group.tokens) ++ ⟨.symbol .lbrace, 0⟩ :: ts)
      = .ok (before.flatMap Group.trees, ⟨.symbol .lbrace, 0⟩ :: ts) :=
    fun ts => declarations_row before rfl
  simp only [Definition.tokens, inBraces, row_cons, row_append, row_nil, List.cons_append,
    List.append_assoc, List.nil_append, procedure, valueType_keyword, ok_bind, identifier_cons,
    sign_cons, hbefore, hbehind]
  refine (list_within body budget rest).bind_eq ?_
  simp only [sign_cons, ok_bind, hlocals, line_first, Clauses.first_cons_others, Definition.tree]

theorem startsProcedure_group (g : Group) (rest : List Lexeme) :
    startsProcedure (row g.tokens ++ rest) = false := by
  rcases g with ⟨type, ⟨name, _ | size⟩, others⟩
  · cases others <;> rfl
  · rfl

theorem startsProcedure_definition (d : Definition) (rest : List Lexeme) :
    startsProcedure (row d.tokens ++ rest) = true :=
  isType_keyword d.returnType

theorem globalsOf_flatten (gs : List Group) :
    globalsOf (gs.map Group.trees).flatten
      = if gs = [] then none else some ⟨gs.flatMap Group.trees, 0⟩ := by
  cases gs with
  | nil => rfl
  | cons g gs => rfl

/-- **Every derivation of a program is read**, when the budget covers its levels, and is too deep
    otherwise. -/
theorem program_within (d : Document) (budget : Nat) :
    Within d.levels budget (program budget (row d.tokens)) (.ok (d.tree, [])) := by
  rcases d with ⟨globals, first, others⟩
  have hglobals : repeatWhile (!startsProcedure ·) group
      (row (globals.flatMap Group.tokens)
        ++ (row first.tokens ++ row (others.flatMap Definition.tokens)))
      = .ok (globals.map Group.trees,
          row first.tokens ++ row (others.flatMap Definition.tokens)) :=
    repeatWhile_eq (fun _ => True) (fun g rest _ => group_row g rest)
      (fun g rest => by rw [startsProcedure_group, Bool.not_false]) (fun g rest => trivial)
      (fun g => List.cons_ne_nil _ _) (by rw [startsProcedure_definition, Bool.not_true])
      trivial globals
  have hothers : Within ((others.map (·.body.levels)).foldr max 0) budget
      (repeatWhile (!·.isEmpty) (procedure budget)
        (row (others.flatMap Definition.tokens) ++ []))
      (.ok (others.map Definition.tree, [])) :=
    repeatWhile_within (fun d : Definition => d.body.levels) (fun _ => True)
      (fun d rest _ => procedure_within d budget rest) (fun d rest => rfl)
      (fun d rest => trivial) (fun d => List.cons_ne_nil _ _) rfl trivial others
  rw [List.append_nil] at hothers
  have hline : (globalsOf (globals.map Group.trees).flatten).elim 0 (·.line) = 0 := by
    rw [globalsOf_flatten]
    split <;> rfl
  have hfirst : first.tree.line = 0 := rfl
  simp only [Document.tokens, row_append, List.flatMap_cons, program, hglobals, ok_bind]
  refine (procedure_within first budget _).bind (hothers.bind_eq ?_)
  simp only [hfirst, hline]
  rw [globalsOf_flatten]
  rfl

end CMinus.Parse
