import CMinus.Proofs.Bare
import CMinus.Proofs.Reading

/-!
# Layout: reading does not look at lines

The lines of a source reach the tree it says and nothing else. With every line of the tokens at
zero, each production stops at the same place for the same cause, or builds the same tree with
every line at zero (`Blind`). So what a source says depends on the tokens in it, not on how they
are laid out.
-/

namespace CMinus

/-- The lexeme with its line at zero. -/
def Lexeme.bare (l : Lexeme) : Lexeme :=
  ⟨l.token, 0⟩

namespace Parse

variable {α β γ δ : Type}

/-! ## 1. Results without lines -/

/-- The tokens with every line at zero. -/
def bareRow (ts : List Lexeme) : List Lexeme :=
  ts.map Lexeme.bare

@[simp] theorem bareRow_nil : bareRow [] = [] := rfl

@[simp] theorem bareRow_cons (t : Token) (line : Nat) (ts : List Lexeme) :
    bareRow (⟨t, line⟩ :: ts) = ⟨t, 0⟩ :: bareRow ts := rfl

@[simp] theorem length_bareRow (ts : List Lexeme) : (bareRow ts).length = ts.length :=
  List.length_map _

@[simp] theorem isEmpty_bareRow (ts : List Lexeme) : (bareRow ts).isEmpty = ts.isEmpty := by
  cases ts <;> rfl

@[simp] theorem startsWith_bareRow (p : Token → Bool) (ts : List Lexeme) :
    startsWith p (bareRow ts) = startsWith p ts := by
  cases ts <;> rfl

/-- What was read, with `f` applied to it, or the failure; every line left is at zero. -/
def bareRead (f : α → β) : Except Failure (Read α) → Except Failure (Read β)
  | .ok (a, rest) => .ok (f a, bareRow rest)
  | .error ⟨cause, rest⟩ => .error ⟨cause, bareRow rest⟩

/-- A production reads the same with and without lines. -/
def Blind (f : α → α) (p : Production α) : Prop :=
  ∀ ts, p (bareRow ts) = bareRead f (p ts)

/-- One production after the other. -/
theorem bareRead_bind {f : α → γ} {g : β → δ} {x : Except Failure (Read α)}
    {k : Read α → Except Failure (Read β)} {k' : Read γ → Except Failure (Read δ)}
    (h : ∀ a rest, k' (f a, bareRow rest) = bareRead g (k (a, rest))) :
    bareRead f x >>= k' = bareRead g (x >>= k) := by
  cases x with
  | error failure => rfl
  | ok read => exact h read.1 read.2

/-- A blind production and what follows it. -/
theorem Blind.bind {f : α → α} {p : Production α} (hp : Blind f p) {g : β → δ}
    {k : Read α → Except Failure (Read β)} {k' : Read α → Except Failure (Read δ)}
    {ts : List Lexeme} (h : ∀ a rest, k' (f a, bareRow rest) = bareRead g (k (a, rest))) :
    p (bareRow ts) >>= k' = bareRead g (p ts >>= k) := by
  rw [hp]
  exact bareRead_bind h

/-! ## 2. Single tokens and repetition -/

theorem sign_blind (s : Symbol) : Blind (fun _ => 0) (sign s) := by
  intro ts
  cases ts with
  | nil => rfl
  | cons l rest =>
    rcases l with ⟨t, line⟩
    cases t with
    | symbol u =>
      simp only [bareRow_cons, sign]
      split <;> rfl
    | ident | int | float | string | keyword | eof => rfl

theorem identifier_blind : Blind (fun (name, _) => (name, 0)) identifier := by
  intro ts
  cases ts with
  | nil => rfl
  | cons l rest =>
    rcases l with ⟨t, line⟩
    cases t <;> rfl

theorem valueType_blind : Blind (fun (type, _) => (type, 0)) valueType := by
  intro ts
  cases ts with
  | nil => rfl
  | cons l rest =>
    rcases l with ⟨t, line⟩
    cases t with
    | keyword word => cases word <;> rfl
    | ident | int | float | string | symbol | eof => rfl

theorem arraySize_blind : Blind id arraySize := by
  intro ts
  cases ts with
  | nil => rfl
  | cons l rest =>
    rcases l with ⟨t, line⟩
    cases t with
    | int value =>
      simp only [bareRow_cons, arraySize]
      split <;> rfl
    | ident | float | string | keyword | symbol | eof => rfl

theorem repeatWhile_blind {f : α → α} {more : List Lexeme → Bool} {item : Production α}
    (hm : ∀ ts, more (bareRow ts) = more ts) (hi : Blind f item) :
    Blind (List.map f) (repeatWhile more item) := by
  intro ts
  induction ts using repeatWhile.induct more with
  | case1 ts h ih =>
    rw [repeatWhile, repeatWhile, if_pos h, if_pos (by rw [hm, h]), hi]
    refine bareRead_bind fun first rest => ?_
    simp only [length_bareRow]
    split
    · rename_i hlt
      rw [ih rest hlt]
      exact bareRead_bind fun others rest => rfl
    · rfl
  | case2 ts h =>
    rw [repeatWhile, repeatWhile, if_neg h, if_neg (by rw [hm]; exact h)]
    rfl

/-! ## 3. Expressions -/

/-- All six productions at once, along the calls they make. -/
theorem expression_family_blind :
    (∀ budget, Blind Expression.bare (expression budget)) ∧
    (∀ tier budget left ts, chainRest tier budget left.bare (bareRow ts)
      = bareRead Expression.bare (chainRest tier budget left ts)) ∧
    (∀ tier budget, Blind Expression.bare (operand tier budget)) ∧
    (∀ budget, Blind Expression.bare (factor budget)) ∧
    (∀ budget name line ts, subscript budget name 0 (bareRow ts)
      = bareRead Variable.bare (subscript budget name line ts)) ∧
    (∀ tier budget, Blind Expression.bare (chain tier budget)) := by
  apply expression.mutual_induct
    (fun budget ts =>
      expression budget (bareRow ts) = bareRead Expression.bare (expression budget ts))
    (fun tier budget left ts => chainRest tier budget left.bare (bareRow ts)
      = bareRead Expression.bare (chainRest tier budget left ts))
    (fun tier budget ts =>
      operand tier budget (bareRow ts) = bareRead Expression.bare (operand tier budget ts))
    (fun budget ts =>
      factor budget (bareRow ts) = bareRead Expression.bare (factor budget ts))
    (fun budget name line ts => subscript budget name 0 (bareRow ts)
      = bareRead Variable.bare (subscript budget name line ts))
    (fun tier budget ts =>
      chain tier budget (bareRow ts) = bareRead Expression.bare (chain tier budget ts))
  case case1 => -- a negation without a level for it
    intro line rest
    simp only [bareRow_cons, expression]
    rfl
  case case2 => -- a negation
    intro line rest less ihOperand ihRest
    simp only [bareRow_cons, expression]
    rw [ihOperand]
    exact bareRead_bind ihRest
  case case3 => -- no negation
    intro budget ts hts ih
    have h := startsWith_eq_false hts
    rw [expression_eq_chain h, expression_eq_chain (by rw [startsWith_bareRow, h]), ih]
  case case4 => -- the end of the tokens behind a chain
    intro tier budget left
    simp only [bareRow_nil, chainRest]
    rfl
  case case5 => -- no operator of the tier behind a chain
    intro tier budget left l rest h
    have hs : startsWith (fun t => (tier.operator? t).isSome) (l :: rest) = false :=
      Option.isSome_eq_false_iff.mpr (Option.isNone_iff_eq_none.mpr h)
    rw [chainRest_stop hs, chainRest_stop (by rw [startsWith_bareRow, hs])]
    rfl
  case case6 => -- an operator without a level for it
    intro tier left l rest op h
    rcases l with ⟨t, line⟩
    simp only [bareRow_cons, chainRest, h]
    rfl
  case case7 => -- an operator
    intro tier left l rest op h less ihOperand ihRest
    rcases l with ⟨t, line⟩
    simp only [bareRow_cons, chainRest, h]
    rw [ihOperand]
    refine bareRead_bind fun right rest => ?_
    rw [← Expression.bare_combine]
    exact ihRest right rest
  case case8 => -- an operand of a tier above the tightest one
    intro tier budget ts tighter h ih
    rw [operand_tighter h, operand_tighter h, ih]
  case case9 => -- an operand of the tightest tier
    intro tier budget ts h ih
    rw [operand_factor h, operand_factor h, ih]
  case case10 => -- a call
    intro budget name line line' rest
    simp only [bareRow_cons, factor]
    rw [sign_blind]
    exact bareRead_bind fun _ _ => rfl
  case case11 => -- a variable
    intro budget name line rest hrest ih
    have h := startsWith_eq_false hrest
    rw [bareRow_cons, factor_ident h, factor_ident (by rw [startsWith_bareRow, h]), ih]
    exact bareRead_bind fun place rest => by simp only [Variable.toExpression_bare, bareRead]
  case case12 => -- a whole number
    intro budget value line rest
    simp only [bareRow_cons, factor]
    rfl
  case case13 => -- a fraction
    intro budget value line rest
    simp only [bareRow_cons, factor]
    rfl
  case case14 => -- a parenthesis without a level for it
    intro line rest
    simp only [bareRow_cons, factor]
    rfl
  case case15 => -- an expression in parentheses
    intro line rest less ih
    simp only [bareRow_cons, factor]
    rw [ih]
    refine bareRead_bind fun inner rest => ?_
    simp only []
    rw [sign_blind]
    exact bareRead_bind fun _ _ => rfl
  case case16 => -- no factor
    intro budget ts _ hIdent hInt hFloat hParen
    have h := startsFactor_eq_false hIdent hInt hFloat hParen
    rw [factor_fail h, factor_fail (by rw [startsWith_bareRow, h])]
    rfl
  case case17 => -- a bracket without a level for it
    intro name line line' rest
    simp only [bareRow_cons, subscript]
    rfl
  case case18 => -- an index
    intro name line line' rest less ih
    simp only [bareRow_cons, subscript]
    rw [ih]
    refine bareRead_bind fun index rest => ?_
    simp only []
    rw [sign_blind]
    exact bareRead_bind fun _ _ => rfl
  case case19 => -- no index
    intro budget name line ts hts
    have h := startsWith_eq_false hts
    rw [subscript_scalar h, subscript_scalar (by rw [startsWith_bareRow, h])]
    rfl
  case case20 => -- a chain
    intro tier budget ts ihOperand ihRest
    rw [chain, chain, ihOperand]
    exact bareRead_bind ihRest

theorem expression_blind (budget : Nat) : Blind Expression.bare (expression budget) :=
  expression_family_blind.1 budget

theorem subscript_blind (budget : Nat) (name : String) (line : Nat) (ts : List Lexeme) :
    subscript budget name 0 (bareRow ts) = bareRead Variable.bare (subscript budget name line ts) :=
  expression_family_blind.2.2.2.2.1 budget name line ts

theorem place_blind (budget : Nat) : Blind Variable.bare (place budget) := fun _ =>
  identifier_blind.bind fun (name, line) rest => subscript_blind budget name line rest

/-! ## 4. Statements -/

theorem condition_blind (budget : Nat) : Blind Expression.bare (condition budget) := by
  intro ts
  refine (sign_blind _).bind fun _ rest => ?_
  refine (expression_blind budget).bind fun test rest => ?_
  exact (sign_blind _).bind fun _ _ => rfl

theorem written_blind (budget : Nat) : Blind Expression.bare (written budget) := by
  intro ts
  by_cases h : ∃ text line rest, ts = ⟨.string text, line⟩ :: rest
  · obtain ⟨text, line, rest, rfl⟩ := h
    rfl
  · have hw : ∀ us, (∀ text line rest, us ≠ ⟨.string text, line⟩ :: rest) →
        written budget us = expression budget us := by
      intro us hus
      rw [written]
      exact hus
    rw [hw ts fun text line rest e => h ⟨text, line, rest, e⟩, hw (bareRow ts), expression_blind]
    rintro text line rest e
    rcases ts with _ | ⟨⟨t, line'⟩, rest'⟩
    · cases e
    · cases e
      exact h ⟨text, line', rest', rfl⟩

section Items

variable {item : Production Statement} (hi : Blind Statement.bare item)
include hi

theorem statements_blind :
    Blind (fun (first, others) => (first.bare, others.map Statement.bare)) (statements item) := by
  intro ts
  refine hi.bind fun first rest => ?_
  exact (repeatWhile_blind (startsWith_bareRow _) hi).bind fun others rest => rfl

theorem braces_blind : Blind Statement.bareBlock (braces item) := by
  intro ts
  refine (sign_blind _).bind fun _ rest => ?_
  refine (statements_blind hi).bind fun (first, others) rest => ?_
  refine (sign_blind _).bind fun _ rest => ?_
  simp only [bareRead, Statement.bareBlock, Statement.bareList_eq_map, List.map_cons]

end Items

theorem statement_blind (budget : Nat) : Blind Statement.bare (statement budget) := by
  induction budget with
  | zero => exact fun ts => rfl
  | succ budget ih =>
    intro ts
    rcases ts with _ | ⟨⟨t, line⟩, rest⟩
    · rfl
    · cases t with
      | ident name =>
        simp only [bareRow_cons, statement]
        rw [subscript_blind _ _ line]
        refine bareRead_bind fun target rest => ?_
        refine (sign_blind _).bind fun _ rest => ?_
        refine (expression_blind budget).bind fun value rest => ?_
        exact (sign_blind _).bind fun _ _ => rfl
      | keyword word =>
        cases word with
        | ifKw =>
          simp only [bareRow_cons, statement]
          refine (condition_blind budget).bind fun test rest => ?_
          refine (braces_blind ih).bind fun body rest => ?_
          -- whether a second block follows is seen from the token alone
          rcases rest with _ | ⟨⟨u, line'⟩, rest⟩
          · rfl
          · cases u with
            | keyword word =>
              cases word with
              | elseKw => exact (braces_blind ih).bind fun other rest => rfl
              | _ => rfl
            | _ => rfl
        | whileKw =>
          simp only [bareRow_cons, statement]
          refine (condition_blind budget).bind fun test rest => ?_
          exact ih.bind fun body rest => rfl
        | readKw =>
          simp only [bareRow_cons, statement]
          refine (sign_blind _).bind fun _ rest => ?_
          refine (place_blind budget).bind fun target rest => ?_
          refine (sign_blind _).bind fun _ rest => ?_
          exact (sign_blind _).bind fun _ _ => rfl
        | writeKw =>
          simp only [bareRow_cons, statement]
          refine (sign_blind _).bind fun _ rest => ?_
          refine (written_blind budget).bind fun value rest => ?_
          refine (sign_blind _).bind fun _ rest => ?_
          exact (sign_blind _).bind fun _ _ => rfl
        | returnKw =>
          simp only [bareRow_cons, statement]
          refine (expression_blind budget).bind fun value rest => ?_
          exact (sign_blind _).bind fun _ _ => rfl
        | exitKw =>
          simp only [bareRow_cons, statement]
          exact (sign_blind _).bind fun _ _ => rfl
        | elseKw | floatKw | intKw => rfl
      | symbol s =>
        cases s with
        | lbrace =>
          simp only [bareRow_cons, statement]
          show braces (statement budget) (bareRow (⟨.symbol .lbrace, line⟩ :: rest)) >>= _ = _
          exact (braces_blind ih).bind fun body rest => rfl
        | _ => rfl
      | int | float | string | eof => rfl

/-! ## 5. Programs -/

theorem dimension_blind : Blind id dimension := by
  intro ts
  rcases ts with _ | ⟨⟨t, line⟩, rest⟩
  · rfl
  · cases t with
    | symbol s =>
      cases s with
      | lbracket =>
        refine arraySize_blind.bind fun size rest => ?_
        exact (sign_blind _).bind fun _ _ => rfl
      | _ => rfl
    | _ => rfl

theorem nextDeclaration_blind (type : ValueType) :
    Blind Declaration.bare (nextDeclaration type) := by
  intro ts
  refine (sign_blind _).bind fun _ rest => ?_
  refine identifier_blind.bind fun (name, line) rest => ?_
  exact dimension_blind.bind fun size rest => rfl

theorem group_blind : Blind (List.map Declaration.bare) group := by
  intro ts
  refine valueType_blind.bind fun (type, line) rest => ?_
  refine identifier_blind.bind fun (name, _) rest => ?_
  refine dimension_blind.bind fun size rest => ?_
  refine (repeatWhile_blind (startsWith_bareRow _) (nextDeclaration_blind type)).bind
    fun others rest => ?_
  exact (sign_blind _).bind fun _ _ => rfl

theorem declarations_blind : Blind (List.map Declaration.bare) declarations := by
  intro ts
  refine (repeatWhile_blind (startsWith_bareRow _) group_blind).bind fun groups rest => ?_
  simp only [bareRead, List.map_flatten]

theorem bareDeclarations_blockOf (line : Nat) (ds : List Declaration) :
    (blockOf line ds).bareDeclarations = blockOf 0 (ds.map Declaration.bare) := by
  cases ds <;> rfl

theorem globalsOf_map_bare (ds : List Declaration) :
    globalsOf (ds.map Declaration.bare) = (globalsOf ds).map Block.bareDeclarations := by
  cases ds <;> rfl

theorem procedure_blind (budget : Nat) : Blind Procedure.bare (procedure budget) := by
  intro ts
  refine valueType_blind.bind fun (type, line) rest => ?_
  refine identifier_blind.bind fun (name, _) rest => ?_
  refine (sign_blind _).bind fun _ rest => ?_
  refine (sign_blind _).bind fun _ rest => ?_
  refine declarations_blind.bind fun before rest => ?_
  refine (sign_blind _).bind fun openLine rest => ?_
  refine declarations_blind.bind fun behind rest => ?_
  refine (statements_blind (statement_blind budget)).bind fun (first, others) rest => ?_
  refine (sign_blind _).bind fun _ rest => ?_
  simp only [bareRead, Procedure.bare, bareDeclarations_blockOf, List.map_append,
    Statement.bareBlock, Statement.bareList_eq_map, List.map_cons, Statement.line_bare]

theorem startsProcedure_bareRow (ts : List Lexeme) :
    startsProcedure (bareRow ts) = startsProcedure ts := by
  rcases ts with _ | ⟨⟨t, _⟩, _ | ⟨⟨u, _⟩, _ | ⟨⟨v, _⟩, rest⟩⟩⟩
  · rfl
  · rfl
  · cases u <;> rfl
  · cases u with
    | ident name =>
      cases v with
      | symbol s => cases s <;> rfl
      | _ => rfl
    | _ => rfl

/-- Reading a program does not look at lines. -/
theorem program_blind (budget : Nat) : Blind Program.bare (program budget) := by
  intro ts
  refine (repeatWhile_blind (fun ts => by rw [startsProcedure_bareRow]) group_blind).bind
    fun groups rest => ?_
  refine (procedure_blind budget).bind fun first rest => ?_
  refine (repeatWhile_blind (fun ts => by rw [isEmpty_bareRow]) (procedure_blind budget)).bind
    fun others rest => ?_
  have hline : ((globalsOf groups.flatten).map Block.bareDeclarations).elim 0 (·.line) = 0 := by
    cases globalsOf groups.flatten <;> rfl
  simp only [bareRead, Program.bare, ← List.map_flatten, globalsOf_map_bare, Procedure.bare, hline,
    List.map_cons]

end Parse

end CMinus
