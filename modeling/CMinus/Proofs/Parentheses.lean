import CMinus.Proofs.Diagnostics
import CMinus.Proofs.RoundTrip

/-!
# Parentheses: canonical text has as few as can be

Canonical text has a pair of parentheses where an operand binds looser than its place asks. At such
a place every derivation has one: what a level derives without parentheses of its own binds at least
as tightly as the level (`Phrase.openings_le`). All other opening parentheses, those of calls,
tests, `read`, `write` and procedures, are rules of the grammar. So no derivation of a tree has
fewer opening parentheses than the canonical text of the tree.
-/

namespace CMinus

open Grammar Piece

/-! ## 1. Opening parentheses -/

/-- How many of the tokens are opening parentheses. -/
def openings (ts : List Token) : Nat :=
  ts.count (.symbol .lparen)

@[simp] theorem openings_nil : openings [] = 0 := rfl

@[simp] theorem openings_append (ts us : List Token) :
    openings (ts ++ us) = openings ts + openings us :=
  List.count_append

@[simp] theorem openings_lparen (ts : List Token) :
    openings (.symbol .lparen :: ts) = openings ts + 1 :=
  List.count_cons_self

/-- Any other token does not count. -/
@[simp] theorem openings_cons {t : Token} (h : t ≠ .symbol .lparen) (ts : List Token) :
    openings (t :: ts) = openings ts :=
  List.count_cons_of_ne h

@[simp] theorem openings_inBraces (ts : List Token) : openings (inBraces ts) = openings ts := by
  simp [inBraces]

@[simp] theorem openings_inParens (ts : List Token) :
    openings (inParens ts) = openings ts + 1 := by
  simp [inParens]

@[simp] theorem BinaryOp.symbol_ne_lparen (op : BinaryOp) : op.symbol ≠ .lparen := by
  cases op <;> decide

/-- Parentheses where they are needed count once. -/
theorem openings_parenthesised (needed : Bool) (ps : List Piece) :
    openings (words (parenthesised needed ps)) = openings (words ps) + needed.toNat := by
  cases needed <;> simp [parenthesised]

/-! ## 2. Expressions -/

/-- Both operands of an operator, each as it is printed in its place. -/
theorem openings_binary (op : BinaryOp) (left right : Expression) (line : Nat) :
    openings (words (Expression.binary op left right line).pieces) =
      openings (words (parenthesised (left.rank < op.tier.rank) left.pieces)) +
        openings (words (parenthesised (right.rank < op.tier.rank + 1) right.pieces)) := by
  simp [Expression.pieces]

theorem openings_join {tier : Tier} (op : BinaryOp) (fits : op.tier = tier)
    (left : Phrase (.chain tier)) (right : Phrase (operands tier)) :
    openings (Phrase.join op fits left right).tokens =
      openings left.tokens + openings right.tokens := by
  simp [Phrase.tokens]

namespace Grammar

/-- **Parentheses that are printed are forced.** Where a place asks for no more than the rank of the
    level that derives the operand, the derivation has no fewer opening parentheses than the
    operand as it is printed there. -/
theorem Phrase.openings_le {l : Level} (p : Phrase l) : ∀ r, r ≤ l.rank → r ≤ 5 →
    openings (words (parenthesised (p.tree.rank < r) p.tree.pieces)) ≤ openings p.tokens := by
  induction p with
  | @join tier op fits left right ihl ihr =>
    intro r hr _
    have htier := Parse.rank_le tier
    have hleft := ihl tier.rank (Nat.le_refl _) (by omega)
    have hright := ihr (tier.rank + 1) (Nat.le_of_eq (rank_operands tier).symm) (by omega)
    -- a chain binds as its operators do, so it needs no parentheses where a chain may stand
    have hrank : ¬ (tree (join op fits left right)).rank < r := by
      rw [tree, Expression.rank, fits]
      exact Nat.not_lt_of_le hr
    rw [decide_eq_false hrank, openings_parenthesised, tree, openings_binary, openings_join, fits,
      Bool.toNat_false, Nat.add_zero]
    exact Nat.add_le_add hleft hright
  | @operand tier inner ih =>
    intro r hr hfive
    exact ih r (by rw [rank_operands]; exact Nat.le_succ_of_le hr) hfive
  | negation inner ih =>
    intro r hr _
    have hinner := ih 2 (Nat.le_refl _) (by omega)
    have hrank : ¬ (tree (negation inner)).rank < r := Nat.not_lt_of_le hr
    rw [decide_eq_false hrank, openings_parenthesised, tree, Expression.pieces, tokens]
    simpa using hinner
  | place inner ih =>
    intro r hr hfive
    exact ih r (Nat.le_succ_of_le hr) hfive
  | parens inner ih =>
    intro r _ _
    have hinner := ih 0 (Nat.zero_le _) (Nat.zero_le _)
    rw [openings_parenthesised] at hinner ⊢
    have hone := Bool.toNat_le (decide (inner.tree.rank < r))
    rw [tree, tokens]
    simp
    omega
  | element name index ih =>
    intro r _ hfive
    have hindex := ih 0 (Nat.zero_le _) (Nat.zero_le _)
    rw [openings_parenthesised] at hindex
    have hrank : ¬ (tree (element name index)).rank < r := Nat.not_lt_of_le hfive
    rw [decide_eq_false hrank, openings_parenthesised, tree, Expression.pieces, tokens]
    simpa using hindex
  | int | float | call | scalar =>
    intro r _ hfive
    have hrank : ¬ 5 < r := Nat.not_lt_of_le hfive
    simp [tree, tokens, Expression.rank, Expression.pieces, parenthesised, hrank]

/-- A whole expression. -/
theorem Phrase.openings_pieces_le {l : Level} (p : Phrase l) :
    openings (words p.tree.pieces) ≤ openings p.tokens := by
  have h := p.openings_le 0 (Nat.zero_le _) (Nat.zero_le _)
  rwa [openings_parenthesised] at h

/-- A place. -/
theorem Phrase.openings_target_le (p : Phrase .variable) :
    openings (words p.target.pieces) ≤ openings p.tokens := by
  rw [Variable.pieces, toExpression_target]
  exact p.openings_pieces_le

/-! ## 3. Statements -/

/-- The body of a loop is written as a statement, on whatever level. -/
theorem words_whileDo (level : Nat) (condition : Expression) (body : Statement) (line : Nat) :
    ∃ level', words ((Statement.whileDo condition body line).lines level) =
      .keyword .whileKw :: (inParens (words condition.pieces) ++ words (body.lines level')) := by
  cases body with
  | compound block => exact ⟨level, by simp [Statement.lines, inParens]⟩
  | _ => exact ⟨level + 1, by simp [Statement.lines, inParens]⟩

mutual

/-- A statement, whatever the level of its lines. -/
theorem Clause.openings_le : (c : Clause) → ∀ level,
    openings (words (c.tree.lines level)) ≤ openings c.tokens
  | .assign target value, level => by
    have htarget := target.openings_target_le
    have hvalue := value.openings_pieces_le
    simp [Clause.tree, Clause.tokens, Statement.lines]
    omega
  | .ifThen test body, level => by
    have htest := test.openings_pieces_le
    have hbody := body.openings_le (level + 1)
    simp [Clause.tree, Clause.tokens, Statement.lines, Statement.braces]
    omega
  | .ifElse test body other, level => by
    have htest := test.openings_pieces_le
    have hbody := body.openings_le (level + 1)
    have hother := other.openings_le (level + 1)
    simp [Clause.tree, Clause.tokens, Statement.lines, Statement.braces]
    omega
  | .whileDo test body, level => by
    obtain ⟨level', hwords⟩ := words_whileDo level test.tree body.tree 0
    have htest := test.openings_pieces_le
    have hbody := body.openings_le level'
    rw [Clause.tree, hwords, Clause.tokens]
    simp
    omega
  | .read target, level => by
    have htarget := target.openings_target_le
    simpa [Clause.tree, Clause.tokens, Statement.lines] using htarget
  | .write value, level => by
    have hvalue := value.openings_pieces_le
    simpa [Clause.tree, Clause.tokens, Statement.lines] using hvalue
  | .writeText text, level => by
    simp [Clause.tree, Clause.tokens, Statement.lines, Expression.pieces]
  | .returns value, level => by
    have hvalue := value.openings_pieces_le
    simpa [Clause.tree, Clause.tokens, Statement.lines] using hvalue
  | .exit, level => by
    simp [Clause.tree, Clause.tokens, Statement.lines]
  | .compound body, level => by
    have hbody := body.openings_le (level + 1)
    simpa [Clause.tree, Clause.tokens, Statement.lines, Statement.braces] using hbody

/-- Statements in a row. -/
theorem Clauses.openings_le : (cs : Clauses) → ∀ level,
    openings (words (Statement.linesOf level cs.trees)) ≤ openings cs.tokens
  | .one clause, level => by
    have hclause := clause.openings_le level
    simpa [Clauses.trees, Clauses.tokens, Statement.linesOf] using hclause
  | .more first rest, level => by
    have hfirst := first.openings_le level
    have hrest := rest.openings_le level
    simp [Clauses.trees, Clauses.tokens, Statement.linesOf]
    omega

end

/-! ## 4. Procedures and programs -/

/-- Declarations are written without parentheses. -/
theorem openings_declarationLines (level : Nat) (ds : List Declaration) :
    openings (words (declarationLines level ds)) = 0 := by
  induction ds with
  | nil => rfl
  | cons d ds ih =>
    have hlines : declarationLines level (d :: ds)
        = margin level :: d.pieces ++ [sign .semicolon, newline] ++ declarationLines level ds := rfl
    have hpieces : openings (words d.pieces) = 0 := by
      obtain ⟨name, type, size, line⟩ := d
      cases size <;> simp [Declaration.pieces]
    simp [hlines, hpieces, ih]

theorem Definition.openings_le (d : Definition) :
    openings (words d.tree.pieces) ≤ openings d.tokens := by
  have hbody := d.body.openings_le 1
  simp [tree, tokens, Procedure.pieces, openings_declarationLines]
  omega

/-- The procedures of a program, with empty lines between them. -/
theorem openings_piecesOf_le (ds : List Definition) :
    openings (words (Procedure.piecesOf (ds.map Definition.tree))) ≤
      openings (ds.flatMap Definition.tokens) := by
  induction ds with
  | nil => exact Nat.le_refl _
  | cons d ds ih =>
    have hd := d.openings_le
    cases ds with
    | nil => simpa [Procedure.piecesOf] using hd
    | cons e es =>
      simp [Procedure.piecesOf] at ih ⊢
      omega

theorem Document.openings_le (d : Document) :
    openings (words d.tree.pieces) ≤ openings d.tokens := by
  have hprocedures := openings_piecesOf_le (d.first :: d.others)
  by_cases hglobals : d.globals = []
  · simpa [tree, tokens, Program.pieces, hglobals] using hprocedures
  · simp [tree, tokens, Program.pieces, hglobals, openings_declarationLines] at hprocedures ⊢
    omega

end Grammar

/-! ## 5. Sources -/

/-- The opening parentheses among the tokens of a source. -/
def openingsOf (source : String) (o : Options) : Nat :=
  openings (Parse.tokensOf (scan source o).1)

/-- The canonical text of a program has the opening parentheses that are printed. -/
theorem openingsOf_source {p : Program} (h : p.WellFormed) (o : Options) :
    openingsOf p.source o = openings (words p.pieces) := by
  obtain ⟨htokens, _⟩ := scan_of_legible (Program.legible h) o
  exact congrArg openings htokens

/-- An accepted source has no fewer opening parentheses than are printed for its tree. -/
theorem openings_pieces_le_openingsOf {source : String} {o : Options} {p : Program}
    (h : parse source o = .ok p) : openings (words p.pieces) ≤ openingsOf source o := by
  obtain ⟨d, _, htree, htokens⟩ := exists_document_of_parse h
  have hle := d.openings_le
  rwa [htree, Program.pieces_bare, htokens] at hle

/-- **Canonical text has the fewest parentheses.** For an accepted source, the canonical text of
    what it says has at most as many opening parentheses as the source; within its own number of
    tokens it is accepted as the same program up to lines; and no source that is accepted as that
    program has fewer. -/
theorem fewest_parentheses {source : String} {o : Options} {p : Program}
    (h : parse source o = .ok p) :
    (∀ o', openingsOf p.source o' ≤ openingsOf source o) ∧
    (∀ o', (scan p.source o').1.length ≤ o'.maxNesting →
      ∃ q, parse p.source o' = .ok q ∧ q.bare = p.bare) ∧
    ∀ other o' q, parse other o' = .ok q → q.bare = p.bare →
      ∀ o'', openingsOf p.source o'' ≤ openingsOf other o' := by
  have hwell := wellFormed_of_parse h
  refine ⟨fun o' => ?_, fun o' hroom => ?_, fun other o' q hq hbare o'' => ?_⟩
  · rw [openingsOf_source hwell]
    exact openings_pieces_le_openingsOf h
  · exact parse_source_of_levels_le hwell (Nat.le_trans (levels_le_length_scan hwell o') hroom)
  · have hle := openings_pieces_le_openingsOf hq
    rwa [← q.pieces_bare, hbare, p.pieces_bare, ← openingsOf_source hwell o''] at hle

/-- `a - (b - c * 2) < 1 || (!x[0] == 1)`: both parentheses are forced, on the right of their tier
    and around a negation. -/
def forcedParentheses : Program :=
  let difference := Expression.binary .sub (.scalar "a" 1)
    (.binary .sub (.scalar "b" 1) (.binary .mul (.scalar "c" 1) (.int 2 1) 1) 1) 1
  let negation := Expression.not (.binary .eq (.element "x" (.int 0 1) 1) (.int 1 1) 1) 1
  ⟨none, [⟨.int, "f", ⟨[], 1⟩,
    ⟨[.returns (.binary .or (.binary .lt difference (.int 1 1) 1) negation 1) 1], 1⟩, 1⟩], 1⟩

/-- Those two and the one behind the name of the procedure are left of eight. -/
theorem fewest_parentheses_mixed :
    parse "int f() \x7b return (a) - (b - (c*2)) < (1) || (!(x[(0)] == 1)); \x7d" {} =
        .ok forcedParentheses ∧
      openingsOf "int f() \x7b return (a) - (b - (c*2)) < (1) || (!(x[(0)] == 1)); \x7d" {} = 8 ∧
      openingsOf forcedParentheses.source {} = 3 ∧
      (∃ q, parse forcedParentheses.source {} = .ok q ∧ q.bare = forcedParentheses.bare) ∧
      ∀ other o q, parse other o = .ok q → q.bare = forcedParentheses.bare →
        3 ≤ openingsOf other o := by
  have hp : parse "int f() \x7b return (a) - (b - (c*2)) < (1) || (!(x[(0)] == 1)); \x7d" {} =
      .ok forcedParentheses := by with_unfolding_all rfl
  have hthree : openingsOf forcedParentheses.source {} = 3 := by decide +kernel
  obtain ⟨_, haccepted, hfewest⟩ := fewest_parentheses hp
  refine ⟨hp, by decide +kernel, hthree, haccepted {} (by decide +kernel), ?_⟩
  intro other o q hq hbare
  exact hthree ▸ hfewest other o q hq hbare {}

end CMinus
