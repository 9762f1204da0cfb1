import CMinus.Proofs.Grammar
import CMinus.Proofs.Legible

/-!
# Canonical.Derivation: the derivation that canonical text has

A well-formed tree has a derivation of exactly the tokens its canonical text is made of: parentheses
are rules where the text has them, and chains go down the left operands of one tier. How many levels
this derivation needs can be told from the tree alone (`Program.levels`).
-/

namespace CMinus

open Grammar Piece

/-! ## 1. Levels of trees -/

/-- A level more for parentheses that are needed. -/
def bracketed (needed : Bool) (levels : Nat) : Nat :=
  if needed then levels + 1 else levels

namespace Expression

/-- How many operators of a tier the tree has on the way down its left operands, from the root to
    the first other node. -/
def spine (tier : Tier) : Expression → Nat
  | binary op left _ _ => if op.tier = tier then spine tier left + 1 else 0
  | _ => 0

/-- The levels that are open at once while the canonical text of the expression is read. -/
def levels : Expression → Nat
  | binary op left right _ =>
    max (bracketed (left.rank < op.tier.rank) left.levels)
      (left.spine op.tier + 1 + bracketed (right.rank < op.tier.rank + 1) right.levels)
  | not operand _ => bracketed (operand.rank < 2) operand.levels + 1
  | element _ index _ => index.levels + 1
  | _ => 0

end Expression

/-- The levels of a place. -/
def Variable.levels (v : Variable) : Nat :=
  v.toExpression.levels

namespace Statement

mutual

/-- The levels that are open at once while the canonical text of the statement is read. -/
def levels : Statement → Nat
  | assign target value _ => max target.levels value.levels + 1
  | ifThen condition body _ => max condition.levels (levelsBlock body) + 1
  | ifElse condition body other _ =>
    max condition.levels (max (levelsBlock body) (levelsBlock other)) + 1
  | whileDo condition body _ => max condition.levels (levels body) + 1
  | read target _ => target.levels + 1
  | write value _ => value.levels + 1
  | returns value _ => value.levels + 1
  | exit _ => 1
  | compound body => levelsBlock body + 1

/-- The levels of the statements in a block. -/
def levelsBlock : Block Statement → Nat
  | ⟨items, _⟩ => levelsList items

/-- The levels of the statement that needs most. -/
def levelsList : List Statement → Nat
  | [] => 0
  | s :: rest => max (levels s) (levelsList rest)

end

end Statement

/-- The levels that are open at once while the canonical text of the program is read. -/
def Program.levels (p : Program) : Nat :=
  (p.procedures.map fun q => Statement.levelsBlock q.body).foldr max 0

/-! ## 2. Expressions -/

/-- How tightly a phrase of the level binds at least. A place has no parentheses of its own. -/
def Grammar.Level.rank : Level → Nat
  | .chain tier => tier.rank
  | .factor => 5
  | .variable => 6

theorem Grammar.rank_operands (tier : Tier) : (operands tier).rank = tier.rank + 1 := by
  cases tier <;> rfl

/-- The tokens have a derivation of the level with this meaning, these levels and this spine. -/
def Says (l : Level) (ts : List Token) (e : Expression) (levels spine : Nat) : Prop :=
  ∃ p : Phrase l, p.tokens = ts ∧ p.tree = e ∧ p.levels = levels ∧ p.spine = spine

variable {ts : List Token} {e : Expression} {n k : Nat}

theorem Says.operand {tier : Tier} (h : Says (operands tier) ts e n k) :
    Says (.chain tier) ts e n 0 := by
  obtain ⟨p, htokens, htree, hlevels, _⟩ := h
  exact ⟨.operand p, htokens, htree, hlevels, rfl⟩

theorem Says.lift {l : Level} (h : Says l ts e n k) (hl : l.rank ≤ 5) :
    ∀ (d : Nat) (tier : Tier), l.rank = tier.rank + 1 + d → Says (.chain tier) ts e n 0 := by
  intro d
  induction d with
  | zero =>
    intro tier hrank
    have hlevel : l = operands tier := by
      rcases l with u | _ | _
      · cases tier <;> cases u <;> first | rfl | cases hrank
      · cases tier <;> first | rfl | cases hrank
      · exact absurd hl (by decide)
    rw [hlevel] at h
    exact h.operand
  | succ d ih =>
    intro tier hrank
    cases hu : tier.tighter? with
    | none =>
      cases tier <;> cases hu
      rw [show Tier.multiplicative.rank = 4 from rfl] at hrank
      omega
    | some u =>
      have htier := Parse.rank_tighter hu
      have hinner := ih u (by omega)
      rw [← operands_tighter hu] at hinner
      exact hinner.operand

/-- What a level derives, the chains that bind no tighter derive as well, without operators. -/
theorem Says.lower {l₀ l : Level} (h : Says l₀ ts e n k) (h₀ : l₀.rank ≤ 5)
    (hl : l.rank ≤ l₀.rank) : Says l ts e n (if l = l₀ then k else 0) := by
  split
  · rename_i heq
    rw [heq]
    exact h
  · rename_i hne
    rcases l with tier | _ | _
    · have hlt : tier.rank < l₀.rank := by
        refine Nat.lt_of_le_of_ne hl fun heq => hne ?_
        rcases l₀ with u | _ | _
        · cases tier <;> cases u <;> first | rfl | cases heq
        · cases tier <;> cases heq
        · exact absurd h₀ (by decide)
      exact h.lift h₀ (l₀.rank - (tier.rank + 1)) tier (by omega)
    · rcases l₀ with u | _ | _
      · exact absurd (Nat.le_trans hl (Parse.rank_le u)) (by decide)
      · exact absurd rfl hne
      · exact absurd h₀ (by decide)
    · exact absurd (Nat.le_trans hl h₀) (by decide)

namespace Expression

/-- The operators at the front of the tree that belong to a chain of the level. -/
def spineAt : Level → Expression → Nat
  | .chain tier, e => e.spine tier
  | _, _ => 0

theorem rank_pos (e : Expression) : 1 ≤ e.rank := by
  cases e with
  | binary op left right line => exact Parse.rank_pos op.tier
  | _ => exact Nat.succ_pos _

theorem rank_le (e : Expression) : e.rank ≤ 5 := by
  cases e with
  | binary op left right line => exact Nat.le_succ_of_le (Parse.rank_le op.tier)
  | not => exact Nat.succ_le_succ (Nat.zero_le _)
  | _ => exact Nat.le_refl 5

/-- Only a chain of its own tier has operators of the tree on its spine. -/
theorem spineAt_binary (op : BinaryOp) (left right : Expression) (line : Nat) (l : Level) :
    spineAt l (binary op left right line)
      = if l = .chain op.tier then left.spine op.tier + 1 else 0 := by
  rcases l with tier | _ | _
  · by_cases h : op.tier = tier
    · rw [spineAt, spine, if_pos h, if_pos (by rw [h]), h]
    · rw [spineAt, spine, if_neg h, if_neg (by rintro ⟨⟩; exact h rfl)]
  · rfl
  · rfl

theorem spineAt_of_rank_lt {l : Level} (h : e.rank < l.rank) : e.spineAt l = 0 := by
  cases e with
  | binary op left right line =>
    rw [spineAt_binary, if_neg]
    rintro rfl
    exact Nat.lt_irrefl _ h
  | _ => cases l <;> rfl

/-- The tokens of the expression have a derivation at every level that binds no tighter. -/
def Derives (e : Expression) : Prop :=
  ∀ l : Level, l.rank ≤ e.rank → Says l (words e.pieces) e.bare e.levels (e.spineAt l)

/-- In parentheses where those are needed, the tokens have a derivation at every level. -/
theorem Derives.parenthesised (h : e.Derives) {l : Level} (hl : l.rank ≤ 5) :
    Says l (words (CMinus.parenthesised (e.rank < l.rank) e.pieces)) e.bare
      (bracketed (e.rank < l.rank) e.levels) (e.spineAt l) := by
  by_cases hlt : e.rank < l.rank
  · obtain ⟨p, htokens, htree, hlevels, _⟩ := h (.chain .logical) e.rank_pos
    have hparens : Says .factor (.symbol .lparen :: (words e.pieces ++ [.symbol .rparen])) e.bare
        (e.levels + 1) 0 :=
      ⟨.parens p, by rw [Phrase.tokens, htokens], htree, congrArg (· + 1) hlevels, rfl⟩
    have hlower := hparens.lower (l := l) (Nat.le_refl 5) hl
    rw [ite_self] at hlower
    rw [decide_eq_true hlt, bracketed, if_pos rfl, CMinus.parenthesised, if_pos rfl,
      spineAt_of_rank_lt hlt]
    simpa using hlower
  · rw [decide_eq_false hlt]
    exact h l (Nat.le_of_not_lt hlt)

/-- What one token row of a factor derives. -/
theorem derives_of_factor (hrank : e.rank = 5) (hspine : ∀ l, e.spineAt l = 0)
    (h : Says .factor (words e.pieces) e.bare e.levels 0) : e.Derives := by
  intro l hl
  rw [hrank] at hl
  have hlower := h.lower (l := l) (Nat.le_refl 5) hl
  rwa [ite_self, ← hspine l] at hlower

theorem Derives.binary {left right : Expression} (hl : left.Derives) (hr : right.Derives)
    (op : BinaryOp) (line : Nat) : (Expression.binary op left right line).Derives := by
  intro l hrank
  have htier := Parse.rank_le op.tier
  have hoperands : (operands op.tier).rank ≤ 5 := by
    rw [rank_operands]
    exact Nat.succ_le_succ htier
  obtain ⟨p, hp, hptree, hplevels, hpspine⟩ :=
    hl.parenthesised (l := .chain op.tier) (Nat.le_succ_of_le htier)
  obtain ⟨q, hq, hqtree, hqlevels, _⟩ := hr.parenthesised hoperands
  rw [rank_operands] at hq hqlevels
  have hjoin : Says (.chain op.tier) (words (Expression.binary op left right line).pieces)
      (.binary op left.bare right.bare 0) (Expression.binary op left right line).levels
      (left.spine op.tier + 1) := by
    refine ⟨.join op rfl p q, ?_, ?_, ?_, ?_⟩
    · rw [Phrase.tokens, hp, hq]
      simp only [pieces, words_append, words_blank, words_sign, List.append_assoc,
        List.cons_append, List.nil_append]
      rfl
    · rw [Phrase.tree, hptree, hqtree]
    · rw [Phrase.levels, hplevels, hqlevels, hpspine]
      rfl
    · rw [Phrase.spine, hpspine]
      rfl
  have hlower := hjoin.lower (Nat.le_succ_of_le htier) hrank
  rwa [← spineAt_binary op left right line] at hlower

theorem Derives.not {operand : Expression} (h : operand.Derives) (line : Nat) :
    (Expression.not operand line).Derives := by
  intro l hrank
  obtain ⟨p, hp, hptree, hplevels, _⟩ := h.parenthesised (l := .chain .relational) (by decide)
  have hnegation : Says (.chain .logical) (words (Expression.not operand line).pieces)
      (.not operand.bare 0) (Expression.not operand line).levels 0 := by
    refine ⟨.negation p, ?_, ?_, ?_, rfl⟩
    · rw [Phrase.tokens, hp]
      rfl
    · rw [Phrase.tree, hptree]
    · rw [Phrase.levels, hplevels]
      rfl
  have hlower := hnegation.lower (by decide) hrank
  rw [ite_self] at hlower
  have hspine : spineAt l (Expression.not operand line) = 0 := by cases l <;> rfl
  rw [hspine]
  exact hlower

theorem Derives.element {index : Expression} (h : index.Derives) (name : String) (line : Nat) :
    (Expression.element name index line).Derives := by
  obtain ⟨p, hp, hptree, hplevels, _⟩ := h (.chain .logical) index.rank_pos
  refine derives_of_factor rfl (fun l => by cases l <;> rfl)
    ⟨.place (.element name p), ?_, ?_, ?_, rfl⟩
  · rw [Phrase.tokens, Phrase.tokens, hp]
    simp [pieces]
  · rw [Phrase.tree, Phrase.tree, hptree, bare]
  · rw [Phrase.levels, Phrase.levels, hplevels, levels]

/-- **The tokens of a well-formed expression have a derivation** that means the expression. -/
theorem derives (h : e.WellFormed) : e.Derives := by
  induction e with
  | binary op left right line ihl ihr => exact (ihl h.1).binary (ihr h.2) op line
  | not operand line ih => exact Derives.not (ih h) line
  | element name index line ih => exact (ih h.2).element name line
  | scalar name line =>
    exact derives_of_factor rfl (fun l => by cases l <;> rfl)
      ⟨.place (.scalar name), rfl, rfl, rfl, rfl⟩
  | call name line =>
    exact derives_of_factor rfl (fun l => by cases l <;> rfl) ⟨.call name, rfl, rfl, rfl, rfl⟩
  | int value line =>
    exact derives_of_factor rfl (fun l => by cases l <;> rfl) ⟨.int value, rfl, rfl, rfl, rfl⟩
  | float value line =>
    exact derives_of_factor rfl (fun l => by cases l <;> rfl) ⟨.float value, rfl, rfl, rfl, rfl⟩
  | string text line => exact h.elim

/-- A derivation of a whole expression. -/
theorem exists_value (h : e.WellFormed) :
    ∃ p : Value, p.tokens = words e.pieces ∧ p.tree = e.bare ∧ p.levels = e.levels := by
  obtain ⟨p, htokens, htree, hlevels, _⟩ := derives h (.chain .logical) e.rank_pos
  exact ⟨p, htokens, htree, hlevels⟩

end Expression

/-- A derivation of a place. -/
theorem Variable.exists_place {v : Variable} (h : v.WellFormed) :
    ∃ p : Phrase .variable, p.tokens = words v.pieces ∧ p.target = v.bare ∧
      p.levels = v.levels := by
  rcases v with ⟨name, _ | index, line⟩
  · exact ⟨.scalar name, rfl, rfl, rfl⟩
  · obtain ⟨p, htokens, htree, hlevels⟩ := Expression.exists_value (e := index) h.2
    refine ⟨.element name p, ?_, ?_, ?_⟩
    · rw [Phrase.tokens, htokens]
      simp [pieces, toExpression, Expression.pieces]
    · rw [Phrase.target, htree, bare, Option.map_some]
    · rw [Phrase.levels, hlevels, levels, toExpression, Expression.levels]

/-! ## 3. Statements -/

/-- A derivation of what a `write` writes. -/
theorem Expression.exists_write {e : Expression} (h : e.Writable) :
    ∃ c : Clause,
      c.tokens = .keyword .writeKw :: (inParens (words e.pieces) ++ [.symbol .semicolon]) ∧
      c.tree = .write e.bare 0 ∧ c.levels = e.levels + 1 := by
  cases e with
  | string text line => exact ⟨.writeText text, rfl, rfl, rfl⟩
  | _ =>
    obtain ⟨p, htokens, htree, hlevels⟩ := exists_value h
    exact ⟨.write p, by rw [Clause.tokens, htokens], by rw [Clause.tree, htree],
      by rw [Clause.levels, hlevels]⟩

namespace Statement

mutual

/-- A derivation of a statement, whatever the level of its lines. -/
theorem exists_clause : (s : Statement) → s.WellFormed →
    ∃ c : Clause, (∀ level, c.tokens = words (s.lines level)) ∧ c.tree = s.bare ∧
      c.levels = s.levels
  | assign target value _, h => by
    obtain ⟨p, hp, hptarget, hplevels⟩ := Variable.exists_place h.1
    obtain ⟨q, hq, hqtree, hqlevels⟩ := Expression.exists_value h.2
    refine ⟨.assign p q, ?_, ?_, ?_⟩
    · intro level
      simp [Clause.tokens, lines, hp, hq]
    · rw [Clause.tree, hptarget, hqtree, bare]
    · rw [Clause.levels, hplevels, hqlevels, levels]
  | ifThen condition body _, h => by
    obtain ⟨p, hp, hptree, hplevels⟩ := Expression.exists_value h.1
    obtain ⟨cs, hcs, htrees, hlevels⟩ := exists_clauses body h.2
    refine ⟨.ifThen p cs, ?_, ?_, ?_⟩
    · intro level
      simp [Clause.tokens, lines, inParens, hp, hcs level]
    · rw [Clause.tree, hptree, htrees, bare]
    · rw [Clause.levels, hplevels, hlevels, levels]
  | ifElse condition body other _, h => by
    obtain ⟨p, hp, hptree, hplevels⟩ := Expression.exists_value h.1
    obtain ⟨cs, hcs, htrees, hlevels⟩ := exists_clauses body h.2.1
    obtain ⟨ds, hds, hdtrees, hdlevels⟩ := exists_clauses other h.2.2
    refine ⟨.ifElse p cs ds, ?_, ?_, ?_⟩
    · intro level
      simp [Clause.tokens, lines, inParens, hp, hcs level, hds level]
    · rw [Clause.tree, hptree, htrees, hdtrees, bare]
    · rw [Clause.levels, hplevels, hlevels, hdlevels, levels]
  | whileDo condition body _, h => by
    obtain ⟨p, hp, hptree, hplevels⟩ := Expression.exists_value h.1
    obtain ⟨c, hc, hctree, hclevels⟩ := exists_clause body h.2
    refine ⟨.whileDo p c, ?_, ?_, ?_⟩
    · intro level
      cases body with
      | compound block =>
        simp [Clause.tokens, lines, inParens, hp, hc level]
      | _ =>
        rw [lines]
        · simp [Clause.tokens, inParens, hp, hc (level + 1)]
        · rintro block ⟨⟩
    · rw [Clause.tree, hptree, hctree, bare]
    · rw [Clause.levels, hplevels, hclevels, levels]
  | read target _, h => by
    obtain ⟨p, hp, hptarget, hplevels⟩ := Variable.exists_place h
    refine ⟨.read p, ?_, ?_, ?_⟩
    · intro level
      simp [Clause.tokens, lines, inParens, hp]
    · rw [Clause.tree, hptarget, bare]
    · rw [Clause.levels, hplevels, levels]
  | write value _, h => by
    obtain ⟨c, hc, htree, hlevels⟩ := Expression.exists_write h
    refine ⟨c, ?_, htree, hlevels⟩
    intro level
    simp [lines, inParens, hc]
  | returns value _, h => by
    obtain ⟨p, hp, hptree, hplevels⟩ := Expression.exists_value h
    refine ⟨.returns p, ?_, ?_, ?_⟩
    · intro level
      simp [Clause.tokens, lines, hp]
    · rw [Clause.tree, hptree, bare]
    · rw [Clause.levels, hplevels, levels]
  | exit _, _ => ⟨.exit, fun _ => rfl, rfl, rfl⟩
  | compound body, h => by
    obtain ⟨cs, hcs, htrees, hlevels⟩ := exists_clauses body h
    refine ⟨.compound cs, ?_, ?_, ?_⟩
    · intro level
      simp [Clause.tokens, lines, hcs level]
    · rw [Clause.tree, htrees, bare]
    · rw [Clause.levels, hlevels, levels]

/-- A derivation of the statements of a block. -/
theorem exists_clauses : (b : Block Statement) → WellFormedBlock b →
    ∃ cs : Clauses, (∀ level, inBraces cs.tokens = words (braces level b)) ∧
      ⟨cs.trees, 0⟩ = bareBlock b ∧ cs.levels = levelsBlock b
  | ⟨items, _⟩, h => by
    obtain ⟨cs, hcs, htrees, hlevels⟩ := exists_row items h.1 h.2
    refine ⟨cs, ?_, ?_, hlevels⟩
    · intro level
      simp [inBraces, braces, hcs (level + 1)]
    · rw [htrees, bareBlock]

/-- A derivation of statements in a row. -/
theorem exists_row : (ss : List Statement) → ss ≠ [] → WellFormedList ss →
    ∃ cs : Clauses, (∀ level, cs.tokens = words (linesOf level ss)) ∧ cs.trees = bareList ss ∧
      cs.levels = levelsList ss
  | [], hne, _ => absurd rfl hne
  | s :: ss, _, h => by
    obtain ⟨c, hc, hctree, hclevels⟩ := exists_clause s h.1
    cases ss with
    | nil =>
      refine ⟨.one c, ?_, ?_, ?_⟩
      · intro level
        simp [Clauses.tokens, linesOf, hc level]
      · rw [Clauses.trees, hctree, bareList, bareList]
      · rw [Clauses.levels, hclevels, levelsList, levelsList, Nat.max_zero]
    | cons s' ss =>
      obtain ⟨cs, hcs, htrees, hlevels⟩ := exists_row (s' :: ss) (List.cons_ne_nil _ _) h.2
      refine ⟨.more c cs, ?_, ?_, ?_⟩
      · intro level
        rw [linesOf, words_append, ← hc level, ← hcs level, Clauses.tokens]
      · rw [bareList, ← hctree, ← htrees, Clauses.trees]
      · rw [levelsList, ← hclevels, ← hlevels, Clauses.levels]

end

end Statement

/-! ## 4. Programs -/

/-- The declaration as a group of its own. -/
def Declaration.group (d : Declaration) : Group :=
  ⟨d.type, ⟨d.name, d.size⟩, []⟩

theorem flatMap_tokens_group (level : Nat) (ds : List Declaration) :
    (ds.map Declaration.group).flatMap Group.tokens = words (declarationLines level ds) := by
  induction ds with
  | nil => rfl
  | cons d ds ih =>
    have hd : d.group.tokens = words (d.pieces ++ [sign .semicolon, newline]) := by
      rcases d with ⟨name, type, _ | size, line⟩ <;> rfl
    have hlines : declarationLines level (d :: ds)
        = margin level :: d.pieces ++ [sign .semicolon, newline] ++ declarationLines level ds := rfl
    rw [List.map_cons, List.flatMap_cons, ih, hd, hlines, List.cons_append, List.cons_append,
      words_margin, words_append (d.pieces ++ _)]

theorem flatMap_trees_group (ds : List Declaration) :
    (ds.map Declaration.group).flatMap Group.trees = ds.map Declaration.bare := by
  induction ds with
  | nil => rfl
  | cons d ds ih =>
    rw [List.map_cons, List.flatMap_cons, ih]
    rfl

/-- A derivation of a procedure. -/
theorem Procedure.exists_definition {p : Procedure} (h : p.WellFormed) :
    ∃ d : Definition, d.tokens = words p.pieces ∧ d.tree = p.bare ∧
      d.body.levels = Statement.levelsBlock p.body := by
  rcases p with ⟨type, name, locals, ⟨items, line⟩, line'⟩
  obtain ⟨cs, hcs, htrees, hlevels⟩ := Statement.exists_row items h.2.2.1 h.2.2.2
  refine ⟨⟨type, name, [], locals.items.map Declaration.group, cs⟩, ?_, ?_, hlevels⟩
  · simp [Definition.tokens, inBraces, pieces, flatMap_tokens_group 1, hcs 1]
  · rw [Definition.tree, List.nil_append, flatMap_trees_group, htrees]
    rfl

/-- Derivations of procedures in a row. -/
theorem Procedure.exists_definitions {ps : List Procedure} (h : ∀ p ∈ ps, p.WellFormed) :
    ∃ ds : List Definition, ds.flatMap Definition.tokens = words (piecesOf ps) ∧
      ds.map Definition.tree = ps.map Procedure.bare ∧
      ds.map (·.body.levels) = ps.map fun p => Statement.levelsBlock p.body := by
  induction ps with
  | nil => exact ⟨[], rfl, rfl, rfl⟩
  | cons p ps ih =>
    obtain ⟨hp, hps⟩ := List.forall_mem_cons.mp h
    obtain ⟨d, hd, htree, hlevels⟩ := exists_definition hp
    obtain ⟨ds, hds, htrees, hdlevels⟩ := ih hps
    refine ⟨d :: ds, ?_, ?_, ?_⟩
    · rw [List.flatMap_cons, hd, hds]
      cases ps with
      | nil => rw [piecesOf, piecesOf, words_nil, List.append_nil]
      | cons q qs =>
        rw [piecesOf.eq_def (p :: q :: qs), words_append, words_newline]
    · rw [List.map_cons, htree, htrees, List.map_cons]
    · rw [List.map_cons, hlevels, hdlevels, List.map_cons]

/-- **The tokens of a well-formed program have a derivation** that means the program and needs the
    levels of its canonical text. -/
theorem Program.exists_document {p : Program} (h : p.WellFormed) :
    ∃ d : Document, d.tokens = words p.pieces ∧ d.tree = p.bare ∧ d.levels = p.levels := by
  rcases p with ⟨globals, procedures, line⟩
  obtain ⟨hglobals, hne, hprocedures⟩ := h
  obtain ⟨ds, hds, htrees, hlevels⟩ := Procedure.exists_definitions hprocedures
  cases ds with
  | nil => exact absurd (List.map_eq_nil_iff.mp htrees.symm) hne
  | cons d ds =>
    cases globals with
    | none =>
      refine ⟨⟨[], d, ds⟩, hds, ?_, congrArg (·.foldr max 0) hlevels⟩
      rw [Document.tree, htrees]
      rfl
    | some globals =>
      obtain ⟨hitems, _⟩ := hglobals globals rfl
      refine ⟨⟨globals.items.map Declaration.group, d, ds⟩, ?_, ?_,
        congrArg (·.foldr max 0) hlevels⟩
      · rw [Document.tokens, hds, flatMap_tokens_group 0]
        simp [pieces]
      · rw [Document.tree, htrees, if_neg (by rwa [List.map_eq_nil_iff]), flatMap_trees_group]
        rfl

end CMinus
