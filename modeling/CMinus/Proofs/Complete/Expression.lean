import CMinus.Proofs.Grammar
import CMinus.Proofs.Reading

/-!
# Complete.Expression: a derived expression is read

Reading the tokens of a derivation gives its tree when the budget covers the levels of the
derivation, and runs out of levels when it does not (`Within`). There is no third outcome, so the
number of levels is exact. What stands behind the tokens must not continue them (`continues`);
in a program it never does.
-/

namespace CMinus.Parse

open Grammar

variable {α β : Type}

/-! ## 1. Outcomes at a budget -/

/-- The result is `next` when the budget covers the levels, and too deep when it does not. -/
def Within (levels budget : Nat) (result next : Except Failure (Read α)) : Prop :=
  (levels ≤ budget → result = next) ∧
    (budget < levels → ∃ place, result = .error ⟨.tooDeep, place⟩)

namespace Within

variable {n m budget : Nat}

theorem refl (r : Except Failure (Read α)) : Within 0 budget r r :=
  ⟨fun _ => rfl, fun h => absurd h (Nat.not_lt_zero _)⟩

/-- What follows is read under `s` of the levels opened before. -/
theorem trans {s : Nat} {x y z : Except Failure (Read α)} (h₁ : Within n budget x y)
    (h₂ : Within m (budget - s) y z) (hs : s ≤ n) : Within (max n (s + m)) budget x z := by
  constructor
  · intro h
    rw [h₁.1 (by omega), h₂.1 (by omega)]
  · intro h
    by_cases hn : n ≤ budget
    · rw [h₁.1 hn]
      exact h₂.2 (by omega)
    · exact h₁.2 (by omega)

/-- One production after the other. -/
theorem bind {x : Except Failure (Read α)} {a : α} {rest : List Lexeme}
    {k : Read α → Except Failure (Read β)} {next : Except Failure (Read β)}
    (h₁ : Within n budget x (.ok (a, rest))) (h₂ : Within m budget (k (a, rest)) next) :
    Within (max n m) budget (x >>= k) next := by
  constructor
  · intro h
    rw [h₁.1 (by omega)]
    exact h₂.1 (by omega)
  · intro h
    by_cases hn : n ≤ budget
    · rw [h₁.1 hn]
      exact h₂.2 (by omega)
    · obtain ⟨place, hp⟩ := h₁.2 (by omega)
      exact ⟨place, by rw [hp]; rfl⟩

/-- What follows costs nothing. -/
theorem bind_ok {x : Except Failure (Read α)} {a : α} {rest : List Lexeme}
    {k : Read α → Except Failure (Read β)} (h : Within n budget x (.ok (a, rest))) :
    Within n budget (x >>= k) (k (a, rest)) := by
  have e := h.bind (refl (k (a, rest)))
  rwa [Nat.max_zero] at e

theorem bind_eq {x : Except Failure (Read α)} {a : α} {rest : List Lexeme}
    {k : Read α → Except Failure (Read β)} {next : Except Failure (Read β)}
    (h : Within n budget x (.ok (a, rest))) (hk : k (a, rest) = next) :
    Within n budget (x >>= k) next := by
  rw [← hk]
  exact h.bind_ok

/-- One more level, and one more to give. -/
theorem succ {r next : Except Failure (Read α)} (h : Within n budget r next) :
    Within (n + 1) (budget + 1) r next :=
  ⟨fun hn => h.1 (by omega), fun hn => h.2 (by omega)⟩

/-- One more level, and none to give. -/
theorem none_left {next : Except Failure (Read α)} (ts : List Lexeme) :
    Within (n + 1) 0 (tooDeep ts) next :=
  ⟨fun h => absurd h (Nat.not_succ_le_zero n), fun _ => ⟨ts, rfl⟩⟩

end Within

/-- Tokens as lexemes on line zero. -/
def row (ts : List Token) : List Lexeme :=
  ts.map (⟨·, 0⟩)

@[simp] theorem row_nil : row [] = [] := rfl

@[simp] theorem row_cons (t : Token) (ts : List Token) : row (t :: ts) = ⟨t, 0⟩ :: row ts := rfl

@[simp] theorem row_append (ts us : List Token) : row (ts ++ us) = row ts ++ row us :=
  List.map_append

theorem length_lt_row_append {ts : List Token} (h : ts ≠ []) (rest : List Lexeme) :
    rest.length < (row ts ++ rest).length := by
  have hpos := List.length_pos_iff.mpr h
  rw [row, List.length_append, List.length_map]
  omega

@[simp] theorem sign_cons (s : Symbol) (line : Nat) (rest : List Lexeme) :
    sign s (⟨.symbol s, line⟩ :: rest) = .ok (line, rest) := by
  rw [sign, if_pos rfl]

@[simp] theorem identifier_cons (name : String) (line : Nat) (rest : List Lexeme) :
    identifier (⟨.ident name, line⟩ :: rest) = .ok ((name, line), rest) := rfl

/-! ## 2. What continues a phrase -/

/-- The token, behind a phrase of the level, would be taken for a part of it. -/
def continues : Level → Token → Bool
  | .chain tier, t =>
    (BinaryOp.ofToken? t).any (tier.rank ≤ ·.tier.rank) || t = .symbol .lparen
      || t = .symbol .lbracket
  | .factor, t => t = .symbol .lparen || t = .symbol .lbracket
  | .variable, t => t = .symbol .lbracket

/-- The rest does not continue a phrase of the level. -/
def Stops (l : Level) (rest : List Lexeme) : Prop :=
  startsWith (continues l) rest = false

theorem Stops.of_imp {l m : Level} (h : ∀ t, continues m t = true → continues l t = true)
    {rest : List Lexeme} (hs : Stops l rest) : Stops m rest := by
  cases rest with
  | nil => rfl
  | cons x rest => exact Bool.eq_false_iff.mpr fun e => Bool.eq_false_iff.mp hs (h _ e)

theorem Stops.operands {tier : Tier} {rest : List Lexeme} (h : Stops (.chain tier) rest) :
    Stops (operands tier) rest := by
  refine h.of_imp fun t ht => ?_
  cases tier <;> simp only [Grammar.operands, continues, Bool.or_eq_true, Option.any_eq_true,
    decide_eq_true_eq] at ht ⊢
  case multiplicative => exact ht.imp_left Or.inr
  all_goals
    refine ht.imp_left (Or.imp_left ?_)
    rintro ⟨op, ho, hr⟩
    refine ⟨op, ho, ?_⟩
    simp only [Tier.rank] at hr ⊢
    omega

/-- The operators of a tier stand behind its operands. -/
theorem stops_operator (op : BinaryOp) (rest : List Lexeme) :
    Stops (operands op.tier) (⟨.symbol op.symbol, 0⟩ :: rest) := by
  cases op <;> rfl

theorem Stops.startsWith_eq_false {l : Level} {rest : List Lexeme} (h : Stops l rest)
    {t : Token} (ht : continues l t = true) : startsWith (· = t) rest = false := by
  cases rest with
  | nil => rfl
  | cons x rest =>
    refine decide_eq_false fun e => Bool.eq_false_iff.mp h ?_
    rw [startsWith, e]
    exact ht

theorem Stops.chainRest_eq {tier : Tier} {rest : List Lexeme} (h : Stops (.chain tier) rest)
    (budget : Nat) (left : Expression) : chainRest tier budget left rest = .ok (left, rest) := by
  refine chainRest_stop ?_
  cases rest with
  | nil => rfl
  | cons x rest =>
    refine Bool.eq_false_iff.mpr fun e => Bool.eq_false_iff.mp h ?_
    obtain ⟨op, ho⟩ := Option.isSome_iff_exists.mp e
    rw [Tier.operator?, Option.filter_eq_some_iff] at ho
    simp only [startsWith, continues, ho.1, Option.any_some, of_decide_eq_true ho.2, Nat.le_refl,
      decide_true, Bool.true_or]

/-! ## 3. Expressions -/

/-- The loosest chain is read as an expression, which may start with a negation. -/
def readChain : Tier → Nat → Production Expression
  | .logical => expression
  | tier => chain tier

/-- The tokens of the phrase are read as the phrase. Behind a chain, reading goes on with the rest
    of the chain, under the levels that its operators have left. -/
def Reads : {l : Level} → Phrase l → Prop
  | .chain tier, p => ∀ budget rest, Stops (operands tier) rest →
    Within p.levels budget (readChain tier budget (row p.tokens ++ rest))
      (chainRest tier (budget - p.spine) p.tree rest)
  | .factor, p => ∀ budget rest, Stops .factor rest →
    Within p.levels budget (factor budget (row p.tokens ++ rest)) (.ok (p.tree, rest))
  | .variable, p => ∀ budget rest, Stops .variable rest →
    Within p.levels budget (place budget (row p.tokens ++ rest)) (.ok (p.target, rest))

/-- A whole chain is read when nothing continues it. -/
theorem Reads.readChain {tier : Tier} {p : Phrase (.chain tier)} (h : Reads p) (budget : Nat)
    {rest : List Lexeme} (hs : Stops (.chain tier) rest) :
    Within p.levels budget (readChain tier budget (row p.tokens ++ rest)) (.ok (p.tree, rest)) := by
  have e := h budget rest hs.operands
  rwa [hs.chainRest_eq] at e

theorem Reads.operand {tier : Tier} {p : Phrase (operands tier)} (h : Reads p) (budget : Nat)
    {rest : List Lexeme} (hs : Stops (operands tier) rest) :
    Within p.levels budget (operand tier budget (row p.tokens ++ rest)) (.ok (p.tree, rest)) := by
  rw [Parse.operand]
  cases tier with
  | multiplicative => exact h budget rest hs
  | logical | relational | additive => exact h.readChain budget hs

/-- Only an expression starts with a negation. -/
theorem startsFactor_operand {l : Level} (p : Phrase l) (hl : l ≠ .chain .logical)
    (rest : List Lexeme) : startsWith startsFactor (row p.tokens ++ rest) = true := by
  induction p generalizing rest with
  | join op fits left right ihl ihr =>
    rw [Phrase.tokens, row_append, List.append_assoc]
    exact ihl hl _
  | @operand tier inner ih =>
    refine ih ?_ rest
    cases tier <;> simp [operands]
  | place inner ih => exact ih (by simp) rest
  | negation => exact absurd rfl hl
  | int | float | call | parens | scalar | element => rfl

theorem startsWith_value (p : Value) (rest : List Lexeme) :
    startsWith (fun t => startsFactor t || t = .symbol .not) (row p.tokens ++ rest) = true := by
  have h : ∀ {l} (p : Phrase l) rest,
      startsWith (fun t => startsFactor t || t = .symbol .not) (row p.tokens ++ rest) = true := by
    intro l p
    induction p with
    | join op fits left right ihl ihr =>
      intro rest
      rw [Phrase.tokens, row_append, List.append_assoc]
      exact ihl _
    | operand inner ih | place inner ih => exact ih
    | negation | int | float | call | parens | scalar | element => exact fun rest => rfl
  exact h p rest

theorem readChain_eq_chain {tier : Tier} {budget : Nat} (p : Phrase (operands tier))
    (rest : List Lexeme) :
    readChain tier budget (row p.tokens ++ rest) = chain tier budget (row p.tokens ++ rest) := by
  cases tier with
  | logical =>
    refine expression_eq_chain (startsWith_eq_false fun line ts e => ?_)
    have h := startsFactor_operand p (by simp [operands]) rest
    rw [e] at h
    cases h
  | relational | additive | multiplicative => rfl

/-- A row of operands goes on with an operator. -/
theorem chainRest_operator {tier : Tier} {op : BinaryOp} (fits : op.tier = tier)
    {right : Phrase (operands tier)} (h : Reads right) (budget : Nat) (left : Expression)
    {rest : List Lexeme} (hs : Stops (operands tier) rest) :
    Within (right.levels + 1) budget
      (chainRest tier budget left (⟨.symbol op.symbol, 0⟩ :: (row right.tokens ++ rest)))
      (chainRest tier (budget - 1) (.combine op left right.tree) rest) := by
  have hop : tier.operator? (.symbol op.symbol) = some op := by
    simp [Tier.operator?, BinaryOp.ofToken?_symbol, fits]
  rw [chainRest]
  simp only [hop]
  cases budget with
  | zero => exact .none_left _
  | succ less => exact (h.operand less hs).bind_ok.succ

/-- A variable that no parenthesis follows is a factor. -/
theorem factor_eq_place {budget : Nat} (p : Phrase .variable) {rest : List Lexeme}
    (hs : Stops .factor rest) :
    factor budget (row p.tokens ++ rest)
      = place budget (row p.tokens ++ rest) >>= fun (place, rest) =>
          .ok (place.toExpression, rest) := by
  cases p with
  | scalar name => exact factor_ident (hs.startsWith_eq_false rfl)
  | element name index => exact factor_ident rfl

/-- **Every derivation of an expression is read.** -/
theorem reads {l : Level} (p : Phrase l) : Reads p := by
  induction p with
  | @join tier op fits left right ihl ihr =>
    intro budget rest hs
    have hstop := stops_operator op (row right.tokens ++ rest)
    rw [fits] at hstop
    have hleft := ihl budget _ hstop
    have hright := chainRest_operator fits ihr (budget - left.spine) left.tree hs
    have h := hleft.trans hright left.spine_le_levels
    rw [Phrase.tokens, row_append, row_cons, List.append_assoc, List.cons_append, Phrase.levels,
      Nat.add_assoc, Nat.add_comm 1]
    rw [Expression.combine, Phrase.line_tree, Nat.sub_sub] at h
    exact h
  | @operand tier inner ih =>
    intro budget rest hs
    rw [Phrase.tokens, readChain_eq_chain, chain]
    exact (ih.operand budget hs).bind_ok
  | negation inner ih =>
    intro budget rest hs
    rw [Phrase.tokens, row_cons, List.cons_append, Phrase.levels, readChain]
    cases budget with
    | zero =>
      simp only [expression]
      exact .none_left _
    | succ less =>
      simp only [expression]
      exact (ih.readChain less hs).bind_ok.succ
  | place inner ih =>
    intro budget rest hs
    have hs' : Stops .variable rest := hs.of_imp fun t ht => by
      show (_ || continues .variable t) = true
      rw [ht, Bool.or_true]
    rw [Phrase.tokens, factor_eq_place inner hs, Phrase.tree, ← Phrase.toExpression_target]
    exact (ih budget rest hs').bind_ok
  | int value | float value | call name =>
    intro budget rest hs
    simp only [Phrase.tokens, row_cons, row_nil, List.cons_append, List.nil_append, factor,
      sign_cons]
    exact .refl _
  | parens inner ih =>
    intro budget rest hs
    simp only [Phrase.tokens, row_cons, row_append, row_nil, List.cons_append, List.append_assoc,
      List.nil_append, Phrase.levels]
    cases budget with
    | zero =>
      simp only [factor]
      exact .none_left _
    | succ less =>
      have hs' : Stops (.chain .logical) (⟨.symbol .rparen, 0⟩ :: rest) := rfl
      simp only [factor]
      exact (ih.readChain less hs').bind_ok.succ
  | scalar name =>
    intro budget rest hs
    show Within 0 budget (subscript budget name 0 rest) _
    rw [subscript_scalar (hs.startsWith_eq_false rfl)]
    exact .refl _
  | element name index ih =>
    intro budget rest hs
    have hs' : Stops (.chain .logical) (⟨.symbol .rbracket, 0⟩ :: rest) := rfl
    simp only [Phrase.tokens, row_cons, row_append, row_nil, List.cons_append, List.append_assoc,
      List.nil_append, Phrase.levels]
    show Within _ budget (subscript budget name 0 _) _
    cases budget with
    | zero =>
      simp only [subscript]
      exact .none_left _
    | succ less =>
      simp only [subscript]
      exact (ih.readChain less hs').bind_ok.succ

theorem expression_within (p : Value) (budget : Nat) {rest : List Lexeme}
    (hs : Stops (.chain .logical) rest) :
    Within p.levels budget (expression budget (row p.tokens ++ rest)) (.ok (p.tree, rest)) :=
  (reads p).readChain budget hs

theorem place_within (p : Phrase .variable) (budget : Nat) {rest : List Lexeme}
    (hs : Stops .variable rest) :
    Within p.levels budget (place budget (row p.tokens ++ rest)) (.ok (p.target, rest)) :=
  reads p budget rest hs

end CMinus.Parse
