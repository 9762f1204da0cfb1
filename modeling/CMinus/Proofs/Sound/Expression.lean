import CMinus.Proofs.Bare
import CMinus.Proofs.Grammar
import CMinus.Proofs.Reading

/-!
# Sound.Expression: what is read is derived

When a production succeeds, the tokens it took have a derivation that means the tree it built and
needs no more levels than the budget it was given. The rest of a chain continues the derivation of
its first operands, under the levels that their operators opened.
-/

namespace CMinus.Parse

open Grammar

variable {α β : Type}

/-! ## 1. Single tokens -/

theorem sign_sound {s : Symbol} {ts rest : List Lexeme} {line : Nat}
    (h : sign s ts = .ok (line, rest)) : tokensOf ts = .symbol s :: tokensOf rest := by
  rcases ts with _ | ⟨⟨t, line'⟩, ts⟩
  · cases h
  · cases t with
    | symbol u =>
      rw [sign] at h
      split at h
      · rename_i e
        cases h
        rw [e, tokensOf_cons]
      · cases h
    | _ => cases h

theorem identifier_sound {ts rest : List Lexeme} {name : String} {line : Nat}
    (h : identifier ts = .ok ((name, line), rest)) :
    tokensOf ts = .ident name :: tokensOf rest := by
  rcases ts with _ | ⟨⟨t, line'⟩, ts⟩
  · cases h
  · cases t <;> cases h
    rfl

theorem operator?_eq_some {tier : Tier} {t : Token} {op : BinaryOp}
    (h : tier.operator? t = some op) : op.tier = tier ∧ t = .symbol op.symbol := by
  rw [Tier.operator?, Option.filter_eq_some_iff] at h
  refine ⟨of_decide_eq_true h.2, ?_⟩
  have h' := h.1
  cases t with
  | symbol s => cases s <;> cases h' <;> rfl
  | _ => cases h'

/-! ## 2. Derived tokens -/

/-- The tokens up to the rest have a derivation of the expression, within the budget. -/
def Derived (l : Level) (budget : Nat) (ts : List Lexeme) (e : Expression) (rest : List Lexeme) :
    Prop :=
  ∃ p : Phrase l, p.levels ≤ budget ∧ p.tree = e.bare ∧ tokensOf ts = p.tokens ++ tokensOf rest

/-- The name and the tokens behind it, up to the rest, have a derivation of the variable. -/
def Placed (budget : Nat) (name : String) (ts : List Lexeme) (v : Variable)
    (rest : List Lexeme) : Prop :=
  ∃ p : Phrase .variable, p.levels ≤ budget ∧ p.target = v.bare ∧
    .ident name :: tokensOf ts = p.tokens ++ tokensOf rest

/-- The tokens up to the rest continue a chain to the expression, whatever derives its first
    operands `left`. The budget is what the operators of `left` have left over. -/
def Continued (tier : Tier) (budget : Nat) (left : Expression) (ts : List Lexeme) (e : Expression)
    (rest : List Lexeme) : Prop :=
  ∀ p : Phrase (.chain tier), p.levels ≤ budget + p.spine → p.tree = left.bare →
    ∃ q : Phrase (.chain tier), q.levels ≤ budget + p.spine ∧ q.tree = e.bare ∧
      p.tokens ++ tokensOf ts = q.tokens ++ tokensOf rest

section Rules

variable {tier : Tier} {budget line : Nat} {name : String} {ts mid rest : List Lexeme}
  {e left right : Expression} {v : Variable}

theorem Continued.refl (left : Expression) (ts : List Lexeme) :
    Continued tier budget left ts left ts :=
  fun p hlevels htree => ⟨p, hlevels, htree, rfl⟩

/-- One more operator, and its right operand. -/
theorem Continued.join {op : BinaryOp} {l : Lexeme} (hop : tier.operator? l.token = some op)
    (hr : Derived (operands tier) budget ts right mid)
    (h : Continued tier budget (.combine op left right) mid e rest) :
    Continued tier (budget + 1) left (l :: ts) e rest := by
  intro p hlevels htree
  obtain ⟨r, hrlevels, hrtree, hrtokens⟩ := hr
  obtain ⟨fits, hl⟩ := operator?_eq_some hop
  have hjoin : (Phrase.join op fits p r).levels ≤ budget + (Phrase.join op fits p r).spine := by
    rw [Phrase.levels, Phrase.spine]
    omega
  have hjoined : (Phrase.join op fits p r).tree = (Expression.combine op left right).bare := by
    rw [Expression.bare_combine, ← htree, ← hrtree, Expression.combine, Phrase.line_tree,
      Phrase.tree]
  obtain ⟨q, hq, hqtree, hqtokens⟩ := h (.join op fits p r) hjoin hjoined
  refine ⟨q, ?_, hqtree, ?_⟩
  · rw [Phrase.spine] at hq
    omega
  · rcases l with ⟨t, line⟩
    rw [← hqtokens, Phrase.tokens, tokensOf_cons, hrtokens, List.append_assoc, List.cons_append]
    rw [show t = .symbol op.symbol from hl]

theorem Derived.chain (hl : Derived (operands tier) budget ts left mid)
    (h : Continued tier budget left mid e rest) : Derived (.chain tier) budget ts e rest := by
  obtain ⟨p, hlevels, htree, htokens⟩ := hl
  obtain ⟨q, hq, hqtree, hqtokens⟩ := h (.operand p) hlevels htree
  exact ⟨q, hq, hqtree, htokens.trans hqtokens⟩

theorem Derived.negation (ho : Derived (.chain .relational) budget ts left mid)
    (h : Continued .logical (budget + 1) (.not left line) mid e rest) :
    Derived (.chain .logical) (budget + 1) (⟨.symbol .not, line⟩ :: ts) e rest := by
  obtain ⟨p, hlevels, htree, htokens⟩ := ho
  have hnot : (Phrase.negation p).tree = (Expression.not left line).bare := by
    rw [Phrase.tree, htree, Expression.bare]
  obtain ⟨q, hq, hqtree, hqtokens⟩ := h (.negation p) (Nat.succ_le_succ hlevels) hnot
  refine ⟨q, hq, hqtree, ?_⟩
  rw [tokensOf_cons, htokens, ← hqtokens, Phrase.tokens, List.cons_append]

theorem Derived.parens (h : Derived (.chain .logical) budget ts e mid)
    (hs : tokensOf mid = .symbol .rparen :: tokensOf rest) :
    Derived .factor (budget + 1) (⟨.symbol .lparen, line⟩ :: ts) e rest := by
  obtain ⟨p, hlevels, htree, htokens⟩ := h
  refine ⟨.parens p, Nat.succ_le_succ hlevels, htree, ?_⟩
  rw [tokensOf_cons, htokens, hs, Phrase.tokens, List.cons_append, List.append_assoc]
  rfl

theorem Derived.place (h : Placed budget name ts v rest) :
    Derived .factor budget (⟨.ident name, line⟩ :: ts) v.toExpression rest := by
  obtain ⟨p, hlevels, htarget, htokens⟩ := h
  refine ⟨.place p, hlevels, ?_, htokens⟩
  rw [Phrase.tree, ← Phrase.toExpression_target, htarget, Variable.toExpression_bare]

theorem Placed.element {line' : Nat} (h : Derived (.chain .logical) budget ts e mid)
    (hs : tokensOf mid = .symbol .rbracket :: tokensOf rest) :
    Placed (budget + 1) name (⟨.symbol .lbracket, line⟩ :: ts) ⟨name, some e, line'⟩ rest := by
  obtain ⟨p, hlevels, htree, htokens⟩ := h
  refine ⟨.element name p, Nat.succ_le_succ hlevels, ?_, ?_⟩
  · rw [Phrase.target, htree]
    rfl
  · rw [tokensOf_cons, htokens, hs, Phrase.tokens, List.cons_append, List.cons_append,
      List.append_assoc]
    rfl

end Rules

/-! ## 3. Expressions -/

/-- All six productions at once, along the calls they make. -/
theorem expression_family_sound :
    (∀ budget ts e rest, expression budget ts = .ok (e, rest) →
      Derived (.chain .logical) budget ts e rest) ∧
    (∀ tier budget left ts e rest, chainRest tier budget left ts = .ok (e, rest) →
      Continued tier budget left ts e rest) ∧
    (∀ tier budget ts e rest, operand tier budget ts = .ok (e, rest) →
      Derived (operands tier) budget ts e rest) ∧
    (∀ budget ts e rest, factor budget ts = .ok (e, rest) → Derived .factor budget ts e rest) ∧
    (∀ budget name line ts v rest, subscript budget name line ts = .ok (v, rest) →
      Placed budget name ts v rest) ∧
    (∀ tier budget ts e rest, chain tier budget ts = .ok (e, rest) →
      Derived (.chain tier) budget ts e rest) := by
  apply expression.mutual_induct
    (fun budget ts => ∀ e rest, expression budget ts = .ok (e, rest) →
      Derived (.chain .logical) budget ts e rest)
    (fun tier budget left ts => ∀ e rest, chainRest tier budget left ts = .ok (e, rest) →
      Continued tier budget left ts e rest)
    (fun tier budget ts => ∀ e rest, operand tier budget ts = .ok (e, rest) →
      Derived (operands tier) budget ts e rest)
    (fun budget ts => ∀ e rest, factor budget ts = .ok (e, rest) →
      Derived .factor budget ts e rest)
    (fun budget name line ts => ∀ v rest, subscript budget name line ts = .ok (v, rest) →
      Placed budget name ts v rest)
    (fun tier budget ts => ∀ e rest, chain tier budget ts = .ok (e, rest) →
      Derived (.chain tier) budget ts e rest)
  case case1 => -- a negation without a level for it
    intro line rest e rest' h
    simp only [expression] at h
    cases h
  case case2 => -- a negation
    intro line rest less ihOperand ihRest e rest' h
    simp only [expression] at h
    obtain ⟨operand, mid, ho, h⟩ := bind_eq_ok.mp h
    exact (ihOperand _ _ ho).negation (ihRest operand mid _ _ h)
  case case3 => -- no negation
    intro budget ts hts ih e rest h
    rw [expression_eq_chain (startsWith_eq_false hts)] at h
    exact ih e rest h
  case case4 => -- the end of the tokens behind a chain
    intro tier budget left e rest h
    simp only [chainRest] at h
    cases h
    exact .refl left []
  case case5 => -- no operator of the tier behind a chain
    intro tier budget left l rest hop e rest' h
    simp only [chainRest, hop] at h
    cases h
    exact .refl left _
  case case6 => -- an operator without a level for it
    intro tier left l rest op hop e rest' h
    simp only [chainRest, hop] at h
    cases h
  case case7 => -- an operator
    intro tier left l rest op hop less ihOperand ihRest e rest' h
    simp only [chainRest, hop] at h
    obtain ⟨right, mid, hr, h⟩ := bind_eq_ok.mp h
    exact .join hop (ihOperand _ _ hr) (ihRest right mid _ _ h)
  case case8 => -- an operand of a tier above the tightest one
    intro tier budget ts tighter ht ih e rest h
    rw [operand_tighter ht] at h
    rw [operands_tighter ht]
    exact ih e rest h
  case case9 => -- an operand of the tightest tier
    intro tier budget ts ht ih e rest h
    rw [operand_factor ht] at h
    rw [operands_factor ht]
    exact ih e rest h
  case case10 => -- a call
    intro budget name line line' rest e rest' h
    simp only [factor] at h
    obtain ⟨line'', mid, hs, h⟩ := bind_eq_ok.mp h
    cases h
    refine ⟨.call name, Nat.zero_le _, rfl, ?_⟩
    rw [tokensOf_cons, tokensOf_cons, sign_sound hs]
    rfl
  case case11 => -- a variable
    intro budget name line rest hrest ih e rest' h
    rw [factor_ident (startsWith_eq_false hrest)] at h
    obtain ⟨v, mid, hv, h⟩ := bind_eq_ok.mp h
    cases h
    exact .place (ih _ _ hv)
  case case12 => -- a whole number
    intro budget value line rest e rest' h
    simp only [factor] at h
    cases h
    exact ⟨.int value, Nat.zero_le _, rfl, rfl⟩
  case case13 => -- a fraction
    intro budget value line rest e rest' h
    simp only [factor] at h
    cases h
    exact ⟨.float value, Nat.zero_le _, rfl, rfl⟩
  case case14 => -- a parenthesis without a level for it
    intro line rest e rest' h
    simp only [factor] at h
    cases h
  case case15 => -- an expression in parentheses
    intro line rest less ih e rest' h
    simp only [factor] at h
    obtain ⟨inner, mid, hi, h⟩ := bind_eq_ok.mp h
    obtain ⟨line', mid', hs, h⟩ := bind_eq_ok.mp h
    cases h
    exact (ih _ _ hi).parens (sign_sound hs)
  case case16 => -- no factor
    intro budget ts _ hIdent hInt hFloat hParen e rest h
    rw [factor_fail (startsFactor_eq_false hIdent hInt hFloat hParen)] at h
    cases h
  case case17 => -- a bracket without a level for it
    intro name line line' rest v rest' h
    simp only [subscript] at h
    cases h
  case case18 => -- an index
    intro name line line' rest less ih v rest' h
    simp only [subscript] at h
    obtain ⟨index, mid, hi, h⟩ := bind_eq_ok.mp h
    obtain ⟨line'', mid', hs, h⟩ := bind_eq_ok.mp h
    cases h
    exact .element (ih _ _ hi) (sign_sound hs)
  case case19 => -- no index
    intro budget name line ts hts v rest h
    rw [subscript_scalar (startsWith_eq_false hts)] at h
    cases h
    exact ⟨.scalar name, Nat.zero_le _, rfl, rfl⟩
  case case20 => -- a chain
    intro tier budget ts ihOperand ihRest e rest h
    rw [chain] at h
    obtain ⟨left, mid, hl, h⟩ := bind_eq_ok.mp h
    exact (ihOperand _ _ hl).chain (ihRest left mid _ _ h)

theorem expression_sound {budget : Nat} {ts rest : List Lexeme} {e : Expression}
    (h : expression budget ts = .ok (e, rest)) : Derived (.chain .logical) budget ts e rest :=
  expression_family_sound.1 budget ts e rest h

theorem subscript_sound {budget line : Nat} {name : String} {ts rest : List Lexeme} {v : Variable}
    (h : subscript budget name line ts = .ok (v, rest)) : Placed budget name ts v rest :=
  expression_family_sound.2.2.2.2.1 budget name line ts v rest h

theorem place_sound {budget : Nat} {ts rest : List Lexeme} {v : Variable}
    (h : place budget ts = .ok (v, rest)) :
    ∃ p : Phrase .variable, p.levels ≤ budget ∧ p.target = v.bare ∧
      tokensOf ts = p.tokens ++ tokensOf rest := by
  obtain ⟨⟨name, line⟩, mid, hi, h⟩ := bind_eq_ok.mp h
  rw [identifier_sound hi]
  exact subscript_sound h

end CMinus.Parse
