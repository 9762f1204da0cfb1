import CMinus.Proofs.Sound.Expression

/-!
# Sound.Statement: a statement that is read is derived

The statements of a list are read one by one, and so are their derivations put together.
-/

namespace CMinus.Parse

open Grammar

variable {α β δ : Type}

/-! ## 1. Repetition -/

/-- When every item read has a derivation, so have the items of a repetition, one behind the
    other. -/
theorem repeatWhile_sound {more : List Lexeme → Bool} {item : Production α} {good : δ → Prop}
    {tokens : δ → List Token} {value : δ → β} {f : α → β}
    (hi : ∀ ts a rest, item ts = .ok (a, rest) →
      ∃ d, good d ∧ value d = f a ∧ tokensOf ts = tokens d ++ tokensOf rest)
    {ts rest : List Lexeme} {as : List α} (h : repeatWhile more item ts = .ok (as, rest)) :
    ∃ ds : List δ, (∀ d ∈ ds, good d) ∧ ds.map value = as.map f ∧
      tokensOf ts = ds.flatMap tokens ++ tokensOf rest := by
  induction ts using repeatWhile.induct more generalizing as rest with
  | case1 ts hm ih =>
    rw [repeatWhile, if_pos hm] at h
    obtain ⟨a, mid, ha, h⟩ := bind_eq_ok.mp h
    obtain ⟨d, hd, hvalue, htokens⟩ := hi ts a mid ha
    simp only [] at h
    split at h
    · rename_i hlt
      obtain ⟨as', mid', has, h⟩ := bind_eq_ok.mp h
      cases h
      obtain ⟨ds, hds, hvalues, htokens'⟩ := ih mid hlt has
      refine ⟨d :: ds, List.forall_mem_cons.mpr ⟨hd, hds⟩, ?_, ?_⟩
      · rw [List.map_cons, List.map_cons, hvalue, hvalues]
      · rw [htokens, htokens', List.flatMap_cons, List.append_assoc]
    · cases h
      refine ⟨[d], List.forall_mem_singleton.mpr hd, ?_, ?_⟩
      · rw [List.map_singleton, List.map_singleton, hvalue]
      · rw [htokens, List.flatMap_singleton]
  | case2 ts hm =>
    rw [repeatWhile, if_neg hm] at h
    cases h
    exact ⟨[], List.forall_mem_nil _, rfl, rfl⟩

/-- A repetition whose items make progress ends where no further item starts. -/
theorem repeatWhile_end {more : List Lexeme → Bool} {item : Production α}
    (hi : ∀ ts a rest, item ts = .ok (a, rest) → rest.length < ts.length)
    {ts rest : List Lexeme} {as : List α} (h : repeatWhile more item ts = .ok (as, rest)) :
    more rest = false := by
  induction ts using repeatWhile.induct more generalizing as rest with
  | case1 ts hm ih =>
    rw [repeatWhile, if_pos hm] at h
    obtain ⟨a, mid, ha, h⟩ := bind_eq_ok.mp h
    have hlt := hi ts a mid ha
    simp only [if_pos hlt] at h
    obtain ⟨as', mid', has, h⟩ := bind_eq_ok.mp h
    cases h
    exact ih mid hlt has
  | case2 ts hm =>
    rw [repeatWhile, if_neg hm] at h
    cases h
    exact Bool.eq_false_iff.mpr hm

/-! ## 2. Statements without statements in them -/

/-- The tokens up to the rest have a derivation of the statement, within the budget. -/
def Said (budget : Nat) (ts : List Lexeme) (s : Statement) (rest : List Lexeme) : Prop :=
  ∃ c : Clause, c.levels ≤ budget ∧ c.tree = s.bare ∧ tokensOf ts = c.tokens ++ tokensOf rest

theorem condition_sound {budget : Nat} {ts rest : List Lexeme} {e : Expression}
    (h : condition budget ts = .ok (e, rest)) :
    ∃ p : Value, p.levels ≤ budget ∧ p.tree = e.bare ∧
      tokensOf ts = inParens p.tokens ++ tokensOf rest := by
  obtain ⟨_, mid, ho, h⟩ := bind_eq_ok.mp h
  obtain ⟨test, mid', ht, h⟩ := bind_eq_ok.mp h
  obtain ⟨_, mid'', hc, h⟩ := bind_eq_ok.mp h
  cases h
  obtain ⟨p, hlevels, htree, htokens⟩ := expression_sound ht
  refine ⟨p, hlevels, htree, ?_⟩
  rw [sign_sound ho, htokens, sign_sound hc, inParens, List.cons_append, List.append_assoc]
  rfl

theorem written_sound {budget : Nat} {ts rest : List Lexeme} {e : Expression}
    (h : written budget ts = .ok (e, rest)) :
    (∃ text, e.bare = .string text 0 ∧ tokensOf ts = .string text :: tokensOf rest) ∨
      Derived (.chain .logical) budget ts e rest := by
  unfold written at h
  split at h
  · rename_i text line rest'
    cases h
    exact .inl ⟨text, rfl, rfl⟩
  · exact .inr (expression_sound h)

section Kinds

variable {budget line : Nat} {ts rest : List Lexeme} {s : Statement}

theorem assign_sound {name : String}
    (h : statement (budget + 1) (⟨.ident name, line⟩ :: ts) = .ok (s, rest)) :
    Said (budget + 1) (⟨.ident name, line⟩ :: ts) s rest := by
  obtain ⟨target, ts₁, ht, h⟩ := bind_eq_ok.mp h
  obtain ⟨_, ts₂, ha, h⟩ := bind_eq_ok.mp h
  obtain ⟨value, ts₃, hv, h⟩ := bind_eq_ok.mp h
  obtain ⟨_, ts₄, hs, h⟩ := bind_eq_ok.mp h
  cases h
  obtain ⟨p, hp, hptarget, hptokens⟩ := subscript_sound ht
  obtain ⟨q, hq, hqtree, hqtokens⟩ := expression_sound hv
  refine ⟨.assign p q, ?_, ?_, ?_⟩
  · rw [Clause.levels]
    omega
  · rw [Clause.tree, hptarget, hqtree, Statement.bare]
  · rw [tokensOf_cons, hptokens, sign_sound ha, hqtokens, sign_sound hs, Clause.tokens]
    simp only [List.append_assoc, List.cons_append, List.nil_append]

theorem read_sound
    (h : statement (budget + 1) (⟨.keyword .readKw, line⟩ :: ts) = .ok (s, rest)) :
    Said (budget + 1) (⟨.keyword .readKw, line⟩ :: ts) s rest := by
  obtain ⟨_, ts₁, ho, h⟩ := bind_eq_ok.mp h
  obtain ⟨target, ts₂, ht, h⟩ := bind_eq_ok.mp h
  obtain ⟨_, ts₃, hc, h⟩ := bind_eq_ok.mp h
  obtain ⟨_, ts₄, hs, h⟩ := bind_eq_ok.mp h
  cases h
  obtain ⟨p, hp, hptarget, hptokens⟩ := place_sound ht
  refine ⟨.read p, Nat.succ_le_succ hp, ?_, ?_⟩
  · rw [Clause.tree, hptarget, Statement.bare]
  · rw [tokensOf_cons, sign_sound ho, hptokens, sign_sound hc, sign_sound hs, Clause.tokens,
      inParens]
    simp only [List.append_assoc, List.cons_append, List.nil_append]

theorem write_sound
    (h : statement (budget + 1) (⟨.keyword .writeKw, line⟩ :: ts) = .ok (s, rest)) :
    Said (budget + 1) (⟨.keyword .writeKw, line⟩ :: ts) s rest := by
  obtain ⟨_, ts₁, ho, h⟩ := bind_eq_ok.mp h
  obtain ⟨value, ts₂, hv, h⟩ := bind_eq_ok.mp h
  obtain ⟨_, ts₃, hc, h⟩ := bind_eq_ok.mp h
  obtain ⟨_, ts₄, hs, h⟩ := bind_eq_ok.mp h
  cases h
  rcases written_sound hv with ⟨text, htree, htokens⟩ | ⟨p, hp, hptree, hptokens⟩
  · refine ⟨.writeText text, Nat.succ_le_succ (Nat.zero_le _), ?_, ?_⟩
    · rw [Clause.tree, Statement.bare, htree]
    · rw [tokensOf_cons, sign_sound ho, htokens, sign_sound hc, sign_sound hs]
      rfl
  · refine ⟨.write p, Nat.succ_le_succ hp, ?_, ?_⟩
    · rw [Clause.tree, hptree, Statement.bare]
    · rw [tokensOf_cons, sign_sound ho, hptokens, sign_sound hc, sign_sound hs, Clause.tokens,
        inParens]
      simp only [List.append_assoc, List.cons_append, List.nil_append]

theorem return_sound
    (h : statement (budget + 1) (⟨.keyword .returnKw, line⟩ :: ts) = .ok (s, rest)) :
    Said (budget + 1) (⟨.keyword .returnKw, line⟩ :: ts) s rest := by
  obtain ⟨value, ts₁, hv, h⟩ := bind_eq_ok.mp h
  obtain ⟨_, ts₂, hs, h⟩ := bind_eq_ok.mp h
  cases h
  obtain ⟨p, hp, hptree, hptokens⟩ := expression_sound hv
  refine ⟨.returns p, Nat.succ_le_succ hp, ?_, ?_⟩
  · rw [Clause.tree, hptree, Statement.bare]
  · rw [tokensOf_cons, hptokens, sign_sound hs, Clause.tokens, List.cons_append,
      List.append_assoc]
    rfl

theorem exit_sound
    (h : statement (budget + 1) (⟨.keyword .exitKw, line⟩ :: ts) = .ok (s, rest)) :
    Said (budget + 1) (⟨.keyword .exitKw, line⟩ :: ts) s rest := by
  obtain ⟨_, ts₁, hs, h⟩ := bind_eq_ok.mp h
  cases h
  refine ⟨.exit, Nat.succ_le_succ (Nat.zero_le _), rfl, ?_⟩
  rw [tokensOf_cons, sign_sound hs]
  rfl

/-! ## 3. Statements made of statements -/

section Items

variable (hi : ∀ ts s rest, statement budget ts = .ok (s, rest) → Said budget ts s rest)
include hi

theorem statements_sound {ss : List Statement}
    (h : statements (statement budget) ts = .ok ((s, ss), rest)) :
    ∃ cs : Clauses, cs.levels ≤ budget ∧ cs.trees = Statement.bareList (s :: ss) ∧
      tokensOf ts = cs.tokens ++ tokensOf rest := by
  obtain ⟨first, mid, hf, h⟩ := bind_eq_ok.mp h
  obtain ⟨others, mid', ho, h⟩ := bind_eq_ok.mp h
  cases h
  obtain ⟨c, hlevels, htree, htokens⟩ := hi _ _ _ hf
  obtain ⟨cs, hcs, htrees, htokens'⟩ := repeatWhile_sound hi ho
  refine ⟨.ofList c cs, Clauses.levels_ofList_le hlevels hcs, ?_, ?_⟩
  · rw [Clauses.trees_ofList, htree, htrees, Statement.bareList, Statement.bareList_eq_map]
  · rw [Clauses.tokens_ofList, htokens, htokens', List.append_assoc]

theorem braces_sound {b : Block Statement}
    (h : braces (statement budget) ts = .ok (b, rest)) :
    ∃ cs : Clauses, cs.levels ≤ budget ∧ ⟨cs.trees, 0⟩ = Statement.bareBlock b ∧
      tokensOf ts = inBraces cs.tokens ++ tokensOf rest := by
  obtain ⟨line, mid, ho, h⟩ := bind_eq_ok.mp h
  obtain ⟨⟨first, others⟩, mid', hs, h⟩ := bind_eq_ok.mp h
  obtain ⟨_, mid'', hc, h⟩ := bind_eq_ok.mp h
  cases h
  obtain ⟨cs, hlevels, htrees, htokens⟩ := statements_sound hi hs
  refine ⟨cs, hlevels, ?_, ?_⟩
  · rw [htrees, Statement.bareBlock]
  · rw [sign_sound ho, htokens, sign_sound hc, inBraces, List.cons_append, List.append_assoc]
    rfl

theorem if_sound
    (h : statement (budget + 1) (⟨.keyword .ifKw, line⟩ :: ts) = .ok (s, rest)) :
    Said (budget + 1) (⟨.keyword .ifKw, line⟩ :: ts) s rest := by
  obtain ⟨test, ts₁, ht, h⟩ := bind_eq_ok.mp h
  obtain ⟨body, ts₂, hb, h⟩ := bind_eq_ok.mp h
  obtain ⟨p, hp, hptree, hptokens⟩ := condition_sound ht
  obtain ⟨cs, hcs, hctrees, hctokens⟩ := braces_sound hi hb
  simp only [] at h
  split at h
  · -- the keyword `else` and a second block
    rename_i line' ts₃
    obtain ⟨other, ts₄, ho, h⟩ := bind_eq_ok.mp h
    cases h
    obtain ⟨ds, hds, hdtrees, hdtokens⟩ := braces_sound hi ho
    refine ⟨.ifElse p cs ds, ?_, ?_, ?_⟩
    · rw [Clause.levels]
      omega
    · rw [Clause.tree, hptree, hctrees, hdtrees, Statement.bare]
    · rw [tokensOf_cons, hptokens, hctokens, tokensOf_cons, hdtokens, Clause.tokens]
      simp only [List.append_assoc, List.cons_append]
  · cases h
    refine ⟨.ifThen p cs, ?_, ?_, ?_⟩
    · rw [Clause.levels]
      omega
    · rw [Clause.tree, hptree, hctrees, Statement.bare]
    · rw [tokensOf_cons, hptokens, hctokens, Clause.tokens, List.cons_append, List.append_assoc]

theorem while_sound
    (h : statement (budget + 1) (⟨.keyword .whileKw, line⟩ :: ts) = .ok (s, rest)) :
    Said (budget + 1) (⟨.keyword .whileKw, line⟩ :: ts) s rest := by
  obtain ⟨test, ts₁, ht, h⟩ := bind_eq_ok.mp h
  obtain ⟨body, ts₂, hb, h⟩ := bind_eq_ok.mp h
  cases h
  obtain ⟨p, hp, hptree, hptokens⟩ := condition_sound ht
  obtain ⟨c, hc, hctree, hctokens⟩ := hi _ _ _ hb
  refine ⟨.whileDo p c, ?_, ?_, ?_⟩
  · rw [Clause.levels]
    omega
  · rw [Clause.tree, hptree, hctree, Statement.bare]
  · rw [tokensOf_cons, hptokens, hctokens, Clause.tokens, List.cons_append, List.append_assoc]

theorem compound_sound
    (h : statement (budget + 1) (⟨.symbol .lbrace, line⟩ :: ts) = .ok (s, rest)) :
    Said (budget + 1) (⟨.symbol .lbrace, line⟩ :: ts) s rest := by
  obtain ⟨body, ts₁, hb, h⟩ := bind_eq_ok.mp h
  cases h
  obtain ⟨cs, hcs, hctrees, hctokens⟩ := braces_sound hi hb
  refine ⟨.compound cs, Nat.succ_le_succ hcs, ?_, hctokens⟩
  rw [Clause.tree, hctrees, Statement.bare]

end Items

end Kinds

/-- **Every statement that is read is derived.** -/
theorem statement_sound (budget : Nat) : ∀ ts s rest, statement budget ts = .ok (s, rest) →
    Said budget ts s rest := by
  induction budget with
  | zero =>
    intro ts s rest h
    cases h
  | succ budget ih =>
    intro ts s rest h
    rcases ts with _ | ⟨⟨t, line⟩, ts⟩
    · cases h
    · cases t with
      | ident name => exact assign_sound h
      | keyword word =>
        cases word with
        | ifKw => exact if_sound ih h
        | whileKw => exact while_sound ih h
        | readKw => exact read_sound h
        | writeKw => exact write_sound h
        | returnKw => exact return_sound h
        | exitKw => exact exit_sound h
        | elseKw | floatKw | intKw => cases h
      | symbol s =>
        cases s with
        | lbrace => exact compound_sound ih h
        | _ => cases h
      | int | float | string | eof => cases h

theorem statement_length_lt {budget : Nat} {ts rest : List Lexeme} {s : Statement}
    (h : statement budget ts = .ok (s, rest)) : rest.length < ts.length := by
  obtain ⟨c, _, _, htokens⟩ := statement_sound budget ts s rest h
  have hlength := congrArg List.length htokens
  have hpos := List.length_pos_iff.mpr c.tokens_ne_nil
  rw [List.length_append, length_tokensOf, length_tokensOf] at hlength
  omega

end CMinus.Parse
