import CMinus.Proofs.Reading

/-!
# Lookahead: reading looks no further than the token it stops at

A production leaves an end of the tokens it was given: those behind what it read, or those from the
offending one on. What it does is decided by the tokens in front of that end and by the first token
of it. So whatever stands further behind may be replaced (`graft`), and the production still does
the same (`Local`).
-/

namespace CMinus.Parse

variable {α β : Type}

/-! ## 1. Other tokens behind -/

/-- The tokens with the last `n` of them replaced. -/
def graft (n : Nat) (tail ts : List Lexeme) : List Lexeme :=
  ts.take (ts.length - n) ++ tail

/-- The tokens that a result leaves. -/
def leftOf : Except Failure (Read α) → List Lexeme
  | .ok (_, rest) => rest
  | .error failure => failure.rest

/-- The result with the last `n` of the tokens it leaves replaced. -/
def graftRead (n : Nat) (tail : List Lexeme) :
    Except Failure (Read α) → Except Failure (Read α)
  | .ok (a, rest) => .ok (a, graft n tail rest)
  | .error ⟨cause, rest⟩ => .error ⟨cause, graft n tail rest⟩

/-- What follows leaves no more than what it starts from. -/
theorem leftOf_bind_suffix (x : Except Failure (Read α)) {k : Read α → Except Failure (Read β)}
    (hs : ∀ a rest, leftOf (k (a, rest)) <:+ rest) : leftOf (x >>= k) <:+ leftOf x := by
  cases x with
  | error failure => exact List.suffix_rfl
  | ok read => exact hs read.1 read.2

section Graft

variable {n : Nat} {tail ts : List Lexeme}

theorem graft_cons (h : n ≤ ts.length) (l : Lexeme) :
    graft n tail (l :: ts) = l :: graft n tail ts := by
  rw [graft, graft, List.length_cons, Nat.succ_sub h, List.take_succ_cons, List.cons_append]

theorem graft_append (pre behind tail : List Lexeme) :
    graft behind.length tail (pre ++ behind) = pre ++ tail := by
  rw [graft, List.length_append, Nat.add_sub_cancel, List.take_left]

theorem length_graft : (graft n tail ts).length = ts.length - n + tail.length := by
  rw [graft, List.length_append, List.length_take, Nat.min_eq_left (Nat.sub_le _ _)]

theorem startsWith_graft (p : Token → Bool) (h : n < ts.length) :
    startsWith p (graft n tail ts) = startsWith p ts := by
  cases ts with
  | nil => cases h
  | cons l rest =>
    rw [graft_cons (Nat.le_of_lt_succ h)]
    rfl

theorem isEmpty_graft (h : n < ts.length) : (graft n tail ts).isEmpty = ts.isEmpty := by
  cases ts with
  | nil => cases h
  | cons l rest =>
    rw [graft_cons (Nat.le_of_lt_succ h)]
    rfl

end Graft

/-! ## 2. Results that keep to the tokens in front -/

/-- `r` is what comes of the tokens `ts`, and `r'` what comes of them with the last `n` replaced.
    `r` leaves an end of `ts`; and when that is more than what was replaced, `r'` is `r`, with the
    same tokens replaced in what it leaves. -/
def Keeps (n : Nat) (tail ts : List Lexeme) (r r' : Except Failure (Read α)) : Prop :=
  leftOf r <:+ ts ∧ (n < (leftOf r).length → r' = graftRead n tail r)

/-- The production looks no further than the token it stops at. -/
def Local (p : Production α) : Prop :=
  ∀ n tail ts, Keeps n tail ts (p ts) (p (graft n tail ts))

namespace Keeps

variable {n : Nat} {tail ts rest : List Lexeme}

/-- What is decided by tokens that were not replaced may be decided first. -/
theorem behind {r r' r'' : Except Failure (Read α)} (hs : rest <:+ ts)
    (h : Keeps n tail rest r r') (e : n < rest.length → r'' = r') : Keeps n tail ts r r'' := by
  refine ⟨h.1.trans hs, fun hn => ?_⟩
  rw [e (Nat.lt_of_lt_of_le hn h.1.length_le), h.2 hn]

/-- The decision is taken at the first token, which stays. -/
theorem here {r r' r'' : Except Failure (Read α)} (h : Keeps n tail ts r r')
    (e : n < ts.length → r'' = r') : Keeps n tail ts r r'' :=
  h.behind List.suffix_rfl e

theorem cons {r r' r'' : Except Failure (Read α)} {l : Lexeme} (h : Keeps n tail ts r r')
    (e : n < ts.length → r'' = r') : Keeps n tail (l :: ts) r r'' :=
  h.behind (List.suffix_cons l ts) e

theorem ok (a : α) : Keeps n tail ts (.ok (a, ts)) (.ok (a, graft n tail ts)) :=
  ⟨List.suffix_rfl, fun _ => rfl⟩

theorem error (cause : Cause) :
    Keeps (α := α) n tail ts (.error ⟨cause, ts⟩) (.error ⟨cause, graft n tail ts⟩) :=
  ⟨List.suffix_rfl, fun _ => rfl⟩

/-- One production after the other; what follows may differ with the tokens that are left. -/
theorem bindWith {x x' : Except Failure (Read α)} {k k' : Read α → Except Failure (Read β)}
    (h : Keeps n tail ts x x')
    (hk : ∀ a rest, Keeps n tail rest (k (a, rest)) (k' (a, graft n tail rest))) :
    Keeps n tail ts (x >>= k) (x' >>= k') := by
  cases x with
  | error failure =>
    refine ⟨h.1, fun hn => ?_⟩
    rw [h.2 hn]
    rfl
  | ok read =>
    obtain ⟨hs, hsame⟩ := hk read.1 read.2
    refine ⟨hs.trans h.1, fun hn => ?_⟩
    rw [h.2 (Nat.lt_of_lt_of_le hn hs.length_le)]
    exact hsame hn

/-- What follows is decided only when the first production leaves enough. -/
theorem bindWhen {x x' : Except Failure (Read α)} {k : Read α → Except Failure (Read β)}
    {r : Except Failure (Read β)} (h : Keeps n tail ts x x')
    (hs : ∀ a rest, leftOf (k (a, rest)) <:+ rest)
    (e : n < (leftOf x).length → ∃ k', r = x' >>= k' ∧
      ∀ a rest, Keeps n tail rest (k (a, rest)) (k' (a, graft n tail rest))) :
    Keeps n tail ts (x >>= k) r := by
  have hleft := leftOf_bind_suffix x hs
  refine ⟨hleft.trans h.1, fun hn => ?_⟩
  obtain ⟨k', rfl, hk⟩ := e (Nat.lt_of_lt_of_le hn hleft.length_le)
  exact (h.bindWith hk).2 hn

/-- One production after the other. -/
theorem bind {x x' : Except Failure (Read α)} {k : Read α → Except Failure (Read β)}
    (h : Keeps n tail ts x x')
    (hk : ∀ a rest, Keeps n tail rest (k (a, rest)) (k (a, graft n tail rest))) :
    Keeps n tail ts (x >>= k) (x' >>= k) :=
  h.bindWith hk

end Keeps

/-! ## 3. Single tokens and repetition -/

/-- A production that takes one token, or stops in front of it. -/
theorem Local.of_first {p : Production α} (hnil : ∃ c, p [] = .error ⟨c, []⟩)
    (hcons : ∀ l, (∃ a, ∀ rest, p (l :: rest) = .ok (a, rest)) ∨
      ∃ c, ∀ rest, p (l :: rest) = .error ⟨c, l :: rest⟩) : Local p := by
  intro n tail ts
  cases ts with
  | nil =>
    obtain ⟨c, hc⟩ := hnil
    rw [hc]
    exact (Keeps.error c).here fun hn => absurd hn (Nat.not_lt_zero n)
  | cons l rest =>
    rcases hcons l with ⟨a, ha⟩ | ⟨c, hc⟩
    · rw [ha]
      refine (Keeps.ok a).cons fun hn => ?_
      rw [graft_cons (Nat.le_of_lt hn), ha]
    · rw [hc]
      refine (Keeps.error c).here fun hn => ?_
      rw [graft_cons (Nat.le_of_lt_succ hn), hc]

theorem sign_local (s : Symbol) : Local (sign s) := by
  refine Local.of_first ⟨_, rfl⟩ ?_
  rintro ⟨t, line⟩
  cases t with
  | symbol u =>
    by_cases hu : u = s
    · exact .inl ⟨line, fun rest => by rw [sign, if_pos hu]⟩
    · exact .inr ⟨_, fun rest => by rw [sign, if_neg hu]; rfl⟩
  | _ => exact .inr ⟨_, fun rest => rfl⟩

theorem identifier_local : Local identifier := by
  refine Local.of_first ⟨_, rfl⟩ ?_
  rintro ⟨t, line⟩
  cases t with
  | ident name => exact .inl ⟨(name, line), fun rest => rfl⟩
  | _ => exact .inr ⟨_, fun rest => rfl⟩

theorem valueType_local : Local valueType := by
  refine Local.of_first ⟨_, rfl⟩ ?_
  rintro ⟨t, line⟩
  cases t with
  | keyword word =>
    cases word with
    | intKw | floatKw => exact .inl ⟨_, fun rest => rfl⟩
    | _ => exact .inr ⟨_, fun rest => rfl⟩
  | _ => exact .inr ⟨_, fun rest => rfl⟩

theorem arraySize_local : Local arraySize := by
  refine Local.of_first ⟨_, rfl⟩ ?_
  rintro ⟨t, line⟩
  cases t with
  | int value =>
    by_cases hv : 0 ≤ value
    · exact .inl ⟨_, fun rest => by rw [arraySize, if_pos hv]⟩
    · exact .inr ⟨_, fun rest => by rw [arraySize, if_neg hv]; rfl⟩
  | _ => exact .inr ⟨_, fun rest => rfl⟩

theorem repeatWhile_bind {more : List Lexeme → Bool} {item : Production α} {ts : List Lexeme}
    (h : more ts = true) (k : Read (List α) → Except Failure (Read β)) :
    repeatWhile more item ts >>= k = item ts >>= fun (first, rest) =>
      if rest.length < ts.length then
        repeatWhile more item rest >>= fun (others, rest) => k (first :: others, rest)
      else k ([first], rest) := by
  rw [repeatWhile, if_pos h, bind_assoc]
  congr
  funext ⟨first, rest⟩
  simp only []
  split
  · rw [bind_assoc]
    rfl
  · rfl

/-- Items in a row, and what is read behind them. The decision for one more item may rest on all
    tokens that the item sees, and the one against it on all that is seen behind the items. -/
theorem repeatWhile_bind_keeps {n : Nat} {tail : List Lexeme} {more : List Lexeme → Bool}
    {item : Production α} (hi : Local item)
    (hmore : ∀ ts, more ts = true → n < (leftOf (item ts)).length →
      more (graft n tail ts) = true)
    (ts : List Lexeme) {k : Read (List α) → Except Failure (Read β)}
    (hk : ∀ as rest, Keeps n tail rest (k (as, rest)) (k (as, graft n tail rest)))
    (hend : ∀ as rest, more rest = false → n < (leftOf (k (as, rest))).length →
      more (graft n tail rest) = false) :
    Keeps n tail ts (repeatWhile more item ts >>= k)
      (repeatWhile more item (graft n tail ts) >>= k) := by
  induction ts using repeatWhile.induct more generalizing k with
  | case1 ts h ih =>
    have hnext : ∀ first rest, rest.length < ts.length →
        Keeps n tail rest
          (repeatWhile more item rest >>= fun (others, rest) => k (first :: others, rest))
          (repeatWhile more item (graft n tail rest) >>= fun (others, rest) =>
            k (first :: others, rest)) :=
      fun first rest hlt =>
        ih rest hlt (fun others rest => hk (first :: others) rest)
          fun others rest => hend (first :: others) rest
    rw [repeatWhile_bind h]
    refine (hi n tail ts).bindWhen (fun first rest => ?_)
      fun hn => ⟨_, repeatWhile_bind (hmore ts h hn) k, fun first rest => ?_⟩
    · simp only []
      split
      · rename_i hlt
        exact (hnext first rest hlt).1
      · exact (hk [first] rest).1
    · simp only []
      split
      · rename_i hlt
        refine (hnext first rest hlt).here fun hn => ?_
        rw [if_pos (by rw [length_graft, length_graft]; omega)]
      · rename_i hlt
        refine (hk [first] rest).here fun hn => ?_
        rw [if_neg (by rw [length_graft, length_graft]; omega)]
  | case2 ts h =>
    have hts : more ts = false := eq_false_of_ne_true h
    have hstop : ∀ us, more us = false → repeatWhile more item us >>= k = k ([], us) := by
      intro us hus
      rw [repeatWhile, if_neg (by rw [hus]; decide), ok_bind]
    rw [hstop ts hts]
    refine ⟨(hk [] ts).1, fun hn => ?_⟩
    rw [hstop _ (hend [] ts hts hn), (hk [] ts).2 hn]

theorem repeatWhile_local {more : List Lexeme → Bool} {item : Production α}
    (hm : ∀ n tail ts, n < ts.length → more (graft n tail ts) = more ts) (hi : Local item) :
    Local (repeatWhile more item) := by
  intro n tail ts
  rw [← bind_pure (repeatWhile more item ts), ← bind_pure (repeatWhile more item (graft n tail ts))]
  refine repeatWhile_bind_keeps hi (fun us hus hn => ?_) ts (fun as rest => .ok as)
    fun as rest hrest hn => ?_
  · rw [hm n tail us (Nat.lt_of_lt_of_le hn (hi n tail us).1.length_le), hus]
  · rw [hm n tail rest hn, hrest]

theorem repeatWhile_startsWith_local (p : Token → Bool) {item : Production α}
    (hi : Local item) : Local (repeatWhile (startsWith p) item) :=
  repeatWhile_local (fun _ _ _ hn => startsWith_graft p hn) hi

/-! ## 4. Expressions -/

section Expressions

variable {n : Nat} {tail : List Lexeme}

theorem chainRest_keeps {tier : Tier} {budget : Nat} {left : Expression} {ts : List Lexeme}
    (h : startsWith (fun t => (tier.operator? t).isSome) ts = false) :
    Keeps n tail ts (chainRest tier budget left ts)
      (chainRest tier budget left (graft n tail ts)) := by
  rw [chainRest_stop h]
  refine (Keeps.ok left).here fun hn => ?_
  rw [chainRest_stop (by rw [startsWith_graft _ hn, h])]

/-- All six productions at once, along the calls they make. -/
theorem expression_family_keeps (n : Nat) (tail : List Lexeme) :
    (∀ budget ts, Keeps n tail ts (expression budget ts) (expression budget (graft n tail ts))) ∧
    (∀ tier budget left ts, Keeps n tail ts (chainRest tier budget left ts)
      (chainRest tier budget left (graft n tail ts))) ∧
    (∀ tier budget ts,
      Keeps n tail ts (operand tier budget ts) (operand tier budget (graft n tail ts))) ∧
    (∀ budget ts, Keeps n tail ts (factor budget ts) (factor budget (graft n tail ts))) ∧
    (∀ budget name line ts, Keeps n tail ts (subscript budget name line ts)
      (subscript budget name line (graft n tail ts))) ∧
    (∀ tier budget ts,
      Keeps n tail ts (chain tier budget ts) (chain tier budget (graft n tail ts))) := by
  apply expression.mutual_induct
    (fun budget ts =>
      Keeps n tail ts (expression budget ts) (expression budget (graft n tail ts)))
    (fun tier budget left ts => Keeps n tail ts (chainRest tier budget left ts)
      (chainRest tier budget left (graft n tail ts)))
    (fun tier budget ts =>
      Keeps n tail ts (operand tier budget ts) (operand tier budget (graft n tail ts)))
    (fun budget ts => Keeps n tail ts (factor budget ts) (factor budget (graft n tail ts)))
    (fun budget name line ts => Keeps n tail ts (subscript budget name line ts)
      (subscript budget name line (graft n tail ts)))
    (fun tier budget ts =>
      Keeps n tail ts (chain tier budget ts) (chain tier budget (graft n tail ts)))
  case case1 => -- a negation without a level for it
    intro line rest
    simp only [expression]
    refine (Keeps.error _).here fun hn => ?_
    simp only [graft_cons (Nat.le_of_lt_succ hn), expression]
    rfl
  case case2 => -- a negation
    intro line rest less ihOperand ihRest
    simp only [expression]
    refine (ihOperand.bind ihRest).cons fun hn => ?_
    simp only [graft_cons (Nat.le_of_lt hn), expression]
  case case3 => -- no negation
    intro budget ts hts ih
    have h := startsWith_eq_false hts
    rw [expression_eq_chain h]
    refine ih.here fun hn => ?_
    rw [expression_eq_chain (by rw [startsWith_graft _ hn, h])]
  case case4 => -- the end of the tokens behind a chain
    intro tier budget left
    exact chainRest_keeps rfl
  case case5 => -- no operator of the tier behind a chain
    intro tier budget left l rest h
    exact chainRest_keeps
      (Option.isSome_eq_false_iff.mpr (Option.isNone_iff_eq_none.mpr h))
  case case6 => -- an operator without a level for it
    intro tier left l rest op h
    simp only [chainRest, h]
    refine (Keeps.error _).here fun hn => ?_
    simp only [graft_cons (Nat.le_of_lt_succ hn), chainRest, h]
    rfl
  case case7 => -- an operator
    intro tier left l rest op h less ihOperand ihRest
    simp only [chainRest, h]
    refine (ihOperand.bind ihRest).cons fun hn => ?_
    simp only [graft_cons (Nat.le_of_lt hn), chainRest, h]
  case case8 => -- an operand of a tier above the tightest one
    intro tier budget ts tighter h ih
    rw [operand_tighter h, operand_tighter h]
    exact ih
  case case9 => -- an operand of the tightest tier
    intro tier budget ts h ih
    rw [operand_factor h, operand_factor h]
    exact ih
  case case10 => -- a call
    intro budget name line line' rest
    simp only [factor]
    have hs : rest <:+ ⟨.ident name, line⟩ :: ⟨.symbol .lparen, line'⟩ :: rest :=
      List.suffix_append [_, _] rest
    refine ((sign_local .rparen n tail rest).bind fun _ rest => ?_).behind hs fun hn => ?_
    · exact .ok (Expression.call name line)
    · rw [graft_cons (Nat.le_succ_of_le (Nat.le_of_lt hn)), graft_cons (Nat.le_of_lt hn)]
      simp only [factor]
  case case11 => -- a variable
    intro budget name line rest hrest ih
    have h := startsWith_eq_false hrest
    rw [factor_ident h]
    refine (ih.bind fun place rest => ?_).cons fun hn => ?_
    · exact .ok _
    · rw [graft_cons (Nat.le_of_lt hn), factor_ident (by rw [startsWith_graft _ hn, h])]
  case case12 => -- a whole number
    intro budget value line rest
    simp only [factor]
    refine (Keeps.ok _).cons fun hn => ?_
    simp only [graft_cons (Nat.le_of_lt hn), factor]
  case case13 => -- a fraction
    intro budget value line rest
    simp only [factor]
    refine (Keeps.ok _).cons fun hn => ?_
    simp only [graft_cons (Nat.le_of_lt hn), factor]
  case case14 => -- a parenthesis without a level for it
    intro line rest
    simp only [factor]
    refine (Keeps.error _).here fun hn => ?_
    simp only [graft_cons (Nat.le_of_lt_succ hn), factor]
    rfl
  case case15 => -- an expression in parentheses
    intro line rest less ih
    simp only [factor]
    refine (ih.bind fun inner rest => ?_).cons fun hn => ?_
    · exact (sign_local .rparen n tail rest).bind fun _ _ => .ok inner
    · simp only [graft_cons (Nat.le_of_lt hn), factor]
  case case16 => -- no factor
    intro budget ts _ hIdent hInt hFloat hParen
    have h := startsFactor_eq_false hIdent hInt hFloat hParen
    rw [factor_fail h]
    refine (Keeps.error _).here fun hn => ?_
    rw [factor_fail (by rw [startsWith_graft _ hn, h])]
    rfl
  case case17 => -- a bracket without a level for it
    intro name line line' rest
    simp only [subscript]
    refine (Keeps.error _).here fun hn => ?_
    simp only [graft_cons (Nat.le_of_lt_succ hn), subscript]
    rfl
  case case18 => -- an index
    intro name line line' rest less ih
    simp only [subscript]
    refine (ih.bind fun index rest => ?_).cons fun hn => ?_
    · exact (sign_local .rbracket n tail rest).bind fun _ _ =>
        .ok (Variable.mk name (some index) line)
    · simp only [graft_cons (Nat.le_of_lt hn), subscript]
  case case19 => -- no index
    intro budget name line ts hts
    have h := startsWith_eq_false hts
    rw [subscript_scalar h]
    refine (Keeps.ok _).here fun hn => ?_
    rw [subscript_scalar (by rw [startsWith_graft _ hn, h])]
  case case20 => -- a chain
    intro tier budget ts ihOperand ihRest
    rw [chain, chain]
    exact ihOperand.bind ihRest

end Expressions

theorem expression_local (budget : Nat) : Local (expression budget) :=
  fun n tail => (expression_family_keeps n tail).1 budget

theorem subscript_local (budget : Nat) (name : String) (line : Nat) :
    Local (subscript budget name line) :=
  fun n tail => (expression_family_keeps n tail).2.2.2.2.1 budget name line

theorem place_local (budget : Nat) : Local (place budget) := fun n tail ts =>
  (identifier_local n tail ts).bind fun (name, line) rest =>
    subscript_local budget name line n tail rest

/-! ## 5. Statements -/

theorem condition_local (budget : Nat) : Local (condition budget) := by
  intro n tail ts
  refine (sign_local _ n tail ts).bind fun _ rest => ?_
  refine (expression_local budget n tail rest).bind fun test rest => ?_
  exact (sign_local _ n tail rest).bind fun _ _ => .ok test

/-- What does not start with a string is written as an expression. -/
theorem written_eq_expression {budget : Nat} {ts : List Lexeme}
    (h : ∀ text line rest, ts ≠ ⟨.string text, line⟩ :: rest) :
    written budget ts = expression budget ts := by
  rw [written]
  exact h

theorem written_local (budget : Nat) : Local (written budget) := by
  intro n tail ts
  have hexpression : (∀ text line rest, ts ≠ ⟨.string text, line⟩ :: rest) →
      Keeps n tail ts (written budget ts) (written budget (graft n tail ts)) := by
    intro h
    rw [written_eq_expression h]
    refine (expression_local budget n tail ts).here fun hn => written_eq_expression ?_
    rintro text line rest e
    rcases ts with _ | ⟨l, rest'⟩
    · cases hn
    · rw [graft_cons (Nat.le_of_lt_succ hn)] at e
      injection e with hl
      exact h text line rest' (by rw [hl])
  rcases ts with _ | ⟨⟨t, line⟩, rest⟩
  · exact hexpression fun _ _ _ e => by cases e
  · cases t with
    | string text =>
      refine (Keeps.ok (Expression.string text line)).cons fun hn => ?_
      rw [graft_cons (Nat.le_of_lt hn)]
      rfl
    | _ => exact hexpression fun _ _ _ e => by cases e

section Items

variable {item : Production Statement} (hi : Local item)
include hi

theorem statements_local : Local (statements item) := by
  intro n tail ts
  refine (hi n tail ts).bind fun first rest => ?_
  exact (repeatWhile_startsWith_local _ hi n tail rest).bind fun others rest => .ok (first, others)

theorem braces_local : Local (braces item) := by
  intro n tail ts
  refine (sign_local _ n tail ts).bind fun line rest => ?_
  refine (statements_local hi n tail rest).bind fun (first, others) rest => ?_
  exact (sign_local _ n tail rest).bind fun _ _ => .ok (Block.mk (first :: others) line)

end Items

/-- A token that opens no statement ends reading where it stands. -/
theorem statement_fail_keeps {n budget : Nat} {tail rest : List Lexeme} {l : Lexeme}
    (h : ∀ rest, statement (budget + 1) (l :: rest) = fail .statement (l :: rest)) :
    Keeps n tail (l :: rest) (statement (budget + 1) (l :: rest))
      (statement (budget + 1) (graft n tail (l :: rest))) := by
  rw [h]
  refine (Keeps.error _).here fun hn => ?_
  rw [graft_cons (Nat.le_of_lt_succ hn), h]
  rfl

/-- Whether a second block follows is seen from the next token alone. -/
theorem elseBlock_keeps {n : Nat} {tail : List Lexeme} {item : Production Statement}
    (hi : Local item) (test : Expression) (body : Block Statement) (line : Nat)
    (ts : List Lexeme) :
    Keeps n tail ts
      (match ts with
        | ⟨.keyword .elseKw, _⟩ :: rest => do
          let (other, rest) ← braces item rest
          .ok (Statement.ifElse test body other line, rest)
        | rest => .ok (.ifThen test body line, rest))
      (match graft n tail ts with
        | ⟨.keyword .elseKw, _⟩ :: rest => do
          let (other, rest) ← braces item rest
          .ok (Statement.ifElse test body other line, rest)
        | rest => .ok (.ifThen test body line, rest)) := by
  split
  · rename_i rest
    refine ((braces_local hi n tail rest).bind fun other rest => ?_).cons fun hn => ?_
    · exact .ok (Statement.ifElse test body other line)
    · simp only [graft_cons (Nat.le_of_lt hn)]
  · rename_i hne
    refine (Keeps.ok _).here fun hn => ?_
    split
    · rename_i line' rest e
      rcases ts with _ | ⟨l, rest'⟩
      · cases hn
      · rw [graft_cons (Nat.le_of_lt_succ hn)] at e
        injection e with hl
        exact (hne line' rest' (by rw [hl])).elim
    · rfl

theorem statement_local (budget : Nat) : Local (statement budget) := by
  induction budget with
  | zero => exact fun n tail ts => .error .tooDeep
  | succ budget ih =>
    intro n tail ts
    rcases ts with _ | ⟨⟨t, line⟩, rest⟩
    · exact (Keeps.error _).here fun hn => absurd hn (Nat.not_lt_zero n)
    · cases t with
      | ident name =>
        refine ((subscript_local budget name line n tail rest).bind fun target rest => ?_).cons
          fun hn => by rw [graft_cons (Nat.le_of_lt hn), statement]
        refine (sign_local _ n tail rest).bind fun _ rest => ?_
        refine (expression_local budget n tail rest).bind fun value rest => ?_
        exact (sign_local _ n tail rest).bind fun _ _ => .ok (Statement.assign target value line)
      | keyword word =>
        cases word with
        | ifKw =>
          refine ((condition_local budget n tail rest).bind fun test rest => ?_).cons
            fun hn => by rw [graft_cons (Nat.le_of_lt hn), statement]
          refine (braces_local ih n tail rest).bind fun body rest => ?_
          exact elseBlock_keeps ih test body line rest
        | whileKw =>
          refine ((condition_local budget n tail rest).bind fun test rest => ?_).cons
            fun hn => by rw [graft_cons (Nat.le_of_lt hn), statement]
          exact (ih n tail rest).bind fun body _ => .ok (Statement.whileDo test body line)
        | readKw =>
          refine ((sign_local .lparen n tail rest).bind fun _ rest => ?_).cons
            fun hn => by rw [graft_cons (Nat.le_of_lt hn), statement]
          refine (place_local budget n tail rest).bind fun target rest => ?_
          refine (sign_local _ n tail rest).bind fun _ rest => ?_
          exact (sign_local _ n tail rest).bind fun _ _ => .ok (Statement.read target line)
        | writeKw =>
          refine ((sign_local .lparen n tail rest).bind fun _ rest => ?_).cons
            fun hn => by rw [graft_cons (Nat.le_of_lt hn), statement]
          refine (written_local budget n tail rest).bind fun value rest => ?_
          refine (sign_local _ n tail rest).bind fun _ rest => ?_
          exact (sign_local _ n tail rest).bind fun _ _ => .ok (Statement.write value line)
        | returnKw =>
          refine ((expression_local budget n tail rest).bind fun value rest => ?_).cons
            fun hn => by rw [graft_cons (Nat.le_of_lt hn), statement]
          exact (sign_local _ n tail rest).bind fun _ _ => .ok (Statement.returns value line)
        | exitKw =>
          refine ((sign_local .semicolon n tail rest).bind fun _ rest => ?_).cons
            fun hn => by rw [graft_cons (Nat.le_of_lt hn), statement]
          exact .ok (Statement.exit line)
        | elseKw | floatKw | intKw => exact statement_fail_keeps fun _ => rfl
      | symbol s =>
        cases s with
        | lbrace =>
          refine ((braces_local ih n tail (⟨.symbol .lbrace, line⟩ :: rest)).bind
            fun body rest => ?_).here fun hn => ?_
          · exact .ok (Statement.compound body)
          · rw [graft_cons (Nat.le_of_lt_succ hn), statement]
        | _ => exact statement_fail_keeps fun _ => rfl
      | int | float | string | eof => exact statement_fail_keeps fun _ => rfl

/-! ## 6. Programs -/

theorem dimension_local : Local dimension := by
  intro n tail ts
  by_cases h : startsWith (· = .symbol .lbracket) ts = false
  · rw [dimension_none h]
    refine (Keeps.ok none).here fun hn => ?_
    rw [dimension_none (by rw [startsWith_graft _ hn, h])]
  · rcases ts with _ | ⟨⟨t, line⟩, rest⟩
    · exact absurd rfl h
    · have ht : t = .symbol .lbracket := of_decide_eq_true (eq_true_of_ne_false h)
      subst ht
      refine ((arraySize_local n tail rest).bind fun size rest => ?_).cons fun hn => by
        rw [graft_cons (Nat.le_of_lt hn), dimension]
      exact (sign_local _ n tail rest).bind fun _ _ => .ok (some size)

theorem nextDeclaration_local (type : ValueType) : Local (nextDeclaration type) := by
  intro n tail ts
  refine (sign_local _ n tail ts).bind fun _ rest => ?_
  refine (identifier_local n tail rest).bind fun (name, line) rest => ?_
  exact (dimension_local n tail rest).bind fun size _ => .ok (Declaration.mk name type size line)

theorem group_local : Local group := by
  intro n tail ts
  refine (valueType_local n tail ts).bind fun (type, line) rest => ?_
  refine (identifier_local n tail rest).bind fun (name, _) rest => ?_
  refine (dimension_local n tail rest).bind fun size rest => ?_
  refine (repeatWhile_startsWith_local _ (nextDeclaration_local type) n tail rest).bind
    fun others rest => ?_
  exact (sign_local _ n tail rest).bind fun _ _ =>
    .ok (Declaration.mk name type size line :: others)

theorem declarations_local : Local declarations := by
  intro n tail ts
  exact (repeatWhile_startsWith_local _ group_local n tail ts).bind
    fun groups _ => .ok groups.flatten

theorem procedure_local (budget : Nat) : Local (procedure budget) := by
  intro n tail ts
  refine (valueType_local n tail ts).bind fun (type, line) rest => ?_
  refine (identifier_local n tail rest).bind fun (name, _) rest => ?_
  refine (sign_local _ n tail rest).bind fun _ rest => ?_
  refine (sign_local _ n tail rest).bind fun _ rest => ?_
  refine (declarations_local n tail rest).bind fun before rest => ?_
  refine (sign_local _ n tail rest).bind fun openLine rest => ?_
  refine (declarations_local n tail rest).bind fun behind rest => ?_
  refine (statements_local (statement_local budget) n tail rest).bind fun (first, others) rest => ?_
  exact (sign_local _ n tail rest).bind fun _ _ => .ok (Procedure.mk type name
    (blockOf openLine (before ++ behind)) ⟨first :: others, first.line⟩ line)

/-- When nothing of a row of tokens would be left, more tokens behind it are all that can be
    left. -/
theorem Local.length_leftOf_le {p : Production α} (hp : Local p) {row : List Lexeme}
    (h : leftOf (p row) = []) (ts : List Lexeme) :
    (leftOf (p (row ++ ts))).length ≤ ts.length := by
  refine Nat.le_of_not_lt fun hlt => ?_
  have hrow := (hp ts.length [] (row ++ ts)).2 hlt
  rw [graft_append, List.append_nil] at hrow
  have hleft : leftOf (graftRead ts.length [] (p (row ++ ts)))
      = graft ts.length [] (leftOf (p (row ++ ts))) := by
    cases p (row ++ ts) <;> rfl
  rw [hrow, hleft] at h
  have hlength := congrArg List.length h
  rw [length_graft, List.length_nil] at hlength
  omega

theorem startsProcedure_cons (a b c : Lexeme) (ts us : List Lexeme) :
    startsProcedure (a :: b :: c :: ts) = startsProcedure (a :: b :: c :: us) := by
  rcases b with ⟨t, line⟩
  rcases c with ⟨u, line'⟩
  cases t with
  | ident name =>
    cases u with
    | symbol s => cases s <;> rfl
    | _ => rfl
  | _ => rfl

theorem startsProcedure_of_not_isType {l : Lexeme} (h : l.token.isType = false)
    (ts : List Lexeme) : startsProcedure (l :: ts) = false := by
  unfold startsProcedure
  split
  · rename_i e
    injection e with e
    rw [← h, e]
  · rfl

theorem startsProcedure_of_not_ident {a b : Lexeme} (h : ∀ name, b.token ≠ .ident name)
    (ts : List Lexeme) : startsProcedure (a :: b :: ts) = false := by
  unfold startsProcedure
  split
  · rename_i e
    injection e with _ e
    injection e with e
    exact absurd (by rw [e]) (h _)
  · rfl

/-- A production that reads a type and a name sees all tokens that tell a procedure from a group
    of declarations. -/
theorem startsProcedure_graft {p : Production α} (hp : Local p)
    (htype : ∀ l : Lexeme, l.token.isType = true → leftOf (p [l]) = [])
    (hname : ∀ (l : Lexeme) (name : String) (line : Nat), l.token.isType = true →
      leftOf (p [l, ⟨.ident name, line⟩]) = [])
    {n : Nat} {tail ts : List Lexeme} (hn : n < (leftOf (p ts)).length) :
    startsProcedure (graft n tail ts) = startsProcedure ts := by
  rcases ts with _ | ⟨a, ts⟩
  · have hle := (hp 0 [] []).1.length_le
    rw [List.length_nil] at hle
    omega
  have ha : n ≤ ts.length := by
    have hle := (hp 0 [] (a :: ts)).1.length_le
    rw [List.length_cons] at hle
    omega
  rw [graft_cons ha]
  cases hta : a.token.isType with
  | false => rw [startsProcedure_of_not_isType hta, startsProcedure_of_not_isType hta]
  | true =>
    have hb := hp.length_leftOf_le (htype a hta) ts
    rw [List.singleton_append] at hb
    rcases ts with _ | ⟨b, ts⟩
    · rw [List.length_nil] at hb
      omega
    rw [List.length_cons] at hb
    rw [graft_cons (by omega)]
    rcases b with ⟨t, line⟩
    cases t with
    | ident name =>
      have hc := hp.length_leftOf_le (hname a name line hta) ts
      rw [List.cons_append, List.singleton_append] at hc
      rcases ts with _ | ⟨c, ts⟩
      · rw [List.length_nil] at hc
        omega
      rw [List.length_cons] at hc
      rw [graft_cons (by omega)]
      exact startsProcedure_cons _ _ _ _ _
    | _ => rw [startsProcedure_of_not_ident (by simp), startsProcedure_of_not_ident (by simp)]

theorem group_type {l : Lexeme} (h : l.token.isType = true) : leftOf (group [l]) = [] := by
  rcases l with ⟨t, line⟩
  cases t with
  | keyword word => cases word <;> first | rfl | cases h
  | _ => cases h

theorem group_name {l : Lexeme} (name : String) (line : Nat) (h : l.token.isType = true) :
    leftOf (group [l, ⟨.ident name, line⟩]) = [] := by
  rcases l with ⟨t, line'⟩
  have hnone : ∀ type, repeatWhile (startsWith (· = .symbol .comma)) (nextDeclaration type) []
      = .ok ([], []) := by
    intro type
    rw [repeatWhile, if_neg (by simp [startsWith])]
  cases t with
  | keyword word =>
    cases word with
    | intKw | floatKw =>
      simp only [group, valueType, identifier, dimension, ok_bind, hnone]
      rfl
    | _ => cases h
  | _ => cases h

theorem procedure_type (budget : Nat) {l : Lexeme} (h : l.token.isType = true) :
    leftOf (procedure budget [l]) = [] := by
  rcases l with ⟨t, line⟩
  cases t with
  | keyword word => cases word <;> first | rfl | cases h
  | _ => cases h

theorem procedure_name (budget : Nat) {l : Lexeme} (name : String) (line : Nat)
    (h : l.token.isType = true) :
    leftOf (procedure budget [l, ⟨.ident name, line⟩]) = [] := by
  rcases l with ⟨t, line'⟩
  cases t with
  | keyword word => cases word <;> first | rfl | cases h
  | _ => cases h

theorem program_local (budget : Nat) : Local (program budget) := by
  intro n tail ts
  have hothers : Local (repeatWhile (!·.isEmpty) (procedure budget)) :=
    repeatWhile_local (fun _ _ _ hn => by rw [isEmpty_graft hn]) (procedure_local budget)
  refine repeatWhile_bind_keeps group_local (fun us hus hn => ?_) ts (fun groups rest => ?_)
    fun groups rest hrest hn => ?_
  · rw [startsProcedure_graft group_local (fun _ => group_type) (fun _ => group_name) hn, hus]
  · refine (procedure_local budget n tail rest).bind fun first rest => ?_
    exact (hothers n tail rest).bind fun others _ => ⟨List.suffix_rfl, fun _ => rfl⟩
  · have hleft : n < (leftOf (procedure budget rest)).length := by
      refine Nat.lt_of_lt_of_le hn (leftOf_bind_suffix _ fun first rest => ?_).length_le
      exact ((hothers n tail rest).bind fun others _ => ⟨List.suffix_rfl, fun _ => rfl⟩).1
    rw [startsProcedure_graft (procedure_local budget) (fun _ => procedure_type budget)
      (fun _ => procedure_name budget) hleft, hrest]

/-- A failure leaves an end of the tokens. -/
theorem suffix_of_error {budget : Nat} {ts rest : List Lexeme} {cause : Cause}
    (h : program budget ts = .error ⟨cause, rest⟩) : rest <:+ ts := by
  have hleft := (program_local budget 0 [] ts).1
  rwa [h] at hleft

end CMinus.Parse
