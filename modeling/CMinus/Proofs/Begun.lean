import Mathlib.Computability.Language
import Mathlib.Order.CompletePartialOrder
import CMinus.Proofs.Grammar
import CMinus.Proofs.Sound.Expression
import CMinus.Proofs.WellFormed

/-!
# Begun: what has been read begins a derivation

A production that fails has read the beginning of something its rule derives, and one that succeeds
has read all of something it derives (`Begins`). So the tokens in front of an offending one can
always be completed, and what is still missing behind them can be spelled.

Rules are taken as languages here: `L * M` is one row of tokens behind another, `L∗` any number of
rows, and a rule of the grammar says that such a language lies within that of its left side.
-/

namespace CMinus.Parse

open Grammar
open scoped Computability

variable {α β : Type}

/-! ## 1. Words and their beginnings -/

/-- Some word of the language can be spelled. -/
def HasSpellable (L : Language Token) : Prop :=
  ∃ us ∈ L, ∀ t ∈ us, t.Spellable

/-- What is read of the tokens `ts` is a word of the language; what has been read in front of an
    offending token begins a word, and what is missing of it can be spelled. -/
def Begins (L : Language Token) (ts : List Lexeme) : Except Failure (Read α) → Prop
  | .ok (_, rest) => ∃ us ∈ L, tokensOf ts = us ++ tokensOf rest
  | .error failure =>
    ∃ read missing, read ++ missing ∈ L ∧ (∀ t ∈ missing, t.Spellable) ∧
      tokensOf ts = read ++ tokensOf failure.rest

namespace Begins

variable {L M : Language Token} {ts : List Lexeme}

/-- Nothing can have been read where there are no tokens, so all of a word is missing. -/
theorem hasSpellable {r : Except Failure (Read α)} (h : Begins L [] r) : HasSpellable L := by
  cases r with
  | error failure =>
    obtain ⟨read, missing, hmem, hmissing, e⟩ := h
    obtain ⟨rfl, _⟩ := List.append_eq_nil_iff.mp e.symm
    exact ⟨missing, hmem, hmissing⟩
  | ok read =>
    obtain ⟨us, hus, e⟩ := h
    obtain ⟨rfl, _⟩ := List.append_eq_nil_iff.mp e.symm
    exact ⟨[], hus, List.forall_mem_nil _⟩

theorem mono {r : Except Failure (Read α)} (h : Begins L ts r) (hLM : L ≤ M) :
    Begins M ts r := by
  cases r with
  | error failure =>
    obtain ⟨read, missing, hmem, hread⟩ := h
    exact ⟨read, missing, hLM hmem, hread⟩
  | ok read =>
    obtain ⟨us, hus, hread⟩ := h
    exact ⟨us, hLM hus, hread⟩

/-- Nothing is read. -/
theorem ok (a : α) (ts : List Lexeme) : Begins 1 ts (.ok (a, ts)) :=
  ⟨[], Language.nil_mem_one, rfl⟩

/-- Nothing has been read in front of the first token. -/
theorem error (cause : Cause) (h : HasSpellable L) :
    Begins (α := α) L ts (.error ⟨cause, ts⟩) := by
  obtain ⟨us, hus, hspell⟩ := h
  exact ⟨[], us, hus, hspell, rfl⟩

/-- One token in front. -/
theorem cons {r : Except Failure (Read α)} (h : Begins L ts r) (t : Token) (line : Nat) :
    Begins ({[t]} * L) (⟨t, line⟩ :: ts) r := by
  cases r with
  | error failure =>
    obtain ⟨read, missing, hmem, hmissing, e⟩ := h
    have hcons : [t] ++ (read ++ missing) ∈ {[t]} * L := Language.append_mem_mul rfl hmem
    exact ⟨t :: read, missing, hcons, hmissing, by rw [tokensOf_cons, e, List.cons_append]⟩
  | ok read =>
    obtain ⟨us, hus, e⟩ := h
    refine ⟨[t] ++ us, Language.append_mem_mul rfl hus, ?_⟩
    rw [tokensOf_cons, e]
    rfl

/-- One production after the other. What the first one has begun can be completed, and what would
    follow it as well. -/
theorem bind [Inhabited α] {x : Except Failure (Read α)} {k : Read α → Except Failure (Read β)}
    (h : Begins L ts x) (hk : ∀ a rest, Begins M rest (k (a, rest))) :
    Begins (L * M) ts (x >>= k) := by
  cases x with
  | error failure =>
    obtain ⟨read, missing, hmem, hmissing, e⟩ := h
    obtain ⟨vs, hvs, hspell⟩ := (hk default []).hasSpellable
    refine ⟨read, missing ++ vs, ?_, List.forall_mem_append.mpr ⟨hmissing, hspell⟩, e⟩
    rw [← List.append_assoc]
    exact Language.append_mem_mul hmem hvs
  | ok first =>
    obtain ⟨us, hus, e⟩ := h
    rcases first with ⟨a, mid⟩
    have hnext := hk a mid
    show Begins (L * M) ts (k (a, mid))
    cases hr : k (a, mid) with
    | error failure =>
      rw [hr] at hnext
      obtain ⟨read, missing, hmem, hmissing, e'⟩ := hnext
      refine ⟨us ++ read, missing, ?_, hmissing, by rw [e, e', List.append_assoc]⟩
      rw [List.append_assoc]
      exact Language.append_mem_mul hus hmem
    | ok second =>
      rw [hr] at hnext
      obtain ⟨vs, hvs, e'⟩ := hnext
      refine ⟨us ++ vs, Language.append_mem_mul hus hvs, ?_⟩
      rw [e, e', List.append_assoc]

/-- What is read last, and a value made from it. -/
theorem bind_ok {x : Except Failure (Read α)} {k : Read α → Except Failure (Read β)}
    (h : Begins L ts x) (hk : ∀ a rest, ∃ b, k (a, rest) = .ok (b, rest)) :
    Begins L ts (x >>= k) := by
  cases x with
  | error failure => exact h
  | ok read =>
    obtain ⟨b, hb⟩ := hk read.1 read.2
    show Begins L ts (k (read.1, read.2))
    rw [hb]
    exact h

end Begins

/-! ## 2. Single tokens and repetition -/

/-- The rows that derivations of a kind derive. -/
def derived {δ : Type} (tokens : δ → List Token) : Language Token :=
  {us | ∃ d, tokens d = us}

/-- Any number of derivations in a row. -/
theorem kstar_derived_le {δ : Type} (tokens : δ → List Token) :
    (derived tokens)∗ ≤ derived (List.flatMap tokens) := by
  refine kstar_le_of_mul_le_right ?_ ?_
  · rintro _ rfl
    exact ⟨[], rfl⟩
  · rintro _ ⟨_, ⟨d, rfl⟩, _, ⟨ds, rfl⟩, rfl⟩
    exact ⟨d :: ds, List.flatMap_cons⟩

/-- One name. -/
abbrev names : Language Token :=
  derived fun name => [.ident name]

/-- One type. -/
abbrev types : Language Token :=
  derived fun type : ValueType => [.keyword type.keyword]

/-- One size. -/
abbrev sizes : Language Token :=
  derived fun size : Nat => [.int size]

theorem sign_begins (s : Symbol) (ts : List Lexeme) : Begins {[.symbol s]} ts (sign s ts) := by
  have hsome : HasSpellable {[.symbol s]} := ⟨_, rfl, by simp⟩
  rcases ts with _ | ⟨⟨t, line⟩, rest⟩
  · exact .error _ hsome
  · cases t with
    | symbol u =>
      rw [sign]
      split
      · rename_i hu
        subst hu
        exact ⟨_, rfl, rfl⟩
      · exact .error _ hsome
    | _ => exact .error _ hsome

theorem identifier_begins (ts : List Lexeme) : Begins names ts (identifier ts) := by
  have hsome : HasSpellable names := ⟨_, ⟨"x", rfl⟩, by decide⟩
  rcases ts with _ | ⟨⟨t, line⟩, rest⟩
  · exact .error _ hsome
  · cases t with
    | ident name => exact ⟨_, ⟨name, rfl⟩, rfl⟩
    | _ => exact .error _ hsome

theorem valueType_begins (ts : List Lexeme) : Begins types ts (valueType ts) := by
  have hsome : HasSpellable types := ⟨_, ⟨.int, rfl⟩, by decide⟩
  rcases ts with _ | ⟨⟨t, line⟩, rest⟩
  · exact .error _ hsome
  · cases t with
    | keyword word =>
      cases word with
      | intKw => exact ⟨_, ⟨.int, rfl⟩, rfl⟩
      | floatKw => exact ⟨_, ⟨.float, rfl⟩, rfl⟩
      | _ => exact .error _ hsome
    | _ => exact .error _ hsome

theorem arraySize_begins (ts : List Lexeme) : Begins sizes ts (arraySize ts) := by
  have hsome : HasSpellable sizes := ⟨_, ⟨0, rfl⟩, by decide⟩
  rcases ts with _ | ⟨⟨t, line⟩, rest⟩
  · exact .error _ hsome
  · cases t with
    | int value =>
      rw [arraySize]
      split
      · rename_i hpos
        refine ⟨_, ⟨value.toNat, rfl⟩, ?_⟩
        rw [tokensOf_cons]
        exact congrArg (fun n => Token.int n :: tokensOf rest) (Int.toNat_of_nonneg hpos).symm
      · exact .error _ hsome
    | _ => exact .error _ hsome

theorem repeatWhile_begins [Inhabited α] {L : Language Token} {more : List Lexeme → Bool}
    {item : Production α} (hi : ∀ ts, Begins L ts (item ts)) (ts : List Lexeme) :
    Begins L∗ ts (repeatWhile more item ts) := by
  have hnone : (1 : Language Token) ≤ L∗ := one_le_kstar
  induction ts using repeatWhile.induct more with
  | case1 ts h ih =>
    rw [repeatWhile, if_pos h]
    have hitems : L * L∗ ≤ L∗ := mul_kstar_le_kstar
    refine Begins.mono ((hi ts).bind fun first rest => ?_) hitems
    simp only []
    split
    · rename_i hlt
      exact (ih rest hlt).bind_ok fun others rest => ⟨first :: others, rfl⟩
    · exact (Begins.ok [first] rest).mono hnone
  | case2 ts h =>
    rw [repeatWhile, if_neg h]
    exact (Begins.ok [] ts).mono hnone

/-! ## 3. Expressions -/

/-- The rows that a nonterminal of expressions derives. -/
abbrev phrases (l : Level) : Language Token :=
  derived (@Phrase.tokens l)

/-- The rows that make a chain of the tier from every chain of it. -/
def continuations (tier : Tier) : Language Token :=
  {us | ∀ p : Phrase (.chain tier), ∃ q : Phrase (.chain tier), q.tokens = p.tokens ++ us}

/-- The rows that make a variable from a name. -/
def subscripts (name : String) : Language Token :=
  {us | ∃ p : Phrase .variable, p.tokens = .ident name :: us}

theorem hasSpellable_phrases : ∀ l : Level, HasSpellable (phrases l)
  | .chain .logical =>
    ⟨_, ⟨.operand (.operand (.operand (.operand (.int 0)))), rfl⟩, by decide⟩
  | .chain .relational => ⟨_, ⟨.operand (.operand (.operand (.int 0))), rfl⟩, by decide⟩
  | .chain .additive => ⟨_, ⟨.operand (.operand (.int 0)), rfl⟩, by decide⟩
  | .chain .multiplicative => ⟨_, ⟨.operand (.int 0), rfl⟩, by decide⟩
  | .factor => ⟨_, ⟨.int 0, rfl⟩, by decide⟩
  | .variable => ⟨_, ⟨.scalar "x", rfl⟩, by decide⟩

section Rules

variable {tier : Tier} {name : String}

theorem one_le_continuations : 1 ≤ continuations tier := by
  rintro _ rfl p
  exact ⟨p, (List.append_nil _).symm⟩

theorem one_le_subscripts : 1 ≤ subscripts name := by
  rintro _ rfl
  exact ⟨.scalar name, rfl⟩

theorem operator_rule {op : BinaryOp} (fits : op.tier = tier) :
    {[.symbol op.symbol]} * (phrases (operands tier) * continuations tier)
      ≤ continuations tier := by
  rintro _ ⟨_, rfl, _, ⟨_, ⟨r, rfl⟩, us, hus, rfl⟩, rfl⟩ p
  obtain ⟨q, hq⟩ := hus (.join op fits p r)
  refine ⟨q, ?_⟩
  rw [hq, Phrase.tokens]
  simp only [List.append_assoc, List.cons_append, List.nil_append]

theorem chain_rule :
    phrases (operands tier) * continuations tier ≤ phrases (.chain tier) := by
  rintro _ ⟨_, ⟨p, rfl⟩, us, hus, rfl⟩
  exact hus (.operand p)

theorem negation_rule :
    {[.symbol .not]} * (phrases (.chain .relational) * continuations .logical)
      ≤ phrases (.chain .logical) := by
  rintro _ ⟨_, rfl, _, ⟨_, ⟨p, rfl⟩, us, hus, rfl⟩, rfl⟩
  exact hus (.negation p)

theorem place_rule : {[.ident name]} * subscripts name ≤ phrases .factor := by
  rintro _ ⟨_, rfl, us, ⟨p, hp⟩, rfl⟩
  exact ⟨.place p, hp⟩

theorem call_rule :
    {[.ident name]} * ({[.symbol .lparen]} * {[.symbol .rparen]}) ≤ phrases .factor := by
  rintro _ ⟨_, rfl, _, ⟨_, rfl, _, rfl, rfl⟩, rfl⟩
  exact ⟨.call name, rfl⟩

theorem parens_rule :
    {[.symbol .lparen]} * (phrases (.chain .logical) * {[.symbol .rparen]}) ≤ phrases .factor := by
  rintro _ ⟨_, rfl, _, ⟨_, ⟨p, rfl⟩, _, rfl, rfl⟩, rfl⟩
  exact ⟨.parens p, rfl⟩

theorem element_rule :
    {[.symbol .lbracket]} * (phrases (.chain .logical) * {[.symbol .rbracket]})
      ≤ subscripts name := by
  rintro _ ⟨_, rfl, _, ⟨_, ⟨p, rfl⟩, _, rfl, rfl⟩, rfl⟩
  exact ⟨.element name p, rfl⟩

end Rules

/-- All six productions at once, along the calls they make. -/
theorem expression_family_begins :
    (∀ budget ts, Begins (phrases (.chain .logical)) ts (expression budget ts)) ∧
    (∀ tier budget left ts, Begins (continuations tier) ts (chainRest tier budget left ts)) ∧
    (∀ tier budget ts, Begins (phrases (operands tier)) ts (operand tier budget ts)) ∧
    (∀ budget ts, Begins (phrases .factor) ts (factor budget ts)) ∧
    (∀ budget name line ts, Begins (subscripts name) ts (subscript budget name line ts)) ∧
    (∀ tier budget ts, Begins (phrases (.chain tier)) ts (chain tier budget ts)) := by
  apply expression.mutual_induct
    (fun budget ts => Begins (phrases (.chain .logical)) ts (expression budget ts))
    (fun tier budget left ts =>
      Begins (continuations tier) ts (chainRest tier budget left ts))
    (fun tier budget ts => Begins (phrases (operands tier)) ts (operand tier budget ts))
    (fun budget ts => Begins (phrases .factor) ts (factor budget ts))
    (fun budget name line ts => Begins (subscripts name) ts (subscript budget name line ts))
    (fun tier budget ts => Begins (phrases (.chain tier)) ts (chain tier budget ts))
  case case1 => -- a negation without a level for it
    intro line rest
    simp only [expression]
    exact .error _ (hasSpellable_phrases _)
  case case2 => -- a negation
    intro line rest less ihOperand ihRest
    simp only [expression]
    exact ((ihOperand.bind ihRest).cons _ _).mono negation_rule
  case case3 => -- no negation
    intro budget ts hts ih
    rw [expression_eq_chain (startsWith_eq_false hts)]
    exact ih
  case case4 => -- the end of the tokens behind a chain
    intro tier budget left
    simp only [chainRest]
    exact (Begins.ok left []).mono one_le_continuations
  case case5 => -- no operator of the tier behind a chain
    intro tier budget left l rest hop
    simp only [chainRest, hop]
    exact (Begins.ok left _).mono one_le_continuations
  case case6 => -- an operator without a level for it
    intro tier left l rest op hop
    simp only [chainRest, hop]
    exact .error _ ⟨[], one_le_continuations rfl, List.forall_mem_nil _⟩
  case case7 => -- an operator
    intro tier left l rest op hop less ihOperand ihRest
    obtain ⟨fits, ht⟩ := operator?_eq_some hop
    rcases l with ⟨t, line⟩
    simp only [chainRest, hop]
    refine Begins.mono ((ihOperand.bind ihRest).cons _ _) ?_
    rw [show t = .symbol op.symbol from ht]
    exact operator_rule fits
  case case8 => -- an operand of a tier above the tightest one
    intro tier budget ts tighter ht ih
    rw [operand_tighter ht, operands_tighter ht]
    exact ih
  case case9 => -- an operand of the tightest tier
    intro tier budget ts ht ih
    rw [operand_factor ht, operands_factor ht]
    exact ih
  case case10 => -- a call
    intro budget name line line' rest
    simp only [factor]
    refine Begins.mono
      ((((sign_begins .rparen rest).bind_ok fun _ rest => ?_).cons _ line').cons _ line) call_rule
    exact ⟨.call name line, rfl⟩
  case case11 => -- a variable
    intro budget name line rest hrest ih
    rw [factor_ident (startsWith_eq_false hrest)]
    refine Begins.mono ((ih.bind_ok fun place rest => ?_).cons _ line) place_rule
    exact ⟨place.toExpression, rfl⟩
  case case12 => -- a whole number
    intro budget value line rest
    simp only [factor]
    exact ⟨_, ⟨.int value, rfl⟩, rfl⟩
  case case13 => -- a fraction
    intro budget value line rest
    simp only [factor]
    exact ⟨_, ⟨.float value, rfl⟩, rfl⟩
  case case14 => -- a parenthesis without a level for it
    intro line rest
    simp only [factor]
    exact .error _ (hasSpellable_phrases _)
  case case15 => -- an expression in parentheses
    intro line rest less ih
    simp only [factor]
    refine Begins.mono ((ih.bind fun inner rest => ?_).cons _ line) parens_rule
    exact (sign_begins .rparen rest).bind_ok fun _ _ => ⟨_, rfl⟩
  case case16 => -- no factor
    intro budget ts _ hIdent hInt hFloat hParen
    rw [factor_fail (startsFactor_eq_false hIdent hInt hFloat hParen)]
    exact .error _ (hasSpellable_phrases _)
  case case17 => -- a bracket without a level for it
    intro name line line' rest
    simp only [subscript]
    exact .error _ ⟨[], one_le_subscripts rfl, List.forall_mem_nil _⟩
  case case18 => -- an index
    intro name line line' rest less ih
    simp only [subscript]
    refine Begins.mono ((ih.bind fun index rest => ?_).cons _ line') element_rule
    exact (sign_begins .rbracket rest).bind_ok fun _ _ => ⟨_, rfl⟩
  case case19 => -- no index
    intro budget name line ts hts
    rw [subscript_scalar (startsWith_eq_false hts)]
    exact (Begins.ok _ ts).mono one_le_subscripts
  case case20 => -- a chain
    intro tier budget ts ihOperand ihRest
    rw [chain]
    exact (ihOperand.bind ihRest).mono chain_rule

theorem expression_begins (budget : Nat) (ts : List Lexeme) :
    Begins (phrases (.chain .logical)) ts (expression budget ts) :=
  expression_family_begins.1 budget ts

theorem subscript_begins (budget : Nat) (name : String) (line : Nat) (ts : List Lexeme) :
    Begins (subscripts name) ts (subscript budget name line ts) :=
  expression_family_begins.2.2.2.2.1 budget name line ts

/-! ## 4. Statements -/

/-- A test between parentheses. -/
def tests : Language Token :=
  {[.symbol .lparen]} * (phrases (.chain .logical) * {[.symbol .rparen]})

/-- Statements between braces. -/
def blocks : Language Token :=
  {[.symbol .lbrace]} * (derived Clauses.tokens * {[.symbol .rbrace]})

theorem condition_begins (budget : Nat) (ts : List Lexeme) :
    Begins tests ts (condition budget ts) := by
  refine (sign_begins .lparen ts).bind fun _ rest => ?_
  refine (expression_begins budget rest).bind fun test rest => ?_
  exact (sign_begins .rparen rest).bind_ok fun _ _ => ⟨test, rfl⟩

theorem place_begins (budget : Nat) (ts : List Lexeme) :
    Begins (phrases .variable) ts (place budget ts) := by
  rcases ts with _ | ⟨⟨t, line⟩, rest⟩
  · exact .error _ (hasSpellable_phrases _)
  · cases t with
    | ident name =>
      refine ((subscript_begins budget name line rest).cons _ line).mono ?_
      rintro _ ⟨_, rfl, us, ⟨p, hp⟩, rfl⟩
      exact ⟨p, hp⟩
    | _ => exact .error _ (hasSpellable_phrases _)

theorem written_begins (budget : Nat) (ts : List Lexeme) :
    Begins (phrases (.chain .logical) + derived fun text => [.string text]) ts
      (written budget ts) := by
  unfold written
  split
  · rename_i text line rest
    exact ⟨[.string text], .inr ⟨text, rfl⟩, rfl⟩
  · exact (expression_begins budget _).mono fun us hus => .inl hus

theorem statements_rule :
    derived Clause.tokens * (derived Clause.tokens)∗ ≤ derived Clauses.tokens := by
  rintro _ ⟨_, ⟨c, rfl⟩, us, hus, rfl⟩
  obtain ⟨cs, rfl⟩ := kstar_derived_le _ hus
  exact ⟨.ofList c cs, Clauses.tokens_ofList c cs⟩

section Items

variable {item : Production Statement} (hi : ∀ ts, Begins (derived Clause.tokens) ts (item ts))
include hi

theorem statements_begins (ts : List Lexeme) :
    Begins (derived Clauses.tokens) ts (statements item ts) := by
  refine Begins.mono ((hi ts).bind fun first rest => ?_) statements_rule
  exact (repeatWhile_begins hi rest).bind_ok fun others _ => ⟨(first, others), rfl⟩

theorem braces_begins (ts : List Lexeme) : Begins blocks ts (braces item ts) := by
  refine (sign_begins .lbrace ts).bind fun line rest => ?_
  refine (statements_begins hi rest).bind fun (first, others) rest => ?_
  exact (sign_begins .rbrace rest).bind_ok fun _ _ => ⟨⟨first :: others, line⟩, rfl⟩

/-- A second block, if there is one. -/
theorem elseBlock_begins (test : Expression) (body : Block Statement) (line : Nat)
    (ts : List Lexeme) :
    Begins (1 + {[.keyword .elseKw]} * blocks) ts
      (match ts with
        | ⟨.keyword .elseKw, _⟩ :: rest => do
          let (other, rest) ← braces item rest
          .ok (Statement.ifElse test body other line, rest)
        | rest => .ok (.ifThen test body line, rest)) := by
  split
  · rename_i line' rest
    refine Begins.mono (((braces_begins hi rest).bind_ok fun other _ => ?_).cons _ line')
      fun us hus => .inr hus
    exact ⟨.ifElse test body other line, rfl⟩
  · exact (Begins.ok _ _).mono fun us hus => .inl hus

end Items

theorem assign_rule {name : String} :
    {[.ident name]} * (subscripts name * ({[.symbol .assign]} *
      (phrases (.chain .logical) * {[.symbol .semicolon]}))) ≤ derived Clause.tokens := by
  rintro _ ⟨_, rfl, _, ⟨us, ⟨p, hp⟩, _, ⟨_, rfl, _, ⟨_, ⟨q, rfl⟩, _, rfl, rfl⟩, rfl⟩, rfl⟩, rfl⟩
  refine ⟨.assign p q, ?_⟩
  rw [Clause.tokens, hp]
  rfl

theorem if_rule :
    {[.keyword .ifKw]} * (tests * (blocks * (1 + {[.keyword .elseKw]} * blocks)))
      ≤ derived Clause.tokens := by
  rintro _ ⟨_, rfl, _, ⟨_, ⟨_, rfl, _, ⟨_, ⟨p, rfl⟩, _, rfl, rfl⟩, rfl⟩, _,
    ⟨_, ⟨_, rfl, _, ⟨_, ⟨cs, rfl⟩, _, rfl, rfl⟩, rfl⟩, us, hus, rfl⟩, rfl⟩, rfl⟩
  rcases hus with rfl | ⟨_, rfl, _, ⟨_, rfl, _, ⟨_, ⟨ds, rfl⟩, _, rfl, rfl⟩, rfl⟩, rfl⟩
  · refine ⟨.ifThen p cs, ?_⟩
    simp [Clause.tokens, inParens, inBraces]
  · refine ⟨.ifElse p cs ds, ?_⟩
    simp [Clause.tokens, inParens, inBraces]

theorem while_rule :
    {[.keyword .whileKw]} * (tests * derived Clause.tokens) ≤ derived Clause.tokens := by
  rintro _ ⟨_, rfl, _, ⟨_, ⟨_, rfl, _, ⟨_, ⟨p, rfl⟩, _, rfl, rfl⟩, rfl⟩, _, ⟨c, rfl⟩, rfl⟩, rfl⟩
  refine ⟨.whileDo p c, ?_⟩
  simp [Clause.tokens, inParens]

theorem read_rule :
    {[.keyword .readKw]} * ({[.symbol .lparen]} * (phrases .variable *
      ({[.symbol .rparen]} * {[.symbol .semicolon]}))) ≤ derived Clause.tokens := by
  rintro _ ⟨_, rfl, _, ⟨_, rfl, _, ⟨_, ⟨p, rfl⟩, _, ⟨_, rfl, _, rfl, rfl⟩, rfl⟩, rfl⟩, rfl⟩
  refine ⟨.read p, ?_⟩
  simp [Clause.tokens, inParens]

theorem write_rule :
    {[.keyword .writeKw]} * ({[.symbol .lparen]} *
      ((phrases (.chain .logical) + derived fun text => [.string text]) *
        ({[.symbol .rparen]} * {[.symbol .semicolon]}))) ≤ derived Clause.tokens := by
  rintro _ ⟨_, rfl, _, ⟨_, rfl, _, ⟨_, ⟨p, rfl⟩ | ⟨text, rfl⟩, _, ⟨_, rfl, _, rfl, rfl⟩, rfl⟩,
    rfl⟩, rfl⟩
  · refine ⟨.write p, ?_⟩
    simp [Clause.tokens, inParens]
  · exact ⟨.writeText text, rfl⟩

theorem return_rule :
    {[.keyword .returnKw]} * (phrases (.chain .logical) * {[.symbol .semicolon]})
      ≤ derived Clause.tokens := by
  rintro _ ⟨_, rfl, _, ⟨_, ⟨p, rfl⟩, _, rfl, rfl⟩, rfl⟩
  exact ⟨.returns p, rfl⟩

theorem exit_rule : {[.keyword .exitKw]} * {[.symbol .semicolon]} ≤ derived Clause.tokens := by
  rintro _ ⟨_, rfl, _, rfl, rfl⟩
  exact ⟨.exit, rfl⟩

theorem compound_rule : blocks ≤ derived Clause.tokens := by
  rintro _ ⟨_, rfl, _, ⟨_, ⟨cs, rfl⟩, _, rfl, rfl⟩, rfl⟩
  exact ⟨.compound cs, rfl⟩

/-- What is read of a statement begins one. -/
theorem statement_begins (budget : Nat) :
    ∀ ts, Begins (derived Clause.tokens) ts (statement budget ts) := by
  have hsome : HasSpellable (derived Clause.tokens) := ⟨_, ⟨.exit, rfl⟩, by simp [Clause.tokens]⟩
  induction budget with
  | zero => exact fun ts => .error _ hsome
  | succ budget ih =>
    intro ts
    rcases ts with _ | ⟨⟨t, line⟩, rest⟩
    · exact .error _ hsome
    · cases t with
      | ident name =>
        refine Begins.mono (((subscript_begins budget name line rest).bind
          fun target rest => ?_).cons _ line) assign_rule
        refine (sign_begins .assign rest).bind fun _ rest => ?_
        refine (expression_begins budget rest).bind fun value rest => ?_
        exact (sign_begins .semicolon rest).bind_ok fun _ _ => ⟨.assign target value line, rfl⟩
      | keyword word =>
        cases word with
        | ifKw =>
          refine Begins.mono (((condition_begins budget rest).bind
            fun test rest => ?_).cons _ line) if_rule
          refine (braces_begins ih rest).bind fun body rest => ?_
          exact elseBlock_begins ih test body line rest
        | whileKw =>
          refine Begins.mono (((condition_begins budget rest).bind
            fun test rest => ?_).cons _ line) while_rule
          exact (ih rest).bind_ok fun body _ => ⟨.whileDo test body line, rfl⟩
        | readKw =>
          refine Begins.mono (((sign_begins .lparen rest).bind
            fun _ rest => ?_).cons _ line) read_rule
          refine (place_begins budget rest).bind fun target rest => ?_
          refine (sign_begins .rparen rest).bind fun _ rest => ?_
          exact (sign_begins .semicolon rest).bind_ok fun _ _ => ⟨.read target line, rfl⟩
        | writeKw =>
          refine Begins.mono (((sign_begins .lparen rest).bind
            fun _ rest => ?_).cons _ line) write_rule
          refine (written_begins budget rest).bind fun value rest => ?_
          refine (sign_begins .rparen rest).bind fun _ rest => ?_
          exact (sign_begins .semicolon rest).bind_ok fun _ _ => ⟨.write value line, rfl⟩
        | returnKw =>
          refine Begins.mono (((expression_begins budget rest).bind
            fun value rest => ?_).cons _ line) return_rule
          exact (sign_begins .semicolon rest).bind_ok fun _ _ => ⟨.returns value line, rfl⟩
        | exitKw =>
          refine Begins.mono (((sign_begins .semicolon rest).bind_ok
            fun _ rest => ?_).cons _ line) exit_rule
          exact ⟨.exit line, rfl⟩
        | elseKw | floatKw | intKw => exact .error _ hsome
      | symbol s =>
        cases s with
        | lbrace =>
          refine Begins.mono ((braces_begins ih _).bind_ok fun body rest => ?_) compound_rule
          exact ⟨.compound body, rfl⟩
        | _ => exact .error _ hsome
      | int | float | string | eof => exact .error _ hsome

/-! ## 5. Programs -/

/-- The rows that make a declaration from a name. -/
def dimensions : Language Token :=
  {us | ∃ size, ∀ name, (Declarator.mk name size).tokens = .ident name :: us}

theorem one_le_dimensions : 1 ≤ dimensions := by
  rintro _ rfl
  exact ⟨none, fun _ => rfl⟩

theorem dimension_rule : {[.symbol .lbracket]} * (sizes * {[.symbol .rbracket]}) ≤ dimensions := by
  rintro _ ⟨_, rfl, _, ⟨_, ⟨size, rfl⟩, _, rfl, rfl⟩, rfl⟩
  exact ⟨some size, fun _ => rfl⟩

theorem nextDeclaration_rule :
    {[.symbol .comma]} * (names * dimensions)
      ≤ derived fun d : Declarator => .symbol .comma :: d.tokens := by
  rintro _ ⟨_, rfl, _, ⟨_, ⟨name, rfl⟩, us, ⟨size, hsize⟩, rfl⟩, rfl⟩
  exact ⟨⟨name, size⟩, congrArg (Token.symbol .comma :: ·) (hsize name)⟩

theorem group_rule :
    types * (names * (dimensions * ((derived fun d : Declarator => .symbol .comma :: d.tokens)∗ *
      {[.symbol .semicolon]}))) ≤ derived Group.tokens := by
  rintro _ ⟨_, ⟨type, rfl⟩, _, ⟨_, ⟨name, rfl⟩, _, ⟨us, ⟨size, hsize⟩, _, ⟨vs, hvs, _, rfl, rfl⟩,
    rfl⟩, rfl⟩, rfl⟩
  obtain ⟨others, rfl⟩ := kstar_derived_le _ hvs
  refine ⟨⟨type, ⟨name, size⟩, others⟩, ?_⟩
  simp [Group.tokens, hsize]

theorem procedure_rule :
    types * (names * ({[.symbol .lparen]} * ({[.symbol .rparen]} * ((derived Group.tokens)∗ *
      ({[.symbol .lbrace]} * ((derived Group.tokens)∗ *
        (derived Clauses.tokens * {[.symbol .rbrace]})))))))
      ≤ derived Definition.tokens := by
  rintro _ ⟨_, ⟨type, rfl⟩, _, ⟨_, ⟨name, rfl⟩, _, ⟨_, rfl, _, ⟨_, rfl, _, ⟨us, hus, _, ⟨_, rfl, _,
    ⟨vs, hvs, _, ⟨_, ⟨body, rfl⟩, _, rfl, rfl⟩, rfl⟩, rfl⟩, rfl⟩, rfl⟩, rfl⟩, rfl⟩, rfl⟩
  obtain ⟨before, rfl⟩ := kstar_derived_le _ hus
  obtain ⟨behind, rfl⟩ := kstar_derived_le _ hvs
  refine ⟨⟨type, name, before, behind, body⟩, ?_⟩
  simp [Definition.tokens, inBraces]

theorem program_rule :
    (derived Group.tokens)∗ * (derived Definition.tokens * (derived Definition.tokens)∗)
      ≤ derived Document.tokens := by
  rintro _ ⟨us, hus, _, ⟨_, ⟨first, rfl⟩, vs, hvs, rfl⟩, rfl⟩
  obtain ⟨globals, rfl⟩ := kstar_derived_le _ hus
  obtain ⟨others, rfl⟩ := kstar_derived_le _ hvs
  exact ⟨⟨globals, first, others⟩, by simp [Document.tokens]⟩

theorem dimension_begins (ts : List Lexeme) : Begins dimensions ts (dimension ts) := by
  unfold dimension
  split
  · rename_i line rest
    refine Begins.mono (((arraySize_begins rest).bind fun size rest => ?_).cons _ line)
      dimension_rule
    exact (sign_begins .rbracket rest).bind_ok fun _ _ => ⟨some size, rfl⟩
  · exact (Begins.ok none _).mono one_le_dimensions

theorem nextDeclaration_begins (type : ValueType) (ts : List Lexeme) :
    Begins (derived fun d : Declarator => .symbol .comma :: d.tokens) ts
      (nextDeclaration type ts) := by
  refine Begins.mono ((sign_begins .comma ts).bind fun _ rest => ?_) nextDeclaration_rule
  refine (identifier_begins rest).bind fun (name, line) rest => ?_
  exact (dimension_begins rest).bind_ok fun size _ => ⟨⟨name, type, size, line⟩, rfl⟩

theorem group_begins (ts : List Lexeme) : Begins (derived Group.tokens) ts (group ts) := by
  refine Begins.mono ((valueType_begins ts).bind fun (type, line) rest => ?_) group_rule
  refine (identifier_begins rest).bind fun (name, _) rest => ?_
  refine (dimension_begins rest).bind fun size rest => ?_
  refine (repeatWhile_begins (nextDeclaration_begins type) rest).bind fun others rest => ?_
  exact (sign_begins .semicolon rest).bind_ok
    fun _ _ => ⟨⟨name, type, size, line⟩ :: others, rfl⟩

theorem declarations_begins (ts : List Lexeme) :
    Begins (derived Group.tokens)∗ ts (declarations ts) :=
  (repeatWhile_begins group_begins ts).bind_ok fun groups _ => ⟨groups.flatten, rfl⟩

theorem procedure_begins (budget : Nat) (ts : List Lexeme) :
    Begins (derived Definition.tokens) ts (procedure budget ts) := by
  refine Begins.mono ((valueType_begins ts).bind fun (type, line) rest => ?_) procedure_rule
  refine (identifier_begins rest).bind fun (name, _) rest => ?_
  refine (sign_begins .lparen rest).bind fun _ rest => ?_
  refine (sign_begins .rparen rest).bind fun _ rest => ?_
  refine (declarations_begins rest).bind fun before rest => ?_
  refine (sign_begins .lbrace rest).bind fun openLine rest => ?_
  refine (declarations_begins rest).bind fun behind rest => ?_
  refine (statements_begins (statement_begins budget) rest).bind fun (first, others) rest => ?_
  exact (sign_begins .rbrace rest).bind_ok fun _ _ =>
    ⟨⟨type, name, blockOf openLine (before ++ behind), ⟨first :: others, first.line⟩, line⟩, rfl⟩

/-- **What is read of a program begins one**: the tokens in front of an offending one can be
    completed to a program, with tokens that can be spelled. -/
theorem program_begins (budget : Nat) (ts : List Lexeme) :
    Begins (derived Document.tokens) ts (program budget ts) := by
  refine Begins.mono ((repeatWhile_begins group_begins ts).bind fun groups rest => ?_) program_rule
  refine (procedure_begins budget rest).bind fun first rest => ?_
  exact (repeatWhile_begins (procedure_begins budget) rest).bind_ok fun others _ => ⟨_, rfl⟩

end CMinus.Parse
