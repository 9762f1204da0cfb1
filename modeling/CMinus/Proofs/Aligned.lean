import CMinus.Proofs.Accepted

/-!
# Aligned: the invariants of an accepted tree, lines among them

Being well-formed is read off the derivation of a tree and says nothing about lines. That every
binary operator has the line of its left operand (`Aligned`) is a matter of the trees themselves:
operators are only ever joined to operands by `Expression.combine`, at any depth of any statement.
So it follows production by production from what the productions in it give (`Gives`).
-/

namespace CMinus

/-! ## 1. Operators on the line of their left operand -/

/-- Every binary operator has the line of its left operand. -/
def Expression.Aligned : Expression → Prop
  | .binary _ left right line => line = left.line ∧ left.Aligned ∧ right.Aligned
  | .not operand _ => operand.Aligned
  | .element _ index _ => index.Aligned
  | .scalar .. | .call .. | .int .. | .float .. | .string .. => True

/-- The operators in an index are aligned. -/
def Variable.Aligned (v : Variable) : Prop :=
  v.toExpression.Aligned

namespace Statement

mutual

/-- The operators of every part are aligned. -/
def Aligned : Statement → Prop
  | assign target value _ => target.Aligned ∧ value.Aligned
  | ifThen condition body _ => condition.Aligned ∧ AlignedBlock body
  | ifElse condition body other _ => condition.Aligned ∧ AlignedBlock body ∧ AlignedBlock other
  | whileDo condition body _ => condition.Aligned ∧ Aligned body
  | read target _ => target.Aligned
  | write value _ => value.Aligned
  | returns value _ => value.Aligned
  | exit _ => True
  | compound body => AlignedBlock body

/-- The operators of every statement in the block are aligned. -/
def AlignedBlock : Block Statement → Prop
  | ⟨items, _⟩ => AlignedList items

/-- The operators of every statement are aligned. -/
def AlignedList : List Statement → Prop
  | [] => True
  | s :: rest => Aligned s ∧ AlignedList rest

end

theorem alignedList_iff {ss : List Statement} : AlignedList ss ↔ ∀ s ∈ ss, s.Aligned := by
  induction ss with
  | nil => exact ⟨fun _ => List.forall_mem_nil _, fun _ => trivial⟩
  | cons s ss ih => rw [AlignedList, ih, List.forall_mem_cons]

end Statement

/-- The operators in every procedure are aligned. -/
def Program.Aligned (p : Program) : Prop :=
  ∀ q ∈ p.procedures, Statement.AlignedBlock q.body

/-! ## 2. What productions give -/

namespace Parse

variable {α β : Type}

/-- Whatever is read, it is as `P` says. -/
def Gives (P : α → Prop) (r : Except Failure (Read α)) : Prop :=
  ∀ a rest, r = .ok (a, rest) → P a

namespace Gives

variable {P : α → Prop} {Q : β → Prop}

theorem ok {r : Except Failure (Read α)} {a : α} {rest : List Lexeme} (hr : r = .ok (a, rest))
    (h : P a) : Gives P r := by
  subst hr
  rintro _ _ ⟨⟩
  exact h

theorem error (failure : Failure) : Gives P (.error failure) := by
  rintro _ _ ⟨⟩

theorem any (r : Except Failure (Read α)) : Gives (fun _ => True) r :=
  fun _ _ _ => trivial

theorem bind {x : Except Failure (Read α)} {k : Read α → Except Failure (Read β)}
    (hx : Gives P x) (hk : ∀ a rest, P a → Gives Q (k (a, rest))) : Gives Q (x >>= k) := by
  intro b rest h
  obtain ⟨a, mid, ha, h⟩ := bind_eq_ok.mp h
  exact hk a mid (hx a mid ha) b rest h

/-- What is read first does not matter. -/
theorem skip {x : Except Failure (Read α)} {k : Read α → Except Failure (Read β)}
    (hk : ∀ a rest, Gives Q (k (a, rest))) : Gives Q (x >>= k) :=
  (any x).bind fun a rest _ => hk a rest

end Gives

theorem repeatWhile_gives {P : α → Prop} {more : List Lexeme → Bool} {item : Production α}
    (hi : ∀ ts, Gives P (item ts)) (ts : List Lexeme) :
    Gives (fun as => ∀ a ∈ as, P a) (repeatWhile more item ts) := by
  induction ts using repeatWhile.induct more with
  | case1 ts hm ih =>
    rw [repeatWhile, if_pos hm]
    refine (hi ts).bind fun first rest hfirst => ?_
    simp only []
    split
    · rename_i hlt
      exact (ih rest hlt).bind fun others rest hothers =>
        .ok rfl (List.forall_mem_cons.mpr ⟨hfirst, hothers⟩)
    · exact .ok rfl (List.forall_mem_singleton.mpr hfirst)
  | case2 ts hm =>
    rw [repeatWhile, if_neg hm]
    exact .ok rfl (List.forall_mem_nil _)

/-! ## 3. Expressions -/

/-- All six productions at once, along the calls they make: a chain keeps what is true of the
    operands it starts from. -/
theorem expression_family_aligned :
    (∀ budget ts, Gives Expression.Aligned (expression budget ts)) ∧
    (∀ tier budget left ts, left.Aligned →
      Gives Expression.Aligned (chainRest tier budget left ts)) ∧
    (∀ tier budget ts, Gives Expression.Aligned (operand tier budget ts)) ∧
    (∀ budget ts, Gives Expression.Aligned (factor budget ts)) ∧
    (∀ budget name line ts, Gives Variable.Aligned (subscript budget name line ts)) ∧
    (∀ tier budget ts, Gives Expression.Aligned (chain tier budget ts)) := by
  apply expression.mutual_induct
    (fun budget ts => Gives Expression.Aligned (expression budget ts))
    (fun tier budget left ts =>
      left.Aligned → Gives Expression.Aligned (chainRest tier budget left ts))
    (fun tier budget ts => Gives Expression.Aligned (operand tier budget ts))
    (fun budget ts => Gives Expression.Aligned (factor budget ts))
    (fun budget name line ts => Gives Variable.Aligned (subscript budget name line ts))
    (fun tier budget ts => Gives Expression.Aligned (chain tier budget ts))
  case case1 => -- a negation without a level for it
    intro line rest
    simp only [expression]
    exact .error _
  case case2 => -- a negation
    intro line rest less ihOperand ihRest
    simp only [expression]
    exact ihOperand.bind fun operand mid ho => ihRest operand mid ho
  case case3 => -- no negation
    intro budget ts hts ih
    rw [expression_eq_chain (startsWith_eq_false hts)]
    exact ih
  case case4 => -- the end of the tokens behind a chain
    intro tier budget left hleft
    simp only [chainRest]
    exact .ok rfl hleft
  case case5 => -- no operator of the tier behind a chain
    intro tier budget left l rest hop hleft
    simp only [chainRest, hop]
    exact .ok rfl hleft
  case case6 => -- an operator without a level for it
    intro tier left l rest op hop _
    simp only [chainRest, hop]
    exact .error _
  case case7 => -- an operator
    intro tier left l rest op hop less ihOperand ihRest hleft
    simp only [chainRest, hop]
    exact ihOperand.bind fun right mid hright => ihRest right mid ⟨rfl, hleft, hright⟩
  case case8 => -- an operand of a tier above the tightest one
    intro tier budget ts tighter ht ih
    rw [operand_tighter ht]
    exact ih
  case case9 => -- an operand of the tightest tier
    intro tier budget ts ht ih
    rw [operand_factor ht]
    exact ih
  case case10 => -- a call
    intro budget name line line' rest
    simp only [factor]
    exact .skip fun _ rest => .ok rfl trivial
  case case11 => -- a variable
    intro budget name line rest hrest ih
    rw [factor_ident (startsWith_eq_false hrest)]
    exact ih.bind fun place rest hplace => .ok rfl hplace
  case case12 => -- a whole number
    intro budget value line rest
    simp only [factor]
    exact .ok rfl trivial
  case case13 => -- a fraction
    intro budget value line rest
    simp only [factor]
    exact .ok rfl trivial
  case case14 => -- a parenthesis without a level for it
    intro line rest
    simp only [factor]
    exact .error _
  case case15 => -- an expression in parentheses
    intro line rest less ih
    simp only [factor]
    exact ih.bind fun inner rest hinner => .skip fun _ rest => .ok rfl hinner
  case case16 => -- no factor
    intro budget ts _ hIdent hInt hFloat hParen
    rw [factor_fail (startsFactor_eq_false hIdent hInt hFloat hParen)]
    exact .error _
  case case17 => -- a bracket without a level for it
    intro name line line' rest
    simp only [subscript]
    exact .error _
  case case18 => -- an index
    intro name line line' rest less ih
    simp only [subscript]
    exact ih.bind fun index rest hindex => .skip fun _ rest => .ok rfl hindex
  case case19 => -- no index
    intro budget name line ts hts
    rw [subscript_scalar (startsWith_eq_false hts)]
    exact .ok rfl trivial
  case case20 => -- a chain
    intro tier budget ts ihOperand ihRest
    rw [chain]
    exact ihOperand.bind fun left mid hleft => ihRest left mid hleft

theorem expression_aligned (budget : Nat) (ts : List Lexeme) :
    Gives Expression.Aligned (expression budget ts) :=
  expression_family_aligned.1 budget ts

theorem subscript_aligned (budget : Nat) (name : String) (line : Nat) (ts : List Lexeme) :
    Gives Variable.Aligned (subscript budget name line ts) :=
  expression_family_aligned.2.2.2.2.1 budget name line ts

/-! ## 4. Statements and programs -/

theorem condition_aligned (budget : Nat) (ts : List Lexeme) :
    Gives Expression.Aligned (condition budget ts) := by
  refine .skip fun _ rest => ?_
  refine (expression_aligned budget rest).bind fun test _ htest => ?_
  exact .skip fun _ _ => .ok rfl htest

theorem place_aligned (budget : Nat) (ts : List Lexeme) :
    Gives Variable.Aligned (place budget ts) :=
  .skip fun (name, line) rest => subscript_aligned budget name line rest

theorem written_aligned (budget : Nat) (ts : List Lexeme) :
    Gives Expression.Aligned (written budget ts) := by
  unfold written
  split
  · exact .ok rfl trivial
  · exact expression_aligned budget _

section Items

variable {item : Production Statement} (hi : ∀ ts, Gives Statement.Aligned (item ts))
include hi

theorem statements_aligned (ts : List Lexeme) :
    Gives (fun (first, others) => Statement.AlignedList (first :: others))
      (statements item ts) := by
  refine (hi ts).bind fun first rest hfirst => ?_
  refine (repeatWhile_gives hi rest).bind fun others _ hothers => ?_
  exact .ok rfl ⟨hfirst, Statement.alignedList_iff.mpr hothers⟩

theorem braces_aligned (ts : List Lexeme) : Gives Statement.AlignedBlock (braces item ts) := by
  refine .skip fun _ rest => ?_
  refine (statements_aligned hi rest).bind fun (first, others) _ hitems => ?_
  exact .skip fun _ _ => .ok rfl hitems

end Items

theorem statement_aligned (budget : Nat) :
    ∀ ts, Gives Statement.Aligned (statement budget ts) := by
  induction budget with
  | zero => exact fun ts => .error _
  | succ budget ih =>
    intro ts
    unfold statement
    split
    · -- an assignment
      refine (subscript_aligned _ _ _ _).bind fun target _ htarget => ?_
      refine .skip fun _ rest => ?_
      refine (expression_aligned budget rest).bind fun value _ hvalue => ?_
      exact .skip fun _ _ => .ok rfl ⟨htarget, hvalue⟩
    · -- a choice, with a second block or without one
      refine (condition_aligned _ _).bind fun test rest htest => ?_
      refine (braces_aligned ih rest).bind fun body rest hbody => ?_
      simp only []
      split
      · exact (braces_aligned ih _).bind fun other _ hother => .ok rfl ⟨htest, hbody, hother⟩
      · exact .ok rfl ⟨htest, hbody⟩
    · -- a loop
      refine (condition_aligned _ _).bind fun test rest htest => ?_
      exact (ih rest).bind fun body _ hbody => .ok rfl ⟨htest, hbody⟩
    · -- a `read`
      refine .skip fun _ rest => ?_
      refine (place_aligned budget rest).bind fun target _ htarget => ?_
      exact .skip fun _ _ => .skip fun _ _ => .ok rfl htarget
    · -- a `write`
      refine .skip fun _ rest => ?_
      refine (written_aligned budget rest).bind fun value _ hvalue => ?_
      exact .skip fun _ _ => .skip fun _ _ => .ok rfl hvalue
    · -- a `return`
      refine (expression_aligned _ _).bind fun value _ hvalue => ?_
      exact .skip fun _ _ => .ok rfl hvalue
    · -- an `exit`
      exact .skip fun _ _ => .ok rfl trivial
    · -- statements between braces
      exact (braces_aligned ih _).bind fun body _ hbody => .ok rfl hbody
    · exact .error _

theorem procedure_aligned (budget : Nat) (ts : List Lexeme) :
    Gives (fun q => Statement.AlignedBlock q.body) (procedure budget ts) := by
  -- type, name, parentheses, declarations, brace and declarations hold no operator
  refine .skip fun _ _ => .skip fun _ _ => .skip fun _ _ => .skip fun _ _ => ?_
  refine .skip fun _ _ => .skip fun _ _ => .skip fun _ rest => ?_
  refine (statements_aligned (statement_aligned budget) rest).bind
    fun (first, others) _ hitems => ?_
  exact .skip fun _ _ => .ok rfl hitems

theorem program_aligned (budget : Nat) (ts : List Lexeme) :
    Gives Program.Aligned (program budget ts) := by
  refine .skip fun _ rest => ?_
  refine (procedure_aligned budget rest).bind fun first rest hfirst => ?_
  refine (repeatWhile_gives (procedure_aligned budget) rest).bind fun others _ hothers => ?_
  exact .ok rfl (List.forall_mem_cons.mpr ⟨hfirst, hothers⟩)

end Parse

/-! ## 5. Accepted programs -/

/-- **Every accepted tree keeps the invariants**: it is well-formed, and every operator in it has
    the line of its left operand. -/
theorem invariants_of_parse {source : String} {o : Options} {p : Program}
    (h : parse source o = .ok p) : p.WellFormed ∧ p.Aligned := by
  obtain ⟨_, rest, hp⟩ := parse_eq_ok_iff.mp h
  exact ⟨wellFormed_of_parse h, Parse.program_aligned o.maxNesting _ p rest hp⟩

/-- A program with operators over three lines. -/
def overLines : Program :=
  ⟨some ⟨[⟨"x", .int, some 3, 1⟩], 1⟩, [⟨.int, "f", ⟨[], 2⟩,
    ⟨[.assign ⟨"x", some (.binary .add (.int 1 3) (.int 2 4) 3), 3⟩
      (.binary .lt (.binary .mul (.int 3 4) (.call "f" 4) 4) (.float ⟨0x3ff8000000000000⟩ 5) 4) 3],
      3⟩, 2⟩], 1⟩

theorem invariants_over_lines :
    parse "int x[3];\nint f() \x7b\n  x[1 +\n 2] = 3 * f()\n < 1.5;\n\x7d" {} = .ok overLines ∧
      overLines.WellFormed ∧ overLines.Aligned := by
  have htokens : (scan "int x[3];\nint f() \x7b\n  x[1 +\n 2] = 3 * f()\n < 1.5;\n\x7d" {}).1 =
      [⟨.keyword .intKw, 1⟩, ⟨.ident "x", 1⟩, ⟨.symbol .lbracket, 1⟩, ⟨.int 3, 1⟩,
        ⟨.symbol .rbracket, 1⟩, ⟨.symbol .semicolon, 1⟩, ⟨.keyword .intKw, 2⟩, ⟨.ident "f", 2⟩,
        ⟨.symbol .lparen, 2⟩, ⟨.symbol .rparen, 2⟩, ⟨.symbol .lbrace, 2⟩, ⟨.ident "x", 3⟩,
        ⟨.symbol .lbracket, 3⟩, ⟨.int 1, 3⟩, ⟨.symbol .plus, 3⟩, ⟨.int 2, 4⟩,
        ⟨.symbol .rbracket, 4⟩, ⟨.symbol .assign, 4⟩, ⟨.int 3, 4⟩, ⟨.symbol .times, 4⟩,
        ⟨.ident "f", 4⟩, ⟨.symbol .lparen, 4⟩, ⟨.symbol .rparen, 4⟩, ⟨.symbol .less, 5⟩,
        ⟨.float ⟨0x3ff8000000000000⟩, 5⟩, ⟨.symbol .semicolon, 5⟩, ⟨.symbol .rbrace, 6⟩] := by
    decide +kernel
  have hp : parse "int x[3];\nint f() \x7b\n  x[1 +\n 2] = 3 * f()\n < 1.5;\n\x7d" {} =
      .ok overLines := by
    refine parse_eq_ok_iff.mpr ⟨by decide +kernel, [], ?_⟩
    rw [htokens]
    with_unfolding_all rfl
  exact ⟨hp, invariants_of_parse hp⟩

end CMinus
