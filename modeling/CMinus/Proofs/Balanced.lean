import CMinus.Proofs.Lookahead
import CMinus.Proofs.Sound.Program
import CMinus.Proofs.Steady

/-!
# Balanced: the counter of levels is right at every token

Whoever opens a level closes it, and a chain closes as many as it has opened. So a production that
succeeds leaves the counter where it was, and one that fails leaves it no lower; in between it never
falls below the depth at which the production was begun, nor rises above the limit, and so never
wraps around. Then the levels left are always the limit without the levels open, and the counted
productions read what the productions under that budget read (`depth_balanced`).
-/

namespace CMinus.Parse

variable {w : Nat} {α : Type}

/-! ## 1. Expressions -/

section Productions

variable {limit : BitVec w} {spare : Nat}

/-- A production that opens no level, begun as deep as the one it belongs to. -/
theorem uncounted_steady {d n : Nat} (hd : d + n = limit.toNat) (ts : List Lexeme)
    (p : Production α) : Steady limit d d d ts (Counted.uncounted p) (p ts) :=
  .uncounted (Nat.le_refl d) (by omega) p ts

/-- All six productions at once, along the calls that are made under a budget: the levels that the
    limit leaves. Of the calls that are allowed, `spare` levels are never needed. A chain has its
    own levels open at its end. -/
theorem expression_family_steady :
    (∀ n ts, ∀ d, d + n = limit.toNat →
      Steady limit d d d ts (Counted.expression limit (spare + n)) (expression n ts)) ∧
    (∀ tier n left ts, ∀ d (levels : BitVec w), d + levels.toNat + n = limit.toNat →
      Steady limit d (d + levels.toNat) d ts (Counted.chainRest limit tier (spare + n) levels left)
        (chainRest tier n left ts)) ∧
    (∀ tier n ts, ∀ d, d + n = limit.toNat →
      Steady limit d d d ts (Counted.operand limit tier (spare + n)) (operand tier n ts)) ∧
    (∀ n ts, ∀ d, d + n = limit.toNat →
      Steady limit d d d ts (Counted.factor limit (spare + n)) (factor n ts)) ∧
    (∀ n name line ts, ∀ d, d + n = limit.toNat →
      Steady limit d d d ts (Counted.subscript limit (spare + n) name line)
        (subscript n name line ts)) ∧
    (∀ tier n ts, ∀ d, d + n = limit.toNat →
      Steady limit d d d ts (Counted.chain limit tier (spare + n)) (chain tier n ts)) := by
  apply expression.mutual_induct
    (fun n ts => ∀ d, d + n = limit.toNat →
      Steady limit d d d ts (Counted.expression limit (spare + n)) (expression n ts))
    (fun tier n left ts => ∀ d (levels : BitVec w), d + levels.toNat + n = limit.toNat →
      Steady limit d (d + levels.toNat) d ts (Counted.chainRest limit tier (spare + n) levels left)
        (chainRest tier n left ts))
    (fun tier n ts => ∀ d, d + n = limit.toNat →
      Steady limit d d d ts (Counted.operand limit tier (spare + n)) (operand tier n ts))
    (fun n ts => ∀ d, d + n = limit.toNat →
      Steady limit d d d ts (Counted.factor limit (spare + n)) (factor n ts))
    (fun n name line ts => ∀ d, d + n = limit.toNat →
      Steady limit d d d ts (Counted.subscript limit (spare + n) name line)
        (subscript n name line ts))
    (fun tier n ts => ∀ d, d + n = limit.toNat →
      Steady limit d d d ts (Counted.chain limit tier (spare + n)) (chain tier n ts))
  case case1 => -- a negation without a level for it
    intro line rest d hd
    rw [Counted.expression]
    simp only [expression]
    exact Steady.ahead.follow (.entering_full (Nat.le_refl d) hd)
  case case2 => -- a negation
    intro line rest n ihOperand ihRest d hd
    rw [Counted.expression]
    simp only [expression]
    refine Steady.ahead.follow ?_
    refine .entering (Nat.le_refl d) (by omega) _ ?_
    refine ((ihOperand (d + 1) (by omega)).mono (Nat.le_succ d)).bind fun negated rest => ?_
    refine (Steady.release_one (Nat.le_refl d) (by omega)).follow ?_
    exact ihRest negated rest d 0 (by simpa using hd)
  case case3 => -- no negation
    intro n ts hts ih d hd
    have h := startsWith_eq_false hts
    rw [expression_eq_chain h, Counted.expression]
    refine Steady.ahead.follow ?_
    split
    · cases h
    · exact ih d hd
  case case4 => -- the end of the tokens behind a chain
    intro tier n left d levels hd
    rw [Counted.chainRest]
    simp only [chainRest]
    refine Steady.ahead.follow ?_
    exact (Steady.release (Nat.le_refl d) (by omega) rfl).follow (.ok left)
  case case5 => -- no operator of the tier behind a chain
    intro tier n left l rest h d levels hd
    rw [Counted.chainRest]
    simp only [chainRest, h]
    refine Steady.ahead.follow ?_
    simp only [List.head?_cons, Option.bind_some, h]
    exact (Steady.release (Nat.le_refl d) (by omega) rfl).follow (.ok left)
  case case6 => -- an operator without a level for it
    intro tier left l rest op h d levels hd
    rw [Counted.chainRest]
    simp only [chainRest, h]
    refine Steady.ahead.follow ?_
    simp only [List.head?_cons, Option.bind_some, h]
    exact .entering_full (Nat.le_add_right d _) hd
  case case7 => -- an operator
    intro tier left l rest op h n ihOperand ihRest d levels hd
    -- The chain has no more levels open than the limit allows, so their number fits a word.
    have hlevels : (levels + 1).toNat = levels.toNat + 1 := by
      have := limit.isLt
      exact toNat_add_one (by omega)
    rw [Counted.chainRest]
    simp only [chainRest, h]
    refine Steady.ahead.follow ?_
    simp only [List.head?_cons, Option.bind_some, h]
    refine .entering (Nat.le_add_right d _) (by omega) l ?_
    have hoperand := ihOperand (d + levels.toNat + 1) (by omega)
    refine (hoperand.mono (by omega)).bind fun right rest => ?_
    have hrest := ihRest right rest d (levels + 1) (by omega)
    rwa [hlevels] at hrest
  case case8 => -- an operand of a tier above the tightest one
    intro tier n ts tighter h ih d hd
    rw [operand_tighter h, Counted.operand, h]
    exact ih d hd
  case case9 => -- an operand of the tightest tier
    intro tier n ts h ih d hd
    rw [operand_factor h, Counted.operand, h]
    exact ih d hd
  case case10 => -- a call
    intro n name line line' rest d hd
    rw [Counted.factor]
    simp only [factor]
    refine Steady.ahead.follow ?_
    refine (Steady.advance _).follow ?_
    refine Steady.ahead.follow ?_
    refine (Steady.advance _).follow ?_
    exact (uncounted_steady hd rest (sign .rparen)).bind fun _ rest => .ok _
  case case11 => -- a variable
    intro n name line rest hrest ih d hd
    have h := startsWith_eq_false hrest
    rw [factor_ident h, Counted.factor]
    refine Steady.ahead.follow ?_
    refine (Steady.advance _).follow ?_
    refine Steady.ahead.follow ?_
    split
    · cases h
    · exact (ih d hd).bind fun place rest => .ok place.toExpression
  case case12 => -- a whole number
    intro n value line rest d hd
    rw [Counted.factor]
    simp only [factor]
    refine Steady.ahead.follow ?_
    exact (Steady.advance _).follow (.ok _)
  case case13 => -- a fraction
    intro n value line rest d hd
    rw [Counted.factor]
    simp only [factor]
    refine Steady.ahead.follow ?_
    exact (Steady.advance _).follow (.ok _)
  case case14 => -- a parenthesis without a level for it
    intro line rest d hd
    rw [Counted.factor]
    simp only [factor]
    exact Steady.ahead.follow (.entering_full (Nat.le_refl d) hd)
  case case15 => -- an expression in parentheses
    intro line rest n ih d hd
    rw [Counted.factor]
    simp only [factor]
    refine Steady.ahead.follow ?_
    refine .entering (Nat.le_refl d) (by omega) _ ?_
    exact .enclosed (Nat.le_refl d) (by omega) (ih (d + 1) (by omega)) .rparen id
  case case16 => -- no factor
    intro n ts _ hIdent hInt hFloat hParen d hd
    have h := startsFactor_eq_false hIdent hInt hFloat hParen
    rw [factor_fail h, Counted.factor]
    refine Steady.ahead.follow ?_
    split
    all_goals first | cases h | exact uncounted_steady hd _ (fail .expression)
  case case17 => -- a bracket without a level for it
    intro name line line' rest d hd
    rw [Counted.subscript]
    simp only [subscript]
    exact Steady.ahead.follow (.entering_full (Nat.le_refl d) hd)
  case case18 => -- an index
    intro name line line' rest n ih d hd
    rw [Counted.subscript]
    simp only [subscript]
    refine Steady.ahead.follow ?_
    refine .entering (Nat.le_refl d) (by omega) _ ?_
    exact .enclosed (Nat.le_refl d) (by omega) (ih (d + 1) (by omega)) .rbracket
      fun index => Variable.mk name (some index) line
  case case19 => -- no index
    intro n name line ts hts d hd
    have h := startsWith_eq_false hts
    rw [subscript_scalar h, Counted.subscript]
    refine Steady.ahead.follow ?_
    split
    · cases h
    · exact .ok _
  case case20 => -- a chain
    intro tier n ts ihOperand ihRest d hd
    rw [chain, Counted.chain]
    exact (ihOperand d hd).bind fun left rest => ihRest left rest d 0 hd

section Expressions

variable {d n : Nat} (hd : d + n = limit.toNat) (ts : List Lexeme)
include hd

theorem expression_steady :
    Steady limit d d d ts (Counted.expression limit (spare + n)) (expression n ts) :=
  expression_family_steady.1 n ts d hd

theorem chain_steady (tier : Tier) :
    Steady limit d d d ts (Counted.chain limit tier (spare + n)) (chain tier n ts) :=
  expression_family_steady.2.2.2.2.2 tier n ts d hd

theorem factor_steady : Steady limit d d d ts (Counted.factor limit (spare + n)) (factor n ts) :=
  expression_family_steady.2.2.2.1 n ts d hd

theorem subscript_steady (name : String) (line : Nat) :
    Steady limit d d d ts (Counted.subscript limit (spare + n) name line)
      (subscript n name line ts) :=
  expression_family_steady.2.2.2.2.1 n name line ts d hd

theorem place_steady : Steady limit d d d ts (Counted.place limit (spare + n)) (place n ts) := by
  refine (uncounted_steady hd ts identifier).bind fun named rest => ?_
  exact subscript_steady hd rest named.1 named.2

/-! ## 2. Statements -/

theorem condition_steady :
    Steady limit d d d ts (Counted.condition limit (spare + n)) (condition n ts) := by
  refine (uncounted_steady hd ts (sign .lparen)).bind fun _ rest => ?_
  refine (expression_steady hd rest).bind fun test rest => ?_
  exact (uncounted_steady hd rest (sign .rparen)).bind fun _ rest => .ok test

theorem written_steady :
    Steady limit d d d ts (Counted.written limit (spare + n)) (written n ts) := by
  refine Steady.ahead.follow ?_
  split
  · exact (Steady.advance _).follow (.ok _)
  · rename_i h
    rw [written_eq_expression h]
    exact expression_steady hd ts

end Expressions

section Statements

variable {d n : Nat} {item : Counted w Statement}
  (hs : ∀ ts, Steady limit d d d ts item (statement n ts))
include hs

theorem statements_steady (ts : List Lexeme) :
    Steady limit d d d ts (Counted.statements item) (statements (statement n) ts) := by
  refine (hs ts).bind fun first rest => ?_
  refine (Steady.repeatWhile hs (fun _ _ _ => statement_length_lt) rest).bind ?_
  exact fun others rest => .ok (first, others)

variable (hd : d + n = limit.toNat) (ts : List Lexeme)
include hd

theorem compound_steady :
    Steady limit d d d ts (Counted.compound item) (braces (statement n) ts) := by
  refine (uncounted_steady hd ts (sign .lbrace)).bind fun line rest => ?_
  refine (statements_steady hs rest).bind fun listed rest => ?_
  exact (uncounted_steady hd rest (sign .rbrace)).bind fun _ rest =>
    .ok (Block.mk (listed.1 :: listed.2) line)

/-- What may follow the block of an `if`, by the next token alone. -/
theorem elseBlock_steady (test : Expression) (body : Block Statement) (line : Nat) :
    Steady limit d d d ts
      (do
        match ← Counted.ahead with
        | ⟨.keyword .elseKw, _⟩ :: _ =>
          Counted.advance
          let other ← Counted.compound item
          return .ifElse test body other line
        | _ => return .ifThen test body line)
      (match ts with
        | ⟨.keyword .elseKw, _⟩ :: rest => do
          let (other, rest) ← braces (statement n) rest
          .ok (Statement.ifElse test body other line, rest)
        | rest => .ok (.ifThen test body line, rest)) := by
  refine Steady.ahead.follow ?_
  rcases ts with _ | ⟨⟨t, line'⟩, rest⟩
  · exact .ok (Statement.ifThen test body line)
  · cases t with
    | keyword word =>
      cases word with
      | elseKw =>
        refine (Steady.advance _).follow ?_
        exact (compound_steady hs hd rest).bind fun other rest =>
          .ok (Statement.ifElse test body other line)
      | _ => exact .ok (Statement.ifThen test body line)
    | _ => exact .ok (Statement.ifThen test body line)

/-- A statement whose level is open, by its first token. -/
theorem statementKind_steady :
    Steady limit d d d ts (Counted.statementKind limit (spare + n) item)
      (statement (n + 1) ts) := by
  rw [Counted.statementKind]
  rcases ts with _ | ⟨⟨t, line⟩, rest⟩
  · exact Steady.ahead.follow (uncounted_steady hd _ (fail .statement))
  · refine Steady.ahead.follow ?_
    cases t with
    | ident name =>
      refine (place_steady hd (⟨.ident name, line⟩ :: rest)).bind fun target rest => ?_
      refine (uncounted_steady hd rest (sign .assign)).bind fun _ rest => ?_
      refine (expression_steady hd rest).bind fun value rest => ?_
      exact (uncounted_steady hd rest (sign .semicolon)).bind fun _ rest =>
        .ok (Statement.assign target value line)
    | keyword word =>
      cases word with
      | ifKw =>
        refine (Steady.advance _).follow ?_
        refine (condition_steady hd rest).bind fun test rest => ?_
        refine (compound_steady hs hd rest).bind fun body rest => ?_
        exact elseBlock_steady hs hd rest test body line
      | whileKw =>
        refine (Steady.advance _).follow ?_
        refine (condition_steady hd rest).bind fun test rest => ?_
        exact (hs rest).bind fun body rest => .ok (Statement.whileDo test body line)
      | readKw =>
        refine (Steady.advance _).follow ?_
        refine (uncounted_steady hd rest (sign .lparen)).bind fun _ rest => ?_
        refine (place_steady hd rest).bind fun target rest => ?_
        refine (uncounted_steady hd rest (sign .rparen)).bind fun _ rest => ?_
        exact (uncounted_steady hd rest (sign .semicolon)).bind fun _ rest =>
          .ok (Statement.read target line)
      | writeKw =>
        refine (Steady.advance _).follow ?_
        refine (uncounted_steady hd rest (sign .lparen)).bind fun _ rest => ?_
        refine (written_steady hd rest).bind fun value rest => ?_
        refine (uncounted_steady hd rest (sign .rparen)).bind fun _ rest => ?_
        exact (uncounted_steady hd rest (sign .semicolon)).bind fun _ rest =>
          .ok (Statement.write value line)
      | returnKw =>
        refine (Steady.advance _).follow ?_
        refine (expression_steady hd rest).bind fun value rest => ?_
        exact (uncounted_steady hd rest (sign .semicolon)).bind fun _ rest =>
          .ok (Statement.returns value line)
      | exitKw =>
        refine (Steady.advance _).follow ?_
        exact (uncounted_steady hd rest (sign .semicolon)).bind fun _ rest =>
          .ok (Statement.exit line)
      | elseKw | floatKw | intKw => exact uncounted_steady hd _ (fail .statement)
    | symbol s =>
      cases s with
      | lbrace =>
        exact (compound_steady hs hd (⟨.symbol .lbrace, line⟩ :: rest)).bind fun body rest =>
          .ok (Statement.compound body)
      | _ => exact uncounted_steady hd _ (fail .statement)
    | int | float | string | eof => exact uncounted_steady hd _ (fail .statement)

end Statements

/-- By the levels that are left: one less is left for the statements within. -/
theorem statement_steady {d n : Nat} (hd : d + n = limit.toNat) (ts : List Lexeme) :
    Steady limit d d d ts (Counted.statement limit (spare + n)) (statement n ts) := by
  induction n generalizing d ts with
  | zero =>
    -- The counter stops this before the bound on the calls is looked at.
    cases spare with
    | zero => exact .full (Nat.le_refl d) hd
    | succ spare => exact .full (Nat.le_refl d) hd
  | succ n ih =>
    refine (Steady.charge (Nat.le_refl d) (by omega)).follow ?_
    have hless : d + 1 + n = limit.toNat := by omega
    exact .closing (Nat.le_refl d) (by omega) (statementKind_steady (ih hless) hless ts)

/-! ## 3. Programs -/

section Programs

variable {d n : Nat} (hd : d + n = limit.toNat) (ts : List Lexeme)
include hd

theorem procedure_steady :
    Steady limit d d d ts (Counted.procedure limit (spare + n)) (procedure n ts) := by
  refine (uncounted_steady hd ts valueType).bind fun typed rest => ?_
  refine (uncounted_steady hd rest identifier).bind fun named rest => ?_
  refine (uncounted_steady hd rest (sign .lparen)).bind fun _ rest => ?_
  refine (uncounted_steady hd rest (sign .rparen)).bind fun _ rest => ?_
  refine (uncounted_steady hd rest declarations).bind fun before rest => ?_
  refine (uncounted_steady hd rest (sign .lbrace)).bind fun openLine rest => ?_
  refine (uncounted_steady hd rest declarations).bind fun behind rest => ?_
  refine (statements_steady (statement_steady hd) rest).bind fun listed rest => ?_
  exact (uncounted_steady hd rest (sign .rbrace)).bind fun _ rest =>
    .ok (Procedure.mk typed.1 named.1 (blockOf openLine (before ++ behind))
      ⟨listed.1 :: listed.2, listed.1.line⟩ typed.2)

theorem program_steady :
    Steady limit d d d ts (Counted.program limit (spare + n)) (program n ts) := by
  refine (uncounted_steady hd ts _).bind fun groups rest => ?_
  refine (procedure_steady hd rest).bind fun first rest => ?_
  refine (Steady.repeatWhile (procedure_steady hd) (fun _ _ _ => procedure_length_lt) rest).bind ?_
  exact fun others rest =>
    .ok (Program.mk (globalsOf groups.flatten) (first :: others)
      ((globalsOf groups.flatten).elim first.line (·.line)))

end Programs

end Productions

/-! ## 4. The counter -/

/-- How many levels the limit leaves. -/
def Cursor.left (limit : BitVec w) (c : Cursor w) : Nat :=
  limit.toNat - c.depth.toNat

/-- Begun at `c`, the production ends and reads `r`. Every change of the counter on the way is on
    record; none wraps around, none leads below the depth of `c` and none above the limit. With
    success the depth is that of `c` again, with a failure no less. -/
def Balanced (limit : BitVec w) (c : Cursor w) (x : Counted w α)
    (r : Except Failure (Read α)) : Prop :=
  ∃ answer last moves, x.run.run c = some (answer, last) ∧ last.moves = c.moves ++ moves ∧
    Move.Course c.depth moves last.depth ∧
    (∀ m ∈ moves, m.Fits ∧ c.depth ≤ m.after ∧ m.after ≤ limit) ∧
    (∀ a, answer = .ok a → last.depth = c.depth ∧ r = .ok (a, last.ahead)) ∧
    (∀ failure, answer = .error failure → c.depth ≤ last.depth ∧ last.depth ≤ limit ∧
      last.ahead = failure.rest ∧ r = .error failure)

theorem Steady.balanced {limit : BitVec w} {c : Cursor w} {x : Counted w α}
    {r : Except Failure (Read α)}
    (h : Steady limit c.depth.toNat c.depth.toNat c.depth.toNat c.ahead x r) :
    Balanced limit c x r := by
  obtain ⟨answer, last, moves, hrun, hmoves, hcourse, hwithin, hends⟩ := h c rfl rfl
  refine ⟨answer, last, moves, hrun, hmoves, hcourse, hwithin, ?_, ?_⟩
  · rintro a rfl
    cases hends with
    | ok _ hrest hstop => exact ⟨BitVec.eq_of_toNat_eq hstop, by rw [hrest]⟩
  · rintro failure rfl
    cases hends with
    | error _ hrest hbase hlimit => exact ⟨hbase, hlimit, hrest, rfl⟩

/-- **The counter of levels is balanced.** At a depth that the limit allows, every production leaves
    the counter as it was when it succeeds and no lower when it fails. At no moment is it below that
    depth or above the limit, and no level is closed that is not open. So the counter tells at every
    token how many levels are left, and what is read is what is read with so many levels left: by a
    statement, with its own level open or not, statements between braces, an expression, a chain of
    any tier, a factor, a variable, what follows its name, and a whole program. To call as many
    levels deep as are left is enough for all of that. -/
theorem depth_balanced {limit : BitVec w} {c : Cursor w} {n : Nat} (h : c.depth ≤ limit)
    (hn : c.left limit ≤ n) :
    Balanced limit c (Counted.statement limit n) (statement (c.left limit) c.ahead) ∧
    Balanced limit c (Counted.statementKind limit n (Counted.statement limit n))
      (statement (c.left limit + 1) c.ahead) ∧
    Balanced limit c (Counted.compound (Counted.statement limit n))
      (braces (statement (c.left limit)) c.ahead) ∧
    Balanced limit c (Counted.expression limit n) (expression (c.left limit) c.ahead) ∧
    (∀ tier, Balanced limit c (Counted.chain limit tier n) (chain tier (c.left limit) c.ahead)) ∧
    Balanced limit c (Counted.factor limit n) (factor (c.left limit) c.ahead) ∧
    Balanced limit c (Counted.place limit n) (place (c.left limit) c.ahead) ∧
    (∀ name line, Balanced limit c (Counted.subscript limit n name line)
      (subscript (c.left limit) name line c.ahead)) ∧
    Balanced limit c (Counted.program limit n) (program (c.left limit) c.ahead) := by
  have hd : c.depth.toNat + c.left limit = limit.toNat := Nat.add_sub_cancel' h
  obtain ⟨spare, rfl⟩ := Nat.exists_eq_add_of_le' hn
  have hs (ts : List Lexeme) : Steady limit c.depth.toNat c.depth.toNat c.depth.toNat ts
      (Counted.statement limit (spare + c.left limit)) (statement (c.left limit) ts) :=
    statement_steady hd ts
  exact ⟨(hs c.ahead).balanced, (statementKind_steady hs hd c.ahead).balanced,
    (compound_steady hs hd c.ahead).balanced, (expression_steady hd c.ahead).balanced,
    fun tier => (chain_steady hd c.ahead tier).balanced, (factor_steady hd c.ahead).balanced,
    (place_steady hd c.ahead).balanced,
    fun name line => (subscript_steady hd c.ahead name line).balanced,
    (program_steady hd c.ahead).balanced⟩

/-- In front of `x = (a * b;`, within another statement. -/
def unclosed : Cursor 64 where
  ahead := [⟨.ident "x", 1⟩, ⟨.symbol .assign, 1⟩, ⟨.symbol .lparen, 1⟩, ⟨.ident "a", 1⟩,
    ⟨.symbol .times, 1⟩, ⟨.ident "b", 1⟩, ⟨.symbol .semicolon, 1⟩]
  depth := 1

/-- A parenthesis that is not closed fails with its level open, while those of the product and of
    the statement have been closed. -/
theorem depth_balanced_unclosed :
    unclosed.depth ≤ 4 ∧ unclosed.left 4 ≤ 3 ∧
      ∃ failure last, (Counted.statement 4 3).run.run unclosed = some (.error failure, last) ∧
        failure.rest = [⟨.symbol .semicolon, 1⟩] ∧ last.depth = 2 ∧
        ∀ m ∈ last.moves, m.Fits ∧ unclosed.depth ≤ m.after ∧ m.after ≤ 4 := by
  have hdepth : unclosed.depth ≤ 4 := by decide
  have hleft : unclosed.left 4 ≤ 3 := by decide
  have hlast : ((Counted.statement 4 3).run.run unclosed).map (fun r => (r.2.ahead, r.2.depth)) =
      some ([⟨.symbol .semicolon, 1⟩], 2) := by decide +kernel
  obtain ⟨answer, last, moves, hrun, hmoves, _, hwithin, hok, herror⟩ :=
    (depth_balanced hdepth hleft).1
  rw [hrun] at hlast
  obtain ⟨hahead, htwo⟩ := Prod.ext_iff.mp (Option.some.inj hlast)
  cases answer with
  | ok a =>
    have hone : (2 : BitVec 64) = 1 := htwo.symm.trans (hok a rfl).1
    exact absurd hone (by decide)
  | error failure =>
    have hrest : failure.rest = [⟨.symbol .semicolon, 1⟩] :=
      (herror failure rfl).2.2.1.symm.trans hahead
    exact ⟨hdepth, hleft, failure, last, hrun, hrest, htwo, hmoves ▸ hwithin⟩

end CMinus.Parse
