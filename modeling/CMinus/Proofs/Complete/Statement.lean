import CMinus.Proofs.Complete.Expression

/-!
# Complete.Statement: a derived statement is read

A statement ends by itself, but for a conditional: behind one without a second block no `else` may
stand (`NoElse`). Lists of statements end at the brace that closes them.
-/

namespace CMinus.Parse

open Grammar

variable {α : Type}

/-! ## 1. Repetition -/

theorem repeatWhile_nil {more : List Lexeme → Bool} {item : Production α} {ts : List Lexeme}
    (h : more ts = false) : repeatWhile more item ts = .ok ([], ts) := by
  rw [repeatWhile, if_neg (by rw [h]; exact Bool.false_ne_true)]

theorem repeatWhile_cons {more : List Lexeme → Bool} {item : Production α} {n m budget : Nat}
    {ts rest rest' : List Lexeme} {a : α} {as : List α} (h : more ts = true)
    (hi : Within n budget (item ts) (.ok (a, rest))) (hlt : rest.length < ts.length)
    (hr : Within m budget (repeatWhile more item rest) (.ok (as, rest'))) :
    Within (max n m) budget (repeatWhile more item ts) (.ok (a :: as, rest')) := by
  rw [repeatWhile, if_pos h]
  refine hi.bind ?_
  simp only [if_pos hlt]
  exact hr.bind_ok

/-! ## 2. Statements -/

theorem condition_within (p : Value) (budget : Nat) (rest : List Lexeme) :
    Within p.levels budget (condition budget (row (inParens p.tokens) ++ rest))
      (.ok (p.tree, rest)) := by
  have hs : Stops (.chain .logical) (⟨.symbol .rparen, 0⟩ :: rest) := rfl
  simp only [inParens, row_cons, row_append, row_nil, List.cons_append, List.append_assoc,
    List.nil_append]
  exact (expression_within p budget hs).bind_ok

theorem startsStatement_clause (c : Clause) (rest : List Lexeme) :
    startsWith Token.startsStatement (row c.tokens ++ rest) = true := by
  cases c with
  | assign target value => cases target <;> rfl
  | _ => rfl

theorem startsStatement_clauses (cs : Clauses) (rest : List Lexeme) :
    startsWith Token.startsStatement (row cs.tokens ++ rest) = true := by
  cases cs with
  | one c => exact startsStatement_clause c rest
  | more c cs =>
    rw [Clauses.tokens, row_append, List.append_assoc]
    exact startsStatement_clause c _

/-- The rest does not go on with a second block. -/
def NoElse (rest : List Lexeme) : Prop :=
  startsWith (· = .keyword .elseKw) rest = false

theorem NoElse.of_startsStatement {ts : List Lexeme}
    (h : startsWith Token.startsStatement ts = true) : NoElse ts := by
  cases ts with
  | nil => rfl
  | cons l rest =>
    refine decide_eq_false fun e => ?_
    rw [startsWith, e] at h
    cases h

theorem repeat_end (item : Production Statement) (budget : Nat) (rest : List Lexeme) :
    Within 0 budget
      (repeatWhile (startsWith Token.startsStatement) item (⟨.symbol .rbrace, 0⟩ :: rest))
      (.ok ([], ⟨.symbol .rbrace, 0⟩ :: rest)) := by
  rw [repeatWhile_nil rfl]
  exact .refl _

theorem statements_within {item : Production Statement} {n m budget : Nat}
    {ts rest rest' : List Lexeme} {s : Statement} {ss : List Statement}
    (hi : Within n budget (item ts) (.ok (s, rest)))
    (hr : Within m budget (repeatWhile (startsWith Token.startsStatement) item rest)
      (.ok (ss, rest'))) :
    Within (max n m) budget (statements item ts) (.ok ((s, ss), rest')) :=
  hi.bind hr.bind_ok

/-- Statements between braces, when they are read up to the closing one. -/
theorem braces_within {cs : Clauses} {budget : Nat} (rest : List Lexeme)
    (h : Within cs.levels budget
      (statements (statement budget) (row cs.tokens ++ ⟨.symbol .rbrace, 0⟩ :: rest))
      (.ok ((cs.first, cs.others), ⟨.symbol .rbrace, 0⟩ :: rest))) :
    Within cs.levels budget (braces (statement budget) (row (inBraces cs.tokens) ++ rest))
      (.ok (⟨cs.trees, 0⟩, rest)) := by
  simp only [inBraces, row_cons, row_append, row_nil, List.cons_append, List.append_assoc,
    List.nil_append]
  rw [← cs.first_cons_others]
  exact h.bind_ok

theorem written_within (p : Value) (budget : Nat) {rest : List Lexeme}
    (hs : Stops (.chain .logical) rest) :
    Within p.levels budget (written budget (row p.tokens ++ rest)) (.ok (p.tree, rest)) := by
  have e : written budget (row p.tokens ++ rest) = expression budget (row p.tokens ++ rest) := by
    rw [written]
    intro text line ts e
    have h := startsWith_value p rest
    rw [e] at h
    cases h
  rw [e]
  exact expression_within p budget hs

/-- A statement that starts with a variable is an assignment. -/
theorem statement_place (p : Phrase .variable) (budget : Nat) (rest : List Lexeme) :
    statement (budget + 1) (row p.tokens ++ rest)
      = place budget (row p.tokens ++ rest) >>= fun (target, rest) =>
          sign .assign rest >>= fun (_, rest) =>
            expression budget rest >>= fun (value, rest) =>
              sign .semicolon rest >>= fun (_, rest) => .ok (.assign target value 0, rest) := by
  cases p <;> rfl

/-- A statement opens a level for everything in it. -/
theorem statement_deeper {n : Nat} {ts : List Lexeme} {next : Except Failure (Read Statement)}
    (h : ∀ less, Within n less (statement (less + 1) ts) next) (budget : Nat) :
    Within (n + 1) budget (statement budget ts) next := by
  cases budget with
  | zero => exact .none_left ts
  | succ less => exact (h less).succ

mutual

/-- **Every derivation of a statement is read.** -/
theorem clause_within : (c : Clause) → ∀ budget {rest}, NoElse rest →
    Within c.levels budget (statement budget (row c.tokens ++ rest)) (.ok (c.tree, rest))
  | .assign target value => by
    intro budget rest _
    rw [Clause.levels]
    refine statement_deeper (fun less => ?_) budget
    have hs : Stops .variable
      (⟨.symbol .assign, 0⟩ :: (row value.tokens ++ ⟨.symbol .semicolon, 0⟩ :: rest)) := rfl
    have hs' : Stops (.chain .logical) (⟨.symbol .semicolon, 0⟩ :: rest) := rfl
    simp only [Clause.tokens, row_cons, row_append, row_nil, List.cons_append,
      List.append_assoc, List.nil_append, statement_place]
    exact (place_within target less hs).bind (expression_within value less hs').bind_ok
  | .ifThen test body => by
    intro budget rest h
    rw [Clause.levels]
    refine statement_deeper (fun less => ?_) budget
    simp only [Clause.tokens, row_cons, row_append, List.cons_append, List.append_assoc, statement]
    refine (condition_within test less _).bind ?_
    refine (braces_within rest (list_within body less rest)).bind_eq ?_
    simp only []
    split
    · cases h
    · rfl
  | .ifElse test body other => by
    intro budget rest _
    rw [Clause.levels]
    refine statement_deeper (fun less => ?_) budget
    simp only [Clause.tokens, row_cons, row_append, List.cons_append, List.append_assoc, statement]
    refine (condition_within test less _).bind ?_
    refine (braces_within _ (list_within body less _)).bind ?_
    exact (braces_within rest (list_within other less rest)).bind_ok
  | .whileDo test body => by
    intro budget rest h
    rw [Clause.levels]
    refine statement_deeper (fun less => ?_) budget
    simp only [Clause.tokens, row_cons, row_append, List.cons_append, List.append_assoc, statement]
    exact (condition_within test less _).bind (clause_within body less h).bind_ok
  | .read target => by
    intro budget rest _
    rw [Clause.levels]
    refine statement_deeper (fun less => ?_) budget
    have hs : Stops .variable (⟨.symbol .rparen, 0⟩ :: ⟨.symbol .semicolon, 0⟩ :: rest) := rfl
    simp only [Clause.tokens, inParens, row_cons, row_append, row_nil, List.cons_append,
      List.append_assoc, List.nil_append, statement]
    exact (place_within target less hs).bind_ok
  | .write value => by
    intro budget rest _
    rw [Clause.levels]
    refine statement_deeper (fun less => ?_) budget
    have hs : Stops (.chain .logical)
      (⟨.symbol .rparen, 0⟩ :: ⟨.symbol .semicolon, 0⟩ :: rest) := rfl
    simp only [Clause.tokens, inParens, row_cons, row_append, row_nil, List.cons_append,
      List.append_assoc, List.nil_append, statement]
    exact (written_within value less hs).bind_ok
  | .writeText text => by
    intro budget rest _
    rw [Clause.levels]
    exact statement_deeper (fun less => .refl _) budget
  | .returns value => by
    intro budget rest _
    rw [Clause.levels]
    refine statement_deeper (fun less => ?_) budget
    have hs : Stops (.chain .logical) (⟨.symbol .semicolon, 0⟩ :: rest) := rfl
    simp only [Clause.tokens, row_cons, row_append, row_nil, List.cons_append,
      List.append_assoc, List.nil_append, statement]
    exact (expression_within value less hs).bind_ok
  | .exit => by
    intro budget rest _
    rw [Clause.levels]
    exact statement_deeper (fun less => .refl _) budget
  | .compound body => by
    intro budget rest _
    rw [Clause.levels]
    refine statement_deeper (fun less => ?_) budget
    have h := (braces_within rest (list_within body less rest)).bind_ok
      (k := fun (block, rest) => .ok (Statement.compound block, rest))
    exact h

/-- The statements in front of a closing brace, as often as another one starts. -/
theorem repeat_within : (cs : Clauses) → ∀ budget rest,
    Within cs.levels budget
      (repeatWhile (startsWith Token.startsStatement) (statement budget)
        (row cs.tokens ++ ⟨.symbol .rbrace, 0⟩ :: rest))
      (.ok (cs.trees, ⟨.symbol .rbrace, 0⟩ :: rest))
  | .one c => by
    intro budget rest
    have he : NoElse (⟨.symbol .rbrace, 0⟩ :: rest) := rfl
    have hc := clause_within c budget he
    have h := repeatWhile_cons (startsStatement_clause c _) hc
      (length_lt_row_append c.tokens_ne_nil _) (repeat_end _ budget rest)
    rwa [Nat.max_zero] at h
  | .more c cs => by
    intro budget rest
    have he := NoElse.of_startsStatement
      (startsStatement_clauses cs (⟨.symbol .rbrace, 0⟩ :: rest))
    have hc := clause_within c budget he
    simp only [Clauses.tokens, row_append, List.append_assoc]
    exact repeatWhile_cons (startsStatement_clause c _) hc
      (length_lt_row_append c.tokens_ne_nil _) (repeat_within cs budget rest)

/-- The statements in front of a closing brace. -/
theorem list_within : (cs : Clauses) → ∀ budget rest,
    Within cs.levels budget
      (statements (statement budget) (row cs.tokens ++ ⟨.symbol .rbrace, 0⟩ :: rest))
      (.ok ((cs.first, cs.others), ⟨.symbol .rbrace, 0⟩ :: rest))
  | .one c => by
    intro budget rest
    have he : NoElse (⟨.symbol .rbrace, 0⟩ :: rest) := rfl
    have hc := clause_within c budget he
    have h := statements_within hc (repeat_end _ budget rest)
    rwa [Nat.max_zero] at h
  | .more c cs => by
    intro budget rest
    have he := NoElse.of_startsStatement
      (startsStatement_clauses cs (⟨.symbol .rbrace, 0⟩ :: rest))
    have hc := clause_within c budget he
    simp only [Clauses.tokens, row_append, List.append_assoc]
    exact statements_within hc (repeat_within cs budget rest)

end

end CMinus.Parse
