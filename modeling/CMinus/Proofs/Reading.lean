import CMinus.Parse.Program

/-!
# Reading: what each production does at each kind of token

The equations that proofs about reading rest on: how one production follows another, and what a
production does when the next token is not the one it would act upon.
-/

namespace CMinus.Parse

variable {α β : Type}

/-! ## 1. One production after the other -/

theorem ok_bind (r : Read α) (k : Read α → Except Failure (Read β)) :
    (.ok r : Except Failure (Read α)) >>= k = k r := rfl

theorem bind_eq_ok {x : Except Failure (Read α)} {k : Read α → Except Failure (Read β)}
    {r : Read β} : x >>= k = .ok r ↔ ∃ a rest, x = .ok (a, rest) ∧ k (a, rest) = .ok r := by
  cases x with
  | error failure =>
    constructor
    · intro h
      cases h
    · rintro ⟨_, _, h, _⟩
      cases h
  | ok read =>
    constructor
    · intro h
      exact ⟨read.1, read.2, rfl, h⟩
    · rintro ⟨_, _, h, hk⟩
      cases h
      exact hk

/-! ## 2. The next token -/

theorem startsWith_eq_false {t : Token} {ts : List Lexeme}
    (h : ∀ line rest, ts = ⟨t, line⟩ :: rest → False) : startsWith (· = t) ts = false := by
  cases ts with
  | nil => rfl
  | cons l rest =>
    refine decide_eq_false fun e => h l.line rest ?_
    rw [← e]

theorem ne_of_startsWith_eq_false {t : Token} {ts : List Lexeme}
    (h : startsWith (· = t) ts = false) (line : Nat) (rest : List Lexeme) :
    ts ≠ ⟨t, line⟩ :: rest := by
  rintro rfl
  exact of_decide_eq_false h rfl

/-- An expression that does not start with a negation is a chain. -/
theorem expression_eq_chain {budget : Nat} {ts : List Lexeme}
    (h : startsWith (· = .symbol .not) ts = false) :
    expression budget ts = chain .logical budget ts := by
  rw [expression]
  intro line rest e
  exact ne_of_startsWith_eq_false h line rest e

/-- A name without a parenthesis behind it is a variable. -/
theorem factor_ident {budget line : Nat} {name : String} {rest : List Lexeme}
    (h : startsWith (· = .symbol .lparen) rest = false) :
    factor budget (⟨.ident name, line⟩ :: rest)
      = subscript budget name line rest >>= fun (place, rest) =>
          .ok (place.toExpression, rest) := by
  rw [factor]
  intro line' rest' e
  exact ne_of_startsWith_eq_false h line' rest' e

/-- The token can open a factor. -/
def startsFactor : Token → Bool
  | .ident _ | .int _ | .float _ | .symbol .lparen => true
  | _ => false

theorem factor_fail {budget : Nat} {ts : List Lexeme} (h : startsWith startsFactor ts = false) :
    factor budget ts = fail .expression ts := by
  rw [factor]
  · rintro name line line' rest rfl
    cases h
  · rintro name line rest rfl
    cases h
  · rintro value line rest rfl
    cases h
  · rintro value line rest rfl
    cases h
  · rintro line rest rfl
    cases h

theorem startsFactor_eq_false {ts : List Lexeme}
    (hIdent : ∀ name line rest, ts = ⟨.ident name, line⟩ :: rest → False)
    (hInt : ∀ value line rest, ts = ⟨.int value, line⟩ :: rest → False)
    (hFloat : ∀ value line rest, ts = ⟨.float value, line⟩ :: rest → False)
    (hParen : ∀ line rest, ts = ⟨.symbol .lparen, line⟩ :: rest → False) :
    startsWith startsFactor ts = false := by
  rcases ts with _ | ⟨⟨t, line⟩, rest⟩
  · rfl
  · cases t with
    | ident name => exact (hIdent name line rest rfl).elim
    | int value => exact (hInt value line rest rfl).elim
    | float value => exact (hFloat value line rest rfl).elim
    | symbol s =>
      cases s with
      | lparen => exact (hParen line rest rfl).elim
      | _ => rfl
    | string | keyword | eof => rfl

/-- A name without a bracket behind it is a variable that is no element. -/
theorem subscript_scalar {budget line : Nat} {name : String} {ts : List Lexeme}
    (h : startsWith (· = .symbol .lbracket) ts = false) :
    subscript budget name line ts = .ok (⟨name, none, line⟩, ts) := by
  rw [subscript]
  intro line' rest e
  exact ne_of_startsWith_eq_false h line' rest e

theorem operand_tighter {tier u : Tier} (h : tier.tighter? = some u) (budget : Nat)
    (ts : List Lexeme) : operand tier budget ts = chain u budget ts := by
  cases tier <;> cases h <;> rw [operand] <;> rfl

theorem operand_factor {tier : Tier} (h : tier.tighter? = none) (budget : Nat)
    (ts : List Lexeme) : operand tier budget ts = factor budget ts := by
  cases tier <;> cases h
  rw [operand]
  rfl

/-- A chain ends at a token that is no operator of its tier. -/
theorem chainRest_stop {tier : Tier} {budget : Nat} {left : Expression} {ts : List Lexeme}
    (h : startsWith (fun t => (tier.operator? t).isSome) ts = false) :
    chainRest tier budget left ts = .ok (left, ts) := by
  cases ts with
  | nil => rw [chainRest]
  | cons l rest =>
    have hl : tier.operator? l.token = none :=
      Option.isNone_iff_eq_none.mp (Option.isSome_eq_false_iff.mp h)
    rw [chainRest, hl]

/-- A name without a size behind it declares a scalar. -/
theorem dimension_none {ts : List Lexeme} (h : startsWith (· = .symbol .lbracket) ts = false) :
    dimension ts = .ok (none, ts) := by
  rw [dimension]
  intro line rest e
  exact ne_of_startsWith_eq_false h line rest e

/-! ## 3. The tokens left -/

/-- The tokens without their lines. -/
def tokensOf (ts : List Lexeme) : List Token :=
  ts.map Lexeme.token

@[simp] theorem tokensOf_nil : tokensOf [] = [] := rfl

@[simp] theorem tokensOf_cons (t : Token) (line : Nat) (ts : List Lexeme) :
    tokensOf (⟨t, line⟩ :: ts) = t :: tokensOf ts := rfl

@[simp] theorem length_tokensOf (ts : List Lexeme) : (tokensOf ts).length = ts.length :=
  List.length_map _

end CMinus.Parse
