import CMinus.Parse.Production
import CMinus.Syntax.Expression

/-!
# Reading expressions

Each function is given a *budget*: how many levels may still be opened. A negation, a parenthesis
and an index open one level for what they hold; an operator of a chain opens one for the rest of
its chain. With an empty budget the token that would open a level is the offending one. So the
budget never has to be given back: what follows a closed level has the budget it had before.

* an expression: a chain of logical operators, its first operand possibly negated;
* a chain of a tier: operands joined by operators of that tier, grouped to the left;
* an operand of a tier: a chain of the next tighter tier, or a factor below the tightest one;
* a factor: a variable, an element of an array, a call, a constant, an expression in parentheses.

Every call either lowers the budget or goes to a tighter tier, which is why reading ends.
-/

namespace CMinus.Parse

theorem rank_tighter {t u : Tier} (h : t.tighter? = some u) : u.rank = t.rank + 1 := by
  cases t <;> simp [Tier.tighter?] at h <;> subst h <;> rfl

theorem rank_pos (t : Tier) : 1 ≤ t.rank := by
  cases t <;> decide

theorem rank_le (t : Tier) : t.rank ≤ 4 := by
  cases t <;> decide

mutual

/-- An expression. -/
def expression (budget : Nat) (ts : List Lexeme) : Except Failure (Read Expression) :=
  match ts with
  | ⟨.symbol .not, line⟩ :: rest =>
    match budget with
    | 0 => tooDeep ts
    | less + 1 => do
      let (operand, rest) ← chain .relational less rest
      chainRest .logical (less + 1) (.not operand line) rest
  | ts => chain .logical budget ts
termination_by 11 * budget + 10
decreasing_by
  · have := rank_le .relational; omega
  · omega
  · have := rank_pos .logical; omega

/-- A chain of the given tier. -/
def chain (tier : Tier) (budget : Nat) (ts : List Lexeme) : Except Failure (Read Expression) := do
  let (left, rest) ← operand tier budget ts
  chainRest tier budget left rest
termination_by 11 * budget + (11 - 2 * tier.rank)
decreasing_by
  · have := rank_le tier; omega
  · have := rank_le tier; omega

/-- The rest of a chain whose first operands have been read. -/
def chainRest (tier : Tier) (budget : Nat) (left : Expression) (ts : List Lexeme) :
    Except Failure (Read Expression) :=
  match ts with
  | [] => .ok (left, [])
  | l :: rest =>
    match tier.operator? l.token with
    | none => .ok (left, l :: rest)
    | some op =>
      match budget with
      | 0 => tooDeep ts
      | less + 1 => do
        let (right, rest) ← operand tier less rest
        chainRest tier less (.combine op left right) rest
termination_by 11 * budget
decreasing_by
  · have := rank_le tier; omega
  · omega

/-- An operand of the given tier. -/
def operand (tier : Tier) (budget : Nat) (ts : List Lexeme) : Except Failure (Read Expression) :=
  match _h : tier.tighter? with
  | some tighter => chain tighter budget ts
  | none => factor budget ts
termination_by 11 * budget + (10 - 2 * tier.rank)
decreasing_by
  · have := rank_tighter _h; have := rank_le tighter; omega
  · have := rank_le tier; omega

/-- A factor. -/
def factor (budget : Nat) (ts : List Lexeme) : Except Failure (Read Expression) :=
  match ts with
  | ⟨.ident name, line⟩ :: ⟨.symbol .lparen, _⟩ :: rest => do
    let (_, rest) ← sign .rparen rest
    .ok (.call name line, rest)
  | ⟨.ident name, line⟩ :: rest => do
    let (place, rest) ← subscript budget name line rest
    .ok (place.toExpression, rest)
  | ⟨.int value, line⟩ :: rest => .ok (.int value line, rest)
  | ⟨.float value, line⟩ :: rest => .ok (.float value line, rest)
  | ⟨.symbol .lparen, _⟩ :: rest =>
    match budget with
    | 0 => tooDeep ts
    | less + 1 => do
      let (inner, rest) ← expression less rest
      let (_, rest) ← sign .rparen rest
      .ok (inner, rest)
  | ts => fail .expression ts
termination_by 11 * budget + 1

/-- What may follow the name of a variable: an index in brackets. -/
def subscript (budget : Nat) (name : String) (line : Nat) (ts : List Lexeme) :
    Except Failure (Read Variable) :=
  match ts with
  | ⟨.symbol .lbracket, _⟩ :: rest =>
    match budget with
    | 0 => tooDeep ts
    | less + 1 => do
      let (index, rest) ← expression less rest
      let (_, rest) ← sign .rbracket rest
      .ok (⟨name, some index, line⟩, rest)
  | ts => .ok (⟨name, none, line⟩, ts)
termination_by 11 * budget

end

/-- A variable or an element of an array, as a place to write to. -/
def place (budget : Nat) (ts : List Lexeme) : Except Failure (Read Variable) := do
  let ((name, line), rest) ← identifier ts
  subscript budget name line rest

end CMinus.Parse
