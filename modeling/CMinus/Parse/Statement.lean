import CMinus.Parse.Expression
import CMinus.Syntax.Statement

/-!
# Reading statements

A statement opens a level for everything in it, so the statements of a block and the body of a loop
are read with one level less. Reading follows the budget down.
-/

namespace CMinus.Parse

/-- An expression in parentheses, as a test. -/
def condition (budget : Nat) (ts : List Lexeme) : Except Failure (Read Expression) := do
  let (_, rest) ← sign .lparen ts
  let (test, rest) ← expression budget rest
  let (_, rest) ← sign .rparen rest
  .ok (test, rest)

/-- One item and more of them as long as a statement can start. -/
def statements (item : Production Statement) (ts : List Lexeme) :
    Except Failure (Read (Statement × List Statement)) := do
  let (first, rest) ← item ts
  let (others, rest) ← repeatWhile (startsWith Token.startsStatement) item rest
  .ok ((first, others), rest)

/-- Statements between braces, on the line of the opening one. -/
def braces (item : Production Statement) (ts : List Lexeme) :
    Except Failure (Read (Block Statement)) := do
  let (line, rest) ← sign .lbrace ts
  let ((first, others), rest) ← statements item rest
  let (_, rest) ← sign .rbrace rest
  .ok (⟨first :: others, line⟩, rest)

/-- What a `write` writes: a string literal or an expression. -/
def written (budget : Nat) (ts : List Lexeme) : Except Failure (Read Expression) :=
  match ts with
  | ⟨.string text, line⟩ :: rest => .ok (.string text line, rest)
  | ts => expression budget ts

/-- A statement. -/
def statement : (budget : Nat) → (ts : List Lexeme) → Except Failure (Read Statement)
  | 0, ts => tooDeep ts
  | budget + 1, ts =>
    match ts with
    | ⟨.ident name, line⟩ :: rest => do
      let (target, rest) ← subscript budget name line rest
      let (_, rest) ← sign .assign rest
      let (value, rest) ← expression budget rest
      let (_, rest) ← sign .semicolon rest
      .ok (.assign target value line, rest)
    | ⟨.keyword .ifKw, line⟩ :: rest => do
      let (test, rest) ← condition budget rest
      let (body, rest) ← braces (statement budget) rest
      match rest with
      | ⟨.keyword .elseKw, _⟩ :: rest => do
        let (other, rest) ← braces (statement budget) rest
        .ok (.ifElse test body other line, rest)
      | rest => .ok (.ifThen test body line, rest)
    | ⟨.keyword .whileKw, line⟩ :: rest => do
      let (test, rest) ← condition budget rest
      let (body, rest) ← statement budget rest
      .ok (.whileDo test body line, rest)
    | ⟨.keyword .readKw, line⟩ :: rest => do
      let (_, rest) ← sign .lparen rest
      let (target, rest) ← place budget rest
      let (_, rest) ← sign .rparen rest
      let (_, rest) ← sign .semicolon rest
      .ok (.read target line, rest)
    | ⟨.keyword .writeKw, line⟩ :: rest => do
      let (_, rest) ← sign .lparen rest
      let (value, rest) ← written budget rest
      let (_, rest) ← sign .rparen rest
      let (_, rest) ← sign .semicolon rest
      .ok (.write value line, rest)
    | ⟨.keyword .returnKw, line⟩ :: rest => do
      let (value, rest) ← expression budget rest
      let (_, rest) ← sign .semicolon rest
      .ok (.returns value line, rest)
    | ⟨.keyword .exitKw, line⟩ :: rest => do
      let (_, rest) ← sign .semicolon rest
      .ok (.exit line, rest)
    | ⟨.symbol .lbrace, line⟩ :: rest => do
      let (body, rest) ← braces (statement budget) (⟨.symbol .lbrace, line⟩ :: rest)
      .ok (.compound body, rest)
    | ts => fail .statement ts

end CMinus.Parse
