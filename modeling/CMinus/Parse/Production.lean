import CMinus.Syntax.Operator
import CMinus.Diagnostic

/-!
# Production: reading tokens from the front of a list

A production reads tokens from the front of a list. It answers with what it built and the tokens
left, or with a failure: why it stopped, and the tokens from the offending one on. The end of the
source is the empty list.
-/

namespace CMinus.Parse

/-! ## 1. Failures -/

/-- What a production asks for at a place. -/
inductive Expected
  | symbol (sign : Symbol)
  | type
  | identifier
  | arraySize
  | statement
  | expression
deriving DecidableEq, Repr, Inhabited

/-- What a diagnostic calls it. -/
def Expected.description : Expected → String
  | symbol sign => "'" ++ sign.spelling ++ "'"
  | type => "a type ('int' or 'float')"
  | identifier => "an identifier"
  | arraySize => "an integer array size"
  | statement => "a statement"
  | expression => "an expression"

/-- Why a production stopped. -/
inductive Cause
  /-- The next token is not what was asked for. -/
  | expected (what : Expected)
  /-- The next token would open a level beyond the limit. -/
  | tooDeep
deriving DecidableEq, Repr, Inhabited

/-- A cause and the tokens from the offending one on. -/
structure Failure where
  cause : Cause
  rest : List Lexeme
deriving DecidableEq, Inhabited

/-- The diagnostic of a failure, for a source that ends on the line `endLine`. -/
def Failure.diagnostic (limit endLine : Nat) (f : Failure) : Diagnostic :=
  let found := f.rest.headD ⟨.eof, endLine⟩
  match f.cause with
  | .expected what => .unexpected what.description found.token found.line
  | .tooDeep => .tooDeep limit found.token found.line

/-! ## 2. Productions -/

/-- What was built and the tokens left. -/
abbrev Read (α : Type) := α × List Lexeme

/-- A way to read something from the front of a list of tokens. -/
abbrev Production (α : Type) := List Lexeme → Except Failure (Read α)

/-- Something else was asked for at this place. -/
def fail {α : Type} (what : Expected) : Production α :=
  fun ts => .error ⟨.expected what, ts⟩

/-- No level is left at this place. -/
def tooDeep {α : Type} : Production α :=
  fun ts => .error ⟨.tooDeep, ts⟩

/-! ## 3. Single tokens -/

/-- Reads the given symbol and gives its line. -/
def sign (s : Symbol) : Production Nat
  | ⟨.symbol t, line⟩ :: rest =>
    if t = s then .ok (line, rest) else fail (.symbol s) (⟨.symbol t, line⟩ :: rest)
  | ts => fail (.symbol s) ts

/-- Reads a type and gives its line with it. -/
def valueType : Production (ValueType × Nat)
  | ⟨.keyword .intKw, line⟩ :: rest => .ok ((.int, line), rest)
  | ⟨.keyword .floatKw, line⟩ :: rest => .ok ((.float, line), rest)
  | ts => fail .type ts

/-- Reads a name and gives its line with it. -/
def identifier : Production (String × Nat)
  | ⟨.ident name, line⟩ :: rest => .ok ((name, line), rest)
  | ts => fail .identifier ts

/-- Reads the size of an array. -/
def arraySize : Production Nat
  | ⟨.int value, line⟩ :: rest =>
    if 0 ≤ value then .ok (value.toNat, rest)
    else fail .arraySize (⟨.int value, line⟩ :: rest)
  | ts => fail .arraySize ts

/-! ## 4. Repetition -/

/-- The list of tokens starts with one of the given kind. -/
def startsWith (p : Token → Bool) : List Lexeme → Bool
  | l :: _ => p l.token
  | [] => false

/-- Reads items as long as `more` says so. An item that reads nothing ends the repetition. -/
def repeatWhile {α : Type} (more : List Lexeme → Bool) (item : Production α)
    (ts : List Lexeme) : Except Failure (Read (List α)) :=
  if more ts then do
    let (first, rest) ← item ts
    if rest.length < ts.length then
      let (others, rest) ← repeatWhile more item rest
      .ok (first :: others, rest)
    else
      .ok ([first], rest)
  else
    .ok ([], ts)
termination_by ts.length

end CMinus.Parse
