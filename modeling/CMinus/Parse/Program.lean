import CMinus.Parse.Statement
import CMinus.Scan.Scanner
import CMinus.Syntax.Program

/-!
# Reading programs

Global variables come first, then procedures, at least one, up to the end of the source. Both start
with a type and a name; a parenthesis behind the name makes it a procedure. Local variables may
stand before the brace of a procedure as well as behind it, and come in the order in which they are
written.
-/

namespace CMinus.Parse

/-! ## 1. Declarations -/

/-- What may follow a declared name: a size in brackets. -/
def dimension (ts : List Lexeme) : Except Failure (Read (Option Nat)) :=
  match ts with
  | ⟨.symbol .lbracket, _⟩ :: rest => do
    let (size, rest) ← arraySize rest
    let (_, rest) ← sign .rbracket rest
    .ok (some size, rest)
  | ts => .ok (none, ts)

/-- A comma, and one more name with the type of the first one. -/
def nextDeclaration (type : ValueType) (ts : List Lexeme) :
    Except Failure (Read Declaration) := do
  let (_, rest) ← sign .comma ts
  let ((name, line), rest) ← identifier rest
  let (size, rest) ← dimension rest
  .ok (⟨name, type, size, line⟩, rest)

/-- A type, names with commas between them, and a semicolon. The first declaration has the line of
    the type, each other one that of its name. -/
def group (ts : List Lexeme) : Except Failure (Read (List Declaration)) := do
  let ((type, line), rest) ← valueType ts
  let ((name, _), rest) ← identifier rest
  let (size, rest) ← dimension rest
  let (others, rest) ←
    repeatWhile (startsWith (· = .symbol .comma)) (nextDeclaration type) rest
  let (_, rest) ← sign .semicolon rest
  .ok (⟨name, type, size, line⟩ :: others, rest)

/-- Any number of groups. -/
def declarations (ts : List Lexeme) : Except Failure (Read (List Declaration)) := do
  let (groups, rest) ← repeatWhile (startsWith Token.isType) group ts
  .ok (groups.flatten, rest)

/-- Declarations as a block: on the line of the first one, or on the given line when there are
    none. -/
def blockOf (line : Nat) : List Declaration → Block Declaration
  | [] => ⟨[], line⟩
  | d :: ds => ⟨d :: ds, d.line⟩

/-! ## 2. Procedures and programs -/

/-- A procedure. -/
def procedure (budget : Nat) (ts : List Lexeme) : Except Failure (Read Procedure) := do
  let ((type, line), rest) ← valueType ts
  let ((name, _), rest) ← identifier rest
  let (_, rest) ← sign .lparen rest
  let (_, rest) ← sign .rparen rest
  let (before, rest) ← declarations rest
  let (openLine, rest) ← sign .lbrace rest
  let (behind, rest) ← declarations rest
  let ((first, others), rest) ← statements (statement budget) rest
  let (_, rest) ← sign .rbrace rest
  let locals := blockOf openLine (before ++ behind)
  .ok (⟨type, name, locals, ⟨first :: others, first.line⟩, line⟩, rest)

/-- The tokens start with a type, a name and a parenthesis. -/
def startsProcedure : List Lexeme → Bool
  | ⟨type, _⟩ :: ⟨.ident _, _⟩ :: ⟨.symbol .lparen, _⟩ :: _ => type.isType
  | _ => false

/-- Global declarations as a block, on the line of the first one, if there are any. -/
def globalsOf : List Declaration → Option (Block Declaration)
  | [] => none
  | d :: ds => some ⟨d :: ds, d.line⟩

/-- A program, up to the end of the source. It has the line of its first token. -/
def program (budget : Nat) (ts : List Lexeme) : Except Failure (Read Program) := do
  let (groups, rest) ← repeatWhile (!startsProcedure ·) group ts
  let (first, rest) ← procedure budget rest
  let (others, rest) ← repeatWhile (!·.isEmpty) (procedure budget) rest
  let globals := globalsOf groups.flatten
  .ok (⟨globals, first :: others, globals.elim first.line (·.line)⟩, rest)

end CMinus.Parse

/-! ## 3. Whole sources -/

namespace CMinus

/-- The program ahead of a scanner, or all diagnostics by line: those of the characters, taken ones
    aside, and the first one of the tokens, if there is one. -/
def Scan.Scanner.parse (s : Scan.Scanner) : Except (List Diagnostic) Program :=
  match Parse.program s.options.maxNesting s.lexemes with
  | .ok (p, _) => if s.diagnostics = [] then .ok p else .error (Diagnostic.sorted s.diagnostics)
  | .error f =>
    .error (Diagnostic.sorted
      (s.diagnostics ++ [f.diagnostic s.options.maxNesting s.endLine]))

/-- The program a source says, or its diagnostics. -/
def parse (source : String) (options : Options) : Except (List Diagnostic) Program :=
  (Scan.Scanner.start source options).parse

end CMinus
