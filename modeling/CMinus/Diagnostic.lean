import CMinus.Token

/-!
# Diagnostic: faults of a source, with their lines

Scanning and parsing report what they cannot accept as diagnostics. They are kept in the order in
which they were found and shown in the order of their lines; those of one line keep their order.
-/

namespace CMinus

/-- Which part of the work found the fault. -/
inductive Category
  | lexical | syntactic
deriving DecidableEq, Repr, Inhabited

/-- The word a diagnostic opens with. -/
def Category.name : Category → String
  | lexical => "Lexical"
  | syntactic => "Syntax"

/-- A fault of a source. -/
structure Diagnostic where
  category : Category
  message : String
  /-- The line of the offending text. -/
  line : Nat
  /-- The offending text: rejected characters, or the spelling of a token. -/
  token : String
deriving DecidableEq, Repr, Inhabited

namespace Diagnostic

/-- A fault of the characters themselves. -/
def lexical (message token : String) (line : Nat) : Diagnostic :=
  ⟨.lexical, message, line, token⟩

/-- A token that cannot stand where it stands. -/
def unexpected (expected : String) (found : Token) (line : Nat) : Diagnostic :=
  let what := match found with
    | .eof => "unexpected end of input"
    | t => "unexpected token '" ++ t.spelling ++ "'"
  ⟨.syntactic, what ++ ", expected " ++ expected, line, found.spelling⟩

/-- A token that would open a level beyond the limit. -/
def tooDeep (limit : Nat) (found : Token) (line : Nat) : Diagnostic :=
  ⟨.syntactic, "input nested deeper than " ++ toString limit ++ " levels", line, found.spelling⟩

/-- The diagnostic as one line of a report. -/
def text (d : Diagnostic) : String :=
  d.category.name ++ " error at line " ++ toString d.line ++ ": " ++ d.message

/-- By line; diagnostics of one line stay in order. -/
def sorted (ds : List Diagnostic) : List Diagnostic :=
  ds.mergeSort fun a b => a.line ≤ b.line

end Diagnostic

end CMinus
