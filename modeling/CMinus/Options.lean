/-!
# Options: what a caller may choose

The two choices that scanning and parsing share, and the constants of the program.
-/

namespace CMinus

/-- The version of the program. -/
def version : String := "0.1.0"

/-- The extension of a source file, without its dot. -/
def sourceExtension : String := "cminus"

/-- The mark that opens a comment. -/
def commentStart : String := "/*"

/-- The mark that closes a comment. -/
def commentEnd : String := "*/"

/-- How many levels an input may nest when nothing else is said. -/
def defaultMaxNesting : Nat := 128

/-- The choices of a caller. -/
structure Options where
  /-- A comment that is never closed is reported instead of absorbed. -/
  strictComments : Bool := false
  /-- How many levels of statements, parentheses, indexes and chained operators are allowed. -/
  maxNesting : Nat := defaultMaxNesting
deriving DecidableEq, Repr, Inhabited

namespace Options

/-- The defaults, with open comments reported. -/
def strict : Options :=
  { strictComments := true }

/-- The same options under another nesting limit. -/
def withMaxNesting (o : Options) (n : Nat) : Options :=
  { o with maxNesting := n }

end Options

end CMinus
