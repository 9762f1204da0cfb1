import CMinus.Command.Arguments
import CMinus.File.Source
import CMinus.Syntax.Outline
import CMinus.Syntax.Source
import CMinus.Syntax.Visitor

/-!
# Run: what the command writes

A run is decided by the settings and the file alone: what is written to both outputs and the exit
code. Measured times are the only thing not known here; they are left as places in the output, to
be filled in by whoever runs the clock.
-/

namespace CMinus.Command

/-! ## 1. Output -/

/-- What is timed. -/
inductive Phase
  | scanning | parsing | total
deriving DecidableEq, Repr, Inhabited

/-- A piece of output. -/
inductive Chunk
  | text (s : String)
  /-- The seconds of a phase, right-aligned to the given width. -/
  | seconds (phase : Phase) (width : Nat)
deriving DecidableEq, Repr, Inhabited

/-- The output as text, given how times are written. -/
def render (seconds : Phase → Nat → String) (chunks : List Chunk) : String :=
  String.join (chunks.map fun
    | .text s => s
    | .seconds phase width => seconds phase width)

/-- What comes of a run. -/
structure Outcome where
  output : List Chunk
  errors : String
  exitCode : Nat
deriving DecidableEq, Repr, Inhabited

/-- Output under a flag. -/
def when (condition : Bool) (chunks : List Chunk) : List Chunk :=
  if condition then chunks else []

/-! ## 2. Sections -/

/-- What is said of the tokens before parsing. -/
def scanSection (s : Settings) (source : String) : List Chunk :=
  let (lexemes, diagnostics) := scan source s.options
  when (s.has .verbose)
      [.text "Lexical analysis completed in ", .seconds .scanning 0,
       .text ("\n  Generated " ++ toString lexemes.length ++ " tokens, "
        ++ toString diagnostics.length ++ " lexical error(s)\n")]
    ++ when (s.has .tokens)
      (.text "\nLexical output:\n" :: lexemes.map fun l => .text (l.listed ++ "\n"))

/-- What is said of an accepted program. -/
def programSection (s : Settings) (p : Program) : List Chunk :=
  when (s.has .verbose)
      [.text "Parsing completed in ", .seconds .parsing 0,
       .text ("\n  Built " ++ toString p.nodeCount ++ " AST nodes\n")]
    ++ when (s.has .outline) [.text "\nAbstract Syntax Tree:\n", .text p.outline]
    ++ when (s.has .source) [.text "\nCanonical source:\n", .text p.source]

/-- The table of times. -/
def timingSection (s : Settings) (source : String) (p : Program) : List Chunk :=
  when (s.has .timing)
    [.text "\nPhase timing:\n  Lexical analysis   ", .seconds .scanning 8,
     .text "\n  Parsing            ", .seconds .parsing 8,
     .text "\n  Total              ", .seconds .total 8,
     .text ("\n\nMetrics:\n  Tokens:     " ++ toString (scan source s.options).1.length
      ++ "\n  AST nodes:  " ++ toString p.nodeCount ++ "\n")]

/-! ## 3. Runs -/

/-- The diagnostics, one on a line, and how many they are. -/
def failureText (ds : List Diagnostic) : String :=
  String.join (ds.map fun d => d.text ++ "\n")
    ++ "Error: parsing failed with " ++ toString ds.length ++ " error(s)\n"

/-- One run of the command. -/
def run (s : Settings) (opener : Opener) : Outcome :=
  let opening := when (s.has .verbose) [.text ("Parsing " ++ s.path ++ "\n")]
  match readSource opener s.path with
  | .error e => ⟨opening, "Error: " ++ e.message ++ "\n", 1⟩
  | .ok source =>
    let before := opening
      ++ when (s.has .verbose)
        [.text ("Read " ++ toString source.utf8ByteSize ++ " bytes from input file\n")]
      ++ scanSection s source
    match parse source s.options with
    | .error ds => ⟨before, failureText ds, 1⟩
    | .ok p =>
      ⟨before ++ programSection s p ++ timingSection s source p
        ++ when (s.has .verbose) [.text "No errors found.\n"], "", 0⟩

end CMinus.Command
