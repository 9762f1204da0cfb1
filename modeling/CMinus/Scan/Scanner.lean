import CMinus.Options
import CMinus.Scan.Segment

/-!
# Scanner: the tokens of a source, one at a time or all at once

A whole source is its segments, each placed on the line of its first character; tokens and
diagnostics are read off the placed segments (`lexemes`, `diagnostics`). A `Scanner` is a place in
a source: it hands out one token after the other and keeps the diagnostics it met until somebody
takes them.
-/

namespace CMinus.Scan

/-! ## 1. Placed segments -/

/-- All segments of a text, in order. -/
def segments : List Char → List Segment
  | [] => []
  | c :: cs => (cut c cs).1 :: segments (cut c cs).2
termination_by cs => cs.length
decreasing_by exact cut_length c cs

/-- Nothing is lost: the segments, put together again, are the text. -/
theorem segments_flatMap_text (cs : List Char) : (segments cs).flatMap Segment.text = cs := by
  fun_induction segments cs with
  | case1 => rfl
  | case2 c cs ih => rw [List.flatMap_cons, ih, cut_append]

/-- A segment and the line it starts on. -/
structure Placed where
  segment : Segment
  line : Nat
deriving DecidableEq, Inhabited

/-- Segments in a row, the first one on the given line. -/
def place (line : Nat) : List Segment → List Placed
  | [] => []
  | s :: rest => ⟨s, line⟩ :: place (line + s.lineBreaks) rest

/-- The token of a placed segment, with its line. -/
def Placed.lexeme? (p : Placed) : Option Lexeme :=
  p.segment.token?.map (⟨·, p.line⟩)

/-- The diagnostic of a placed segment. -/
def Placed.diagnostic? (strict : Bool) (p : Placed) : Option Diagnostic :=
  p.segment.diagnostic? strict p.line

/-! ## 2. A place in a source -/

/-- A place in a source, with the diagnostics met so far and not taken yet. -/
structure Scanner where
  /-- The text still to be read. -/
  rest : List Char
  /-- The line the rest starts on. -/
  line : Nat
  options : Options
  /-- Diagnostics in the order in which they were met. -/
  pending : List Diagnostic
deriving DecidableEq, Inhabited

namespace Scanner

/-- The start of a source. -/
def start (source : String) (options : Options) : Scanner :=
  ⟨source.toList, 1, options, []⟩

/-- The place behind a segment. -/
def pass (s : Scanner) (segment : Segment) (rest : List Char) : Scanner :=
  { s with
    rest := rest
    line := s.line + segment.lineBreaks
    pending := s.pending ++ (segment.diagnostic? s.options.strictComments s.line).toList }

/-- The next token and the place behind it; at the end of the source the end mark, again and
    again. -/
def next (s : Scanner) : Lexeme × Scanner :=
  match _h : s.rest with
  | [] => (⟨.eof, s.line⟩, s)
  | c :: cs =>
    let behind := s.pass (cut c cs).1 (cut c cs).2
    match (cut c cs).1.token? with
    | some token => (⟨token, s.line⟩, behind)
    | none => behind.next
termination_by s.rest.length
decreasing_by
  rw [_h]
  exact cut_length c cs

/-- The next token, or nothing at the end of the source. -/
def next? (s : Scanner) : Option Lexeme × Scanner :=
  match s.next with
  | (⟨.eof, _⟩, behind) => (none, behind)
  | (lexeme, behind) => (some lexeme, behind)

/-- The diagnostics met so far in the order of their lines, and the scanner without them. -/
def take (s : Scanner) : List Diagnostic × Scanner :=
  (Diagnostic.sorted s.pending, { s with pending := [] })

/-! ## 3. What lies ahead -/

/-- The segments ahead. -/
def ahead (s : Scanner) : List Placed :=
  place s.line (segments s.rest)

/-- The tokens ahead. -/
def lexemes (s : Scanner) : List Lexeme :=
  s.ahead.filterMap Placed.lexeme?

/-- The diagnostics not taken yet: those met, then those ahead. -/
def diagnostics (s : Scanner) : List Diagnostic :=
  s.pending ++ s.ahead.filterMap (Placed.diagnostic? s.options.strictComments)

/-- The line the source ends on. -/
def endLine (s : Scanner) : Nat :=
  s.line + s.rest.count '\n'

end Scanner

end CMinus.Scan

namespace CMinus

/-- All tokens of a source and its diagnostics by line. -/
def scan (source : String) (options : Options) : List Lexeme × List Diagnostic :=
  let s := Scan.Scanner.start source options
  (s.lexemes, Diagnostic.sorted s.diagnostics)

end CMinus
