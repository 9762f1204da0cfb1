import CMinus.Diagnostic
import CMinus.Scan.Pattern

/-!
# Segment: a source cut into pieces

A source is cut from left to right into segments: blanks, comments, tokens and rejected text. What
a source holds is decided here, one segment at a time (`cut`); the scanner only keeps track of
lines and passes on what a segment stands for.

`cut_append` says that a segment and the rest after it are the text they were cut from, so nothing
is lost, and `cut_length` that a segment is never empty, so cutting ends.
-/

namespace CMinus.Scan

/-! ## 1. Why text is rejected -/

/-- Why a piece of source text is no token. -/
inductive Fault
  /-- A whole number of `2 ^ 63` or more. -/
  | wholeOutOfRange
  /-- A fraction that rounds to infinity. -/
  | fractionOutOfRange
  /-- A quote that is never closed. -/
  | openString
  /-- A comment that is never closed. -/
  | openComment
  /-- A character that nothing starts with. -/
  | strayCharacter
deriving DecidableEq, Repr, Inhabited

/-- The message of a fault about the given text. -/
def Fault.message (text : String) : Fault → String
  | wholeOutOfRange => "integer literal '" ++ text ++ "' is out of range"
  | fractionOutOfRange => "float literal '" ++ text ++ "' is out of range"
  | openString => "unterminated string literal"
  | openComment => "unterminated block comment"
  | strayCharacter => "unexpected character '" ++ text ++ "'"

/-- The diagnostic of a fault about the given text. -/
def Fault.diagnostic (fault : Fault) (text : List Char) (line : Nat) : Diagnostic :=
  .lexical (fault.message (String.ofList text)) (String.ofList text) line

/-! ## 2. Segments -/

/-- A piece of a source. -/
inductive Segment
  /-- A space, a tab or the end of a line. -/
  | blank (c : Char)
  /-- A comment and its closing mark. -/
  | comment (body : List Char)
  /-- A comment that runs to the end of the source. -/
  | openComment (body : List Char)
  /-- A token and its characters. -/
  | token (token : Token) (text : List Char)
  /-- Characters that are no token. -/
  | rejected (fault : Fault) (text : List Char)
deriving DecidableEq, Inhabited

namespace Segment

/-- The characters a segment was cut from. -/
def text : Segment → List Char
  | blank c => [c]
  | comment body => commentStart.toList ++ body ++ commentEnd.toList
  | openComment body => commentStart.toList ++ body
  | token _ text => text
  | rejected _ text => text

/-- The token a segment holds. -/
def token? : Segment → Option Token
  | token t _ => some t
  | _ => none

/-- The diagnostic a segment that starts on the given line gives. A comment that is never closed
    gives one only when open comments are reported. -/
def diagnostic? (strict : Bool) (line : Nat) : Segment → Option Diagnostic
  | rejected fault text => some (fault.diagnostic text line)
  | openComment _ =>
    if strict then some (Fault.openComment.diagnostic commentStart.toList line) else none
  | _ => none

/-- How many lines end inside a segment. -/
def lineBreaks (s : Segment) : Nat :=
  s.text.count '\n'

end Segment

/-! ## 3. Numbers -/

/-- The number that a row of digits writes. -/
def digitsValue (digits : List Char) : Nat :=
  digits.foldl (fun n c => 10 * n + (c.toNat - '0'.toNat)) 0

/-- Whole numbers below `2 ^ 63` are tokens. -/
def wholeSegment (text : List Char) : Segment :=
  if digitsValue text < 2 ^ 63 then .token (.int (digitsValue text)) text
  else .rejected .wholeOutOfRange text

/-- The decimal that digits around a point write. -/
def fractionDecimal (text : List Char) : Decimal :=
  ⟨digitsValue (text.filter isDigit), -((text.dropWhile isDigit).length - 1 : Nat)⟩

/-- Fractions with a finite nearest word are tokens. -/
def fractionSegment (text : List Char) : Segment :=
  let value := (fractionDecimal text).toBinary64
  if value.isFinite then .token (.float value) text else .rejected .fractionOutOfRange text

/-! ## 4. Symbols -/

/-- The symbol a text with the given first character starts with, and the rest. A symbol of two
    characters comes before one of one. -/
def symbol? : Char → List Char → Option (Symbol × List Char)
  | '=', '=' :: cs => some (.equal, cs)
  | '!', '=' :: cs => some (.notEqual, cs)
  | '<', '=' :: cs => some (.lessEqual, cs)
  | '>', '=' :: cs => some (.greaterEqual, cs)
  | '&', '&' :: cs => some (.and, cs)
  | '|', '|' :: cs => some (.or, cs)
  | '=', cs => some (.assign, cs)
  | '!', cs => some (.not, cs)
  | '<', cs => some (.less, cs)
  | '>', cs => some (.greater, cs)
  | '+', cs => some (.plus, cs)
  | '-', cs => some (.minus, cs)
  | '*', cs => some (.times, cs)
  | '/', cs => some (.divide, cs)
  | '(', cs => some (.lparen, cs)
  | ')', cs => some (.rparen, cs)
  | '[', cs => some (.lbracket, cs)
  | ']', cs => some (.rbracket, cs)
  | '\x7b', cs => some (.lbrace, cs)
  | '\x7d', cs => some (.rbrace, cs)
  | ';', cs => some (.semicolon, cs)
  | ',', cs => some (.comma, cs)
  | _, _ => none

/-! ## 5. Cutting -/

/-- Space, tab, carriage return and line feed separate tokens. -/
def isBlank (c : Char) : Bool :=
  c == ' ' || c == '\t' || c == '\r' || c == '\n'

/-- The text between the quotes of a string literal. -/
def unquoted (text : List Char) : String :=
  String.ofList (text.drop 1).dropLast

/-- The first segment of a text that is no blank and no comment: a name, a fraction, a whole number
    or a string where one stands, else a symbol, else one rejected character. -/
def cutWord (c : Char) (cs : List Char) : Segment × List Char :=
  if let some (text, rest) := name? (c :: cs) then
    (.token (.ofName (String.ofList text)) text, rest)
  else if let some (text, rest) := fraction? (c :: cs) then
    (fractionSegment text, rest)
  else if let some (text, rest) := whole? (c :: cs) then
    (wholeSegment text, rest)
  else if let some (text, rest) := string? (c :: cs) then
    (.token (.string (unquoted text)) text, rest)
  else if let some (sign, rest) := symbol? c cs then
    (.token (.symbol sign) sign.spelling.toList, rest)
  else
    (.rejected (if isQuote c then .openString else .strayCharacter) [c], cs)

/-- The first segment of the text `c :: cs`, and the rest. -/
def cut (c : Char) (cs : List Char) : Segment × List Char :=
  if isBlank c then (.blank c, cs)
  else if commentStart.toList <+: c :: cs then
    match commentBody? ((c :: cs).drop commentStart.length) with
    | some (body, rest) => (.comment body, rest)
    | none => (.openComment ((c :: cs).drop commentStart.length), [])
  else cutWord c cs

/-! ## 6. Nothing is lost and cutting ends -/

theorem wholeSegment_text (text : List Char) : (wholeSegment text).text = text := by
  unfold wholeSegment
  split <;> rfl

theorem fractionSegment_text (text : List Char) : (fractionSegment text).text = text := by
  unfold fractionSegment
  simp only
  split <;> rfl

theorem symbol?_append {c : Char} {cs rest : List Char} {sign : Symbol}
    (h : symbol? c cs = some (sign, rest)) : sign.spelling.toList ++ rest = c :: cs := by
  unfold symbol? at h
  split at h <;> simp at h
  all_goals
    obtain ⟨rfl, rfl⟩ := h
    rfl

theorem cutWord_append (c : Char) (cs : List Char) :
    (cutWord c cs).1.text ++ (cutWord c cs).2 = c :: cs := by
  unfold cutWord
  split
  · rename_i h
    exact name?_append h
  split
  · rename_i h
    rw [fractionSegment_text]
    exact fraction?_append h
  split
  · rename_i h
    rw [wholeSegment_text]
    exact whole?_append h
  split
  · rename_i h
    exact string?_append h
  split
  · rename_i h
    exact symbol?_append h
  · rfl

/-- A segment and the rest after it are the text they were cut from. -/
theorem cut_append (c : Char) (cs : List Char) : (cut c cs).1.text ++ (cut c cs).2 = c :: cs := by
  unfold cut
  split
  · rfl
  split
  · rename_i hopening
    have hbehind := List.prefix_iff_eq_append.mp hopening
    split
    · rename_i body rest h
      rw [Segment.text, List.append_assoc, List.append_assoc, ← hbehind]
      exact congrArg _ (commentBody?_append h)
    · rw [Segment.text, List.append_nil]
      exact hbehind
  · exact cutWord_append _ _

theorem symbol_spelling_ne_nil (sign : Symbol) : sign.spelling.toList ≠ [] := by
  cases sign <;> decide

theorem cutWord_ne_nil (c : Char) (cs : List Char) : (cutWord c cs).1.text ≠ [] := by
  unfold cutWord
  split
  · rename_i h
    exact name?_ne_nil h
  split
  · rename_i h
    rw [fractionSegment_text]
    exact fraction?_ne_nil h
  split
  · rename_i h
    rw [wholeSegment_text]
    exact run1?_ne_nil h
  split
  · rename_i h
    exact string?_ne_nil h
  split
  · exact symbol_spelling_ne_nil _
  · exact List.cons_ne_nil _ _

theorem cut_ne_nil (c : Char) (cs : List Char) : (cut c cs).1.text ≠ [] := by
  unfold cut
  split
  · exact List.cons_ne_nil _ _
  split
  · split
    · exact List.cons_ne_nil _ _
    · exact List.cons_ne_nil _ _
  · exact cutWord_ne_nil _ _

/-- A segment is never empty: what is left is shorter. -/
theorem cut_length (c : Char) (cs : List Char) : (cut c cs).2.length < (c :: cs).length := by
  have e := congrArg List.length (cut_append c cs)
  have h := List.length_pos_iff.mpr (cut_ne_nil c cs)
  rw [List.length_append] at e
  omega

end CMinus.Scan
