import CMinus.Text.Printable

/-!
# Quoted: text between quotes

Two rules. A string literal in source text is put between quotes that do not occur in it and is
otherwise unchanged (`quoted`). In the token listing a text stands between double quotes, and what
would break the line or cannot be seen is escaped (`escaped`).
-/

namespace CMinus

/-- The quote that source text is put in: double, unless the text has a double quote. -/
def delimiter (text : List Char) : Char :=
  if '"' ∈ text then '\'' else '"'

/-- A string literal in source form. -/
def quoted (text : List Char) : List Char :=
  delimiter text :: text ++ [delimiter text]

/-- A character as the listing shows it: with a backslash, as its code point, or as it is. -/
def escapedChar (c : Char) : List Char :=
  match c with
  | '\x00' => ['\\', '0']
  | '\t' => ['\\', 't']
  | '\r' => ['\\', 'r']
  | '\n' => ['\\', 'n']
  | '"' => ['\\', '"']
  | '\\' => ['\\', '\\']
  | c =>
    if isPrintable c then [c]
    else '\\' :: 'u' :: '\x7b' :: Nat.toDigits 16 c.toNat ++ ['\x7d']

/-- A text as the listing shows it. -/
def escaped (text : List Char) : List Char :=
  '"' :: text.flatMap escapedChar ++ ['"']

end CMinus
