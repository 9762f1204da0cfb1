import CMinus.Numeric.FloatText
import CMinus.Text.Quoted

/-!
# Token: the words of C-minus

A token is a name, a literal, one of nine keywords, one of twenty-two symbols, or the mark behind
the last word of a source. Each has a *spelling*, the way source text writes it, and a *name*, the
way the token listing shows it.
-/

namespace CMinus

/-! ## 1. Keywords -/

/-- The reserved words. -/
inductive Keyword
  | ifKw | elseKw | exitKw | floatKw | intKw | readKw | returnKw | whileKw | writeKw
deriving DecidableEq, Repr, Inhabited

namespace Keyword

/-- Every keyword once. -/
def all : List Keyword :=
  [ifKw, elseKw, exitKw, floatKw, intKw, readKw, returnKw, whileKw, writeKw]

/-- The word in source text. -/
def spelling : Keyword → String
  | ifKw => "if"
  | elseKw => "else"
  | exitKw => "exit"
  | floatKw => "float"
  | intKw => "int"
  | readKw => "read"
  | returnKw => "return"
  | whileKw => "while"
  | writeKw => "write"

/-- The word in the token listing. -/
def name : Keyword → String
  | ifKw => "If"
  | elseKw => "Else"
  | exitKw => "Exit"
  | floatKw => "Float"
  | intKw => "Int"
  | readKw => "Read"
  | returnKw => "Return"
  | whileKw => "While"
  | writeKw => "Write"

/-- The keyword a text spells, if it spells one exactly. -/
def ofText? (text : String) : Option Keyword :=
  all.find? (·.spelling == text)

end Keyword

/-! ## 2. Symbols -/

/-- The operators and the punctuation. -/
inductive Symbol
  | plus | minus | times | divide | assign
  | equal | notEqual | lessEqual | less | greaterEqual | greater
  | and | or | not
  | lparen | rparen | lbracket | rbracket | lbrace | rbrace | semicolon | comma
deriving DecidableEq, Repr, Inhabited

namespace Symbol

/-- Every symbol once. -/
def all : List Symbol :=
  [plus, minus, times, divide, assign, equal, notEqual, lessEqual, less, greaterEqual, greater,
   and, or, not, lparen, rparen, lbracket, rbracket, lbrace, rbrace, semicolon, comma]

/-- The characters of the symbol. -/
def spelling : Symbol → String
  | plus => "+"
  | minus => "-"
  | times => "*"
  | divide => "/"
  | assign => "="
  | equal => "=="
  | notEqual => "!="
  | lessEqual => "<="
  | less => "<"
  | greaterEqual => ">="
  | greater => ">"
  | and => "&&"
  | or => "||"
  | not => "!"
  | lparen => "("
  | rparen => ")"
  | lbracket => "["
  | rbracket => "]"
  | lbrace => "\x7b"
  | rbrace => "\x7d"
  | semicolon => ";"
  | comma => ","

/-- The symbol in the token listing. -/
def name : Symbol → String
  | plus => "Plus"
  | minus => "Minus"
  | times => "Multiply"
  | divide => "Divide"
  | assign => "Assign"
  | equal => "Equal"
  | notEqual => "NotEqual"
  | lessEqual => "LessThanEqual"
  | less => "LessThan"
  | greaterEqual => "GreaterThanEqual"
  | greater => "GreaterThan"
  | and => "And"
  | or => "Or"
  | not => "Not"
  | lparen => "LParen"
  | rparen => "RParen"
  | lbracket => "LBrack"
  | rbracket => "RBrack"
  | lbrace => "LBrace"
  | rbrace => "RBrace"
  | semicolon => "Semicolon"
  | comma => "Comma"

end Symbol

/-! ## 3. Tokens -/

/-- One word of a source, or its end. -/
inductive Token
  | ident (name : String)
  | int (value : Int)
  | float (value : Binary64)
  | string (text : String)
  | keyword (word : Keyword)
  | symbol (sign : Symbol)
  | eof
deriving DecidableEq, Inhabited

namespace Token

/-- A name that is a keyword is that keyword, any other one an identifier. -/
def ofName (text : String) : Token :=
  match Keyword.ofText? text with
  | some word => .keyword word
  | none => .ident text

/-- The token as source text writes it. The end of a source has a description instead. -/
def spelling : Token → String
  | ident name => name
  | int value => toString value
  | float value => String.ofList value.literal
  | string text => String.ofList (quoted text.toList)
  | keyword word => word.spelling
  | symbol sign => sign.spelling
  | eof => "end of input"

/-- The token as the listing shows it: its name, and what it carries in parentheses. -/
def listed : Token → String
  | ident name => "Ident(" ++ String.ofList (escaped name.toList) ++ ")"
  | int value => "IntCon(" ++ toString value ++ ")"
  | float value => "FloatCon(" ++ String.ofList value.listed ++ ")"
  | string text => "StringLiteral(" ++ String.ofList (escaped text.toList) ++ ")"
  | keyword word => word.name
  | symbol sign => sign.name
  | eof => "Eof"

/-- The token is a reserved word. -/
def isKeyword : Token → Bool
  | keyword _ => true
  | _ => false

/-- The token names a type. -/
def isType : Token → Bool
  | keyword .intKw | keyword .floatKw => true
  | _ => false

/-- The token can open a statement. -/
def startsStatement : Token → Bool
  | ident _ => true
  | keyword .ifKw | keyword .whileKw | keyword .readKw | keyword .writeKw => true
  | keyword .returnKw | keyword .exitKw => true
  | symbol .lbrace => true
  | _ => false

/-- Two tokens of one kind, whatever a name or a literal says. -/
def sameKind : Token → Token → Bool
  | ident _, ident _ => true
  | int _, int _ => true
  | float _, float _ => true
  | string _, string _ => true
  | s, t => s = t

/-- Two tokens that say the same. Floats are compared as numbers. -/
def same : Token → Token → Bool
  | float x, float y => x.sameNumber y
  | s, t => s = t

end Token

/-! ## 4. Lexemes -/

/-- A token and the line its first character stands on. -/
structure Lexeme where
  token : Token
  line : Nat
deriving DecidableEq, Inhabited

/-- `text` with blanks in front of it up to the given width. -/
def padLeft (width : Nat) (text : String) : String :=
  String.ofList (List.replicate (width - text.length) ' ') ++ text

/-- One line of the token listing: the line number, right-aligned, and the token. -/
def Lexeme.listed (l : Lexeme) : String :=
  padLeft 4 (toString l.line) ++ "  " ++ l.token.listed

end CMinus
