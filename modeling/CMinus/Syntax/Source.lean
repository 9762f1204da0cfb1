import CMinus.Syntax.Program

/-!
# Source: the canonical text of a tree

A tree is written as tokens with gaps between them. The tokens say what the tree is; the gaps are
layout: four blanks for each level, one statement or declaration on a line, one blank on both sides
of a binary operator. Parentheses stand only where an operand binds looser than its place asks.
-/

namespace CMinus

/-! ## 1. Pieces of text -/

/-- A piece of canonical text. -/
inductive Piece
  | word (token : Token)
  | gap (text : String)
deriving DecidableEq, Inhabited

namespace Piece

/-- The characters of a piece. -/
def text : Piece → String
  | word token => token.spelling
  | gap text => text

/-- The token of a piece. -/
def token? : Piece → Option Token
  | word token => some token
  | gap _ => none

/-- The text of pieces in a row. -/
def join (ps : List Piece) : String :=
  String.join (ps.map text)

/-- A symbol. -/
def sign (s : Symbol) : Piece :=
  word (.symbol s)

/-- A keyword. -/
def keyword (k : Keyword) : Piece :=
  word (.keyword k)

/-- One blank. -/
def blank : Piece :=
  gap " "

/-- The end of a line. -/
def newline : Piece :=
  gap "\n"

/-- The blanks in front of a line at the given level. -/
def margin (level : Nat) : Piece :=
  gap (String.ofList (List.replicate (4 * level) ' '))

end Piece

open Piece (sign blank newline margin)

/-! ## 2. Expressions -/

/-- Pieces in parentheses where those are needed. -/
def parenthesised (needed : Bool) (ps : List Piece) : List Piece :=
  if needed then sign .lparen :: ps ++ [sign .rparen] else ps

/-- An expression. The left operand of an operator may be of the same tier, the right one binds
    tighter; the operand of a negation binds tighter than a logical operator. -/
def Expression.pieces : Expression → List Piece
  | .binary op left right _ =>
    parenthesised (left.rank < op.tier.rank) left.pieces
      ++ [blank, sign op.symbol, blank]
      ++ parenthesised (right.rank < op.tier.rank + 1) right.pieces
  | .not operand _ => sign .not :: parenthesised (operand.rank < 2) operand.pieces
  | .scalar name _ => [.word (.ident name)]
  | .element name index _ =>
    .word (.ident name) :: sign .lbracket :: index.pieces ++ [sign .rbracket]
  | .call name _ => [.word (.ident name), sign .lparen, sign .rparen]
  | .int value _ => [.word (.int value)]
  | .float value _ => [.word (.float value)]
  | .string text _ => [.word (.string text)]

/-- A variable or an element of an array. -/
def Variable.pieces (v : Variable) : List Piece :=
  v.toExpression.pieces

/-! ## 3. Declarations -/

/-- A declaration without its semicolon. -/
def Declaration.pieces (d : Declaration) : List Piece :=
  Piece.keyword d.type.keyword :: blank :: .word (.ident d.name) ::
    match d.size with
    | none => []
    | some size => [sign .lbracket, .word (.int size), sign .rbracket]

/-- Declarations, each on a line of its own. -/
def declarationLines (level : Nat) (ds : List Declaration) : List Piece :=
  ds.flatMap fun d => margin level :: d.pieces ++ [sign .semicolon, newline]

/-! ## 4. Statements -/

namespace Statement

mutual

/-- A statement on lines of its own. The body of a loop stands behind it when it is in braces, and
    one level deeper on the next line when it is not. -/
def lines (level : Nat) : Statement → List Piece
  | assign target value _ =>
    margin level :: target.pieces ++ [blank, sign .assign, blank] ++ value.pieces
      ++ [sign .semicolon, newline]
  | ifThen condition body _ =>
    [margin level, Piece.keyword .ifKw, blank, sign .lparen] ++ condition.pieces
      ++ [sign .rparen, blank] ++ braces level body ++ [newline]
  | ifElse condition body other _ =>
    [margin level, Piece.keyword .ifKw, blank, sign .lparen] ++ condition.pieces
      ++ [sign .rparen, blank] ++ braces level body
      ++ [blank, Piece.keyword .elseKw, blank] ++ braces level other ++ [newline]
  | whileDo condition body _ =>
    [margin level, Piece.keyword .whileKw, blank, sign .lparen] ++ condition.pieces
      ++ [sign .rparen] ++
      match body with
      | compound block => blank :: braces level block ++ [newline]
      | body => newline :: lines (level + 1) body
  | read target _ =>
    [margin level, Piece.keyword .readKw, sign .lparen] ++ target.pieces
      ++ [sign .rparen, sign .semicolon, newline]
  | write value _ =>
    [margin level, Piece.keyword .writeKw, sign .lparen] ++ value.pieces
      ++ [sign .rparen, sign .semicolon, newline]
  | returns value _ =>
    [margin level, Piece.keyword .returnKw, blank] ++ value.pieces ++ [sign .semicolon, newline]
  | exit _ => [margin level, Piece.keyword .exitKw, sign .semicolon, newline]
  | compound body => margin level :: braces level body ++ [newline]

/-- Statements between braces; the closing brace stands at the level of the statement. -/
def braces (level : Nat) : Block Statement → List Piece
  | ⟨items, _⟩ =>
    sign .lbrace :: newline :: linesOf (level + 1) items ++ [margin level, sign .rbrace]

/-- Statements one after the other. -/
def linesOf (level : Nat) : List Statement → List Piece
  | [] => []
  | s :: rest => lines level s ++ linesOf level rest

end

end Statement

/-! ## 5. Procedures and programs -/

/-- A procedure, its braces on lines of their own. -/
def Procedure.pieces (p : Procedure) : List Piece :=
  [Piece.keyword p.returnType.keyword, blank, .word (.ident p.name), sign .lparen, sign .rparen,
    newline, sign .lbrace, newline]
    ++ declarationLines 1 p.locals.items ++ Statement.linesOf 1 p.body.items
    ++ [sign .rbrace, newline]

/-- Procedures with an empty line between them. -/
def Procedure.piecesOf : List Procedure → List Piece
  | [] => []
  | [p] => p.pieces
  | p :: rest => p.pieces ++ newline :: piecesOf rest

/-- A program: globals, an empty line, procedures. -/
def Program.pieces (p : Program) : List Piece :=
  (match p.globals with
    | none => []
    | some globals => declarationLines 0 globals.items ++ [newline])
    ++ Procedure.piecesOf p.procedures

/-! ## 6. Texts -/

/-- The text of an expression. -/
def Expression.source (e : Expression) : String :=
  Piece.join e.pieces

/-- The text of a variable. -/
def Variable.source (v : Variable) : String :=
  Piece.join v.pieces

/-- The text of a declaration. -/
def Declaration.source (d : Declaration) : String :=
  Piece.join d.pieces

/-- The text of declarations at the outermost level. -/
def declarationsSource (ds : Block Declaration) : String :=
  Piece.join (declarationLines 0 ds.items)

/-- The text of a statement at the outermost level. -/
def Statement.source (s : Statement) : String :=
  Piece.join (s.lines 0)

/-- The text of statements at the outermost level. -/
def statementsSource (b : Block Statement) : String :=
  Piece.join (Statement.linesOf 0 b.items)

/-- The text of a procedure. -/
def Procedure.source (p : Procedure) : String :=
  Piece.join p.pieces

/-- The canonical text of a program. -/
def Program.source (p : Program) : String :=
  Piece.join p.pieces

end CMinus
