import CMinus.Syntax.Program

/-!
# Grammar: derivations, as trees of rules

The grammar of C-minus, one type per nonterminal and one constructor per rule. A value of these
types is a derivation. What it derives is its row of tokens (`tokens`), what it means is a syntax
tree whose lines are all zero (`tree`), and what it costs is the number of levels that have to be
open at once while it is read (`levels`).

* `Phrase`: expressions; left recursion as in the rules, so chains group to the left, and the mark
  of a negation stands only at the start of an expression;
* `Clause`, `Clauses`: statements, and rows of at least one of them;
* `Group`, `Definition`, `Document`: declarations, procedures, programs. Groups of declarations are
  allowed on both sides of the brace that opens a procedure.
-/

namespace CMinus.Grammar

/-! ## 1. Expressions -/

/-- The nonterminals of expressions. The chains of the four tiers are the rules `Expr`,
    `SimpleExpr`, `AddExpr` and `MulExpr`. -/
inductive Level
  | chain (tier : Tier)
  | factor
  | variable
deriving DecidableEq

/-- What the operators of a tier stand between: chains of the next tighter tier, factors at last. -/
def operands : Tier → Level
  | .logical => .chain .relational
  | .relational => .chain .additive
  | .additive => .chain .multiplicative
  | .multiplicative => .factor

theorem operands_tighter {tier u : Tier} (h : tier.tighter? = some u) :
    operands tier = .chain u := by
  cases tier <;> cases h <;> rfl

theorem operands_factor {tier : Tier} (h : tier.tighter? = none) : operands tier = .factor := by
  cases tier <;> cases h
  rfl

/-- A derivation of an expression. -/
inductive Phrase : Level → Type
  /-- `Chain → Chain op Operand` -/
  | join {tier : Tier} (op : BinaryOp) (fits : op.tier = tier) (left : Phrase (.chain tier))
      (right : Phrase (operands tier)) : Phrase (.chain tier)
  /-- `Chain → Operand` -/
  | operand {tier : Tier} (inner : Phrase (operands tier)) : Phrase (.chain tier)
  /-- `Expr → '!' SimpleExpr` -/
  | negation (inner : Phrase (.chain .relational)) : Phrase (.chain .logical)
  /-- `Factor → Variable` -/
  | place (inner : Phrase .variable) : Phrase .factor
  /-- `Factor → INTCON` -/
  | int (value : Int) : Phrase .factor
  /-- `Factor → FLOATCON` -/
  | float (value : Binary64) : Phrase .factor
  /-- `Factor → IDENT '(' ')'` -/
  | call (name : String) : Phrase .factor
  /-- `Factor → '(' Expr ')'` -/
  | parens (inner : Phrase (.chain .logical)) : Phrase .factor
  /-- `Variable → IDENT` -/
  | scalar (name : String) : Phrase .variable
  /-- `Variable → IDENT '[' Expr ']'` -/
  | element (name : String) (index : Phrase (.chain .logical)) : Phrase .variable

namespace Phrase

/-- The tokens that are derived. -/
def tokens : {l : Level} → Phrase l → List Token
  | _, join op _ left right => left.tokens ++ .symbol op.symbol :: right.tokens
  | _, operand inner => inner.tokens
  | _, negation inner => .symbol .not :: inner.tokens
  | _, place inner => inner.tokens
  | _, int value => [.int value]
  | _, float value => [.float value]
  | _, call name => [.ident name, .symbol .lparen, .symbol .rparen]
  | _, parens inner => .symbol .lparen :: (inner.tokens ++ [.symbol .rparen])
  | _, scalar name => [.ident name]
  | _, element name index =>
    .ident name :: .symbol .lbracket :: (index.tokens ++ [.symbol .rbracket])

/-- The tree that is meant. Parentheses leave no node. -/
def tree : {l : Level} → Phrase l → Expression
  | _, join op _ left right => .binary op left.tree right.tree 0
  | _, operand inner => inner.tree
  | _, negation inner => .not inner.tree 0
  | _, place inner => inner.tree
  | _, int value => .int value 0
  | _, float value => .float value 0
  | _, call name => .call name 0
  | _, parens inner => inner.tree
  | _, scalar name => .scalar name 0
  | _, element name index => .element name index.tree 0

/-- How many operators the outermost chain has. -/
def spine : {l : Level} → Phrase l → Nat
  | _, join _ _ left _ => left.spine + 1
  | _, _ => 0

/-- How many levels are open at once. An operator opens one for the rest of its chain: the operand
    behind the `k`th operator is read under `k` of them, the first operand under none. -/
def levels : {l : Level} → Phrase l → Nat
  | _, join _ _ left right => max left.levels (left.spine + 1 + right.levels)
  | _, operand inner => inner.levels
  | _, negation inner => inner.levels + 1
  | _, place inner => inner.levels
  | _, int _ | _, float _ | _, call _ | _, scalar _ => 0
  | _, parens inner => inner.levels + 1
  | _, element _ index => index.levels + 1

/-- A variable, as a place to write to. -/
def target : Phrase .variable → Variable
  | scalar name => ⟨name, none, 0⟩
  | element name index => ⟨name, some index.tree, 0⟩

theorem toExpression_target (p : Phrase .variable) : p.target.toExpression = p.tree := by
  cases p <;> rfl

theorem line_tree {l : Level} (p : Phrase l) : p.tree.line = 0 := by
  induction p with
  | operand inner ih | place inner ih | parens inner ih => exact ih
  | join | negation | int | float | call | scalar | element => rfl

theorem spine_le_levels {l : Level} (p : Phrase l) : p.spine ≤ p.levels := by
  cases p <;> simp only [spine, levels] <;> omega

theorem spine_lt_length {l : Level} (p : Phrase l) : p.spine < p.tokens.length := by
  induction p with
  | join op fits left right ihl ihr =>
    simp only [spine, tokens, List.length_append, List.length_cons]
    omega
  | operand inner ih | place inner ih =>
    simp only [spine, tokens] at ih ⊢
    omega
  | negation | int | float | call | parens | scalar | element =>
    simp only [spine, tokens, List.length_cons]
    omega

/-- No derivation needs more levels than it has tokens. -/
theorem levels_lt_length {l : Level} (p : Phrase l) : p.levels < p.tokens.length := by
  induction p with
  | join op fits left right ihl ihr =>
    have h := left.spine_lt_length
    simp only [levels, tokens, List.length_append, List.length_cons]
    omega
  | operand inner ih | place inner ih => exact ih
  | negation inner ih | parens inner ih | element name index ih =>
    simp only [levels, tokens, List.length_append, List.length_cons, List.length_nil]
    omega
  | int | float | call | scalar =>
    simp only [levels, tokens, List.length_cons]
    omega

end Phrase

/-! ## 2. Statements -/

/-- `Expr` -/
abbrev Value := Phrase (.chain .logical)

mutual

/-- A derivation of a statement. -/
inductive Clause
  /-- `Assignment → Variable '=' Expr ';'` -/
  | assign (target : Phrase .variable) (value : Value)
  /-- `IfStmt → 'if' '(' Expr ')' CompoundStmt` -/
  | ifThen (test : Value) (body : Clauses)
  /-- `IfStmt → 'if' '(' Expr ')' CompoundStmt 'else' CompoundStmt` -/
  | ifElse (test : Value) (body other : Clauses)
  /-- `WhileStmt → 'while' '(' Expr ')' Statement` -/
  | whileDo (test : Value) (body : Clause)
  /-- `IOStmt → 'read' '(' Variable ')' ';'` -/
  | read (target : Phrase .variable)
  /-- `IOStmt → 'write' '(' Expr ')' ';'` -/
  | write (value : Value)
  /-- `IOStmt → 'write' '(' STRING ')' ';'` -/
  | writeText (text : String)
  /-- `ReturnStmt → 'return' Expr ';'` -/
  | returns (value : Value)
  /-- `ExitStmt → 'exit' ';'` -/
  | exit
  /-- `Statement → CompoundStmt` -/
  | compound (body : Clauses)

/-- A derivation of a list of statements: at least one. -/
inductive Clauses
  | one (clause : Clause)
  | more (first : Clause) (rest : Clauses)

end

/-- `CompoundStmt → '{' StatementList '}'`, for the tokens of the list. -/
def inBraces (body : List Token) : List Token :=
  .symbol .lbrace :: (body ++ [.symbol .rbrace])

/-- `'(' … ')'`, for the tokens between. -/
def inParens (inner : List Token) : List Token :=
  .symbol .lparen :: (inner ++ [.symbol .rparen])

mutual

/-- The tokens that are derived. -/
def Clause.tokens : Clause → List Token
  | .assign target value =>
    target.tokens ++ .symbol .assign :: (value.tokens ++ [.symbol .semicolon])
  | .ifThen test body => .keyword .ifKw :: (inParens test.tokens ++ inBraces body.tokens)
  | .ifElse test body other =>
    .keyword .ifKw :: (inParens test.tokens ++ (inBraces body.tokens
      ++ .keyword .elseKw :: inBraces other.tokens))
  | .whileDo test body => .keyword .whileKw :: (inParens test.tokens ++ body.tokens)
  | .read target => .keyword .readKw :: (inParens target.tokens ++ [.symbol .semicolon])
  | .write value => .keyword .writeKw :: (inParens value.tokens ++ [.symbol .semicolon])
  | .writeText text => .keyword .writeKw :: (inParens [.string text] ++ [.symbol .semicolon])
  | .returns value => .keyword .returnKw :: (value.tokens ++ [.symbol .semicolon])
  | .exit => [.keyword .exitKw, .symbol .semicolon]
  | .compound body => inBraces body.tokens

/-- The tokens of all statements in a row. -/
def Clauses.tokens : Clauses → List Token
  | .one clause => clause.tokens
  | .more first rest => first.tokens ++ rest.tokens

end

mutual

/-- The statement that is meant. -/
def Clause.tree : Clause → Statement
  | .assign target value => .assign target.target value.tree 0
  | .ifThen test body => .ifThen test.tree ⟨body.trees, 0⟩ 0
  | .ifElse test body other => .ifElse test.tree ⟨body.trees, 0⟩ ⟨other.trees, 0⟩ 0
  | .whileDo test body => .whileDo test.tree body.tree 0
  | .read target => .read target.target 0
  | .write value => .write value.tree 0
  | .writeText text => .write (.string text 0) 0
  | .returns value => .returns value.tree 0
  | .exit => .exit 0
  | .compound body => .compound ⟨body.trees, 0⟩

/-- The statements that are meant. -/
def Clauses.trees : Clauses → List Statement
  | .one clause => [clause.tree]
  | .more first rest => first.tree :: rest.trees

end

mutual

/-- How many levels are open at once: a statement opens one for everything in it. -/
def Clause.levels : Clause → Nat
  | .assign target value => max target.levels value.levels + 1
  | .ifThen test body => max test.levels body.levels + 1
  | .ifElse test body other => max test.levels (max body.levels other.levels) + 1
  | .whileDo test body => max test.levels body.levels + 1
  | .read target => target.levels + 1
  | .write value => value.levels + 1
  | .writeText _ => 1
  | .returns value => value.levels + 1
  | .exit => 1
  | .compound body => body.levels + 1

/-- The levels of the statement that needs most. -/
def Clauses.levels : Clauses → Nat
  | .one clause => clause.levels
  | .more first rest => max first.levels rest.levels

end

/-- A row of statements from its first one and the others. -/
def Clauses.ofList : Clause → List Clause → Clauses
  | c, [] => .one c
  | c, d :: ds => .more c (ofList d ds)

theorem Clauses.tokens_ofList (c : Clause) (cs : List Clause) :
    (ofList c cs).tokens = c.tokens ++ cs.flatMap Clause.tokens := by
  induction cs generalizing c with
  | nil => simp only [ofList, tokens, List.flatMap_nil, List.append_nil]
  | cons d ds ih => simp only [ofList, tokens, ih, List.flatMap_cons]

theorem Clauses.trees_ofList (c : Clause) (cs : List Clause) :
    (ofList c cs).trees = c.tree :: cs.map Clause.tree := by
  induction cs generalizing c with
  | nil => simp only [ofList, trees, List.map_nil]
  | cons d ds ih => simp only [ofList, trees, ih, List.map_cons]

theorem Clauses.levels_ofList_le {n : Nat} {c : Clause} {cs : List Clause} (hc : c.levels ≤ n)
    (hcs : ∀ d ∈ cs, d.levels ≤ n) : (ofList c cs).levels ≤ n := by
  induction cs generalizing c with
  | nil => rwa [ofList, levels]
  | cons d ds ih =>
    obtain ⟨hd, hds⟩ := List.forall_mem_cons.mp hcs
    rw [ofList, levels]
    exact Nat.max_le.mpr ⟨hc, ih hd hds⟩

/-- The first statement that is meant. -/
def Clauses.first : Clauses → Statement
  | .one clause => clause.tree
  | .more first _ => first.tree

/-- The statements behind the first one. -/
def Clauses.others : Clauses → List Statement
  | .one _ => []
  | .more _ rest => rest.trees

theorem Clauses.first_cons_others (cs : Clauses) : cs.first :: cs.others = cs.trees := by
  cases cs <;> simp only [first, others, trees]

theorem Clause.levels_pos (c : Clause) : 0 < c.levels := by
  cases c <;> simp only [levels] <;> exact Nat.succ_pos _

theorem Clause.tokens_ne_nil (c : Clause) : c.tokens ≠ [] := by
  cases c <;> simp [tokens, inBraces]

mutual

theorem Clause.levels_le_length : (c : Clause) → c.levels ≤ c.tokens.length
  | .assign target value => by
    have ht := target.levels_lt_length
    have hv := value.levels_lt_length
    simp only [Clause.levels, Clause.tokens, List.length_append, List.length_cons]
    omega
  | .ifThen test body => by
    have ht := test.levels_lt_length
    have hb := body.levels_le_length
    simp only [Clause.levels, Clause.tokens, inParens, inBraces, List.length_append,
      List.length_cons]
    omega
  | .ifElse test body other => by
    have ht := test.levels_lt_length
    have hb := body.levels_le_length
    have ho := other.levels_le_length
    simp only [Clause.levels, Clause.tokens, inParens, inBraces, List.length_append,
      List.length_cons]
    omega
  | .whileDo test body => by
    have ht := test.levels_lt_length
    have hb := body.levels_le_length
    simp only [Clause.levels, Clause.tokens, inParens, List.length_append, List.length_cons]
    omega
  | .read inner | .write inner | .returns inner => by
    have h := inner.levels_lt_length
    simp only [Clause.levels, Clause.tokens, inParens, List.length_append, List.length_cons]
    omega
  | .writeText _ | .exit => by
    simp only [Clause.levels, Clause.tokens, List.length_cons]
    omega
  | .compound body => by
    have h := body.levels_le_length
    simp only [Clause.levels, Clause.tokens, inBraces, List.length_append, List.length_cons]
    omega

theorem Clauses.levels_le_length : (cs : Clauses) → cs.levels ≤ cs.tokens.length
  | .one clause => clause.levels_le_length
  | .more first rest => by
    have hf := first.levels_le_length
    have hr := rest.levels_le_length
    simp only [Clauses.levels, Clauses.tokens, List.length_append]
    omega

end

/-! ## 3. Declarations -/

/-- `VarDecl → IDENT | IDENT '[' INTCON ']'` -/
structure Declarator where
  name : String
  size : Option Nat

namespace Declarator

/-- The tokens that are derived. -/
def tokens (d : Declarator) : List Token :=
  .ident d.name ::
    match d.size with
    | none => []
    | some size => [.symbol .lbracket, .int size, .symbol .rbracket]

/-- The declaration that is meant, of the given type. -/
def tree (type : ValueType) (d : Declarator) : Declaration :=
  ⟨d.name, type, d.size, 0⟩

end Declarator

/-- `Type IdentifierList ';'` with `IdentifierList → VarDecl (',' VarDecl)*` -/
structure Group where
  type : ValueType
  first : Declarator
  others : List Declarator

namespace Group

/-- The tokens that are derived. -/
def tokens (g : Group) : List Token :=
  .keyword g.type.keyword :: (g.first.tokens
    ++ (g.others.flatMap (fun d => .symbol .comma :: d.tokens) ++ [.symbol .semicolon]))

/-- The declarations that are meant, in order. -/
def trees (g : Group) : List Declaration :=
  (g.first :: g.others).map (Declarator.tree g.type)

end Group

/-! ## 4. Procedures and programs -/

/-- `ProcedureDecl → Type IDENT '(' ')' DeclList? '{' DeclList? StatementList '}'` -/
structure Definition where
  returnType : ValueType
  name : String
  before : List Group
  behind : List Group
  body : Clauses

namespace Definition

/-- The tokens that are derived. -/
def tokens (d : Definition) : List Token :=
  .keyword d.returnType.keyword :: .ident d.name :: .symbol .lparen :: .symbol .rparen ::
    (d.before.flatMap Group.tokens
      ++ inBraces (d.behind.flatMap Group.tokens ++ d.body.tokens))

/-- The procedure that is meant. Declarations before the brace come first. -/
def tree (d : Definition) : Procedure :=
  ⟨d.returnType, d.name, ⟨(d.before ++ d.behind).flatMap Group.trees, 0⟩, ⟨d.body.trees, 0⟩, 0⟩

end Definition

/-- `Program → DeclList? ProcedureDecl+` -/
structure Document where
  globals : List Group
  first : Definition
  others : List Definition

theorem foldr_max_le_iff {ns : List Nat} {n : Nat} :
    ns.foldr max 0 ≤ n ↔ ∀ m ∈ ns, m ≤ n := by
  induction ns with
  | nil => simp
  | cons m ms ih => simp only [List.foldr_cons, Nat.max_le, ih, List.forall_mem_cons]

namespace Document

/-- The tokens that are derived. -/
def tokens (d : Document) : List Token :=
  d.globals.flatMap Group.tokens ++ (d.first :: d.others).flatMap Definition.tokens

/-- The program that is meant. -/
def tree (d : Document) : Program :=
  ⟨if d.globals = [] then none else some ⟨d.globals.flatMap Group.trees, 0⟩,
    (d.first :: d.others).map Definition.tree, 0⟩

/-- The levels of the procedure that needs most. -/
def levels (d : Document) : Nat :=
  ((d.first :: d.others).map (·.body.levels)).foldr max 0

theorem levels_le_iff {d : Document} {n : Nat} :
    d.levels ≤ n ↔ ∀ p ∈ d.first :: d.others, p.body.levels ≤ n := by
  rw [levels, foldr_max_le_iff, List.forall_mem_map]

theorem levels_le_length (d : Document) : d.levels ≤ d.tokens.length := by
  rw [levels_le_iff]
  intro p hp
  have hb := p.body.levels_le_length
  have hd : p.body.tokens.length ≤ p.tokens.length := by
    simp only [Definition.tokens, inBraces, List.length_cons, List.length_append]
    omega
  have ht : p.tokens.length ≤ d.tokens.length := by
    unfold tokens
    rw [List.length_append]
    exact Nat.le_add_left_of_le (List.sublist_flatten_of_mem (List.mem_map_of_mem hp)).length_le
  omega

end Document

end CMinus.Grammar
