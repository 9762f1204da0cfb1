import CMinus.Parse.Program

/-!
# Counted: reading with one counter of levels

The productions are handed the levels that are left, and what they hand on is lowered with every
level that is opened. A machine keeps one counter instead: a word that is raised where a level is
opened and lowered where it is closed, by several levels at once behind a chain. A failure leaves at
once and lowers nothing on its way out, except that a statement lowers the counter by its own level
whatever came of it. Here are the productions of such a machine, with every change of its counter on
record. That they read what the productions of `CMinus.Parse` read is not said by how they are
written: it depends on the counter being right at each token.

Nor is it said that reading ends. A counter that is too low lets levels be opened without end, so
every production is told how many levels deep it may call others, and has no answer beyond that.
This number decides nothing else: whether a level is opened is up to the counter.
-/

namespace CMinus.Parse

/-! ## 1. The counter -/

/-- A change of the counter, and the depth at which it is made. -/
inductive Move (w : Nat)
  /-- One level is opened. -/
  | charge (depth : BitVec w)
  /-- Some levels are closed. -/
  | release (levels depth : BitVec w)
deriving DecidableEq, Repr

namespace Move

variable {w : Nat}

/-- The depth in front of a change. -/
def before : Move w → BitVec w
  | charge depth | release _ depth => depth

/-- The depth behind a change, as a word has it: it wraps around at either end. -/
def after : Move w → BitVec w
  | charge depth => depth + 1
  | release levels depth => depth - levels

/-- The change does not wrap around. -/
def Fits : Move w → Prop
  | charge depth => depth.toNat + 1 < 2 ^ w
  | release levels depth => levels ≤ depth

/-- Changes that lead from one depth to another, each from where the one before has led. -/
inductive Course : BitVec w → List (Move w) → BitVec w → Prop
  | nil (depth : BitVec w) : Course depth [] depth
  | cons (m : Move w) {moves : List (Move w)} {depth : BitVec w}
    (h : Course m.after moves depth) : Course m.before (m :: moves) depth

end Move

/-- Where a reading stands. -/
structure Cursor (w : Nat) where
  /-- The tokens from the next one on. -/
  ahead : List Lexeme
  /-- How many levels are open. -/
  depth : BitVec w
  /-- The changes of the depth so far, in their order. -/
  moves : List (Move w) := []
deriving DecidableEq

/-- A production that keeps count. A failure leaves the cursor where it is. There may be no answer
    at all. -/
abbrev Counted (w : Nat) (α : Type) := ExceptT Failure (StateT (Cursor w) Option) α

namespace Counted

variable {w : Nat} {α β : Type}

/-- The tokens from the next one on. -/
def ahead : Counted w (List Lexeme) := do
  return (← get).ahead

/-- Takes the next token. -/
def advance : Counted w Unit :=
  modify fun c => { c with ahead := c.ahead.tail }

/-- A production that opens no level. -/
def uncounted (p : Production α) : Counted w α := do
  match p (← ahead) with
  | .ok (a, rest) =>
    modify fun c => { c with ahead := rest }
    return a
  | .error failure =>
    modify fun c => { c with ahead := failure.rest }
    throw failure

/-- Opens a level, unless as many are open as the limit allows. -/
def charge (limit : BitVec w) : Counted w Unit := do
  let c ← get
  if limit ≤ c.depth then
    throw ⟨.tooDeep, c.ahead⟩
  else
    set { c with depth := c.depth + 1, moves := c.moves ++ [Move.charge c.depth] }

/-- Closes levels. Nothing keeps the counter from wrapping around when fewer are open. -/
def release (levels : BitVec w) : Counted w Unit :=
  modify fun c =>
    { c with depth := c.depth - levels, moves := c.moves ++ [Move.release levels c.depth] }

/-- Closes the level of `x` whatever comes of it. -/
def closing (x : Counted w α) : Counted w α := ExceptT.mk do
  let answer ← x.run
  let _ ← (release 1).run
  return answer

/-- No answer. -/
def unfinished : Counted w α :=
  ExceptT.mk fun _ => none

/-- Opens a level for the next token and takes it. What follows may go one level less deep. -/
def entering (limit : BitVec w) : (n : Nat) → (x : (less : Nat) → less < n → Counted w α) →
    Counted w α
  | 0, _ => do
    charge limit
    unfinished
  | n + 1, x => do
    charge limit
    advance
    x n (Nat.lt_succ_self n)

/-- At most `n` items, as long as there is more; no answer when there is more behind them. -/
def repeatAtMost (more : List Lexeme → Bool) (item : Counted w α) : Nat → Counted w (List α)
  | 0 => unfinished
  | n + 1 => do
    if more (← ahead) then
      let first ← item
      let others ← repeatAtMost more item n
      return first :: others
    else
      return []

/-- Items as long as there is more. Each takes a token, so there are no more items than tokens. -/
def repeatWhile (more : List Lexeme → Bool) (item : Counted w α) : Counted w (List α) := do
  repeatAtMost more item ((← ahead).length + 1)

/-! ## 2. One step at a time -/

theorem run_bind_ok {x : Counted w α} {f : α → Counted w β} {c c' : Cursor w} {a : α}
    (h : x.run.run c = some (.ok a, c')) : (x >>= f).run.run c = (f a).run.run c' := by
  change (x.run.run c >>= fun (a, c') => ExceptT.bindCont f a c') = _
  rw [h]
  rfl

theorem run_bind_error {x : Counted w α} {f : α → Counted w β} {c c' : Cursor w}
    {failure : Failure} (h : x.run.run c = some (.error failure, c')) :
    (x >>= f).run.run c = some (.error failure, c') := by
  change (x.run.run c >>= fun (a, c') => ExceptT.bindCont f a c') = _
  rw [h]
  rfl

theorem run_uncounted_ok {p : Production α} {c : Cursor w} {a : α} {rest : List Lexeme}
    (h : p c.ahead = .ok (a, rest)) :
    (uncounted p).run.run c = some (.ok a, { c with ahead := rest }) := by
  have hahead : (ahead (w := w)).run.run c = some (.ok c.ahead, c) := rfl
  rw [uncounted, run_bind_ok hahead, h]
  rfl

theorem run_uncounted_error {p : Production α} {c : Cursor w} {failure : Failure}
    (h : p c.ahead = .error failure) :
    (uncounted p).run.run c = some (.error failure, { c with ahead := failure.rest }) := by
  have hahead : (ahead (w := w)).run.run c = some (.ok c.ahead, c) := rfl
  rw [uncounted, run_bind_ok hahead, h]
  rfl

theorem run_charge_of_lt {limit : BitVec w} {c : Cursor w} (h : c.depth < limit) :
    (charge limit).run.run c = some (.ok (),
      { c with depth := c.depth + 1, moves := c.moves ++ [.charge c.depth] }) := by
  have hget : (get : Counted w (Cursor w)).run.run c = some (.ok c, c) := rfl
  rw [charge, run_bind_ok hget, if_neg (BitVec.not_le.mpr h)]
  rfl

theorem run_charge_of_le {limit : BitVec w} {c : Cursor w} (h : limit ≤ c.depth) :
    (charge limit).run.run c = some (.error ⟨.tooDeep, c.ahead⟩, c) := by
  have hget : (get : Counted w (Cursor w)).run.run c = some (.ok c, c) := rfl
  rw [charge, run_bind_ok hget, if_pos h]
  rfl

theorem run_release (levels : BitVec w) (c : Cursor w) :
    (release levels).run.run c = some (.ok (),
      { c with depth := c.depth - levels, moves := c.moves ++ [.release levels c.depth] }) := rfl

theorem run_closing {x : Counted w α} {c c' : Cursor w} {answer : Except Failure α}
    (h : x.run.run c = some (answer, c')) :
    (closing x).run.run c = some (answer,
      { c' with depth := c'.depth - 1, moves := c'.moves ++ [.release 1 c'.depth] }) := by
  change (x.run.run c >>= fun (answer, c') => some (answer,
    { c' with depth := c'.depth - 1, moves := c'.moves ++ [Move.release 1 c'.depth] })) = _
  rw [h]
  rfl

/-! ## 3. Expressions -/

mutual

/-- An expression. -/
def expression (limit : BitVec w) (n : Nat) : Counted w Expression := do
  match ← ahead with
  | ⟨.symbol .not, line⟩ :: _ =>
    entering limit n fun less _ => do
      let negated ← chain limit .relational less
      release 1
      chainRest limit .logical n 0 (.not negated line)
  | _ => chain limit .logical n
termination_by 11 * n + 10
decreasing_by
  · have := rank_le .relational; omega
  · omega
  · have := rank_pos .logical; omega

/-- A chain of the given tier. -/
def chain (limit : BitVec w) (tier : Tier) (n : Nat) : Counted w Expression := do
  let left ← operand limit tier n
  chainRest limit tier n 0 left
termination_by 11 * n + (11 - 2 * tier.rank)
decreasing_by
  · have := rank_le tier; omega
  · have := rank_le tier; omega

/-- The rest of a chain for whose operators `levels` levels are open. They are closed at its end. -/
def chainRest (limit : BitVec w) (tier : Tier) (n : Nat) (levels : BitVec w) (left : Expression) :
    Counted w Expression := do
  match (← ahead).head?.bind fun l => tier.operator? l.token with
  | some op =>
    entering limit n fun less _ => do
      let right ← operand limit tier less
      chainRest limit tier less (levels + 1) (.combine op left right)
  | none =>
    release levels
    return left
termination_by 11 * n
decreasing_by
  · have := rank_le tier; omega
  · omega

/-- An operand of the given tier. -/
def operand (limit : BitVec w) (tier : Tier) (n : Nat) : Counted w Expression :=
  match _h : tier.tighter? with
  | some tighter => chain limit tighter n
  | none => factor limit n
termination_by 11 * n + (10 - 2 * tier.rank)
decreasing_by
  · have := rank_tighter _h; have := rank_le tighter; omega
  · have := rank_le tier; omega

/-- A factor. -/
def factor (limit : BitVec w) (n : Nat) : Counted w Expression := do
  match ← ahead with
  | ⟨.ident name, line⟩ :: _ =>
    advance
    match ← ahead with
    | ⟨.symbol .lparen, _⟩ :: _ =>
      advance
      let _ ← uncounted (sign .rparen)
      return .call name line
    | _ =>
      let place ← subscript limit n name line
      return place.toExpression
  | ⟨.int value, line⟩ :: _ =>
    advance
    return .int value line
  | ⟨.float value, line⟩ :: _ =>
    advance
    return .float value line
  | ⟨.symbol .lparen, _⟩ :: _ =>
    entering limit n fun less _ => do
      let inner ← expression limit less
      let _ ← uncounted (sign .rparen)
      release 1
      return inner
  | _ => uncounted (fail .expression)
termination_by 11 * n + 1

/-- What may follow the name of a variable. -/
def subscript (limit : BitVec w) (n : Nat) (name : String) (line : Nat) : Counted w Variable := do
  match ← ahead with
  | ⟨.symbol .lbracket, _⟩ :: _ =>
    entering limit n fun less _ => do
      let index ← expression limit less
      let _ ← uncounted (sign .rbracket)
      release 1
      return ⟨name, some index, line⟩
  | _ => return ⟨name, none, line⟩
termination_by 11 * n

end

/-- A place to write to. -/
def place (limit : BitVec w) (n : Nat) : Counted w Variable := do
  let named ← uncounted identifier
  subscript limit n named.1 named.2

/-! ## 4. Statements -/

/-- An expression in parentheses, as a test. -/
def condition (limit : BitVec w) (n : Nat) : Counted w Expression := do
  let _ ← uncounted (sign .lparen)
  let test ← expression limit n
  let _ ← uncounted (sign .rparen)
  return test

/-- What a `write` writes. -/
def written (limit : BitVec w) (n : Nat) : Counted w Expression := do
  match ← ahead with
  | ⟨.string text, line⟩ :: _ =>
    advance
    return .string text line
  | _ => expression limit n

/-- One statement and more of them. -/
def statements (item : Counted w Statement) : Counted w (Statement × List Statement) := do
  let first ← item
  let others ← repeatWhile (startsWith Token.startsStatement) item
  return (first, others)

/-- Statements between braces. -/
def compound (item : Counted w Statement) : Counted w (Block Statement) := do
  let line ← uncounted (sign .lbrace)
  let listed ← statements item
  let _ ← uncounted (sign .rbrace)
  return ⟨listed.1 :: listed.2, line⟩

/-- A statement whose level is open. The statements within are read by `item`. -/
def statementKind (limit : BitVec w) (n : Nat) (item : Counted w Statement) :
    Counted w Statement := do
  match ← ahead with
  | ⟨.ident _, line⟩ :: _ =>
    let target ← place limit n
    let _ ← uncounted (sign .assign)
    let value ← expression limit n
    let _ ← uncounted (sign .semicolon)
    return .assign target value line
  | ⟨.keyword .ifKw, line⟩ :: _ =>
    advance
    let test ← condition limit n
    let body ← compound item
    match ← ahead with
    | ⟨.keyword .elseKw, _⟩ :: _ =>
      advance
      let other ← compound item
      return .ifElse test body other line
    | _ => return .ifThen test body line
  | ⟨.keyword .whileKw, line⟩ :: _ =>
    advance
    let test ← condition limit n
    let body ← item
    return .whileDo test body line
  | ⟨.keyword .readKw, line⟩ :: _ =>
    advance
    let _ ← uncounted (sign .lparen)
    let target ← place limit n
    let _ ← uncounted (sign .rparen)
    let _ ← uncounted (sign .semicolon)
    return .read target line
  | ⟨.keyword .writeKw, line⟩ :: _ =>
    advance
    let _ ← uncounted (sign .lparen)
    let value ← written limit n
    let _ ← uncounted (sign .rparen)
    let _ ← uncounted (sign .semicolon)
    return .write value line
  | ⟨.keyword .returnKw, line⟩ :: _ =>
    advance
    let value ← expression limit n
    let _ ← uncounted (sign .semicolon)
    return .returns value line
  | ⟨.keyword .exitKw, line⟩ :: _ =>
    advance
    let _ ← uncounted (sign .semicolon)
    return .exit line
  | ⟨.symbol .lbrace, _⟩ :: _ =>
    let body ← compound item
    return .compound body
  | _ => uncounted (fail .statement)

/-- A statement. Its level is closed whatever comes of it. -/
def statement (limit : BitVec w) : Nat → Counted w Statement
  | 0 => do
    charge limit
    unfinished
  | n + 1 => do
    charge limit
    closing (statementKind limit n (statement limit n))

/-! ## 5. Programs -/

/-- A procedure. -/
def procedure (limit : BitVec w) (n : Nat) : Counted w Procedure := do
  let typed ← uncounted valueType
  let named ← uncounted identifier
  let _ ← uncounted (sign .lparen)
  let _ ← uncounted (sign .rparen)
  let before ← uncounted declarations
  let openLine ← uncounted (sign .lbrace)
  let behind ← uncounted declarations
  let listed ← statements (statement limit n)
  let _ ← uncounted (sign .rbrace)
  let locals := blockOf openLine (before ++ behind)
  return ⟨typed.1, named.1, locals, ⟨listed.1 :: listed.2, listed.1.line⟩, typed.2⟩

/-- A program, up to the end of the source. -/
def program (limit : BitVec w) (n : Nat) : Counted w Program := do
  let groups ← uncounted (Parse.repeatWhile (!startsProcedure ·) group)
  let first ← procedure limit n
  let others ← repeatWhile (!·.isEmpty) (procedure limit n)
  let globals := globalsOf groups.flatten
  return ⟨globals, first :: others, globals.elim first.line (·.line)⟩

end Counted

end CMinus.Parse
