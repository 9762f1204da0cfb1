import CMinus.Proofs.Bare
import CMinus.Scan.Segment

/-!
# WellFormed: trees that source text can say

Which tokens have a spelling (`Token.Spellable`), and which trees are made of such tokens in the
way the grammar allows (`WellFormed`): names that are names, numbers in range, a string only as the
whole argument of a `write`, no empty row of statements, at least one procedure. Lines do not
matter.
-/

namespace CMinus

/-! ## 1. Tokens -/

/-- A name: the pattern of names matches it in full, and it is no keyword. -/
def IsName (name : String) : Prop :=
  Scan.name? name.toList = some (name.toList, []) ∧ Keyword.ofText? name = none

instance : DecidablePred IsName :=
  fun _ => inferInstanceAs (Decidable (_ ∧ _))

/-- Source text can write the token: numbers are in range, a string leaves one kind of quotes to
    put it in. The mark behind the last token has no text. -/
def Token.Spellable : Token → Prop
  | .ident name => IsName name
  | .int value => 0 ≤ value ∧ value.toNat < 2 ^ 63
  | .float value => value.isFinite = true ∧ value.isNegative = false
  | .string text => ¬('\'' ∈ text.toList ∧ '"' ∈ text.toList)
  | .keyword _ => True
  | .symbol _ => True
  | .eof => False

@[simp] theorem Token.spellable_keyword (k : Keyword) : (Token.keyword k).Spellable ↔ True :=
  Iff.rfl

@[simp] theorem Token.spellable_symbol (s : Symbol) : (Token.symbol s).Spellable ↔ True :=
  Iff.rfl

instance : DecidablePred Token.Spellable
  | .ident name => inferInstanceAs (Decidable (IsName name))
  | .int value => inferInstanceAs (Decidable (0 ≤ value ∧ value.toNat < 2 ^ 63))
  | .float value => inferInstanceAs (Decidable (value.isFinite = true ∧ value.isNegative = false))
  | .string text => inferInstanceAs (Decidable ¬('\'' ∈ text.toList ∧ '"' ∈ text.toList))
  | .keyword _ => isTrue trivial
  | .symbol _ => isTrue trivial
  | .eof => isFalse id

/-! ## 2. Expressions -/

/-- Names, numbers in range, and no string. -/
def Expression.WellFormed : Expression → Prop
  | .binary _ left right _ => left.WellFormed ∧ right.WellFormed
  | .not operand _ => operand.WellFormed
  | .scalar name _ => IsName name
  | .element name index _ => IsName name ∧ index.WellFormed
  | .call name _ => IsName name
  | .int value _ => (Token.int value).Spellable
  | .float value _ => (Token.float value).Spellable
  | .string _ _ => False

/-- An expression can be checked. -/
def Expression.decWellFormed : (e : Expression) → Decidable e.WellFormed
  | .binary _ left right _ => @instDecidableAnd _ _ left.decWellFormed right.decWellFormed
  | .not operand _ => operand.decWellFormed
  | .scalar name _ => inferInstanceAs (Decidable (IsName name))
  | .element name index _ => @instDecidableAnd (IsName name) _ inferInstance index.decWellFormed
  | .call name _ => inferInstanceAs (Decidable (IsName name))
  | .int value _ => inferInstanceAs (Decidable (Token.int value).Spellable)
  | .float value _ => inferInstanceAs (Decidable (Token.float value).Spellable)
  | .string _ _ => isFalse id

instance : DecidablePred Expression.WellFormed := Expression.decWellFormed

/-- A name, and an index that is well-formed. -/
def Variable.WellFormed (v : Variable) : Prop :=
  v.toExpression.WellFormed

instance : DecidablePred Variable.WellFormed :=
  fun v => inferInstanceAs (Decidable v.toExpression.WellFormed)

/-- What a `write` may write: a value, or one string that can be quoted. -/
def Expression.Writable : Expression → Prop
  | .string text _ => (Token.string text).Spellable
  | e => e.WellFormed

instance : DecidablePred Expression.Writable := fun e =>
  match e with
  | .string text _ => inferInstanceAs (Decidable (Token.string text).Spellable)
  | .binary .. | .not .. | .scalar .. | .element .. | .call .. | .int .. | .float .. =>
    inferInstanceAs (Decidable (Expression.WellFormed _))

/-- A value can be written. -/
theorem Expression.WellFormed.writable {e : Expression} (h : e.WellFormed) : e.Writable := by
  cases e with
  | string text line => exact h.elim
  | _ => exact h

@[simp] theorem Expression.wellFormed_bare (e : Expression) :
    e.bare.WellFormed ↔ e.WellFormed := by
  induction e with
  | binary op left right line ihl ihr => simp only [bare, WellFormed, ihl, ihr]
  | not operand line ih => simp only [bare, WellFormed, ih]
  | element name index line ih => simp only [bare, WellFormed, ih]
  | scalar | call | int | float | string => rfl

@[simp] theorem Variable.wellFormed_bare (v : Variable) : v.bare.WellFormed ↔ v.WellFormed := by
  simp only [WellFormed, toExpression_bare, Expression.wellFormed_bare]

@[simp] theorem Expression.writable_bare (e : Expression) : e.bare.Writable ↔ e.Writable := by
  cases e with
  | string text line => rfl
  | _ => exact wellFormed_bare _

/-! ## 3. Statements -/

namespace Statement

mutual

/-- Every part is well-formed. -/
def WellFormed : Statement → Prop
  | assign target value _ => target.WellFormed ∧ value.WellFormed
  | ifThen condition body _ => condition.WellFormed ∧ WellFormedBlock body
  | ifElse condition body other _ =>
    condition.WellFormed ∧ WellFormedBlock body ∧ WellFormedBlock other
  | whileDo condition body _ => condition.WellFormed ∧ WellFormed body
  | read target _ => target.WellFormed
  | write value _ => value.Writable
  | returns value _ => value.WellFormed
  | exit _ => True
  | compound body => WellFormedBlock body

/-- At least one statement, and every one is well-formed. -/
def WellFormedBlock : Block Statement → Prop
  | ⟨items, _⟩ => items ≠ [] ∧ WellFormedList items

/-- Every statement is well-formed. -/
def WellFormedList : List Statement → Prop
  | [] => True
  | s :: rest => WellFormed s ∧ WellFormedList rest

end

mutual

/-- A statement can be checked. -/
def decWellFormed : (s : Statement) → Decidable s.WellFormed
  | assign target value _ =>
    inferInstanceAs (Decidable (target.WellFormed ∧ value.WellFormed))
  | ifThen _ body _ => @instDecidableAnd _ _ inferInstance (decWellFormedBlock body)
  | ifElse _ body other _ =>
    @instDecidableAnd _ _ inferInstance
      (@instDecidableAnd _ _ (decWellFormedBlock body) (decWellFormedBlock other))
  | whileDo _ body _ => @instDecidableAnd _ _ inferInstance (decWellFormed body)
  | read target _ => inferInstanceAs (Decidable target.WellFormed)
  | write value _ => inferInstanceAs (Decidable value.Writable)
  | returns value _ => inferInstanceAs (Decidable value.WellFormed)
  | exit _ => isTrue trivial
  | compound body => decWellFormedBlock body

/-- A block can be checked. -/
def decWellFormedBlock : (b : Block Statement) → Decidable (WellFormedBlock b)
  | ⟨items, _⟩ => @instDecidableAnd (items ≠ []) _ inferInstance (decWellFormedList items)

/-- Statements can be checked. -/
def decWellFormedList : (ss : List Statement) → Decidable (WellFormedList ss)
  | [] => isTrue trivial
  | s :: rest => @instDecidableAnd _ _ (decWellFormed s) (decWellFormedList rest)

end

instance : DecidablePred Statement.WellFormed := decWellFormed

instance : DecidablePred WellFormedBlock := decWellFormedBlock

theorem bareList_ne_nil {ss : List Statement} : bareList ss ≠ [] ↔ ss ≠ [] := by
  cases ss <;> simp [bareList]

mutual

@[simp] theorem wellFormed_bare : (s : Statement) → (s.bare.WellFormed ↔ s.WellFormed)
  | assign target value _ => by
    simp only [bare, WellFormed, Variable.wellFormed_bare, Expression.wellFormed_bare]
  | ifThen condition body _ => by
    simp only [bare, WellFormed, Expression.wellFormed_bare, wellFormedBlock_bare body]
  | ifElse condition body other _ => by
    simp only [bare, WellFormed, Expression.wellFormed_bare, wellFormedBlock_bare body,
      wellFormedBlock_bare other]
  | whileDo condition body _ => by
    simp only [bare, WellFormed, Expression.wellFormed_bare, wellFormed_bare body]
  | read target _ => by simp only [bare, WellFormed, Variable.wellFormed_bare]
  | write value _ => by simp only [bare, WellFormed, Expression.writable_bare]
  | returns value _ => by simp only [bare, WellFormed, Expression.wellFormed_bare]
  | exit _ => Iff.rfl
  | compound body => by simp only [bare, WellFormed, wellFormedBlock_bare body]

theorem wellFormedBlock_bare : (b : Block Statement) →
    (WellFormedBlock (bareBlock b) ↔ WellFormedBlock b)
  | ⟨items, _⟩ => by
    simp only [bareBlock, WellFormedBlock, bareList_ne_nil, wellFormedList_bare items]

theorem wellFormedList_bare : (ss : List Statement) →
    (WellFormedList (bareList ss) ↔ WellFormedList ss)
  | [] => Iff.rfl
  | s :: rest => by
    simp only [bareList, WellFormedList, wellFormed_bare s, wellFormedList_bare rest]

end

end Statement

/-! ## 4. Programs -/

/-- A name, and a size in range. -/
def Declaration.WellFormed (d : Declaration) : Prop :=
  IsName d.name ∧ ∀ size ∈ d.size, (Token.int size).Spellable

instance : DecidablePred Declaration.WellFormed :=
  fun _ => inferInstanceAs (Decidable (_ ∧ ∀ _ ∈ _, _))

/-- A name, well-formed declarations, and at least one statement. -/
def Procedure.WellFormed (p : Procedure) : Prop :=
  IsName p.name ∧ (∀ d ∈ p.locals.items, d.WellFormed) ∧ Statement.WellFormedBlock p.body

instance : DecidablePred Procedure.WellFormed :=
  fun _ => inferInstanceAs (Decidable (_ ∧ (∀ _ ∈ _, _) ∧ _))

/-- At least one procedure, and declarations where there is room for them. -/
def Program.WellFormed (p : Program) : Prop :=
  (∀ ds ∈ p.globals, ds.items ≠ [] ∧ ∀ d ∈ ds.items, d.WellFormed) ∧
    p.procedures ≠ [] ∧ ∀ q ∈ p.procedures, q.WellFormed

instance : DecidablePred Program.WellFormed :=
  fun _ => inferInstanceAs (Decidable ((∀ _ ∈ _, _) ∧ _ ∧ ∀ _ ∈ _, _))

theorem Procedure.wellFormed_bare (p : Procedure) : p.bare.WellFormed ↔ p.WellFormed := by
  simp only [WellFormed, bare, Block.bareDeclarations, List.forall_mem_map,
    Statement.wellFormedBlock_bare]
  rfl

/-- Being well-formed does not depend on lines. -/
theorem Program.wellFormed_bare (p : Program) : p.bare.WellFormed ↔ p.WellFormed := by
  rcases p with ⟨_ | globals, procedures, line⟩
  · simp [WellFormed, bare, Procedure.wellFormed_bare]
  · simp only [WellFormed, bare, Option.map_some, Option.mem_some, forall_eq',
      Block.bareDeclarations, List.forall_mem_map, ne_eq, List.map_eq_nil_iff,
      Procedure.wellFormed_bare]
    rfl

end CMinus
