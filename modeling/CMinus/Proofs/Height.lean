import CMinus.Proofs.RoundTrip

/-!
# Height: how tall the trees are that the nesting limit lets through

The height of a program is the greatest number of nested nodes in a procedure: statements, operators
and indexed variables on one path from the root to a leaf. An operator of a chain opens a level for
the operands behind it only, while in the tree it stands above those in front of it as well. So the
limit bounds the nodes of a path without the operators it leaves to the left, and the full height
only by `2 * n * n - n`.
-/

namespace CMinus

open Grammar Parse

/-! ## 1. Heights -/

/-- The greatest number of nested nodes. A binary operator counts `w` on the way to its left operand
    and one on the way to its right one. -/
def Expression.heightWith (w : Nat) : Expression → Nat
  | .binary _ left right _ => max (left.heightWith w + w) (right.heightWith w + 1)
  | .not operand _ => operand.heightWith w + 1
  | .element _ index _ => index.heightWith w + 1
  | _ => 0

/-- The nested nodes of a place. -/
def Variable.heightWith (w : Nat) (v : Variable) : Nat :=
  v.toExpression.heightWith w

namespace Statement

mutual

/-- The greatest number of nested nodes, the statement among them. -/
def heightWith (w : Nat) : Statement → Nat
  | assign target value _ => max (target.heightWith w) (value.heightWith w) + 1
  | ifThen condition body _ => max (condition.heightWith w) (heightBlock w body) + 1
  | ifElse condition body other _ =>
    max (condition.heightWith w) (max (heightBlock w body) (heightBlock w other)) + 1
  | whileDo condition body _ => max (condition.heightWith w) (heightWith w body) + 1
  | read target _ => target.heightWith w + 1
  | write value _ => value.heightWith w + 1
  | returns value _ => value.heightWith w + 1
  | exit _ => 1
  | compound body => heightBlock w body + 1

/-- The height of the statements in a block. -/
def heightBlock (w : Nat) : Block Statement → Nat
  | ⟨items, _⟩ => heightList w items

/-- The height of the tallest statement. -/
def heightList (w : Nat) : List Statement → Nat
  | [] => 0
  | s :: rest => max (heightWith w s) (heightList w rest)

end

end Statement

/-- The height of the tallest procedure. -/
def Program.heightWith (w : Nat) (p : Program) : Nat :=
  (p.procedures.map fun q => Statement.heightBlock w q.body).foldr max 0

/-- The height of the tree. -/
def Program.height (p : Program) : Nat :=
  p.heightWith 1

/-- The height of the tree without the operators that a path leaves to the left. -/
def Program.rightHeight (p : Program) : Nat :=
  p.heightWith 0

section Lines

variable (w : Nat)

@[simp] theorem Expression.heightWith_bare (e : Expression) :
    e.bare.heightWith w = e.heightWith w := by
  induction e with
  | binary op left right line ihl ihr => simp only [bare, heightWith, ihl, ihr]
  | not operand line ih => simp only [bare, heightWith, ih]
  | element name index line ih => simp only [bare, heightWith, ih]
  | scalar | call | int | float | string => rfl

@[simp] theorem Variable.heightWith_bare (v : Variable) : v.bare.heightWith w = v.heightWith w := by
  simp only [heightWith, toExpression_bare, Expression.heightWith_bare]

namespace Statement

mutual

theorem heightWith_bare : (s : Statement) → s.bare.heightWith w = s.heightWith w
  | assign target value _ => by
    simp only [bare, heightWith, Variable.heightWith_bare, Expression.heightWith_bare]
  | ifThen condition body _ => by
    simp only [bare, heightWith, Expression.heightWith_bare, heightBlock_bare body]
  | ifElse condition body other _ => by
    simp only [bare, heightWith, Expression.heightWith_bare, heightBlock_bare body,
      heightBlock_bare other]
  | whileDo condition body _ => by
    simp only [bare, heightWith, Expression.heightWith_bare, heightWith_bare body]
  | read target _ => by simp only [bare, heightWith, Variable.heightWith_bare]
  | write value _ => by simp only [bare, heightWith, Expression.heightWith_bare]
  | returns value _ => by simp only [bare, heightWith, Expression.heightWith_bare]
  | exit _ => rfl
  | compound body => by simp only [bare, heightWith, heightBlock_bare body]

theorem heightBlock_bare : (b : Block Statement) → heightBlock w (bareBlock b) = heightBlock w b
  | ⟨items, _⟩ => by simp only [bareBlock, heightBlock, heightList_bare items]

theorem heightList_bare : (ss : List Statement) → heightList w (bareList ss) = heightList w ss
  | [] => rfl
  | s :: rest => by simp only [bareList, heightList, heightWith_bare s, heightList_bare rest]

end

end Statement

theorem Program.heightWith_bare (p : Program) : p.bare.heightWith w = p.heightWith w := by
  unfold heightWith bare
  simp only [List.map_map, Function.comp_def, Procedure.bare, Statement.heightBlock_bare]

end Lines

/-! ## 2. Heights of derived trees -/

namespace Grammar

/-- A level for every node of a path, but none for an operator that is left to the left. -/
theorem Phrase.heightWith_zero_le {l : Level} (p : Phrase l) : p.tree.heightWith 0 ≤ p.levels := by
  induction p with
  | join op fits left right ihl ihr =>
    simp only [tree, Expression.heightWith, levels]
    omega
  | operand inner ih | place inner ih => exact ih
  | parens inner ih => exact Nat.le_succ_of_le ih
  | negation inner ih | element name index ih => exact Nat.succ_le_succ ih
  | int | float | call | scalar => exact Nat.le_refl 0

/-- How tall a tree can get with `n` levels: `2 * n * n - n`. -/
def quota (n : Nat) : Nat :=
  n * (2 * n - 1)

theorem quota_succ (n : Nat) : quota (n + 1) = quota n + 4 * n + 1 := by
  cases n with
  | zero => rfl
  | succ n =>
    calc (n + 2) * (2 * n + 3)
        = (n + 1) * (2 * n + 1) + (n + 1) * 2 + (2 * n + 3) := by
          rw [← Nat.mul_add, Nat.add_mul (n + 1) 1, Nat.one_mul]
      _ = (n + 1) * (2 * n + 1) + 4 * (n + 1) + 1 := by omega

theorem quota_mono {m n : Nat} (h : m ≤ n) : quota m ≤ quota n :=
  Nat.mul_le_mul h (by omega)

/-- How tall the tree of a phrase can get: on each tier down to the factors the first operand may
    stand under a chain of `n` operators. -/
def ceiling (l : Level) (n : Nat) : Nat :=
  quota n + (5 - l.rank) * n

theorem ceiling_mono {l : Level} {m n : Nat} (h : m ≤ n) : ceiling l m ≤ ceiling l n :=
  Nat.add_le_add (quota_mono h) (Nat.mul_le_mul_left _ h)

theorem ceiling_operands (tier : Tier) (n : Nat) :
    ceiling (.chain tier) n = ceiling (operands tier) n + n := by
  cases tier <;> simp only [ceiling, operands, Level.rank, Tier.rank] <;> omega

theorem Level.rank_pos (l : Level) : 1 ≤ l.rank := by
  rcases l with tier | _ | _
  · exact Parse.rank_pos tier
  · decide
  · decide

/-- One more level is room for one more node. -/
theorem ceiling_lt_quota (l : Level) (n : Nat) : ceiling l n < quota (n + 1) := by
  have hrank := l.rank_pos
  have hmul : (5 - l.rank) * n ≤ 4 * n := Nat.mul_le_mul_right n (by omega)
  rw [quota_succ, ceiling]
  omega

/-- How many operators the outermost chain can have. -/
def slack : Level → Nat → Nat
  | .chain _, n => n
  | _, _ => 0

theorem Phrase.spine_le_slack {l : Level} {p : Phrase l} {n : Nat} (h : p.levels ≤ n) :
    p.spine ≤ slack l n := by
  have hspine := Nat.le_trans p.spine_le_levels h
  cases p with
  | join | operand | negation => exact hspine
  | _ => exact Nat.zero_le _

/-- The bound that the induction carries: each operator that a chain could still have is a node
    that its tree does not have. -/
def Phrase.Fits {l : Level} (p : Phrase l) (n : Nat) : Prop :=
  p.tree.heightWith 1 + slack l n ≤ ceiling l n + p.spine

theorem Phrase.Fits.le_ceiling {l : Level} {p : Phrase l} {n : Nat} (h : p.Fits n)
    (hn : p.levels ≤ n) : p.tree.heightWith 1 ≤ ceiling l n := by
  have hslack := p.spine_le_slack hn
  unfold Fits at h
  omega

theorem Phrase.Fits.lt_quota {l : Level} {p : Phrase l} {n : Nat} (h : p.Fits n)
    (hn : p.levels ≤ n) : p.tree.heightWith 1 < quota (n + 1) :=
  Nat.lt_of_le_of_lt (h.le_ceiling hn) (ceiling_lt_quota l n)

theorem Phrase.fits {l : Level} (p : Phrase l) : ∀ n, p.levels ≤ n → p.Fits n := by
  induction p with
  | @join tier op fits left right ihl ihr =>
    intro n h
    rw [levels] at h
    have hleft := ihl n (by omega)
    -- The right operand has the levels that the operators in front of it leave.
    have hright := (ihr (n - (left.spine + 1)) (by omega)).le_ceiling (by omega)
    have hmono := ceiling_mono (l := operands tier) (Nat.sub_le n (left.spine + 1))
    have hceiling := ceiling_operands tier n
    simp only [Fits, tree, Expression.heightWith, spine, slack] at hleft ⊢
    omega
  | @operand tier inner ih =>
    intro n h
    have hinner := (ih n h).le_ceiling h
    have hceiling := ceiling_operands tier n
    simp only [Fits, tree, spine, slack]
    omega
  | negation inner ih =>
    intro n h
    rw [levels] at h
    obtain ⟨m, rfl⟩ := Nat.exists_eq_add_of_le' (Nat.le_trans (Nat.le_add_left 1 _) h)
    have hinner := (ih m (by omega)).lt_quota (by omega)
    simp only [Fits, tree, Expression.heightWith, spine, slack, ceiling, Level.rank, Tier.rank]
    omega
  | place inner ih =>
    intro n h
    have hinner := (ih n h).le_ceiling h
    simp only [Fits, tree, spine, slack, ceiling, Level.rank] at hinner ⊢
    omega
  | parens inner ih =>
    intro n h
    rw [levels] at h
    obtain ⟨m, rfl⟩ := Nat.exists_eq_add_of_le' (Nat.le_trans (Nat.le_add_left 1 _) h)
    have hinner := (ih m (by omega)).lt_quota (by omega)
    simp only [Fits, tree, spine, slack, ceiling, Level.rank]
    omega
  | element name index ih =>
    intro n h
    rw [levels] at h
    obtain ⟨m, rfl⟩ := Nat.exists_eq_add_of_le' (Nat.le_trans (Nat.le_add_left 1 _) h)
    have hindex := (ih m (by omega)).lt_quota (by omega)
    simp only [Fits, tree, Expression.heightWith, spine, slack, ceiling, Level.rank]
    omega
  | int | float | call | scalar => exact fun n _ => Nat.zero_le _

theorem Phrase.heightWith_target {p : Phrase .variable} (w : Nat) :
    p.target.heightWith w = p.tree.heightWith w := by
  rw [Variable.heightWith, toExpression_target]

/-- `f n` bounds what `n` levels hold: every level has room for one more node. -/
structure Bounds (w : Nat) (f : Nat → Nat) : Prop where
  phrase : ∀ {l : Level} (p : Phrase l) (n : Nat), p.levels ≤ n → p.tree.heightWith w < f (n + 1)
  step : ∀ n, f n < f (n + 1)

theorem bounds_id : Bounds 0 id where
  phrase p _ hn := Nat.lt_succ_of_le (Nat.le_trans p.heightWith_zero_le hn)
  step n := Nat.lt_succ_self n

theorem bounds_quota : Bounds 1 quota where
  phrase p n hn := (p.fits n hn).lt_quota hn
  step n := by
    rw [quota_succ]
    omega

section Statements

variable {w : Nat} {f : Nat → Nat}

mutual

theorem Clause.heightWith_le (h : Bounds w f) : (c : Clause) → ∀ n, c.levels ≤ n →
    c.tree.heightWith w ≤ f n
  | c, 0, hn => absurd hn (Nat.not_le_of_lt c.levels_pos)
  | .assign target value, n + 1, hn => by
    rw [Clause.levels] at hn
    have ht := h.phrase target n (by omega)
    have hv := h.phrase value n (by omega)
    rw [Clause.tree, Statement.heightWith, Phrase.heightWith_target]
    omega
  | .ifThen test body, n + 1, hn => by
    rw [Clause.levels] at hn
    have ht := h.phrase test n (by omega)
    have hb := body.heightList_le h n (by omega)
    have hstep := h.step n
    rw [Clause.tree, Statement.heightWith, Statement.heightBlock]
    omega
  | .ifElse test body other, n + 1, hn => by
    rw [Clause.levels] at hn
    have ht := h.phrase test n (by omega)
    have hb := body.heightList_le h n (by omega)
    have ho := other.heightList_le h n (by omega)
    have hstep := h.step n
    rw [Clause.tree, Statement.heightWith, Statement.heightBlock, Statement.heightBlock]
    omega
  | .whileDo test body, n + 1, hn => by
    rw [Clause.levels] at hn
    have ht := h.phrase test n (by omega)
    have hb := body.heightWith_le h n (by omega)
    have hstep := h.step n
    rw [Clause.tree, Statement.heightWith]
    omega
  | .read target, n + 1, hn => by
    have ht := h.phrase target n (Nat.le_of_succ_le_succ hn)
    rw [Clause.tree, Statement.heightWith, Phrase.heightWith_target]
    omega
  | .write value, n + 1, hn => by
    have hv := h.phrase value n (Nat.le_of_succ_le_succ hn)
    rw [Clause.tree, Statement.heightWith]
    omega
  | .writeText _, n + 1, _ => Nat.lt_of_le_of_lt (Nat.zero_le _) (h.step n)
  | .returns value, n + 1, hn => by
    have hv := h.phrase value n (Nat.le_of_succ_le_succ hn)
    rw [Clause.tree, Statement.heightWith]
    omega
  | .exit, n + 1, _ => Nat.lt_of_le_of_lt (Nat.zero_le _) (h.step n)
  | .compound body, n + 1, hn => by
    have hb := body.heightList_le h n (Nat.le_of_succ_le_succ hn)
    have hstep := h.step n
    rw [Clause.tree, Statement.heightWith, Statement.heightBlock]
    omega

theorem Clauses.heightList_le (h : Bounds w f) : (cs : Clauses) → ∀ n, cs.levels ≤ n →
    Statement.heightList w cs.trees ≤ f n
  | .one clause, n, hn => by
    have hc := clause.heightWith_le h n hn
    rw [Clauses.trees, Statement.heightList, Statement.heightList]
    omega
  | .more first rest, n, hn => by
    rw [Clauses.levels] at hn
    have hfirst := first.heightWith_le h n (by omega)
    have hrest := rest.heightList_le h n (by omega)
    rw [Clauses.trees, Statement.heightList]
    omega

end

theorem Document.heightWith_le (h : Bounds w f) {d : Document} {n : Nat} (hn : d.levels ≤ n) :
    d.tree.heightWith w ≤ f n := by
  rw [Document.levels_le_iff] at hn
  rw [Program.heightWith, foldr_max_le_iff, tree, List.map_map, List.forall_mem_map]
  exact fun q hq => q.body.heightList_le h n (hn q hq)

end Statements

end Grammar

/-! ## 3. Heights of accepted programs -/

section Accepted

variable {source : String} {o : Options} {p : Program} (h : parse source o = .ok p)
include h

/-- The limit bounds the nodes of every path without the operators it leaves to the left. -/
theorem rightHeight_le_maxNesting : p.rightHeight ≤ o.maxNesting := by
  obtain ⟨d, hlevels, htree, _⟩ := exists_document_of_parse h
  rw [Program.rightHeight, ← p.heightWith_bare, ← htree]
  exact Document.heightWith_le bounds_id hlevels

/-- The limit bounds the height by its quota. -/
theorem height_le_quota : p.height ≤ quota o.maxNesting := by
  obtain ⟨d, hlevels, htree, _⟩ := exists_document_of_parse h
  rw [Program.height, ← p.heightWith_bare, ← htree]
  exact Document.heightWith_le bounds_quota hlevels

end Accepted

/-! ## 4. A program that is taller than its limit -/

/-- The variable `b`. -/
def leaf : Expression :=
  .scalar "b" 0

/-- `b < b && b && … && b` with `n` logical operators. -/
def conjunction : Nat → Expression
  | 0 => .binary .lt leaf leaf 0
  | n + 1 => .binary .and (conjunction n) leaf 0

/-- A procedure that returns the conjunction. -/
def returning (n : Nat) : Program :=
  ⟨none, [⟨.int, "f", ⟨[], 0⟩, ⟨[.returns (conjunction n) 0], 0⟩, 0⟩], 0⟩

theorem wellFormed_leaf : leaf.WellFormed :=
  show IsName "b" by decide

theorem isName_f : IsName "f" := by
  decide

theorem wellFormed_conjunction (n : Nat) : (conjunction n).WellFormed := by
  induction n with
  | zero => exact ⟨wellFormed_leaf, wellFormed_leaf⟩
  | succ n ih => exact ⟨ih, wellFormed_leaf⟩

theorem wellFormed_returning (n : Nat) : (returning n).WellFormed := by
  refine ⟨fun ds hds => (by cases hds), List.cons_ne_nil _ _, ?_⟩
  rw [returning, List.forall_mem_singleton]
  refine ⟨isName_f, List.forall_mem_nil _, List.cons_ne_nil _ _, ?_⟩
  exact ⟨wellFormed_conjunction n, trivial⟩

theorem spine_conjunction (n : Nat) : (conjunction n).spine .logical = n := by
  induction n with
  | zero => rfl
  | succ n ih =>
    have htier : BinaryOp.and.tier = .logical := rfl
    rw [conjunction, Expression.spine, if_pos htier, ih]

theorem levels_conjunction (n : Nat) : (conjunction n).levels = max 1 n := by
  induction n with
  | zero => rfl
  | succ n ih =>
    have hrank : ¬(conjunction n).rank < BinaryOp.and.tier.rank :=
      Nat.not_lt_of_le (conjunction n).rank_pos
    have hleaf : bracketed (leaf.rank < BinaryOp.and.tier.rank + 1) leaf.levels = 0 := rfl
    rw [conjunction, Expression.levels, hleaf, decide_eq_false hrank, bracketed, ih,
      show BinaryOp.and.tier = .logical from rfl, spine_conjunction]
    simp only [Bool.false_eq_true, if_false]
    omega

theorem heightWith_conjunction (n : Nat) : (conjunction n).heightWith 1 = n + 1 := by
  induction n with
  | zero => rfl
  | succ n ih =>
    rw [conjunction, Expression.heightWith, ih, show leaf.heightWith 1 = 0 from rfl]
    omega

theorem levels_returning (n : Nat) : (returning n).levels = max 1 n + 1 := by
  simp [returning, Program.levels, Statement.levelsBlock, Statement.levelsList, Statement.levels,
    levels_conjunction]

theorem height_returning (n : Nat) : (returning n).height = n + 2 := by
  simp [returning, Program.height, Program.heightWith, Statement.heightBlock, Statement.heightList,
    Statement.heightWith, heightWith_conjunction]

/-- From two levels on some accepted program is taller than the limit. -/
theorem exists_taller {o : Options} (h : 2 ≤ o.maxNesting) :
    ∃ source p, parse source o = .ok p ∧ o.maxNesting < p.height := by
  obtain ⟨n, hn⟩ := Nat.exists_eq_add_of_le' h
  have hlevels : (returning (n + 1)).levels ≤ o.maxNesting := by
    rw [levels_returning, hn]
    omega
  obtain ⟨q, hq, hbare⟩ := parse_source_of_levels_le (wellFormed_returning (n + 1)) hlevels
  refine ⟨_, q, hq, ?_⟩
  rw [Program.height, ← q.heightWith_bare, hbare, Program.heightWith_bare, ← Program.height,
    height_returning, hn]
  omega

/-- **What the limit bounds.** Under every limit it bounds the nodes of each path without the
    operators the path leaves to the left; it bounds the height itself only when it is at most
    one. -/
theorem limit_bounds_height_iff (o : Options) :
    (∀ source p, parse source o = .ok p → p.rightHeight ≤ o.maxNesting) ∧
      ((∀ source p, parse source o = .ok p → p.height ≤ o.maxNesting) ↔ o.maxNesting ≤ 1) := by
  refine ⟨fun _ _ h => rightHeight_le_maxNesting h, ?_, ?_⟩
  · intro hall
    refine Nat.le_of_not_lt fun hlt => ?_
    obtain ⟨source, p, hp, htaller⟩ := exists_taller (o := o) hlt
    exact absurd (hall source p hp) (Nat.not_le_of_lt htaller)
  · intro hle source p hp
    have hquota := height_le_quota hp
    have hone : quota o.maxNesting ≤ o.maxNesting * 1 := Nat.mul_le_mul_left _ (by omega)
    rw [Nat.mul_one] at hone
    exact Nat.le_trans hquota hone

end CMinus
