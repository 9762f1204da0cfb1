import CMinus.Proofs.Height

/-!
# Tallest: the tallest program that the nesting limit lets through

Under `n` levels each of the four tiers has room for a chain of `n` operators, and the first operand
of the tightest chain may be an element whose index has all of this again under one level less. All
these nodes stand on one path. With the statement around them they are as many as `quota` allows, so
the bound `2 * n * n - n` is reached under every limit that accepts a program at all.
-/

namespace CMinus

open Grammar Parse

/-! ## 1. Expressions that use up their levels -/

/-- `e op b op b op … op b` with `k` operators. -/
def chained (op : BinaryOp) : Nat → Expression → Expression
  | 0, e => e
  | k + 1, e => .binary op (chained op k e) leaf 0

/-- A chain of `n` operators on each tier, with `e` as the first operand of the tightest one. -/
def onAllTiers (n : Nat) (e : Expression) : Expression :=
  chained .and n (chained .lt n (chained .add n (chained .mul n e)))

/-- The tallest factor under `n` levels. -/
def tallestFactor : Nat → Expression
  | 0 => leaf
  | n + 1 => .element "b" (onAllTiers n (tallestFactor n)) 0

/-- A tree that can be written under `n` levels: how tightly it binds and how tall it is. -/
structure Reaches (e : Expression) (rank n height : Nat) : Prop where
  wellFormed : e.WellFormed
  rank_le : rank ≤ e.rank
  levels_le : e.levels ≤ n
  height_eq : e.heightWith 1 = height

/-- What binds tighter than a tier has no operator of the tier in front. -/
theorem Expression.spine_of_lt_rank {tier : Tier} {e : Expression} (h : tier.rank < e.rank) :
    e.spine tier = 0 := by
  cases e with
  | binary op left right line =>
    have hne : op.tier ≠ tier := by
      intro heq
      rw [rank, heq] at h
      exact Nat.lt_irrefl _ h
    rw [spine, if_neg hne]
  | _ => rfl

theorem spine_chained {op : BinaryOp} {e : Expression} (h : op.tier.rank < e.rank) (k : Nat) :
    (chained op k e).spine op.tier = k := by
  induction k with
  | zero => exact Expression.spine_of_lt_rank h
  | succ k ih => rw [chained, Expression.spine, if_pos rfl, ih]

/-- Each operator of a chain is one more node, and a chain of up to `n` needs no more than `n`
    levels. -/
theorem Reaches.chained {e : Expression} {rank n height : Nat} (h : Reaches e rank n height)
    (op : BinaryOp) (hop : op.tier.rank < rank) {k : Nat} (hk : k ≤ n) :
    Reaches (chained op k e) op.tier.rank n (height + k) := by
  induction k with
  | zero =>
    exact ⟨h.wellFormed, Nat.le_trans (Nat.le_of_lt hop) h.rank_le, h.levels_le, h.height_eq⟩
  | succ k ih =>
    have hleft := ih (Nat.le_of_succ_le hk)
    have hspine := spine_chained (Nat.lt_of_lt_of_le hop h.rank_le) k
    have hnone : ¬(CMinus.chained op k e).rank < op.tier.rank := Nat.not_lt_of_le hleft.rank_le
    have hleaf : bracketed (leaf.rank < op.tier.rank + 1) leaf.levels = 0 := by
      have hrank : ¬leaf.rank < op.tier.rank + 1 :=
        Nat.not_lt_of_le (Nat.succ_le_succ (Parse.rank_le op.tier))
      rw [decide_eq_false hrank]
      rfl
    refine ⟨⟨hleft.wellFormed, wellFormed_leaf⟩, Nat.le_refl _, ?_, ?_⟩
    · have hlevels := hleft.levels_le
      rw [CMinus.chained, Expression.levels, decide_eq_false hnone, bracketed, hspine, hleaf]
      simp only [Bool.false_eq_true, if_false]
      omega
    · rw [CMinus.chained, Expression.heightWith, hleft.height_eq,
        show leaf.heightWith 1 = 0 from rfl]
      omega

theorem Reaches.onAllTiers {e : Expression} {n height : Nat} (h : Reaches e 5 n height) :
    Reaches (onAllTiers n e) 1 n (height + 4 * n) := by
  have hmul := h.chained .mul (by decide) (Nat.le_refl n)
  have hadd := hmul.chained .add (by decide) (Nat.le_refl n)
  have hlt := hadd.chained .lt (by decide) (Nat.le_refl n)
  have hand := hlt.chained .and (by decide) (Nat.le_refl n)
  have hheight : height + n + n + n + n = height + 4 * n := by omega
  rw [hheight] at hand
  exact hand

theorem reaches_tallestFactor (n : Nat) : Reaches (tallestFactor n) 5 n (quota n) := by
  induction n with
  | zero => exact ⟨wellFormed_leaf, Nat.le_refl 5, Nat.le_refl 0, rfl⟩
  | succ n ih =>
    have hindex := ih.onAllTiers
    refine ⟨⟨wellFormed_leaf, hindex.wellFormed⟩, Nat.le_refl 5, ?_, ?_⟩
    · exact Nat.succ_le_succ hindex.levels_le
    · rw [tallestFactor, Expression.heightWith, hindex.height_eq, quota_succ]

/-! ## 2. The program around them -/

/-- A procedure that returns the tallest expression under `n` levels. -/
def tallest (n : Nat) : Program :=
  ⟨none, [⟨.int, "f", ⟨[], 0⟩, ⟨[.returns (onAllTiers n (tallestFactor n)) 0], 0⟩, 0⟩], 0⟩

theorem wellFormed_tallest (n : Nat) : (tallest n).WellFormed := by
  have hvalue := (reaches_tallestFactor n).onAllTiers
  refine ⟨fun ds hds => (by cases hds), List.cons_ne_nil _ _, ?_⟩
  rw [tallest, List.forall_mem_singleton]
  exact ⟨isName_f, List.forall_mem_nil _, List.cons_ne_nil _ _, hvalue.wellFormed, trivial⟩

theorem levels_tallest_le (n : Nat) : (tallest n).levels ≤ n + 1 := by
  have hvalue := (reaches_tallestFactor n).onAllTiers
  simpa [tallest, Program.levels, Statement.levelsBlock, Statement.levelsList, Statement.levels]
    using hvalue.levels_le

theorem height_tallest (n : Nat) : (tallest n).height = quota (n + 1) := by
  have hvalue := (reaches_tallestFactor n).onAllTiers
  rw [quota_succ]
  simp [tallest, Program.height, Program.heightWith, Statement.heightBlock, Statement.heightList,
    Statement.heightWith, hvalue.height_eq]

theorem quota_eq (n : Nat) : quota n = 2 * n * n - n := by
  rw [quota, Nat.mul_sub, Nat.mul_one, Nat.mul_comm n]

/-- **The greatest height.** Under a limit of `n` levels, `n` at least one, every accepted program
    has height at most `2 * n * n - n`, and some accepted program has exactly this height. -/
theorem greatest_height (o : Options) {n : Nat} (hn : o.maxNesting = n) (h : 1 ≤ n) :
    (∀ source p, parse source o = .ok p → p.height ≤ 2 * n * n - n) ∧
      ∃ source p, parse source o = .ok p ∧ p.height = 2 * n * n - n := by
  rw [← quota_eq, ← hn]
  refine ⟨fun source p hp => height_le_quota hp, ?_⟩
  obtain ⟨k, hk⟩ := Nat.exists_eq_add_of_le' h
  have hlevels : (tallest k).levels ≤ o.maxNesting := by
    rw [hn, hk]
    exact levels_tallest_le k
  obtain ⟨q, hq, hbare⟩ := parse_source_of_levels_le (wellFormed_tallest k) hlevels
  refine ⟨_, q, hq, ?_⟩
  rw [Program.height, ← q.heightWith_bare, hbare, Program.heightWith_bare, ← Program.height,
    height_tallest, hn, hk]

/-- Two levels hold six nodes, such as those of `return b[b] * b + b < b && b;`. -/
theorem greatest_height_two :
    ({ maxNesting := 2 } : Options).maxNesting = 2 ∧ 1 ≤ 2 ∧
      (∀ source p, parse source { maxNesting := 2 } = .ok p → p.height ≤ 6) ∧
      ∃ source p, parse source { maxNesting := 2 } = .ok p ∧ p.height = 6 :=
  ⟨rfl, by decide, greatest_height { maxNesting := 2 } rfl (by decide)⟩

end CMinus
