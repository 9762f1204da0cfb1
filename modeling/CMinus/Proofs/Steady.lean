import CMinus.Proofs.Counted

/-!
# Steady: a counter that is left where it was

A counted production is steady when it ends, reads what a production without a counter reads, and
keeps the counter between the depth it must not fall below and the limit at every moment. The rules
here follow the way productions are written: one after the other, looking at a token and taking it,
opening a level, and closing levels behind a success or behind whatever came.
-/

namespace CMinus.Parse

variable {w : Nat} {α β : Type}

/-! ## 1. Steady productions -/

namespace Move

/-- The change fits the counter and leads to a depth from `base` to `limit`. -/
def Within (base limit : Nat) (m : Move w) : Prop :=
  m.Fits ∧ base ≤ m.after.toNat ∧ m.after.toNat ≤ limit

theorem Course.single (m : Move w) : Course m.before [m] m.after :=
  .cons m (.nil m.after)

theorem Course.append {start mid stop : BitVec w} {moves moves' : List (Move w)}
    (h : Course start moves mid) (h' : Course mid moves' stop) :
    Course start (moves ++ moves') stop := by
  induction h with
  | nil => exact h'
  | cons m _ ih => exact .cons m (ih h')

end Move

theorem toNat_add_one {depth : BitVec w} (h : depth.toNat + 1 < 2 ^ w) :
    (depth + 1).toNat = depth.toNat + 1 := by
  rw [BitVec.toNat_add, BitVec.ofNat_eq_ofNat, BitVec.toNat_ofNat, Nat.add_mod_mod,
    Nat.mod_eq_of_lt h]

theorem toNat_one {limit : BitVec w} (h : 0 < limit.toNat) : (1 : BitVec w).toNat = 1 := by
  have hroom : 1 < 2 ^ w := Nat.lt_of_le_of_lt h limit.isLt
  rw [BitVec.ofNat_eq_ofNat, BitVec.toNat_ofNat, Nat.mod_eq_of_lt hroom]

/-- How a counted production ends that reads `r`: with success `stop` levels are open, with a
    failure `base` to `limit` levels. -/
inductive Ends (base stop limit : Nat) :
    Except Failure (Read α) → Except Failure α → Cursor w → Prop
  | ok (a : α) {rest : List Lexeme} {last : Cursor w} (hrest : last.ahead = rest)
    (hstop : last.depth.toNat = stop) : Ends base stop limit (.ok (a, rest)) (.ok a) last
  | error (failure : Failure) {last : Cursor w} (hrest : last.ahead = failure.rest)
    (hbase : base ≤ last.depth.toNat) (hlimit : last.depth.toNat ≤ limit) :
    Ends base stop limit (.error failure) (.error failure) last

/-- Begun in front of `ts` with `start` levels open, the production `x` ends, and reads `r`. No
    change of the counter in between leads out of `base` to `limit`. -/
def Steady (limit : BitVec w) (base start stop : Nat) (ts : List Lexeme) (x : Counted w α)
    (r : Except Failure (Read α)) : Prop :=
  ∀ c : Cursor w, c.ahead = ts → c.depth.toNat = start → ∃ answer last moves,
    x.run.run c = some (answer, last) ∧ last.moves = c.moves ++ moves ∧
      Move.Course c.depth moves last.depth ∧ (∀ m ∈ moves, m.Within base limit.toNat) ∧
      Ends base stop limit.toNat r answer last

namespace Steady

variable {limit : BitVec w} {base start mid stop : Nat} {ts rest : List Lexeme}

theorem mono {base' : Nat} {x : Counted w α} {r : Except Failure (Read α)} (h : base' ≤ base)
    (hx : Steady limit base start stop ts x r) : Steady limit base' start stop ts x r := by
  intro c hc hstart
  obtain ⟨answer, last, moves, hrun, hmoves, hcourse, hwithin, hends⟩ := hx c hc hstart
  refine ⟨answer, last, moves, hrun, hmoves, hcourse, fun m hm => ?_, ?_⟩
  · obtain ⟨hfits, hbase, hlimit⟩ := hwithin m hm
    exact ⟨hfits, Nat.le_trans h hbase, hlimit⟩
  · cases hends with
    | ok a hrest hstop => exact .ok a hrest hstop
    | error failure hrest hbase hlimit =>
      exact .error failure hrest (Nat.le_trans h hbase) hlimit

/-! ## 2. One production after the other -/

/-- What follows has to be steady behind what was read only. -/
theorem bindWith {x : Counted w α} {f : α → Counted w β} {r : Except Failure (Read α)}
    {k : Read α → Except Failure (Read β)} (hx : Steady limit base start mid ts x r)
    (hf : ∀ a rest, r = .ok (a, rest) →
      Steady limit base mid stop rest (f a) (k (a, rest))) :
    Steady limit base start stop ts (x >>= f) (r >>= k) := by
  intro c hc hstart
  obtain ⟨answer, c', moves, hrun, hmoves, hcourse, hwithin, hends⟩ := hx c hc hstart
  cases hends with
  | error failure hrest hbase hlimit =>
    exact ⟨_, c', moves, Counted.run_bind_error hrun, hmoves, hcourse, hwithin,
      .error failure hrest hbase hlimit⟩
  | ok a hrest hmid =>
    obtain ⟨answer, last, moves', hrun', hmoves', hcourse', hwithin', hends'⟩ :=
      hf a _ rfl c' hrest hmid
    refine ⟨answer, last, moves ++ moves', (Counted.run_bind_ok hrun).trans hrun', ?_,
      hcourse.append hcourse', List.forall_mem_append.mpr ⟨hwithin, hwithin'⟩, hends'⟩
    rw [hmoves', hmoves, List.append_assoc]

theorem bind {x : Counted w α} {f : α → Counted w β} {r : Except Failure (Read α)}
    {k : Read α → Except Failure (Read β)} (hx : Steady limit base start mid ts x r)
    (hf : ∀ a rest, Steady limit base mid stop rest (f a) (k (a, rest))) :
    Steady limit base start stop ts (x >>= f) (r >>= k) :=
  hx.bindWith fun a rest _ => hf a rest

/-- A production that leaves the counter alone. -/
theorem still {x : Counted w α} {r : Except Failure (Read α)}
    (h : ∀ c : Cursor w, c.ahead = ts → c.depth.toNat = start → ∃ answer rest,
      x.run.run c = some (answer, { c with ahead := rest }) ∧
        Ends base stop limit.toNat r answer { c with ahead := rest }) :
    Steady limit base start stop ts x r := by
  intro c hc hstart
  obtain ⟨answer, rest, hrun, hends⟩ := h c hc hstart
  exact ⟨answer, _, [], hrun, (List.append_nil _).symm, .nil _, List.forall_mem_nil _, hends⟩

theorem ok (a : α) : Steady limit base start start ts (pure a) (.ok (a, ts)) :=
  still fun c hc hstart => ⟨.ok a, c.ahead, rfl, .ok a hc hstart⟩

/-- One production after another that reads `a`. -/
theorem follow {x : Counted w α} {f : α → Counted w β} {a : α} {r : Except Failure (Read β)}
    (hx : Steady limit base start mid ts x (.ok (a, rest)))
    (hf : Steady limit base mid stop rest (f a) r) :
    Steady limit base start stop ts (x >>= f) r :=
  hx.bindWith (k := fun _ => r) fun _ _ e => by
    cases e
    exact hf

/-- A production that opens no level. -/
theorem uncounted (hbase : base ≤ start) (hlimit : start ≤ limit.toNat) (p : Production α)
    (ts : List Lexeme) : Steady limit base start start ts (Counted.uncounted p) (p ts) := by
  refine still fun c hc hstart => ?_
  subst hc hstart
  cases hp : p c.ahead with
  | ok read => exact ⟨.ok read.1, read.2, Counted.run_uncounted_ok hp, .ok read.1 rfl rfl⟩
  | error failure =>
    exact ⟨.error failure, failure.rest, Counted.run_uncounted_error hp,
      .error failure rfl hbase hlimit⟩

/-- The tokens ahead are looked at. -/
theorem ahead : Steady limit base start start ts Counted.ahead (.ok (ts, ts)) := by
  refine still fun c hc hstart => ?_
  subst hc
  exact ⟨.ok c.ahead, c.ahead, rfl, .ok _ rfl hstart⟩

theorem advance (l : Lexeme) :
    Steady limit base start start (l :: ts) Counted.advance (.ok ((), ts)) :=
  still fun c hc hstart => ⟨.ok (), c.ahead.tail, rfl, .ok () (congrArg List.tail hc) hstart⟩

/-! ## 3. Levels -/

/-- No level is left. -/
theorem full {f : Unit → Counted w β} (hbase : base ≤ start) (hlimit : start = limit.toNat) :
    Steady limit base start stop ts (Counted.charge limit >>= f) (tooDeep ts) := by
  refine still fun c hc hstart => ?_
  subst hc hstart
  have hle : limit ≤ c.depth := BitVec.le_def.mpr (Nat.le_of_eq hlimit.symm)
  exact ⟨_, c.ahead, Counted.run_bind_error (Counted.run_charge_of_le hle),
    .error _ rfl hbase (Nat.le_of_eq hlimit)⟩

/-- One change of the counter. -/
theorem change {x : Counted w Unit} (hbase : base ≤ stop) (hlimit : stop ≤ limit.toNat)
    (h : ∀ c : Cursor w, c.depth.toNat = start → ∃ m : Move w,
      m.before = c.depth ∧ m.Fits ∧ m.after.toNat = stop ∧
        x.run.run c = some (.ok (), { c with depth := m.after, moves := c.moves ++ [m] })) :
    Steady limit base start stop ts x (.ok ((), ts)) := by
  intro c hc hstart
  obtain ⟨m, hbefore, hfits, hafter, hrun⟩ := h c hstart
  refine ⟨.ok (), _, [m], hrun, rfl, hbefore ▸ .single m, List.forall_mem_singleton.mpr ?_,
    .ok () hc hafter⟩
  exact ⟨hfits, hafter ▸ hbase, hafter ▸ hlimit⟩

/-- A level is opened. -/
theorem charge (hbase : base ≤ start) (hlimit : start < limit.toNat) :
    Steady limit base start (start + 1) ts (Counted.charge limit) (.ok ((), ts)) := by
  refine change (Nat.le_succ_of_le hbase) hlimit fun c hstart => ?_
  have hroom : c.depth.toNat + 1 < 2 ^ w := by
    have := limit.isLt
    omega
  refine ⟨.charge c.depth, rfl, hroom, ?_,
    Counted.run_charge_of_lt (BitVec.lt_def.mpr (hstart ▸ hlimit))⟩
  rw [Move.after, toNat_add_one hroom, hstart]

/-- Levels are closed. -/
theorem release {levels : BitVec w} (hbase : base ≤ stop) (hlimit : start ≤ limit.toNat)
    (hstart : start = stop + levels.toNat) :
    Steady limit base start stop ts (Counted.release levels) (.ok ((), ts)) := by
  refine change hbase (by omega) fun c hdepth => ?_
  have hfits : levels ≤ c.depth := BitVec.le_def.mpr (by omega)
  refine ⟨.release levels c.depth, rfl, hfits, ?_, Counted.run_release levels c⟩
  rw [Move.after, BitVec.toNat_sub_of_le hfits]
  omega

/-- One level is closed. -/
theorem release_one (hbase : base ≤ start) (hlimit : start < limit.toNat) :
    Steady limit base (start + 1) start ts (Counted.release 1) (.ok ((), ts)) := by
  refine release hbase hlimit ?_
  rw [toNat_one (Nat.zero_lt_of_lt hlimit)]

/-- The next token needs a level, and none is left. -/
theorem entering_full {n : Nat} {x : (less : Nat) → less < n → Counted w α} (hbase : base ≤ start)
    (hlimit : start = limit.toNat) :
    Steady limit base start stop ts (Counted.entering limit n x) (tooDeep ts) := by
  cases n with
  | zero => exact full hbase hlimit
  | succ n => exact full hbase hlimit

/-- A level is opened for the next token. -/
theorem entering {n : Nat} {x : (less : Nat) → less < n + 1 → Counted w α}
    {r : Except Failure (Read α)} (hbase : base ≤ start) (hlimit : start < limit.toNat)
    (l : Lexeme) (hx : Steady limit base (start + 1) stop ts (x n (Nat.lt_succ_self n)) r) :
    Steady limit base start stop (l :: ts) (Counted.entering limit (n + 1) x) r :=
  (charge hbase hlimit).follow ((advance l).follow hx)

/-- What is read in a level of its own, closed behind the mark `s`. -/
theorem enclosed {x : Counted w α} {r : Except Failure (Read α)} (hbase : base ≤ start)
    (hlimit : start < limit.toNat)
    (hx : Steady limit (start + 1) (start + 1) (start + 1) ts x r) (s : Symbol) (f : α → β) :
    Steady limit base (start + 1) start ts
      (do
        let a ← x
        let _ ← Counted.uncounted (sign s)
        Counted.release 1
        return f a)
      (do
        let (a, rest) ← r
        let (_, rest) ← sign s rest
        .ok (f a, rest)) := by
  refine (hx.mono (by omega)).bind fun a rest => ?_
  refine (uncounted (by omega) hlimit (sign s) rest).bind fun _ rest => ?_
  exact (release_one hbase hlimit).follow (.ok (f a))

/-- A level that is closed behind a failure as well. -/
theorem closing {x : Counted w α} {r : Except Failure (Read α)} (hbase : base ≤ start)
    (hlimit : start < limit.toNat)
    (hx : Steady limit (start + 1) (start + 1) (start + 1) ts x r) :
    Steady limit base (start + 1) start ts (Counted.closing x) r := by
  intro c hc hstart
  obtain ⟨answer, c', moves, hrun, hmoves, hcourse, hwithin, hends⟩ := hx c hc hstart
  -- However `x` ended, its own level is still open, and that is the one to close.
  have hdepth : start + 1 ≤ c'.depth.toNat ∧ c'.depth.toNat ≤ limit.toNat := by
    cases hends with
    | ok a _ hstop => omega
    | error _ _ hbase hlimit => exact ⟨hbase, hlimit⟩
  have hone : (1 : BitVec w).toNat = 1 := toNat_one (Nat.zero_lt_of_lt hlimit)
  have hfits : 1 ≤ c'.depth := BitVec.le_def.mpr (by omega)
  have hafter : (c'.depth - 1).toNat = c'.depth.toNat - 1 := by
    rw [BitVec.toNat_sub_of_le hfits, hone]
  refine ⟨answer, _, moves ++ [Move.release 1 c'.depth], Counted.run_closing hrun, ?_,
    hcourse.append (.single (Move.release 1 c'.depth)),
    List.forall_mem_append.mpr ⟨fun m hm => ?_, List.forall_mem_singleton.mpr ?_⟩, ?_⟩
  · rw [hmoves, List.append_assoc]
  · obtain ⟨hm, hle, hroom⟩ := hwithin m hm
    exact ⟨hm, Nat.le_trans (Nat.le_succ_of_le hbase) hle, hroom⟩
  · rw [Move.Within, Move.after, hafter]
    exact ⟨hfits, by omega, by omega⟩
  · cases hends with
    | ok a hrest hstop => exact .ok a hrest (by rw [hafter]; omega)
    | error failure hrest _ _ =>
      exact .error failure hrest (by rw [hafter]; omega) (by rw [hafter]; omega)

/-! ## 4. Repetition -/

section Repetition

variable {item : Counted w α} {item' : Production α} {more : List Lexeme → Bool}
  (hitem : ∀ ts, Steady limit base start start ts item (item' ts))
  (hlt : ∀ ts a rest, item' ts = .ok (a, rest) → rest.length < ts.length)
include hitem hlt

/-- The bound on the items is not reached, since every item takes a token. -/
theorem repeatAtMost {n : Nat} (hn : ts.length < n) :
    Steady limit base start start ts (Counted.repeatAtMost more item n)
      (Parse.repeatWhile more item' ts) := by
  induction n generalizing ts with
  | zero => exact absurd hn (Nat.not_lt_zero _)
  | succ n ih =>
    rw [Counted.repeatAtMost, Parse.repeatWhile]
    refine ahead.follow ?_
    by_cases hmore : more ts
    · rw [if_pos hmore, if_pos hmore]
      refine (hitem ts).bindWith fun first rest hfirst => ?_
      have hrest := hlt ts first rest hfirst
      simp only [if_pos hrest]
      exact (ih (by omega)).bind fun others rest => .ok (first :: others)
    · rw [if_neg hmore, if_neg hmore]
      exact .ok []

theorem repeatWhile (ts : List Lexeme) :
    Steady limit base start start ts (Counted.repeatWhile more item)
      (Parse.repeatWhile more item' ts) :=
  ahead.follow (repeatAtMost hitem hlt (Nat.lt_succ_self ts.length))

end Repetition

end Steady

end CMinus.Parse
