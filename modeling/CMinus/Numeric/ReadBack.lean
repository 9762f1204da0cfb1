import CMinus.Numeric.Decimal

/-!
# ReadBack: what is written reads back

* `nearestMagnitude_units`: reading the exact value of a finite word gives the word;
* `toBinary64_ofMagnitude`: so the decimal chosen for a finite word reads back as that word,
  whichever candidate the search found.
-/

namespace CMinus

namespace Binary64

/-! ## 1. A pattern is its scale and its significand -/

theorem scale_add_significand (p : Nat) : scale p * 2 ^ 52 + significand p = p := by
  unfold significand scale
  have h := Nat.div_mul_le_self p (2 ^ 52)
  have h' : (p / 2 ^ 52 - 1) * 2 ^ 52 ≤ p / 2 ^ 52 * 2 ^ 52 :=
    Nat.mul_le_mul_right _ (Nat.sub_le _ _)
  omega

theorem significand_lt (p : Nat) : significand p < 2 ^ 53 := by
  unfold significand scale
  omega

theorem le_significand {p : Nat} (h : 0 < scale p) : 2 ^ 52 ≤ significand p := by
  unfold significand scale at *
  omega

/-- The scale can be seen from the value alone. -/
theorem log2_units (p : Nat) : (units p).log2 - 52 = scale p := by
  unfold units
  have hlt := significand_lt p
  rcases Nat.eq_zero_or_pos (scale p) with h | h
  · rw [h, Nat.pow_zero, Nat.mul_one]
    have hlog : (significand p).log2 < 53 := by
      rcases Nat.eq_zero_or_pos (significand p) with h0 | h0
      · rw [h0]
        decide
      · exact (Nat.log2_lt (by omega)).2 hlt
    omega
  · have hle := le_significand h
    have hpos : 0 < significand p * 2 ^ scale p :=
      Nat.mul_pos (by omega) (Nat.two_pow_pos _)
    have hlog : (significand p * 2 ^ scale p).log2 = 52 + scale p := by
      rw [Nat.log2_eq_iff (by omega), Nat.pow_add,
        show 52 + scale p + 1 = 53 + scale p by omega, Nat.pow_add]
      exact ⟨Nat.mul_le_mul_right _ hle, Nat.mul_lt_mul_of_pos_right hlt (Nat.two_pow_pos _)⟩
    omega

/-! ## 2. Rounding what is exact -/

theorem roundHalfEven_mul (m : Nat) {d : Nat} (h : 0 < d) : roundHalfEven (m * d) d = m := by
  unfold roundHalfEven
  simp [Nat.mul_div_cancel _ h, h]

/-- The exact value of a finite word, over any denominator, is nearest to that word. -/
theorem nearestMagnitude_units {p d : Nat} (hd : 0 < d) (hp : p ≤ infinityMagnitude) :
    nearestMagnitude (units p * d) d = p := by
  have e : units p * d = significand p * (d * 2 ^ scale p) := by
    unfold units
    rw [Nat.mul_assoc, Nat.mul_comm d]
  unfold nearestMagnitude
  rw [Nat.mul_div_cancel _ hd]
  simp only [log2_units]
  rw [e, roundHalfEven_mul _ (Nat.mul_pos hd (Nat.two_pow_pos _)), scale_add_significand]
  exact Nat.min_eq_left hp

end Binary64

namespace Decimal

/-! ## 3. Reading the decimal of a word -/

/-- A decimal with the exact value of a finite word reads as that word. -/
theorem toBinary64_eq_ofMagnitude {d : Decimal} {p : Nat} (hp : p ≤ Binary64.infinityMagnitude)
    (h : d.digits * 10 ^ d.exponent.toNat * Binary64.unitsPerOne
      = Binary64.units p * 10 ^ (-d.exponent).toNat) :
    d.toBinary64 = .ofMagnitude p := by
  unfold toBinary64 Binary64.ofRatio
  rw [h, Binary64.nearestMagnitude_units (Nat.pow_pos (by decide)) hp]

/-- Where `2 ^ k` units make one, a number of units has `k` decimals. -/
theorem toBinary64_decimals {p k : Nat} (hp : p ≤ Binary64.infinityMagnitude)
    (hk : Binary64.unitsPerOne = 2 ^ k) :
    (⟨Binary64.units p * 5 ^ k, -k⟩ : Decimal).toBinary64 = .ofMagnitude p :=
  toBinary64_eq_ofMagnitude hp (by
    simp only [Int.neg_neg, Int.toNat_natCast, Int.toNat_neg_natCast, Nat.pow_zero, Nat.mul_one]
    rw [hk, Nat.mul_assoc, ← Nat.mul_pow])

theorem toBinary64_expansion {p : Nat} (hp : p ≤ Binary64.infinityMagnitude) :
    (expansion (Binary64.units p)).toBinary64 = .ofMagnitude p :=
  toBinary64_decimals (k := 1074) hp (by rw [Binary64.unitsPerOne])

theorem toBinary64_zero : (⟨0, 0⟩ : Decimal).toBinary64 = .ofMagnitude 0 :=
  toBinary64_eq_ofMagnitude (Nat.zero_le _) (by
    rw [Nat.zero_mul, Nat.zero_mul, show Binary64.units 0 = 0 from rfl, Nat.zero_mul])

/-- The decimal chosen for a finite word reads back as that word. -/
theorem toBinary64_ofMagnitude {p : Nat} (hp : p ≤ Binary64.infinityMagnitude) :
    (ofMagnitude p).toBinary64 = .ofMagnitude p := by
  unfold ofMagnitude
  split
  · rename_i h
    rw [h]
    exact toBinary64_zero
  · simp only
    cases h : (candidates (Binary64.units p)).find?
        (fun d => decide (d.toBinary64 = .ofMagnitude p)) with
    | none => exact toBinary64_expansion hp
    | some d =>
      have hd := List.find?_some h
      rw [decide_eq_true_eq] at hd
      exact hd

end Decimal

end CMinus
