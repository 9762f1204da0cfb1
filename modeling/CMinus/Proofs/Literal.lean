import CMinus.Numeric.ReadBack
import CMinus.Scan.Segment

/-!
# Literal: a written number is scanned as itself

The digits of a whole number have its value. A float literal has digits on both sides of a point,
and the decimal they write is nearest to the word that was written, whichever of the three layouts
of a decimal was used.
-/

namespace CMinus

/-! ## 1. Rows of digits -/

namespace Scan

/-- At least one digit, and nothing else. -/
def Digits (cs : List Char) : Prop :=
  cs ≠ [] ∧ ∀ c ∈ cs, isDigit c = true

theorem digits_toDigits (n : Nat) : Digits (Nat.toDigits 10 n) :=
  ⟨Nat.toDigits_ne_nil, fun _ hc => Nat.isDigit_of_mem_toDigits (by decide) (by decide) hc⟩

theorem digits_zero : Digits ['0'] :=
  digits_toDigits 0

theorem isDigit_of_mem_zeros {n : Nat} {c : Char} (h : c ∈ List.replicate n '0') :
    isDigit c = true := by
  rw [List.eq_of_mem_replicate h]
  rfl

theorem Digits.append_zeros {cs : List Char} (h : Digits cs) (n : Nat) :
    Digits (cs ++ List.replicate n '0') := by
  refine ⟨List.append_ne_nil_of_left_ne_nil h.1 _, fun c hc => ?_⟩
  rcases List.mem_append.mp hc with hc | hc
  · exact h.2 c hc
  · exact isDigit_of_mem_zeros hc

theorem Digits.zeros_append {cs : List Char} (h : Digits cs) (n : Nat) :
    Digits (List.replicate n '0' ++ cs) := by
  refine ⟨List.append_ne_nil_of_right_ne_nil _ h.1, fun c hc => ?_⟩
  rcases List.mem_append.mp hc with hc | hc
  · exact isDigit_of_mem_zeros hc
  · exact h.2 c hc

theorem Digits.take {cs : List Char} (h : Digits cs) {n : Nat} (hn : n ≠ 0) :
    Digits (cs.take n) := by
  refine ⟨?_, fun c hc => h.2 c (List.mem_of_mem_take hc)⟩
  rw [ne_eq, List.take_eq_nil_iff, not_or]
  exact ⟨hn, h.1⟩

theorem Digits.drop {cs : List Char} (h : Digits cs) {n : Nat} (hn : n < cs.length) :
    Digits (cs.drop n) := by
  refine ⟨?_, fun c hc => h.2 c (List.mem_of_mem_drop hc)⟩
  rw [ne_eq, List.drop_eq_nil_iff]
  exact Nat.not_le_of_lt hn

theorem digitsValue_toDigits (n : Nat) : digitsValue (Nat.toDigits 10 n) = n :=
  Nat.ofDigitChars_ten_toDigits

theorem digitsValue_append_zeros (cs : List Char) (n : Nat) :
    digitsValue (cs ++ List.replicate n '0') = digitsValue cs * 10 ^ n := by
  unfold digitsValue
  rw [List.foldl_append, ← Nat.ofDigitChars_eq_foldl, ← Nat.ofDigitChars_eq_foldl,
    Nat.ofDigitChars_replicate_zero, Nat.mul_comm]

theorem digitsValue_zeros_append (n : Nat) (cs : List Char) :
    digitsValue (List.replicate n '0' ++ cs) = digitsValue cs := by
  unfold digitsValue
  rw [List.foldl_append, ← Nat.ofDigitChars_eq_foldl (l := List.replicate n '0'),
    Nat.ofDigitChars_replicate_zero, Nat.mul_zero]

/-- What digits around a point write. -/
theorem fractionDecimal_point {before behind : List Char} (hb : Digits before)
    (ha : Digits behind) :
    fractionDecimal (before ++ '.' :: behind)
      = ⟨digitsValue (before ++ behind), -(behind.length : Nat)⟩ := by
  have hfilter : (before ++ '.' :: behind).filter isDigit = before ++ behind := by
    rw [List.filter_append, List.filter_eq_self.mpr hb.2, List.filter_cons_of_neg (by decide),
      List.filter_eq_self.mpr ha.2]
  have hdrop : (before ++ '.' :: behind).dropWhile isDigit = '.' :: behind := by
    rw [List.dropWhile_append_of_pos hb.2, List.dropWhile_cons_of_neg (by decide)]
  rw [fractionDecimal, hfilter, hdrop, List.length_cons, Nat.add_sub_cancel]

end Scan

/-! ## 2. Decimals -/

namespace Binary64

theorem roundHalfEven_mul_mul {c : Nat} (hc : 0 < c) (n d : Nat) :
    roundHalfEven (n * c) (d * c) = roundHalfEven n d := by
  have hlt : ∀ a b : Nat, a * c < b * c ↔ a < b := fun a b => Nat.mul_lt_mul_right hc
  unfold roundHalfEven
  simp only [Nat.mul_div_mul_right _ _ hc, Nat.mul_mod_mul_right, ← Nat.mul_assoc, hlt]

/-- The nearest word depends on the ratio only. -/
theorem ofRatio_mul_mul {c : Nat} (hc : 0 < c) (n d : Nat) :
    ofRatio (n * c) (d * c) = ofRatio n d := by
  unfold ofRatio nearestMagnitude
  have hn : n * c * unitsPerOne = n * unitsPerOne * c := Nat.mul_right_comm _ _ _
  have hd : ∀ s, d * c * 2 ^ s = d * 2 ^ s * c := fun s => Nat.mul_right_comm _ _ _
  simp only [hn, hd, Nat.mul_div_mul_right _ _ hc, roundHalfEven_mul_mul hc]

/-- A number with a clear sign bit is its magnitude. -/
theorem ofMagnitude_magnitude {x : Binary64} (h : x.isNegative = false) :
    ofMagnitude x.magnitude = x := by
  rcases x with ⟨bits⟩
  have hlt : bits.toNat < 2 ^ 63 := by
    rw [isNegative, decide_eq_false_iff_not] at h
    exact Nat.lt_of_not_le h
  rw [magnitude, ofMagnitude, Nat.mod_eq_of_lt hlt]
  exact congrArg Binary64.mk UInt64.ofNat_toNat

end Binary64

namespace Decimal

open Scan

/-- A whole number is one with a zero behind the point. -/
theorem toBinary64_point_zero (n k : Nat) :
    (⟨n * 10 ^ k * 10, -1⟩ : Decimal).toBinary64 = (⟨n, k⟩ : Decimal).toBinary64 := by
  have hratio := Binary64.ofRatio_mul_mul (c := 10) (by decide) (n * 10 ^ k) 1
  have hneg : (-(k : Int)).toNat = 0 := by omega
  have hzero : (-1 : Int).toNat = 0 := by decide
  have hone : (- -1 : Int).toNat = 1 := by decide
  rw [toBinary64, toBinary64, hneg, Int.toNat_natCast, Nat.pow_zero, ← hratio, hzero, hone,
    Nat.pow_zero, Nat.pow_one, Nat.mul_one, Nat.one_mul]

/-- The text of a decimal with a point has digits on both sides of it, and the same nearest
    word. -/
theorem withFraction_positional (d : Decimal) :
    ∃ before behind, Digits before ∧ Digits behind ∧
      Binary64.withFraction d.positional = before ++ '.' :: behind ∧
      (fractionDecimal (before ++ '.' :: behind)).toBinary64 = d.toBinary64 := by
  rcases d with ⟨n, e⟩
  have hfigures : Digits (Nat.toDigits 10 n) := digits_toDigits n
  unfold positional figures
  simp only
  split
  · -- Zeros fill the places up to the point, and one more digit follows it.
    rename_i he
    have hwhole := hfigures.append_zeros e.toNat
    refine ⟨_, _, hwhole, digits_zero, ?_, ?_⟩
    · rw [Binary64.withFraction, if_neg]
      intro hpoint
      exact absurd (hwhole.2 _ hpoint) (by decide)
    · have hvalue : digitsValue (Nat.toDigits 10 n ++ List.replicate e.toNat '0' ++ ['0'])
          = n * 10 ^ e.toNat * 10 := by
        rw [show ['0'] = List.replicate 1 '0' from rfl, digitsValue_append_zeros,
          digitsValue_append_zeros, digitsValue_toDigits, Nat.pow_one]
      have hexponent : (e.toNat : Int) = e := Int.toNat_of_nonneg he
      rw [fractionDecimal_point hwhole digits_zero, hvalue, List.length_singleton]
      rw [← hexponent, Int.toNat_natCast]
      exact toBinary64_point_zero n e.toNat
  · rename_i he
    have hplaces : -((-e).toNat : Int) = e := by omega
    split
    · -- The point stands between two of the digits.
      rename_i hlt
      have hbefore := hfigures.take (n := (Nat.toDigits 10 n).length - (-e).toNat) (by omega)
      have hbehind := hfigures.drop (n := (Nat.toDigits 10 n).length - (-e).toNat) (by omega)
      refine ⟨_, _, hbefore, hbehind, ?_, ?_⟩
      · rw [Binary64.withFraction, if_pos]
        exact List.mem_append_right _ List.mem_cons_self
      · have hlength : (Nat.toDigits 10 n).length - ((Nat.toDigits 10 n).length - (-e).toNat)
            = (-e).toNat := by omega
        rw [fractionDecimal_point hbefore hbehind, List.take_append_drop, digitsValue_toDigits,
          List.length_drop, hlength, hplaces]
    · -- Zeros fill the places behind the point.
      rename_i hle
      have hbehind := hfigures.zeros_append ((-e).toNat - (Nat.toDigits 10 n).length)
      refine ⟨_, _, digits_zero, hbehind, ?_, ?_⟩
      · rw [Binary64.withFraction, if_pos]
        · rfl
        · exact List.mem_cons_of_mem _ List.mem_cons_self
      · have hlength : (-e).toNat - (Nat.toDigits 10 n).length + (Nat.toDigits 10 n).length
            = (-e).toNat := by omega
        rw [fractionDecimal_point digits_zero hbehind, show ['0'] = List.replicate 1 '0' from rfl,
          digitsValue_zeros_append, digitsValue_zeros_append, digitsValue_toDigits,
          List.length_append, List.length_replicate, hlength, hplaces]

end Decimal

/-! ## 3. Float literals -/

/-- **A float literal reads back.** It has digits on both sides of a point, and the nearest word to
    what it writes is the word it was written for. -/
theorem Binary64.literal_reads {x : Binary64} (hfinite : x.isFinite = true)
    (hsign : x.isNegative = false) :
    ∃ before behind, Scan.Digits before ∧ Scan.Digits behind ∧
      x.literal = before ++ '.' :: behind ∧ (Scan.fractionDecimal x.literal).toBinary64 = x := by
  have hlt : x.magnitude < infinityMagnitude := of_decide_eq_true hfinite
  have hnan : x.isNaN = false := decide_eq_false (by omega)
  obtain ⟨before, behind, hbefore, hbehind, htext, hread⟩ :=
    (Decimal.ofBinary64 x).withFraction_positional
  have hliteral : x.literal = before ++ '.' :: behind := by
    rw [literal, textWith, hnan, hfinite, hsign]
    exact htext
  refine ⟨before, behind, hbefore, hbehind, hliteral, ?_⟩
  rw [hliteral, hread, Decimal.ofBinary64, Decimal.toBinary64_ofMagnitude (Nat.le_of_lt hlt),
    ofMagnitude_magnitude hsign]

end CMinus
