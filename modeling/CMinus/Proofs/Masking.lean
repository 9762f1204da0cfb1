import CMinus.Proofs.Meaning
import CMinus.Proofs.Threshold

/-!
# Masking: what the report of too deep a nesting hides

Where a limit runs out, a limit that is never reached takes the token that is named, for the level
was opened by that token (`Parse.Beyond.further`). Only a statement opens its level before its first
token has been looked at. So where a statement has to stand, and nowhere else, the report of too
deep a nesting may hide that a statement is missing in front of that same token
(`Parse.Beyond.missing`).
-/

namespace CMinus

open Parse

/-- The failure of a reading, if it is one. -/
def failureOf {α : Type} : Except Failure (Read α) → Option Failure
  | .ok _ => none
  | .error f => some f

theorem eq_error_of_failureOf {α : Type} {r : Except Failure (Read α)} {f : Failure}
    (h : failureOf r = some f) : r = .error f := by
  cases r with
  | ok read => cases h
  | error failure => exact congrArg Except.error (Option.some.inj h)

section Source

variable {source : String} {o : Options} {n m k : Nat}
  (h : TooDeepAt source (o.withMaxNesting n) k) (hm : (scan source o).1.length ≤ m)
include h hm

/-- Where a limit runs out, one that is never reached gets further, or misses a statement. -/
theorem further_or_missing_of_tooDeepAt :
    k ≤ (scan source o).1.length ∧
      ((leftOf (program m (scan source o).1)).length < ((scan source o).1.drop k).length ∨
        startsWith Token.startsStatement ((scan source o).1.drop k) = false ∧
          program m (scan source o).1 =
            .error ⟨.expected .statement, (scan source o).1.drop k⟩) := by
  obtain ⟨rest, hrest, hk⟩ := tooDeepAt_iff.mp h
  have hrest : program n (scan source o).1 = .error ⟨.tooDeep, rest⟩ := hrest
  have hk : k + rest.length = (scan source o).1.length := hk
  have hn := (program_widens (Nat.le_refl n) (scan source o).1).le_of_tooDeep hrest
  have hdrop : rest = (scan source o).1.drop k := by
    have hsuffix := List.suffix_iff_eq_drop.mp (suffix_of_error hrest)
    rwa [← hk, Nat.add_sub_cancel] at hsuffix
  rw [← hdrop]
  have hboth := program_overtakes (n := n) (m := m) (by omega) (scan source o).1
  refine ⟨by omega, (hboth.beyond_of_tooDeep hrest).further_or_missing fun htooDeep => ?_⟩
  have hroom := (program_widens (Nat.le_refl m) (scan source o).1).le_of_tooDeep htooDeep
  omega

/-- **What the report of too deep a nesting hides.** Where a limit runs out, reading under a limit
    that is never reached gets beyond the token that is named; unless a statement has to stand there
    and the token starts none. Then that is what would be reported, at the same token. -/
theorem tooDeep_masks_iff :
    (∃ j ≤ k, ∃ d, StopsWith source (o.withMaxNesting m) j d) ↔
      ∃ l, (marked source o)[k]? = some l ∧ l.token.startsStatement = false ∧
        StopsWith source (o.withMaxNesting m) k (.unexpected "a statement" l.token l.line) := by
  obtain ⟨hk, hcases⟩ := further_or_missing_of_tooDeepAt h hm
  constructor
  · intro hstops
    obtain ⟨j, hj, d, hd⟩ := hstops
    obtain ⟨cause, hread⟩ := hd.reading
    have hread : program m (scan source o).1 = .error ⟨cause, (scan source o).1.drop j⟩ := hread
    have hmissing := hcases.resolve_left fun hlt => ?_
    · obtain ⟨hno, hread⟩ := hmissing
      have hfound := getElem?_marked (List.take_append_drop k (scan source o).1).symm
      rw [List.length_take_of_le hk] at hfound
      refine ⟨_, hfound, ?_, stopsWith_of_program (o := o.withMaxNesting m) hk hread⟩
      cases hdrop : (scan source o).1.drop k with
      | nil => rfl
      | cons l rest =>
        rw [hdrop] at hno
        exact hno
    · rw [hread, leftOf, List.length_drop, List.length_drop] at hlt
      omega
  · intro hmissing
    obtain ⟨l, _, _, hstops⟩ := hmissing
    exact ⟨k, Nat.le_refl k, _, hstops⟩

end Source

/-- An empty block at the limit: under one level its closing brace is too deep, under a limit that
    is never reached a statement is missing in front of it. -/
theorem tooDeep_masks_empty_block :
    TooDeepAt "int f() \x7b if (a) \x7b \x7d \x7d" (({} : Options).withMaxNesting 1) 10 ∧
      (scan "int f() \x7b if (a) \x7b \x7d \x7d" {}).1.length ≤ 128 ∧
      ∃ l, (marked "int f() \x7b if (a) \x7b \x7d \x7d" {})[10]? = some l ∧
        l.token.startsStatement = false ∧
        StopsWith "int f() \x7b if (a) \x7b \x7d \x7d" (({} : Options).withMaxNesting 128) 10
          (.unexpected "a statement" l.token l.line) := by
  have hdeep : program 1 (scan "int f() \x7b if (a) \x7b \x7d \x7d" {}).1 =
      .error ⟨.tooDeep, [⟨.symbol .rbrace, 1⟩, ⟨.symbol .rbrace, 1⟩]⟩ :=
    eq_error_of_failureOf (by decide +kernel)
  have hmissing : program 128 (scan "int f() \x7b if (a) \x7b \x7d \x7d" {}).1 =
      .error ⟨.expected .statement, (scan "int f() \x7b if (a) \x7b \x7d \x7d" {}).1.drop 10⟩ :=
    eq_error_of_failureOf (by decide +kernel)
  have htooDeep :
      TooDeepAt "int f() \x7b if (a) \x7b \x7d \x7d" (({} : Options).withMaxNesting 1) 10 :=
    tooDeepAt_iff.mpr ⟨_, hdeep, by decide +kernel⟩
  have hlength : (scan "int f() \x7b if (a) \x7b \x7d \x7d" {}).1.length ≤ 128 := by
    decide +kernel
  have hstops := stopsWith_of_program (o := ({} : Options).withMaxNesting 128)
    (by decide +kernel) hmissing
  exact ⟨htooDeep, hlength,
    (tooDeep_masks_iff htooDeep hlength).mp ⟨10, Nat.le_refl _, _, hstops⟩⟩

end CMinus
