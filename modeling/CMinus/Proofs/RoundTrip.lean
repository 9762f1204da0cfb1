import CMinus.Proofs.Accepted
import CMinus.Proofs.Canonical.Derivation
import CMinus.Proofs.Canonical.Text

/-!
# RoundTrip: canonical text says the tree it was made from

Canonical text is scanned as the tokens it is made of, those have a derivation that means the tree,
and the parser builds what a derivation means. What is left to decide is the nesting limit: the text
is accepted if and only if `Program.levels` of the tree fit under it.
-/

namespace CMinus

open Grammar Parse

variable {p : Program} {o : Options}

/-! ## 1. Reading canonical text -/

/-- The canonical text of a well-formed program is accepted within its levels, as the program. -/
theorem parse_source_of_levels_le (h : p.WellFormed) (hlevels : p.levels ≤ o.maxNesting) :
    ∃ q, parse p.source o = .ok q ∧ q.bare = p.bare := by
  obtain ⟨htokens, hscan⟩ := scan_of_legible (Program.legible h) o
  obtain ⟨d, hd, htree, hdlevels⟩ := Program.exists_document h
  have hderived : d.tokens = tokensOf (scan p.source o).1 := hd.trans htokens.symm
  obtain ⟨q, hq, hqtree⟩ := parse_of_levels_le hscan hderived (by rwa [hdlevels])
  exact ⟨q, hq, by rw [hqtree, htree]⟩

/-- Beyond its levels the canonical text of a well-formed program is too deep. -/
theorem parse_source_of_lt_levels (h : p.WellFormed) (hlevels : o.maxNesting < p.levels) :
    ∃ found line, parse p.source o = .error [.tooDeep o.maxNesting found line] := by
  obtain ⟨htokens, hscan⟩ := scan_of_legible (Program.legible h) o
  obtain ⟨d, hd, _, hdlevels⟩ := Program.exists_document h
  have hderived : d.tokens = tokensOf (scan p.source o).1 := hd.trans htokens.symm
  exact parse_of_lt_levels hscan hderived (by rwa [hdlevels])

/-- Canonical text needs no more levels than it has tokens. -/
theorem levels_le_length_scan (h : p.WellFormed) (o : Options) :
    p.levels ≤ (scan p.source o).1.length := by
  obtain ⟨htokens, _⟩ := scan_of_legible (Program.legible h) o
  obtain ⟨d, hd, _, hdlevels⟩ := Program.exists_document h
  rw [← hdlevels, ← length_tokensOf, show tokensOf (scan p.source o).1 = d.tokens from
    htokens.trans hd.symm]
  exact d.levels_le_length

/-- **Parsing undoes printing.** The canonical text of a well-formed program, under a limit no
    smaller than its number of tokens, is accepted as the same program up to lines, and prints as
    the same text. -/
theorem parse_source (p : Program) (h : p.WellFormed) (o : Options)
    (hroom : (scan p.source o).1.length ≤ o.maxNesting) :
    ∃ q, parse p.source o = .ok q ∧ q.bare = p.bare ∧ q.source = p.source := by
  have hlevels := Nat.le_trans (levels_le_length_scan h o) hroom
  obtain ⟨q, hq, hbare⟩ := parse_source_of_levels_le h hlevels
  refine ⟨q, hq, hbare, ?_⟩
  rw [← q.source_bare, hbare, p.source_bare]

/-- A loop without braces, an element, a fraction, an array and a text with a double quote. -/
def loopProgram : Program :=
  ⟨none, [⟨.int, "f", ⟨[⟨"x", .float, some 3, 9⟩], 0⟩,
    ⟨[.whileDo (.binary .lt (.element "x" (.int 1 0) 0) (.float ⟨0x4004000000000000⟩ 0) 0)
      (.write (.string "say \"hi\"" 0) 7) 0], 0⟩, 0⟩], 0⟩

theorem parse_source_loopProgram :
    ∃ q, parse loopProgram.source {} = .ok q ∧ q.bare = loopProgram.bare ∧
      q.source = loopProgram.source :=
  parse_source loopProgram (by decide +kernel) {} (by decide +kernel)

/-! ## 2. The text of an accepted program -/

/-- **When a round trip succeeds.** The canonical text of an accepted program, under the options the
    program was accepted with, is accepted as the same program if and only if the levels of the
    text fit under the limit; otherwise it is rejected as too deep, and for nothing else. -/
theorem roundTrip_iff_levels_le (source : String) (o : Options) (p : Program)
    (h : parse source o = .ok p) :
    ((∃ q, parse p.source o = .ok q ∧ q.bare = p.bare) ↔ p.levels ≤ o.maxNesting) ∧
      (o.maxNesting < p.levels →
        ∃ found line, parse p.source o = .error [.tooDeep o.maxNesting found line]) := by
  have hwell := wellFormed_of_parse h
  refine ⟨⟨?_, parse_source_of_levels_le hwell⟩, parse_source_of_lt_levels hwell⟩
  rintro ⟨q, hq, _⟩
  refine Nat.le_of_not_lt fun hlt => ?_
  obtain ⟨found, line, herror⟩ := parse_source_of_lt_levels hwell hlt
  rw [herror] at hq
  cases hq

/-- Parentheses around the first operand of a chain hide its operator from the budget of the index
    behind it. Canonical text drops them, and the index is one level too deep. -/
theorem roundTrip_tooDeep :
    ∃ p, parse "int f() \x7b return (a + b) + x[1]; \x7d" { maxNesting := 3 } = .ok p ∧
      ∃ found line, parse p.source { maxNesting := 3 } = .error [.tooDeep 3 found line] := by
  have hlevels : (parse "int f() \x7b return (a + b) + x[1]; \x7d" { maxNesting := 3 }).toOption.map
      Program.levels = some 4 := by decide +kernel
  cases hp : parse "int f() \x7b return (a + b) + x[1]; \x7d" { maxNesting := 3 } with
  | error ds =>
    rw [hp] at hlevels
    cases hlevels
  | ok p =>
    rw [hp] at hlevels
    have hfour : p.levels = 4 := Option.some.inj hlevels
    exact ⟨p, rfl, (roundTrip_iff_levels_le _ _ p hp).2 (by rw [hfour]; decide)⟩

end CMinus
