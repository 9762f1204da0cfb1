import CMinus.Proofs.Complete.Program
import CMinus.Proofs.Layout
import CMinus.Proofs.Sound.Program

/-!
# Acceptance: the parser accepts its grammar

Reading is sound and complete for the derivations of the grammar, and does not look at lines. Taken
together: a source that scans without a fault is accepted if and only if its tokens have a
derivation whose levels fit under the limit, and the tree is what every such derivation means.
-/

namespace CMinus

open Grammar Parse

/-! ## 1. Tokens and derivations -/

namespace Parse

theorem bareRow_eq_row (ts : List Lexeme) : bareRow ts = row (tokensOf ts) := by
  unfold bareRow row tokensOf
  rw [List.map_map]
  rfl

variable {ts : List Lexeme} {d : Document} {budget : Nat}

/-- Tokens with a derivation are read when its levels fit into the budget. -/
theorem program_of_levels_le (htokens : d.tokens = tokensOf ts) (h : d.levels ≤ budget) :
    ∃ p, program budget ts = .ok (p, []) ∧ p.bare = d.tree := by
  have hread := (program_within d budget).1 h
  rw [htokens, ← bareRow_eq_row, program_blind budget ts] at hread
  cases hp : program budget ts with
  | error failure =>
    rw [hp] at hread
    cases hread
  | ok read =>
    rcases read with ⟨p, rest⟩
    rw [hp] at hread
    injection hread with hread
    injection hread with htree hrest
    exact ⟨p, by rw [List.map_eq_nil_iff.mp hrest], htree⟩

/-- Tokens with a derivation are too deep when its levels do not fit. -/
theorem program_of_lt_levels (htokens : d.tokens = tokensOf ts) (h : budget < d.levels) :
    ∃ rest, program budget ts = .error ⟨.tooDeep, rest⟩ := by
  obtain ⟨rest, hread⟩ := (program_within d budget).2 h
  rw [htokens, ← bareRow_eq_row, program_blind budget ts] at hread
  cases hp : program budget ts with
  | error failure =>
    rcases failure with ⟨cause, rest'⟩
    rw [hp] at hread
    injection hread with hread
    injection hread with hcause
    exact ⟨rest', by rw [hcause]⟩
  | ok read =>
    rw [hp] at hread
    cases hread

end Parse

/-! ## 2. Sources -/

theorem Diagnostic.sorted_eq_nil_iff {ds : List Diagnostic} : sorted ds = [] ↔ ds = [] := by
  rw [← List.length_eq_zero_iff, ← List.length_eq_zero_iff, sorted, List.length_mergeSort]

variable {source : String} {o : Options}

/-- A source is accepted when its characters have no fault and its tokens are read. -/
theorem parse_eq_ok_iff {p : Program} :
    parse source o = .ok p ↔
      (scan source o).2 = [] ∧ ∃ rest, program o.maxNesting (scan source o).1 = .ok (p, rest) := by
  have hs : (Scan.Scanner.start source o).options = o := rfl
  simp only [parse, Scan.Scanner.parse, scan, Diagnostic.sorted_eq_nil_iff, hs]
  cases program o.maxNesting (Scan.Scanner.start source o).lexemes with
  | error failure => simp
  | ok read =>
    rcases read with ⟨q, rest⟩
    by_cases hd : (Scan.Scanner.start source o).diagnostics = [] <;> simp [hd]

/-- What an accepted source says has a derivation from all its tokens, within the limit. -/
theorem exists_document_of_parse {p : Program} (h : parse source o = .ok p) :
    ∃ d : Document, d.levels ≤ o.maxNesting ∧ d.tree = p.bare ∧
      d.tokens = tokensOf (scan source o).1 := by
  obtain ⟨_, rest, hp⟩ := parse_eq_ok_iff.mp h
  obtain ⟨_, d, hlevels, htree, htokens⟩ := program_sound hp
  exact ⟨d, hlevels, htree, htokens.symm⟩

section Derived

variable {d : Document} (hscan : (scan source o).2 = [])
  (htokens : d.tokens = tokensOf (scan source o).1)
include hscan htokens

/-- A source with a derivation within the limit is accepted, as what the derivation means. -/
theorem parse_of_levels_le (h : d.levels ≤ o.maxNesting) :
    ∃ p, parse source o = .ok p ∧ p.bare = d.tree := by
  obtain ⟨p, hp, htree⟩ := program_of_levels_le htokens h
  exact ⟨p, parse_eq_ok_iff.mpr ⟨hscan, [], hp⟩, htree⟩

/-- A source with a derivation beyond the limit is rejected as too deep, for nothing else. -/
theorem parse_of_lt_levels (h : o.maxNesting < d.levels) :
    ∃ found line, parse source o = .error [.tooDeep o.maxNesting found line] := by
  obtain ⟨rest, hp⟩ := program_of_lt_levels htokens h
  have hd := Diagnostic.sorted_eq_nil_iff.mp hscan
  have hs : (Scan.Scanner.start source o).options = o := rfl
  unfold scan at hp
  simp only [parse, Scan.Scanner.parse, hs, hp, hd, List.nil_append, Diagnostic.sorted,
    List.mergeSort_singleton]
  exact ⟨_, _, rfl⟩

end Derived

/-- **The parser accepts its grammar.** When the characters of a source have no fault and the limit
    is no smaller than the number of tokens, the source is accepted if and only if its tokens have
    a derivation; and every derivation of an accepted source means the tree that was built. -/
theorem accepts_iff_derived (source : String) (o : Options) (hscan : (scan source o).2 = [])
    (hroom : (scan source o).1.length ≤ o.maxNesting) :
    ((∃ p, parse source o = .ok p) ↔ ∃ d : Document, d.tokens = tokensOf (scan source o).1) ∧
      ∀ p, parse source o = .ok p →
        ∀ d : Document, d.tokens = tokensOf (scan source o).1 → d.tree = p.bare := by
  have hread : ∀ d : Document, d.tokens = tokensOf (scan source o).1 →
      ∃ p, parse source o = .ok p ∧ p.bare = d.tree := by
    intro d htokens
    have hlevels := d.levels_le_length
    rw [htokens, length_tokensOf] at hlevels
    exact parse_of_levels_le hscan htokens (Nat.le_trans hlevels hroom)
  refine ⟨⟨?_, ?_⟩, ?_⟩
  · rintro ⟨p, hp⟩
    obtain ⟨d, _, _, htokens⟩ := exists_document_of_parse hp
    exact ⟨d, htokens⟩
  · rintro ⟨d, htokens⟩
    obtain ⟨p, hp, _⟩ := hread d htokens
    exact ⟨p, hp⟩
  · intro p hp d htokens
    obtain ⟨q, hq, htree⟩ := hread d htokens
    rw [hp] at hq
    cases hq
    exact htree.symm

/-- A source with declarations in both places of a procedure is accepted, and derived. -/
theorem accepts_locals :
    (∃ p, parse "int f() float x; \x7b int a; return a + x; \x7d" {} = .ok p) ∧
      ∃ d : Document, d.tokens =
        tokensOf (scan "int f() float x; \x7b int a; return a + x; \x7d" {}).1 := by
  have h := accepts_iff_derived "int f() float x; \x7b int a; return a + x; \x7d" {}
    (by decide +kernel) (by decide +kernel)
  have hp : (parse "int f() float x; \x7b int a; return a + x; \x7d" {}).isOk = true := by
    decide +kernel
  cases hparse : parse "int f() float x; \x7b int a; return a + x; \x7d" {} with
  | error ds =>
    rw [hparse] at hp
    cases hp
  | ok p => exact ⟨⟨p, rfl⟩, h.1.mp ⟨p, hparse⟩⟩

end CMinus
