import CMinus.Proofs.Offending

/-!
# Meaning: what a source says depends on its tokens alone

Two sources with the same tokens are read in the same steps: to the same program, or up to the same
token, at which the same is missing. Blanks, comments, line breaks and rejected characters between
the tokens reach the lines of the tree and of the diagnostics, and nothing else
(`layout_keeps_meaning`).
-/

namespace CMinus

namespace Parse

/-! ## 1. Two rows of the same tokens -/

section Rows

variable {ts us : List Lexeme} (h : tokensOf ts = tokensOf us)
include h

theorem length_eq_of_tokensOf : ts.length = us.length := by
  rw [← length_tokensOf ts, h, length_tokensOf]

/-- Lines aside, both rows are read in the same way. -/
theorem bareRead_program_congr (budget : Nat) :
    bareRead Program.bare (program budget ts) = bareRead Program.bare (program budget us) := by
  have hrows : bareRow ts = bareRow us := by rw [bareRow_eq_row, bareRow_eq_row, h]
  rw [← program_blind, ← program_blind, hrows]

/-- Both rows are read to their ends, as programs that differ in their lines only; or both are read
    up to the same place, at which reading stops for the same cause. -/
theorem program_congr (budget : Nat) :
    (∃ p q, program budget ts = .ok (p, []) ∧ program budget us = .ok (q, []) ∧
        p.bare = q.bare) ∨
      ∃ cause k, k ≤ ts.length ∧ program budget ts = .error ⟨cause, ts.drop k⟩ ∧
        program budget us = .error ⟨cause, us.drop k⟩ := by
  have hsame := bareRead_program_congr h budget
  have hlength := length_eq_of_tokensOf h
  cases hts : program budget ts with
  | ok read =>
    obtain ⟨p, rest⟩ := read
    cases hus : program budget us with
    | ok read' =>
      obtain ⟨q, rest'⟩ := read'
      obtain ⟨rfl, _⟩ := program_sound hts
      obtain ⟨rfl, _⟩ := program_sound hus
      rw [hts, hus] at hsame
      exact .inl ⟨p, q, rfl, rfl, congrArg Prod.fst (Except.ok.inj hsame)⟩
    | error failure =>
      rw [hts, hus] at hsame
      cases hsame
  | error failure =>
    obtain ⟨cause, rest⟩ := failure
    cases hus : program budget us with
    | ok read' =>
      rw [hts, hus] at hsame
      cases hsame
    | error failure' =>
      obtain ⟨cause', rest'⟩ := failure'
      rw [hts, hus] at hsame
      have hfailure := Except.error.inj hsame
      obtain rfl : cause = cause' := congrArg Failure.cause hfailure
      have hleft : rest.length = rest'.length := by
        rw [← length_bareRow rest, ← length_bareRow rest']
        exact congrArg (fun f => f.rest.length) hfailure
      -- what is left is an end of its row, and both ends are of one length
      have hdrop := List.suffix_iff_eq_drop.mp (suffix_of_error hts)
      have hdrop' := List.suffix_iff_eq_drop.mp (suffix_of_error hus)
      rw [← hlength, ← hleft] at hdrop'
      exact .inr ⟨cause, ts.length - rest.length, Nat.sub_le _ _, by rw [← hdrop],
        by rw [← hdrop']⟩

/-- The same token is found at the same place; the end mark is found at the end of both rows. -/
theorem token_found_congr (k line line' : Nat) :
    ((ts.drop k).headD ⟨.eof, line⟩).token = ((us.drop k).headD ⟨.eof, line'⟩).token := by
  have hfound : ∀ (row : List Lexeme) (line : Nat),
      (row.headD ⟨.eof, line⟩).token = (tokensOf row).headD .eof := by
    intro row line
    cases row <;> rfl
  have hdrop : tokensOf (ts.drop k) = tokensOf (us.drop k) := by
    have hmap : ∀ row : List Lexeme, tokensOf (row.drop k) = (tokensOf row).drop k :=
      fun row => List.map_drop
    rw [hmap, hmap, h]
  rw [hfound, hfound, hdrop]

/-- Failures for the same cause at the same place are reported in the same words. -/
theorem diagnostic_congr (limit line line' k : Nat) (cause : Cause) :
    (Failure.diagnostic limit line ⟨cause, ts.drop k⟩).message =
        (Failure.diagnostic limit line' ⟨cause, us.drop k⟩).message ∧
      (Failure.diagnostic limit line ⟨cause, ts.drop k⟩).token =
        (Failure.diagnostic limit line' ⟨cause, us.drop k⟩).token := by
  have htoken := token_found_congr h k line line'
  cases cause with
  | expected what =>
    simp only [Failure.diagnostic, Diagnostic.unexpected, htoken, and_self]
  | tooDeep =>
    simp only [Failure.diagnostic, Diagnostic.tooDeep, htoken, and_self]

end Rows
end Parse

/-! ## 2. What the tokens of a source say -/

open Parse

/-- The tokens of the source are read to their end, as the program. It is accepted unless its
    characters have faults, which are then all that is reported. -/
structure ReadAs (source : String) (o : Options) (p : Program) : Prop where
  reading : program o.maxNesting (scan source o).1 = .ok (p, [])
  accepted : (scan source o).2 = [] → parse source o = .ok p
  rejected : (scan source o).2 ≠ [] → parse source o = .error (scan source o).2

/-- Reading stops at the `k`th token of the source, or at the end mark behind the last one, and the
    parse reports this token by the diagnostic, the only one that is not about characters. -/
structure StopsWith (source : String) (o : Options) (k : Nat) (d : Diagnostic) : Prop where
  reading : ∃ cause,
    program o.maxNesting (scan source o).1 = .error ⟨cause, (scan source o).1.drop k⟩
  named : ∃ l, (marked source o)[k]? = some l ∧ d.token = l.token.spelling ∧ d.line = l.line
  reported : ∃ ds, parse source o = .error ds ∧ ds.filter (·.category = .syntactic) = [d] ∧
    ds.filter (·.category ≠ .syntactic) = (scan source o).2

section Source

variable {source : String} {o : Options}

theorem readAs_of_program {p : Program}
    (h : program o.maxNesting (scan source o).1 = .ok (p, [])) : ReadAs source o p where
  reading := h
  accepted hnone := parse_eq_ok_iff.mpr ⟨hnone, [], h⟩
  rejected hsome := parse_eq_error_iff.mpr (.inl ⟨_, h, hsome, rfl⟩)

/-- Of the reported diagnostics, one is about the tokens. -/
theorem filter_sorted_concat {scanned : List Diagnostic} {d : Diagnostic}
    (hordered : Diagnostic.Ordered scanned) (hlexical : ∀ e ∈ scanned, e.category = .lexical)
    (hd : d.category = .syntactic) :
    (Diagnostic.sorted (scanned ++ [d])).filter (·.category = .syntactic) = [d] := by
  have hnone : ∀ p : Diagnostic → Bool,
      (scanned.filter p).filter (·.category = .syntactic) = [] := by
    intro p
    refine List.filter_eq_nil_iff.mpr fun e he => ?_
    rw [hlexical e (List.mem_filter.mp he).1]
    decide
  rw [Diagnostic.sorted_concat hordered, List.filter_append,
    List.filter_cons_of_pos (by rw [hd]; decide), hnone, hnone, List.nil_append]

theorem stopsWith_of_program {cause : Cause} {k : Nat} (hk : k ≤ (scan source o).1.length)
    (h : program o.maxNesting (scan source o).1 = .error ⟨cause, (scan source o).1.drop k⟩) :
    StopsWith source o k (Failure.diagnostic o.maxNesting (Scan.Scanner.start source o).endLine
      ⟨cause, (scan source o).1.drop k⟩) := by
  have hordered : Diagnostic.Ordered (scan source o).2 := Diagnostic.ordered_sorted _
  have hlexical : ∀ d ∈ (scan source o).2, d.category = .lexical := fun d hd =>
    Scan.Scanner.category_of_mem_diagnostics (Diagnostic.mem_sorted.mp hd)
  have hcategory := category_diagnostic o.maxNesting (Scan.Scanner.start source o).endLine
    ⟨cause, (scan source o).1.drop k⟩
  -- the tokens in front of the one at which reading stops are `k`
  have hmarked := getElem?_marked (List.take_append_drop k (scan source o).1).symm
  rw [List.length_take_of_le hk] at hmarked
  exact {
    reading := ⟨cause, h⟩
    named := ⟨_, hmarked, by cases cause <;> exact ⟨rfl, rfl⟩⟩
    reported := ⟨_, parse_eq_error_iff.mpr (.inr ⟨_, h, rfl⟩),
      filter_sorted_concat hordered hlexical hcategory,
      (reports_sorted_concat hordered hlexical hcategory).complete⟩ }

end Source

/-- **Layout never changes meaning.** Two sources with the same tokens, on whatever lines, are both
    read to their ends, as programs that differ in their lines only; or reading stops in both at the
    same token, which is reported in the same words. -/
theorem layout_keeps_meaning {s t : String} (o : Options)
    (h : tokensOf (scan s o).1 = tokensOf (scan t o).1) :
    (∃ p q, ReadAs s o p ∧ ReadAs t o q ∧ p.bare = q.bare) ∨
      ∃ k d e, StopsWith s o k d ∧ StopsWith t o k e ∧ d.message = e.message ∧
        d.token = e.token := by
  rcases program_congr h o.maxNesting with ⟨p, q, hp, hq, hbare⟩ | ⟨cause, k, hk, hs, ht⟩
  · exact .inl ⟨p, q, readAs_of_program hp, readAs_of_program hq, hbare⟩
  · have hk' : k ≤ (scan t o).1.length := by rwa [← length_eq_of_tokensOf h]
    exact .inr ⟨k, _, _, stopsWith_of_program hk hs, stopsWith_of_program hk' ht,
      diagnostic_congr h _ _ _ _ _⟩

/-- A rejected character, a comment and line breaks between the tokens: the same number cannot
    stand behind another one, on the third line and on the first. -/
theorem layout_keeps_meaning_amidst :
    tokensOf (scan "int f()\n\x7b x = 1 /* one\n */ $ 2; \x7d" {}).1 =
        tokensOf (scan "int f() \x7b x = 1 2; \x7d" {}).1 ∧
      ∃ k d e, StopsWith "int f()\n\x7b x = 1 /* one\n */ $ 2; \x7d" {} k d ∧
        StopsWith "int f() \x7b x = 1 2; \x7d" {} k e ∧ d.message = e.message ∧
        d.token = e.token := by
  have htokens : tokensOf (scan "int f()\n\x7b x = 1 /* one\n */ $ 2; \x7d" {}).1 =
      tokensOf (scan "int f() \x7b x = 1 2; \x7d" {}).1 := by
    decide +kernel
  refine ⟨htokens, (layout_keeps_meaning {} htokens).resolve_left fun h => ?_⟩
  obtain ⟨_, q, _, hq, _⟩ := h
  have hrejected : (parse "int f() \x7b x = 1 2; \x7d" {}).isOk = false := by decide +kernel
  rw [hq.accepted (by rw [scan_diagnostics]; decide +kernel)] at hrejected
  cases hrejected

end CMinus
