import CMinus.Proofs.Begun
import CMinus.Proofs.Diagnostics

/-!
# Offending: a fault of the tokens names the first token that cannot stand where it stands

The tokens of accepted sources, each row with the end mark behind it, are a language; its beginnings
are the viable ones (`Viable`). A derivation from tokens that can be spelled is accepted as the
text of these tokens, so viable rows are those that begin such a derivation.

What has been read in front of an offending token is viable: it begins a derivation. With the
offending token it is not: whatever stands behind that token, reading would stop at it again, but
the tokens of a derivation are read to their end, unless they are nested too deep.
-/

namespace CMinus

open Grammar Parse

/-! ## 1. Accepted rows of tokens -/

/-- The tokens of accepted sources, under any options, each row with the end mark behind it. -/
def accepted : Language Token :=
  {us | ∃ source o p, parse source o = .ok p ∧ us = tokensOf (scan source o).1 ++ [.eof]}

/-- The row can be continued to one that is accepted. -/
def Viable (ws : List Token) : Prop :=
  ∃ us ∈ accepted, ws <+: us

theorem Viable.mono {vs ws : List Token} (h : Viable ws) (hvs : vs <+: ws) :
    Viable vs := by
  obtain ⟨us, hus, hws⟩ := h
  exact ⟨us, hus, hvs.trans hws⟩

/-- Tokens with a blank behind each. -/
def spaced (ts : List Token) : List Piece :=
  ts.flatMap fun t => [.word t, .blank]

theorem words_spaced (ts : List Token) : Piece.words (spaced ts) = ts := by
  induction ts with
  | nil => rfl
  | cons t ts ih => exact congrArg (t :: ·) ih

theorem legible_spaced {ts : List Token} (h : AllSpellable ts) : Piece.Legible (spaced ts) [] := by
  induction ts with
  | nil => trivial
  | cons t ts ih =>
    obtain ⟨ht, hts⟩ := allSpellable_cons.mp h
    have hbreak : Breaks (Piece.chars (.blank :: spaced ts) ++ []) := by
      rw [Piece.chars_cons, List.append_assoc]
      exact Piece.breaks_append rfl _
    exact (Piece.legible_word hbreak).mpr ⟨ht, Piece.legible_blank.mpr (ih hts)⟩

/-- What is accepted is what has a derivation from tokens that can be spelled. -/
theorem mem_accepted_iff {us : List Token} :
    us ∈ accepted ↔ ∃ d : Document, AllSpellable d.tokens ∧ us = d.tokens ++ [.eof] := by
  constructor
  · rintro ⟨source, o, p, hp, rfl⟩
    obtain ⟨d, _, _, htokens⟩ := exists_document_of_parse hp
    exact ⟨d, htokens ▸ scan_spellable source o, by rw [htokens]⟩
  · rintro ⟨d, hspell, rfl⟩
    obtain ⟨hscan, hnone⟩ :=
      scan_of_legible (legible_spaced hspell) { maxNesting := d.levels }
    rw [words_spaced] at hscan
    obtain ⟨p, hp, _⟩ := parse_of_levels_le hnone hscan.symm (Nat.le_refl _)
    exact ⟨_, _, p, hp, by rw [hscan]⟩

/-- A row that is viable with the end mark is derived; one that is viable with a token is the
    beginning of one that is derived. -/
theorem Viable.exists_document {ws : List Token} {t : Token} (h : Viable (ws ++ [t])) :
    (t = .eof ∧ ∃ d : Document, d.tokens = ws) ∨
      (t ≠ .eof ∧ ∃ d : Document, ws ++ [t] <+: d.tokens) := by
  obtain ⟨us, hus, hbegins⟩ := h
  obtain ⟨d, hd, rfl⟩ := mem_accepted_iff.mp hus
  rcases List.prefix_concat_iff.mp hbegins with hall | hbegins
  · obtain ⟨hws, ht⟩ := List.append_inj' hall rfl
    exact .inl ⟨List.head_eq_of_cons_eq ht, d, hws.symm⟩
  · have ht : t.Spellable := hd t (hbegins.subset (List.mem_append_right _ List.mem_cons_self))
    exact .inr ⟨fun heof => by rw [heof] at ht; exact ht, d, hbegins⟩

/-! ## 2. The offending token -/

namespace Parse

theorem tokensOf_row (ts : List Token) : tokensOf (row ts) = ts := by
  rw [tokensOf, row, List.map_map]
  exact List.map_id ts

theorem tokensOf_append (ts us : List Lexeme) : tokensOf (ts ++ us) = tokensOf ts ++ tokensOf us :=
  List.map_append

/-- The tokens of a derivation are read, or too deep: none of them is offending. -/
theorem cause_of_derived {d : Document} {ts : List Lexeme} {budget : Nat} {f : Failure}
    (htokens : d.tokens = tokensOf ts) (h : program budget ts = .error f) : f.cause = .tooDeep := by
  by_cases hlevels : d.levels ≤ budget
  · obtain ⟨p, hp, _⟩ := program_of_levels_le htokens hlevels
    rw [h] at hp
    cases hp
  · obtain ⟨rest, hrest⟩ := program_of_lt_levels htokens (Nat.lt_of_not_le hlevels)
    rw [h] at hrest
    injection hrest with hf
    rw [hf]

section Stopped

variable {ts : List Lexeme} {budget : Nat} {what : Expected} {rest : List Lexeme}
  (h : program budget ts = .error ⟨.expected what, rest⟩)
include h

/-- The tokens in front of an offending one are viable. -/
theorem viable_of_error (hspell : AllSpellable (tokensOf ts)) :
    ∃ front, ts = front ++ rest ∧ Viable (tokensOf front) := by
  obtain ⟨front, hfront⟩ := suffix_of_error h
  have hbegins := program_begins budget ts
  rw [h] at hbegins
  obtain ⟨read, missing, ⟨d, hd⟩, hmissing, hread⟩ := hbegins
  rw [← hfront, tokensOf_append] at hread hspell
  have hsame : tokensOf front = read := List.append_cancel_right hread
  refine ⟨front, hfront.symm, _, mem_accepted_iff.mpr ⟨d, ?_, rfl⟩, ?_⟩
  · rw [hd, ← hsame]
    exact allSpellable_append.mpr ⟨(allSpellable_append.mp hspell).1, hmissing⟩
  · rw [hd, hsame, List.append_assoc]
    exact List.prefix_append _ _

/-- With an offending token the tokens in front of it begin no derivation. -/
theorem not_prefix_of_error {front more : List Lexeme} {l : Lexeme} (hrest : rest = l :: more)
    (hts : ts = front ++ rest) (d : Document) : ¬tokensOf front ++ [l.token] <+: d.tokens := by
  rintro ⟨behind, hd⟩
  have hother : graft more.length (row behind) ts = front ++ [l] ++ row behind := by
    rw [hts, hrest, List.append_cons, graft_append]
  -- reading stops at `l` as well when the derivation goes on behind it
  have hsame := (program_local budget more.length (row behind) ts).2
  rw [hother, h, hrest] at hsame
  have hstop := hsame (Nat.lt_succ_self _)
  have htokens : d.tokens = tokensOf (front ++ [l] ++ row behind) := by
    rw [tokensOf_append, tokensOf_append, tokensOf_row, ← hd]
    rfl
  cases cause_of_derived htokens hstop

/-- With the offending token they are not, be it the end mark or a token of the source. -/
theorem not_viable_of_error (hspell : AllSpellable (tokensOf ts)) {front : List Lexeme}
    (hts : ts = front ++ rest) (endLine : Nat) :
    ¬Viable (tokensOf front ++ [(rest.headD ⟨.eof, endLine⟩).token]) := by
  intro hviable
  cases rest with
  | nil =>
    rcases hviable.exists_document with ⟨_, d, hd⟩ | ⟨hne, _⟩
    · rw [List.append_nil] at hts
      rw [← hts] at hd
      cases cause_of_derived hd h
    · exact hne rfl
  | cons l more =>
    rcases hviable.exists_document with ⟨heof, _⟩ | ⟨_, d, hd⟩
    · have hl : l.token.Spellable := hspell _ (List.mem_map_of_mem (by rw [hts]; simp))
      rw [show l.token = .eof from heof] at hl
      exact hl
    · exact not_prefix_of_error h rfl hts d hd

end Stopped
end Parse

/-! ## 3. What a fault of the tokens names -/

/-- The tokens of a source, and the end mark behind them. -/
def marked (source : String) (o : Options) : List Lexeme :=
  (scan source o).1 ++ [⟨.eof, (Scan.Scanner.start source o).endLine⟩]

variable {source : String} {o : Options}

section Marked

variable {front rest : List Lexeme} (h : (scan source o).1 = front ++ rest)
include h

/-- Behind the first tokens stands the next one, or the end mark. -/
theorem marked_eq_append : ∃ behind, marked source o =
    front ++ rest.headD ⟨.eof, (Scan.Scanner.start source o).endLine⟩ :: behind := by
  rw [marked, h, List.append_assoc]
  cases rest with
  | nil => exact ⟨[], rfl⟩
  | cons l more => exact ⟨more ++ [_], rfl⟩

theorem getElem?_marked : (marked source o)[front.length]? =
    some (rest.headD ⟨.eof, (Scan.Scanner.start source o).endLine⟩) := by
  obtain ⟨behind, hmarked⟩ := marked_eq_append h
  rw [hmarked, List.getElem?_append_right (Nat.le_refl _), Nat.sub_self]
  rfl

end Marked

/-- Reading stops at the first token with which the tokens are no longer viable. -/
theorem viable_iff_of_error {what : Expected} {rest : List Lexeme}
    (h : program o.maxNesting (scan source o).1 = .error ⟨.expected what, rest⟩) :
    ∃ k, (marked source o)[k]? =
        some (rest.headD ⟨.eof, (Scan.Scanner.start source o).endLine⟩) ∧
      ∀ j, Viable ((tokensOf (marked source o)).take j) ↔ j ≤ k := by
  have hspell := scan_spellable source o
  obtain ⟨front, hts, hviable⟩ := viable_of_error h hspell
  have hnot := not_viable_of_error h hspell hts (Scan.Scanner.start source o).endLine
  obtain ⟨behind, hmarked⟩ := marked_eq_append hts
  have htokens : tokensOf (marked source o) = tokensOf front ++
      (rest.headD ⟨.eof, (Scan.Scanner.start source o).endLine⟩).token :: tokensOf behind := by
    rw [hmarked, tokensOf_append]
    rfl
  have hlength : (tokensOf front).length = front.length := length_tokensOf front
  refine ⟨front.length, getElem?_marked hts, fun j => ⟨fun hj => ?_, fun hj => ?_⟩⟩
  · refine Nat.le_of_not_lt fun hlt => hnot (hj.mono (List.prefix_take_iff.mpr ⟨?_, ?_⟩))
    · exact ⟨tokensOf behind, by rw [htokens, List.append_assoc, List.singleton_append]⟩
    · rwa [List.length_append, List.length_singleton, hlength]
  · rw [htokens, List.take_append_of_le_length (by rwa [hlength])]
    exact hviable.mono (List.take_prefix _ _)

/-- **A fault of the tokens names the first token that cannot stand where it stands**: its text and
    its line are those of the token with which the tokens of the source, and the end mark behind
    them, are no longer viable. -/
theorem names_first_not_viable {ds : List Diagnostic} {d : Diagnostic}
    (hparse : parse source o = .error ds) (hd : d ∈ ds) (hsyntactic : d.category = .syntactic)
    (hdeep : d.message ≠ "input nested deeper than " ++ toString o.maxNesting ++ " levels") :
    ∃ k l, (marked source o)[k]? = some l ∧ d.token = l.token.spelling ∧ d.line = l.line ∧
      ∀ j, Viable ((tokensOf (marked source o)).take j) ↔ j ≤ k := by
  obtain ⟨f, hf, rfl⟩ := exists_failure_of_syntactic hparse hd hsyntactic
  rcases f with ⟨cause, rest⟩
  cases cause with
  | tooDeep => exact absurd rfl hdeep
  | expected what =>
    obtain ⟨k, hk, hviable⟩ := viable_iff_of_error hf
    exact ⟨k, _, hk, rfl, rfl, hviable⟩

/-- An operand is missing, and the semicolon is named. -/
theorem names_semicolon :
    ∃ ds d, parse "int f() \x7b\n  x = 1 + ;\n\x7d" {} = .error ds ∧ d ∈ ds ∧
      d.category = .syntactic ∧
      d.message ≠ "input nested deeper than " ++ toString ({} : Options).maxNesting ++ " levels" ∧
      d.token = ";" ∧ d.line = 2 ∧
      ∃ k l, (marked "int f() \x7b\n  x = 1 + ;\n\x7d" {})[k]? = some l ∧
        d.token = l.token.spelling ∧ d.line = l.line ∧
        ∀ j, Viable ((tokensOf (marked "int f() \x7b\n  x = 1 + ;\n\x7d" {})).take j) ↔ j ≤ k := by
  have hparse : parse "int f() \x7b\n  x = 1 + ;\n\x7d" {} =
      .error [.unexpected "an expression" (.symbol .semicolon) 2] :=
    eq_error_of_reported (by decide +kernel) (List.cons_ne_nil _ _)
  have hmem := List.mem_singleton_self
    (Diagnostic.unexpected "an expression" (.symbol .semicolon) 2)
  exact ⟨_, _, hparse, hmem, rfl, by decide, rfl, rfl,
    names_first_not_viable hparse hmem rfl (by decide)⟩

end CMinus
