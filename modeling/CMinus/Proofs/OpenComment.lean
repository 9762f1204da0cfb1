import CMinus.Proofs.LineNumbers

/-!
# OpenComment: what the choice to report open comments changes

A comment that is never closed runs to the end of the source, so a source has one at most, and it is
the last segment (`Tokenised.closed_or_open`). Reporting it puts one diagnostic behind all others of
the characters and changes nothing else that is scanned (`scan_strict`). Sorted in by its line, it
is also the only difference between two rejections (`rejected_strict`).
-/

namespace CMinus

open Scan

/-! ## 1. Open comments -/

/-- The diagnostic of a comment that is opened on the line and never closed. -/
def unclosed (line : Nat) : Diagnostic :=
  Fault.openComment.diagnostic ['/', '*'] line

/-- The source ends inside a comment that is opened on the line and never closed. -/
def EndsInComment (source : String) (line : Nat) : Prop :=
  ∃ front body, Tokenised source.toList (front ++ [.openComment body]) ∧ line = lineBehind front

namespace Scan

/-- The segment is no open comment. -/
def Segment.Closed (s : Segment) : Prop :=
  ∀ body, s ≠ .openComment body

theorem Segment.Closed.diagnostic?_eq {s : Segment} (h : s.Closed) (strict strict' : Bool)
    (line : Nat) : s.diagnostic? strict line = s.diagnostic? strict' line := by
  cases s with
  | openComment body => exact absurd rfl (h body)
  | _ => rfl

theorem not_spells_openComment {text body : List Char} : ¬Spells text (.openComment body) :=
  nofun

/-- An open comment leaves nothing. -/
theorem eq_nil_of_leads_openComment {body rest : List Char}
    (h : Leads (Segment.text (.openComment body) ++ rest) (.openComment body)) : rest = [] := by
  cases h with
  | openComment hall => exact List.append_right_eq_self.mp hall.symm
  | spelling _ _ h => exact absurd h not_spells_openComment

/-- No segment but the last one is an open comment. -/
theorem Tokenised.closed_or_open {cs : List Char} {ss : List Segment} (h : Tokenised cs ss) :
    (∀ s ∈ ss, s.Closed) ∨
      ∃ front body, ss = front ++ [.openComment body] ∧ ∀ s ∈ front, s.Closed := by
  induction h with
  | nil => exact .inl (List.forall_mem_nil _)
  | @cons s rest ss h tail ih =>
    by_cases hs : s.Closed
    · rcases ih with hclosed | ⟨front, body, rfl, hfront⟩
      · exact .inl (List.forall_mem_cons.mpr ⟨hs, hclosed⟩)
      · exact .inr ⟨s :: front, body, rfl, List.forall_mem_cons.mpr ⟨hs, hfront⟩⟩
    · obtain ⟨body, rfl⟩ : ∃ body, s = .openComment body := by
        simpa only [Segment.Closed, ne_eq, not_forall, not_not] using hs
      obtain rfl := eq_nil_of_leads_openComment h
      have hnil : ss = [] := by rw [← tail.segments_eq, segments]
      rw [hnil]
      exact .inr ⟨[], body, rfl, List.forall_mem_nil _⟩

theorem Tokenised.leads_of_mem {cs : List Char} {ss : List Segment} (h : Tokenised cs ss)
    {s : Segment} (hs : s ∈ ss) : ∃ text, Leads text s := by
  induction h with
  | nil => cases hs
  | cons h _ ih =>
    rcases List.mem_cons.mp hs with rfl | hs
    · exact ⟨_, h⟩
    · exact ih hs

/-- The mark that opens a comment is never rejected itself. -/
theorem not_leads_mark {text : List Char} {fault : Fault} :
    ¬Leads text (.rejected fault ['/', '*']) := by
  intro h
  cases h with
  | spelling word hp => exact word.2 hp

theorem filterMap_closed {ss : List Segment} (h : ∀ s ∈ ss, s.Closed) (strict strict' : Bool)
    (line : Nat) :
    (place line ss).filterMap (Placed.diagnostic? strict) =
      (place line ss).filterMap (Placed.diagnostic? strict') := by
  refine List.filterMap_congr fun p hp => ?_
  obtain ⟨front, ahead, rfl, _⟩ := exists_of_mem_place hp
  have hclosed := h p.segment (List.mem_append_right _ List.mem_cons_self)
  exact hclosed.diagnostic?_eq strict strict' p.line

end Scan

/-! ## 2. What is scanned -/

section Scanned

variable {source : String} {n : Nat}

/-- Reporting an open comment adds its diagnostic behind all others, and nothing when there is no
    open comment. -/
theorem scan_strict (source : String) (n : Nat) :
    ((∀ line, ¬EndsInComment source line) ∧
        (scan source ⟨true, n⟩).2 = (scan source ⟨false, n⟩).2) ∨
      ∃ line, (∀ line', EndsInComment source line' ↔ line' = line) ∧
        (scan source ⟨true, n⟩).2 = (scan source ⟨false, n⟩).2 ++ [unclosed line] := by
  have hcut := tokenised_segments source.toList
  have hdiagnostics : ∀ strict, (scan source ⟨strict, n⟩).2 =
      (place 1 (segments source.toList)).filterMap (Placed.diagnostic? strict) := fun strict => by
    rw [scan_diagnostics]
    rfl
  rw [hdiagnostics, hdiagnostics]
  rcases hcut.closed_or_open with hclosed | ⟨front, body, hopen, hfront⟩
  · refine .inl ⟨?_, filterMap_closed hclosed true false 1⟩
    intro line ⟨front, body, hends, _⟩
    rw [tokenised_iff.mp hends] at hclosed
    exact hclosed _ (List.mem_append_right _ List.mem_cons_self) body rfl
  · refine .inr ⟨lineBehind front, fun line => ⟨?_, ?_⟩, ?_⟩
    · intro ⟨front', body', hends, hline⟩
      rw [tokenised_iff.mp hends] at hopen
      rw [hline, (List.append_inj' hopen rfl).1]
    · intro hline
      exact ⟨front, body, tokenised_iff.mpr hopen, hline⟩
    · rw [hopen, place_append, List.filterMap_append, List.filterMap_append,
        filterMap_closed hfront true false 1, List.append_assoc]
      rfl

theorem strict_eq_iff : (scan source ⟨true, n⟩).2 = (scan source ⟨false, n⟩).2 ↔
    ∀ line, ¬EndsInComment source line := by
  rcases scan_strict source n with ⟨hnone, hsame⟩ | ⟨line, hends, hmore⟩
  · exact iff_of_true hsame hnone
  · refine iff_of_false ?_ fun hnone => hnone line ((hends line).mpr rfl)
    rw [hmore]
    exact fun h => List.cons_ne_nil _ _ (List.append_right_eq_self.mp h)

theorem strict_concat_iff (line : Nat) :
    (scan source ⟨true, n⟩).2 = (scan source ⟨false, n⟩).2 ++ [unclosed line] ↔
      EndsInComment source line := by
  rcases scan_strict source n with ⟨hnone, hsame⟩ | ⟨line', hends, hmore⟩
  · refine iff_of_false ?_ (hnone line)
    rw [hsame]
    exact fun h => List.cons_ne_nil _ _ (List.append_right_eq_self.mp h.symm)
  · rw [hends, hmore, List.append_cancel_left_eq]
    refine ⟨fun h => ?_, fun h => by rw [h]⟩
    exact (congrArg Diagnostic.line (List.head_eq_of_cons_eq h)).symm

/-- Nothing else is taken for the diagnostic of an open comment. -/
theorem unclosed_notMem_scan (line : Nat) : unclosed line ∉ (scan source ⟨false, n⟩).2 := by
  rw [scan_diagnostics]
  intro hmem
  obtain ⟨⟨s, place⟩, hp, hd⟩ := List.mem_filterMap.mp hmem
  obtain ⟨front, ahead, hcut, _⟩ := exists_of_mem_place hp
  have hs : s ∈ segments source.toList := by
    show s ∈ segments (Scanner.start source ⟨false, n⟩).rest
    rw [hcut]
    exact List.mem_append_right _ List.mem_cons_self
  obtain ⟨text, hleads⟩ := (tokenised_segments source.toList).leads_of_mem hs
  cases s with
  | rejected fault mark =>
    have hd : fault.diagnostic mark place = unclosed line := Option.some.inj hd
    have hmark : String.ofList mark = String.ofList ['/', '*'] := congrArg Diagnostic.token hd
    rw [String.ofList_inj.mp hmark] at hleads
    exact not_leads_mark hleads
  | _ => cases hd

end Scanned

/-! ## 3. What is rejected -/

/-- The second list is the first one with one more diagnostic, which it has not got itself. -/
def Inserted (d : Diagnostic) (ds es : List Diagnostic) : Prop :=
  ∃ front behind, ds = front ++ behind ∧ es = front ++ d :: behind ∧ d ∉ ds

section Inserted

variable {d e : Diagnostic} {ds es : List Diagnostic}

theorem Inserted.mem (h : Inserted d ds es) : d ∈ es := by
  obtain ⟨front, behind, _, rfl, _⟩ := h
  exact List.mem_append_right _ List.mem_cons_self

theorem Inserted.erase (h : Inserted d ds es) : es.erase d = ds := by
  obtain ⟨front, behind, rfl, rfl, hnot⟩ := h
  have hfront : d ∉ front := fun hmem => hnot (List.mem_append_left _ hmem)
  rw [List.erase_append_right _ hfront, List.erase_cons_head]

/-- Two lists that differ in one last diagnostic still do so when another one is sorted in. -/
theorem inserted_sorted (hordered : Diagnostic.Ordered (ds ++ [d])) (hnot : d ∉ ds) (hne : d ≠ e) :
    Inserted d (Diagnostic.sorted (ds ++ [e])) (Diagnostic.sorted (ds ++ [d] ++ [e])) := by
  have hds : Diagnostic.Ordered ds := (List.pairwise_append.mp hordered).1
  have hmem : d ∉ Diagnostic.sorted (ds ++ [e]) := fun h => by
    rcases List.mem_append.mp (Diagnostic.mem_sorted.mp h) with h | h
    · exact hnot h
    · exact hne (List.mem_singleton.mp h)
  rw [Diagnostic.sorted_concat hds] at hmem ⊢
  rw [Diagnostic.sorted_concat hordered, List.filter_append, List.filter_append]
  by_cases hline : d.line ≤ e.line
  · have hlow : [d].filter (·.line ≤ e.line) = [d] := List.filter_eq_self.mpr (by simpa using hline)
    have hhigh : [d].filter (e.line < ·.line) = [] :=
      List.filter_eq_nil_iff.mpr (by simpa using hline)
    refine ⟨ds.filter (·.line ≤ e.line), e :: ds.filter (e.line < ·.line), rfl, ?_, hmem⟩
    rw [hlow, hhigh, List.append_nil, List.append_assoc, List.singleton_append]
  · have hbehind : ∀ b ∈ [d], e.line < b.line :=
      List.forall_mem_singleton.mpr (Nat.lt_of_not_le hline)
    obtain ⟨hlow, hhigh⟩ := Diagnostic.filter_of_forall_lt hbehind
    refine ⟨ds.filter (·.line ≤ e.line) ++ e :: ds.filter (e.line < ·.line), [],
      (List.append_nil _).symm, ?_, hmem⟩
    rw [hlow, hhigh, List.append_nil, List.append_assoc, List.cons_append]

end Inserted

section Rejected

variable {source : String} {n : Nat} {ds es : List Diagnostic}

/-- Where the source has no open comment the same is said of it. -/
theorem parse_eq_of_scan (h : (scan source ⟨true, n⟩).2 = (scan source ⟨false, n⟩).2) :
    parse source ⟨true, n⟩ = parse source ⟨false, n⟩ := by
  have hdiagnostics : (Scanner.start source ⟨true, n⟩).diagnostics =
      (Scanner.start source ⟨false, n⟩).diagnostics := by
    rw [← scan_diagnostics, ← scan_diagnostics, h]
  unfold parse
  rw [Scanner.parse_eq_verdict, Scanner.parse_eq_verdict, hdiagnostics]
  rfl

/-- What is accepted with open comments reported has none. -/
theorem parse_lax_of_strict {p : Program} (h : parse source ⟨true, n⟩ = .ok p) :
    parse source ⟨false, n⟩ = .ok p := by
  have hnil := (parse_eq_ok_iff.mp h).1
  rcases scan_strict source n with ⟨_, hsame⟩ | ⟨line, _, hmore⟩
  · rw [← parse_eq_of_scan hsame]
    exact h
  · rw [hmore] at hnil
    exact absurd hnil (List.append_ne_nil_of_right_ne_nil _ (List.cons_ne_nil _ _))

/-- Where only the report rejects a source, it is all that is reported. -/
theorem only_strict {p : Program} (hlax : parse source ⟨false, n⟩ = .ok p)
    (hstrict : parse source ⟨true, n⟩ = .error es) :
    ∃ line, EndsInComment source line ∧ es = [unclosed line] := by
  obtain ⟨hnil, rest, hread⟩ := parse_eq_ok_iff.mp hlax
  rcases scan_strict source n with ⟨_, hsame⟩ | ⟨line, hends, hmore⟩
  · rw [parse_eq_of_scan hsame, hlax] at hstrict
    cases hstrict
  · refine ⟨line, (hends line).mpr rfl, ?_⟩
    rw [hnil, List.nil_append] at hmore
    rcases parse_eq_error_iff.mp hstrict with ⟨_, _, _, rfl⟩ | ⟨f, hf, _⟩
    · exact hmore
    · exact absurd (hf.symm.trans hread) nofun

/-- Where the source has an open comment, two rejections differ in its diagnostic. -/
theorem rejected_strict {line : Nat}
    (h : (scan source ⟨true, n⟩).2 = (scan source ⟨false, n⟩).2 ++ [unclosed line])
    (hlax : parse source ⟨false, n⟩ = .error ds) (hstrict : parse source ⟨true, n⟩ = .error es) :
    Inserted (unclosed line) ds es := by
  have hnot : unclosed line ∉ (scan source ⟨false, n⟩).2 := unclosed_notMem_scan line
  rcases parse_eq_error_iff.mp hlax with ⟨_, hok, _, rfl⟩ | ⟨f, hf, rfl⟩
  · rcases parse_eq_error_iff.mp hstrict with ⟨_, _, _, rfl⟩ | ⟨f, hf, _⟩
    · exact ⟨_, [], (List.append_nil _).symm, h, hnot⟩
    · exact absurd (hf.symm.trans hok) nofun
  · rcases parse_eq_error_iff.mp hstrict with ⟨_, hok, _⟩ | ⟨f', hf', rfl⟩
    · exact absurd (hf.symm.trans hok) nofun
    · obtain rfl := Except.error.inj (hf'.symm.trans hf)
      have hordered : Diagnostic.Ordered (scan source ⟨true, n⟩).2 := Diagnostic.ordered_sorted _
      rw [h] at hordered ⊢
      refine inserted_sorted hordered hnot fun he => ?_
      have hcategory := category_diagnostic n (Scanner.start source ⟨false, n⟩).endLine f'
      rw [← he] at hcategory
      cases hcategory

end Rejected

/-- **Reporting open comments adds one diagnostic at most.** The tokens of a source stay the same.
    Its diagnostics stay the same unless it ends inside a comment; then that of the comment, which
    is none of the others, follows them. So what is accepted with open comments reported is accepted
    without, as the same program; where only the report rejects a source, it is all that is
    reported; and of two rejections the one has that diagnostic besides what the other one has. -/
theorem strict_adds_one (source : String) (n : Nat) :
    let lax : Options := { strictComments := false, maxNesting := n }
    let strict : Options := { strictComments := true, maxNesting := n }
    (scan source strict).1 = (scan source lax).1 ∧
    ((scan source strict).2 = (scan source lax).2 ↔ ∀ line, ¬EndsInComment source line) ∧
    (∀ line, (scan source strict).2 = (scan source lax).2 ++ [unclosed line] ↔
      EndsInComment source line) ∧
    (∀ line, unclosed line ∉ (scan source lax).2) ∧
    (∀ p, parse source strict = .ok p → parse source lax = .ok p) ∧
    (∀ p es, parse source lax = .ok p → parse source strict = .error es →
      ∃ line, EndsInComment source line ∧ es = [unclosed line]) ∧
    ∀ ds es, parse source lax = .error ds → parse source strict = .error es →
      (∃ line, EndsInComment source line ∧ unclosed line ∈ es ∧ es.erase (unclosed line) = ds) ∨
        ((∀ line, ¬EndsInComment source line) ∧ es = ds) := by
  intro lax strict
  refine ⟨rfl, strict_eq_iff, strict_concat_iff, unclosed_notMem_scan,
    fun p => parse_lax_of_strict, fun p es => only_strict, fun ds es hds hes => ?_⟩
  rcases scan_strict source n with ⟨hnone, hsame⟩ | ⟨line, hends, hmore⟩
  · rw [parse_eq_of_scan hsame, hds] at hes
    exact .inr ⟨hnone, (Except.error.inj hes).symm⟩
  · have hinserted := rejected_strict hmore hds hes
    exact .inl ⟨line, (hends line).mpr rfl, hinserted.mem, hinserted.erase⟩

/-- A comment that is opened behind the last procedure, and one that is opened behind a fault of the
    tokens. -/
theorem strict_adds_one_behind :
    (∃ p es, parse "int f() \x7b return 1; \x7d\n/*" ⟨false, 9⟩ = .ok p ∧
      parse "int f() \x7b return 1; \x7d\n/*" ⟨true, 9⟩ = .error es ∧
      ∃ line, EndsInComment "int f() \x7b return 1; \x7d\n/*" line ∧ es = [unclosed line]) ∧
    ∃ ds es, parse "int f() \x7b x = ; \x7d\n/*" ⟨false, 9⟩ = .error ds ∧
      parse "int f() \x7b x = ; \x7d\n/*" ⟨true, 9⟩ = .error es ∧
      ∃ line, EndsInComment "int f() \x7b x = ; \x7d\n/*" line ∧ unclosed line ∈ es ∧
        es.erase (unclosed line) = ds := by
  obtain ⟨_, _, _, _, _, honly, _⟩ := strict_adds_one "int f() \x7b return 1; \x7d\n/*" 9
  obtain ⟨_, _, _, _, haccept, _, hboth⟩ := strict_adds_one "int f() \x7b x = ; \x7d\n/*" 9
  have hopen : Tokenised "int f() \x7b x = ; \x7d\n/*".toList
      ((segments "int f() \x7b x = ; \x7d\n".toList) ++ [.openComment []]) :=
    tokenised_iff.mpr (by decide +kernel)
  refine ⟨?_, ?_⟩
  · obtain ⟨p, hp⟩ := exists_ok_of_isOk
      (show (parse "int f() \x7b return 1; \x7d\n/*" ⟨false, 9⟩).isOk = true by decide +kernel)
    obtain ⟨es, hes⟩ := exists_error_of_isOk
      (show (parse "int f() \x7b return 1; \x7d\n/*" ⟨true, 9⟩).isOk = false by decide +kernel)
    exact ⟨p, es, hp, hes, honly p es hp hes⟩
  · obtain ⟨ds, hds⟩ := exists_error_of_isOk
      (show (parse "int f() \x7b x = ; \x7d\n/*" ⟨false, 9⟩).isOk = false by decide +kernel)
    cases hes : parse "int f() \x7b x = ; \x7d\n/*" ⟨true, 9⟩ with
    | ok q => exact absurd (hds.symm.trans (haccept q hes)) nofun
    | error es =>
      refine ⟨ds, es, hds, rfl, (hboth ds es hds hes).resolve_right fun h => ?_⟩
      exact h.1 _ ⟨_, [], hopen, rfl⟩

end CMinus
