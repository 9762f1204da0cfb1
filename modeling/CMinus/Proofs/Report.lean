import CMinus.Proofs.Flags
import CMinus.Proofs.OpenComment

/-!
# Report: diagnostics that keep to their lines

A rejected run writes its diagnostics, each with the end of a line behind it. What a diagnostic
quotes from the source is a piece of it: a rejected piece is a number, or one character that is no
blank, and holds no end of a line. A token that cannot stand where it stands is quoted in its
spelling, and that breaks the line if it is a string literal which goes on in the next line. Nothing
else does (`report_keeps_to_lines`).
-/

namespace CMinus

open Scan

/-! ## 1. Faults of the characters -/

/-- The end of a line is not rejected, alone or in a number. -/
theorem Scan.Leads.newline_notMem {text rejected : List Char} {fault : Fault}
    (h : Leads text (.rejected fault rejected)) : '\n' ∉ rejected := by
  cases h with
  | spelling word hp h longest =>
    have hspells : Spells rejected (.rejected fault rejected) := h
    cases hspells with
    | wholeOutOfRange hd range => exact hd.newline_notMem
    | fractionOutOfRange hb ha nearest range =>
      rw [List.mem_append, List.mem_cons]
      intro hmem
      rcases hmem with hmem | hmem | hmem
      · exact hb.newline_notMem hmem
      · exact absurd hmem (by decide)
      · exact ha.newline_notMem hmem
  | stray word hp none =>
    -- the end of a line would have been taken as a blank
    rename_i c
    obtain ⟨behind, rfl⟩ := hp
    have hc := word.1 c rfl
    rw [List.mem_singleton]
    intro hnewline
    exact hc (hnewline ▸ by decide)

theorem Scan.Fault.oneLine_message {text : String} (h : OneLine text) (fault : Fault) :
    OneLine (fault.message text) := by
  cases fault with
  | openString => exact (by decide : OneLine "unterminated string literal")
  | openComment => exact (by decide : OneLine "unterminated block comment")
  | wholeOutOfRange | fractionOutOfRange | strayCharacter =>
    exact oneLine_between (by decide) h (by decide)

/-- A diagnostic keeps to its line if its message does. -/
theorem Diagnostic.oneLine_text (d : Diagnostic) : OneLine d.text ↔ OneLine d.message := by
  have hcategory : OneLine d.category.name := by
    cases d.category <;> decide
  have hfront : OneLine (d.category.name ++ " error at line " ++ toString d.line ++ ": ") :=
    oneLine_between (hcategory.append (by decide)) (oneLine_nat d.line) (by decide)
  rw [text, oneLine_append]
  exact and_iff_right hfront

/-- What is reported of the characters of a source keeps to its lines. -/
theorem oneLine_of_mem_scan {source : String} {o : Options} {d : Diagnostic}
    (h : d ∈ (scan source o).2) : OneLine d.text := by
  rw [scan_diagnostics] at h
  obtain ⟨p, hp, hd⟩ := List.mem_filterMap.mp h
  obtain ⟨front, ahead, hsegments, _⟩ := exists_of_mem_place hp
  have hmem : p.segment ∈ segments source.toList := by
    have hstart : segments source.toList = front ++ p.segment :: ahead := hsegments
    rw [hstart]
    exact List.mem_append_right _ List.mem_cons_self
  obtain ⟨text, hleads⟩ := (tokenised_segments source.toList).leads_of_mem hmem
  rw [Diagnostic.oneLine_text]
  obtain ⟨segment, line⟩ := p
  cases segment with
  | rejected fault rejected =>
    cases hd
    exact fault.oneLine_message (oneLine_ofList.mpr hleads.newline_notMem)
  | openComment body =>
    cases hstrict : (Scanner.start source o).options.strictComments with
    | false =>
      rw [hstrict] at hd
      cases hd
    | true =>
      rw [hstrict] at hd
      cases hd
      exact (by decide : OneLine "unterminated block comment")
  | blank | comment | token => cases hd

/-! ## 2. A fault of the tokens -/

theorem Parse.Expected.oneLine_description (what : Parse.Expected) : OneLine what.description := by
  cases what with
  | symbol sign => cases sign <;> decide
  | type | identifier | arraySize | statement | expression => decide

/-- A token that was not expected breaks the line of its diagnostic if its spelling does. -/
theorem Diagnostic.oneLine_unexpected {expected : String} (hexpected : OneLine expected)
    {found : Token} (hfound : found = .eof ∨ found.Spellable) (line : Nat) :
    OneLine (unexpected expected found line).text ↔
      ∀ text, found = .string text → OneLine text := by
  rw [oneLine_text]
  rcases hfound with rfl | hspellable
  · have hend : OneLine "unexpected end of input" := by decide
    exact iff_of_true (oneLine_between hend (by decide) hexpected) fun _ e => by cases e
  · have hmessage : (unexpected expected found line).message =
        "unexpected token '" ++ found.spelling ++ "'" ++ ", expected " ++ expected := by
      cases found with
      | eof => exact hspellable.elim
      | ident | int | float | string | keyword | symbol => rfl
    rw [hmessage, oneLine_append, oneLine_append, oneLine_append, oneLine_append,
      and_iff_left hexpected, and_iff_left (by decide), and_iff_left (by decide),
      and_iff_right (by decide), Token.oneLine_spelling hspellable]

theorem Diagnostic.oneLine_of_unexpected {expected text : String} {line : Nat}
    (h : OneLine (unexpected expected (.string text) line).text) : OneLine text := by
  rw [oneLine_text] at h
  have hmessage : OneLine ("unexpected token '" ++ (Token.string text).spelling ++ "'"
    ++ ", expected " ++ expected) := h
  simp only [oneLine_append] at hmessage
  exact (oneLine_quoted text).mp hmessage.1.1.1.2

theorem Diagnostic.oneLine_tooDeep (limit : Nat) (found : Token) (line : Nat) :
    OneLine (tooDeep limit found line).text := by
  rw [oneLine_text]
  exact oneLine_between (by decide) (oneLine_nat limit) (by decide)

section Failure

variable {source : String} {o : Options} {f : Parse.Failure}
  (h : Parse.program o.maxNesting (scan source o).1 = .error f)
include h

/-- What reading stops at is a token of the source, or its end. -/
theorem found_spellable (endLine : Nat) :
    (f.rest.headD ⟨.eof, endLine⟩).token = .eof ∨
      (f.rest.headD ⟨.eof, endLine⟩).token.Spellable := by
  obtain ⟨cause, rest⟩ := f
  cases rest with
  | nil => exact .inl rfl
  | cons l rest =>
    have hl : l ∈ (scan source o).1 := (Parse.suffix_of_error h).subset List.mem_cons_self
    exact .inr (scan_spellable source o l.token (List.mem_map_of_mem hl))

/-- The diagnostic of a failure breaks its line if it says a string literal that does. -/
theorem oneLine_failure (endLine : Nat)
    (hliterals : ∀ expected text line,
      f.diagnostic o.maxNesting endLine = .unexpected expected (.string text) line →
        OneLine text) :
    OneLine (f.diagnostic o.maxNesting endLine).text := by
  have hfound := found_spellable h endLine
  obtain ⟨cause, rest⟩ := f
  cases cause with
  | tooDeep => exact Diagnostic.oneLine_tooDeep _ _ _
  | expected what =>
    refine (Diagnostic.oneLine_unexpected what.oneLine_description hfound _).mpr
      fun text htext => hliterals what.description text (rest.headD ⟨.eof, endLine⟩).line ?_
    rw [← htext]
    rfl

end Failure

/-! ## 3. The whole report -/

namespace Command

/-- **A report has one line for each diagnostic unless a string literal breaks one.** The
    diagnostics of a rejected source keep to their lines if and only if none of them says that a
    string literal with an end of a line in it was not expected. Then, and only then, a run writes
    them line by line, in order, and behind them how many they are. -/
theorem report_keeps_to_lines (source : String) (o : Options) (ds : List Diagnostic)
    (h : parse source o = .error ds) :
    ((∀ d ∈ ds, OneLine d.text) ↔
      ∀ expected text line, Diagnostic.unexpected expected (.string text) line ∈ ds →
        OneLine text) ∧
    ∀ (s : Settings) (opener : Opener), readSource opener s.path = .ok source → s.options = o →
      (linesOf (run s opener).errors =
          ds.map Diagnostic.text ++
            ["Error: parsing failed with " ++ toString ds.length ++ " error(s)", ""] ↔
        ∀ d ∈ ds, OneLine d.text) := by
  refine ⟨⟨fun hall expected text line hmem => ?_, fun hliterals d hd => ?_⟩,
    fun s opener hread hoptions => ?_⟩
  · exact Diagnostic.oneLine_of_unexpected (hall _ hmem)
  · rcases parse_eq_error_iff.mp h with ⟨_, _, _, rfl⟩ | ⟨f, hf, rfl⟩
    · exact oneLine_of_mem_scan hd
    · rcases List.mem_append.mp (Diagnostic.mem_sorted.mp hd) with hscanned | hfailure
      · exact oneLine_of_mem_scan hscanned
      · rw [List.mem_singleton.mp hfailure]
        refine oneLine_failure hf _ fun expected text line he => hliterals expected text line ?_
        rw [← he]
        exact Diagnostic.mem_sorted.mpr (List.mem_append_right _ List.mem_cons_self)
  · have hfile : parseFile opener s.path s.options = .error (.rejected ds) := by
      unfold parseFile
      simp only [hread, hoptions, h]
    have hcount : OneLine ("Error: parsing failed with " ++ toString ds.length ++ " error(s)") :=
      oneLine_between (by decide) (oneLine_nat ds.length) (by decide)
    have hlines : ds.map Diagnostic.text ++
        ["Error: parsing failed with " ++ toString ds.length ++ " error(s)", ""] =
          ds.map Diagnostic.text ++
            ["Error: parsing failed with " ++ toString ds.length ++ " error(s)"] ++ [""] := by
      rw [List.append_assoc, List.singleton_append]
    rw [run_errors, hfile, hlines]
    show linesOf (failureText ds) = _ ↔ _
    rw [failureText_eq, linesOf_ofLines_iff, List.forall_mem_append, List.forall_mem_map,
      List.forall_mem_singleton, and_iff_left hcount]

/-- A string literal that was not expected, and goes on in the next line, breaks the report. -/
theorem report_keeps_to_lines_broken :
    ∃ ds, parse "int f() \x7b return \"a\nb\"; \x7d" ⟨false, 9⟩ = .error ds ∧
      (∃ d ∈ ds, ¬OneLine d.text) ∧
      linesOf (run ⟨"a.cminus", [], 9⟩ fun _ =>
          .ok "int f() \x7b return \"a\nb\"; \x7d".toUTF8).errors ≠
        ds.map Diagnostic.text ++
          ["Error: parsing failed with " ++ toString ds.length ++ " error(s)", ""] := by
  have hfails : (parse "int f() \x7b return \"a\nb\"; \x7d" ⟨false, 9⟩).isOk = false := by
    decide +kernel
  obtain ⟨ds, hds⟩ := exists_error_of_isOk hfails
  have htexts : (reported (parse "int f() \x7b return \"a\nb\"; \x7d" ⟨false, 9⟩)).map
      Diagnostic.text =
        ["Syntax error at line 1: unexpected token '\"a\nb\"', expected an expression"] := by
    decide +kernel
  rw [hds] at htexts
  obtain ⟨_, hreport⟩ := report_keeps_to_lines _ _ ds hds
  have hlines := hreport ⟨"a.cminus", [], 9⟩
    (fun _ => .ok "int f() \x7b return \"a\nb\"; \x7d".toUTF8) (by decide +kernel) rfl
  have hbroken : ∃ d ∈ ds, ¬OneLine d.text := by
    have htext := List.mem_singleton_self
      "Syntax error at line 1: unexpected token '\"a\nb\"', expected an expression"
    rw [← htexts] at htext
    obtain ⟨d, hd, htext⟩ := List.mem_map.mp htext
    refine ⟨d, hd, ?_⟩
    rw [htext]
    decide
  refine ⟨ds, hds, hbroken, fun heq => ?_⟩
  obtain ⟨d, hd, hbreaks⟩ := hbroken
  exact hbreaks (hlines.mp heq d hd)

end Command

end CMinus
