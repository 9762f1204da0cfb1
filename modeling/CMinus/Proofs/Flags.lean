import CMinus.Main
import CMinus.Proofs.Lines
import CMinus.Proofs.Requests

/-!
# Flags: what they show never changes what is said

The flags for showing decide what is written to the first output, and nothing else: the exit code
and the whole second output are those of parsing the file (`run_errors`, `run_exitCode`). Before a
source is judged some lines are written about its characters; the number of faults told there is
that of the faults which parsing finds in them again (`countP_lexical_reported`). Sections about the
program are written when it is accepted; no line of a rejected run heads one (`flags_only_show`).
-/

namespace CMinus

open Scan

/-! ## 1. Faults counted twice -/

/-- A parse reports as many faults of the characters as a scan finds. -/
theorem countP_lexical_reported (source : String) (o : Options) :
    (reported (parse source o)).countP (·.category = .lexical) = (scan source o).2.length := by
  have hordered : Diagnostic.Ordered (scan source o).2 := Diagnostic.ordered_sorted _
  have hlexical : ∀ d ∈ (scan source o).2, d.category = .lexical := fun d hd =>
    Scanner.category_of_mem_diagnostics (Diagnostic.mem_sorted.mp hd)
  have hverdict : parse source o = Scanner.verdict o.maxNesting (Scanner.start source o).endLine
      (scan source o).2 (scan source o).2 (Parse.program o.maxNesting (scan source o).1) := by
    rw [scan_diagnostics]
    exact Scanner.parse_eq_verdict _
  cases hparse : parse source o with
  | ok p =>
    rw [nil_of_verdict_ok (hverdict.symm.trans hparse)]
    rfl
  | error ds =>
    have hreports := reports_of_verdict hordered hlexical (hverdict.symm.trans hparse)
    have hsame : (fun d : Diagnostic => decide (d.category = .lexical)) =
        fun d => decide (d.category ≠ .syntactic) :=
      funext fun d => by cases d.category <;> rfl
    rw [← hreports.complete, List.countP_eq_length_filter, hsame]
    rfl

namespace Command

/-! ## 2. The verdict -/

/-- What is written about an error. -/
def errorText : Error → String
  | .rejected ds => failureText ds
  | e => "Error: " ++ e.message ++ "\n"

/-- A file that is not read is not rejected. -/
theorem readSource_ne_rejected {opener : Opener} {path : String} {ds : List Diagnostic} :
    readSource opener path ≠ .error (.rejected ds) := by
  unfold readSource
  split_ifs
  · split
    · nofun
    · split <;> nofun
  · nofun

/-- The second output is that of parsing the file. -/
theorem run_errors (s : Settings) (opener : Opener) :
    (run s opener).errors = match parseFile opener s.path s.options with
      | .ok _ => ""
      | .error e => errorText e := by
  unfold run parseFile
  cases hread : readSource opener s.path with
  | ok source => cases hparse : parse source s.options <;> simp only [hparse, errorText]
  | error e =>
    cases e with
    | rejected ds => exact absurd hread readSource_ne_rejected
    | _ => rfl

/-- The exit code tells whether the file has a program. -/
theorem run_exitCode (s : Settings) (opener : Opener) :
    (run s opener).exitCode = match parseFile opener s.path s.options with
      | .ok _ => 0
      | .error _ => 1 := by
  unfold run parseFile
  cases hread : readSource opener s.path with
  | ok source => cases hparse : parse source s.options <;> simp only [hparse]
  | error e => rfl

theorem append_ne_empty {front behind : String} (h : behind ≠ "") : front ++ behind ≠ "" := by
  rw [ne_eq, String.append_eq_empty_iff, not_and]
  exact fun _ => h

theorem errorText_ne_empty (e : Error) : errorText e ≠ "" := by
  cases e with
  | rejected ds => exact append_ne_empty (by decide)
  | _ => exact append_ne_empty (by decide)

/-! ## 3. The first output -/

/-- What is written to the first output, given the nanoseconds of each phase. -/
def stdout (s : Settings) (opener : Opener) (times : Phase → Nat) : String :=
  render (fun phase width => secondsText (times phase) width) (run s opener).output

/-- The lines that announce the file. -/
def announced (s : Settings) : List String :=
  if s.has .verbose then linesOf ("Parsing " ++ s.path) else []

/-- The lines about the characters of a source, in which some faults have been found. -/
def early (s : Settings) (source : String) (faults : Nat) (times : Phase → Nat) : List String :=
  (if s.has .verbose then
    ["Read " ++ toString source.utf8ByteSize ++ " bytes from input file",
      "Lexical analysis completed in " ++ secondsText (times .scanning) 0,
      "  Generated " ++ toString (scan source ⟨s.has .strictComments, s.maxNesting⟩).1.length
        ++ " tokens, " ++ toString faults ++ " lexical error(s)"]
  else [])
  ++ if s.has .tokens then
    "" :: "Lexical output:" ::
      (scan source ⟨s.has .strictComments, s.maxNesting⟩).1.map Lexeme.listed
  else []

/-- The line that heads a section about the program. -/
def Flag.heading? : Flag → Option String
  | .outline => some "Abstract Syntax Tree:"
  | .source => some "Canonical source:"
  | .timing => some "Phase timing:"
  | .tokens | .strictComments | .verbose => none

/-- What is written once a source has been judged. -/
def late (s : Settings) (source : String) : List Chunk :=
  match parse source s.options with
  | .error _ => []
  | .ok p => programSection s p ++ timingSection s source p
      ++ when (s.has .verbose) [.text "No errors found.\n"]

section Render

variable (seconds : Phase → Nat → String)

theorem render_append (front behind : List Chunk) :
    render seconds (front ++ behind) = render seconds front ++ render seconds behind := by
  unfold render
  rw [List.map_append, String.join_append]

theorem render_nil : render seconds [] = "" :=
  String.join_nil

theorem render_text (text : String) (behind : List Chunk) :
    render seconds (.text text :: behind) = text ++ render seconds behind :=
  String.join_cons

theorem render_seconds (phase : Phase) (width : Nat) (behind : List Chunk) :
    render seconds (.seconds phase width :: behind) =
      seconds phase width ++ render seconds behind :=
  String.join_cons

/-- The announcement. -/
theorem linesOf_opening (s : Settings) (behind : String) :
    linesOf (render seconds (when (s.has .verbose) [.text ("Parsing " ++ s.path ++ "\n")])
      ++ behind) = announced s ++ linesOf behind := by
  unfold when announced
  split
  · rw [render_text, render_nil, String.append_empty, linesOf_append]
  · rw [render_nil, String.empty_append, List.nil_append]

end Render

theorem run_output {s : Settings} {opener : Opener} {source : String}
    (h : readSource opener s.path = .ok source) :
    (run s opener).output = when (s.has .verbose) [.text ("Parsing " ++ s.path ++ "\n")] ++
      (when (s.has .verbose)
          [.text ("Read " ++ toString source.utf8ByteSize ++ " bytes from input file\n")]
        ++ scanSection s source) ++ late s source := by
  unfold run late
  rw [h]
  cases hparse : parse source s.options with
  | ok p => simp only [hparse, List.append_assoc]
  | error ds => simp only [hparse, List.append_assoc, List.append_nil]

theorem render_listing (seconds : Phase → Nat → String) (lexemes : List Lexeme) :
    render seconds (.text "\nLexical output:\n" :: lexemes.map fun l => .text (l.listed ++ "\n")) =
      ofLines ("" :: "Lexical output:" :: lexemes.map Lexeme.listed) := by
  have hheading : "\nLexical output:\n" = "" ++ "\n" ++ ("Lexical output:" ++ "\n") := by
    decide
  have hlisting : render seconds (lexemes.map fun l => .text (l.listed ++ "\n")) =
      ofLines (lexemes.map Lexeme.listed) := by
    unfold render ofLines
    rw [List.map_map, List.map_map]
    rfl
  rw [render_text, hlisting, ofLines_cons, ofLines_cons, hheading, String.append_assoc]

/-- What is told of the characters before a source is judged is told line by line. -/
theorem render_early (s : Settings) (source : String) (times : Phase → Nat) :
    render (fun phase width => secondsText (times phase) width)
        (when (s.has .verbose)
            [.text ("Read " ++ toString source.utf8ByteSize ++ " bytes from input file\n")]
          ++ scanSection s source) =
      ofLines (early s source (scan source s.options).2.length times) := by
  have hread : " bytes from input file\n" = " bytes from input file" ++ "\n" := by decide
  have hcount : "\n  Generated " = "\n" ++ "  Generated " := by decide
  have hfaults : " lexical error(s)\n" = " lexical error(s)" ++ "\n" := by decide
  unfold early scanSection when Settings.options
  simp only [render_append, ofLines_append]
  rw [← String.append_assoc]
  congr 1
  · cases s.has .verbose with
    | false => rfl
    | true =>
      simp only [if_true, render_text, render_seconds, render_nil, ofLines_cons, ofLines_nil]
      rw [hread, hcount, hfaults]
      simp only [String.append_assoc, String.append_empty]
  · cases s.has .tokens with
    | false => rfl
    | true => exact render_listing _ _

/-! ## 4. Lines and headings -/

theorem oneLine_secondsText (nanoseconds width : Nat) :
    OneLine (secondsText nanoseconds width) := by
  have hdrop : ∀ n : Nat, '\n' ∉ (toString n).toList.drop 1 := fun n h =>
    oneLine_nat n (List.mem_of_mem_drop h)
  unfold secondsText
  refine oneLine_append.mpr ⟨oneLine_padLeft ?_ width, by decide⟩
  exact oneLine_between (oneLine_nat _) (by decide) (oneLine_ofList.mpr (hdrop _))

/-- The text holds a digit. -/
def Numbered (text : String) : Prop :=
  text.toList.any isDigit = true

theorem numbered_nat (n : Nat) : Numbered (toString n) := by
  have hdigits : (toString n).toList = Nat.toDigits 10 n := Nat.toList_repr
  obtain ⟨hne, hall⟩ := digits_toDigits n
  obtain ⟨c, hmem⟩ := List.exists_mem_of_ne_nil _ hne
  unfold Numbered
  rw [hdigits]
  exact List.any_eq_true.mpr ⟨c, hmem, hall c hmem⟩

theorem Numbered.front {text : String} (h : Numbered text) (behind : String) :
    Numbered (text ++ behind) := by
  unfold Numbered at h ⊢
  rw [String.toList_append, List.any_append, h, Bool.true_or]

theorem Numbered.behind {text : String} (h : Numbered text) (front : String) :
    Numbered (front ++ text) := by
  unfold Numbered at h ⊢
  rw [String.toList_append, List.any_append, h, Bool.or_true]

theorem numbered_padLeft {text : String} (h : Numbered text) (width : Nat) :
    Numbered (padLeft width text) :=
  h.behind _

theorem numbered_secondsText (nanoseconds width : Nat) :
    Numbered (secondsText nanoseconds width) :=
  (numbered_padLeft (((numbered_nat _).front _).front _) width).front _

theorem numbered_listed (l : Lexeme) : Numbered l.listed :=
  ((numbered_padLeft (numbered_nat _) 4).front _).front _

/-- A line about the characters stays on its line, and some number stands in it unless it is one of
    the two above the listing. -/
theorem early_cases {s : Settings} {source : String} {faults : Nat} {times : Phase → Nat}
    {l : String} (h : l ∈ early s source faults times) :
    OneLine l ∧ (Numbered l ∨ l = "" ∨ l = "Lexical output:") := by
  unfold early at h
  rcases List.mem_append.mp h with h | h
  · split at h
    · simp only [List.mem_cons, List.not_mem_nil, or_false] at h
      obtain rfl | rfl | rfl := h
      · exact ⟨oneLine_between (by decide) (oneLine_nat _) (by decide),
          .inl (((numbered_nat _).behind _).front _)⟩
      · exact ⟨oneLine_append.mpr ⟨by decide, oneLine_secondsText _ _⟩,
          .inl (Numbered.behind (numbered_secondsText _ _) _)⟩
      · refine ⟨oneLine_between ?_ (oneLine_nat _) (by decide),
          .inl (((numbered_nat _).behind _).front _)⟩
        exact oneLine_between (by decide) (oneLine_nat _) (by decide)
    · cases h
  · split at h
    · simp only [List.mem_cons, List.mem_map] at h
      obtain rfl | rfl | ⟨lexeme, _, rfl⟩ := h
      · exact ⟨by decide, .inr (.inl rfl)⟩
      · exact ⟨by decide, .inr (.inr rfl)⟩
      · exact ⟨lexeme.oneLine_listed, .inl (numbered_listed lexeme)⟩
    · cases h

/-- The lines of the first output. -/
theorem linesOf_stdout {s : Settings} {opener : Opener} {source : String} (times : Phase → Nat)
    (h : readSource opener s.path = .ok source) :
    linesOf (stdout s opener times) = announced s ++
      (early s source (scan source s.options).2.length times ++
        linesOf (render (fun phase width => secondsText (times phase) width) (late s source))) := by
  unfold stdout
  rw [run_output h, render_append, render_append, render_early, String.append_assoc,
    linesOf_opening, linesOf_ofLines fun l hl => (early_cases hl).1]

/-- A heading has a line of its own. -/
theorem heading_mem_linesOf {seconds : Phase → Nat → String} {chunks : List Chunk}
    {text heading behind : String} (htext : text = "\n" ++ heading ++ "\n" ++ behind)
    (hline : OneLine heading) (h : .text text ∈ chunks) :
    heading ∈ linesOf (render seconds chunks) := by
  obtain ⟨before, after, rfl⟩ := List.append_of_mem h
  have hrender : render seconds (before ++ .text text :: after) =
      render seconds before ++ "\n" ++
        (heading ++ "\n" ++ (behind ++ render seconds after)) := by
    rw [render_append, render_text, htext]
    simp only [String.append_assoc]
  rw [hrender, linesOf_append, linesOf_append, linesOf_of_oneLine hline]
  exact List.mem_append_right _ (List.mem_append_left _ List.mem_cons_self)

/-- An accepted program has the sections that are asked for. -/
theorem heading_mem_late {s : Settings} {source : String} {p : Program}
    (seconds : Phase → Nat → String) (hparse : parse source s.options = .ok p) {f : Flag}
    {heading : String} (hf : f.heading? = some heading) (hflag : s.has f = true) :
    heading ∈ linesOf (render seconds (late s source)) := by
  unfold late
  rw [hparse]
  cases f with
  | outline =>
    obtain rfl := Option.some.inj hf
    have htext : "\nAbstract Syntax Tree:\n" = "\n" ++ "Abstract Syntax Tree:" ++ "\n" ++ "" := by
      decide
    refine heading_mem_linesOf htext (by decide) ?_
    simp [programSection, when, hflag]
  | source =>
    obtain rfl := Option.some.inj hf
    have htext : "\nCanonical source:\n" = "\n" ++ "Canonical source:" ++ "\n" ++ "" := by decide
    refine heading_mem_linesOf htext (by decide) ?_
    simp [programSection, when, hflag]
  | timing =>
    obtain rfl := Option.some.inj hf
    have htext : "\nPhase timing:\n  Lexical analysis   " =
        "\n" ++ "Phase timing:" ++ "\n" ++ "  Lexical analysis   " := by
      decide
    refine heading_mem_linesOf htext (by decide) ?_
    simp [timingSection, when, hflag]
  | _ => cases hf

/-- A heading holds no digit, and is neither of the two lines of the listing that hold none. -/
theorem heading_cases {f : Flag} {heading : String} (hf : f.heading? = some heading) :
    ¬Numbered heading ∧ heading ≠ "" ∧ heading ≠ "Lexical output:" := by
  have hall : ∀ text ∈ ["Abstract Syntax Tree:", "Canonical source:", "Phase timing:"],
      ¬text.toList.any isDigit = true ∧ text ≠ "" ∧ text ≠ "Lexical output:" := by
    decide
  cases f with
  | outline => exact hall _ (by rw [← Option.some.inj hf]; decide)
  | source => exact hall _ (by rw [← Option.some.inj hf]; decide)
  | timing => exact hall _ (by rw [← Option.some.inj hf]; decide)
  | _ => cases hf

/-- No line about the characters heads a section. -/
theorem heading_notMem_early {f : Flag} {heading : String} (hf : f.heading? = some heading)
    (s : Settings) (source : String) (faults : Nat) (times : Phase → Nat) :
    heading ∉ early s source faults times := by
  obtain ⟨hnumbered, hblank, hlisting⟩ := heading_cases hf
  intro hmem
  obtain ⟨_, h | h | h⟩ := early_cases hmem
  · exact hnumbered h
  · exact hblank h
  · exact hlisting h

/-! ## 5. What flags change -/

/-- The file is read, and what it holds is accepted, open comments being reported if the flag for
    that is set, and under the limit that is given. -/
def Accepts (s : Settings) (opener : Opener) : Prop :=
  ∃ source p, readSource opener s.path = .ok source ∧
    parse source ⟨s.has .strictComments, s.maxNesting⟩ = .ok p

section Verdict

variable {s : Settings} {opener : Opener} {source : String}

theorem accepts_iff : Accepts s opener ↔ ∃ p, parseFile opener s.path s.options = .ok p := by
  unfold Accepts parseFile Settings.options
  cases hread : readSource opener s.path with
  | error e => simp
  | ok source =>
    cases hparse : parse source ⟨s.has .strictComments, s.maxNesting⟩ <;> simp [hparse]

/-- The second output tells all diagnostics, each on lines of its own, and how many they are. -/
theorem failureText_eq (ds : List Diagnostic) :
    failureText ds = ofLines (ds.map Diagnostic.text ++
      ["Error: parsing failed with " ++ toString ds.length ++ " error(s)"]) := by
  have hend : " error(s)\n" = " error(s)" ++ "\n" := by decide
  have htexts : String.join (ds.map fun d => d.text ++ "\n")
      = ofLines (ds.map Diagnostic.text) := by
    rw [ofLines, List.map_map]
    rfl
  unfold failureText
  rw [htexts, hend, ofLines_append, ofLines_cons, ofLines_nil]
  simp only [String.append_assoc, String.append_empty]

variable (times : Phase → Nat)

/-- A file that is not read is announced. -/
theorem linesOf_stdout_unread {e : Error} (h : readSource opener s.path = .error e) :
    linesOf (stdout s opener times) = announced s ++ [""] := by
  have houtput : (run s opener).output =
      when (s.has .verbose) [.text ("Parsing " ++ s.path ++ "\n")] := by
    unfold run
    rw [h]
  have hlines := linesOf_opening (fun phase width => secondsText (times phase) width) s ""
  rw [String.append_empty] at hlines
  unfold stdout
  rw [houtput, hlines]
  rfl

/-- Nothing is written behind the lines about the characters of a rejected source. -/
theorem linesOf_stdout_rejected (hread : readSource opener s.path = .ok source)
    {ds : List Diagnostic} (hparse : parse source s.options = .error ds) :
    linesOf (stdout s opener times) =
      announced s ++ early s source (scan source s.options).2.length times ++ [""] := by
  have hlate : late s source = [] := by
    unfold late
    rw [hparse]
  rw [linesOf_stdout times hread, hlate, render_nil, List.append_assoc]
  rfl

end Verdict

/-- **The flags for showing change the first output only.** Whatever they say, a run on the same
    file under the same options ends with the same exit code and writes the same to the second
    output: zero and nothing for an accepted file, one and something for any other. Of a rejected
    source these are its diagnostics in the order of the parser, and their number; and the lines of
    the first output are those that announce the file and tell of its characters, none of which
    heads a section about the program. For an accepted one the sections follow that are asked for.
    The faults of the characters that are told there are as many as the parser reports. -/
theorem flags_only_show (s : Settings) (opener : Opener) (times : Phase → Nat) :
    (∀ t : Settings, t.path = s.path → t.has .strictComments = s.has .strictComments →
      t.maxNesting = s.maxNesting →
        (run t opener).exitCode = (run s opener).exitCode ∧
          (run t opener).errors = (run s opener).errors) ∧
    (Accepts s opener → (run s opener).exitCode = 0 ∧ (run s opener).errors = "") ∧
    (¬Accepts s opener → (run s opener).exitCode = 1 ∧ (run s opener).errors ≠ "") ∧
    (∀ e, readSource opener s.path = .error e →
      linesOf (stdout s opener times) = announced s ++ [""]) ∧
    ∀ source, readSource opener s.path = .ok source →
      let options : Options := ⟨s.has .strictComments, s.maxNesting⟩
      let faults := (reported (parse source options)).countP (·.category = .lexical)
      let told := early s source faults times
      (s.has .verbose = true →
        "  Generated " ++ toString (scan source options).1.length ++ " tokens, "
          ++ toString faults ++ " lexical error(s)" ∈ told) ∧
      (∀ f heading, Flag.heading? f = some heading → heading ∉ told) ∧
      (∀ ds, parse source options = .error ds →
        (run s opener).errors = ofLines (ds.map Diagnostic.text ++
          ["Error: parsing failed with " ++ toString ds.length ++ " error(s)"]) ∧
        linesOf (stdout s opener times) = announced s ++ told ++ [""]) ∧
      ∀ p, parse source options = .ok p →
        ∃ sections, linesOf (stdout s opener times) = announced s ++ told ++ sections ∧
          ∀ f heading, Flag.heading? f = some heading → s.has f = true → heading ∈ sections := by
  refine ⟨fun t hpath hstrict hlimit => ?_, fun haccepts => ?_, fun hrejects => ?_,
    fun e => linesOf_stdout_unread times, fun source hread => ?_⟩
  · have hoptions : t.options = s.options := by
      unfold Settings.options
      rw [hstrict, hlimit]
    rw [run_exitCode, run_exitCode, run_errors, run_errors, hpath, hoptions]
    exact ⟨rfl, rfl⟩
  · obtain ⟨p, hp⟩ := accepts_iff.mp haccepts
    rw [run_exitCode, run_errors, hp]
    exact ⟨rfl, rfl⟩
  · cases hfile : parseFile opener s.path s.options with
    | ok p => exact absurd (accepts_iff.mpr ⟨p, hfile⟩) hrejects
    | error e =>
      rw [run_exitCode, run_errors, hfile]
      exact ⟨rfl, errorText_ne_empty e⟩
  · intro options faults told
    have htold : told = early s source (scan source s.options).2.length times :=
      congrArg (early s source · times) (countP_lexical_reported source s.options)
    refine ⟨fun hverbose => ?_, fun f heading hf => heading_notMem_early hf s source faults times,
      fun ds hds => ⟨?_, ?_⟩, fun p hp => ?_⟩
    · show _ ∈ early s source faults times
      unfold early
      rw [if_pos hverbose]
      exact List.mem_append_left _ (List.mem_of_getElem? (i := 2) rfl)
    · have hparse : parse source s.options = .error ds := hds
      have hfile : parseFile opener s.path s.options = .error (.rejected ds) := by
        unfold parseFile
        simp only [hread, hparse]
      rw [run_errors, hfile]
      exact failureText_eq ds
    · rw [htold]
      exact linesOf_stdout_rejected times hread hds
    · rw [htold]
      refine ⟨_, (linesOf_stdout times hread).trans (List.append_assoc _ _ _).symm,
        fun f heading hf hflag => heading_mem_late _ hp hf hflag⟩

/-- A source that is nested too deep for a limit of one, and ends in a comment that is never
    closed. -/
def deepAndOpen : String := "int f() \x7b\nx = (1); \x7d\n/*"

theorem parse_deepAndOpen : parse deepAndOpen ⟨true, 1⟩ = .error
    [.tooDeep 1 (.symbol .lparen) 2, .lexical "unterminated block comment" "/*" 3] := by
  have hscanned : (scan deepAndOpen ⟨true, 1⟩).2 =
      [.lexical "unterminated block comment" "/*" 3] := by decide +kernel
  have hfails : Parse.program 1 (scan deepAndOpen ⟨true, 1⟩).1 =
      .error ⟨.tooDeep, (scan deepAndOpen ⟨true, 1⟩).1.drop 7⟩ := by with_unfolding_all rfl
  have hfailure : Parse.Failure.diagnostic 1 (Scanner.start deepAndOpen ⟨true, 1⟩).endLine
      ⟨.tooDeep, (scan deepAndOpen ⟨true, 1⟩).1.drop 7⟩ = .tooDeep 1 (.symbol .lparen) 2 := by
    decide +kernel
  refine parse_eq_error_iff.mpr (.inr ⟨_, hfails, ?_⟩)
  rw [hscanned, hfailure]
  exact (Diagnostic.sorted_concat_of_lt (List.pairwise_singleton _ _) (by decide)).symm

/-- Under the strict flag and that limit the file is rejected for both, with and without the flags
    for showing; without the strict flag and under a limit of two it is accepted. -/
theorem flags_only_show_both :
    (run ⟨"a.cminus", [.strictComments], 1⟩ fun _ => .ok deepAndOpen.toUTF8).exitCode = 1 ∧
    (run ⟨"a.cminus", [.strictComments], 1⟩ fun _ => .ok deepAndOpen.toUTF8).errors =
      (run ⟨"a.cminus", [.strictComments, .verbose], 1⟩ fun _ =>
        .ok deepAndOpen.toUTF8).errors ∧
    (run ⟨"a.cminus", [.strictComments, .verbose], 1⟩ fun _ => .ok deepAndOpen.toUTF8).errors =
      "Syntax error at line 2: input nested deeper than 1 levels\n"
        ++ "Lexical error at line 3: unterminated block comment\n"
        ++ "Error: parsing failed with 2 error(s)\n" ∧
    "  Generated 12 tokens, 1 lexical error(s)" ∈ linesOf (stdout
      ⟨"a.cminus", [.strictComments, .verbose], 1⟩ (fun _ => .ok deepAndOpen.toUTF8) fun _ => 0) ∧
    (run ⟨"a.cminus", [.verbose, .outline], 2⟩ fun _ => .ok deepAndOpen.toUTF8).exitCode = 0 ∧
    "Abstract Syntax Tree:" ∈ linesOf (stdout
      ⟨"a.cminus", [.verbose, .outline], 2⟩ (fun _ => .ok deepAndOpen.toUTF8) fun _ => 0) := by
  obtain ⟨hsame, _, _, _, hrejected⟩ := flags_only_show
    ⟨"a.cminus", [.strictComments, .verbose], 1⟩ (fun _ => .ok deepAndOpen.toUTF8) fun _ => 0
  obtain ⟨_, haccepts, _, _, haccepted⟩ := flags_only_show
    ⟨"a.cminus", [.verbose, .outline], 2⟩ (fun _ => .ok deepAndOpen.toUTF8) fun _ => 0
  have hread : readSource (fun _ => .ok deepAndOpen.toUTF8) "a.cminus" = .ok deepAndOpen := by
    decide +kernel
  obtain ⟨hcode, herrors⟩ := hsame ⟨"a.cminus", [.strictComments], 1⟩ rfl rfl rfl
  obtain ⟨htold, _, hreport, _⟩ := hrejected deepAndOpen hread
  obtain ⟨hreported, hlines⟩ := hreport _ parse_deepAndOpen
  obtain ⟨p, hp⟩ := exists_ok_of_isOk
    (show (parse deepAndOpen ⟨false, 2⟩).isOk = true by decide +kernel)
  refine ⟨hcode.trans (by decide +kernel), herrors, hreported.trans (by decide +kernel), ?_,
    (haccepts ⟨deepAndOpen, p, hread, hp⟩).1, ?_⟩
  · have hcounts : "  Generated 12 tokens, 1 lexical error(s)" = "  Generated "
        ++ toString (scan deepAndOpen ⟨true, 1⟩).1.length ++ " tokens, "
        ++ toString ((reported (parse deepAndOpen ⟨true, 1⟩)).countP (·.category = .lexical))
        ++ " lexical error(s)" := by
      rw [parse_deepAndOpen]
      decide +kernel
    rw [hlines, hcounts]
    exact List.mem_append_left _ (List.mem_append_right _ (htold rfl))
  · obtain ⟨_, _, _, hsections⟩ := haccepted deepAndOpen hread
    obtain ⟨sections, hshown, hheadings⟩ := hsections p hp
    rw [hshown]
    exact List.mem_append_right _ (hheadings .outline _ rfl rfl)

end Command

end CMinus
