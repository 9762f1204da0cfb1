import CMinus.Proofs.Munch
import CMinus.Proofs.Requests

/-!
# LineNumbers: lines are counted, none is lost

A scanner that has been asked for something has passed some of the segments of its source, and
nothing else has happened to it (`Scanner.Passed`). What it hands out next is the first token behind
the segments that it skips, on the line that these end on, or the end mark on the line that the
source ends on (`Scanner.Hands`). Both are told by what one request does and hold along every run
(`Scanner.next_hands`, `Scanner.pull_passed`).

So the line of a scanner, of a token and of a diagnostic is one more than the lines that end in
front of it (`lines_exact`), whatever these lines end in: blanks, comments or strings.
-/

namespace CMinus

namespace Scan

/-! ## 1. Segments in a row -/

/-- The line behind the first segments of a source. -/
def lineBehind (front : List Segment) : Nat :=
  1 + (front.flatMap Segment.text).count '\n'

theorem place_append (line : Nat) (front behind : List Segment) :
    place line (front ++ behind) =
      place line front ++ place (line + (front.flatMap Segment.text).count '\n') behind := by
  induction front generalizing line with
  | nil => rfl
  | cons s front ih =>
    rw [List.cons_append, place, place, ih, List.flatMap_cons, List.count_append,
      Segment.lineBreaks, Nat.add_assoc, List.cons_append]

/-- A placed segment stands on the line behind those in front of it. -/
theorem exists_of_mem_place {line : Nat} {ss : List Segment} {p : Placed}
    (h : p ∈ place line ss) :
    ∃ front ahead, ss = front ++ p.segment :: ahead ∧
      p.line = line + (front.flatMap Segment.text).count '\n' := by
  induction ss generalizing line with
  | nil => cases h
  | cons s ss ih =>
    rcases List.mem_cons.mp h with rfl | h
    · exact ⟨[], ss, rfl, rfl⟩
    · obtain ⟨front, ahead, hss, hline⟩ := ih h
      refine ⟨s :: front, ahead, by rw [hss, List.cons_append], ?_⟩
      rw [hline, List.flatMap_cons, List.count_append, Segment.lineBreaks, Nat.add_assoc]

/-! ## 2. Segments passed -/

namespace Scanner

/-- From one place to another a scanner has passed these segments: it has counted the lines that end
    in them, has met the diagnostics of those among them, and nothing else has happened to it. -/
structure Passed (s : Scanner) (front : List Segment) (t : Scanner) : Prop where
  cut : segments s.rest = front ++ segments t.rest
  line : t.line = s.line + (front.flatMap Segment.text).count '\n'
  pending : t.pending =
    s.pending ++ (place s.line front).filterMap (Placed.diagnostic? s.options.strictComments)
  options : t.options = s.options

theorem Passed.refl (s : Scanner) : s.Passed [] s where
  cut := rfl
  line := rfl
  pending := (List.append_nil _).symm
  options := rfl

theorem Passed.trans {s t u : Scanner} {front behind : List Segment} (h : s.Passed front t)
    (h' : t.Passed behind u) : s.Passed (front ++ behind) u where
  cut := by rw [h.cut, h'.cut, List.append_assoc]
  line := by rw [h'.line, h.line, List.flatMap_append, List.count_append, Nat.add_assoc]
  pending := by
    rw [h'.pending, h.pending, h.options, h.line, place_append, List.filterMap_append,
      List.append_assoc]
  options := h'.options.trans h.options

/-- One segment. -/
theorem passed_pass {s : Scanner} {c : Char} {cs : List Char} (h : s.rest = c :: cs) :
    s.Passed [(Scan.cut c cs).1] (s.pass (Scan.cut c cs).1 (Scan.cut c cs).2) where
  cut := by
    rw [h, segments]
    rfl
  line := by
    rw [List.flatMap_singleton]
    rfl
  pending := by
    show _ ++ Option.toList _ = _
    rw [place, place, List.filterMap_cons, Placed.diagnostic?]
    cases (Scan.cut c cs).1.diagnostic? s.options.strictComments s.line <;> rfl
  options := rfl

/-- The segments and the rest behind them are the text. -/
theorem Passed.text {s t : Scanner} {front : List Segment} (h : s.Passed front t) :
    front.flatMap Segment.text ++ t.rest = s.rest := by
  rw [← segments_flatMap_text s.rest, h.cut, List.flatMap_append, segments_flatMap_text]

/-! ## 3. Tokens handed out -/

/-- A token is handed out behind segments that are skipped, on the line behind them; the end mark
    behind all segments, on the line behind them. -/
inductive Hands (s : Scanner) : Lexeme → Scanner → Prop
  | token {skipped : List Segment} {t : Token} {text : List Char} {behind : Scanner}
      (passed : s.Passed (skipped ++ [.token t text]) behind) :
      Hands s ⟨t, s.line + (skipped.flatMap Segment.text).count '\n'⟩ behind
  | eof {skipped : List Segment} {behind : Scanner} (passed : s.Passed skipped behind)
      (done : behind.rest = []) : Hands s ⟨.eof, behind.line⟩ behind

theorem Hands.passed {s behind : Scanner} {l : Lexeme} (h : s.Hands l behind) :
    ∃ front, s.Passed front behind := by
  cases h with
  | token passed => exact ⟨_, passed⟩
  | eof passed => exact ⟨_, passed⟩

/-- Further segments are skipped. -/
theorem Hands.skip {s t behind : Scanner} {l : Lexeme} {front : List Segment}
    (h : s.Passed front t) (h' : t.Hands l behind) : s.Hands l behind := by
  cases h' with
  | eof passed done => exact .eof (h.trans passed) done
  | @token skipped _ _ _ passed =>
    have hline : t.line + (skipped.flatMap Segment.text).count '\n' =
        s.line + ((front ++ skipped).flatMap Segment.text).count '\n' := by
      rw [h.line, List.flatMap_append, List.count_append, Nat.add_assoc]
    rw [hline]
    have hpassed := h.trans passed
    rw [← List.append_assoc] at hpassed
    exact .token hpassed

theorem Hands.le_line {s behind : Scanner} {l : Lexeme} (h : s.Hands l behind) :
    s.line ≤ l.line ∧ l.line ≤ behind.line := by
  cases h with
  | eof passed => exact ⟨by rw [passed.line]; exact Nat.le_add_right _ _, Nat.le_refl _⟩
  | token passed =>
    refine ⟨Nat.le_add_right _ _, ?_⟩
    rw [passed.line, List.flatMap_append, List.count_append, ← Nat.add_assoc]
    exact Nat.le_add_right _ _

/-- **One token**: what is handed out next. -/
theorem next_hands (s : Scanner) : s.Hands s.next.1 s.next.2 := by
  fun_induction next s with
  | case1 s h => exact .eof (Passed.refl s) h
  | case2 s c cs h behind t ht =>
    -- nothing is skipped in front of the token
    have hpassed := passed_pass h
    cases hcut : (Scan.cut c cs).1 with
    | token t' text =>
      rw [hcut] at ht
      obtain rfl := Option.some.inj ht
      rw [hcut] at hpassed
      have hbehind : behind = s.pass (.token t' text) (Scan.cut c cs).2 := by rw [← hcut]
      rw [hbehind]
      exact @Hands.token s [] t' text _ hpassed
    | _ =>
      rw [hcut] at ht
      cases ht
  | case3 s c cs h behind _ ih => exact ih.skip (passed_pass h)

/-- **Tokens in a row**: some segments have been passed, and nothing else has happened. -/
theorem pull_passed (k : Nat) (s : Scanner) : ∃ front, s.Passed front (s.pull k).2 := by
  induction k generalizing s with
  | zero => exact ⟨[], Passed.refl s⟩
  | succ k ih =>
    obtain ⟨front, hfront⟩ := (next_hands s).passed
    obtain ⟨behind, hbehind⟩ := ih s.next.2
    exact ⟨front ++ behind, hfront.trans hbehind⟩

/-- What is handed out behind other tokens. -/
theorem pull_hands (k : Nat) (s : Scanner) : s.Hands (s.pull k).2.next.1 (s.pull (k + 1)).2 := by
  obtain ⟨front, hfront⟩ := pull_passed k s
  have hnext := (next_hands (s.pull k).2).skip hfront
  rw [pull_add k 1]
  exact hnext

end Scanner

/-! ## 4. Lines along a run -/

/-- The token, or the end mark, that an answer hands out. -/
def Answer.lexeme? : Answer → Option Lexeme
  | .token l => some l
  | .item l => l
  | .shown _ | .taken _ | .options _ => none

namespace Scanner

/-- What an answer hands out is what comes next. -/
theorem serve_lexeme {s : Scanner} {r : Request} {l : Lexeme}
    (h : (s.serve r).1.lexeme? = some l) :
    l = s.next.1 ∧ (s.serve r).2 = s.next.2 ∧ r.pulls = true := by
  cases r with
  | token =>
    obtain rfl := Option.some.inj h
    exact ⟨rfl, rfl, rfl⟩
  | item =>
    have hhead : s.lexemes.head? = some l := (congrArg Prod.fst (next?_eq s)).symm.trans h
    refine ⟨?_, congrArg Prod.snd (next?_eq s), rfl⟩
    rw [next_fst, hhead]
    rfl
  | _ => cases h

/-- One request: no line is passed that is not counted, and what is handed out stands between. -/
theorem serve_le_line (s : Scanner) (r : Request) :
    s.line ≤ (s.serve r).2.line ∧
      ∀ l, (s.serve r).1.lexeme? = some l → s.line ≤ l.line ∧ l.line ≤ (s.serve r).2.line := by
  have hnext := (next_hands s).le_line
  refine ⟨?_, fun l hl => ?_⟩
  · have hitem : (s.serve .item).2 = s.next.2 := congrArg Prod.snd (next?_eq s)
    cases r with
    | token => exact Nat.le_trans hnext.1 hnext.2
    | item => rw [hitem]; exact Nat.le_trans hnext.1 hnext.2
    | _ => exact Nat.le_refl s.line
  · obtain ⟨rfl, hbehind, _⟩ := serve_lexeme hl
    rw [hbehind]
    exact hnext

/-- All requests: what is handed out later stands on the same line or on a later one. -/
theorem run_lines (s : Scanner) (requests : List Request) :
    (∀ l ∈ (s.run requests).1.filterMap Answer.lexeme?, s.line ≤ l.line) ∧
      ((s.run requests).1.filterMap Answer.lexeme?).Pairwise fun a b => a.line ≤ b.line := by
  induction requests generalizing s with
  | nil => exact ⟨List.forall_mem_nil _, List.Pairwise.nil⟩
  | cons r rest ih =>
    obtain ⟨hline, hserve⟩ := serve_le_line s r
    obtain ⟨hlow, hpairwise⟩ := ih (s.serve r).2
    have hrun : (s.run (r :: rest)).1 = (s.serve r).1 :: ((s.serve r).2.run rest).1 := rfl
    rw [hrun]
    cases hl : (s.serve r).1.lexeme? with
    | none =>
      rw [List.filterMap_cons_none hl]
      exact ⟨fun l hmem => Nat.le_trans hline (hlow l hmem), hpairwise⟩
    | some l =>
      rw [List.filterMap_cons_some hl]
      obtain ⟨hfirst, hlast⟩ := hserve l hl
      refine ⟨List.forall_mem_cons.mpr ⟨hfirst, fun m hm => Nat.le_trans hline (hlow m hm)⟩, ?_⟩
      exact List.pairwise_cons.mpr ⟨fun m hm => Nat.le_trans hlast (hlow m hm), hpairwise⟩

end Scanner

end Scan

/-! ## 5. Lines of a source -/

open Scan

/-- What is left of a source starts where a character of it starts, or at its end. -/
theorem isValid_rawEndPos {source : String} {front behind : List Char}
    (h : front ++ behind = source.toList) : (String.ofList front).rawEndPos.IsValid source := by
  refine String.Pos.Raw.isValid_iff_exists_append.mpr
    ⟨String.ofList front, String.ofList behind, ?_, rfl⟩
  rw [← String.ofList_append, h, String.ofList_toList]

section Source

variable (source : String) (o : Options) (requests : List Request)

/-- The place behind some requests, and the diagnostics that have been met there. -/
theorem ask_passed :
    ∃ front, Tokenised source.toList (front ++ segments (ask source o requests).2.rest) ∧
      front.flatMap Segment.text ++ (ask source o requests).2.rest = source.toList ∧
      (ask source o requests).2.line = lineBehind front ∧
      carried (ask source o requests).1 ++ (ask source o requests).2.pending =
        (place 1 front).filterMap (Placed.diagnostic? o.strictComments) := by
  obtain ⟨front, hfront⟩ := Scanner.pull_passed (pulls requests) (Scanner.start source o)
  rw [← ask_giveBack] at hfront
  exact ⟨front, tokenised_iff.mpr hfront.cut, hfront.text, hfront.line, hfront.pending⟩

variable {requests} {i : Nat} {a : Answer} {l : Lexeme}

/-- An answer hands out what follows the tokens that were asked for before. -/
theorem ask_lexeme (ha : (ask source o requests).1[i]? = some a) (hl : a.lexeme? = some l) :
    l = ((Scanner.start source o).pull (pulls (requests.take i))).2.next.1 ∧
      (ask source o (requests.take (i + 1))).2.rest =
        ((Scanner.start source o).pull (pulls (requests.take i) + 1)).2.rest := by
  unfold ask at ha
  rw [Scanner.run_getElem?] at ha
  obtain ⟨r, hr, rfl⟩ := Option.map_eq_some_iff.mp ha
  obtain ⟨hnext, _, hpulls⟩ := Scanner.serve_lexeme hl
  have hcount : pulls (requests.take (i + 1)) = pulls (requests.take i) + 1 := by
    unfold pulls
    rw [List.take_add_one, hr, List.countP_append]
    exact congrArg _ (List.countP_cons_of_pos hpulls)
  refine ⟨?_, ?_⟩
  · rw [hnext, ← ask_giveBack, Scanner.next_giveBack]
    rfl
  · rw [← hcount, ← ask_giveBack]
    rfl

/-- What an answer hands out, and the place behind it. -/
theorem ask_hands (ha : (ask source o requests).1[i]? = some a) (hl : a.lexeme? = some l) :
    (l = ⟨.eof, 1 + source.toList.count '\n'⟩ ∧
        (ask source o (requests.take (i + 1))).2.rest = []) ∨
      ∃ front text ahead, Tokenised source.toList (front ++ .token l.token text :: ahead) ∧
        l.line = lineBehind front ∧
        ahead.flatMap Segment.text = (ask source o (requests.take (i + 1))).2.rest := by
  obtain ⟨hlexeme, hrest⟩ := ask_lexeme source o ha hl
  have hhands := Scanner.pull_hands (pulls (requests.take i)) (Scanner.start source o)
  rw [← hlexeme] at hhands
  rw [hrest]
  generalize ((Scanner.start source o).pull (pulls (requests.take i) + 1)).2 = behind at hhands ⊢
  cases hhands with
  | eof passed done =>
    have htext := passed.text
    rw [done, List.append_nil] at htext
    refine .inl ⟨?_, done⟩
    rw [passed.line, htext]
    rfl
  | @token skipped _ text _ passed =>
    refine .inr ⟨skipped, text, segments behind.rest, tokenised_iff.mpr ?_, rfl,
      segments_flatMap_text _⟩
    rw [← List.singleton_append, ← List.append_assoc]
    exact passed.cut

end Source

theorem lineBehind_le {cs : List Char} {front ahead : List Segment}
    (h : Tokenised cs (front ++ ahead)) : lineBehind front ≤ 1 + cs.count '\n' := by
  have htext := segments_flatMap_text cs
  rw [tokenised_iff.mp h, List.flatMap_append] at htext
  rw [lineBehind, ← htext, List.count_append]
  exact Nat.add_le_add_left (Nat.le_add_right _ _) 1

/-- **Lines are exact.** Wherever a scanner stands after any requests, it has passed some of the
    segments of the source, to where a character of it starts or to its end, and stands on the line
    behind them. A token that it hands out is on the line behind the segments in front of it,
    whatever it spans itself; the end mark is on the line behind all of them. Each diagnostic that
    it has met, taken since or not, is on the line of the first character of the segment that gives
    it. So the lines of what it hands out never decrease, and none lies behind the end of the
    source. -/
theorem lines_exact (source : String) (o : Options) (requests : List Request) :
    let answers := (ask source o requests).1
    let behind := (ask source o requests).2
    (∃ front ahead, Tokenised source.toList (front ++ ahead) ∧
      front.flatMap Segment.text ++ behind.rest = source.toList ∧
      (String.ofList (front.flatMap Segment.text)).rawEndPos.IsValid source ∧
      ahead.flatMap Segment.text = behind.rest ∧ behind.line = lineBehind front ∧
      carried answers ++ behind.pending =
        (located front).filterMap (Placed.diagnostic? o.strictComments)) ∧
    (∀ i a l, answers[i]? = some a → a.lexeme? = some l →
      (l = ⟨.eof, 1 + source.toList.count '\n'⟩ ∧
        (ask source o (requests.take (i + 1))).2.rest = []) ∨
      ∃ front text ahead, Tokenised source.toList (front ++ .token l.token text :: ahead) ∧
        l.line = lineBehind front ∧
        ahead.flatMap Segment.text = (ask source o (requests.take (i + 1))).2.rest) ∧
    (∀ d ∈ carried answers ++ behind.pending, ∃ front s ahead,
      Tokenised source.toList (front ++ s :: ahead) ∧ d.line = lineBehind front ∧
        s.diagnostic? o.strictComments d.line = some d) ∧
    (answers.filterMap Answer.lexeme?).Pairwise (fun a b => a.line ≤ b.line) ∧
    ∀ l ∈ answers.filterMap Answer.lexeme?, l.line ≤ 1 + source.toList.count '\n' := by
  intro answers behind
  obtain ⟨front, hcut, htext, hline, hmet⟩ := ask_passed source o requests
  refine ⟨⟨front, segments behind.rest, hcut, htext, isValid_rawEndPos htext,
      segments_flatMap_text _, hline, ?_⟩,
    fun i a l => ask_hands source o, fun d hd => ?_,
    (Scanner.run_lines (Scanner.start source o) requests).2, fun l hl => ?_⟩
  · rw [located, ← place_eq_mapIdx]
    exact hmet
  · rw [hmet] at hd
    obtain ⟨p, hp, hdiagnostic⟩ := List.mem_filterMap.mp hd
    obtain ⟨before, after, rfl, hplace⟩ := exists_of_mem_place hp
    have hd : d.line = p.line := (diagnostic?_eq_some hdiagnostic).2
    rw [List.append_assoc, List.cons_append] at hcut
    refine ⟨before, p.segment, _, hcut, hd.trans hplace, ?_⟩
    rw [hd]
    exact hdiagnostic
  · obtain ⟨a, ha, hl⟩ := List.mem_filterMap.mp hl
    obtain ⟨i, hi⟩ := List.mem_iff_getElem?.mp ha
    rcases ask_hands source o hi hl with ⟨rfl, _⟩ | ⟨before, text, after, hcut, hline, _⟩
    · exact Nat.le_refl _
    · rw [hline]
      exact lineBehind_le hcut

/-- A string and a comment that span lines, with a fault between them, then a comment that is never
    closed. -/
theorem lines_exact_spanning :
    (ask "'a\nb' # /*\n*/ x\n/*\n" { strictComments := true }
        [.token, .item, .take, .token, .take]).1 =
      [.token ⟨.string "a\nb", 1⟩, .item (some ⟨.ident "x", 3⟩),
        .taken [Fault.strayCharacter.diagnostic ['#'] 2], .token ⟨.eof, 5⟩,
        .taken [Fault.openComment.diagnostic ['/', '*'] 4]] ∧
    (∃ front text ahead,
      Tokenised "'a\nb' # /*\n*/ x\n/*\n".toList (front ++ .token (.ident "x") text :: ahead) ∧
        3 = lineBehind front) ∧
    (∃ front s ahead, Tokenised "'a\nb' # /*\n*/ x\n/*\n".toList (front ++ s :: ahead) ∧
      4 = lineBehind front ∧
        s.diagnostic? true 4 = some (Fault.openComment.diagnostic ['/', '*'] 4)) ∧
    5 ≤ 1 + "'a\nb' # /*\n*/ x\n/*\n".toList.count '\n' := by
  have hanswers : (ask "'a\nb' # /*\n*/ x\n/*\n" { strictComments := true }
        [.token, .item, .take, .token, .take]).1 =
      [.token ⟨.string "a\nb", 1⟩, .item (some ⟨.ident "x", 3⟩),
        .taken [Fault.strayCharacter.diagnostic ['#'] 2], .token ⟨.eof, 5⟩,
        .taken [Fault.openComment.diagnostic ['/', '*'] 4]] := by
    decide +kernel
  obtain ⟨_, hhanded, hmet, _, hlast⟩ := lines_exact "'a\nb' # /*\n*/ x\n/*\n"
    { strictComments := true } [.token, .item, .take, .token, .take]
  rw [hanswers] at hhanded hmet hlast
  refine ⟨hanswers, ?_, hmet (Fault.openComment.diagnostic ['/', '*'] 4) ?_,
    hlast ⟨.eof, 5⟩ (by decide)⟩
  · rcases hhanded 1 _ ⟨.ident "x", 3⟩ rfl rfl with ⟨heof, _⟩ | ⟨front, text, ahead, hcut, hline, _⟩
    · cases heof
    · exact ⟨front, text, ahead, hcut, hline⟩
  · exact List.mem_append_left _ (List.mem_cons_of_mem _ List.mem_cons_self)

end CMinus
