import Mathlib.Data.List.Basic
import CMinus.Proofs.Accepted
import CMinus.Proofs.Lookahead

/-!
# Diagnostics: what a failed parse reports

The characters of a source are judged in the order in which they stand, so the diagnostics of a scan
are in the order of their lines (`Scanner.ordered_diagnostics`). A failed parse reports all of them,
each once, and at most one diagnostic of the tokens besides, put in by its line (`Reports`,
`Diagnostic.sorted_concat`).

The tokens are handed out one at a time, and reading stops at the offending one. Nothing is lost by
that: whatever has been handed out by then, the rest is drained, and the diagnostics met are those
of the whole source (`Scanner.drain_pending`, `Scanner.parse_eq_parseHeld`).
-/

namespace CMinus

open Scan

/-! ## 1. The order of lines -/

namespace Diagnostic

/-- No diagnostic stands behind one of a later line. -/
def Ordered (ds : List Diagnostic) : Prop :=
  ds.Pairwise fun a b => a.line ≤ b.line

theorem line_trans (a b c : Diagnostic) :
    decide (a.line ≤ b.line) → decide (b.line ≤ c.line) → decide (a.line ≤ c.line) := by
  simp only [decide_eq_true_eq]
  exact Nat.le_trans

theorem line_total (a b : Diagnostic) : decide (a.line ≤ b.line) || decide (b.line ≤ a.line) := by
  simp only [Bool.or_eq_true, decide_eq_true_eq]
  exact Nat.le_total _ _

theorem ordered_sorted (ds : List Diagnostic) : Ordered (sorted ds) :=
  (List.pairwise_mergeSort line_trans line_total ds).imp of_decide_eq_true

theorem sorted_of_ordered {ds : List Diagnostic} (h : Ordered ds) : sorted ds = ds :=
  List.mergeSort_of_pairwise (h.imp decide_eq_true)

theorem mem_sorted {d : Diagnostic} {ds : List Diagnostic} : d ∈ sorted ds ↔ d ∈ ds :=
  (List.mergeSort_perm ds _).mem_iff

/-- Behind a diagnostic of a later line, all are of later lines. -/
theorem forall_lt_of_ordered {a : Diagnostic} {ds : List Diagnostic} {line : Nat}
    (h : Ordered (a :: ds)) (ha : line < a.line) : ∀ b ∈ a :: ds, line < b.line :=
  List.forall_mem_cons.mpr
    ⟨ha, fun b hb => Nat.lt_of_lt_of_le ha ((List.pairwise_cons.mp h).1 b hb)⟩

theorem filter_of_forall_lt {ds : List Diagnostic} {line : Nat} (h : ∀ b ∈ ds, line < b.line) :
    ds.filter (·.line ≤ line) = [] ∧ ds.filter (line < ·.line) = ds :=
  ⟨List.filter_eq_nil_iff.mpr fun b hb => by simpa using h b hb,
    List.filter_eq_self.mpr fun b hb => by simpa using h b hb⟩

/-- Cut at a line, the diagnostics are in order again. -/
theorem filter_append_filter {ds : List Diagnostic} (h : Ordered ds) (line : Nat) :
    ds.filter (·.line ≤ line) ++ ds.filter (line < ·.line) = ds := by
  induction ds with
  | nil => rfl
  | cons a ds ih =>
    by_cases ha : a.line ≤ line
    · rw [List.filter_cons_of_pos (by simpa using ha),
        List.filter_cons_of_neg (by simpa using ha), List.cons_append,
        ih (List.pairwise_cons.mp h).2]
    · obtain ⟨hnone, hall⟩ := filter_of_forall_lt (forall_lt_of_ordered h (Nat.lt_of_not_le ha))
      rw [hnone, hall, List.nil_append]

/-- The first diagnostic is sorted in behind some of the others, all of earlier lines. -/
theorem exists_sorted_cons (a : Diagnostic) (ds : List Diagnostic) :
    ∃ front behind, sorted (a :: ds) = front ++ a :: behind ∧ sorted ds = front ++ behind ∧
      ∀ b ∈ front, b ∈ ds ∧ b.line < a.line := by
  obtain ⟨front, behind, hcons, hsorted, hfront⟩ :=
    List.mergeSort_cons line_trans line_total a ds
  change sorted ds = _ at hsorted
  refine ⟨front, behind, hcons, hsorted, fun b hb => ⟨?_, by simpa using hfront b hb⟩⟩
  rw [← mem_sorted, hsorted]
  exact List.mem_append_left _ hb

theorem sorted_cons {a : Diagnostic} {ds : List Diagnostic} (h : ∀ b ∈ ds, a.line ≤ b.line) :
    sorted (a :: ds) = a :: sorted ds := by
  obtain ⟨front, behind, hcons, hsorted, hfront⟩ := exists_sorted_cons a ds
  have hnone : front = [] := List.eq_nil_iff_forall_not_mem.mpr fun b hb =>
    Nat.not_lt.mpr (h b (hfront b hb).1) (hfront b hb).2
  rw [hcons, hsorted, hnone, List.nil_append, List.nil_append]

/-- A last diagnostic of an earlier line than all others comes first. -/
theorem sorted_concat_of_lt {d : Diagnostic} {ds : List Diagnostic} (h : Ordered ds)
    (hd : ∀ b ∈ ds, d.line < b.line) : sorted (ds ++ [d]) = d :: ds := by
  induction ds with
  | nil => exact List.mergeSort_singleton d
  | cons a ds ih =>
    obtain ⟨hle, htail⟩ := List.pairwise_cons.mp h
    obtain ⟨hda, hds⟩ := List.forall_mem_cons.mp hd
    obtain ⟨front, behind, hcons, hsorted, hfront⟩ := exists_sorted_cons a (ds ++ [d])
    rw [ih htail hds] at hsorted
    have hordered := ordered_sorted (a :: (ds ++ [d]))
    rw [hcons] at hordered
    -- in front of `a` stands `d`, and nothing else
    cases front with
    | nil =>
      rw [List.nil_append] at hsorted hordered
      rw [← hsorted] at hordered
      exact absurd ((List.pairwise_cons.mp hordered).1 d List.mem_cons_self) (Nat.not_le.mpr hda)
    | cons b front =>
      obtain ⟨rfl, rfl⟩ := List.cons.inj hsorted
      have hnone : front = [] := List.eq_nil_iff_forall_not_mem.mpr fun b hb =>
        Nat.not_lt.mpr (hle b (List.mem_append_left _ hb))
          (hfront b (List.mem_cons_of_mem _ hb)).2
      rw [List.cons_append, hcons, hnone]
      rfl

/-- A last diagnostic is sorted in behind those whose lines are no later than its own. -/
theorem sorted_concat {ds : List Diagnostic} (h : Ordered ds) (d : Diagnostic) :
    sorted (ds ++ [d]) =
      ds.filter (·.line ≤ d.line) ++ d :: ds.filter (d.line < ·.line) := by
  induction ds with
  | nil => exact List.mergeSort_singleton d
  | cons a ds ih =>
    obtain ⟨hle, htail⟩ := List.pairwise_cons.mp h
    by_cases had : a.line ≤ d.line
    · have hfirst : ∀ b ∈ ds ++ [d], a.line ≤ b.line := by
        intro b hb
        rcases List.mem_append.mp hb with hb | hb
        · exact hle b hb
        · rwa [List.mem_singleton.mp hb]
      rw [List.cons_append, sorted_cons hfirst, ih htail,
        List.filter_cons_of_pos (by simpa using had),
        List.filter_cons_of_neg (by simpa using had), List.cons_append]
    · have hlow := forall_lt_of_ordered h (Nat.lt_of_not_le had)
      obtain ⟨hnone, hall⟩ := filter_of_forall_lt hlow
      rw [sorted_concat_of_lt h hlow, hnone, hall, List.nil_append]

end Diagnostic

namespace Scan

theorem diagnostic?_eq_some {strict : Bool} {p : Placed} {d : Diagnostic}
    (h : p.diagnostic? strict = some d) : d.category = .lexical ∧ d.line = p.line := by
  rcases p with ⟨s, line⟩
  cases s with
  | rejected fault text =>
    cases h
    exact ⟨rfl, rfl⟩
  | openComment body =>
    cases strict with
    | false => cases h
    | true =>
      cases h
      exact ⟨rfl, rfl⟩
  | _ => cases h

theorem le_line_of_mem_place {line : Nat} {ss : List Segment} {p : Placed}
    (h : p ∈ place line ss) : line ≤ p.line := by
  induction ss generalizing line with
  | nil => cases h
  | cons s ss ih =>
    rcases List.mem_cons.mp h with rfl | h
    · exact Nat.le_refl _
    · exact Nat.le_trans (Nat.le_add_right _ _) (ih h)

theorem place_pairwise (line : Nat) (ss : List Segment) :
    (place line ss).Pairwise fun a b => a.line ≤ b.line := by
  induction ss generalizing line with
  | nil => exact List.Pairwise.nil
  | cons s ss ih =>
    exact List.pairwise_cons.mpr
      ⟨fun p hp => Nat.le_trans (Nat.le_add_right _ _) (le_line_of_mem_place hp), ih _⟩

namespace Scanner

theorem category_of_mem_diagnostics {source : String} {o : Options} {d : Diagnostic}
    (h : d ∈ (start source o).diagnostics) : d.category = .lexical := by
  obtain ⟨p, _, hp⟩ := List.mem_filterMap.mp h
  exact (diagnostic?_eq_some hp).1

/-- The diagnostics of a source are met in the order of their lines. -/
theorem ordered_diagnostics (source : String) (o : Options) :
    Diagnostic.Ordered (start source o).diagnostics := by
  refine (place_pairwise _ _).filterMap _ fun a b hab d hd e he => ?_
  rw [(diagnostic?_eq_some hd).2, (diagnostic?_eq_some he).2]
  exact hab

end Scanner
end Scan

/-- Sorting does nothing to the diagnostics of a scan. -/
theorem scan_diagnostics (source : String) (o : Options) :
    (scan source o).2 = (Scanner.start source o).diagnostics :=
  Diagnostic.sorted_of_ordered (Scanner.ordered_diagnostics source o)

/-! ## 2. Tokens on demand -/

namespace Scan.Scanner

/-- The next `k` tokens, and the place behind them. -/
def pull : Nat → Scanner → List Lexeme × Scanner
  | 0, s => ([], s)
  | k + 1, s =>
    let (first, behind) := s.next
    let (others, behind) := pull k behind
    (first :: others, behind)

section Cut

variable {s : Scanner} {c : Char} {cs : List Char} (h : s.rest = c :: cs)
include h

/-- The first segment ahead, and those behind it. -/
theorem ahead_eq_cons :
    s.ahead = ⟨(cut c cs).1, s.line⟩ :: (s.pass (cut c cs).1 (cut c cs).2).ahead := by
  rw [ahead, h, segments]
  rfl

/-- A diagnostic that lay ahead is met, none is lost. -/
theorem diagnostics_pass :
    (s.pass (cut c cs).1 (cut c cs).2).diagnostics = s.diagnostics := by
  rw [diagnostics, diagnostics, ahead_eq_cons h, List.filterMap_cons, Placed.diagnostic?]
  simp only [pass]
  cases (cut c cs).1.diagnostic? s.options.strictComments s.line with
  | none => rw [Option.toList_none, List.append_nil]
  | some d => rw [Option.toList_some, List.append_assoc, List.singleton_append]

theorem endLine_pass : (s.pass (cut c cs).1 (cut c cs).2).endLine = s.endLine := by
  have hcount := congrArg (List.count '\n') (cut_append c cs)
  rw [List.count_append] at hcount
  rw [endLine, endLine, h, ← hcount, pass, Segment.lineBreaks, Nat.add_assoc]

end Cut

theorem next_diagnostics (s : Scanner) : s.next.2.diagnostics = s.diagnostics := by
  fun_induction next s with
  | case1 => rfl
  | case2 s c cs h => exact diagnostics_pass h
  | case3 s c cs h behind _ ih => exact ih.trans (diagnostics_pass h)

theorem next_endLine (s : Scanner) : s.next.2.endLine = s.endLine := by
  fun_induction next s with
  | case1 => rfl
  | case2 s c cs h => exact endLine_pass h
  | case3 s c cs h behind _ ih => exact ih.trans (endLine_pass h)

theorem lexemes_of_rest {s : Scanner} (h : s.rest = []) : s.lexemes = [] := by
  rw [lexemes, ahead, h, segments]
  rfl

/-- The next token is the first one ahead, or the end mark when there is none. -/
theorem next_cases (s : Scanner) :
    (s.next.2.rest = [] ∧ s.lexemes = [] ∧ s.next.1 = ⟨.eof, s.endLine⟩) ∨
      (s.next.2.rest.length < s.rest.length ∧ s.lexemes = s.next.1 :: s.next.2.lexemes) := by
  fun_induction next s with
  | case1 s h => exact .inl ⟨h, lexemes_of_rest h, by rw [endLine, h]; rfl⟩
  | case2 s c cs h behind t ht =>
    refine .inr ⟨by rw [h]; exact cut_length c cs, ?_⟩
    rw [lexemes, ahead_eq_cons h, List.filterMap_cons, Placed.lexeme?, ht]
    rfl
  | case3 s c cs h behind ht ih =>
    have hlexemes : s.lexemes = behind.lexemes := by
      rw [lexemes, ahead_eq_cons h, List.filterMap_cons, Placed.lexeme?, ht]
      rfl
    rcases ih with ⟨hrest, hnone, heof⟩ | ⟨hlength, hcons⟩
    · exact .inl ⟨hrest, hlexemes.trans hnone, by rw [heof, endLine_pass h]⟩
    · refine .inr ⟨?_, hlexemes.trans hcons⟩
      rw [h]
      exact Nat.lt_trans hlength (cut_length c cs)

theorem token_ne_eof {s : Scanner} {l : Lexeme} (h : l ∈ s.lexemes) : l.token ≠ .eof := by
  have hmem : l.token ∈ Parse.tokensOf s.lexemes := List.mem_map_of_mem h
  rw [show Parse.tokensOf s.lexemes = (segments s.rest).filterMap Segment.token? from
    tokensOf_place s.line (segments s.rest)] at hmem
  obtain ⟨segment, hsegment, ht⟩ := List.mem_filterMap.mp hmem
  have hspell := spellable_of_mem_segments hsegment ht
  intro heof
  rw [heof] at hspell
  exact hspell

theorem diagnostics_of_rest {s : Scanner} (h : s.rest = []) : s.diagnostics = s.pending := by
  rw [diagnostics, ahead, h, segments]
  exact List.append_nil _

/-- The place behind all tokens that are left, and behind the end mark. -/
def drain (s : Scanner) : Scanner :=
  if s.next.1.token = .eof then s.next.2 else drain s.next.2
termination_by s.rest.length
decreasing_by
  rename_i h
  rcases next_cases s with ⟨_, _, heof⟩ | ⟨hlength, _⟩
  · exact absurd (congrArg Lexeme.token heof) h
  · exact hlength

/-- Draining meets every diagnostic that lay ahead. -/
theorem drain_pending (s : Scanner) : s.drain.pending = s.diagnostics := by
  fun_induction drain s with
  | case1 s heof =>
    rcases next_cases s with ⟨hrest, _, _⟩ | ⟨_, hcons⟩
    · rw [← diagnostics_of_rest hrest, next_diagnostics]
    · exact absurd heof (token_ne_eof (hcons ▸ List.mem_cons_self))
  | case2 s _ ih => rw [ih, next_diagnostics]

/-- What is handed out: the tokens ahead, then end marks. -/
theorem pull_fst (k : Nat) (s : Scanner) :
    (s.pull k).1 =
      s.lexemes.take k ++ List.replicate (k - s.lexemes.length) ⟨.eof, s.endLine⟩ := by
  induction k generalizing s with
  | zero =>
    rw [Nat.zero_sub, List.take_zero]
    rfl
  | succ k ih =>
    have hpull : (s.pull (k + 1)).1 = s.next.1 :: (s.next.2.pull k).1 := rfl
    rw [hpull, ih, next_endLine]
    rcases next_cases s with ⟨hrest, hnone, heof⟩ | ⟨_, hcons⟩
    · rw [lexemes_of_rest hrest, hnone, heof, List.take_nil, List.take_nil]
      rfl
    · rw [hcons, List.take_succ_cons, List.length_cons, Nat.add_sub_add_right, List.cons_append]

theorem pull_diagnostics (k : Nat) (s : Scanner) : (s.pull k).2.diagnostics = s.diagnostics := by
  induction k generalizing s with
  | zero => rfl
  | succ k ih => exact (ih s.next.2).trans (next_diagnostics s)

theorem pull_endLine (k : Nat) (s : Scanner) : (s.pull k).2.endLine = s.endLine := by
  induction k generalizing s with
  | zero => rfl
  | succ k ih => exact (ih s.next.2).trans (next_endLine s)

/-- Behind the end mark nothing is left. -/
theorem pull_rest {k : Nat} {s : Scanner} (h : s.lexemes.length < k) : (s.pull k).2.rest = [] := by
  induction k generalizing s with
  | zero => exact absurd h (Nat.not_lt_zero _)
  | succ k ih =>
    change (s.next.2.pull k).2.rest = []
    rcases next_cases s with ⟨hrest, hnone, _⟩ | ⟨_, hcons⟩
    · cases k with
      | zero => exact hrest
      | succ k => exact ih (by rw [lexemes_of_rest hrest]; exact Nat.zero_lt_succ k)
    · rw [hcons, List.length_cons] at h
      exact ih (Nat.lt_of_succ_lt_succ h)

end Scan.Scanner

/-! ## 3. Reading on demand -/

namespace Scan.Scanner

open Parse

theorem filter_pull (k : Nat) (s : Scanner) :
    (s.pull k).1.filter (·.token ≠ .eof) = s.lexemes.take k := by
  rw [pull_fst, List.filter_append, List.filter_replicate_of_neg (by simp), List.append_nil]
  exact List.filter_eq_self.mpr fun l hl =>
    decide_eq_true (token_ne_eof (List.mem_of_mem_take hl))

/-- What is said of a source after reading: a success is taken back for the diagnostics that have
    been met by then, a failure is reported with those of the drained rest. -/
def verdict (limit endLine : Nat) (met drained : List Diagnostic) :
    Except Failure (Read Program) → Except (List Diagnostic) Program
  | .ok (p, _) => if met = [] then .ok p else .error (Diagnostic.sorted met)
  | .error f => .error (Diagnostic.sorted (drained ++ [f.diagnostic limit endLine]))

/-- What is said of a source when `k` tokens have been read and one more is looked at: no other
    token has been asked for. -/
def parseHeld (k : Nat) (s : Scanner) : Except (List Diagnostic) Program :=
  let (held, behind) := s.pull (k + 1)
  verdict s.options.maxNesting behind.line behind.pending behind.drain.pending
    (program s.options.maxNesting (held.filter (·.token ≠ .eof)))

theorem parse_eq_verdict (s : Scanner) :
    s.parse = verdict s.options.maxNesting s.endLine s.diagnostics s.diagnostics
      (program s.options.maxNesting s.lexemes) := by
  unfold parse
  cases program s.options.maxNesting s.lexemes <;> rfl

theorem parseHeld_eq_verdict (k : Nat) (s : Scanner) :
    s.parseHeld k = verdict s.options.maxNesting (s.pull (k + 1)).2.line
      (s.pull (k + 1)).2.pending s.diagnostics
      (program s.options.maxNesting (s.lexemes.take (k + 1))) := by
  unfold parseHeld
  simp only []
  rw [filter_pull, drain_pending, pull_diagnostics]

/-- **Reading on demand is reading everything**: once the tokens are there that the parser reads,
    and the one it stops at, it says what it would say of all tokens and all diagnostics. -/
theorem parse_eq_parseHeld {s : Scanner} {k : Nat}
    (h : s.lexemes.length - (leftOf (program s.options.maxNesting s.lexemes)).length ≤ k) :
    s.parse = s.parseHeld k := by
  rw [parse_eq_verdict, parseHeld_eq_verdict]
  by_cases hend : s.lexemes.length < k + 1
  · -- the end mark has been handed out
    have hrest := pull_rest hend
    have hpending := (diagnostics_of_rest hrest).symm.trans (pull_diagnostics _ s)
    have hline : (s.pull (k + 1)).2.line = s.endLine := by
      rw [← pull_endLine (k + 1) s, endLine, hrest]
      exact (Nat.add_zero _).symm
    rw [List.take_of_length_le (Nat.le_of_lt hend), hpending, hline]
  · -- a token is held that has not been read
    have htake : s.lexemes.take (k + 1) = graft (s.lexemes.length - (k + 1)) [] s.lexemes := by
      rw [graft, List.append_nil, Nat.sub_sub_self (Nat.le_of_not_lt hend)]
    obtain ⟨_, hsame⟩ :=
      program_local s.options.maxNesting (s.lexemes.length - (k + 1)) [] s.lexemes
    rw [htake, hsame (by omega)]
    cases hp : program s.options.maxNesting s.lexemes with
    | ok read =>
      obtain ⟨hrest, _⟩ := program_sound hp
      rw [hp, leftOf, hrest, List.length_nil] at h
      omega
    | error f =>
      rcases f with ⟨cause, rest⟩
      rw [hp, leftOf] at h
      cases rest with
      | nil =>
        rw [List.length_nil] at h
        omega
      | cons l more =>
        rw [List.length_cons] at h
        rw [graftRead, graft_cons (by omega), verdict, verdict]
        rfl

end Scan.Scanner

/-! ## 4. What a failed parse reports -/

theorem category_diagnostic (limit endLine : Nat) (f : Parse.Failure) :
    (f.diagnostic limit endLine).category = .syntactic := by
  rcases f with ⟨cause, rest⟩
  cases cause <;> rfl

variable {source : String} {o : Options}

/-- A parse fails with the diagnostics of the characters, or with them and one of the tokens. -/
theorem parse_eq_error_iff {ds : List Diagnostic} :
    parse source o = .error ds ↔
      (∃ read, Parse.program o.maxNesting (scan source o).1 = .ok read ∧
        (scan source o).2 ≠ [] ∧ ds = (scan source o).2) ∨
      ∃ f, Parse.program o.maxNesting (scan source o).1 = .error f ∧
        ds = Diagnostic.sorted ((scan source o).2 ++
          [f.diagnostic o.maxNesting (Scanner.start source o).endLine]) := by
  have hs : (Scanner.start source o).options = o := rfl
  have hordered := Scanner.ordered_diagnostics source o
  have hlexemes : (scan source o).1 = (Scanner.start source o).lexemes := rfl
  rw [hlexemes, scan_diagnostics]
  simp only [parse, Scanner.parse, hs]
  cases Parse.program o.maxNesting (Scanner.start source o).lexemes with
  | error f =>
    simp only [reduceCtorEq, false_and, exists_false, false_or, Except.error.injEq,
      exists_eq_left']
    exact eq_comm
  | ok read =>
    rw [Diagnostic.sorted_of_ordered hordered]
    by_cases hd : (Scanner.start source o).diagnostics = []
    · simp [hd]
    · simp [hd, eq_comm]

/-- A fault of the tokens is that of the failure which reading stops with. -/
theorem exists_failure_of_syntactic {ds : List Diagnostic} {d : Diagnostic}
    (hparse : parse source o = .error ds) (hd : d ∈ ds) (hsyntactic : d.category = .syntactic) :
    ∃ f, Parse.program o.maxNesting (scan source o).1 = .error f ∧
      d = f.diagnostic o.maxNesting (Scanner.start source o).endLine := by
  have hlexical : d ∉ (scan source o).2 := by
    intro hmem
    have := Scanner.category_of_mem_diagnostics (Diagnostic.mem_sorted.mp hmem)
    rw [hsyntactic] at this
    cases this
  rcases parse_eq_error_iff.mp hparse with ⟨_, _, _, rfl⟩ | ⟨f, hf, rfl⟩
  · exact absurd hd hlexical
  · rcases List.mem_append.mp (Diagnostic.mem_sorted.mp hd) with hmem | hmem
    · exact absurd hmem hlexical
    · exact ⟨f, hf, List.mem_singleton.mp hmem⟩

/-- The diagnostics `ds` report what was scanned, all of it and each once, and at most one fault of
    the tokens besides. -/
structure Reports (scanned ds : List Diagnostic) : Prop where
  ne_nil : ds ≠ []
  /-- At most one fault of the tokens. -/
  atMostOne : ds.countP (·.category = .syntactic) ≤ 1
  /-- Without it, what was scanned. -/
  complete : ds.filter (·.category ≠ .syntactic) = scanned
  ordered : Diagnostic.Ordered ds
  /-- It stands behind what was scanned up to its own line. -/
  position : ∀ before d behind, ds = before ++ d :: behind → d.category = .syntactic →
    before = scanned.filter (·.line ≤ d.line) ∧ behind = scanned.filter (d.line < ·.line)

section Reports

variable {scanned : List Diagnostic} (hordered : Diagnostic.Ordered scanned)
  (hlexical : ∀ d ∈ scanned, d.category = .lexical)
include hordered hlexical

/-- Faults of the characters alone. -/
theorem reports_scanned (h : scanned ≠ []) : Reports scanned scanned where
  ne_nil := h
  atMostOne := by
    rw [List.countP_eq_zero.mpr fun d hd => by rw [hlexical d hd]; decide]
    exact Nat.zero_le 1
  complete := List.filter_eq_self.mpr fun d hd => by rw [hlexical d hd]; rfl
  ordered := hordered
  position := by
    rintro before d behind rfl hd
    have hd' := hlexical d (List.mem_append_right _ List.mem_cons_self)
    rw [hd] at hd'
    cases hd'

/-- Faults of the characters, and one of the tokens. -/
theorem reports_sorted_concat {d : Diagnostic} (hd : d.category = .syntactic) :
    Reports scanned (Diagnostic.sorted (scanned ++ [d])) := by
  have hall := Diagnostic.ordered_sorted (scanned ++ [d])
  rw [Diagnostic.sorted_concat hordered] at hall ⊢
  have hpart : ∀ (p : Diagnostic → Bool), ∀ e ∈ scanned.filter p, e.category = .lexical :=
    fun p e he => hlexical e (List.mem_filter.mp he).1
  have hcount : ∀ p, (scanned.filter p).countP (·.category = .syntactic) = 0 := fun p =>
    List.countP_eq_zero.mpr fun e he => by rw [hpart p e he]; decide
  have hfilter : ∀ p, (scanned.filter p).filter (·.category ≠ .syntactic) = scanned.filter p :=
    fun p => List.filter_eq_self.mpr fun e he => by rw [hpart p e he]; rfl
  refine ⟨by simp, ?_, ?_, hall, ?_⟩
  · rw [List.countP_append, List.countP_cons, hcount, hcount]
    split <;> decide
  · rw [List.filter_append, List.filter_cons_of_neg (by simp [hd]), hfilter, hfilter,
      Diagnostic.filter_append_filter hordered]
  · intro before e behind hsplit he
    have hnot : ∀ p, e ∉ scanned.filter p := by
      intro p hmem
      have := hpart p e hmem
      rw [he] at this
      cases this
    obtain ⟨hbefore, rfl, hbehind⟩ :=
      (List.append_cons_inj_of_notMem (hnot _) (hnot _)).mp hsplit
    exact ⟨hbefore.symm, hbehind.symm⟩

end Reports

/-- **The diagnostics of a parse are complete, each reported once, and in order.** An accepted
    source has no fault of its characters, a rejected one has all of them reported, and every
    source with such a fault is rejected. They are met in the order of their lines, however many
    tokens have been handed out before the rest is drained; and what is said of the source does not
    depend on how many tokens behind the one that reading stops at were asked for. -/
theorem parse_reports (source : String) (o : Options) :
    (∀ p, parse source o = .ok p → (scan source o).2 = []) ∧
    (∀ ds, parse source o = .error ds → Reports (scan source o).2 ds) ∧
    ((scan source o).2 ≠ [] → ∃ ds, parse source o = .error ds) ∧
    Diagnostic.Ordered (Scanner.start source o).diagnostics ∧
    (∀ k, ((Scanner.start source o).pull k).2.drain.pending = (scan source o).2) ∧
    ∀ k, (scan source o).1.length -
        (Parse.leftOf (Parse.program o.maxNesting (scan source o).1)).length ≤ k →
      parse source o = (Scanner.start source o).parseHeld k := by
  have hordered : Diagnostic.Ordered (scan source o).2 := Diagnostic.ordered_sorted _
  have hlexical : ∀ d ∈ (scan source o).2, d.category = .lexical := fun d hd =>
    Scanner.category_of_mem_diagnostics (Diagnostic.mem_sorted.mp hd)
  refine ⟨fun p hp => (parse_eq_ok_iff.mp hp).1, fun ds hds => ?_, fun hscan => ?_,
    Scanner.ordered_diagnostics source o, fun k => ?_, fun k => Scanner.parse_eq_parseHeld⟩
  · rcases parse_eq_error_iff.mp hds with ⟨_, _, hscan, rfl⟩ | ⟨f, _, rfl⟩
    · exact reports_scanned hordered hlexical hscan
    · exact reports_sorted_concat hordered hlexical (category_diagnostic _ _ f)
  · cases hp : parse source o with
    | ok p => exact absurd (parse_eq_ok_iff.mp hp).1 hscan
    | error ds => exact ⟨ds, rfl⟩
  · rw [scan_diagnostics, Scanner.drain_pending, Scanner.pull_diagnostics]

/-- What is reported of a source: nothing when it is accepted. -/
def reported : Except (List Diagnostic) Program → List Diagnostic
  | .ok _ => []
  | .error ds => ds

theorem eq_error_of_reported {r : Except (List Diagnostic) Program} {ds : List Diagnostic}
    (h : reported r = ds) (hne : ds ≠ []) : r = .error ds := by
  cases r with
  | ok p => exact absurd h.symm hne
  | error es => exact congrArg Except.error h

theorem exists_ok_of_isOk {r : Except (List Diagnostic) Program} (h : r.isOk = true) :
    ∃ p, r = .ok p := by
  cases r with
  | ok p => exact ⟨p, rfl⟩
  | error ds => cases h

theorem exists_error_of_isOk {r : Except (List Diagnostic) Program} (h : r.isOk = false) :
    ∃ ds, r = .error ds := by
  cases r with
  | ok p => cases h
  | error ds => exact ⟨ds, rfl⟩

/-- A fault of the tokens amidst two of the characters. -/
theorem parse_reports_amidst :
    ∃ ds, parse "int main()\n\x7b\n  x = 1 $ 2;\n\x7d\n# trailing\n" {} = .error ds ∧
      ds.map (fun d => (d.category, d.line)) =
        [(.lexical, 3), (.syntactic, 3), (.lexical, 5)] ∧
      Reports (scan "int main()\n\x7b\n  x = 1 $ 2;\n\x7d\n# trailing\n" {}).2 ds := by
  have h := parse_reports "int main()\n\x7b\n  x = 1 $ 2;\n\x7d\n# trailing\n" {}
  obtain ⟨ds, hds⟩ := h.2.2.1 (by rw [scan_diagnostics]; decide +kernel)
  refine ⟨ds, hds, ?_, h.2.1 ds hds⟩
  have hread :
      (match Parse.program ({} : Options).maxNesting
          (scan "int main()\n\x7b\n  x = 1 $ 2;\n\x7d\n# trailing\n" {}).1 with
        | .ok _ => none
        | .error f => some f) =
        some ⟨.expected (.symbol .semicolon), [⟨.int 2, 3⟩, ⟨.symbol .semicolon, 3⟩,
          ⟨.symbol .rbrace, 4⟩, ⟨.ident "trailing", 5⟩]⟩ := by
    decide +kernel
  rcases parse_eq_error_iff.mp hds with ⟨read, hok, _⟩ | ⟨f, hf, rfl⟩
  · rw [hok] at hread
    cases hread
  · rw [hf] at hread
    obtain rfl := Option.some.inj hread
    rw [scan_diagnostics, Diagnostic.sorted_concat (Scanner.ordered_diagnostics _ _)]
    decide +kernel

end CMinus
