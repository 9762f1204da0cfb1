import CMinus.Proofs.Diagnostics

/-!
# Requests: what a scanner hands out

A scanner is asked for tokens, for the diagnostics it has met and for its options, in any order and
as often as one likes, and may be handed over to the parser at any time. What it says of a source
depends on how many tokens it was asked for, and on nothing else: with the diagnostics given back
that were taken from it, it is the scanner that was asked for these tokens alone
(`Scanner.run_giveBack`). So no order of requests loses, repeats or changes a diagnostic
(`scanner_serves`).
-/

namespace CMinus

namespace Scan

/-! ## 1. Requests and answers -/

/-- What a scanner can be asked for. -/
inductive Request
  /-- The next token, or the end mark. -/
  | token
  /-- The next token, or nothing. -/
  | item
  /-- The diagnostics met and not taken yet. -/
  | diagnostics
  /-- The same diagnostics, to be kept by the one who asks. -/
  | take
  | options
deriving DecidableEq, Inhabited

/-- What a scanner answers. -/
inductive Answer
  | token (lexeme : Lexeme)
  | item (lexeme : Option Lexeme)
  | shown (ds : List Diagnostic)
  | taken (ds : List Diagnostic)
  | options (o : Options)
deriving DecidableEq, Inhabited

/-- Whether a request is one for a token. -/
def Request.pulls : Request → Bool
  | .token | .item => true
  | .diagnostics | .take | .options => false

/-- How many of the requests are for a token. -/
def pulls (requests : List Request) : Nat :=
  requests.countP Request.pulls

/-- The diagnostics that an answer takes from the scanner. -/
def Answer.carried : Answer → List Diagnostic
  | .taken ds => ds
  | .token _ | .item _ | .shown _ | .options _ => []

/-- All diagnostics that have been taken, in the order in which they were. -/
def carried (answers : List Answer) : List Diagnostic :=
  answers.flatMap Answer.carried

/-- An answer that tells the end of the source. -/
def Answer.Ends (a : Answer) : Prop :=
  a = .item none ∨ ∃ line, a = .token ⟨.eof, line⟩

namespace Scanner

/-- One request, and the place behind it. -/
def serve (s : Scanner) : Request → Answer × Scanner
  | .token => (.token s.next.1, s.next.2)
  | .item => (.item s.next?.1, s.next?.2)
  | .diagnostics => (.shown s.pending, s)
  | .take => (.taken s.take.1, s.take.2)
  | .options => (.options s.options, s)

/-- Requests one after the other. -/
def run (s : Scanner) : List Request → List Answer × Scanner
  | [] => ([], s)
  | r :: rest =>
    let (answer, behind) := s.serve r
    let (answers, behind) := behind.run rest
    (answer :: answers, behind)

/-- The scanner with diagnostics put in front of those it has met. -/
def giveBack (ds : List Diagnostic) (s : Scanner) : Scanner :=
  { s with pending := ds ++ s.pending }

/-! ## 2. Tokens -/

/-- At the end of the source the scanner stays where it is. -/
theorem next_of_nil {s : Scanner} (h : s.rest = []) : s.next = (⟨.eof, s.line⟩, s) := by
  unfold next
  split
  · rfl
  · rename_i hcons
    rw [h] at hcons
    cases hcons

/-- Before the end it passes a segment, which is the next token or not. -/
theorem next_of_cons {s : Scanner} {c : Char} {cs : List Char} (h : s.rest = c :: cs) :
    s.next = match (cut c cs).1.token? with
      | some t => (⟨t, s.line⟩, s.pass (cut c cs).1 (cut c cs).2)
      | none => (s.pass (cut c cs).1 (cut c cs).2).next := by
  rw [next]
  split
  · rename_i hnil
    rw [h] at hnil
    cases hnil
  · rename_i c' cs' hcons
    rw [h] at hcons
    cases hcons
    rfl

theorem next_fst (s : Scanner) : s.next.1 = s.lexemes.head?.getD ⟨.eof, s.endLine⟩ := by
  rcases next_cases s with ⟨_, hnone, heof⟩ | ⟨_, hcons⟩
  · rw [hnone, heof]
    rfl
  · rw [hcons]
    rfl

theorem next_lexemes (s : Scanner) : s.next.2.lexemes = s.lexemes.tail := by
  rcases next_cases s with ⟨hrest, hnone, _⟩ | ⟨_, hcons⟩
  · rw [hnone, lexemes_of_rest hrest]
    rfl
  · rw [hcons]
    rfl

theorem next_options (s : Scanner) : s.next.2.options = s.options := by
  fun_induction next s with
  | case1 => rfl
  | case2 => rfl
  | case3 s c cs h behind _ ih => exact ih

/-- Nothing stands for the end mark, and the place behind is the same. -/
theorem next?_eq (s : Scanner) : s.next? = (s.lexemes.head?, s.next.2) := by
  have hfst := next_fst s
  unfold next?
  rcases hnext : s.next with ⟨⟨t, line⟩, behind⟩
  rw [hnext] at hfst
  cases hhead : s.lexemes.head? with
  | none =>
    rw [hhead] at hfst
    cases hfst
    rfl
  | some l =>
    rw [hhead] at hfst
    have hl : (⟨t, line⟩ : Lexeme) = l := hfst
    have hne := token_ne_eof (List.mem_of_mem_head? hhead)
    rw [← hl] at hne ⊢
    cases t with
    | eof => exact absurd rfl hne
    | _ => rfl

theorem pull_lexemes (k : Nat) (s : Scanner) : (s.pull k).2.lexemes = s.lexemes.drop k := by
  induction k generalizing s with
  | zero => rfl
  | succ k ih =>
    have hbehind : (s.pull (k + 1)).2 = (s.next.2.pull k).2 := rfl
    rw [hbehind, ih, next_lexemes, List.drop_tail]

theorem pull_options (k : Nat) (s : Scanner) : (s.pull k).2.options = s.options := by
  induction k generalizing s with
  | zero => rfl
  | succ k ih => exact (ih s.next.2).trans (next_options s)

theorem pull_add (j k : Nat) (s : Scanner) : (s.pull (j + k)).2 = ((s.pull j).2.pull k).2 := by
  induction j generalizing s with
  | zero => rw [Nat.zero_add]; rfl
  | succ j ih =>
    rw [Nat.succ_add]
    exact ih s.next.2

/-! ## 3. Diagnostics given back -/

section GiveBack

variable (ds : List Diagnostic) (s : Scanner)

theorem giveBack_append (es : List Diagnostic) :
    s.giveBack (ds ++ es) = (s.giveBack es).giveBack ds := by
  simp only [giveBack, List.append_assoc]

theorem pass_giveBack (segment : Segment) (rest : List Char) :
    (s.giveBack ds).pass segment rest = (s.pass segment rest).giveBack ds := by
  simp only [giveBack, pass, List.append_assoc]

/-- What has been met does not change what comes next. -/
theorem next_giveBack : (s.giveBack ds).next = (s.next.1, s.next.2.giveBack ds) := by
  have hrest : (s.giveBack ds).rest = s.rest := rfl
  fun_induction next s with
  | case1 s h =>
    rw [h] at hrest
    rw [next_of_nil hrest]
    rfl
  | case2 s c cs h behind t ht =>
    rw [h] at hrest
    rw [next_of_cons hrest, ht, pass_giveBack]
    rfl
  | case3 s c cs h behind ht ih =>
    rw [h] at hrest
    rw [next_of_cons hrest, ht, pass_giveBack]
    exact ih rfl

theorem pull_giveBack (k : Nat) : ((s.giveBack ds).pull k).2 = (s.pull k).2.giveBack ds := by
  induction k generalizing s with
  | zero => rfl
  | succ k ih =>
    have hbehind : ((s.giveBack ds).pull (k + 1)).2 = ((s.giveBack ds).next.2.pull k).2 := rfl
    rw [hbehind, next_giveBack]
    exact ih s.next.2

theorem diagnostics_giveBack : (s.giveBack ds).diagnostics = ds ++ s.diagnostics :=
  List.append_assoc ds s.pending _

end GiveBack

/-! ## 4. Steps and runs -/

/-- What is taken is what has been met: it is in order already. -/
theorem take_fst {s : Scanner} (h : Diagnostic.Ordered s.diagnostics) : s.take.1 = s.pending :=
  Diagnostic.sorted_of_ordered (List.pairwise_append.mp h).1

/-- **One request**: with the diagnostics that it takes given back, the scanner has been asked for a
    token or for nothing. -/
theorem serve_giveBack {s : Scanner} (h : Diagnostic.Ordered s.diagnostics) (r : Request) :
    (s.serve r).2.giveBack (s.serve r).1.carried = (s.pull (pulls [r])).2 := by
  cases r with
  | token => rfl
  | item =>
    have hbehind : (s.serve .item).2 = s.next.2 := congrArg Prod.snd (next?_eq s)
    rw [hbehind]
    rfl
  | diagnostics => rfl
  | take =>
    have htaken : (s.serve .take).1.carried = s.pending := take_fst h
    rw [htaken]
    show { s with pending := s.pending ++ [] } = s
    rw [List.append_nil]
  | options => rfl

/-- No request loses a diagnostic. -/
theorem serve_diagnostics {s : Scanner} (h : Diagnostic.Ordered s.diagnostics) (r : Request) :
    (s.serve r).1.carried ++ (s.serve r).2.diagnostics = s.diagnostics := by
  rw [← diagnostics_giveBack, serve_giveBack h, pull_diagnostics]

theorem ordered_serve {s : Scanner} (h : Diagnostic.Ordered s.diagnostics) (r : Request) :
    Diagnostic.Ordered (s.serve r).2.diagnostics := by
  rw [← serve_diagnostics h r] at h
  exact (List.pairwise_append.mp h).2.1

/-- **All requests**: with the diagnostics that they take given back, the scanner has been asked for
    as many tokens as they ask for, and for nothing else. -/
theorem run_giveBack {s : Scanner} (h : Diagnostic.Ordered s.diagnostics)
    (requests : List Request) :
    (s.run requests).2.giveBack (carried (s.run requests).1) = (s.pull (pulls requests)).2 := by
  induction requests generalizing s with
  | nil => rfl
  | cons r rest ih =>
    have hpulls : pulls (r :: rest) = pulls [r] + pulls rest := by
      unfold pulls
      rw [← List.countP_append, List.singleton_append]
    have hcarried : carried (s.run (r :: rest)).1 =
        (s.serve r).1.carried ++ carried ((s.serve r).2.run rest).1 := List.flatMap_cons
    have hbehind : (s.run (r :: rest)).2 = ((s.serve r).2.run rest).2 := rfl
    rw [hpulls, hcarried, hbehind, giveBack_append, ih (ordered_serve h r), ← pull_giveBack,
      serve_giveBack h, pull_add]

theorem run_length (s : Scanner) (requests : List Request) :
    (s.run requests).1.length = requests.length := by
  induction requests generalizing s with
  | nil => rfl
  | cons r rest ih => exact congrArg (· + 1) (ih (s.serve r).2)

theorem run_take (s : Scanner) (requests : List Request) (i : Nat) :
    (s.run (requests.take i)).1 = (s.run requests).1.take i := by
  induction requests generalizing s i with
  | nil => rw [List.take_nil]; exact List.take_nil.symm
  | cons r rest ih =>
    cases i with
    | zero => rfl
    | succ i => exact congrArg ((s.serve r).1 :: ·) (ih (s.serve r).2 i)

/-- Every request is answered at the place behind those in front of it. -/
theorem run_getElem? (s : Scanner) (requests : List Request) (i : Nat) :
    (s.run requests).1[i]? =
      requests[i]?.map fun r => ((s.run (requests.take i)).2.serve r).1 := by
  induction requests generalizing s i with
  | nil => rfl
  | cons r rest ih =>
    cases i with
    | zero => rfl
    | succ i => exact ih (s.serve r).2 i

end Scanner

end Scan

/-! ## 5. Requests to a source -/

open Scan

/-- The answers of a source to some requests, and the place behind them. -/
def ask (source : String) (o : Options) (requests : List Request) : List Answer × Scanner :=
  (Scanner.start source o).run requests

/-- The diagnostics met when `k` tokens of a source have been asked for. -/
def met (source : String) (o : Options) (k : Nat) : List Diagnostic :=
  ((Scanner.start source o).pull k).2.pending

/-- The answer that is due to a request behind others, when some diagnostics have been taken: the
    first token that has not been handed out, the end mark or nothing when there is none; and the
    diagnostics that have been met and not been taken. -/
def Due (source : String) (o : Options) (before : List Request) (taken : List Diagnostic) :
    Request → Answer → Prop
  | .token, .token l =>
    l = (scan source o).1[pulls before]?.getD ⟨.eof, (Scanner.start source o).endLine⟩
  | .item, .item l => l = (scan source o).1[pulls before]?
  | .diagnostics, .shown ds => taken ++ ds = met source o (pulls before)
  | .take, .taken ds => taken ++ ds = met source o (pulls before)
  | .options, .options o' => o' = o
  | _, _ => False

section Source

variable {source : String} {o : Options}

/-- What has been met is the beginning of the diagnostics of the source. -/
theorem met_append (k : Nat) :
    ∃ ahead, met source o k ++ ahead = (scan source o).2 := by
  rw [scan_diagnostics, ← Scanner.pull_diagnostics k]
  exact ⟨_, rfl⟩

/-- Behind the end mark all of them have been met. -/
theorem met_of_lt {k : Nat} (h : (scan source o).1.length < k) :
    met source o k = (scan source o).2 := by
  rw [scan_diagnostics, ← Scanner.pull_diagnostics k]
  exact (Scanner.diagnostics_of_rest (Scanner.pull_rest h)).symm

/-- The place behind some requests. -/
theorem ask_giveBack (requests : List Request) :
    (ask source o requests).2.giveBack (carried (ask source o requests).1) =
      ((Scanner.start source o).pull (pulls requests)).2 :=
  Scanner.run_giveBack (Scanner.ordered_diagnostics source o) requests

section Behind

variable (requests : List Request)

theorem ask_lexemes :
    (ask source o requests).2.lexemes = (scan source o).1.drop (pulls requests) :=
  (congrArg Scanner.lexemes (ask_giveBack requests)).trans (Scanner.pull_lexemes _ _)

theorem ask_endLine : (ask source o requests).2.endLine = (Scanner.start source o).endLine :=
  (congrArg Scanner.endLine (ask_giveBack requests)).trans (Scanner.pull_endLine _ _)

theorem ask_options : (ask source o requests).2.options = o :=
  (congrArg Scanner.options (ask_giveBack requests)).trans (Scanner.pull_options _ _)

theorem ask_pending : carried (ask source o requests).1 ++ (ask source o requests).2.pending =
    met source o (pulls requests) :=
  congrArg Scanner.pending (ask_giveBack requests)

theorem ask_diagnostics :
    carried (ask source o requests).1 ++ (ask source o requests).2.diagnostics =
      (scan source o).2 := by
  rw [← Scanner.diagnostics_giveBack, ask_giveBack, Scanner.pull_diagnostics, scan_diagnostics]

theorem ordered_ask : Diagnostic.Ordered (ask source o requests).2.diagnostics := by
  have hordered : Diagnostic.Ordered (scan source o).2 := Diagnostic.ordered_sorted _
  rw [← ask_diagnostics requests] at hordered
  exact (List.pairwise_append.mp hordered).2.1

theorem category_of_mem_ask {d : Diagnostic}
    (h : d ∈ (ask source o requests).2.diagnostics) : d.category = .lexical := by
  have hmem : d ∈ (scan source o).2 := by
    rw [← ask_diagnostics requests]
    exact List.mem_append_right _ h
  exact Scanner.category_of_mem_diagnostics (Diagnostic.mem_sorted.mp hmem)

/-- A request behind others is given what is due to it. -/
theorem due_serve (r : Request) :
    Due source o requests (carried (ask source o requests).1) r
      ((ask source o requests).2.serve r).1 := by
  have hhead : (ask source o requests).2.lexemes.head? = (scan source o).1[pulls requests]? := by
    rw [ask_lexemes, List.head?_drop]
  cases r with
  | token =>
    have hnext := Scanner.next_fst (ask source o requests).2
    rw [hhead, ask_endLine] at hnext
    exact hnext
  | item =>
    have hnext := Scanner.next?_eq (ask source o requests).2
    rw [hhead] at hnext
    exact congrArg Prod.fst hnext
  | diagnostics => exact ask_pending requests
  | take =>
    have htaken : (ask source o requests).2.take.1 = (ask source o requests).2.pending :=
      Scanner.take_fst (ordered_ask requests)
    exact (congrArg (carried (ask source o requests).1 ++ ·) htaken).trans (ask_pending requests)
  | options => exact ask_options requests

end Behind

/-- The end is due when all tokens have been handed out, to a request for another one. -/
theorem pulls_of_ends {before : List Request} {taken : List Diagnostic} {r : Request} {a : Answer}
    (hdue : Due source o before taken r a) (hends : a.Ends) :
    r.pulls = true ∧ (scan source o).1.length ≤ pulls before := by
  rcases hends with rfl | ⟨line, rfl⟩
  · cases r with
    | item => exact ⟨rfl, List.getElem?_eq_none_iff.mp (Eq.symm hdue)⟩
    | _ => exact absurd hdue id
  · cases r with
    | token =>
      have hdue : (⟨.eof, line⟩ : Lexeme) =
        (scan source o).1[pulls before]?.getD ⟨.eof, (Scanner.start source o).endLine⟩ := hdue
      cases hget : (scan source o).1[pulls before]? with
      | none => exact ⟨rfl, List.getElem?_eq_none_iff.mp hget⟩
      | some l =>
        rw [hget] at hdue
        have htoken : l.token = .eof := congrArg Lexeme.token hdue.symm
        have hmem : l ∈ (Scanner.start source o).lexemes := List.mem_of_getElem? hget
        exact absurd htoken (Scanner.token_ne_eof hmem)
    | _ => exact absurd hdue id

/-- Each answer of a run is due, given those in front of it. -/
theorem due_ask {requests : List Request} {i : Nat} {r : Request} {a : Answer}
    (hr : requests[i]? = some r) (ha : (ask source o requests).1[i]? = some a) :
    Due source o (requests.take i) (carried ((ask source o requests).1.take i)) r a := by
  unfold ask at ha ⊢
  rw [Scanner.run_getElem?, hr] at ha
  obtain rfl := Option.some.inj ha
  rw [← Scanner.run_take]
  exact due_serve (requests.take i) r

/-- When a run tells the end, it has asked for more than all tokens. -/
theorem lt_pulls_of_ends {requests : List Request} {a : Answer}
    (h : a ∈ (ask source o requests).1) (hends : a.Ends) :
    (scan source o).1.length < pulls requests := by
  obtain ⟨i, hi⟩ := List.mem_iff_getElem?.mp h
  cases hr : requests[i]? with
  | none =>
    unfold ask at hi
    rw [Scanner.run_getElem?, hr] at hi
    cases hi
  | some r =>
    obtain ⟨hpulls, hle⟩ := pulls_of_ends (due_ask hr hi) hends
    -- the request that is told the end is counted itself
    have hcount : pulls requests = pulls (requests.take i) + pulls (requests.drop i) := by
      rw [pulls, pulls, pulls, ← List.countP_append, List.take_append_drop]
    have hdrop : (requests.drop i)[0]? = some r := by
      rw [List.getElem?_drop, Nat.add_zero, hr]
    have hone : 0 < pulls (requests.drop i) :=
      List.countP_pos_iff.mpr ⟨r, List.mem_of_getElem? hdrop, hpulls⟩
    omega

end Source

/-! ## 6. Handed over to the parser -/

section Verdict

variable {limit endLine : Nat} {scanned : List Diagnostic}
  {r : Except Parse.Failure (Parse.Read Program)}

/-- Nothing is accepted in spite of a diagnostic. -/
theorem nil_of_verdict_ok {p : Program}
    (h : Scanner.verdict limit endLine scanned scanned r = .ok p) : scanned = [] := by
  cases r with
  | error f => cases h
  | ok read =>
    by_cases hnil : scanned = []
    · exact hnil
    · rw [Scanner.verdict, if_neg hnil] at h
      cases h

theorem reports_of_verdict {ds : List Diagnostic} (hordered : Diagnostic.Ordered scanned)
    (hlexical : ∀ d ∈ scanned, d.category = .lexical)
    (h : Scanner.verdict limit endLine scanned scanned r = .error ds) : Reports scanned ds := by
  cases r with
  | error f =>
    cases h
    exact reports_sorted_concat hordered hlexical (category_diagnostic _ _ f)
  | ok read =>
    by_cases hnil : scanned = []
    · rw [Scanner.verdict, if_pos hnil] at h
      cases h
    · rw [Scanner.verdict, if_neg hnil, Diagnostic.sorted_of_ordered hordered] at h
      cases h
      exact reports_scanned hordered hlexical hnil

end Verdict

/-- What the parser says of a source that has been handed over to it behind some requests. -/
theorem parse_ask (source : String) (o : Options) (requests : List Request) :
    (ask source o requests).2.parse =
      Scanner.verdict o.maxNesting (Scanner.start source o).endLine
        (ask source o requests).2.diagnostics (ask source o requests).2.diagnostics
        (Parse.program o.maxNesting ((scan source o).1.drop (pulls requests))) := by
  rw [Scanner.parse_eq_verdict, ask_lexemes, ask_endLine, ask_options]

/-- **A scanner loses nothing, whatever it is asked for and in whatever order.** Every request is
    answered with what is due to it: the tokens of the source one after the other and, behind the
    last one, the end mark on its line or nothing; and the diagnostics met so far, less those that
    were taken before. Those taken and those pending are a beginning of the diagnostics of the
    source, and all of them once the end has been told. Handed over to the parser, the scanner is
    judged by the tokens that have not been handed out and by the diagnostics that have not been
    taken, all of which are reported, however few tokens the parser asks for. -/
theorem scanner_serves (source : String) (o : Options) (requests : List Request) :
    let tokens := (scan source o).1
    let answers := (ask source o requests).1
    let behind := (ask source o requests).2
    answers.length = requests.length ∧
    (∀ i r a, requests[i]? = some r → answers[i]? = some a →
      Due source o (requests.take i) (carried (answers.take i)) r a) ∧
    carried answers ++ behind.pending = met source o (pulls requests) ∧
    carried answers ++ behind.pending <+: (scan source o).2 ∧
    ((∃ a ∈ answers, a.Ends) → carried answers ++ behind.pending = (scan source o).2) ∧
    ∃ untaken, carried answers ++ untaken = (scan source o).2 ∧
      behind.parse = Scanner.verdict o.maxNesting (Scanner.start source o).endLine untaken untaken
        (Parse.program o.maxNesting (tokens.drop (pulls requests))) ∧
      (∀ p, behind.parse = .ok p → untaken = []) ∧
      (∀ ds, behind.parse = .error ds → Reports untaken ds) ∧
      ∀ k, (tokens.drop (pulls requests)).length - (Parse.leftOf
          (Parse.program o.maxNesting (tokens.drop (pulls requests)))).length ≤ k →
        behind.parse = behind.parseHeld k := by
  intro tokens answers behind
  have hparse := parse_ask source o requests
  refine ⟨?_, fun i r a => due_ask, ask_pending requests, ?_, fun hend => ?_,
    behind.diagnostics, ask_diagnostics requests, hparse, fun p hp => ?_, fun ds hds => ?_,
    fun k hk => ?_⟩
  · exact Scanner.run_length _ requests
  · rw [ask_pending]
    exact met_append (pulls requests)
  · obtain ⟨a, ha, hends⟩ := hend
    rw [ask_pending, met_of_lt (lt_pulls_of_ends ha hends)]
  · exact nil_of_verdict_ok (hparse.symm.trans hp)
  · exact reports_of_verdict (ordered_ask requests) (fun _ => category_of_mem_ask requests)
      (hparse.symm.trans hds)
  · apply Scanner.parse_eq_parseHeld
    rw [ask_lexemes, ask_options]
    exact hk

/-- The first of two faults is taken between two tokens, the second one is shown behind the end. -/
theorem scanner_serves_faults :
    (ask "x $ y #" {} [.item, .take, .token, .take, .item, .diagnostics]).1 =
      [.item (some ⟨.ident "x", 1⟩), .taken [], .token ⟨.ident "y", 1⟩,
        .taken [Fault.strayCharacter.diagnostic ['$'] 1], .item none,
        .shown [Fault.strayCharacter.diagnostic ['#'] 1]] ∧
    carried (ask "x $ y #" {} [.item, .take, .token, .take, .item, .diagnostics]).1 ++
        (ask "x $ y #" {} [.item, .take, .token, .take, .item, .diagnostics]).2.pending =
      (scan "x $ y #" {}).2 := by
  have hanswers : (ask "x $ y #" {} [.item, .take, .token, .take, .item, .diagnostics]).1 =
        [.item (some ⟨.ident "x", 1⟩), .taken [], .token ⟨.ident "y", 1⟩,
          .taken [Fault.strayCharacter.diagnostic ['$'] 1], .item none,
          .shown [Fault.strayCharacter.diagnostic ['#'] 1]] := by
    decide +kernel
  refine ⟨hanswers, (scanner_serves "x $ y #" {} _).2.2.2.2.1 ⟨.item none, ?_, .inl rfl⟩⟩
  rw [hanswers]
  decide

end CMinus
