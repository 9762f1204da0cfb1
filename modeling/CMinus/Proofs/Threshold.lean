import CMinus.Proofs.Budgets

/-!
# Threshold: what a greater nesting limit changes

The same tokens are read twice, under a budget and under a greater one. As long as the smaller
budget lasts, both readings do the same. Where it runs out, at least as many tokens have been read
as it had levels, and the greater budget stops there or further behind (`Widens`, which says less of
the greater budget than `Overtakes`).

So a limit only decides whether a source is too deep: a source that is not too deep under one limit
is read in the same way under every greater one, one that is too deep under the greater limit is so
under the smaller one and no later, and a limit that is no smaller than the number of tokens is
never reached (`limit_is_threshold`).
-/

namespace CMinus

namespace Parse

variable {α : Type}

/-! ## 1. Two budgets -/

/-- What comes of the tokens `ts` under a budget of `n` levels, and under a greater one. -/
inductive Widens (n : Nat) (ts : List Lexeme) :
    Except Failure (Read α) → Except Failure (Read α) → Prop
  /-- Both read the same. -/
  | ok (a : α) {rest : List Lexeme} (hs : rest <:+ ts) : Widens n ts (.ok (a, rest)) (.ok (a, rest))
  /-- Both stop at the same token, for the same reason. -/
  | fail (what : Expected) {rest : List Lexeme} (hs : rest <:+ ts) :
    Widens n ts (.error ⟨.expected what, rest⟩) (.error ⟨.expected what, rest⟩)
  /-- The smaller budget runs out, not before `n` tokens, and the greater one gets no less far. -/
  | short {rest : List Lexeme} {r : Except Failure (Read α)} (hs : rest <:+ ts)
    (hn : n + rest.length ≤ ts.length) (hr : leftOf r <:+ rest) :
    Widens n ts (.error ⟨.tooDeep, rest⟩) r

namespace Widens

variable {n : Nat} {ts rest : List Lexeme} {r r' : Except Failure (Read α)}

/-- Who opened the level at which the smaller budget runs out does not matter here. -/
theorem of_overtakes (h : Overtakes n ts r r') : Widens n ts r r' := by
  cases h with
  | ok a hs => exact .ok a hs
  | fail what hs => exact .fail what hs
  | short hs hn hr => exact .short hs hn hr.suffix

/-- A budget that lasts is as good as a greater one. -/
theorem eq_of_ne_tooDeep (h : Widens n ts r r') (hr : ∀ rest, r ≠ .error ⟨.tooDeep, rest⟩) :
    r' = r := by
  cases h with
  | ok | fail => rfl
  | short => exact absurd rfl (hr _)

/-- Where the greater budget runs out, the smaller one has run out, no further behind. -/
theorem exists_of_tooDeep (h : Widens n ts r r') (hr : r' = .error ⟨.tooDeep, rest⟩) :
    ∃ rest', r = .error ⟨.tooDeep, rest'⟩ ∧ rest <:+ rest' ∧ rest' <:+ ts := by
  cases h with
  | ok | fail => cases hr
  | short hs _ hleft =>
    rw [hr] at hleft
    exact ⟨_, rfl, hleft, hs⟩

/-- A budget does not run out before as many tokens are read. -/
theorem le_of_tooDeep (h : Widens n ts r r') (hr : r = .error ⟨.tooDeep, rest⟩) :
    n + rest.length ≤ ts.length := by
  cases h with
  | ok | fail => cases hr
  | short hs hn _ =>
    cases hr
    exact hn

end Widens

/-- The two readings of all rows of tokens. -/
def WidensTo (n : Nat) (p p' : Production α) : Prop :=
  ∀ ts, Widens n ts (p ts) (p' ts)

theorem program_widens {n m : Nat} (h : n ≤ m) : WidensTo (n + 1) (program n) (program m) :=
  fun ts => .of_overtakes (program_overtakes h ts)

end Parse

/-! ## 2. Limits -/

open Parse

/-- The message is the one of tokens that are nested too deep, under some limit. -/
def Diagnostic.IsTooDeep (d : Diagnostic) : Prop :=
  ∃ limit : Nat, d.message = "input nested deeper than " ++ toString limit ++ " levels"

/-- Reading stops at the `k`th token of the source, or at the end mark behind the last one, and the
    parse reports that this token is nested too deep. -/
def TooDeepAt (source : String) (o : Options) (k : Nat) : Prop :=
  ∃ ds l, parse source o = .error ds ∧ (marked source o)[k]? = some l ∧
    Diagnostic.tooDeep o.maxNesting l.token l.line ∈ ds ∧
    k + (leftOf (program o.maxNesting (scan source o).1)).length = (scan source o).1.length

/-- The first characters of a message tell that it is not about the limit. -/
theorem Diagnostic.not_isTooDeep {d : Diagnostic} (front behind : String)
    (h : d.message = front ++ behind) (hlength : 3 ≤ front.toList.length)
    (hfront : front.toList.take 3 ≠ ['i', 'n', 'p']) : ¬d.IsTooDeep := by
  intro hdeep
  obtain ⟨limit, hmessage⟩ := hdeep
  have htake : (front ++ behind).toList.take 3 = front.toList.take 3 := by
    rw [String.toList_append, List.take_append_of_le_length hlength]
  rw [← h, hmessage, String.append_assoc, String.toList_append] at htake
  exact hfront htake.symm

theorem Scan.Fault.not_isTooDeep (fault : Fault) (text : List Char) (line : Nat) :
    ¬(fault.diagnostic text line).IsTooDeep := by
  cases fault with
  | wholeOutOfRange =>
    exact Diagnostic.not_isTooDeep "integer literal '" _ String.append_assoc
      (by decide) (by decide)
  | fractionOutOfRange =>
    exact Diagnostic.not_isTooDeep "float literal '" _ String.append_assoc (by decide) (by decide)
  | openString =>
    exact Diagnostic.not_isTooDeep "unterminated string literal" "" String.append_empty.symm
      (by decide) (by decide)
  | openComment =>
    exact Diagnostic.not_isTooDeep "unterminated block comment" "" String.append_empty.symm
      (by decide) (by decide)
  | strayCharacter =>
    exact Diagnostic.not_isTooDeep "unexpected character '" _ String.append_assoc
      (by decide) (by decide)

theorem Diagnostic.not_isTooDeep_unexpected (expected : String) (found : Token) (line : Nat) :
    ¬(unexpected expected found line).IsTooDeep := by
  by_cases heof : found = .eof
  · rw [heof]
    exact not_isTooDeep "unexpected end of input" _ String.append_assoc (by decide) (by decide)
  · have hmessage : (unexpected expected found line).message =
        "unexpected token '" ++ (found.spelling ++ ("'" ++ (", expected " ++ expected))) := by
      cases found with
      | eof => exact absurd rfl heof
      | _ => simp only [unexpected, String.append_assoc]
    exact not_isTooDeep _ _ hmessage (by decide) (by decide)

section Source

variable {source : String} {o : Options}

theorem not_isTooDeep_of_mem_scan {d : Diagnostic} (h : d ∈ (scan source o).2) :
    ¬d.IsTooDeep := by
  rw [scan_diagnostics] at h
  obtain ⟨p, _, hp⟩ := List.mem_filterMap.mp h
  rcases p with ⟨s, line⟩
  cases s with
  | rejected fault text =>
    cases hp
    exact fault.not_isTooDeep text line
  | openComment body =>
    rw [Scan.Placed.diagnostic?, Scan.Segment.diagnostic?] at hp
    split at hp
    · cases hp
      exact Scan.Fault.not_isTooDeep _ _ _
    · cases hp
  | _ => cases hp

/-- A diagnostic about the limit is that of the token at which reading ran out of levels. -/
theorem exists_tooDeep_of_mem {ds : List Diagnostic} {d : Diagnostic}
    (hparse : parse source o = .error ds) (hd : d ∈ ds) (hdeep : d.IsTooDeep) :
    ∃ rest, program o.maxNesting (scan source o).1 = .error ⟨.tooDeep, rest⟩ := by
  rcases parse_eq_error_iff.mp hparse with ⟨_, _, _, rfl⟩ | ⟨f, hf, rfl⟩
  · exact absurd hdeep (not_isTooDeep_of_mem_scan hd)
  · rcases List.mem_append.mp (Diagnostic.mem_sorted.mp hd) with hmem | hmem
    · exact absurd hdeep (not_isTooDeep_of_mem_scan hmem)
    · rw [List.mem_singleton.mp hmem] at hdeep
      rcases f with ⟨cause, rest⟩
      cases cause with
      | tooDeep => exact ⟨rest, hf⟩
      | expected what => exact absurd hdeep (Diagnostic.not_isTooDeep_unexpected _ _ _)

theorem tooDeepAt_iff {k : Nat} : TooDeepAt source o k ↔
    ∃ rest, program o.maxNesting (scan source o).1 = .error ⟨.tooDeep, rest⟩ ∧
      k + rest.length = (scan source o).1.length := by
  constructor
  · intro h
    obtain ⟨ds, l, hparse, _, hmem, hk⟩ := h
    obtain ⟨rest, hrest⟩ := exists_tooDeep_of_mem hparse hmem ⟨o.maxNesting, rfl⟩
    rw [hrest] at hk
    exact ⟨rest, hrest, hk⟩
  · intro h
    obtain ⟨rest, hrest, hk⟩ := h
    obtain ⟨front, hfront⟩ := suffix_of_error hrest
    have hlength : front.length = k := by
      rw [← hfront, List.length_append] at hk
      omega
    refine ⟨_, rest.headD ⟨.eof, (Scan.Scanner.start source o).endLine⟩,
      parse_eq_error_iff.mpr (.inr ⟨_, hrest, rfl⟩), ?_, ?_, ?_⟩
    · rw [← hlength]
      exact getElem?_marked hfront.symm
    · exact Diagnostic.mem_sorted.mpr (List.mem_append_right _ List.mem_cons_self)
    · rw [hrest]
      exact hk

end Source

section Limits

variable {source : String} {o : Options} {n m : Nat} (h : n ≤ m)
include h

theorem parse_ok_of_le {p : Program} (hp : parse source (o.withMaxNesting n) = .ok p) :
    parse source (o.withMaxNesting m) = .ok p := by
  obtain ⟨hscan, rest, hread⟩ := parse_eq_ok_iff.mp hp
  have hread : program n (scan source o).1 = .ok (p, rest) := hread
  have hsame := (program_widens h _).eq_of_ne_tooDeep (by rw [hread]; exact fun _ => nofun)
  exact parse_eq_ok_iff.mpr ⟨hscan, rest, hsame.trans hread⟩

/-- A rejection that is not about the limit does not depend on it. -/
theorem parse_error_of_le {ds : List Diagnostic}
    (hds : parse source (o.withMaxNesting n) = .error ds) (hnone : ∀ d ∈ ds, ¬d.IsTooDeep) :
    parse source (o.withMaxNesting m) = .error ds := by
  rcases parse_eq_error_iff.mp hds with ⟨read, hread, hscan, rfl⟩ | ⟨⟨cause, rest⟩, hf, rfl⟩
  · have hread : program n (scan source o).1 = .ok read := hread
    have hsame := (program_widens h _).eq_of_ne_tooDeep (by rw [hread]; exact fun _ => nofun)
    exact parse_eq_error_iff.mpr (.inl ⟨read, hsame.trans hread, hscan, rfl⟩)
  · have hf : program n (scan source o).1 = .error ⟨cause, rest⟩ := hf
    cases cause with
    | tooDeep =>
      have hmem := List.mem_append_right (scan source o).2 (List.mem_singleton_self
        (Failure.diagnostic n (Scan.Scanner.start source o).endLine ⟨.tooDeep, rest⟩))
      exact absurd ⟨n, rfl⟩ (hnone _ (Diagnostic.mem_sorted.mpr hmem))
    | expected what =>
      have hsame := (program_widens h _).eq_of_ne_tooDeep (by rw [hf]; exact fun _ => nofun)
      exact parse_eq_error_iff.mpr (.inr ⟨_, hsame.trans hf, rfl⟩)

theorem tooDeepAt_of_le {k : Nat} (hk : TooDeepAt source (o.withMaxNesting m) k) :
    ∃ j ≤ k, TooDeepAt source (o.withMaxNesting n) j := by
  obtain ⟨rest, hrest, hlength⟩ := tooDeepAt_iff.mp hk
  have hlength : k + rest.length = (scan source o).1.length := hlength
  obtain ⟨rest', hrest', hle, front, hfront⟩ := (program_widens h _).exists_of_tooDeep hrest
  have hfront := congrArg List.length hfront
  have hle := hle.length_le
  rw [List.length_append] at hfront
  exact ⟨front.length, by omega, tooDeepAt_iff.mpr ⟨rest', hrest', hfront⟩⟩

end Limits

/-- **The nesting limit is a threshold.** What is accepted under a limit is accepted under every
    greater one, as the same program; what is rejected, but not as too deep, is rejected under every
    greater one with the same diagnostics. Every diagnostic about the limit tells a token that is
    nested too deep; where there is one under a limit, there is one under every smaller limit, no
    further behind. And a limit that is no smaller than the number of tokens is never reached. -/
theorem limit_is_threshold (source : String) (o : Options) {n m : Nat} (h : n ≤ m) :
    (∀ p, parse source (o.withMaxNesting n) = .ok p →
      parse source (o.withMaxNesting m) = .ok p) ∧
    (∀ ds, parse source (o.withMaxNesting n) = .error ds → (∀ d ∈ ds, ¬d.IsTooDeep) →
      parse source (o.withMaxNesting m) = .error ds) ∧
    (∀ ds, parse source (o.withMaxNesting m) = .error ds → (∃ d ∈ ds, d.IsTooDeep) →
      ∃ k, TooDeepAt source (o.withMaxNesting m) k) ∧
    (∀ k, TooDeepAt source (o.withMaxNesting m) k →
      ∃ j ≤ k, TooDeepAt source (o.withMaxNesting n) j) ∧
    ((scan source o).1.length ≤ n → ∀ ds, parse source (o.withMaxNesting n) = .error ds →
      ∀ d ∈ ds, ¬d.IsTooDeep) := by
  refine ⟨fun _ => parse_ok_of_le h, fun _ => parse_error_of_le h, fun ds hds hdeep => ?_,
    fun _ => tooDeepAt_of_le h, fun hroom ds hds d hd hdeep => ?_⟩
  · obtain ⟨d, hd, hdeep⟩ := hdeep
    obtain ⟨rest, hrest⟩ := exists_tooDeep_of_mem hds hd hdeep
    obtain ⟨front, hfront⟩ := suffix_of_error hrest
    refine ⟨front.length, tooDeepAt_iff.mpr ⟨rest, hrest, ?_⟩⟩
    rw [← List.length_append, hfront]
  · obtain ⟨rest, hrest⟩ := exists_tooDeep_of_mem hds hd hdeep
    have hle := (program_widens h (scan source o).1).le_of_tooDeep hrest
    omega

/-- Under three levels a sum in a product is too deep, under two the parenthesis in front of it. -/
theorem limit_is_threshold_product :
    2 ≤ 3 ∧
      TooDeepAt "int f() \x7b return a * (b + c); \x7d" (({} : Options).withMaxNesting 3) 10 ∧
      ∃ j ≤ 10,
        TooDeepAt "int f() \x7b return a * (b + c); \x7d" (({} : Options).withMaxNesting 2) j := by
  have hread :
      (match program 3 (scan "int f() \x7b return a * (b + c); \x7d" {}).1 with
        | .ok _ => none
        | .error f => some f) =
        some ⟨.tooDeep, [⟨.symbol .plus, 1⟩, ⟨.ident "c", 1⟩, ⟨.symbol .rparen, 1⟩,
          ⟨.symbol .semicolon, 1⟩, ⟨.symbol .rbrace, 1⟩]⟩ := by
    decide +kernel
  have hdeep :
      TooDeepAt "int f() \x7b return a * (b + c); \x7d" (({} : Options).withMaxNesting 3) 10 := by
    cases hp : program 3 (scan "int f() \x7b return a * (b + c); \x7d" {}).1 with
    | ok read =>
      rw [hp] at hread
      cases hread
    | error f =>
      rw [hp] at hread
      obtain rfl := Option.some.inj hread
      exact tooDeepAt_iff.mpr ⟨_, hp, by decide +kernel⟩
  exact ⟨by decide, hdeep, (limit_is_threshold _ {} (by decide)).2.2.2.1 10 hdeep⟩

end CMinus
