import CMinus.Proofs.OpenComment

/-!
# Separators: what stands apart is scanned apart

A separator is a row of blanks and closed comments. No spelling but a string runs on over a blank or
over the mark of a comment (`IsSpelling.isQuote_of_apart`). So a text in which every string and
every comment is closed is cut in front of a separator as it is cut alone
(`Tokenised.append_apart`), whatever it ends in, and behind the separator cutting starts anew, some
lines further down (`place_later`).
-/

namespace CMinus

namespace Scan

/-! ## 1. Separators -/

/-- A blank, or a comment with its closing mark. -/
inductive Spacer : List Char → Prop
  | blank {c : Char} (h : c ∈ [' ', '\t', '\r', '\n']) : Spacer [c]
  | comment {body : List Char} (h : ¬HasClosing body) :
    Spacer ('/' :: '*' :: body ++ ['*', '/'])

/-- Blanks and closed comments in a row, at least one. -/
def IsSeparator (sep : List Char) : Prop :=
  ∃ spacers, spacers ≠ [] ∧ (∀ text ∈ spacers, Spacer text) ∧ sep = spacers.flatten

/-- The text starts with a blank, or as the mark of a comment does. -/
def StartsApart (text : List Char) : Prop :=
  ∃ c cs, text = c :: cs ∧ (isBlank c = true ∨ c = '/')

/-- The segment stands for nothing: it has no token and no diagnostic. -/
def Segment.Void (s : Segment) : Prop :=
  s.token? = none ∧ ∀ strict line, s.diagnostic? strict line = none

/-- The first character of a closing mark alone closes nothing. -/
theorem not_hasClosing_concat {body : List Char} (h : ¬HasClosing body) :
    ¬HasClosing (body ++ ['*']) := by
  intro hclosing
  rcases List.infix_concat_iff.mp hclosing with hsuffix | hinfix
  · obtain ⟨front, hlast⟩ := hsuffix
    rw [List.append_cons] at hlast
    cases (List.append_inj' hlast rfl).2
  · exact h hinfix

theorem Spacer.exists_leads {text : List Char} (h : Spacer text) :
    ∃ s : Segment, s.text = text ∧ s.Void ∧ ∀ rest, Leads (s.text ++ rest) s := by
  cases h with
  | @blank c hc =>
    exact ⟨.blank c, rfl, ⟨rfl, fun _ _ => rfl⟩, fun rest => .blank (List.prefix_append _ _) hc⟩
  | @comment body hbody =>
    exact ⟨.comment body, rfl, ⟨rfl, fun _ _ => rfl⟩,
      fun rest => .comment (List.prefix_append _ _) (not_hasClosing_concat hbody)⟩

/-- In front of whatever text, spacers are cut into segments that stand for nothing. -/
theorem exists_segments_flatten {spacers : List (List Char)} (h : ∀ text ∈ spacers, Spacer text) :
    ∃ ss : List Segment, ss.flatMap Segment.text = spacers.flatten ∧ (∀ s ∈ ss, s.Void) ∧
      ∀ rest, segments (spacers.flatten ++ rest) = ss ++ segments rest := by
  induction spacers with
  | nil => exact ⟨[], rfl, List.forall_mem_nil _, fun _ => rfl⟩
  | cons text spacers ih =>
    obtain ⟨htext, hspacers⟩ := List.forall_mem_cons.mp h
    obtain ⟨s, rfl, hs, hleads⟩ := htext.exists_leads
    obtain ⟨ss, hss, hvoid, hsegments⟩ := ih hspacers
    refine ⟨s :: ss, ?_, List.forall_mem_cons.mpr ⟨hs, hvoid⟩, fun rest => ?_⟩
    · rw [List.flatMap_cons, hss, List.flatten_cons]
    · rw [List.flatten_cons, List.append_assoc]
      exact (Tokenised.cons (hleads _) (tokenised_iff.mpr (hsegments rest))).segments_eq

theorem Spacer.startsApart {text : List Char} (h : Spacer text) (rest : List Char) :
    StartsApart (text ++ rest) := by
  cases h with
  | @blank c hc => exact ⟨c, rest, rfl, .inl (isBlank_iff.mpr hc)⟩
  | comment => exact ⟨'/', _, rfl, .inr rfl⟩

theorem IsSeparator.startsApart {sep : List Char} (h : IsSeparator sep) (rest : List Char) :
    StartsApart (sep ++ rest) := by
  obtain ⟨spacers, hne, hspacers, rfl⟩ := h
  cases spacers with
  | nil => exact absurd rfl hne
  | cons text spacers =>
    rw [List.flatten_cons, List.append_assoc]
    exact (hspacers text List.mem_cons_self).startsApart _

/-! ## 2. In front of a separator -/

theorem apart_classes {d : Char} (h : isBlank d = true ∨ d = '/') :
    isWord d = false ∧ isDigit d = false ∧ d ≠ '.' ∧ d ≠ '*' ∧ d ∉ ['=', '&', '|'] := by
  rcases h with hblank | rfl
  · rcases isBlank_cases hblank with rfl | rfl | rfl | rfl <;> decide
  · decide

theorem mem_tail_spelling {s : Symbol} {d : Char} (h : d ∈ s.spelling.toList.tail) :
    d ∈ ['=', '&', '|'] := by
  have hall : s.spelling.toList.tail.all (· ∈ ['=', '&', '|']) = true := by cases s <;> rfl
  exact of_decide_eq_true (List.all_eq_true.mp hall d h)

/-- Only a string holds a blank or a slash behind its first character. -/
theorem IsSpelling.isQuote_of_apart {c d : Char} {cs : List Char} (h : IsSpelling (c :: cs))
    (hmem : d ∈ cs) (hd : isBlank d = true ∨ d = '/') : isQuote c = true := by
  obtain ⟨hword, hdigit, hpoint, _, hsymbol⟩ := apart_classes hd
  rcases h.cases_first with ⟨_, hname⟩ | ⟨_, hdigits | ⟨before, behind, hb, ha, htext⟩⟩ |
    ⟨hquote, _⟩ | ⟨_, _, _, s, hs⟩
  · rw [hname d hmem] at hword
    cases hword
  · rw [hdigits.2 d (List.mem_cons_of_mem c hmem)] at hdigit
    cases hdigit
  · have hnumber : d ∈ before ++ '.' :: behind := htext ▸ List.mem_cons_of_mem c hmem
    simp only [List.mem_append, List.mem_cons] at hnumber
    rcases hnumber with hbefore | rfl | hbehind
    · rw [hb.2 d hbefore] at hdigit
      cases hdigit
    · exact absurd rfl hpoint
    · rw [ha.2 d hbehind] at hdigit
      cases hdigit
  · exact hquote
  · have htail : d ∈ s.spelling.toList.tail := by
      rw [← hs]
      exact hmem
    exact absurd (mem_tail_spelling htail) hsymbol

section Apart

variable {c : Char} {cs tail : List Char} (htail : StartsApart tail)
include htail

/-- A spelling that is no string ends in front of a separator. -/
theorem IsSpelling.prefix_of_apart {t : List Char} (ht : IsSpelling t)
    (hp : t <+: c :: cs ++ tail) (hc : isQuote c = false) : t <+: c :: cs := by
  obtain ⟨d, ds, rfl, hd⟩ := htail
  rcases List.prefix_or_prefix_of_prefix hp (List.prefix_append (c :: cs) (d :: ds)) with
    hwithin | ⟨more, rfl⟩
  · exact hwithin
  · cases more with
    | nil => exact ⟨[], by rw [List.append_nil, List.append_nil]⟩
    | cons e more =>
      -- the spelling would run on over the first character of the separator
      obtain ⟨rfl, _⟩ := List.cons_prefix_cons.mp ((List.prefix_append_right_inj _).mp hp)
      have hmem : e ∈ cs ++ e :: more := List.mem_append_right _ List.mem_cons_self
      rw [ht.isQuote_of_apart hmem hd] at hc
      cases hc

theorem AtWord.append_apart (h : AtWord (c :: cs)) : AtWord (c :: cs ++ tail) := by
  obtain ⟨d, ds, rfl, hd⟩ := htail
  refine ⟨h.1, fun hmark => ?_⟩
  cases cs with
  | nil =>
    obtain ⟨_, hstar⟩ := List.cons_prefix_cons.mp hmark
    obtain ⟨rfl, _⟩ := List.cons_prefix_cons.mp hstar
    exact (apart_classes hd).2.2.2.1 rfl
  | cons e cs =>
    obtain ⟨rfl, hstar⟩ := List.cons_prefix_cons.mp hmark
    obtain ⟨rfl, _⟩ := List.cons_prefix_cons.mp hstar
    exact h.2 ⟨cs, rfl⟩

/-- The longest spelling stays the longest one. -/
theorem Longest.append_apart {text : List Char} (ht : IsSpelling text) (hp : text <+: c :: cs)
    (h : Longest text (c :: cs)) : Longest text (c :: cs ++ tail) := by
  intro t hspelling hprefix
  by_cases hc : isQuote c = true
  · -- two strings that start with the same quote end with the next one
    have hfound : ∀ u, IsSpelling u → u <+: c :: (cs ++ tail) →
        ∃ rest, string? (c :: (cs ++ tail)) = some (u, rest) := by
      intro u hu hup
      cases u with
      | nil => exact absurd rfl hu.ne_nil
      | cons e es =>
        obtain ⟨rfl, hes⟩ := List.cons_prefix_cons.mp hup
        exact string?_of_spelling hc hu hes
    obtain ⟨_, htext⟩ := hfound text ht (hp.trans (List.prefix_append _ _))
    obtain ⟨_, hother⟩ := hfound t hspelling hprefix
    rw [htext] at hother
    cases hother
    exact Nat.le_refl _
  · exact h t hspelling (hspelling.prefix_of_apart htail hprefix (eq_false_of_ne_true hc))

end Apart

/-- The segment is no comment and no string that is never closed. -/
def Segment.Ended (s : Segment) : Prop :=
  s.Closed ∧ ∀ text, s ≠ .rejected .openString text

/-- What a text begins with does not change in front of a separator. -/
theorem Leads.append_apart {text tail : List Char} {s : Segment} (h : Leads text s) (hs : s.Ended)
    (htail : StartsApart tail) : Leads (text ++ tail) s := by
  cases text with
  | nil => exact absurd h not_leads_nil
  | cons c cs =>
    cases h with
    | blank hp h => exact .blank (hp.trans (List.prefix_append _ _)) h
    | comment hp first => exact .comment (hp.trans (List.prefix_append _ _)) first
    | openComment hall never => exact absurd rfl (hs.1 _)
    | spelling word hp h longest =>
      exact .spelling (word.append_apart htail) (hp.trans (List.prefix_append _ _)) h
        (longest.append_apart htail ⟨s, h⟩ hp)
    | stray word hp none =>
      obtain ⟨rfl, _⟩ := List.cons_prefix_cons.mp hp
      have hc : isQuote _ = false := eq_false_of_ne_true fun hc => hs.2 [_] (by rw [if_pos hc])
      refine .stray (word.append_apart htail) (hp.trans (List.prefix_append _ _)) fun t ht hpt => ?_
      exact none t ht (ht.prefix_of_apart htail hpt hc)

theorem Tokenised.append_apart {cs tail : List Char} {ss ts : List Segment}
    (h : Tokenised cs ss) (hss : ∀ s ∈ ss, s.Ended) (htail : StartsApart tail)
    (ht : Tokenised tail ts) : Tokenised (cs ++ tail) (ss ++ ts) := by
  induction h with
  | nil => exact ht
  | @cons s rest ss h _ ih =>
    obtain ⟨hs, hss⟩ := List.forall_mem_cons.mp hss
    have hleads := h.append_apart hs htail
    rw [List.append_assoc] at hleads ⊢
    exact .cons hleads (ih hss)

/-! ## 3. Behind a separator -/

/-- The same segment some lines further down. -/
def Placed.later (n : Nat) (p : Placed) : Placed :=
  ⟨p.segment, p.line + n⟩

theorem place_later (n line : Nat) (ss : List Segment) :
    place (line + n) ss = (place line ss).map (Placed.later n) := by
  induction ss generalizing line with
  | nil => rfl
  | cons s ss ih =>
    rw [place, place, List.map_cons, ← ih, Nat.add_right_comm]
    rfl

theorem exists_mem_place {ss : List Segment} {s : Segment} (h : s ∈ ss) (line : Nat) :
    ∃ n, ⟨s, n⟩ ∈ place line ss := by
  obtain ⟨front, ahead, rfl⟩ := List.append_of_mem h
  rw [place_append, place]
  exact ⟨_, List.mem_append_right _ List.mem_cons_self⟩

/-- Nothing is read off segments that stand for nothing. -/
theorem filterMap_void {α : Type} {f : Placed → Option α} {ss : List Segment}
    (h : ∀ s ∈ ss, ∀ line, f ⟨s, line⟩ = none) (line : Nat) :
    (place line ss).filterMap f = [] := by
  refine List.filterMap_eq_nil_iff.mpr fun p hp => ?_
  obtain ⟨front, ahead, rfl, _⟩ := exists_of_mem_place hp
  exact h p.segment (List.mem_append_right _ List.mem_cons_self) p.line

end Scan

/-- The same token some lines further down. -/
def Lexeme.later (n : Nat) (l : Lexeme) : Lexeme :=
  ⟨l.token, l.line + n⟩

/-- The same diagnostic some lines further down. -/
def Diagnostic.later (n : Nat) (d : Diagnostic) : Diagnostic :=
  { d with line := d.line + n }

namespace Scan

theorem lexeme?_later (n : Nat) (p : Placed) :
    (p.later n).lexeme? = p.lexeme?.map (Lexeme.later n) := by
  rw [Placed.lexeme?, Placed.lexeme?, Option.map_map]
  rfl

theorem diagnostic?_later (strict : Bool) (n : Nat) (p : Placed) :
    (p.later n).diagnostic? strict = (p.diagnostic? strict).map (Diagnostic.later n) := by
  obtain ⟨s, line⟩ := p
  cases s with
  | openComment body => cases strict <;> rfl
  | _ => rfl

end Scan

/-! ## 4. Sources -/

open Scan

theorem scan_reports (source : String) (o : Options) : (scan source o).2 =
    (place 1 (segments source.toList)).filterMap (Placed.diagnostic? o.strictComments) := by
  rw [scan_diagnostics]
  rfl

section Sources

variable {front sep behind : String} {o : Options}

/-- Open strings and open comments are reported. -/
theorem ended_of_scan (h : ∀ d ∈ (scan front { o with strictComments := true }).2,
    d.message ≠ "unterminated string literal" ∧ d.message ≠ "unterminated block comment") :
    ∀ s ∈ segments front.toList, s.Ended := by
  intro s hs
  obtain ⟨line, hplaced⟩ := exists_mem_place hs 1
  have hreported : ∀ d, s.diagnostic? true line = some d →
      d ∈ (scan front { o with strictComments := true }).2 := by
    intro d hd
    rw [scan_reports]
    exact List.mem_filterMap.mpr ⟨_, hplaced, hd⟩
  refine ⟨fun body hopen => ?_, fun text hopen => ?_⟩
  · subst hopen
    exact (h _ (hreported _ rfl)).2 rfl
  · subst hopen
    exact (h _ (hreported _ rfl)).1 rfl

/-- What is read off the segments of two texts that stand apart. -/
theorem filterMap_apart {α : Type} {f : Placed → Option α} {shift : Nat → α → α}
    (hf : ∀ s : Segment, s.Void → ∀ line, f ⟨s, line⟩ = none)
    (hshift : ∀ n p, f (p.later n) = (f p).map (shift n)) (hsep : IsSeparator sep.toList)
    (hfront : ∀ s ∈ segments front.toList, s.Ended) :
    (place 1 (segments (front ++ sep ++ behind).toList)).filterMap f =
      (place 1 (segments front.toList)).filterMap f ++
        ((place 1 (segments behind.toList)).filterMap f).map
          (shift ((front ++ sep).toList.count '\n')) := by
  have hapart := hsep.startsApart behind.toList
  obtain ⟨spacers, _, hspacers, hflatten⟩ := hsep
  obtain ⟨void, htext, hvoid, hcut⟩ := exists_segments_flatten hspacers
  rw [← hflatten] at htext hcut
  have hsegments : segments (front ++ sep ++ behind).toList =
      segments front.toList ++ (void ++ segments behind.toList) := by
    rw [String.toList_append, String.toList_append, List.append_assoc, ← hcut]
    exact ((tokenised_segments front.toList).append_apart hfront hapart
      (tokenised_segments _)).segments_eq
  have hnone : ∀ line, (place line void).filterMap f = [] :=
    filterMap_void fun s hs => hf s (hvoid s hs)
  rw [hsegments, place_append, place_append, List.filterMap_append, List.filterMap_append, hnone,
    List.nil_append, segments_flatMap_text, htext, Nat.add_assoc, ← List.count_append,
    ← String.toList_append, place_later, List.filterMap_map, List.map_filterMap]
  exact congrArg _ (List.filterMap_congr fun p _ => hshift _ p)

end Sources

/-- **What stands apart is scanned apart.** When every string and every comment of a text is closed,
    the tokens of the text, a separator and another text are those of the one, and behind them those
    of the other, which come as many lines further down as end in front of them; and so are the
    diagnostics. So separators are interchangeable: the tokens are the same with any other one. -/
theorem scan_apart {front sep : String} (behind : String) (o : Options)
    (hsep : IsSeparator sep.toList)
    (hends : ∀ d ∈ (scan front { o with strictComments := true }).2,
      d.message ≠ "unterminated string literal" ∧ d.message ≠ "unterminated block comment") :
    (scan (front ++ sep ++ behind) o).1 =
        (scan front o).1 ++
          (scan behind o).1.map (Lexeme.later ((front ++ sep).toList.count '\n')) ∧
      (scan (front ++ sep ++ behind) o).2 =
        (scan front o).2 ++
          (scan behind o).2.map (Diagnostic.later ((front ++ sep).toList.count '\n')) ∧
      ∀ sep' : String, IsSeparator sep'.toList →
        Parse.tokensOf (scan (front ++ sep' ++ behind) o).1 =
          Parse.tokensOf (scan (front ++ sep ++ behind) o).1 := by
  have hfront := ended_of_scan hends
  have hlexemes : ∀ sep : String, IsSeparator sep.toList →
      (scan (front ++ sep ++ behind) o).1 = (scan front o).1 ++
        (scan behind o).1.map (Lexeme.later ((front ++ sep).toList.count '\n')) := by
    intro sep hsep
    refine filterMap_apart (fun s hs line => ?_) lexeme?_later hsep hfront
    rw [Placed.lexeme?, hs.1]
    rfl
  have htokens : ∀ sep : String, IsSeparator sep.toList →
      Parse.tokensOf (scan (front ++ sep ++ behind) o).1 =
        Parse.tokensOf (scan front o).1 ++ Parse.tokensOf (scan behind o).1 := by
    intro sep hsep
    rw [hlexemes sep hsep, Parse.tokensOf, List.map_append, List.map_map]
    rfl
  refine ⟨hlexemes sep hsep, ?_, fun sep' hsep' => by rw [htokens sep' hsep', htokens sep hsep]⟩
  rw [scan_reports, scan_reports, scan_reports]
  exact filterMap_apart (fun s hs line => hs.2 _ line) (diagnostic?_later _) hsep hfront

/-- A slash in front of a comment that holds a quote, and an equals sign behind it. -/
theorem scan_apart_slash :
    IsSeparator "/*'**/\n".toList ∧
      (scan ("x /" ++ "/*'**/\n" ++ "= $") {}).1 =
        [⟨.ident "x", 1⟩, ⟨.symbol .divide, 1⟩, ⟨.symbol .assign, 2⟩] ∧
      (scan ("x /" ++ "/*'**/\n" ++ "= $") {}).2 =
        [.lexical "unexpected character '$'" "$" 2] := by
  have hbody : ¬HasClosing ['\'', '*'] := by
    rw [← commentBody?_eq_none_iff]
    rfl
  have hsep : IsSeparator "/*'**/\n".toList := by
    refine ⟨[_, ['\n']], List.cons_ne_nil _ _, List.forall_mem_cons.mpr
      ⟨.comment hbody, List.forall_mem_singleton.mpr (.blank (by decide))⟩, by decide⟩
  have hends : ∀ d ∈ (scan "x /" { strictComments := true }).2,
      d.message ≠ "unterminated string literal" ∧ d.message ≠ "unterminated block comment" := by
    rw [scan_reports]
    decide +kernel
  obtain ⟨htokens, hdiagnostics, _⟩ := scan_apart "= $" {} hsep hends
  refine ⟨hsep, htokens.trans (by decide +kernel), hdiagnostics.trans ?_⟩
  rw [scan_reports, scan_reports]
  decide +kernel

end CMinus
