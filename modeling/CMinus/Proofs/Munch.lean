import CMinus.Proofs.Diagnostics

/-!
# Munch: a source is cut into the longest spellings

What a spelling is, and what it spells, is said here without cutting anything (`Spells`). A source
is tokenised (`Tokenised`) when it is taken apart into blanks, comments up to their first closing
mark, and, everywhere else, the longest spelling that the rest of the source begins with, or a
single character where it begins with none.

Every source is tokenised in one way only, and that is how it is cut (`tokenised_iff`).
-/

namespace CMinus.Scan

/-! ## 1. Spellings -/

/-- The text is a spelling, and the segment is what it spells: a token, or a number that is out of
    range. -/
inductive Spells : List Char → Segment → Prop
  | keyword (k : Keyword) : Spells k.spelling.toList (.token (.keyword k) k.spelling.toList)
  /-- A letter or an underscore, and word characters, that are no keyword together. -/
  | name {c : Char} {cs : List Char} (start : isNameStart c = true)
      (word : ∀ d ∈ cs, isWord d = true) (free : ∀ k : Keyword, k.spelling.toList ≠ c :: cs) :
      Spells (c :: cs) (.token (.ident (String.ofList (c :: cs))) (c :: cs))
  | whole {digits : List Char} (h : Digits digits)
      (range : Nat.ofDigitChars 10 digits 0 < 2 ^ 63) :
      Spells digits (.token (.int (Nat.ofDigitChars 10 digits 0)) digits)
  | wholeOutOfRange {digits : List Char} (h : Digits digits)
      (range : 2 ^ 63 ≤ Nat.ofDigitChars 10 digits 0) :
      Spells digits (.rejected .wholeOutOfRange digits)
  /-- Digits around a point spell the nearest word, when it is finite. -/
  | fraction {before behind : List Char} (hb : Digits before) (ha : Digits behind)
      {value : Binary64}
      (nearest : value =
        .ofRatio (Nat.ofDigitChars 10 (before ++ behind) 0) (10 ^ behind.length))
      (range : value.isFinite = true) :
      Spells (before ++ '.' :: behind) (.token (.float value) (before ++ '.' :: behind))
  | fractionOutOfRange {before behind : List Char} (hb : Digits before) (ha : Digits behind)
      {value : Binary64}
      (nearest : value =
        .ofRatio (Nat.ofDigitChars 10 (before ++ behind) 0) (10 ^ behind.length))
      (range : value.isFinite = false) :
      Spells (before ++ '.' :: behind) (.rejected .fractionOutOfRange (before ++ '.' :: behind))
  /-- Two quotes of one kind spell what stands between them. -/
  | string {quote : Char} {body : List Char} (hq : quote = '\'' ∨ quote = '"')
      (free : quote ∉ body) :
      Spells (quote :: body ++ [quote])
        (.token (.string (String.ofList body)) (quote :: body ++ [quote]))
  | symbol (s : Symbol) : Spells s.spelling.toList (.token (.symbol s) s.spelling.toList)

/-- The text is a spelling. -/
def IsSpelling (text : List Char) : Prop :=
  ∃ s, Spells text s

theorem Spells.text {text : List Char} {s : Segment} (h : Spells text s) : s.text = text := by
  cases h <;> rfl

theorem digitsValue_eq (digits : List Char) :
    digitsValue digits = Nat.ofDigitChars 10 digits 0 := by
  rw [digitsValue, Nat.ofDigitChars_eq_foldl]

theorem toBinary64_fractionDecimal {before behind : List Char} (hb : Digits before)
    (ha : Digits behind) :
    (fractionDecimal (before ++ '.' :: behind)).toBinary64 =
      .ofRatio (Nat.ofDigitChars 10 (before ++ behind) 0) (10 ^ behind.length) := by
  have hneg : (-(behind.length : Int)).toNat = 0 := by omega
  have hpos : (- -(behind.length : Int)).toNat = behind.length := by omega
  rw [fractionDecimal_point hb ha, Decimal.toBinary64, hneg, hpos, Nat.pow_zero, Nat.mul_one,
    digitsValue_eq]

theorem ofText?_eq_none {text : String} (h : ∀ k : Keyword, k.spelling ≠ text) :
    Keyword.ofText? text = none :=
  List.find?_eq_none.mpr fun k _ => by simpa using h k

/-- A spelling is cut as one segment, which is what it spells. -/
theorem Spells.segments_eq {text : List Char} {s : Segment} (h : Spells text s) :
    segments text = [s] := by
  have hnil : segments [] = [] := by rw [segments]
  rw [← List.append_nil text]
  cases h with
  | keyword k =>
    obtain ⟨hname, hkeyword⟩ := k.name?_spelling
    rw [segments_name hname (stopsAt_nil _), String.ofList_toList, hkeyword, hnil]
  | @name c cs start word free =>
    obtain ⟨ht, hd⟩ := takeWhile_append_stop word (stopsAt_nil isWord)
    rw [List.append_nil] at ht hd
    have hname : name? (c :: cs) = some (c :: cs, []) := by rw [name?, if_pos start, ht, hd]
    have hfree := ofText?_eq_none fun k hk => free k (by rw [hk, String.toList_ofList])
    rw [segments_name hname (stopsAt_nil _), Token.ofName, hfree, hnil]
  | whole h range =>
    rw [segments_whole h (stopsAt_nil _), wholeSegment, digitsValue_eq, if_pos range, hnil]
  | wholeOutOfRange h range =>
    rw [segments_whole h (stopsAt_nil _), wholeSegment, digitsValue_eq,
      if_neg (Nat.not_lt_of_le range), hnil]
  | fraction hb ha nearest range =>
    rw [segments_fraction hb ha (stopsAt_nil _), fractionSegment, toBinary64_fractionDecimal hb ha,
      ← nearest, if_pos range, hnil]
  | fractionOutOfRange hb ha nearest range =>
    rw [segments_fraction hb ha (stopsAt_nil _), fractionSegment, toBinary64_fractionDecimal hb ha,
      ← nearest, if_neg (by rw [range]; decide), hnil]
  | @string quote body hq free =>
    have hquote : isQuote quote = true := by rcases hq with rfl | rfl <;> rfl
    rw [segments_string hquote free, hnil]
  | symbol s => rw [segments_symbol s (stopsAt_nil _), hnil]

/-- A text spells one thing only. -/
theorem Spells.unique {text : List Char} {s s' : Segment} (h : Spells text s)
    (h' : Spells text s') : s = s' :=
  List.head_eq_of_cons_eq (h.segments_eq.symm.trans h'.segments_eq)

/-! ## 2. What a spelling starts with

The first character of a spelling says whether it is a name or a keyword, a number, a string, or a
symbol. -/

theorem isQuote_cases {c : Char} (h : isQuote c = true) : c = '\'' ∨ c = '"' := by
  simpa [isQuote] using h

theorem classes_of_isQuote {c : Char} (h : isQuote c = true) :
    isNameStart c = false ∧ isDigit c = false := by
  rcases isQuote_cases h with rfl | rfl <;> decide

theorem Digits.exists_cons {digits : List Char} (h : Digits digits) :
    ∃ c cs, digits = c :: cs ∧ isDigit c = true := by
  cases digits with
  | nil => exact absurd rfl h.1
  | cons c cs => exact ⟨c, cs, rfl, h.2 c List.mem_cons_self⟩

theorem name?_eq_some {c : Char} {cs text rest : List Char}
    (h : name? (c :: cs) = some (text, rest)) :
    isNameStart c = true ∧ text = c :: cs.takeWhile isWord := by
  rw [name?] at h
  split at h
  · cases h
    exact ⟨‹_›, rfl⟩
  · cases h

theorem IsSpelling.cases_first {c : Char} {cs : List Char} (h : IsSpelling (c :: cs)) :
    (isNameStart c = true ∧ ∀ d ∈ cs, isWord d = true) ∨
      (isDigit c = true ∧ (Digits (c :: cs) ∨
        ∃ before behind, Digits before ∧ Digits behind ∧ c :: cs = before ++ '.' :: behind)) ∨
      (isQuote c = true ∧ ∃ body, c ∉ body ∧ cs = body ++ [c]) ∨
      (isNameStart c = false ∧ isDigit c = false ∧ isQuote c = false ∧
        ∃ s : Symbol, c :: cs = s.spelling.toList) := by
  obtain ⟨s, h⟩ := h
  generalize htext : c :: cs = text at h
  cases h with
  | keyword k =>
    have hname := k.name?_spelling.1
    rw [← htext] at hname
    obtain ⟨start, hcs⟩ := name?_eq_some hname
    have hword : ∀ d ∈ cs.takeWhile isWord, isWord d = true :=
      List.all_eq_true.mp List.all_takeWhile
    rw [← (List.cons.inj hcs).2] at hword
    exact .inl ⟨start, hword⟩
  | name start word free =>
    cases htext
    exact .inl ⟨start, word⟩
  | whole hd | wholeOutOfRange hd =>
    rw [← htext] at hd
    exact .inr (.inl ⟨hd.2 c List.mem_cons_self, .inl (htext ▸ hd)⟩)
  | fraction hb ha | fractionOutOfRange hb ha =>
    obtain ⟨d, ds, rfl, hd⟩ := hb.exists_cons
    cases htext
    exact .inr (.inl ⟨hd, .inr ⟨_, _, hb, ha, rfl⟩⟩)
  | string hq free =>
    cases htext
    exact .inr (.inr (.inl ⟨by rcases hq with rfl | rfl <;> rfl, _, free, rfl⟩))
  | symbol s =>
    refine .inr (.inr (.inr ?_))
    cases s <;> cases htext <;> exact ⟨by decide, by decide, by decide, _, rfl⟩

section First

variable {c : Char} {cs : List Char} (h : IsSpelling (c :: cs))
include h

theorem IsSpelling.word (hc : isNameStart c = true) : ∀ d ∈ cs, isWord d = true := by
  rcases h.cases_first with ⟨_, hword⟩ | ⟨hdigit, _⟩ | ⟨hquote, _⟩ | ⟨hname, _⟩
  · exact hword
  · simp [isNameStart_eq_false hdigit] at hc
  · simp [(classes_of_isQuote hquote).1] at hc
  · simp [hname] at hc

theorem IsSpelling.number (hc : isDigit c = true) :
    Digits (c :: cs) ∨
      ∃ before behind, Digits before ∧ Digits behind ∧ c :: cs = before ++ '.' :: behind := by
  rcases h.cases_first with ⟨hname, _⟩ | ⟨_, hnumber⟩ | ⟨hquote, _⟩ | ⟨_, hdigit, _⟩
  · simp [isNameStart_eq_false hc] at hname
  · exact hnumber
  · simp [(classes_of_isQuote hquote).2] at hc
  · simp [hdigit] at hc

theorem IsSpelling.quoted (hc : isQuote c = true) : ∃ body, c ∉ body ∧ cs = body ++ [c] := by
  obtain ⟨hnoname, hnodigit⟩ := classes_of_isQuote hc
  rcases h.cases_first with ⟨hname, _⟩ | ⟨hdigit, _⟩ | ⟨_, hbody⟩ | ⟨_, _, hquote, _⟩
  · simp [hnoname] at hname
  · simp [hnodigit] at hdigit
  · exact hbody
  · simp [hquote] at hc

end First

/-! ## 3. The longest spelling -/

/-- No spelling that the text begins with is longer. -/
def Longest (longest text : List Char) : Prop :=
  ∀ t, IsSpelling t → t <+: text → t.length ≤ longest.length

section Patterns

variable {c : Char} {cs text rest : List Char}

theorem longest_cons {longest : List Char}
    (h : ∀ ds, IsSpelling (c :: ds) → ds <+: cs → (c :: ds).length ≤ longest.length) :
    Longest longest (c :: cs) := by
  intro t ht hp
  cases t with
  | nil => exact Nat.zero_le _
  | cons d ds =>
    obtain ⟨rfl, hds⟩ := List.cons_prefix_cons.mp hp
    exact h ds ht hds

theorem prefix_takeWhile {p : Char → Bool} {ds : List Char} (h : ∀ d ∈ ds, p d = true)
    (hp : ds <+: cs) : ds <+: cs.takeWhile p := by
  obtain ⟨behind, rfl⟩ := hp
  rw [List.takeWhile_append_of_pos h]
  exact List.prefix_append _ _

theorem longest_name (hc : isNameStart c = true) :
    Longest (c :: cs.takeWhile isWord) (c :: cs) :=
  longest_cons fun _ hds hp => Nat.succ_le_succ (prefix_takeWhile (hds.word hc) hp).length_le

theorem run1?_eq_some {p : Char → Bool} {read : List Char} (h : run1? p cs = some (read, rest)) :
    read = cs.takeWhile p := by
  unfold run1? at h
  split at h
  · cases h
  · rename_i hread
    cases h
    exact hread.symm

theorem digits_of_run1? {read : List Char} (h : run1? isDigit cs = some (read, rest)) :
    Digits read := by
  refine ⟨run1?_ne_nil h, ?_⟩
  rw [run1?_eq_some h]
  exact List.all_eq_true.mp List.all_takeWhile

/-- Digits in front of a text are the beginning of its first run of digits. -/
theorem Digits.run1?_append {digits : List Char} (h : Digits digits) (behind : List Char) :
    ∃ read rest, run1? isDigit (digits ++ behind) = some (read, rest) ∧ digits <+: read := by
  have hread : (digits ++ behind).takeWhile isDigit = digits ++ behind.takeWhile isDigit :=
    List.takeWhile_append_of_pos h.2
  obtain ⟨c, cs, rfl, _⟩ := h.exists_cons
  rw [run1?, hread]
  exact ⟨_, _, rfl, List.prefix_append _ _⟩

/-- Digits, a point, and what follows the point. -/
theorem fraction?_point {before : List Char} (hb : Digits before) (behind : List Char) :
    fraction? (before ++ '.' :: behind) =
      (run1? isDigit behind).map fun (read, rest) => (before ++ '.' :: read, rest) := by
  have hpoint : StopsAt isDigit ('.' :: behind) := by
    rintro d ⟨⟩
    rfl
  rw [fraction?, run1?_append_stop hb hpoint]
  simp only []
  cases run1? isDigit behind <;> rfl

theorem exists_of_fraction? (h : fraction? cs = some (text, rest)) :
    ∃ before behind, Digits before ∧ Digits behind ∧ text = before ++ '.' :: behind ∧
      before = cs.takeWhile isDigit := by
  unfold fraction? at h
  split at h
  · rename_i before _ hb
    split at h
    · rename_i behind _ ha
      cases h
      exact ⟨before, behind, digits_of_run1? hb, digits_of_run1? ha, rfl, run1?_eq_some hb⟩
    · cases h
  · cases h

theorem longest_fraction (hc : isDigit c = true) (h : fraction? (c :: cs) = some (text, rest)) :
    Longest text (c :: cs) := by
  refine longest_cons fun ds hds hp => ?_
  have hp : c :: ds <+: c :: cs := List.cons_prefix_cons.mpr ⟨rfl, hp⟩
  rcases hds.number hc with hdigits | ⟨before, behind, hb, ha, htext⟩
  · obtain ⟨before, behind, _, _, rfl, hbefore⟩ := exists_of_fraction? h
    have hle := (prefix_takeWhile hdigits.2 hp).length_le
    rw [← hbefore] at hle
    rw [List.length_append]
    exact Nat.le_trans hle (Nat.le_add_right _ _)
  · obtain ⟨u, hu⟩ := hp
    obtain ⟨read, _, hread, hbegins⟩ := ha.run1?_append u
    rw [← hu, htext, List.append_assoc, List.cons_append, fraction?_point hb, hread] at h
    cases h
    rw [htext, List.length_append, List.length_append]
    exact Nat.add_le_add_left (Nat.succ_le_succ hbegins.length_le) _

theorem longest_whole (hc : isDigit c = true) (hnone : fraction? (c :: cs) = none)
    (h : whole? (c :: cs) = some (text, rest)) : Longest text (c :: cs) := by
  refine longest_cons fun ds hds hp => ?_
  have hp : c :: ds <+: c :: cs := List.cons_prefix_cons.mpr ⟨rfl, hp⟩
  rcases hds.number hc with hdigits | ⟨before, behind, hb, ha, htext⟩
  · rw [run1?_eq_some h]
    exact (prefix_takeWhile hdigits.2 hp).length_le
  · -- a fraction would have been found
    obtain ⟨u, hu⟩ := hp
    obtain ⟨read, _, hread, _⟩ := ha.run1?_append u
    rw [← hu, htext, List.append_assoc, List.cons_append, fraction?_point hb, hread] at hnone
    cases hnone

theorem string?_of_spelling {ds : List Char} (hc : isQuote c = true) (hds : IsSpelling (c :: ds))
    (hp : ds <+: cs) : ∃ rest, string? (c :: cs) = some (c :: ds, rest) := by
  obtain ⟨body, hfree, rfl⟩ := hds.quoted hc
  obtain ⟨behind, rfl⟩ := hp
  refine ⟨behind, ?_⟩
  rw [string?, if_pos hc, List.append_assoc, List.singleton_append, until?_append_stop hfree]
  rfl

theorem longest_string (hc : isQuote c = true) (h : string? (c :: cs) = some (text, rest)) :
    Longest text (c :: cs) := by
  refine longest_cons fun ds hds hp => ?_
  obtain ⟨rest', hstring⟩ := string?_of_spelling hc hds hp
  rw [h] at hstring
  cases hstring
  exact Nat.le_refl _

/-- A symbol that does not end where it is spelled is a single character. -/
theorem length_of_not_ends {s : Symbol} (h : ¬(Token.symbol s).Ends rest) :
    s.spelling.toList.length = 1 := by
  cases s <;> first | rfl | exact absurd (Symbol.ends_of_isClosed rfl rest) h

/-- Where the spelling of a symbol stands, a symbol is found: this one, or a longer one. -/
theorem exists_symbol? {s : Symbol} (h : s.spelling.toList <+: c :: cs) :
    ∃ t rest, symbol? c cs = some (t, rest) ∧
      s.spelling.toList.length ≤ t.spelling.toList.length := by
  obtain ⟨behind, h⟩ := h
  by_cases hend : (Token.symbol s).Ends behind
  · obtain ⟨c', cs', htext, hsymbol, _⟩ := symbol?_spelling s hend
    cases h.symm.trans htext
    exact ⟨s, behind, hsymbol, Nat.le_refl _⟩
  · obtain ⟨d, hd, hext⟩ : ∃ d ∈ behind.head?, (Token.symbol s).extendedBy d = true := by
      simpa [Token.Ends, StopsAt] using hend
    have hlength : ∀ t : Symbol, s.spelling.toList.length ≤ t.spelling.toList.length := fun t => by
      rw [length_of_not_ends hend]
      exact List.length_pos_iff.mpr (symbol_spelling_ne_nil t)
    obtain ⟨ds, rfl⟩ : ∃ ds, behind = d :: ds := List.head?_eq_some_iff.mp hd
    cases s with
    | assign =>
      cases eq_of_beq hext
      cases h
      exact ⟨.equal, ds, rfl, hlength _⟩
    | not =>
      cases eq_of_beq hext
      cases h
      exact ⟨.notEqual, ds, rfl, hlength _⟩
    | less =>
      cases eq_of_beq hext
      cases h
      exact ⟨.lessEqual, ds, rfl, hlength _⟩
    | greater =>
      cases eq_of_beq hext
      cases h
      exact ⟨.greaterEqual, ds, rfl, hlength _⟩
    | divide =>
      cases h
      exact ⟨.divide, d :: ds, rfl, hlength _⟩
    | _ => cases hext

end Patterns

/-! ## 4. Words are the longest spellings -/

section Words

variable {c : Char} {cs text rest : List Char}

theorem spells_name (start : isNameStart c = true) (word : ∀ d ∈ cs, isWord d = true) :
    Spells (c :: cs) (.token (.ofName (String.ofList (c :: cs))) (c :: cs)) := by
  unfold Token.ofName
  split
  · rename_i k hk
    have hspelling : (k.spelling == String.ofList (c :: cs)) = true :=
      List.find?_some (p := fun k : Keyword => k.spelling == String.ofList (c :: cs)) hk
    have htext : k.spelling.toList = c :: cs := by
      rw [eq_of_beq hspelling, String.toList_ofList]
    rw [← htext]
    exact .keyword k
  · rename_i hnone
    refine .name start word fun k hk => ?_
    have hmem : k ∈ Keyword.all := by cases k <;> decide
    have hne := List.find?_eq_none.mp hnone k hmem
    rw [← hk, String.ofList_toList] at hne
    exact hne (beq_self_eq_true _)

theorem spells_whole (h : Digits text) : Spells text (wholeSegment text) := by
  unfold wholeSegment
  rw [digitsValue_eq]
  split
  · exact .whole h ‹_›
  · exact .wholeOutOfRange h (Nat.le_of_not_lt ‹_›)

theorem spells_fraction {before behind : List Char} (hb : Digits before) (ha : Digits behind) :
    Spells (before ++ '.' :: behind) (fractionSegment (before ++ '.' :: behind)) := by
  unfold fractionSegment
  simp only []
  split
  · exact .fraction hb ha (toBinary64_fractionDecimal hb ha) ‹_›
  · exact .fractionOutOfRange hb ha (toBinary64_fractionDecimal hb ha) (Bool.eq_false_iff.mpr ‹_›)

theorem isDigit_of_fraction? (h : fraction? (c :: cs) = some (text, rest)) : isDigit c = true := by
  cases hc : isDigit c with
  | true => rfl
  | false =>
    rw [fraction?_eq_none hc] at h
    cases h

theorem string?_eq_some (h : string? (c :: cs) = some (text, rest)) :
    isQuote c = true ∧ ∃ body, c ∉ body ∧ text = c :: body ++ [c] := by
  rw [string?] at h
  split at h
  · rename_i hc
    obtain ⟨⟨body, _⟩, hbody, e⟩ := Option.map_eq_some_iff.mp h
    cases e
    exact ⟨hc, body, notMem_of_until? hbody, rfl⟩
  · cases h

theorem IsSpelling.ne_nil (h : IsSpelling text) : text ≠ [] := by
  rintro rfl
  obtain ⟨s, hs⟩ := h
  have hsegments := hs.segments_eq
  rw [segments] at hsegments
  cases hsegments

/-- Where no name, no number and no string is found, every spelling is a symbol. -/
theorem symbol_of_spelling (hname : name? (c :: cs) = none) (hwhole : whole? (c :: cs) = none)
    (hstring : string? (c :: cs) = none) (ht : IsSpelling text) (hp : text <+: c :: cs) :
    ∃ s : Symbol, text = s.spelling.toList := by
  cases text with
  | nil => exact absurd rfl ht.ne_nil
  | cons d ds =>
    obtain ⟨rfl, hds⟩ := List.cons_prefix_cons.mp hp
    rcases ht.cases_first with ⟨hc, _⟩ | ⟨hc, _⟩ | ⟨hc, _⟩ | ⟨_, _, _, hsymbol⟩
    · rw [name?, if_pos hc] at hname
      cases hname
    · have hone : Digits [d] := ⟨List.cons_ne_nil _ _, List.forall_mem_singleton.mpr hc⟩
      obtain ⟨_, _, hread, _⟩ := hone.run1?_append cs
      rw [whole?, ← List.singleton_append, hread] at hwhole
      cases hwhole
    · obtain ⟨_, hread⟩ := string?_of_spelling hc ht hds
      rw [hread] at hstring
      cases hstring
    · exact hsymbol

theorem eq_none_of_forall {found : Option Split}
    (h : ∀ text rest, found = some (text, rest) → False) : found = none := by
  cases found with
  | none => rfl
  | some split => exact (h split.1 split.2 rfl).elim

/-- A word is the longest spelling, or a single character where no spelling stands. -/
theorem cutWord_longest (c : Char) (cs : List Char) :
    (Spells (cutWord c cs).1.text (cutWord c cs).1 ∧ Longest (cutWord c cs).1.text (c :: cs)) ∨
      ((cutWord c cs).1 = .rejected (if isQuote c then .openString else .strayCharacter) [c] ∧
        ∀ t, IsSpelling t → ¬t <+: c :: cs) := by
  unfold cutWord
  split
  · -- a name
    rename_i h
    obtain ⟨hc, rfl⟩ := name?_eq_some h
    exact .inl ⟨spells_name hc (List.all_eq_true.mp List.all_takeWhile), longest_name hc⟩
  rename_i hname
  have hname := eq_none_of_forall hname
  split
  · -- a fraction
    rename_i h
    obtain ⟨before, behind, hb, ha, rfl, _⟩ := exists_of_fraction? h
    rw [fractionSegment_text]
    exact .inl ⟨spells_fraction hb ha, longest_fraction (isDigit_of_fraction? h) h⟩
  rename_i hfraction
  have hfraction := eq_none_of_forall hfraction
  split
  · -- a whole number
    rename_i h
    have hdigits := digits_of_run1? h
    have hc : isDigit c = true := by
      obtain ⟨d, ds, rfl, hd⟩ := hdigits.exists_cons
      cases whole?_append h
      exact hd
    rw [wholeSegment_text]
    exact .inl ⟨spells_whole hdigits, longest_whole hc hfraction h⟩
  rename_i hwhole
  have hwhole := eq_none_of_forall hwhole
  split
  · -- a string
    rename_i h
    obtain ⟨hc, body, hfree, rfl⟩ := string?_eq_some h
    have hunquoted : unquoted (c :: body ++ [c]) = String.ofList body := by
      rw [unquoted, List.cons_append, List.drop_succ_cons, List.drop_zero, List.dropLast_concat]
    rw [hunquoted]
    exact .inl ⟨.string (isQuote_cases hc) hfree, longest_string hc h⟩
  rename_i hstring
  have hstring := eq_none_of_forall hstring
  split
  · -- a symbol
    rename_i sign rest h
    refine .inl ⟨.symbol sign, fun t ht hp => ?_⟩
    obtain ⟨s, rfl⟩ := symbol_of_spelling hname hwhole hstring ht hp
    obtain ⟨s', _, hsymbol, hle⟩ := exists_symbol? hp
    rw [h] at hsymbol
    cases hsymbol
    exact hle
  · -- nothing
    rename_i hsymbol
    refine .inr ⟨rfl, fun t ht hp => ?_⟩
    obtain ⟨s, rfl⟩ := symbol_of_spelling hname hwhole hstring ht hp
    obtain ⟨s', rest', hsome, _⟩ := exists_symbol? hp
    exact hsymbol s' rest' hsome

end Words

/-! ## 5. Comments end at their first closing mark -/

/-- The text holds a closing mark. -/
def HasClosing (text : List Char) : Prop :=
  ['*', '/'] <:+: text

theorem hasClosing_cons {c : Char} {cs : List Char} :
    HasClosing (c :: cs) ↔ (c = '*' ∧ ['/'] <+: cs) ∨ HasClosing cs := by
  rw [HasClosing, List.infix_cons_iff, List.cons_prefix_cons, eq_comm]
  rfl

theorem commentBody?_eq_none_iff {cs : List Char} : commentBody? cs = none ↔ ¬HasClosing cs := by
  fun_induction commentBody? cs with
  | case1 => simp [HasClosing]
  | case2 c cs hclosing => exact iff_of_false (Option.some_ne_none _) fun h => h hclosing.isInfix
  | case3 c cs hne ih =>
    have hfirst : ¬(c = '*' ∧ ['/'] <+: cs) := by
      rintro ⟨rfl, hslash⟩
      exact hne (List.cons_prefix_cons.mpr ⟨rfl, hslash⟩)
    rw [Option.map_eq_none_iff, ih, hasClosing_cons, or_iff_right hfirst]

/-- No closing mark starts in the body. -/
theorem not_hasClosing_of_commentBody? {cs body rest : List Char}
    (h : commentBody? cs = some (body, rest)) : ¬HasClosing (body ++ ['*']) := by
  fun_induction commentBody? cs generalizing body rest with
  | case1 => cases h
  | case2 c cs =>
    cases h
    simp [HasClosing, List.infix_cons_iff]
  | case3 c cs hne ih =>
    obtain ⟨⟨body, rest⟩, hbody, e⟩ := Option.map_eq_some_iff.mp h
    cases e
    have hfirst : ¬(c = '*' ∧ ['/'] <+: body ++ ['*']) := by
      rintro ⟨rfl, hslash⟩
      cases body with
      | nil => simp at hslash
      | cons d ds =>
        obtain ⟨rfl, _⟩ := List.cons_prefix_cons.mp hslash
        have hslash : ['/'] <+: cs := by
          rw [← commentBody?_append hbody]
          exact ⟨ds ++ _, rfl⟩
        exact hne (List.cons_prefix_cons.mpr ⟨rfl, hslash⟩)
    rw [List.cons_append, hasClosing_cons, or_iff_right hfirst]
    exact ih hbody

theorem commentBody?_closed {body rest : List Char} (h : ¬HasClosing (body ++ ['*'])) :
    commentBody? (body ++ '*' :: '/' :: rest) = some (body, rest) := by
  induction body with
  | nil => rfl
  | cons c body ih =>
    rw [List.cons_append, hasClosing_cons, not_or] at h
    rw [List.cons_append, commentBody?, if_neg, ih h.2]
    · rfl
    · rintro ⟨behind, e⟩
      obtain ⟨rfl, e⟩ := List.cons.inj e
      refine h.1 ⟨rfl, ?_⟩
      cases body with
      | nil => cases e
      | cons d body =>
        cases e
        exact List.cons_prefix_cons.mpr ⟨rfl, List.nil_prefix⟩

/-! ## 6. Tokenised sources -/

/-- The text goes on with neither a blank nor a comment. -/
def AtWord (text : List Char) : Prop :=
  (∀ c ∈ text.head?, c ∉ [' ', '\t', '\r', '\n']) ∧ ¬['/', '*'] <+: text

/-- The segment is what the text begins with. -/
inductive Leads (text : List Char) : Segment → Prop
  | blank {c : Char} (hp : [c] <+: text) (h : c ∈ [' ', '\t', '\r', '\n']) :
      Leads text (.blank c)
  /-- A comment up to the first closing mark. -/
  | comment {body : List Char} (hp : '/' :: '*' :: body ++ ['*', '/'] <+: text)
      (first : ¬HasClosing (body ++ ['*'])) : Leads text (.comment body)
  /-- A comment up to the end of the source. -/
  | openComment {body : List Char} (hall : '/' :: '*' :: body = text)
      (never : ¬HasClosing body) : Leads text (.openComment body)
  /-- The longest spelling. -/
  | spelling {s : Segment} (word : AtWord text) (hp : s.text <+: text) (h : Spells s.text s)
      (longest : Longest s.text text) : Leads text s
  /-- One character where no spelling stands. -/
  | stray {c : Char} (word : AtWord text) (hp : [c] <+: text)
      (none : ∀ t, IsSpelling t → ¬t <+: text) :
      Leads text (.rejected (if isQuote c then .openString else .strayCharacter) [c])

/-- The text is made of the segments, each of which is what the rest of the text begins with. -/
inductive Tokenised : List Char → List Segment → Prop
  | nil : Tokenised [] []
  | cons {s : Segment} {rest : List Char} {ss : List Segment} (h : Leads (s.text ++ rest) s)
      (tail : Tokenised rest ss) : Tokenised (s.text ++ rest) (s :: ss)

theorem isBlank_iff {c : Char} : isBlank c = true ↔ c ∈ [' ', '\t', '\r', '\n'] := by
  simp [isBlank, or_assoc]

theorem cut_leads (c : Char) (cs : List Char) : Leads (c :: cs) (cut c cs).1 := by
  unfold cut
  split
  · rename_i hb
    exact .blank (List.prefix_append [c] cs) (isBlank_iff.mp hb)
  rename_i hb
  have hhead : c ∉ [' ', '\t', '\r', '\n'] := fun hc => hb (isBlank_iff.mpr hc)
  split
  · rename_i hopening
    have hbehind := List.prefix_iff_eq_append.mp hopening
    split
    · rename_i body rest h
      refine .comment ⟨rest, ?_⟩ (not_hasClosing_of_commentBody? h)
      rw [← hbehind, List.append_assoc]
      exact congrArg ('/' :: '*' :: ·) (commentBody?_append h)
    · rename_i h
      exact .openComment hbehind (commentBody?_eq_none_iff.mp h)
  · rename_i hcomment
    have hword : AtWord (c :: cs) := by
      refine ⟨?_, hcomment⟩
      rintro _ ⟨⟩
      exact hhead
    have hp : (cutWord c cs).1.text <+: c :: cs := ⟨_, cutWord_append c cs⟩
    rcases cutWord_longest c cs with ⟨h, hlongest⟩ | ⟨h, hnone⟩
    · exact .spelling hword hp h hlongest
    · rw [h]
      exact .stray hword (List.prefix_append [c] cs) hnone

/-- Behind its opening mark a comment is cut, closed or not. -/
theorem cut_comment (body : List Char) :
    cut '/' ('*' :: body) = match commentBody? body with
      | some (body, rest) => (.comment body, rest)
      | none => (.openComment body, []) := rfl

/-- Nothing else leads the text. -/
theorem Leads.eq_cut {c : Char} {cs : List Char} {s : Segment} (h : Leads (c :: cs) s) :
    s = (cut c cs).1 := by
  have hcut : AtWord (c :: cs) → cut c cs = cutWord c cs := by
    rintro ⟨hhead, hcomment⟩
    exact cut_eq_cutWord (Bool.eq_false_iff.mpr fun hb => hhead c rfl (isBlank_iff.mp hb)) hcomment
  cases h with
  | blank hp h =>
    obtain ⟨rfl, _⟩ := List.cons_prefix_cons.mp hp
    unfold cut
    rw [if_pos (isBlank_iff.mpr h)]
  | @comment body hp first =>
    obtain ⟨behind, e⟩ := hp
    have hbody : commentBody? (body ++ ['*', '/'] ++ behind) = some (body, behind) := by
      rw [List.append_assoc]
      exact commentBody?_closed first
    have htext : '/' :: '*' :: (body ++ ['*', '/'] ++ behind) = c :: cs := e
    cases htext
    rw [cut_comment, hbody]
  | openComment hall never =>
    cases hall
    rw [cut_comment, commentBody?_eq_none_iff.mpr never]
  | spelling word hp h longest =>
    rw [hcut word]
    have hp' : (cutWord c cs).1.text <+: c :: cs := ⟨_, cutWord_append c cs⟩
    rcases cutWord_longest c cs with ⟨h', longest'⟩ | ⟨_, hnone⟩
    · -- two longest spellings have one length, and one text
      have hle := longest' _ ⟨s, h⟩ hp
      have htext := (List.prefix_of_prefix_length_le hp hp' hle).eq_of_length
        (Nat.le_antisymm hle (longest _ ⟨_, h'⟩ hp'))
      rw [htext] at h
      exact h.unique h'
    · exact absurd hp (hnone _ ⟨s, h⟩)
  | stray word hp none =>
    obtain ⟨rfl, _⟩ := List.cons_prefix_cons.mp hp
    rw [hcut word]
    rcases cutWord_longest _ cs with ⟨h', _⟩ | ⟨h', _⟩
    · exact absurd ⟨_, cutWord_append _ cs⟩ (none _ ⟨_, h'⟩)
    · exact h'.symm

theorem not_leads_nil {s : Segment} : ¬Leads [] s := by
  intro h
  cases h with
  | blank hp | stray _ hp => simp at hp
  | comment hp | openComment hall => simp at *
  | spelling word hp h => exact absurd (List.prefix_nil.mp hp) (IsSpelling.ne_nil ⟨s, h⟩)

theorem Tokenised.segments_eq {cs : List Char} {ss : List Segment} (h : Tokenised cs ss) :
    segments cs = ss := by
  induction h with
  | nil => rw [segments]
  | @cons s rest ss h tail ih =>
    cases htext : s.text ++ rest with
    | nil =>
      rw [htext] at h
      exact absurd h not_leads_nil
    | cons c cs =>
      rw [htext] at h
      have hs := h.eq_cut
      have hrest : rest = (cut c cs).2 := by
        rw [← cut_append c cs, ← hs] at htext
        exact List.append_cancel_left htext
      rw [segments, ← hs, ← hrest, ih]

theorem tokenised_segments (cs : List Char) : Tokenised cs (segments cs) := by
  fun_induction segments cs with
  | case1 => exact .nil
  | case2 c cs ih =>
    have h := cut_append c cs
    rw [← h]
    exact .cons (h ▸ cut_leads c cs) ih

/-- A text is tokenised in one way only, and that is how it is cut. -/
theorem tokenised_iff {cs : List Char} {ss : List Segment} :
    Tokenised cs ss ↔ segments cs = ss :=
  ⟨Tokenised.segments_eq, fun h => h ▸ tokenised_segments cs⟩

/-! ## 7. What is scanned -/

/-- The segments, each on the line that the text in front of it ends on. -/
def located (ss : List Segment) : List Placed :=
  ss.mapIdx fun i s => ⟨s, 1 + ((ss.take i).flatMap Segment.text).count '\n'⟩

theorem place_eq_mapIdx (line : Nat) (ss : List Segment) :
    place line ss =
      ss.mapIdx fun i s => ⟨s, line + ((ss.take i).flatMap Segment.text).count '\n'⟩ := by
  induction ss generalizing line with
  | nil => rfl
  | cons s ss ih =>
    rw [place, ih, List.mapIdx_cons]
    congr 1
    refine congrArg (fun f => ss.mapIdx f) (funext fun i => funext fun t => ?_)
    rw [List.take_succ_cons, List.flatMap_cons, List.count_append, Segment.lineBreaks,
      Nat.add_assoc]

end CMinus.Scan

namespace CMinus

open Scan

/-- **Scanning takes the longest spelling everywhere, and loses nothing.** There is one way to take
    a source apart into blanks, comments, longest spellings and single characters that spell
    nothing; put together again these are the source. Their tokens are what is scanned, each on its
    line, and the numbers out of range and the single characters are what is reported, each on its
    line, as is a comment that is never closed when that is asked for. -/
theorem scan_takes_longest (source : String) (o : Options) :
    ∃ ss, (∀ ss', Tokenised source.toList ss' ↔ ss' = ss) ∧
      ss.flatMap Segment.text = source.toList ∧
      Parse.tokensOf (scan source o).1 = ss.filterMap Segment.token? ∧
      (scan source o).1 = (located ss).filterMap Placed.lexeme? ∧
      (scan source o).2 = (located ss).filterMap (Placed.diagnostic? o.strictComments) := by
  have hahead : (Scanner.start source o).ahead = located (segments source.toList) :=
    place_eq_mapIdx 1 _
  have hlexemes : (scan source o).1 =
      (located (segments source.toList)).filterMap Placed.lexeme? := by
    rw [← hahead]
    rfl
  refine ⟨segments source.toList, fun ss' => tokenised_iff.trans eq_comm,
    segments_flatMap_text _, ?_, hlexemes, ?_⟩
  · rw [hlexemes, ← hahead]
    exact tokensOf_place 1 _
  · rw [scan_diagnostics, ← hahead]
    rfl

/-- A number with leading zeros, and a quote that is never closed. -/
theorem scan_takes_longest_mixed :
    Tokenised "intx>=007/*\n*/'".toList
        [.token (.ident "intx") ['i', 'n', 't', 'x'], .token (.symbol .greaterEqual) ['>', '='],
          .token (.int 7) ['0', '0', '7'], .comment ['\n'], .rejected .openString ['\'']] ∧
      (scan "intx>=007/*\n*/'" {}).1 =
        [⟨.ident "intx", 1⟩, ⟨.symbol .greaterEqual, 1⟩, ⟨.int 7, 1⟩] ∧
      (scan "intx>=007/*\n*/'" {}).2 = [.lexical "unterminated string literal" "'" 2] := by
  obtain ⟨ss, hss, _, _, hlexemes, hdiagnostics⟩ := scan_takes_longest "intx>=007/*\n*/'" {}
  have hcut : segments "intx>=007/*\n*/'".toList =
      [.token (.ident "intx") ['i', 'n', 't', 'x'], .token (.symbol .greaterEqual) ['>', '='],
        .token (.int 7) ['0', '0', '7'], .comment ['\n'], .rejected .openString ['\'']] := by
    decide +kernel
  obtain rfl := (hss _).mp (tokenised_iff.mpr hcut)
  exact ⟨(hss _).mpr rfl, hlexemes.trans (by decide +kernel),
    hdiagnostics.trans (by decide +kernel)⟩

end CMinus
