import CMinus.Proofs.Literal
import CMinus.Proofs.WellFormed
import CMinus.Scan.Scanner

/-!
# Spelling: a token that is written is cut as itself

Behind the spelling of a token a text may go on with any character that does not make the token
longer (`Token.Ends`). Then the spelling is the first segment of the text, and it is the token.
-/

namespace CMinus

/-! ## 1. Classes of characters -/

namespace Scan

theorem isBlank_cases {c : Char} (h : isBlank c = true) :
    c = ' ' ∨ c = '\t' ∨ c = '\r' ∨ c = '\n' := by
  simpa [isBlank, or_assoc] using h

/-- A class without the four blanks. -/
theorem isBlank_eq_false {p : Char → Bool} {c : Char} (h : p c = true)
    (hp : p ' ' = false ∧ p '\t' = false ∧ p '\r' = false ∧ p '\n' = false) :
    isBlank c = false := by
  obtain ⟨hspace, htab, hreturn, hnewline⟩ := hp
  rw [Bool.eq_false_iff]
  intro hb
  rcases isBlank_cases hb with rfl | rfl | rfl | rfl
  · exact Bool.eq_false_iff.mp hspace h
  · exact Bool.eq_false_iff.mp htab h
  · exact Bool.eq_false_iff.mp hreturn h
  · exact Bool.eq_false_iff.mp hnewline h

theorem isNameStart_eq_false {c : Char} (h : isDigit c = true) : isNameStart c = false := by
  obtain ⟨hlow, hhigh⟩ := Char.isDigit_iff_toNat.mp h
  rw [Bool.eq_false_iff]
  intro hn
  rw [isNameStart, Bool.or_eq_true, beq_iff_eq] at hn
  rcases hn with hn | rfl
  · change (decide (65 ≤ c.val ∧ c.val ≤ 90) ||
      (decide (97 ≤ c.val) && decide (c.val ≤ 122))) = true at hn
    simp only [Bool.or_eq_true, Bool.and_eq_true, decide_eq_true_eq, UInt32.le_iff_toNat_le,
      UInt32.reduceToNat] at hn
    change 48 ≤ c.val.toNat at hlow
    change c.val.toNat ≤ 57 at hhigh
    omega
  · exact absurd h (by decide)

/-! ## 2. Patterns that do not match -/

variable {c : Char} {cs : List Char}

theorem name?_eq_none (h : isNameStart c = false) : name? (c :: cs) = none := by
  rw [name?, if_neg (by rw [h]; decide)]

theorem run1?_eq_none {p : Char → Bool} (h : p c = false) : run1? p (c :: cs) = none := by
  rw [run1?, List.takeWhile_cons_of_neg (by rw [h]; decide)]

theorem fraction?_eq_none (h : isDigit c = false) : fraction? (c :: cs) = none := by
  rw [fraction?, run1?_eq_none h]

theorem string?_eq_none (h : isQuote c = false) : string? (c :: cs) = none := by
  rw [string?, if_neg (by rw [h]; decide)]

/-- Only a slash opens a comment. -/
theorem no_comment_of_ne (h : c ≠ '/') : ¬commentStart.toList <+: c :: cs :=
  fun hopening => h (List.cons_prefix_cons.mp hopening).1.symm

/-- What is no blank and opens no comment is cut as a word. -/
theorem cut_eq_cutWord (hb : isBlank c = false) (hc : ¬commentStart.toList <+: c :: cs) :
    cut c cs = cutWord c cs := by
  rw [cut, if_neg (by rw [hb]; decide), if_neg hc]

/-- So is what starts with a character of a class without the blanks and the slash. -/
theorem cut_of_class {p : Char → Bool} (h : p c = true)
    (hp : p ' ' = false ∧ p '\t' = false ∧ p '\r' = false ∧ p '\n' = false)
    (hslash : p '/' = false) : cut c cs = cutWord c cs := by
  refine cut_eq_cutWord (isBlank_eq_false h hp) (no_comment_of_ne ?_)
  rintro rfl
  exact Bool.eq_false_iff.mp hslash h

/-! ## 3. Patterns that match -/

/-- The text goes on with a character outside the class, or not at all. -/
def StopsAt (p : Char → Bool) (rest : List Char) : Prop :=
  ∀ d ∈ rest.head?, p d = false

theorem stopsAt_nil (p : Char → Bool) : StopsAt p [] := by
  intro d hd
  cases hd

theorem takeWhile_append_stop {p : Char → Bool} {cs rest : List Char}
    (h : ∀ d ∈ cs, p d = true) (hrest : StopsAt p rest) :
    (cs ++ rest).takeWhile p = cs ∧ (cs ++ rest).dropWhile p = rest := by
  rw [List.takeWhile_append_of_pos h, List.dropWhile_append_of_pos h]
  cases rest with
  | nil => exact ⟨List.append_nil _, rfl⟩
  | cons d rest =>
    have hd : ¬p d = true := by rw [hrest d rfl]; decide
    rw [List.takeWhile_cons_of_neg hd, List.dropWhile_cons_of_neg hd]
    exact ⟨List.append_nil _, rfl⟩

theorem name?_append_stop {text rest : List Char} (h : name? text = some (text, []))
    (hrest : StopsAt isWord rest) : name? (text ++ rest) = some (text, rest) := by
  cases text with
  | nil => cases h
  | cons c cs =>
    rw [name?] at h
    split at h
    · rename_i hc
      simp only [Option.some.injEq, Prod.mk.injEq, List.cons.injEq, true_and] at h
      have hall : ∀ d ∈ cs.takeWhile isWord, isWord d = true :=
        List.all_eq_true.mp List.all_takeWhile
      rw [h.1] at hall
      obtain ⟨ht, hd⟩ := takeWhile_append_stop hall hrest
      rw [List.cons_append, name?, if_pos hc, ht, hd]
    · cases h

theorem run1?_append_stop {text rest : List Char} (h : Digits text)
    (hrest : StopsAt isDigit rest) : run1? isDigit (text ++ rest) = some (text, rest) := by
  obtain ⟨ht, hd⟩ := takeWhile_append_stop h.2 hrest
  cases text with
  | nil => exact absurd rfl h.1
  | cons c cs => rw [run1?, ht, hd]

theorem until?_append_stop {q : Char} {body rest : List Char} (h : q ∉ body) :
    until? q (body ++ q :: rest) = some (body, rest) := by
  induction body with
  | nil => rw [List.nil_append, until?, if_pos rfl]
  | cons c cs ih =>
    obtain ⟨hne, hnot⟩ := List.ne_and_not_mem_of_not_mem_cons h
    rw [List.cons_append, until?, if_neg (Ne.symm hne), ih hnot, Option.map_some]

end Scan

/-! ## 4. Spelled tokens -/

open Scan

/-- A character that makes the token longer when it stands right behind it. -/
def Token.extendedBy : Token → Char → Bool
  | .ident _, c | .keyword _, c => isWord c
  | .int _, c => isDigit c || c == '.'
  | .float _, c => isDigit c
  | .symbol .assign, c | .symbol .not, c | .symbol .less, c | .symbol .greater, c => c == '='
  | .symbol .divide, c => c == '*'
  | _, _ => false

/-- The token may end where the text goes on. -/
def Token.Ends (t : Token) (rest : List Char) : Prop :=
  StopsAt t.extendedBy rest

/-- The segment of a token in its own spelling. -/
def Token.segment (t : Token) : Segment :=
  .token t t.spelling.toList

namespace Scan

variable {rest : List Char}

theorem fraction?_append_stop {before behind : List Char} (hb : Digits before)
    (ha : Digits behind) (hrest : StopsAt isDigit rest) :
    fraction? (before ++ '.' :: behind ++ rest) = some (before ++ '.' :: behind, rest) := by
  have hpoint : StopsAt isDigit ('.' :: (behind ++ rest)) := by
    rintro d ⟨⟩
    rfl
  rw [List.append_assoc, List.cons_append, fraction?, run1?_append_stop hb hpoint]
  simp only [run1?_append_stop ha hrest]

theorem fraction?_whole {digits : List Char} (h : Digits digits)
    (hrest : StopsAt (fun c => isDigit c || c == '.') rest) :
    fraction? (digits ++ rest) = none := by
  have hdigit : StopsAt isDigit rest := fun d hd => (Bool.or_eq_false_iff.mp (hrest d hd)).1
  rw [fraction?, run1?_append_stop h hdigit]
  cases rest with
  | nil => rfl
  | cons d rest =>
    split
    · rename_i e
      simp only [Option.some.injEq, Prod.mk.injEq, List.cons.injEq] at e
      have hd := hrest d rfl
      rw [e.2.1] at hd
      cases hd
    · rfl

/-- A text is cut where its first segment ends. -/
theorem segments_eq_of_cut {c : Char} {cs : List Char} {s : Segment} (h : cut c cs = (s, rest)) :
    segments (c :: cs) = s :: segments rest := by
  rw [segments, h]

theorem segments_name {text : List Char} (h : name? text = some (text, []))
    (hrest : StopsAt isWord rest) :
    segments (text ++ rest) = .token (.ofName (String.ofList text)) text :: segments rest := by
  have hname := name?_append_stop h hrest
  cases text with
  | nil => cases h
  | cons c cs =>
    have hc : isNameStart c = true := by
      rw [name?] at h
      split at h
      · assumption
      · cases h
    rw [List.cons_append] at hname ⊢
    apply segments_eq_of_cut
    rw [cut_of_class hc (by decide) rfl, cutWord, hname]

theorem segments_fraction {before behind : List Char} (hb : Digits before)
    (ha : Digits behind) (hrest : StopsAt isDigit rest) :
    segments (before ++ '.' :: behind ++ rest)
      = fractionSegment (before ++ '.' :: behind) :: segments rest := by
  have hfraction := fraction?_append_stop hb ha hrest
  cases before with
  | nil => exact absurd rfl hb.1
  | cons c cs =>
    have hc : isDigit c = true := hb.2 c List.mem_cons_self
    simp only [List.cons_append] at hfraction ⊢
    apply segments_eq_of_cut
    rw [cut_of_class hc (by decide) rfl, cutWord,
      name?_eq_none (isNameStart_eq_false hc), hfraction]

theorem segments_whole {digits : List Char} (h : Digits digits)
    (hrest : StopsAt (fun c => isDigit c || c == '.') rest) :
    segments (digits ++ rest) = wholeSegment digits :: segments rest := by
  have hfraction := fraction?_whole h hrest
  have hwhole : whole? (digits ++ rest) = some (digits, rest) :=
    run1?_append_stop h fun d hd => (Bool.or_eq_false_iff.mp (hrest d hd)).1
  cases digits with
  | nil => exact absurd rfl h.1
  | cons c cs =>
    have hc : isDigit c = true := h.2 c List.mem_cons_self
    rw [List.cons_append] at hfraction hwhole ⊢
    apply segments_eq_of_cut
    rw [cut_of_class hc (by decide) rfl, cutWord,
      name?_eq_none (isNameStart_eq_false hc), hfraction, hwhole]

theorem segments_string {q : Char} {body : List Char} (hq : isQuote q = true) (h : q ∉ body)
    (rest : List Char) :
    segments (q :: body ++ [q] ++ rest)
      = .token (.string (String.ofList body)) (q :: body ++ [q]) :: segments rest := by
  have hstart : isNameStart q = false ∧ isDigit q = false := by
    rw [isQuote, Bool.or_eq_true, beq_iff_eq, beq_iff_eq] at hq
    rcases hq with rfl | rfl <;> decide
  obtain ⟨hname, hdigit⟩ := hstart
  have hstring : string? (q :: (body ++ q :: rest)) = some (q :: body ++ [q], rest) := by
    rw [string?, if_pos hq, until?_append_stop h, Option.map_some]
  have hbody : unquoted (q :: body ++ [q]) = String.ofList body := by
    rw [unquoted, List.cons_append, List.drop_succ_cons, List.drop_zero, List.dropLast_concat]
  rw [List.append_assoc, List.cons_append, List.singleton_append]
  apply segments_eq_of_cut
  rw [cut_of_class hq (by decide) rfl, cutWord, name?_eq_none hname, fraction?_eq_none hdigit,
    whole?, run1?_eq_none hdigit, hstring, ← hbody]

theorem ne_cons_of_stopsAt {p : Char → Bool} {d : Char} (hrest : StopsAt p rest)
    (hd : p d = true) (cs : List Char) : rest ≠ d :: cs := by
  rintro rfl
  rw [hrest d rfl] at hd
  cases hd

/-- A symbol is found where it is spelled, unless the text goes on with a longer one. -/
theorem symbol?_spelling (s : Symbol) (hrest : (Token.symbol s).Ends rest) :
    ∃ c cs, s.spelling.toList ++ rest = c :: cs ∧ symbol? c cs = some (s, rest) ∧
      isNameStart c = false ∧ isDigit c = false ∧ isQuote c = false ∧ isBlank c = false ∧
      ¬commentStart.toList <+: c :: cs := by
  cases s with
  | assign =>
    have hne := ne_cons_of_stopsAt hrest (d := '=') rfl
    exact ⟨'=', rest, rfl, by simp [symbol?], rfl, rfl, rfl, rfl,
      no_comment_of_ne (by decide)⟩
  | not =>
    have hne := ne_cons_of_stopsAt hrest (d := '=') rfl
    exact ⟨'!', rest, rfl, by simp [symbol?], rfl, rfl, rfl, rfl,
      no_comment_of_ne (by decide)⟩
  | less =>
    have hne := ne_cons_of_stopsAt hrest (d := '=') rfl
    exact ⟨'<', rest, rfl, by simp [symbol?], rfl, rfl, rfl, rfl,
      no_comment_of_ne (by decide)⟩
  | greater =>
    have hne := ne_cons_of_stopsAt hrest (d := '=') rfl
    exact ⟨'>', rest, rfl, by simp [symbol?], rfl, rfl, rfl, rfl,
      no_comment_of_ne (by decide)⟩
  | divide =>
    have hne := ne_cons_of_stopsAt hrest (d := '*') rfl
    refine ⟨'/', rest, rfl, rfl, rfl, rfl, rfl, rfl, ?_⟩
    rintro ⟨behind, e⟩
    exact hne behind (List.cons.inj e).2.symm
  | _ => exact ⟨_, _, rfl, rfl, rfl, rfl, rfl, rfl, no_comment_of_ne (by decide)⟩

theorem segments_symbol (s : Symbol) (hrest : (Token.symbol s).Ends rest) :
    segments (s.spelling.toList ++ rest)
      = .token (.symbol s) s.spelling.toList :: segments rest := by
  obtain ⟨c, cs, e, hsymbol, hname, hdigit, hquote, hblank, hcomment⟩ := symbol?_spelling s hrest
  rw [e]
  apply segments_eq_of_cut
  rw [cut_eq_cutWord hblank hcomment, cutWord, name?_eq_none hname, fraction?_eq_none hdigit,
    whole?, run1?_eq_none hdigit, string?_eq_none hquote, hsymbol]

end Scan

/-! ## 5. All tokens -/

theorem Keyword.name?_spelling (k : Keyword) :
    name? k.spelling.toList = some (k.spelling.toList, []) ∧
      Token.ofName k.spelling = .keyword k := by
  cases k <;> decide

theorem delimiter_notMem {text : List Char} (h : ¬('\'' ∈ text ∧ '"' ∈ text)) :
    isQuote (delimiter text) = true ∧ delimiter text ∉ text := by
  unfold delimiter
  split
  · rename_i hd
    exact ⟨rfl, fun hs => h ⟨hs, hd⟩⟩
  · rename_i hd
    exact ⟨rfl, hd⟩

/-- **A spelled token is cut as itself**, wherever it may end. -/
theorem Token.segments_spelling {t : Token} (ht : t.Spellable) {rest : List Char}
    (hrest : t.Ends rest) : segments (t.spelling.toList ++ rest) = t.segment :: segments rest := by
  cases t with
  | ident name =>
    have h := segments_name ht.1 hrest
    rw [String.ofList_toList, ofName, ht.2] at h
    exact h
  | int value =>
    obtain ⟨n, rfl⟩ := Int.eq_ofNat_of_zero_le ht.1
    have hn : n < 2 ^ 63 := ht.2
    have hspelling : (Token.int n).spelling.toList = Nat.toDigits 10 n := Nat.toList_repr
    have h := segments_whole (digits_toDigits n) hrest
    rw [wholeSegment, digitsValue_toDigits, if_pos hn] at h
    rw [segment, hspelling, h]
  | float value =>
    obtain ⟨before, behind, hbefore, hbehind, hliteral, hread⟩ :=
      Binary64.literal_reads ht.1 ht.2
    have hspelling : (Token.float value).spelling.toList = value.literal := String.toList_ofList
    have h := segments_fraction hbefore hbehind hrest
    rw [← hliteral, fractionSegment] at h
    simp only [hread, if_pos ht.1] at h
    rw [segment, hspelling, h]
  | string text =>
    obtain ⟨hquote, hfree⟩ := delimiter_notMem ht
    have hspelling : (Token.string text).spelling.toList = quoted text.toList :=
      String.toList_ofList
    have h := segments_string hquote hfree rest
    rw [String.ofList_toList] at h
    rw [segment, hspelling, quoted, h]
  | keyword k =>
    obtain ⟨hname, hkeyword⟩ := k.name?_spelling
    have h := segments_name hname hrest
    rw [String.ofList_toList, hkeyword] at h
    exact h
  | symbol s => exact segments_symbol s hrest
  | eof => exact ht.elim

end CMinus
