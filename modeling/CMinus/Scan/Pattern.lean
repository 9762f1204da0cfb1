import CMinus.Options
import CMinus.Text.Word

/-!
# Pattern: what a text may start with

Each pattern reads as much as it can from the front of a text and answers with what it read and
what is left, or with nothing when the text does not start that way.

* a name: a letter or underscore, then word characters;
* a whole number: digits;
* a fraction: digits, a point, digits;
* a string: everything up to the next quote of the same kind, with its two quotes;
* a comment body: everything up to the first closing mark.
-/

namespace CMinus.Scan

/-- What was read and what is left. -/
abbrev Split := List Char × List Char

/-! ## 1. Runs of one class -/

/-- The longest run of characters of a class, when there is at least one, and the rest. -/
def run1? (p : Char → Bool) (cs : List Char) : Option Split :=
  match cs.takeWhile p with
  | [] => none
  | c :: read => some (c :: read, cs.dropWhile p)

theorem run1?_append {p : Char → Bool} {cs read rest : List Char}
    (h : run1? p cs = some (read, rest)) : read ++ rest = cs := by
  unfold run1? at h
  split at h
  · simp at h
  · rename_i c r hr
    simp only [Option.some.injEq, Prod.mk.injEq] at h
    rw [← h.1, ← h.2, ← hr]
    exact List.takeWhile_append_dropWhile

theorem run1?_ne_nil {p : Char → Bool} {cs read rest : List Char}
    (h : run1? p cs = some (read, rest)) : read ≠ [] := by
  unfold run1? at h
  split at h
  · simp at h
  · simp only [Option.some.injEq, Prod.mk.injEq] at h
    rw [← h.1]
    exact List.cons_ne_nil _ _

/-! ## 2. Names and numbers -/

/-- A decimal digit. -/
def isDigit (c : Char) : Bool :=
  c.isDigit

/-- A name. -/
def name? : List Char → Option Split
  | c :: cs => if isNameStart c then some (c :: cs.takeWhile isWord, cs.dropWhile isWord) else none
  | [] => none

/-- A whole number. -/
def whole? (cs : List Char) : Option Split :=
  run1? isDigit cs

/-- A number with digits on both sides of a point. -/
def fraction? (cs : List Char) : Option Split :=
  match run1? isDigit cs with
  | some (before, '.' :: rest) =>
    match run1? isDigit rest with
    | some (after, rest) => some (before ++ '.' :: after, rest)
    | none => none
  | _ => none

/-! ## 3. Strings and comments -/

/-- The text up to the first `q`, and the rest behind it. -/
def until? (q : Char) : List Char → Option Split
  | [] => none
  | c :: cs =>
    if c = q then some ([], cs)
    else (until? q cs).map fun (read, rest) => (c :: read, rest)

/-- The two kinds of quotes. -/
def isQuote (c : Char) : Bool :=
  c == '\'' || c == '"'

/-- A string literal with its quotes. -/
def string? : List Char → Option Split
  | q :: cs =>
    if isQuote q then (until? q cs).map fun (body, rest) => (q :: body ++ [q], rest) else none
  | [] => none

/-- The body of a comment whose opening mark has been read, and the rest behind its first closing
    mark. -/
def commentBody? : List Char → Option Split
  | [] => none
  | c :: cs =>
    if commentEnd.toList <+: c :: cs then some ([], (c :: cs).drop commentEnd.length)
    else (commentBody? cs).map fun (body, rest) => (c :: body, rest)

/-! ## 4. Nothing is lost -/

theorem name?_append {cs read rest : List Char} (h : name? cs = some (read, rest)) :
    read ++ rest = cs := by
  cases cs with
  | nil => simp [name?] at h
  | cons c cs =>
    simp only [name?] at h
    split at h
    · simp only [Option.some.injEq, Prod.mk.injEq] at h
      rw [← h.1, ← h.2, List.cons_append, List.takeWhile_append_dropWhile]
    · simp at h

theorem whole?_append {cs read rest : List Char} (h : whole? cs = some (read, rest)) :
    read ++ rest = cs :=
  run1?_append h

theorem fraction?_append {cs read rest : List Char} (h : fraction? cs = some (read, rest)) :
    read ++ rest = cs := by
  unfold fraction? at h
  split at h
  · rename_i before tail hb
    split at h
    · rename_i after tail' ha
      simp only [Option.some.injEq, Prod.mk.injEq] at h
      have e₁ := run1?_append hb
      have e₂ := run1?_append ha
      rw [← h.1, ← h.2, ← e₁, ← e₂]
      simp
    · simp at h
  · simp at h

theorem until?_append {q : Char} : ∀ {cs body rest : List Char},
    until? q cs = some (body, rest) → body ++ q :: rest = cs
  | [], _, _, h => by simp [until?] at h
  | c :: cs, body, rest, h => by
    simp only [until?] at h
    split at h
    · rename_i hc
      simp only [Option.some.injEq, Prod.mk.injEq] at h
      rw [← h.1, ← h.2, hc]
      rfl
    · obtain ⟨⟨b, r⟩, hb, e⟩ := Option.map_eq_some_iff.mp h
      simp only [Prod.mk.injEq] at e
      rw [← e.1, ← e.2, List.cons_append, until?_append hb]

theorem string?_append {cs read rest : List Char} (h : string? cs = some (read, rest)) :
    read ++ rest = cs := by
  cases cs with
  | nil => simp [string?] at h
  | cons q cs =>
    simp only [string?] at h
    split at h
    · obtain ⟨⟨b, r⟩, hb, e⟩ := Option.map_eq_some_iff.mp h
      simp only [Prod.mk.injEq] at e
      rw [← e.1, ← e.2, ← until?_append hb]
      simp
    · simp at h

theorem commentBody?_append : ∀ {cs body rest : List Char},
    commentBody? cs = some (body, rest) → body ++ '*' :: '/' :: rest = cs := by
  intro cs
  fun_induction commentBody? cs with
  | case1 => intro body rest h; simp at h
  | case2 c cs hclosing =>
    intro body rest h
    simp only [Option.some.injEq, Prod.mk.injEq] at h
    rw [← h.1, ← h.2]
    exact List.prefix_iff_eq_append.mp hclosing
  | case3 c cs _ ih =>
    intro body rest h
    obtain ⟨⟨b, r⟩, hb, e⟩ := Option.map_eq_some_iff.mp h
    simp only [Prod.mk.injEq] at e
    rw [← e.1, ← e.2, List.cons_append, ih hb]

/-! ## 5. What is read is never empty -/

theorem name?_ne_nil {cs read rest : List Char} (h : name? cs = some (read, rest)) :
    read ≠ [] := by
  cases cs with
  | nil => simp [name?] at h
  | cons c cs =>
    simp only [name?] at h
    split at h
    · simp only [Option.some.injEq, Prod.mk.injEq] at h
      rw [← h.1]
      exact List.cons_ne_nil _ _
    · simp at h

theorem fraction?_ne_nil {cs read rest : List Char} (h : fraction? cs = some (read, rest)) :
    read ≠ [] := by
  unfold fraction? at h
  split at h
  · split at h
    · simp only [Option.some.injEq, Prod.mk.injEq] at h
      rw [← h.1]
      simp
    · simp at h
  · simp at h

theorem string?_ne_nil {cs read rest : List Char} (h : string? cs = some (read, rest)) :
    read ≠ [] := by
  cases cs with
  | nil => simp [string?] at h
  | cons q cs =>
    simp only [string?] at h
    split at h
    · obtain ⟨⟨b, r⟩, _, e⟩ := Option.map_eq_some_iff.mp h
      simp only [Prod.mk.injEq] at e
      rw [← e.1]
      simp
    · simp at h

end CMinus.Scan
