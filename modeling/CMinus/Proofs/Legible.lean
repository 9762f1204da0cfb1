import CMinus.Proofs.Reading
import CMinus.Proofs.Spelling

/-!
# Legible: canonical text is scanned as its tokens

Pieces of canonical text are legible when every word among them can be spelled and may end where
the text goes on, and every gap is blank (`Legible`). Then scanning the text gives the words and no
diagnostics. The text of a well-formed program is legible: names and numbers are followed by a
blank, a bracket or a semicolon, and what follows the mark of a negation never starts with `=`.
-/

namespace CMinus

open Scan

/-! ## 1. Characters and segments of pieces -/

namespace Piece

/-- The characters of pieces in a row. -/
def chars (ps : List Piece) : List Char :=
  ps.flatMap (·.text.toList)

theorem toList_join (ps : List Piece) : (join ps).toList = chars ps := by
  rw [join, String.toList_join, List.flatMap_map, chars]

/-- The tokens among pieces. -/
def words (ps : List Piece) : List Token :=
  ps.filterMap token?

/-- The segments a piece is cut into. -/
def segments : Piece → List Segment
  | word token => [token.segment]
  | gap text => text.toList.map .blank

@[simp] theorem chars_cons (p : Piece) (ps : List Piece) :
    chars (p :: ps) = p.text.toList ++ chars ps := rfl

@[simp] theorem chars_append (ps qs : List Piece) : chars (ps ++ qs) = chars ps ++ chars qs :=
  List.flatMap_append

@[simp] theorem words_nil : words [] = [] := rfl

@[simp] theorem words_word (t : Token) (ps : List Piece) : words (word t :: ps) = t :: words ps :=
  rfl

@[simp] theorem words_sign (s : Symbol) (ps : List Piece) :
    words (sign s :: ps) = .symbol s :: words ps := rfl

@[simp] theorem words_keyword (k : Keyword) (ps : List Piece) :
    words (keyword k :: ps) = .keyword k :: words ps := rfl

@[simp] theorem words_blank (ps : List Piece) : words (blank :: ps) = words ps := rfl

@[simp] theorem words_newline (ps : List Piece) : words (newline :: ps) = words ps := rfl

@[simp] theorem words_margin (level : Nat) (ps : List Piece) :
    words (margin level :: ps) = words ps := rfl

@[simp] theorem words_append (ps qs : List Piece) : words (ps ++ qs) = words ps ++ words qs :=
  List.filterMap_append

/-- Every word can be spelled and may end where the text goes on, up to the rest behind the last
    piece; every gap is blank. -/
def Legible : List Piece → List Char → Prop
  | [], _ => True
  | word t :: ps, rest => t.Spellable ∧ t.Ends (chars ps ++ rest) ∧ Legible ps rest
  | gap text :: ps, rest => (∀ c ∈ text.toList, isBlank c = true) ∧ Legible ps rest

@[simp] theorem legible_append {ps qs : List Piece} {rest : List Char} :
    Legible (ps ++ qs) rest ↔ Legible ps (chars qs ++ rest) ∧ Legible qs rest := by
  induction ps with
  | nil => simp only [List.nil_append, Legible, true_and]
  | cons p ps ih =>
    cases p <;>
      simp only [List.cons_append, Legible, ih, chars_append, List.append_assoc, and_assoc]

/-! ## 2. Scanning legible pieces -/

theorem segments_blanks {blanks : List Char} (h : ∀ c ∈ blanks, isBlank c = true)
    (rest : List Char) :
    Scan.segments (blanks ++ rest) = blanks.map .blank ++ Scan.segments rest := by
  induction blanks with
  | nil => rfl
  | cons c cs ih =>
    obtain ⟨hc, hcs⟩ := List.forall_mem_cons.mp h
    have hcut : cut c (cs ++ rest) = (.blank c, cs ++ rest) := by
      unfold cut
      rw [if_pos hc]
    rw [List.cons_append, segments_eq_of_cut hcut, ih hcs, List.map_cons, List.cons_append]

/-- Legible pieces are cut one by one. -/
theorem segments_of_legible {ps : List Piece} {rest : List Char} (h : Legible ps rest) :
    Scan.segments (chars ps ++ rest) = ps.flatMap segments ++ Scan.segments rest := by
  induction ps with
  | nil => rfl
  | cons p ps ih =>
    rw [chars_cons, List.append_assoc, List.flatMap_cons, List.append_assoc]
    cases p with
    | word t =>
      obtain ⟨ht, hends, hps⟩ := h
      rw [← ih hps]
      exact Token.segments_spelling ht hends
    | gap text =>
      obtain ⟨hblank, hps⟩ := h
      rw [← ih hps]
      exact segments_blanks hblank _

/-- A piece is cut into its token, if it has one. -/
theorem filterMap_token?_segments (p : Piece) :
    p.segments.filterMap Segment.token? = p.token?.toList := by
  cases p with
  | word t => rfl
  | gap text => simp [segments, token?, Segment.token?, List.filterMap_map, Function.comp_def]

/-- The pieces are cut into their tokens. -/
theorem filterMap_token?_flatMap (ps : List Piece) :
    (ps.flatMap segments).filterMap Segment.token? = words ps := by
  induction ps with
  | nil => rfl
  | cons p ps ih =>
    rw [List.flatMap_cons, List.filterMap_append, filterMap_token?_segments, ih, words, words,
      List.filterMap_cons]
    cases p.token? with
    | none => rfl
    | some t => rfl

theorem diagnostic?_segments {p : Piece} {s : Segment} (h : s ∈ p.segments) (strict : Bool)
    (line : Nat) : s.diagnostic? strict line = none := by
  cases p with
  | word t =>
    rw [segments, List.mem_singleton] at h
    rw [h]
    rfl
  | gap text =>
    obtain ⟨c, _, rfl⟩ := List.mem_map.mp h
    rfl

end Piece

namespace Scan

theorem tokensOf_place (line : Nat) (ss : List Segment) :
    Parse.tokensOf ((place line ss).filterMap Placed.lexeme?) = ss.filterMap Segment.token? := by
  induction ss generalizing line with
  | nil => rfl
  | cons s ss ih =>
    rw [place, List.filterMap_cons, List.filterMap_cons, Placed.lexeme?]
    cases s.token? with
    | none => exact ih _
    | some t => exact congrArg (t :: ·) (ih _)

theorem diagnostics_place {strict : Bool} {ss : List Segment}
    (h : ∀ s ∈ ss, ∀ line, s.diagnostic? strict line = none) (line : Nat) :
    (place line ss).filterMap (Placed.diagnostic? strict) = [] := by
  induction ss generalizing line with
  | nil => rfl
  | cons s ss ih =>
    obtain ⟨hs, hss⟩ := List.forall_mem_cons.mp h
    have hplaced : Placed.diagnostic? strict ⟨s, line⟩ = none := hs line
    rw [place, List.filterMap_cons_none hplaced, ih hss]

end Scan

/-- **Legible text is scanned as its words**, without a diagnostic. -/
theorem scan_of_legible {ps : List Piece} (h : Piece.Legible ps []) (o : Options) :
    Parse.tokensOf (scan (Piece.join ps) o).1 = Piece.words ps ∧
      (scan (Piece.join ps) o).2 = [] := by
  have hsegments : segments (Piece.join ps).toList = ps.flatMap Piece.segments := by
    have hcut := Piece.segments_of_legible h
    rwa [List.append_nil, segments, List.append_nil, ← Piece.toList_join] at hcut
  have hahead : (Scanner.start (Piece.join ps) o).ahead = place 1 (ps.flatMap Piece.segments) := by
    rw [← hsegments]
    rfl
  have hnone : ∀ s ∈ ps.flatMap Piece.segments, ∀ line,
      s.diagnostic? o.strictComments line = none := by
    intro s hs line
    obtain ⟨p, _, hp⟩ := List.mem_flatMap.mp hs
    exact Piece.diagnostic?_segments hp _ _
  have hdiagnostics : (Scanner.start (Piece.join ps) o).diagnostics = [] := by
    rw [Scanner.diagnostics, hahead]
    exact diagnostics_place hnone 1
  unfold scan
  simp only [hdiagnostics]
  refine ⟨?_, List.mergeSort_nil⟩
  rw [Scanner.lexemes, hahead, tokensOf_place, Piece.filterMap_token?_flatMap]

/-! ## 3. Where tokens may end -/

/-- A blank, a bracket or a semicolon: no token goes on with one. -/
def isBreak (c : Char) : Bool :=
  isBlank c || c == '(' || c == ')' || c == '[' || c == ']' || c == ';'

/-- The text goes on with a break, or not at all. -/
def Breaks (rest : List Char) : Prop :=
  ∀ c ∈ rest.head?, isBreak c = true

/-- A piece that starts with a break. -/
theorem Piece.breaks_append {p : Piece} (h : p.text.toList.head?.any isBreak = true)
    (rest : List Char) : Breaks (p.text.toList ++ rest) := by
  intro c hc
  cases htext : p.text.toList with
  | nil =>
    rw [htext] at h
    cases h
  | cons d ds =>
    rw [htext] at h hc
    cases hc
    exact h

theorem isBreak_cases {c : Char} (h : isBreak c = true) :
    c = ' ' ∨ c = '\t' ∨ c = '\r' ∨ c = '\n' ∨ c = '(' ∨ c = ')' ∨ c = '[' ∨ c = ']' ∨ c = ';' := by
  simpa [isBreak, isBlank, or_assoc] using h

theorem Token.extendedBy_break {t : Token} {c : Char} (h : isBreak c = true) :
    t.extendedBy c = false := by
  cases t with
  | symbol s =>
    cases s <;> rcases isBreak_cases h with rfl | rfl | rfl | rfl | rfl | rfl | rfl | rfl | rfl <;>
      rfl
  | string | eof => rfl
  | _ => rcases isBreak_cases h with rfl | rfl | rfl | rfl | rfl | rfl | rfl | rfl | rfl <;> rfl

theorem Token.ends_of_breaks {t : Token} {rest : List Char} (h : Breaks rest) : t.Ends rest :=
  fun c hc => extendedBy_break (h c hc)

/-- No longer symbol starts with this one, and no comment. -/
def Symbol.isClosed : Symbol → Bool
  | .assign | .not | .less | .greater | .divide => false
  | _ => true

theorem Symbol.ends_of_isClosed {s : Symbol} (h : s.isClosed = true) (rest : List Char) :
    (Token.symbol s).Ends rest := by
  intro c _
  cases s <;> first | rfl | cases h

namespace Piece

variable {ps : List Piece} {rest : List Char}

theorem legible_word {t : Token} (h : Breaks (chars ps ++ rest)) :
    Legible (word t :: ps) rest ↔ t.Spellable ∧ Legible ps rest := by
  simp only [Legible, Token.ends_of_breaks h, true_and]

theorem legible_keyword {k : Keyword} (h : Breaks (chars ps ++ rest)) :
    Legible (Piece.keyword k :: ps) rest ↔ Legible ps rest := by
  rw [Piece.keyword, legible_word h, Token.Spellable, true_and]

theorem legible_operator {s : Symbol} (h : Breaks (chars ps ++ rest)) :
    Legible (sign s :: ps) rest ↔ Legible ps rest := by
  rw [sign, legible_word h, Token.Spellable, true_and]

theorem legible_sign {s : Symbol} (h : s.isClosed = true) :
    Legible (sign s :: ps) rest ↔ Legible ps rest := by
  simp only [sign, Legible, Token.Spellable, Symbol.ends_of_isClosed h, true_and]

@[simp] theorem legible_nil : Legible [] rest ↔ True := Iff.rfl

@[simp] theorem legible_blank : Legible (blank :: ps) rest ↔ Legible ps rest := by
  simp [blank, Legible, isBlank]

@[simp] theorem legible_newline : Legible (newline :: ps) rest ↔ Legible ps rest := by
  simp [newline, Legible, isBlank]

@[simp] theorem legible_margin (level : Nat) :
    Legible (margin level :: ps) rest ↔ Legible ps rest := by
  simp [margin, Legible, isBlank]

end Piece

end CMinus
