import CMinus.Proofs.Legible

/-!
# Canonical.Text: canonical text is scanned as the tokens of its pieces

Every name and number of canonical text stands in front of a blank, a bracket or a semicolon, and
what follows the mark of a negation does not start with `=`. So the text of a well-formed program is
legible, and scanning it gives its words.
-/

namespace CMinus

open Scan Piece

/-! ## 1. Expressions -/

/-- The characters do not start with `=`. -/
def Unequal (cs : List Char) : Prop :=
  ∃ c rest, cs = c :: rest ∧ c ≠ '='

theorem Unequal.append {cs : List Char} (h : Unequal cs) (rest : List Char) :
    Unequal (cs ++ rest) := by
  obtain ⟨c, cs', rfl, hc⟩ := h
  exact ⟨c, cs' ++ rest, rfl, hc⟩

theorem Scan.Digits.unequal {cs : List Char} (h : Digits cs) : Unequal cs := by
  cases cs with
  | nil => exact absurd rfl h.1
  | cons c cs =>
    refine ⟨c, cs, rfl, ?_⟩
    rintro rfl
    exact absurd (h.2 '=' List.mem_cons_self) (by decide)

theorem IsName.unequal {name : String} (h : IsName name) : Unequal name.toList := by
  have hname := h.1
  generalize name.toList = cs at hname
  cases cs with
  | nil => cases hname
  | cons c cs =>
    refine ⟨c, cs, rfl, ?_⟩
    rintro rfl
    rw [name?_eq_none (by decide)] at hname
    cases hname

theorem Unequal.ends_not {cs : List Char} (h : Unequal cs) (rest : List Char) :
    (Token.symbol .not).Ends (cs ++ rest) := by
  obtain ⟨c, cs', rfl, hc⟩ := h
  rintro d ⟨⟩
  exact beq_eq_false_iff_ne.mpr hc

theorem Unequal.parenthesised {ps : List Piece} (h : Unequal (chars ps)) (needed : Bool) :
    Unequal (chars (parenthesised needed ps)) := by
  cases needed with
  | false => exact h
  | true => exact ⟨'(', _, rfl, by decide⟩

/-- What an expression starts with: a name, a digit, a parenthesis or the mark of a negation. -/
theorem Expression.unequal {e : Expression} (h : e.WellFormed) : Unequal (chars e.pieces) := by
  induction e with
  | binary op left right line ihl ihr =>
    rw [pieces, chars_append, chars_append]
    exact (((ihl h.1).parenthesised _).append _).append _
  | not operand line ih => exact ⟨'!', _, rfl, by decide⟩
  | scalar name line => exact (IsName.unequal h).append _
  | element name index line ih => exact (IsName.unequal h.1).append _
  | call name line => exact (IsName.unequal h).append _
  | int value line =>
    obtain ⟨n, rfl⟩ := Int.eq_ofNat_of_zero_le h.1
    have hdigits := (digits_toDigits n).unequal
    rw [← Nat.toList_repr] at hdigits
    exact hdigits.append _
  | float value line =>
    obtain ⟨before, behind, hbefore, _, hliteral, _⟩ := Binary64.literal_reads h.1 h.2
    have hunequal := hbefore.unequal.append ('.' :: behind)
    rw [← hliteral] at hunequal
    rw [pieces, chars_cons, show (word (.float value)).text.toList = value.literal from
      String.toList_ofList]
    exact hunequal.append _
  | string text line => exact h.elim

theorem legible_parenthesised {ps : List Piece} (h : ∀ rest, Breaks rest → Legible ps rest)
    (needed : Bool) {rest : List Char} (hrest : Breaks rest) :
    Legible (parenthesised needed ps) rest := by
  cases needed with
  | false => exact h rest hrest
  | true => simp +decide [parenthesised, legible_sign, breaks_append, h]

/-- An expression is legible in front of a break. -/
theorem Expression.legible {e : Expression} (h : e.WellFormed) :
    ∀ rest, Breaks rest → Legible e.pieces rest := by
  induction e with
  | binary op left right line ihl ihr =>
    intro rest hrest
    have hleft : ∀ needed rest, Breaks rest → Legible (parenthesised needed left.pieces) rest :=
      fun needed rest => legible_parenthesised (ihl h.1) needed
    have hright : ∀ needed, Legible (parenthesised needed right.pieces) rest :=
      fun needed => legible_parenthesised (ihr h.2) needed hrest
    simp +decide [pieces, legible_operator, breaks_append, hleft, hright]
  | not operand line ih =>
    intro rest hrest
    have hstart := (unequal (e := operand) h).parenthesised (operand.rank < 2)
    exact ⟨trivial, hstart.ends_not rest, legible_parenthesised (ih h) _ hrest⟩
  | scalar name line =>
    intro rest hrest
    exact ⟨h, Token.ends_of_breaks hrest, trivial⟩
  | element name index line ih =>
    intro rest hrest
    have hname : (Token.ident name).Spellable := h.1
    simp +decide [pieces, legible_word, legible_sign, breaks_append, ih h.2, hname]
  | call name line =>
    intro rest hrest
    have hname : (Token.ident name).Spellable := h
    simp +decide [pieces, legible_word, legible_sign, breaks_append, hname]
  | int value line =>
    intro rest hrest
    exact ⟨h, Token.ends_of_breaks hrest, trivial⟩
  | float value line =>
    intro rest hrest
    exact ⟨h, Token.ends_of_breaks hrest, trivial⟩
  | string text line => exact h.elim

/-- What a `write` writes is legible in front of a break. -/
theorem Expression.legible_writable {e : Expression} (h : e.Writable) :
    ∀ rest, Breaks rest → Legible e.pieces rest := by
  cases e with
  | string text line =>
    intro rest hrest
    exact ⟨h, Token.ends_of_breaks hrest, trivial⟩
  | _ => exact legible h

/-! ## 2. Statements -/

namespace Statement

mutual

/-- A statement is legible in front of any text: it ends with the end of a line. -/
theorem legible (level : Nat) : (s : Statement) → s.WellFormed →
    ∀ rest, Legible (s.lines level) rest
  | assign target value _, h, rest => by
    have htarget := Expression.legible (e := target.toExpression) h.1
    have hvalue := Expression.legible h.2
    simp +decide [lines, Variable.pieces, legible_operator, breaks_append, htarget, hvalue]
  | ifThen condition body _, h, rest => by
    have hcondition := Expression.legible h.1
    have hbody := legible_braces level body h.2
    simp +decide [lines, legible_keyword, legible_sign, breaks_append, hcondition, hbody]
  | ifElse condition body other _, h, rest => by
    have hcondition := Expression.legible h.1
    have hbody := legible_braces level body h.2.1
    have hother := legible_braces level other h.2.2
    simp +decide [lines, legible_keyword, legible_sign, breaks_append, hcondition, hbody, hother]
  | whileDo condition body _, h, rest => by
    have hcondition := Expression.legible h.1
    have hbody := legible (level + 1) body h.2
    cases body with
    | compound block =>
      have hblock := legible_braces level block h.2
      simp +decide [lines, legible_keyword, legible_sign, breaks_append, hcondition, hblock]
    | _ =>
      rw [lines]
      · simp +decide [legible_keyword, legible_sign, breaks_append, hcondition, hbody]
      · rintro block ⟨⟩
  | read target _, h, rest => by
    have htarget := Expression.legible (e := target.toExpression) h
    simp +decide [lines, Variable.pieces, legible_keyword, legible_sign, breaks_append, htarget]
  | write value _, h, rest => by
    have hvalue := Expression.legible_writable h
    simp +decide [lines, legible_keyword, legible_sign, breaks_append, hvalue]
  | returns value _, h, rest => by
    have hvalue := Expression.legible h
    simp +decide [lines, legible_keyword, legible_sign, breaks_append, hvalue]
  | exit _, _, rest => by simp +decide [lines, legible_keyword, legible_sign, breaks_append]
  | compound body, h, rest => by
    have hbody := legible_braces level body h
    simp [lines, hbody]

theorem legible_braces (level : Nat) : (b : Block Statement) → WellFormedBlock b →
    ∀ rest, Legible (braces level b) rest
  | ⟨items, _⟩, h, rest => by
    have hitems := legible_linesOf (level + 1) items h.2
    simp +decide [braces, legible_sign, hitems]

theorem legible_linesOf (level : Nat) : (ss : List Statement) → WellFormedList ss →
    ∀ rest, Legible (linesOf level ss) rest
  | [], _, _ => trivial
  | s :: ss, h, rest => by
    have hs := legible level s h.1
    have hss := legible_linesOf level ss h.2
    simp [linesOf, hs, hss]

end

end Statement

/-! ## 3. Programs -/

theorem Declaration.legible {d : Declaration} (h : d.WellFormed) (rest : List Char) :
    Legible (d.pieces ++ [sign .semicolon, newline]) rest := by
  rcases d with ⟨name, type, _ | size, line⟩
  · have hname : (Token.ident name).Spellable := h.1
    simp +decide [pieces, legible_keyword, legible_word, legible_sign, breaks_append, hname]
  · have hname : (Token.ident name).Spellable := h.1
    have hsize := h.2 size rfl
    simp +decide [pieces, legible_keyword, legible_word, legible_sign, breaks_append, hname, hsize]

theorem legible_declarationLines (level : Nat) {ds : List Declaration}
    (h : ∀ d ∈ ds, d.WellFormed) (rest : List Char) :
    Legible (declarationLines level ds) rest := by
  induction ds with
  | nil => trivial
  | cons d ds ih =>
    obtain ⟨hd, hds⟩ := List.forall_mem_cons.mp h
    rw [declarationLines, List.flatMap_cons, legible_append]
    exact ⟨(legible_margin level).mpr (Declaration.legible hd _), ih hds⟩

theorem Procedure.legible {p : Procedure} (h : p.WellFormed) (rest : List Char) :
    Legible p.pieces rest := by
  rcases p with ⟨type, name, locals, ⟨items, line⟩, line'⟩
  obtain ⟨hname, hlocals, hbody⟩ := h
  have hname' : (Token.ident name).Spellable := hname
  have hdeclarations := legible_declarationLines 1 hlocals
  have hstatements := Statement.legible_linesOf 1 items hbody.2
  simp +decide [pieces, legible_keyword, legible_word, legible_sign, breaks_append, hname',
    hdeclarations, hstatements]

theorem Procedure.legible_piecesOf {ps : List Procedure} (h : ∀ p ∈ ps, p.WellFormed)
    (rest : List Char) : Legible (piecesOf ps) rest := by
  induction ps with
  | nil => trivial
  | cons p ps ih =>
    obtain ⟨hp, hps⟩ := List.forall_mem_cons.mp h
    cases ps with
    | nil => exact legible hp rest
    | cons q qs =>
      rw [piecesOf, legible_append, legible_newline]
      · exact ⟨legible hp _, ih hps⟩
      · exact List.cons_ne_nil _ _

/-- **The text of a well-formed program is legible.** -/
theorem Program.legible {p : Program} (h : p.WellFormed) : Legible p.pieces [] := by
  rcases p with ⟨_ | globals, procedures, line⟩
  · exact Procedure.legible_piecesOf h.2.2 []
  · have hglobals := legible_declarationLines 0 (h.1 globals rfl).2
    have hprocedures := Procedure.legible_piecesOf h.2.2
    simp [pieces, hglobals, hprocedures]

end CMinus
