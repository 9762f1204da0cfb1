import CMinus.Proofs.Outlined
import CMinus.Proofs.Spelling

/-!
# OutlineLines: the text of an outline says its lines

A string literal may hold text that looks like lines of an outline. It is known where it starts, by
the word in front of it, and it ends at its quote, so nothing between its quotes is taken for a
line. Everything else that a line says ends where the line ends (`Legend`). So lines are read back
from their text (`lines_eq_of_text`), and two programs with one text have the same lines.
-/

namespace CMinus

open Scan

/-! ## 1. The text says its lines -/

section Cancel

variable {rest rest' : List Char}

theorem line_cancel {a b : List Char} (ha : '\n' ∉ a) (hb : '\n' ∉ b)
    (h : a ++ '\n' :: rest = b ++ '\n' :: rest') : a = b ∧ rest = rest' := by
  have hsplit := congrArg (until? '\n') h
  rw [until?_append_stop ha, until?_append_stop hb, Option.some.injEq, Prod.mk.injEq] at hsplit
  exact hsplit

/-- A quoted text ends at its quote, whatever stands behind it. -/
theorem quoted_cancel {a b : List Char} (ha : ¬('\'' ∈ a ∧ '"' ∈ a)) (hb : ¬('\'' ∈ b ∧ '"' ∈ b))
    (h : quoted a ++ rest = quoted b ++ rest') : a = b ∧ rest = rest' := by
  have hfirst : delimiter a = delimiter b ∧
      a ++ delimiter a :: rest = b ++ delimiter b :: rest' := by
    simpa [quoted] using h
  obtain ⟨hdelimiter, hbody⟩ := hfirst
  have hsplit := congrArg (until? (delimiter a)) hbody
  rw [until?_append_stop (delimiter_notMem ha).2, hdelimiter,
    until?_append_stop (delimiter_notMem hb).2, Option.some.injEq, Prod.mk.injEq] at hsplit
  exact hsplit

/-- What can be read back behind the bars of a line: a label that keeps to its line and does not
    look like a bar or a string literal, or a string literal. -/
inductive Legend : String → Prop
  | plain {label : String} (line : OneLine label) (bar : label.toList.head? ≠ some '|')
      (string : ¬"StringConst ".toList <+: label.toList) : Legend label
  | literal {text : String} (spellable : (Token.string text).Spellable) :
      Legend ("StringConst " ++ (Token.string text).spelling)

theorem Legend.ne_bar {label : String} (h : Legend label) (cs : List Char) :
    label.toList ++ '\n' :: rest ≠ '|' :: cs := by
  cases h with
  | plain _ bar _ =>
    intro heq
    cases htext : label.toList with
    | nil => simp [htext] at heq
    | cons c text => simp_all
  | literal _ => simp

/-- What does not start as a string literal does not look like one with the end of its line. -/
theorem not_literal {label : String} (string : ¬"StringConst ".toList <+: label.toList)
    (cs : List Char) :
    label.toList ++ '\n' :: rest ≠ "StringConst ".toList ++ cs := by
  intro heq
  rcases List.append_eq_append_iff.mp heq with ⟨behind, htag, hrest⟩ | ⟨behind, htext, _⟩
  · cases behind with
    | nil =>
      rw [List.append_nil] at htag
      exact string (htag ▸ List.prefix_refl _)
    | cons c behind =>
      have hmem : '\n' ∈ "StringConst ".toList := by
        rw [htag, ← (List.cons.inj hrest).1]
        exact List.mem_append_right _ List.mem_cons_self
      exact absurd hmem (by decide)
  · exact string ⟨behind, htext.symm⟩

theorem Legend.cancel {label label' : String} (h : Legend label) (h' : Legend label')
    (heq : label.toList ++ '\n' :: rest = label'.toList ++ '\n' :: rest') :
    label = label' ∧ rest = rest' := by
  cases h with
  | plain line _ string =>
    cases h' with
    | plain line' _ _ =>
      obtain ⟨hlabel, hrest⟩ := line_cancel line line' heq
      exact ⟨String.toList_injective hlabel, hrest⟩
    | literal _ =>
      rw [String.toList_append, List.append_assoc] at heq
      exact absurd heq (not_literal string _)
  | literal spellable =>
    cases h' with
    | plain _ _ string' =>
      rw [String.toList_append, List.append_assoc] at heq
      exact absurd heq.symm (not_literal string' _)
    | literal spellable' =>
      -- here the line may end inside the literal: what is cut off is the text up to its quote
      simp only [String.toList_append, List.append_assoc, List.append_cancel_left_eq,
        Token.spelling, String.toList_ofList] at heq
      obtain ⟨htext, hrest⟩ := quoted_cancel spellable spellable' heq
      rw [String.toList_injective htext]
      exact ⟨rfl, (List.cons.inj hrest).2⟩

theorem OutlineLine.text_zero (label : String) : (OutlineLine.mk 0 label).text = label := by
  rw [text, List.replicate_zero, String.join_nil, String.empty_append]

theorem OutlineLine.text_succ (depth : Nat) (label : String) :
    (OutlineLine.mk (depth + 1) label).text = "| " ++ (OutlineLine.mk depth label).text := by
  rw [text, text, List.replicate_succ, String.join_cons, String.append_assoc]

theorem OutlineLine.cancel {depth depth' : Nat} {label label' : String} (h : Legend label)
    (h' : Legend label')
    (heq : (OutlineLine.mk depth label).text.toList ++ '\n' :: rest =
      (OutlineLine.mk depth' label').text.toList ++ '\n' :: rest') :
    OutlineLine.mk depth label = OutlineLine.mk depth' label' ∧ rest = rest' := by
  induction depth generalizing depth' with
  | zero =>
    cases depth' with
    | zero =>
      rw [text_zero, text_zero] at heq
      obtain ⟨hlabel, hrest⟩ := h.cancel h' heq
      rw [hlabel]
      exact ⟨rfl, hrest⟩
    | succ depth' =>
      -- a bar on one side only
      rw [text_zero, text_succ, String.toList_append, List.append_assoc] at heq
      exact absurd heq (h.ne_bar _)
  | succ depth ih =>
    cases depth' with
    | zero =>
      rw [text_zero, text_succ, String.toList_append, List.append_assoc] at heq
      exact absurd heq.symm (h'.ne_bar _)
    | succ depth' =>
      rw [text_succ, text_succ, String.toList_append, String.toList_append, List.append_assoc,
        List.append_assoc] at heq
      obtain ⟨hline, hrest⟩ := ih (List.append_cancel_left heq)
      obtain ⟨hdepth, hlabel⟩ := OutlineLine.mk.inj hline
      rw [hdepth, hlabel]
      exact ⟨rfl, hrest⟩

end Cancel

/-- **The text of lines says the lines**, if their labels can be read back. -/
theorem lines_eq_of_text {lines lines' : List OutlineLine} (h : ∀ l ∈ lines, Legend l.label)
    (h' : ∀ l ∈ lines', Legend l.label)
    (heq : ofLines (lines.map OutlineLine.text) = ofLines (lines'.map OutlineLine.text)) :
    lines = lines' := by
  have hchars : ∀ (l : OutlineLine) (rest : List OutlineLine),
      (ofLines ((l :: rest).map OutlineLine.text)).toList =
        l.text.toList ++ '\n' :: (ofLines (rest.map OutlineLine.text)).toList := by
    intro l rest
    rw [List.map_cons, ofLines_cons, String.toList_append, String.toList_append, List.append_assoc]
    rfl
  induction lines generalizing lines' with
  | nil =>
    cases lines' with
    | nil => rfl
    | cons l' rest' =>
      have htext := congrArg String.toList heq
      rw [hchars] at htext
      exact absurd htext.symm (List.append_ne_nil_of_right_ne_nil _ (List.cons_ne_nil _ _))
  | cons l rest ih =>
    obtain ⟨hl, hrest⟩ := List.forall_mem_cons.mp h
    have htext := congrArg String.toList heq
    rw [hchars] at htext
    cases lines' with
    | nil => exact absurd htext (List.append_ne_nil_of_right_ne_nil _ (List.cons_ne_nil _ _))
    | cons l' rest' =>
      obtain ⟨hl', hrest'⟩ := List.forall_mem_cons.mp h'
      rw [hchars] at htext
      obtain ⟨hsame, hbehind⟩ := OutlineLine.cancel hl hl' htext
      have hline : l = l' := hsame
      rw [hline, ih hrest hrest' (String.toList_injective hbehind)]

/-! ## 2. What entries are called can be read back -/

/-- A label is known by its first character not to be a bar or a string literal. -/
theorem Legend.of_first {label : String} (line : OneLine label)
    (h : ∃ c ∈ label.toList.head?, c ≠ '|' ∧ c ≠ 'S') : Legend label := by
  obtain ⟨c, hc, hbar, hstring⟩ := h
  refine .plain line (fun e => hbar (Option.some.inj (hc.symm.trans e))) fun hprefix => ?_
  obtain ⟨behind, htext⟩ := hprefix
  rw [← htext] at hc
  exact hstring (Option.some.inj hc).symm

theorem Expression.legend {e : Expression} (h : e.Writable) : Legend e.label := by
  by_cases hstring : ∃ text line, e = .string text line
  · obtain ⟨text, line, rfl⟩ := hstring
    exact .literal h
  · refine .of_first ((oneLine_label h).mpr fun text line he => absurd ⟨text, line, he⟩ hstring) ?_
    cases e with
    | string text line => exact absurd ⟨text, line, rfl⟩ hstring
    | binary op left right line => cases op <;> simp [label, BinaryOp.tier, Tier.name]
    | not | scalar | element | call | int | float => simp [label]

theorem Procedure.toList_label (p : Procedure) :
    p.label.toList =
      "ProcedureDecl ".toList ++ (p.returnType.spelling.toList ++ ' ' :: p.name.toList) := by
  show ("ProcedureDecl " ++ p.returnType.spelling ++ " " ++ p.name).toList = _
  simp only [String.toList_append, List.append_assoc]
  rfl

theorem Procedure.legend {p : Procedure} (h : p.WellFormed) : Legend p.label := by
  refine .of_first (oneLine_label h) ?_
  rw [toList_label]
  exact ⟨'P', rfl, by decide⟩

theorem Statement.legend (s : Statement) : Legend s.label := by
  refine .of_first s.oneLine_label ?_
  cases s <;> simp [label]

/-- The label of a well-formed entry can be read back. -/
theorem Entry.legend {e : Entry} (h : e.WellFormed) : Legend e.label := by
  cases e with
  | thenBlock b => exact .of_first (show OneLine "Then" by decide) (by simp [label])
  | elseBlock b => exact .of_first (show OneLine "Else" by decide) (by simp [label])
  | node n =>
    cases n with
    | program p => exact .of_first (show OneLine "Program" by decide) (by simp [label, Node.label])
    | declarations ds =>
      exact .of_first (show OneLine "DeclList" by decide) (by simp [label, Node.label])
    | declaration d =>
      exact .of_first (Declaration.oneLine_label h)
        (by simp [label, Node.label, Declaration.label])
    | procedure p => exact Procedure.legend h
    | block b =>
      exact .plain (show OneLine "StatementList" by decide) (by simp [label, Node.label])
        (by simp [label, Node.label])
    | statement s => exact s.legend
    | expression e => exact Expression.legend h
    | place v => exact Expression.legend (Expression.WellFormed.writable h)

/-- Programs with one text have the same lines. -/
theorem outlineLines_eq {p q : Program} (hp : p.WellFormed) (hq : q.WellFormed)
    (h : p.outline = q.outline) : p.outlineLines = q.outlineLines := by
  have hlegends : ∀ p : Program, p.WellFormed → ∀ l ∈ p.outlineLines, Legend l.label := by
    intro p hp l hl
    obtain ⟨row, hrow, hlines⟩ := p.exists_row
    rw [hlines] at hl
    obtain ⟨e, he, rfl⟩ := List.mem_map.mp hl
    exact Entry.legend (wellFormed_of_mem_row hp hrow he)
  rw [p.outline_eq_ofLines, q.outline_eq_ofLines] at h
  exact lines_eq_of_text (hlegends p hp) (hlegends q hq) h

end CMinus
