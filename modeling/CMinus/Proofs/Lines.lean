import Mathlib.Tactic.SplitIfs
import CMinus.Proofs.Literal
import CMinus.Proofs.WellFormed
import CMinus.Token

/-!
# Lines: text that stays on its line

Lines that are written with their ends are read back as the same lines, when none of them holds an
end of a line itself (`linesOf_ofLines`). A line of the token listing holds none, whatever a string
literal of the source holds: what would break the line is escaped (`oneLine_listed`). In source form
a string literal is put down as it is, and it alone can break a line (`Token.oneLine_spelling`).
-/

namespace CMinus

/-! ## 1. Lines of a text -/

/-- The lines of a text; the last one stands behind the last end of a line. -/
def linesOf (text : String) : List String :=
  (text.toList.splitOn '\n').map String.ofList

/-- Lines, each with its end. -/
def ofLines (lines : List String) : String :=
  String.join (lines.map (· ++ "\n"))

/-- The text holds no end of a line. -/
def OneLine (text : String) : Prop :=
  '\n' ∉ text.toList

instance (text : String) : Decidable (OneLine text) :=
  inferInstanceAs (Decidable (¬_))

/-- An end of a line divides the lines. -/
theorem linesOf_append (front behind : String) :
    linesOf (front ++ "\n" ++ behind) = linesOf front ++ linesOf behind := by
  have htext : (front ++ "\n" ++ behind).toList = front.toList ++ '\n' :: behind.toList := by
    rw [String.toList_append, String.toList_append, List.append_assoc]
    rfl
  rw [linesOf, htext, List.splitOn_append_cons_self, List.map_append]
  rfl

theorem linesOf_of_oneLine {text : String} (h : OneLine text) : linesOf text = [text] := by
  rw [linesOf, List.splitOn_eq_singleton h, List.map_singleton, String.ofList_toList]

theorem ofLines_nil : ofLines [] = "" :=
  String.join_nil

theorem ofLines_cons (l : String) (lines : List String) :
    ofLines (l :: lines) = l ++ "\n" ++ ofLines lines :=
  String.join_cons

theorem ofLines_append (front behind : List String) :
    ofLines (front ++ behind) = ofLines front ++ ofLines behind := by
  unfold ofLines
  rw [List.map_append, String.join_append]

/-- What is written line by line is read line by line. -/
theorem linesOf_ofLines {lines : List String} (h : ∀ l ∈ lines, OneLine l) (behind : String) :
    linesOf (ofLines lines ++ behind) = lines ++ linesOf behind := by
  induction lines with
  | nil => rw [ofLines_nil, String.empty_append, List.nil_append]
  | cons l lines ih =>
    obtain ⟨hl, hlines⟩ := List.forall_mem_cons.mp h
    rw [ofLines_cons, String.append_assoc, linesOf_append, linesOf_of_oneLine hl, ih hlines,
      List.singleton_append, List.cons_append]

/-- No end of a line is left in a line. -/
theorem oneLine_of_mem_linesOf {text l : String} (h : l ∈ linesOf text) : OneLine l := by
  have hpieces : ∀ cs : List Char, ∀ piece ∈ cs.splitOn '\n', '\n' ∉ piece := by
    intro cs
    induction cs with
    | nil => simp
    | cons c cs ih =>
      intro piece hpiece
      rw [List.splitOn_cons_eq_if_modifyHead] at hpiece
      split at hpiece
      · rcases List.mem_cons.mp hpiece with rfl | hpiece
        · exact List.not_mem_nil
        · exact ih piece hpiece
      · rename_i hc
        obtain ⟨first, rest, hsplit⟩ := List.exists_cons_of_ne_nil (List.splitOn_ne_nil '\n' cs)
        rw [hsplit] at ih hpiece
        rcases List.mem_cons.mp hpiece with rfl | hpiece
        · have hne : '\n' ≠ c := fun e => hc (by rw [← e]; rfl)
          exact List.not_mem_cons_of_ne_of_not_mem hne (ih first List.mem_cons_self)
        · exact ih piece (List.mem_cons_of_mem _ hpiece)
  obtain ⟨piece, hpiece, rfl⟩ := List.mem_map.mp h
  rw [OneLine, String.toList_ofList]
  exact hpieces _ piece hpiece

/-- Lines are read back exactly when none of them holds an end of a line itself. -/
theorem linesOf_ofLines_iff {lines : List String} :
    linesOf (ofLines lines) = lines ++ [""] ↔ ∀ l ∈ lines, OneLine l := by
  constructor
  · intro h l hl
    have hmem : l ∈ linesOf (ofLines lines) := by
      rw [h]
      exact List.mem_append_left _ hl
    exact oneLine_of_mem_linesOf hmem
  · intro h
    have hread := linesOf_ofLines h ""
    rw [String.append_empty] at hread
    exact hread

/-! ## 2. Pieces of a line -/

@[simp] theorem oneLine_append {front behind : String} :
    OneLine (front ++ behind) ↔ OneLine front ∧ OneLine behind := by
  rw [OneLine, String.toList_append, List.mem_append, not_or]
  rfl

theorem OneLine.append {front behind : String} (hfront : OneLine front) (hbehind : OneLine behind) :
    OneLine (front ++ behind) :=
  oneLine_append.mpr ⟨hfront, hbehind⟩

@[simp] theorem oneLine_ofList {cs : List Char} : OneLine (String.ofList cs) ↔ '\n' ∉ cs := by
  rw [OneLine, String.toList_ofList]

theorem newline_ne_digitChar (n : Nat) : '\n' ≠ n.digitChar := by
  by_cases hn : n < 16
  · have hall : ∀ n < 16, '\n' ≠ n.digitChar := by decide
    exact hall n hn
  · rw [Nat.digitChar_eq_star.mpr (Nat.le_of_not_lt hn)]
    decide

theorem newline_notMem_toDigits {b : Nat} (hb : 1 < b) (n : Nat) : '\n' ∉ Nat.toDigits b n := by
  induction n using Nat.strongRecOn with
  | ind n ih =>
    by_cases hn : n < b
    · rw [Nat.toDigits_of_lt_base hn, List.mem_singleton]
      exact newline_ne_digitChar n
    · have hle : b ≤ n := Nat.le_of_not_lt hn
      have hdiv : n / b < n := Nat.div_lt_self (Nat.lt_of_lt_of_le (Nat.zero_lt_of_lt hb) hle) hb
      rw [Nat.toDigits_of_base_le hb hle, List.mem_append, List.mem_singleton, not_or]
      exact ⟨ih _ hdiv, newline_ne_digitChar _⟩

theorem oneLine_nat (n : Nat) : OneLine (toString n) := by
  have hdigits : (toString n).toList = Nat.toDigits 10 n := Nat.toList_repr
  rw [OneLine, hdigits]
  exact newline_notMem_toDigits (by decide) n

theorem oneLine_int (n : Int) : OneLine (toString n) := by
  cases n with
  | ofNat n => exact oneLine_nat n
  | negSucc n =>
    have htext : toString (Int.negSucc n) = "-" ++ toString (n + 1) := rfl
    rw [htext, oneLine_append]
    exact ⟨by decide, oneLine_nat (n + 1)⟩

theorem oneLine_padLeft {text : String} (h : OneLine text) (width : Nat) :
    OneLine (padLeft width text) := by
  rw [padLeft, oneLine_append, oneLine_ofList]
  refine ⟨fun hmem => ?_, h⟩
  exact absurd (List.eq_of_mem_replicate hmem) (by decide)

/-! ## 3. The token listing -/

theorem newline_notMem_escapedChar (c : Char) : '\n' ∉ escapedChar c := by
  by_cases hc : c = '\n'
  · rw [hc]
    decide
  · unfold escapedChar
    split <;> try decide
    split
    · rw [List.mem_singleton]
      exact Ne.symm hc
    · simpa using newline_notMem_toDigits (by decide) _

theorem newline_notMem_escaped (text : List Char) : '\n' ∉ escaped text := by
  unfold escaped
  rw [List.mem_append, List.mem_cons, List.mem_flatMap]
  rintro ((h | ⟨c, _, hc⟩) | h)
  · exact absurd h (by decide)
  · exact newline_notMem_escapedChar c hc
  · exact absurd h (by decide)

theorem Decimal.newline_notMem_figures (d : Decimal) : '\n' ∉ d.figures :=
  newline_notMem_toDigits (by decide) d.digits

theorem Decimal.newline_notMem_positional (d : Decimal) : '\n' ∉ d.positional := by
  have hfigures := d.newline_notMem_figures
  have htake : ∀ n, '\n' ∉ d.figures.take n := fun n h => hfigures (List.mem_of_mem_take h)
  have hdrop : ∀ n, '\n' ∉ d.figures.drop n := fun n h => hfigures (List.mem_of_mem_drop h)
  unfold positional
  simp only []
  split_ifs <;> simp [hfigures, htake, hdrop, List.mem_replicate]

theorem Decimal.newline_notMem_scientific (d : Decimal) : '\n' ∉ d.scientific := by
  have hfigures := d.newline_notMem_figures
  have hexponent : '\n' ∉ (toString d.leadingExponent).toList := oneLine_int d.leadingExponent
  unfold scientific
  simp only []
  split <;> simp_all

theorem newline_notMem_withFraction {text : List Char} (h : '\n' ∉ text) :
    '\n' ∉ Binary64.withFraction text := by
  unfold Binary64.withFraction
  split
  · exact h
  · simpa using h

theorem Binary64.newline_notMem_listed (x : Binary64) : '\n' ∉ x.listed := by
  have hlayout : ∀ d : Decimal,
      '\n' ∉ if needsExponent d then d.scientific else withFraction d.positional := by
    intro d
    split
    · exact d.newline_notMem_scientific
    · exact newline_notMem_withFraction d.newline_notMem_positional
  unfold listed textWith
  split_ifs <;> simp [hlayout]

theorem oneLine_between {front body behind : String} (hfront : OneLine front) (h : OneLine body)
    (hbehind : OneLine behind) : OneLine (front ++ body ++ behind) :=
  (hfront.append h).append hbehind

theorem Token.oneLine_listed (t : Token) : OneLine t.listed := by
  cases t with
  | ident name | string name =>
    exact oneLine_between (by decide) (oneLine_ofList.mpr (newline_notMem_escaped _)) (by decide)
  | int value => exact oneLine_between (by decide) (oneLine_int value) (by decide)
  | float value =>
    exact oneLine_between (by decide) (oneLine_ofList.mpr value.newline_notMem_listed) (by decide)
  | keyword word => cases word <;> decide
  | symbol sign => cases sign <;> decide
  | eof => decide

/-- A token is listed on one line. -/
theorem Lexeme.oneLine_listed (l : Lexeme) : OneLine l.listed := by
  unfold Lexeme.listed
  rw [oneLine_append, oneLine_append]
  exact ⟨⟨oneLine_padLeft (oneLine_nat _) 4, by decide⟩, l.token.oneLine_listed⟩

/-! ## 4. Spelled tokens -/

/-- What the characters of a name are. -/
theorem IsName.start_or_word {name : String} (h : IsName name) :
    ∀ c ∈ name.toList, isNameStart c = true ∨ isWord c = true := by
  have hname := h.1
  cases htext : name.toList with
  | nil => exact List.forall_mem_nil _
  | cons c cs =>
    rw [htext, Scan.name?] at hname
    split at hname
    · rename_i hc
      simp only [Option.some.injEq, Prod.mk.injEq, List.cons.injEq, true_and] at hname
      have hall : ∀ d ∈ cs.takeWhile isWord, isWord d = true :=
        List.all_eq_true.mp List.all_takeWhile
      rw [hname.1] at hall
      exact List.forall_mem_cons.mpr ⟨.inl hc, fun d hd => .inr (hall d hd)⟩
    · cases hname

theorem IsName.oneLine {name : String} (h : IsName name) : OneLine name :=
  fun hmem => absurd (h.start_or_word _ hmem) (by decide)

theorem Scan.Digits.newline_notMem {digits : List Char} (h : Digits digits) : '\n' ∉ digits :=
  fun hmem => absurd (h.2 _ hmem) (by decide)

/-- Quotes do not break a line, and nothing between them is changed. -/
theorem oneLine_quoted (text : String) :
    OneLine (String.ofList (quoted text.toList)) ↔ OneLine text := by
  have hdelimiter : '\n' ≠ delimiter text.toList := by
    unfold delimiter
    split <;> decide
  rw [oneLine_ofList, quoted, List.mem_append, List.mem_cons, List.mem_singleton]
  simp only [hdelimiter, false_or, or_false]
  rfl

/-- **A spelled token breaks its line only as a string literal that does.** -/
theorem Token.oneLine_spelling {t : Token} (h : t.Spellable) :
    OneLine t.spelling ↔ ∀ text, t = .string text → OneLine text := by
  cases t with
  | string text =>
    rw [spelling, oneLine_quoted]
    exact ⟨fun htext _ e => Token.string.inj e ▸ htext, fun hall => hall text rfl⟩
  | ident name => exact iff_of_true h.oneLine (fun _ e => by cases e)
  | int value => exact iff_of_true (oneLine_int value) (fun _ e => by cases e)
  | float value =>
    obtain ⟨before, behind, hbefore, hbehind, hliteral, _⟩ := Binary64.literal_reads h.1 h.2
    refine iff_of_true ?_ (fun _ e => by cases e)
    rw [spelling, oneLine_ofList, hliteral, List.mem_append, List.mem_cons]
    rintro (hmem | hmem | hmem)
    · exact hbefore.newline_notMem hmem
    · exact absurd hmem (by decide)
    · exact hbehind.newline_notMem hmem
  | keyword word => exact iff_of_true (by cases word <;> decide) (fun _ e => by cases e)
  | symbol sign => exact iff_of_true (by cases sign <;> decide) (fun _ e => by cases e)
  | eof => exact h.elim

end CMinus
