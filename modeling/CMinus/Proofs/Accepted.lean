import CMinus.Proofs.Acceptance
import CMinus.Proofs.Legible

/-!
# Accepted: accepted programs are well-formed

Scanning gives spellable tokens only, and a derivation from spellable tokens means a well-formed
tree. So everything the parser accepts is well-formed.
-/

namespace CMinus

/-! ## 1. Scanned tokens -/

/-- A ratio is read as a number with a clear sign bit. -/
theorem Binary64.isNegative_ofRatio (n d : Nat) : (ofRatio n d).isNegative = false := by
  have hle : nearestMagnitude (n * unitsPerOne) d ≤ infinityMagnitude := Nat.min_le_right _ _
  have hlt : nearestMagnitude (n * unitsPerOne) d < 2 ^ 63 :=
    Nat.lt_of_le_of_lt hle (by decide)
  refine decide_eq_false ?_
  rw [ofRatio, ofMagnitude, Nat.toUInt64, UInt64.toNat_ofNat_of_lt' (Nat.lt_trans hlt (by decide))]
  exact Nat.not_le_of_lt hlt

namespace Scan

theorem name?_full {cs text rest : List Char} (h : name? cs = some (text, rest)) :
    name? text = some (text, []) := by
  cases cs with
  | nil => cases h
  | cons c cs =>
    rw [name?] at h
    split at h
    · rename_i hc
      cases h
      have hall : ∀ d ∈ cs.takeWhile isWord, isWord d = true :=
        List.all_eq_true.mp List.all_takeWhile
      obtain ⟨ht, hd⟩ := takeWhile_append_stop hall (stopsAt_nil isWord)
      rw [List.append_nil] at ht hd
      rw [name?, if_pos hc, ht, hd]
    · cases h

theorem notMem_of_until? {q : Char} : ∀ {cs body rest : List Char},
    until? q cs = some (body, rest) → q ∉ body
  | [], _, _, h => by cases h
  | c :: cs, body, rest, h => by
    rw [until?] at h
    split at h
    · cases h
      exact List.not_mem_nil
    · rename_i hne
      obtain ⟨⟨b, r⟩, hb, e⟩ := Option.map_eq_some_iff.mp h
      cases e
      exact List.not_mem_cons_of_ne_of_not_mem (Ne.symm hne) (notMem_of_until? hb)

theorem spellable_ofName {cs text rest : List Char} (h : name? cs = some (text, rest)) :
    (Token.ofName (String.ofList text)).Spellable := by
  unfold Token.ofName
  split
  · trivial
  · rename_i hkeyword
    refine ⟨?_, hkeyword⟩
    rw [String.toList_ofList]
    exact name?_full h

theorem spellable_fraction {text : List Char} {t : Token}
    (h : (fractionSegment text).token? = some t) : t.Spellable := by
  rw [fractionSegment] at h
  split at h
  · rename_i hfinite
    cases h
    exact ⟨hfinite, Binary64.isNegative_ofRatio _ _⟩
  · cases h

theorem spellable_whole {text : List Char} {t : Token}
    (h : (wholeSegment text).token? = some t) : t.Spellable := by
  rw [wholeSegment] at h
  split at h
  · rename_i hlt
    cases h
    exact ⟨Int.natCast_nonneg _, by omega⟩
  · cases h

theorem spellable_string {cs text rest : List Char} (h : string? cs = some (text, rest)) :
    (Token.string (unquoted text)).Spellable := by
  cases cs with
  | nil => cases h
  | cons q cs =>
    rw [string?] at h
    split at h
    · rename_i hq
      obtain ⟨⟨body, r⟩, hbody, e⟩ := Option.map_eq_some_iff.mp h
      cases e
      have hfree := notMem_of_until? hbody
      rw [isQuote, Bool.or_eq_true, beq_iff_eq, beq_iff_eq] at hq
      rw [unquoted, List.cons_append, List.drop_succ_cons, List.drop_zero, List.dropLast_concat]
      rw [Token.Spellable, String.toList_ofList]
      rintro ⟨hsingle, hdouble⟩
      rcases hq with rfl | rfl
      · exact hfree hsingle
      · exact hfree hdouble
    · cases h

theorem spellable_of_cut {c : Char} {cs : List Char} {t : Token}
    (h : (cut c cs).1.token? = some t) : t.Spellable := by
  unfold cut at h
  split at h
  · cases h
  split at h
  · split at h <;> cases h
  · unfold cutWord at h
    split at h
    · rename_i hname
      cases h
      exact spellable_ofName hname
    split at h
    · exact spellable_fraction h
    split at h
    · exact spellable_whole h
    split at h
    · rename_i hstring
      cases h
      exact spellable_string hstring
    split at h
    · cases h
      trivial
    · cases h

theorem spellable_of_mem_segments {cs : List Char} {s : Segment} {t : Token}
    (hs : s ∈ segments cs) (h : s.token? = some t) : t.Spellable := by
  fun_induction segments cs with
  | case1 => cases hs
  | case2 c cs ih =>
    rcases List.mem_cons.mp hs with rfl | hs
    · exact spellable_of_cut h
    · exact ih hs

end Scan

/-- Every scanned token is spellable. -/
theorem scan_spellable (source : String) (o : Options) :
    ∀ t ∈ Parse.tokensOf (scan source o).1, t.Spellable := by
  intro t ht
  rw [show Parse.tokensOf (scan source o).1
    = (Scan.segments source.toList).filterMap Scan.Segment.token? from
      Scan.tokensOf_place 1 (Scan.segments source.toList)] at ht
  obtain ⟨s, hs, hst⟩ := List.mem_filterMap.mp ht
  exact Scan.spellable_of_mem_segments hs hst

/-! ## 2. What spellable tokens mean -/

namespace Grammar

/-- Every token of the row can be spelled. -/
def AllSpellable (ts : List Token) : Prop :=
  ∀ t ∈ ts, t.Spellable

@[simp] theorem allSpellable_nil : AllSpellable [] := List.forall_mem_nil _

@[simp] theorem allSpellable_cons {t : Token} {ts : List Token} :
    AllSpellable (t :: ts) ↔ t.Spellable ∧ AllSpellable ts :=
  List.forall_mem_cons

@[simp] theorem allSpellable_append {ts us : List Token} :
    AllSpellable (ts ++ us) ↔ AllSpellable ts ∧ AllSpellable us :=
  List.forall_mem_append

@[simp] theorem allSpellable_inParens {ts : List Token} :
    AllSpellable (inParens ts) ↔ AllSpellable ts := by
  simp [inParens]

@[simp] theorem allSpellable_inBraces {ts : List Token} :
    AllSpellable (inBraces ts) ↔ AllSpellable ts := by
  simp [inBraces]

theorem Phrase.wellFormed {l : Level} {p : Phrase l} (h : AllSpellable p.tokens) :
    p.tree.WellFormed := by
  induction p with
  | join op fits left right ihl ihr =>
    obtain ⟨hleft, hright⟩ : AllSpellable left.tokens ∧ AllSpellable right.tokens := by
      simpa [tokens] using h
    exact ⟨ihl hleft, ihr hright⟩
  | operand inner ih | place inner ih => exact ih h
  | negation inner ih | parens inner ih =>
    have hinner : AllSpellable inner.tokens := by simpa [tokens] using h
    exact ih hinner
  | element name index ih =>
    obtain ⟨hname, hindex⟩ : (Token.ident name).Spellable ∧ AllSpellable index.tokens := by
      simpa [tokens] using h
    exact ⟨hname, ih hindex⟩
  | int | float | call | scalar => exact h _ List.mem_cons_self

theorem Phrase.wellFormed_target {p : Phrase .variable} (h : AllSpellable p.tokens) :
    p.target.WellFormed := by
  rw [Variable.WellFormed, toExpression_target]
  exact wellFormed h

theorem Phrase.writable {l : Level} {p : Phrase l} (h : AllSpellable p.tokens) :
    p.tree.Writable := by
  have hwell := wellFormed h
  generalize p.tree = e at hwell
  cases e with
  | string text line => exact hwell.elim
  | _ => exact hwell

theorem Clauses.trees_ne_nil (cs : Clauses) : cs.trees ≠ [] := by
  cases cs <;> exact List.cons_ne_nil _ _

mutual

theorem Clause.wellFormed : (c : Clause) → AllSpellable c.tokens → c.tree.WellFormed
  | .assign target value, h => by
    obtain ⟨htarget, hvalue⟩ : AllSpellable target.tokens ∧ AllSpellable value.tokens := by
      simpa [Clause.tokens] using h
    exact ⟨target.wellFormed_target htarget, value.wellFormed hvalue⟩
  | .ifThen test body, h => by
    obtain ⟨htest, hbody⟩ : AllSpellable test.tokens ∧ AllSpellable body.tokens := by
      simpa [Clause.tokens] using h
    exact ⟨test.wellFormed htest, body.trees_ne_nil, body.wellFormed hbody⟩
  | .ifElse test body other, h => by
    obtain ⟨htest, hbody, hother⟩ :
        AllSpellable test.tokens ∧ AllSpellable body.tokens ∧ AllSpellable other.tokens := by
      simpa [Clause.tokens] using h
    exact ⟨test.wellFormed htest, ⟨body.trees_ne_nil, body.wellFormed hbody⟩,
      other.trees_ne_nil, other.wellFormed hother⟩
  | .whileDo test body, h => by
    obtain ⟨htest, hbody⟩ : AllSpellable test.tokens ∧ AllSpellable body.tokens := by
      simpa [Clause.tokens] using h
    exact ⟨test.wellFormed htest, body.wellFormed hbody⟩
  | .read target, h => by
    have htarget : AllSpellable target.tokens := by simpa [Clause.tokens] using h
    exact target.wellFormed_target htarget
  | .write value, h => by
    have hvalue : AllSpellable value.tokens := by simpa [Clause.tokens] using h
    exact value.writable hvalue
  | .writeText text, h => by
    have htext : (Token.string text).Spellable := by simpa [Clause.tokens] using h
    exact htext
  | .returns value, h => by
    have hvalue : AllSpellable value.tokens := by simpa [Clause.tokens] using h
    exact value.wellFormed hvalue
  | .exit, _ => trivial
  | .compound body, h => by
    have hbody : AllSpellable body.tokens := by simpa [Clause.tokens] using h
    exact ⟨body.trees_ne_nil, body.wellFormed hbody⟩

theorem Clauses.wellFormed : (cs : Clauses) → AllSpellable cs.tokens →
    Statement.WellFormedList cs.trees
  | .one clause, h => ⟨clause.wellFormed h, trivial⟩
  | .more first rest, h => by
    obtain ⟨hfirst, hrest⟩ : AllSpellable first.tokens ∧ AllSpellable rest.tokens := by
      simpa [Clauses.tokens] using h
    exact ⟨first.wellFormed hfirst, rest.wellFormed hrest⟩

end

theorem Declarator.wellFormed (type : ValueType) {d : Declarator} (h : AllSpellable d.tokens) :
    (d.tree type).WellFormed := by
  rcases d with ⟨name, _ | size⟩
  · have hname : (Token.ident name).Spellable := h _ List.mem_cons_self
    exact ⟨hname, fun _ hsize => by cases hsize⟩
  · obtain ⟨hname, hrange⟩ : (Token.ident name).Spellable ∧ (Token.int size).Spellable := by
      simpa [tokens] using h
    refine ⟨hname, fun _ hsize => ?_⟩
    cases hsize
    exact hrange

theorem Group.wellFormed {g : Group} (h : AllSpellable g.tokens) :
    ∀ d ∈ g.trees, d.WellFormed := by
  rcases g with ⟨type, first, others⟩
  obtain ⟨hfirst, hothers⟩ : AllSpellable first.tokens ∧
      AllSpellable (others.flatMap fun d => .symbol .comma :: d.tokens) := by
    simpa [tokens] using h
  rw [trees, List.forall_mem_map]
  refine List.forall_mem_cons.mpr ⟨first.wellFormed type hfirst, fun d hd => d.wellFormed type ?_⟩
  intro t ht
  exact hothers t (List.mem_flatMap.mpr ⟨d, hd, List.mem_cons_of_mem _ ht⟩)

theorem Group.wellFormed_flatMap {gs : List Group} (h : AllSpellable (gs.flatMap tokens)) :
    ∀ d ∈ gs.flatMap trees, d.WellFormed := by
  intro d hd
  obtain ⟨g, hg, hd⟩ := List.mem_flatMap.mp hd
  exact g.wellFormed (fun t ht => h t (List.mem_flatMap.mpr ⟨g, hg, ht⟩)) d hd

theorem Group.flatMap_trees_ne_nil {gs : List Group} (h : gs ≠ []) : gs.flatMap trees ≠ [] := by
  cases gs with
  | nil => exact absurd rfl h
  | cons g gs => exact List.cons_ne_nil _ _

theorem Definition.wellFormed {d : Definition} (h : AllSpellable d.tokens) :
    d.tree.WellFormed := by
  rcases d with ⟨type, name, before, behind, body⟩
  obtain ⟨hname, hbefore, hbehind, hbody⟩ : (Token.ident name).Spellable ∧
      AllSpellable (before.flatMap Group.tokens) ∧ AllSpellable (behind.flatMap Group.tokens) ∧
      AllSpellable body.tokens := by
    simpa [tokens] using h
  refine ⟨hname, ?_, body.trees_ne_nil, body.wellFormed hbody⟩
  refine Group.wellFormed_flatMap ?_
  rw [List.flatMap_append, allSpellable_append]
  exact ⟨hbefore, hbehind⟩

theorem Document.wellFormed {d : Document} (h : AllSpellable d.tokens) : d.tree.WellFormed := by
  rw [tokens, allSpellable_append] at h
  obtain ⟨hglobals, hdefinitions⟩ := h
  refine ⟨?_, List.cons_ne_nil _ _, ?_⟩
  · intro ds hds
    rw [tree] at hds
    split at hds
    · cases hds
    · rename_i hne
      cases hds
      exact ⟨Group.flatMap_trees_ne_nil hne, Group.wellFormed_flatMap hglobals⟩
  · rw [tree, List.forall_mem_map]
    intro q hq
    exact q.wellFormed fun t ht => hdefinitions t (List.mem_flatMap.mpr ⟨q, hq, ht⟩)

end Grammar

/-- **Every accepted program is well-formed.** -/
theorem wellFormed_of_parse {source : String} {o : Options} {p : Program}
    (h : parse source o = .ok p) : p.WellFormed := by
  obtain ⟨d, _, htree, htokens⟩ := exists_document_of_parse h
  rw [← p.wellFormed_bare, ← htree]
  refine d.wellFormed ?_
  rw [htokens]
  exact scan_spellable source o

end CMinus
