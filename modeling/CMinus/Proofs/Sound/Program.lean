import CMinus.Proofs.Sound.Statement

/-!
# Sound.Program: a program that is read is derived

Declarations need no levels. A program is read to the end: as long as tokens are left, one more
procedure is asked for, and every procedure takes some.
-/

namespace CMinus.Parse

open Grammar

/-! ## 1. Declarations -/

theorem valueType_sound {ts rest : List Lexeme} {type : ValueType} {line : Nat}
    (h : valueType ts = .ok ((type, line), rest)) :
    tokensOf ts = .keyword type.keyword :: tokensOf rest := by
  rcases ts with _ | ⟨⟨t, line'⟩, ts⟩
  · cases h
  · cases t with
    | keyword word =>
      cases word <;> cases h
      all_goals rfl
    | _ => cases h

theorem arraySize_sound {ts rest : List Lexeme} {size : Nat}
    (h : arraySize ts = .ok (size, rest)) : tokensOf ts = .int size :: tokensOf rest := by
  rcases ts with _ | ⟨⟨t, line⟩, ts⟩
  · cases h
  · cases t with
    | int value =>
      rw [arraySize] at h
      split at h
      · rename_i hpos
        cases h
        rw [tokensOf_cons, Int.toNat_of_nonneg hpos]
      · cases h
    | _ => cases h

theorem dimension_sound {ts rest : List Lexeme} {size : Option Nat} (name : String)
    (h : dimension ts = .ok (size, rest)) :
    .ident name :: tokensOf ts = (Declarator.mk name size).tokens ++ tokensOf rest := by
  rw [dimension.eq_def] at h
  split at h
  · obtain ⟨n, mid, hn, h⟩ := bind_eq_ok.mp h
    obtain ⟨_, mid', hc, h⟩ := bind_eq_ok.mp h
    cases h
    rw [tokensOf_cons, arraySize_sound hn, sign_sound hc]
    rfl
  · cases h
    rfl

theorem nextDeclaration_sound {type : ValueType} {ts rest : List Lexeme} {d : Declaration}
    (h : nextDeclaration type ts = .ok (d, rest)) :
    ∃ x : Declarator, x.tree type = d.bare ∧
      tokensOf ts = .symbol .comma :: x.tokens ++ tokensOf rest := by
  obtain ⟨_, mid, hc, h⟩ := bind_eq_ok.mp h
  obtain ⟨⟨name, line⟩, mid', hn, h⟩ := bind_eq_ok.mp h
  obtain ⟨size, mid'', hs, h⟩ := bind_eq_ok.mp h
  cases h
  refine ⟨⟨name, size⟩, rfl, ?_⟩
  rw [sign_sound hc, identifier_sound hn, dimension_sound name hs]
  rfl

theorem group_sound {ts rest : List Lexeme} {ds : List Declaration}
    (h : group ts = .ok (ds, rest)) :
    ∃ g : Group, g.trees = ds.map Declaration.bare ∧ tokensOf ts = g.tokens ++ tokensOf rest := by
  obtain ⟨⟨type, line⟩, mid, ht, h⟩ := bind_eq_ok.mp h
  obtain ⟨⟨name, line'⟩, mid', hn, h⟩ := bind_eq_ok.mp h
  obtain ⟨size, mid'', hs, h⟩ := bind_eq_ok.mp h
  obtain ⟨others, mid''', ho, h⟩ := bind_eq_ok.mp h
  obtain ⟨_, mid'''', hc, h⟩ := bind_eq_ok.mp h
  cases h
  have hnext : ∀ ts d rest, nextDeclaration type ts = .ok (d, rest) →
      ∃ x : Declarator, True ∧ x.tree type = d.bare ∧
        tokensOf ts = .symbol .comma :: x.tokens ++ tokensOf rest := by
    intro ts d rest hd
    obtain ⟨x, hx, hxtokens⟩ := nextDeclaration_sound hd
    exact ⟨x, trivial, hx, hxtokens⟩
  obtain ⟨xs, _, htrees, htokens⟩ := repeatWhile_sound hnext ho
  refine ⟨⟨type, ⟨name, size⟩, xs⟩, ?_, ?_⟩
  · rw [Group.trees, List.map_cons, List.map_cons, ← htrees]
    rfl
  · rw [valueType_sound ht, identifier_sound hn, dimension_sound name hs, htokens, sign_sound hc,
      Group.tokens]
    simp only [List.cons_append, List.append_assoc, List.nil_append]

/-- Groups that are read one behind the other. -/
theorem groups_sound {more : List Lexeme → Bool} {ts rest : List Lexeme}
    {groups : List (List Declaration)} (h : repeatWhile more group ts = .ok (groups, rest)) :
    ∃ gs : List Group, gs.flatMap Group.trees = groups.flatten.map Declaration.bare ∧
      (gs = [] ↔ groups.flatten = []) ∧
      tokensOf ts = gs.flatMap Group.tokens ++ tokensOf rest := by
  have hgroup : ∀ ts ds rest, group ts = .ok (ds, rest) →
      ∃ g : Group, True ∧ g.trees = ds.map Declaration.bare ∧
        tokensOf ts = g.tokens ++ tokensOf rest := by
    intro ts ds rest hds
    obtain ⟨g, hg, hgtokens⟩ := group_sound hds
    exact ⟨g, trivial, hg, hgtokens⟩
  obtain ⟨gs, _, htrees, htokens⟩ := repeatWhile_sound hgroup h
  have hflat : gs.flatMap Group.trees = groups.flatten.map Declaration.bare := by
    rw [List.map_flatten, ← htrees, List.flatMap_def]
  refine ⟨gs, hflat, ?_, htokens⟩
  -- A group has a first declaration, so no group vanishes among the declarations.
  rw [← List.map_eq_nil_iff (f := Declaration.bare), ← hflat]
  cases gs with
  | nil => exact iff_of_true rfl rfl
  | cons g gs => exact iff_of_false (List.cons_ne_nil _ _) (List.cons_ne_nil _ _)

theorem declarations_sound {ts rest : List Lexeme} {ds : List Declaration}
    (h : declarations ts = .ok (ds, rest)) :
    ∃ gs : List Group, gs.flatMap Group.trees = ds.map Declaration.bare ∧
      tokensOf ts = gs.flatMap Group.tokens ++ tokensOf rest := by
  obtain ⟨groups, mid, hg, h⟩ := bind_eq_ok.mp h
  cases h
  obtain ⟨gs, htrees, _, htokens⟩ := groups_sound hg
  exact ⟨gs, htrees, htokens⟩

/-! ## 2. Procedures and programs -/

theorem bare_blockOf (line : Nat) (ds : List Declaration) :
    (blockOf line ds).bareDeclarations = ⟨ds.map Declaration.bare, 0⟩ := by
  cases ds <;> rfl

theorem procedure_sound {budget : Nat} {ts rest : List Lexeme} {p : Procedure}
    (h : procedure budget ts = .ok (p, rest)) :
    ∃ d : Definition, d.body.levels ≤ budget ∧ d.tree = p.bare ∧
      tokensOf ts = d.tokens ++ tokensOf rest := by
  obtain ⟨⟨type, line⟩, ts₁, ht, h⟩ := bind_eq_ok.mp h
  obtain ⟨⟨name, line'⟩, ts₂, hn, h⟩ := bind_eq_ok.mp h
  obtain ⟨_, ts₃, hl, h⟩ := bind_eq_ok.mp h
  obtain ⟨_, ts₄, hr, h⟩ := bind_eq_ok.mp h
  obtain ⟨before, ts₅, hbefore, h⟩ := bind_eq_ok.mp h
  obtain ⟨openLine, ts₆, hopen, h⟩ := bind_eq_ok.mp h
  obtain ⟨behind, ts₇, hbehind, h⟩ := bind_eq_ok.mp h
  obtain ⟨⟨first, others⟩, ts₈, hs, h⟩ := bind_eq_ok.mp h
  obtain ⟨_, ts₉, hclose, h⟩ := bind_eq_ok.mp h
  cases h
  obtain ⟨gs, hgs, hgtokens⟩ := declarations_sound hbefore
  obtain ⟨gs', hgs', hgtokens'⟩ := declarations_sound hbehind
  obtain ⟨cs, hlevels, htrees, hctokens⟩ := statements_sound (statement_sound budget) hs
  refine ⟨⟨type, name, gs, gs', cs⟩, hlevels, ?_, ?_⟩
  · rw [Definition.tree, Procedure.bare, bare_blockOf, List.flatMap_append, hgs, hgs',
      ← List.map_append, htrees, Statement.bareBlock]
  · rw [valueType_sound ht, identifier_sound hn, sign_sound hl, sign_sound hr, hgtokens,
      sign_sound hopen, hgtokens', hctokens, sign_sound hclose, Definition.tokens, inBraces]
    simp only [List.cons_append, List.append_assoc, List.nil_append]

theorem procedure_length_lt {budget : Nat} {ts rest : List Lexeme} {p : Procedure}
    (h : procedure budget ts = .ok (p, rest)) : rest.length < ts.length := by
  obtain ⟨d, _, _, htokens⟩ := procedure_sound h
  have hlength := congrArg List.length htokens
  rw [List.length_append, length_tokensOf, length_tokensOf, Definition.tokens,
    List.length_cons] at hlength
  omega

theorem bare_globalsOf (ds : List Declaration) :
    (globalsOf ds).map Block.bareDeclarations
      = if ds = [] then none else some ⟨ds.map Declaration.bare, 0⟩ := by
  cases ds <;> rfl

/-- **Every program that is read is derived**, from all its tokens, and within the budget. -/
theorem program_sound {budget : Nat} {ts rest : List Lexeme} {p : Program}
    (h : program budget ts = .ok (p, rest)) :
    rest = [] ∧ ∃ d : Document, d.levels ≤ budget ∧ d.tree = p.bare ∧ tokensOf ts = d.tokens := by
  obtain ⟨groups, ts₁, hg, h⟩ := bind_eq_ok.mp h
  obtain ⟨first, ts₂, hf, h⟩ := bind_eq_ok.mp h
  obtain ⟨others, ts₃, ho, h⟩ := bind_eq_ok.mp h
  cases h
  have hrest : rest = [] := by
    have hend := repeatWhile_end (fun _ _ _ hp => procedure_length_lt hp) ho
    rwa [Bool.not_eq_false', List.isEmpty_iff] at hend
  obtain ⟨gs, hgtrees, hempty, hgtokens⟩ := groups_sound hg
  obtain ⟨d, hd, hdtree, hdtokens⟩ := procedure_sound hf
  obtain ⟨ds, hds, hdtrees, hdstokens⟩ :=
    repeatWhile_sound (fun _ _ _ hp => procedure_sound hp) ho
  refine ⟨hrest, ⟨gs, d, ds⟩, ?_, ?_, ?_⟩
  · rw [Document.levels_le_iff]
    exact List.forall_mem_cons.mpr ⟨hd, hds⟩
  · simp only [Document.tree, Program.bare, bare_globalsOf, hempty, hgtrees, hdtree,
      hdtrees, List.map_cons]
  · rw [hgtokens, hdtokens, hdstokens, hrest, tokensOf_nil, List.append_nil, Document.tokens,
      List.flatMap_cons]

end CMinus.Parse
