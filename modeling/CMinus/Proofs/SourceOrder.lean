import CMinus.Proofs.Diagnostics
import CMinus.Proofs.Lookahead
import CMinus.Proofs.Preorder

/-!
# SourceOrder: the lines of the nodes follow the source

A node has the line of one of the tokens it was read from: a type, a name, a brace, the mark of a
negation, or the first token of what is leftmost in it. In the order in which a visitor meets the
nodes these tokens never go back. So the lines of what a production reads are drawn from the tokens
it takes, in their order (`Drawn`); and one production behind the other draws behind it (`Draws`).
-/

namespace CMinus

/-! ## 1. Lines drawn from tokens -/

/-- The lines of some nodes, in their order. -/
def nodeLines (nodes : List Node) : List Nat :=
  nodes.map Node.line

@[simp] theorem nodeLines_nil : nodeLines [] = [] := rfl

@[simp] theorem nodeLines_cons (node : Node) (nodes : List Node) :
    nodeLines (node :: nodes) = node.line :: nodeLines nodes := rfl

@[simp] theorem nodeLines_append (nodes nodes' : List Node) :
    nodeLines (nodes ++ nodes') = nodeLines nodes ++ nodeLines nodes' :=
  List.map_append

/-- The lines are those of some of the tokens, in the order of the tokens; one may be taken more
    than once. -/
structure Drawn (lines : List Nat) (tokens : List Lexeme) : Prop where
  mem : ∀ n ∈ lines, ∃ l ∈ tokens, l.line = n
  ordered : tokens.Pairwise (fun a b => a.line ≤ b.line) → lines.Pairwise (· ≤ ·)

namespace Drawn

variable {ms ns : List Nat} {front more : List Lexeme} {n : Nat}

theorem nil (front : List Lexeme) : Drawn [] front where
  mem := List.forall_mem_nil _
  ordered _ := List.Pairwise.nil

theorem single (l : Lexeme) : Drawn [l.line] [l] where
  mem := List.forall_mem_singleton.mpr ⟨l, List.mem_singleton_self l, rfl⟩
  ordered _ := List.pairwise_singleton _ _

theorem append (h : Drawn ns front) (h' : Drawn ms more) : Drawn (ns ++ ms) (front ++ more) where
  mem := by
    intro n hn
    rcases List.mem_append.mp hn with hn | hn
    · obtain ⟨l, hl, hline⟩ := h.mem n hn
      exact ⟨l, List.mem_append_left _ hl, hline⟩
    · obtain ⟨l, hl, hline⟩ := h'.mem n hn
      exact ⟨l, List.mem_append_right _ hl, hline⟩
  ordered := by
    intro htokens
    obtain ⟨hfront, hmore, hcross⟩ := List.pairwise_append.mp htokens
    refine List.pairwise_append.mpr ⟨h.ordered hfront, h'.ordered hmore, fun n hn m hm => ?_⟩
    obtain ⟨l, hl, hline⟩ := h.mem n hn
    obtain ⟨l', hl', hline'⟩ := h'.mem m hm
    rw [← hline, ← hline']
    exact hcross l hl l' hl'

/-- More tokens behind. -/
theorem longer (h : Drawn ns front) (more : List Lexeme) : Drawn ns (front ++ more) := by
  have happend := h.append (nil more)
  rwa [List.append_nil] at happend

theorem sublist (h : Drawn ns front) (hs : ms.Sublist ns) : Drawn ms front where
  mem n hn := h.mem n (hs.subset hn)
  ordered htokens := (h.ordered htokens).sublist hs

/-- A line is taken once more. -/
theorem twice (h : Drawn (ms ++ n :: ns) front) : Drawn (ms ++ n :: n :: ns) front where
  mem m hm := h.mem m (by simpa using hm)
  ordered htokens := by
    have hordered := h.ordered htokens
    simp only [List.pairwise_append, List.pairwise_cons, List.mem_cons] at hordered ⊢
    grind

theorem twice_head (h : Drawn (n :: ns) front) : Drawn (n :: n :: ns) front := by
  rw [← List.nil_append (n :: ns)] at h
  exact h.twice

end Drawn

/-! ## 2. Lines drawn by productions -/

namespace Parse

variable {α β : Type}

/-- What is read of the tokens `ts`, behind those in front of them: its lines are drawn from all
    tokens that have been taken. -/
def Draws (front : List Lexeme) (lines : α → List Nat) (ts : List Lexeme)
    (r : Except Failure (Read α)) : Prop :=
  ∀ a rest, r = .ok (a, rest) → ∃ more, ts = more ++ rest ∧ Drawn (lines a) (front ++ more)

namespace Draws

variable {front ts : List Lexeme} {f : α → List Nat} {g : β → List Nat} {ns : List Nat}

theorem ok {a : α} (h : Drawn (f a) front) : Draws front f ts (.ok (a, ts)) := by
  intro _ _ hok
  cases hok
  exact ⟨[], rfl, by rwa [List.append_nil]⟩

theorem error (failure : Failure) : Draws front f ts (.error failure) :=
  fun _ _ => nofun

/-- One token is taken first. -/
theorem cons {l : Lexeme} {r : Except Failure (Read α)} (h : Draws (front ++ [l]) f ts r) :
    Draws front f (l :: ts) r := by
  intro a rest hr
  obtain ⟨more, hts, hdrawn⟩ := h a rest hr
  refine ⟨l :: more, by rw [hts, List.cons_append], ?_⟩
  rwa [List.append_assoc, List.singleton_append] at hdrawn

/-- One production after the other. -/
theorem bind {x : Except Failure (Read α)} {k : Read α → Except Failure (Read β)}
    (hx : Draws front f ts x)
    (hk : ∀ a front rest, Drawn (f a) front → Draws front g rest (k (a, rest))) :
    Draws front g ts (x >>= k) := by
  intro b rest h
  obtain ⟨a, mid, ha, h⟩ := bind_eq_ok.mp h
  obtain ⟨more, hts, hdrawn⟩ := hx a mid ha
  obtain ⟨more', hmid, hdrawn'⟩ := hk a _ mid hdrawn b rest h
  exact ⟨more ++ more', by rw [hts, hmid, List.append_assoc],
    by rwa [List.append_assoc] at hdrawn'⟩

theorem mono {h : α → List Nat} {r : Except Failure (Read α)} (hr : Draws front f ts r)
    (hf : ∀ a front, Drawn (f a) front → Drawn (h a) front) : Draws front h ts r := by
  intro a rest hok
  obtain ⟨more, hts, hdrawn⟩ := hr a rest hok
  exact ⟨more, hts, hf a _ hdrawn⟩

/-- What is read behind other tokens draws its lines behind those drawn from them. -/
theorem behind {r : Except Failure (Read α)} (hr : Draws [] f ts r) (h : Drawn ns front) :
    Draws front (fun a => ns ++ f a) ts r := by
  intro a rest hok
  obtain ⟨more, hts, hdrawn⟩ := hr a rest hok
  exact ⟨more, hts, h.append hdrawn⟩

/-- What is read gives no line. -/
theorem skip {p : Production α} (hp : Local p) (h : Drawn ns front) (ts : List Lexeme) :
    Draws front (fun _ => ns) ts (p ts) := by
  intro a rest hok
  have hsuffix := (hp 0 [] ts).1
  rw [hok] at hsuffix
  obtain ⟨more, hmore⟩ := hsuffix
  exact ⟨more, hmore.symm, h.longer more⟩

/-- A production that takes one token in front of what it leaves, and gives its line. -/
theorem of_first {r : Except Failure (Read α)}
    (h : ∀ a rest, r = .ok (a, rest) → ∃ l : Lexeme, ts = l :: rest ∧ f a = [l.line]) :
    Draws [] f ts r := by
  intro a rest hok
  obtain ⟨l, hts, hline⟩ := h a rest hok
  refine ⟨[l], hts, ?_⟩
  rw [hline]
  exact Drawn.single l

end Draws

/-- The lines of items in a row. -/
theorem repeatWhile_draws {f : α → List Nat} {more : List Lexeme → Bool} {item : Production α}
    (hi : ∀ ts, Draws [] f ts (item ts)) (ts : List Lexeme) :
    Draws [] (fun as => as.flatMap f) ts (repeatWhile more item ts) := by
  induction ts using repeatWhile.induct more with
  | case1 ts hm ih =>
    rw [repeatWhile, if_pos hm]
    refine (hi ts).bind fun first front rest hfirst => ?_
    simp only []
    split
    · rename_i hlt
      refine ((ih rest hlt).behind hfirst).bind fun others front rest hothers => ?_
      exact .ok hothers
    · refine .ok ?_
      rwa [List.flatMap_singleton]
  | case2 ts hm =>
    rw [repeatWhile, if_neg hm]
    exact .ok (Drawn.nil _)

/-! ## 3. Single tokens -/

theorem sign_draws (s : Symbol) (ts : List Lexeme) :
    Draws [] (fun line => [line]) ts (sign s ts) := by
  refine .of_first fun line rest hok => ?_
  unfold sign at hok
  split at hok
  · split at hok
    · cases hok
      exact ⟨_, rfl, rfl⟩
    · cases hok
  · cases hok

theorem identifier_draws (ts : List Lexeme) :
    Draws [] (fun named => [named.2]) ts (identifier ts) := by
  refine .of_first fun named rest hok => ?_
  unfold identifier at hok
  split at hok
  · cases hok
    exact ⟨_, rfl, rfl⟩
  · cases hok

theorem valueType_draws (ts : List Lexeme) :
    Draws [] (fun typed => [typed.2]) ts (valueType ts) := by
  refine .of_first fun typed rest hok => ?_
  unfold valueType at hok
  split at hok
  · cases hok
    exact ⟨_, rfl, rfl⟩
  · cases hok
    exact ⟨_, rfl, rfl⟩
  · cases hok

/-! ## 4. Expressions -/

/-- The first node below which an expression stands is the expression itself. -/
theorem nodeLines_expression (e : Expression) :
    ∃ ns, nodeLines e.nodes = e.line :: ns := by
  cases e <;> exact ⟨_, rfl⟩

theorem nodeLines_toExpression (v : Variable) :
    nodeLines v.toExpression.nodes = v.line :: nodeLines v.nodes := by
  obtain ⟨name, index, line⟩ := v
  cases index <;> rfl

/-- Two operands of an operator. -/
theorem drawn_combine {left right : Expression} {front : List Lexeme} (op : BinaryOp)
    (h : Drawn (nodeLines left.nodes ++ nodeLines right.nodes) front) :
    Drawn (nodeLines (Expression.combine op left right).nodes) front := by
  obtain ⟨ns, hleft⟩ := nodeLines_expression left
  have hlines : nodeLines (Expression.combine op left right).nodes =
      left.line :: (nodeLines left.nodes ++ nodeLines right.nodes) := by
    rw [← nodeLines_append]
    rfl
  rw [hlines, hleft]
  rw [hleft] at h
  exact h.twice_head

/-- A place as an expression. -/
theorem drawn_toExpression {v : Variable} {front : List Lexeme}
    (h : Drawn (nodeLines v.nodes) front) : Drawn (nodeLines v.toExpression.nodes) front := by
  rw [nodeLines_toExpression]
  exact h.twice_head

/-- All six productions at once, along the calls they make: a chain draws its lines behind those
    of the operands it starts from, an index behind that of the name in front of it. -/
theorem expression_family_draws :
    (∀ budget ts, Draws [] (nodeLines ·.nodes) ts (expression budget ts)) ∧
    (∀ tier budget left ts, ∀ front, Drawn (nodeLines left.nodes) front →
      Draws front (nodeLines ·.nodes) ts (chainRest tier budget left ts)) ∧
    (∀ tier budget ts, Draws [] (nodeLines ·.nodes) ts (operand tier budget ts)) ∧
    (∀ budget ts, Draws [] (nodeLines ·.nodes) ts (factor budget ts)) ∧
    (∀ budget name line ts, ∀ front, Drawn [line] front →
      Draws front (line :: nodeLines ·.nodes) ts (subscript budget name line ts)) ∧
    (∀ tier budget ts, Draws [] (nodeLines ·.nodes) ts (chain tier budget ts)) := by
  apply expression.mutual_induct
    (fun budget ts => Draws [] (nodeLines ·.nodes) ts (expression budget ts))
    (fun tier budget left ts => ∀ front, Drawn (nodeLines left.nodes) front →
      Draws front (nodeLines ·.nodes) ts (chainRest tier budget left ts))
    (fun tier budget ts => Draws [] (nodeLines ·.nodes) ts (operand tier budget ts))
    (fun budget ts => Draws [] (nodeLines ·.nodes) ts (factor budget ts))
    (fun budget name line ts => ∀ front, Drawn [line] front →
      Draws front (line :: nodeLines ·.nodes) ts (subscript budget name line ts))
    (fun tier budget ts => Draws [] (nodeLines ·.nodes) ts (chain tier budget ts))
  case case1 => -- a negation without a level for it
    intro line rest
    simp only [expression]
    exact .error _
  case case2 => -- a negation
    intro line rest less ihOperand ihRest
    simp only [expression]
    have hmark := Drawn.single ⟨.symbol .not, line⟩
    refine ((ihOperand.behind hmark).bind fun operand front rest hoperand => ?_).cons
    exact ihRest operand rest front hoperand
  case case3 => -- no negation
    intro budget ts hts ih
    rw [expression_eq_chain (startsWith_eq_false hts)]
    exact ih
  case case4 => -- the end of the tokens behind a chain
    intro tier budget left front hleft
    simp only [chainRest]
    exact .ok hleft
  case case5 => -- no operator of the tier behind a chain
    intro tier budget left l rest hop front hleft
    simp only [chainRest, hop]
    exact .ok hleft
  case case6 => -- an operator without a level for it
    intro tier left l rest op hop front _
    simp only [chainRest, hop]
    exact .error _
  case case7 => -- an operator
    intro tier left l rest op hop less ihOperand ihRest front hleft
    simp only [chainRest, hop]
    refine ((ihOperand.behind (hleft.longer [l])).bind fun right front rest hright => ?_).cons
    exact ihRest right rest front (drawn_combine op hright)
  case case8 => -- an operand of a tier above the tightest one
    intro tier budget ts tighter ht ih
    rw [operand_tighter ht]
    exact ih
  case case9 => -- an operand of the tightest tier
    intro tier budget ts ht ih
    rw [operand_factor ht]
    exact ih
  case case10 => -- a call
    intro budget name line line' rest
    simp only [factor]
    have hname := (Drawn.single ⟨.ident name, line⟩).longer [⟨.symbol .lparen, line'⟩]
    refine ((Draws.skip (sign_local .rparen) hname rest).bind fun _ front rest h => ?_).cons.cons
    exact .ok h
  case case11 => -- a variable
    intro budget name line rest hrest ih
    rw [factor_ident (startsWith_eq_false hrest)]
    have hname := Drawn.single ⟨.ident name, line⟩
    refine ((ih _ hname).bind fun place front rest hplace => ?_).cons
    exact .ok (drawn_toExpression (hplace.sublist (List.sublist_cons_self _ _)))
  case case12 => -- a whole number
    intro budget value line rest
    simp only [factor]
    refine .cons (.ok ?_)
    exact Drawn.single ⟨.int value, line⟩
  case case13 => -- a fraction
    intro budget value line rest
    simp only [factor]
    refine .cons (.ok ?_)
    exact Drawn.single ⟨.float value, line⟩
  case case14 => -- a parenthesis without a level for it
    intro line rest
    simp only [factor]
    exact .error _
  case case15 => -- an expression in parentheses
    intro line rest less ih
    simp only [factor]
    have hnone := Drawn.nil [⟨.symbol .lparen, line⟩]
    refine ((ih.behind hnone).bind fun inner front rest hinner => ?_).cons
    exact (Draws.skip (sign_local .rparen) hinner rest).bind fun _ front rest h => .ok h
  case case16 => -- no factor
    intro budget ts _ hIdent hInt hFloat hParen
    rw [factor_fail (startsFactor_eq_false hIdent hInt hFloat hParen)]
    exact .error _
  case case17 => -- a bracket without a level for it
    intro name line line' rest front _
    simp only [subscript]
    exact .error _
  case case18 => -- an index
    intro name line line' rest less ih front hname
    simp only [subscript]
    have hbracket := hname.twice_head.longer [⟨.symbol .lbracket, line'⟩]
    refine ((ih.behind hbracket).bind fun index front rest hindex => ?_).cons
    exact (Draws.skip (sign_local .rbracket) hindex rest).bind fun _ front rest h => .ok h
  case case19 => -- no index
    intro budget name line ts hts front hname
    rw [subscript_scalar (startsWith_eq_false hts)]
    exact .ok hname.twice_head
  case case20 => -- a chain
    intro tier budget ts ihOperand ihRest
    rw [chain]
    exact ihOperand.bind fun left front rest hleft => ihRest left rest front hleft

theorem expression_draws (budget : Nat) (ts : List Lexeme) :
    Draws [] (nodeLines ·.nodes) ts (expression budget ts) :=
  expression_family_draws.1 budget ts

theorem subscript_draws (budget : Nat) (name : String) {line : Nat} (ts : List Lexeme)
    {front : List Lexeme} (h : Drawn [line] front) :
    Draws front (line :: nodeLines ·.nodes) ts (subscript budget name line ts) :=
  expression_family_draws.2.2.2.2.1 budget name line ts front h

/-! ## 5. Statements -/

theorem condition_draws (budget : Nat) (ts : List Lexeme) :
    Draws [] (nodeLines ·.nodes) ts (condition budget ts) := by
  refine (Draws.skip (sign_local _) (Drawn.nil []) ts).bind fun _ front rest hnone => ?_
  refine ((expression_draws budget rest).behind hnone).bind fun test front rest htest => ?_
  exact (Draws.skip (sign_local _) htest rest).bind fun _ front rest h => .ok h

theorem place_draws (budget : Nat) (ts : List Lexeme) :
    Draws [] (nodeLines ·.nodes) ts (place budget ts) := by
  refine (identifier_draws ts).bind fun (name, line) front rest hname => ?_
  refine (subscript_draws budget name rest hname).mono fun target front htarget => ?_
  exact htarget.sublist (List.sublist_cons_self _ _)

theorem written_draws (budget : Nat) (ts : List Lexeme) :
    Draws [] (nodeLines ·.nodes) ts (written budget ts) := by
  unfold written
  split
  · rename_i text line rest
    refine .cons (.ok ?_)
    exact Drawn.single ⟨.string text, line⟩
  · exact expression_draws budget _

theorem nodeLines_nodesList (ss : List Statement) :
    nodeLines (Statement.nodesList ss) = ss.flatMap (nodeLines ·.nodes) := by
  induction ss with
  | nil => rfl
  | cons s ss ih => rw [Statement.nodesList, nodeLines_append, ih, List.flatMap_cons]

/-- The first node of a statement is the statement itself. -/
theorem nodeLines_statement (s : Statement) : ∃ ns, nodeLines s.nodes = s.line :: ns := by
  cases s <;> exact ⟨_, rfl⟩

section Items

variable {item : Production Statement} (hi : ∀ ts, Draws [] (nodeLines ·.nodes) ts (item ts))
include hi

theorem statements_draws (ts : List Lexeme) :
    Draws [] (fun (first, others) => nodeLines (Statement.nodesList (first :: others))) ts
      (statements item ts) := by
  refine (hi ts).bind fun first front rest hfirst => ?_
  refine ((repeatWhile_draws hi rest).behind hfirst).bind fun others front rest hothers => ?_
  refine .ok ?_
  show Drawn (nodeLines (Statement.nodesList (first :: others))) front
  rwa [nodeLines_nodesList, List.flatMap_cons]

theorem braces_draws (ts : List Lexeme) :
    Draws [] (nodeLines <| Statement.nodesBlock ·) ts (braces item ts) := by
  refine (sign_draws _ ts).bind fun line front rest hline => ?_
  refine ((statements_draws hi rest).behind hline).bind
    fun (first, others) front rest hitems => ?_
  exact (Draws.skip (sign_local _) hitems rest).bind fun _ front rest h => .ok h

end Items

theorem statement_draws (budget : Nat) :
    ∀ ts, Draws [] (nodeLines ·.nodes) ts (statement budget ts) := by
  induction budget with
  | zero => exact fun ts => .error _
  | succ budget ih =>
    intro ts
    unfold statement
    split
    · -- an assignment
      rename_i name line rest
      have hname := Drawn.single ⟨.ident name, line⟩
      refine ((subscript_draws budget name rest hname).bind
        fun target front rest htarget => ?_).cons
      refine (Draws.skip (sign_local _) htarget rest).bind fun _ front rest htarget => ?_
      refine ((expression_draws budget rest).behind htarget).bind fun value front rest h => ?_
      refine (Draws.skip (sign_local _) h rest).bind fun _ front rest h => .ok ?_
      rwa [List.cons_append, ← nodeLines_append] at h
    · -- a choice, with a second block or without one
      rename_i line rest
      have hword := Drawn.single ⟨.keyword .ifKw, line⟩
      refine (((condition_draws budget rest).behind hword).bind
        fun test front rest htest => ?_).cons
      refine ((braces_draws ih rest).behind htest).bind fun body front rest hbody => ?_
      rw [List.append_assoc, ← nodeLines_append] at hbody
      simp only []
      split
      · rename_i line' rest
        have hbody := hbody.longer [⟨.keyword .elseKw, line'⟩]
        refine .cons (((braces_draws ih rest).behind hbody).bind fun other front rest h => .ok ?_)
        rwa [List.append_assoc, ← nodeLines_append] at h
      · exact .ok hbody
    · -- a loop
      rename_i line rest
      have hword := Drawn.single ⟨.keyword .whileKw, line⟩
      refine (((condition_draws budget rest).behind hword).bind
        fun test front rest htest => ?_).cons
      refine ((ih rest).behind htest).bind fun body front rest h => .ok ?_
      rwa [List.append_assoc, ← nodeLines_append] at h
    · -- a `read`
      rename_i line rest
      have hword := Drawn.single ⟨.keyword .readKw, line⟩
      refine ((Draws.skip (sign_local _) hword rest).bind fun _ front rest hword => ?_).cons
      refine ((place_draws budget rest).behind hword).bind fun target front rest h => ?_
      refine (Draws.skip (sign_local _) h rest).bind fun _ front rest h => ?_
      exact (Draws.skip (sign_local _) h rest).bind fun _ front rest h => .ok h
    · -- a `write`
      rename_i line rest
      have hword := Drawn.single ⟨.keyword .writeKw, line⟩
      refine ((Draws.skip (sign_local _) hword rest).bind fun _ front rest hword => ?_).cons
      refine ((written_draws budget rest).behind hword).bind fun value front rest h => ?_
      refine (Draws.skip (sign_local _) h rest).bind fun _ front rest h => ?_
      exact (Draws.skip (sign_local _) h rest).bind fun _ front rest h => .ok h
    · -- a `return`
      rename_i line rest
      have hword := Drawn.single ⟨.keyword .returnKw, line⟩
      refine (((expression_draws budget rest).behind hword).bind fun value front rest h => ?_).cons
      exact (Draws.skip (sign_local _) h rest).bind fun _ front rest h => .ok h
    · -- an `exit`
      rename_i line rest
      have hword := Drawn.single ⟨.keyword .exitKw, line⟩
      exact .cons ((Draws.skip (sign_local _) hword rest).bind fun _ front rest h => .ok h)
    · -- statements between braces
      rename_i line rest
      refine (braces_draws ih (⟨.symbol .lbrace, line⟩ :: rest)).bind
        fun block front rest h => .ok ?_
      obtain ⟨items, line⟩ := block
      exact Drawn.twice_head h
    · exact .error _

/-! ## 6. Declarations, procedures, programs -/

theorem nextDeclaration_draws (type : ValueType) (ts : List Lexeme) :
    Draws [] (fun d => [d.line]) ts (nextDeclaration type ts) := by
  refine (Draws.skip (sign_local _) (Drawn.nil []) ts).bind fun _ front rest hnone => ?_
  refine ((identifier_draws rest).behind hnone).bind fun (name, line) front rest hname => ?_
  exact (Draws.skip dimension_local hname rest).bind fun size front rest h => .ok h

theorem group_draws (ts : List Lexeme) :
    Draws [] (List.map Declaration.line) ts (group ts) := by
  refine (valueType_draws ts).bind fun (type, line) front rest htype => ?_
  refine (Draws.skip identifier_local htype rest).bind fun (name, _) front rest htype => ?_
  refine (Draws.skip dimension_local htype rest).bind fun size front rest htype => ?_
  refine ((repeatWhile_draws (nextDeclaration_draws type) rest).behind htype).bind
    fun others front rest h => ?_
  rw [← List.map_eq_flatMap] at h
  exact (Draws.skip (sign_local _) h rest).bind fun _ front rest h => .ok h

theorem groups_draws (more : List Lexeme → Bool) (ts : List Lexeme) :
    Draws [] (fun groups => groups.flatten.map Declaration.line) ts
      (repeatWhile more group ts) := by
  refine (repeatWhile_draws group_draws ts).mono fun groups front h => ?_
  rwa [List.map_flatten, ← List.flatMap_def]

theorem declarations_draws (ts : List Lexeme) :
    Draws [] (List.map Declaration.line) ts (declarations ts) :=
  (groups_draws _ ts).bind fun _ _ _ h => .ok h

/-- Declarations as a block, in front of a brace and behind it: when there are any, the line of the
    block is that of the first one and the brace gives none. -/
theorem drawn_locals {ns : List Nat} {before behind : List Declaration} {openLine : Nat}
    {front : List Lexeme}
    (h : Drawn (ns ++ before.map Declaration.line ++ [openLine] ++ behind.map Declaration.line)
      front) :
    Drawn (ns ++ nodeLines (blockOf openLine (before ++ behind)).declarationNodes) front := by
  have hwithout : Drawn (ns ++ (before ++ behind).map Declaration.line) front := by
    refine h.sublist ?_
    rw [List.map_append, ← List.append_assoc]
    exact (List.sublist_append_left _ _).append_right _
  cases hds : before ++ behind with
  | nil =>
    obtain ⟨rfl, rfl⟩ := List.append_eq_nil_iff.mp hds
    rwa [List.map_nil, List.append_nil, List.append_nil] at h
  | cons d ds =>
    rw [hds] at hwithout
    have hlines : nodeLines (blockOf openLine (d :: ds)).declarationNodes =
        d.line :: d.line :: ds.map Declaration.line := by
      simp [nodeLines, blockOf, Block.declarationNodes, Node.line]
    rw [hlines]
    exact hwithout.twice

/-- A procedure: the block of its body has the line of the first statement. -/
theorem drawn_procedure {type : ValueType} {name : String} {line : Nat}
    {locals : Block Declaration} {first : Statement} {others : List Statement}
    {front : List Lexeme}
    (h : Drawn ([line] ++ nodeLines locals.declarationNodes ++
      nodeLines (Statement.nodesList (first :: others))) front) :
    Drawn (nodeLines (Procedure.nodes
      ⟨type, name, locals, ⟨first :: others, first.line⟩, line⟩)) front := by
  obtain ⟨ns, hfirst⟩ := nodeLines_statement first
  have hbody : nodeLines (Statement.nodesList (first :: others)) =
      first.line :: (ns ++ nodeLines (Statement.nodesList others)) := by
    rw [Statement.nodesList, nodeLines_append, hfirst, List.cons_append]
  rw [hbody] at h
  have htwice := h.twice
  rw [← hbody, List.append_assoc] at htwice
  show Drawn ([line] ++ nodeLines (locals.declarationNodes ++
    Statement.nodesBlock ⟨first :: others, first.line⟩)) front
  rwa [nodeLines_append]

theorem procedure_draws (budget : Nat) (ts : List Lexeme) :
    Draws [] (nodeLines ·.nodes) ts (procedure budget ts) := by
  refine (valueType_draws ts).bind fun (type, line) front rest htype => ?_
  refine (Draws.skip identifier_local htype rest).bind fun (name, _) front rest htype => ?_
  refine (Draws.skip (sign_local _) htype rest).bind fun _ front rest htype => ?_
  refine (Draws.skip (sign_local _) htype rest).bind fun _ front rest htype => ?_
  refine ((declarations_draws rest).behind htype).bind fun before front rest hbefore => ?_
  refine ((sign_draws _ rest).behind hbefore).bind fun openLine front rest hopen => ?_
  refine ((declarations_draws rest).behind hopen).bind fun behind front rest hbehind => ?_
  have hlocals := drawn_locals hbehind
  refine ((statements_draws (statement_draws budget) rest).behind hlocals).bind
    fun (first, others) front rest h => ?_
  exact (Draws.skip (sign_local _) h rest).bind fun _ front rest h => .ok (drawn_procedure h)

/-- A program: it has the line of its first global declaration, and so has the block of these, or
    the line of its first procedure. -/
theorem drawn_program {ds : List Declaration} {first : Procedure} {others : List Procedure}
    {front : List Lexeme}
    (h : Drawn (ds.map Declaration.line ++ nodeLines first.nodes ++
      others.flatMap (nodeLines ·.nodes)) front) :
    Drawn (nodeLines (Program.nodes
      ⟨globalsOf ds, first :: others, (globalsOf ds).elim first.line (·.line)⟩)) front := by
  have hprocedures : nodeLines ((first :: others).flatMap Procedure.nodes) =
      nodeLines first.nodes ++ others.flatMap (nodeLines ·.nodes) := by
    rw [List.flatMap_cons, nodeLines_append]
    unfold nodeLines
    rw [List.map_flatMap]
  rw [List.append_assoc, ← hprocedures] at h
  cases ds with
  | nil => exact h.twice_head
  | cons d ds =>
    have hglobals : nodeLines (Block.declarationNodes ⟨d :: ds, d.line⟩) =
        d.line :: (d :: ds).map Declaration.line := by
      simp [nodeLines, Block.declarationNodes, Node.line]
    have hlines := h.twice_head.twice_head
    show Drawn (d.line :: nodeLines (Block.declarationNodes ⟨d :: ds, d.line⟩ ++
      (first :: others).flatMap Procedure.nodes)) front
    rwa [nodeLines_append, hglobals]

theorem program_draws (budget : Nat) (ts : List Lexeme) :
    Draws [] (nodeLines ·.nodes) ts (program budget ts) := by
  refine (groups_draws _ ts).bind fun groups front rest hgroups => ?_
  refine ((procedure_draws budget rest).behind hgroups).bind fun first front rest hfirst => ?_
  refine ((repeatWhile_draws (procedure_draws budget) rest).behind hfirst).bind
    fun others front rest h => ?_
  exact .ok (drawn_program h)

end Parse
/-! ## 7. Accepted programs -/

/-- The lines of the tokens of a source never go back. -/
theorem scan_lines_pairwise (source : String) (o : Options) :
    (scan source o).1.Pairwise (fun a b => a.line ≤ b.line) := by
  refine (Scan.place_pairwise 1 (Scan.segments source.toList)).filterMap _
    fun p q hpq l hl m hm => ?_
  obtain ⟨_, _, hlexeme⟩ := Option.map_eq_some_iff.mp hl
  obtain ⟨_, _, hlexeme'⟩ := Option.map_eq_some_iff.mp hm
  rw [← hlexeme, ← hlexeme']
  exact hpq

/-- **The lines of the nodes follow the source.** Whoever meets every node of an accepted program,
    and notes its line, notes the lines of the nodes from first to last; these never go back, and
    each node has the line of a token of the source. -/
theorem node_lines_ordered {source : String} {o : Options} {p : Program}
    (h : parse source o = .ok p) :
    p.collect (fun node => some node.line) [] = p.nodes.map Node.line ∧
      (p.nodes.map Node.line).Pairwise (· ≤ ·) ∧
      ∀ node ∈ p.nodes, ∃ l ∈ (scan source o).1, l.line = node.line := by
  obtain ⟨_, rest, hp⟩ := parse_eq_ok_iff.mp h
  obtain ⟨taken, htokens, hdrawn⟩ := Parse.program_draws o.maxNesting _ p rest hp
  have hsource := hdrawn.longer rest
  rw [List.nil_append, ← htokens] at hsource
  refine ⟨?_, hsource.ordered (scan_lines_pairwise source o), fun node hnode => ?_⟩
  · rw [Program.collect_eq]
    exact congrFun List.filterMap_eq_map p.nodes
  · exact hsource.mem node.line (List.mem_map_of_mem hnode)

/-- A global, locals in front of the brace and behind it, a negation over three lines, and a second
    block. -/
def spreadSource : String :=
  "int x;\nint f() int y;\n\x7b int z;\nif (x) \x7b x = !\n(3 *\nf()); \x7d\n"
    ++ "else \x7b y = 1; \x7d\n\x7d"

theorem node_lines_ordered_spread :
    ∃ p, parse spreadSource {} = .ok p ∧
      p.collect (fun node => some node.line) [] =
        [1, 1, 1, 2, 2, 2, 3, 4, 4, 4, 4, 4, 4, 4, 4, 5, 5, 6, 7, 7, 7, 7] ∧
      (p.nodes.map Node.line).Pairwise (· ≤ ·) ∧
      ∀ node ∈ p.nodes, ∃ l ∈ (scan spreadSource {}).1, l.line = node.line := by
  have hlines : (parse spreadSource {}).toOption.map (·.nodes.map Node.line) =
      some [1, 1, 1, 2, 2, 2, 3, 4, 4, 4, 4, 4, 4, 4, 4, 5, 5, 6, 7, 7, 7, 7] := by
    decide +kernel
  obtain ⟨p, hp⟩ := exists_ok_of_isOk (show (parse spreadSource {}).isOk = true by decide +kernel)
  rw [hp] at hlines
  obtain ⟨hcollect, hordered, hdrawn⟩ := node_lines_ordered hp
  exact ⟨p, hp, hcollect.trans (Option.some.inj hlines), hordered, hdrawn⟩

end CMinus
