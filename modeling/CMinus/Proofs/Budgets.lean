import CMinus.Proofs.Offending

/-!
# Budgets: one row of tokens under two budgets

The same tokens are read under a budget and under a greater one. As long as the smaller budget
lasts, both readings do the same. Where it runs out, at least as many tokens have been read as it
had levels (`Overtakes.short`), and what the greater one does there depends on who opened the level
(`Beyond`). Most levels are opened by the token that is read next: a negation, a parenthesis, a
bracket, an operator. That token the greater budget takes, or it runs out as well. A statement opens
its level before its first token has been looked at, and where a statement has to stand that token
may be any. So there the greater budget may also find that a statement is missing.
-/

namespace CMinus

namespace Parse

variable {α β : Type}

/-! ## 1. Two budgets -/

/-- What a greater budget does where a smaller one has run out, in front of the tokens `rest`. -/
inductive Beyond (rest : List Lexeme) : Except Failure (Read α) → Prop
  /-- It runs out as well. -/
  | out : Beyond rest (tooDeep rest)
  /-- It takes the next token. -/
  | further {r : Except Failure (Read α)} (hr : leftOf r <:+ rest)
    (hlt : (leftOf r).length < rest.length) : Beyond rest r
  /-- It misses a statement. -/
  | missing (hno : startsWith Token.startsStatement rest = false) :
    Beyond rest (.error ⟨.expected .statement, rest⟩)

namespace Beyond

variable {ts rest : List Lexeme} {r : Except Failure (Read α)}

theorem suffix (h : Beyond rest r) : leftOf r <:+ rest := by
  cases h with
  | out => exact List.suffix_rfl
  | further hr _ => exact hr
  | missing _ => exact List.suffix_rfl

/-- A greater budget that lasts gets further, or misses a statement. -/
theorem further_or_missing (h : Beyond rest r) (hr : r ≠ tooDeep rest) :
    (leftOf r).length < rest.length ∨
      startsWith Token.startsStatement rest = false ∧ r = .error ⟨.expected .statement, rest⟩ := by
  cases h with
  | out => exact absurd rfl hr
  | further _ hlt => exact .inl hlt
  | missing hno => exact .inr ⟨hno, rfl⟩

section Bind

variable {x : Except Failure (Read α)} {k : Read α → Except Failure (Read β)}
  (hk : ∀ a rest, leftOf (k (a, rest)) <:+ rest)
include hk

/-- What is read behind the first token has taken it. -/
theorem of_behind (l : Lexeme) (hx : leftOf x <:+ ts) : Beyond (l :: ts) (x >>= k) := by
  have hleft := (leftOf_bind_suffix x hk).trans hx
  exact .further (hleft.trans (List.suffix_cons l ts)) (Nat.lt_succ_of_le hleft.length_le)

theorem bind (h : Beyond rest x) : Beyond rest (x >>= k) := by
  cases h with
  | out => exact .out
  | further hr hlt =>
    have hleft := leftOf_bind_suffix x hk
    exact .further (hleft.trans hr) (Nat.lt_of_le_of_lt hleft.length_le hlt)
  | missing hno => exact .missing hno

end Bind

end Beyond

/-- What comes of the tokens `ts` under a budget of `n` levels, and under a greater one. -/
inductive Overtakes (n : Nat) (ts : List Lexeme) :
    Except Failure (Read α) → Except Failure (Read α) → Prop
  /-- Both read the same. -/
  | ok (a : α) {rest : List Lexeme} (hs : rest <:+ ts) :
    Overtakes n ts (.ok (a, rest)) (.ok (a, rest))
  /-- Both stop at the same token, for the same reason. -/
  | fail (what : Expected) {rest : List Lexeme} (hs : rest <:+ ts) :
    Overtakes n ts (.error ⟨.expected what, rest⟩) (.error ⟨.expected what, rest⟩)
  /-- The smaller budget runs out, not before `n` tokens. -/
  | short {rest : List Lexeme} {r : Except Failure (Read α)} (hs : rest <:+ ts)
    (hn : n + rest.length ≤ ts.length) (hr : Beyond rest r) :
    Overtakes n ts (.error ⟨.tooDeep, rest⟩) r

namespace Overtakes

variable {n : Nat} {ts rest : List Lexeme} {r r' : Except Failure (Read α)}

theorem suffix (h : Overtakes n ts r r') : leftOf r' <:+ ts := by
  cases h with
  | ok a hs => exact hs
  | fail what hs => exact hs
  | short hs _ hr => exact hr.suffix.trans hs

/-- More tokens may stand in front, and each of them makes up for a level. -/
theorem behind {k : Nat} (h : Overtakes n rest r r') (hs : rest <:+ ts)
    (hk : k + rest.length ≤ n + ts.length) : Overtakes k ts r r' := by
  cases h with
  | ok a hrest => exact .ok a (hrest.trans hs)
  | fail what hrest => exact .fail what (hrest.trans hs)
  | short hrest hn hr => exact .short (hrest.trans hs) (by omega) hr

theorem cons (h : Overtakes n ts r r') (l : Lexeme) : Overtakes (n + 1) (l :: ts) r r' := by
  refine h.behind (List.suffix_cons l ts) ?_
  rw [List.length_cons]
  omega

theorem skip (h : Overtakes n ts r r') (l : Lexeme) : Overtakes n (l :: ts) r r' :=
  h.behind (List.suffix_cons l ts) (Nat.add_le_add_left (Nat.le_succ _) n)

/-- No level is left for the first token. -/
theorem none_left (hr : Beyond ts r) : Overtakes 0 ts (tooDeep ts) r :=
  .short List.suffix_rfl (Nat.le_of_eq (Nat.zero_add _)) hr

section Bind

variable {x x' : Except Failure (Read α)} {k k' : Read α → Except Failure (Read β)}
  (hk : ∀ a rest, Overtakes n rest (k (a, rest)) (k' (a, rest)))
include hk

/-- One production after the other, when what the first one takes makes up for the levels that
    are counted before it and not behind it. -/
theorem bindWith {j : Nat} (h : Overtakes j ts x x')
    (hj : ∀ a rest, rest <:+ ts → x = .ok (a, rest) → j + rest.length ≤ n + ts.length) :
    Overtakes j ts (x >>= k) (x' >>= k') := by
  cases h with
  | ok a hs => exact (hk a _).behind hs (hj a _ hs rfl)
  | fail what hs => exact .fail what hs
  | short hs hn hr => exact .short hs hn (hr.bind fun a rest => (hk a rest).suffix)

/-- One production after the other. -/
theorem bind (h : Overtakes n ts x x') : Overtakes n ts (x >>= k) (x' >>= k') :=
  bindWith hk h fun _ _ hs _ => Nat.add_le_add_left hs.length_le n

end Bind

theorem beyond_of_tooDeep (h : Overtakes n ts r r') (hr : r = .error ⟨.tooDeep, rest⟩) :
    Beyond rest r' := by
  cases h with
  | ok | fail => cases hr
  | short _ _ hbeyond =>
    cases hr
    exact hbeyond

end Overtakes

/-- The two readings of all rows of tokens. -/
def OvertakesTo (n : Nat) (p p' : Production α) : Prop :=
  ∀ ts, Overtakes n ts (p ts) (p' ts)

/-! ## 2. Single tokens and repetition -/

section Tokens

variable {n : Nat}

theorem sign_overtakes (s : Symbol) : OvertakesTo n (sign s) (sign s) := by
  intro ts
  unfold sign
  split
  · split
    · exact .ok _ (List.suffix_cons _ _)
    · exact .fail _ List.suffix_rfl
  · exact .fail _ List.suffix_rfl

theorem identifier_overtakes : OvertakesTo n identifier identifier := by
  intro ts
  unfold identifier
  split
  · exact .ok _ (List.suffix_cons _ _)
  · exact .fail _ List.suffix_rfl

theorem arraySize_overtakes : OvertakesTo n arraySize arraySize := by
  intro ts
  unfold arraySize
  split
  · split
    · exact .ok _ (List.suffix_cons _ _)
    · exact .fail _ List.suffix_rfl
  · exact .fail _ List.suffix_rfl

theorem valueType_overtakes : OvertakesTo n valueType valueType := by
  intro ts
  unfold valueType
  split
  · exact .ok _ (List.suffix_cons _ _)
  · exact .ok _ (List.suffix_cons _ _)
  · exact .fail _ List.suffix_rfl

theorem repeatWhile_overtakes {more : List Lexeme → Bool} {item item' : Production α}
    (hi : OvertakesTo n item item') :
    OvertakesTo n (repeatWhile more item) (repeatWhile more item') := by
  intro ts
  induction ts using repeatWhile.induct more with
  | case1 ts h ih =>
    rw [repeatWhile, repeatWhile, if_pos h, if_pos h]
    refine (hi ts).bind fun first rest => ?_
    simp only []
    split
    · rename_i hlt
      exact (ih rest hlt).bind fun others rest => .ok (first :: others) List.suffix_rfl
    · exact .ok [first] List.suffix_rfl
  | case2 ts h =>
    rw [repeatWhile, repeatWhile, if_neg h, if_neg h]
    exact .ok [] List.suffix_rfl

end Tokens

/-! ## 3. Expressions -/

/-- A mark that closes what has been read. -/
theorem leftOf_sign_suffix (s : Symbol) (a : α) (ts : List Lexeme) :
    leftOf (sign s ts >>= fun read => .ok (a, read.2)) <:+ ts :=
  (leftOf_bind_suffix _ fun _ _ => List.suffix_rfl).trans (sign_local s 0 [] ts).1

/-- All six productions at once, along the calls that are made under the smaller budget. -/
theorem expression_family_overtakes :
    (∀ n ts, ∀ m, n ≤ m → Overtakes n ts (expression n ts) (expression m ts)) ∧
    (∀ tier n left ts, ∀ m, n ≤ m →
      Overtakes n ts (chainRest tier n left ts) (chainRest tier m left ts)) ∧
    (∀ tier n ts, ∀ m, n ≤ m → Overtakes n ts (operand tier n ts) (operand tier m ts)) ∧
    (∀ n ts, ∀ m, n ≤ m → Overtakes n ts (factor n ts) (factor m ts)) ∧
    (∀ n name line ts, ∀ m, n ≤ m →
      Overtakes n ts (subscript n name line ts) (subscript m name line ts)) ∧
    (∀ tier n ts, ∀ m, n ≤ m → Overtakes n ts (chain tier n ts) (chain tier m ts)) := by
  obtain ⟨hexpression, hchainRest, hoperand, _, _, hchain⟩ := expression_family_keeps 0 []
  apply expression.mutual_induct
    (fun n ts => ∀ m, n ≤ m → Overtakes n ts (expression n ts) (expression m ts))
    (fun tier n left ts => ∀ m, n ≤ m →
      Overtakes n ts (chainRest tier n left ts) (chainRest tier m left ts))
    (fun tier n ts => ∀ m, n ≤ m → Overtakes n ts (operand tier n ts) (operand tier m ts))
    (fun n ts => ∀ m, n ≤ m → Overtakes n ts (factor n ts) (factor m ts))
    (fun n name line ts => ∀ m, n ≤ m →
      Overtakes n ts (subscript n name line ts) (subscript m name line ts))
    (fun tier n ts => ∀ m, n ≤ m → Overtakes n ts (chain tier n ts) (chain tier m ts))
  case case1 => -- a negation without a level for it
    intro line rest m _
    cases m with
    | zero =>
      simp only [expression]
      exact .none_left .out
    | succ m =>
      simp only [expression]
      refine .none_left (.of_behind (fun operand rest => ?_) _ (hchain .relational m rest).1)
      exact (hchainRest .logical (m + 1) (.not operand line) rest).1
  case case2 => -- a negation
    intro line rest n ihOperand ihRest m hm
    obtain ⟨m, rfl⟩ := Nat.exists_eq_add_of_le' (Nat.le_trans (Nat.le_add_left 1 n) hm)
    have hless : n ≤ m := Nat.le_of_succ_le_succ hm
    simp only [expression]
    exact ((ihOperand m hless).cons _).bind fun operand rest => ihRest operand rest (m + 1) hm
  case case3 => -- no negation
    intro n ts hts ih m hm
    have h := startsWith_eq_false hts
    rw [expression_eq_chain h, expression_eq_chain h]
    exact ih m hm
  case case4 => -- the end of the tokens behind a chain
    intro tier n left m _
    simp only [chainRest]
    exact .ok left List.suffix_rfl
  case case5 => -- no operator of the tier behind a chain
    intro tier n left l rest h m _
    simp only [chainRest, h]
    exact .ok left List.suffix_rfl
  case case6 => -- an operator without a level for it
    intro tier left l rest op h m _
    cases m with
    | zero =>
      simp only [chainRest, h]
      exact .none_left .out
    | succ m =>
      simp only [chainRest, h]
      refine .none_left (.of_behind (fun right rest => ?_) l (hoperand tier m rest).1)
      exact (hchainRest tier m (.combine op left right) rest).1
  case case7 => -- an operator
    intro tier left l rest op h n ihOperand ihRest m hm
    obtain ⟨m, rfl⟩ := Nat.exists_eq_add_of_le' (Nat.le_trans (Nat.le_add_left 1 n) hm)
    have hless : n ≤ m := Nat.le_of_succ_le_succ hm
    simp only [chainRest, h]
    exact ((ihOperand m hless).bind fun right rest => ihRest right rest m hless).cons l
  case case8 => -- an operand of a tier above the tightest one
    intro tier n ts tighter h ih m hm
    rw [operand_tighter h, operand_tighter h]
    exact ih m hm
  case case9 => -- an operand of the tightest tier
    intro tier n ts h ih m hm
    rw [operand_factor h, operand_factor h]
    exact ih m hm
  case case10 => -- a call
    intro n name line line' rest m _
    simp only [factor]
    refine (((sign_overtakes .rparen rest).bind fun _ rest => ?_).skip _).skip _
    exact .ok (Expression.call name line) List.suffix_rfl
  case case11 => -- a variable
    intro n name line rest hrest ih m hm
    have h := startsWith_eq_false hrest
    rw [factor_ident h, factor_ident h]
    refine ((ih m hm).bind fun place rest => ?_).skip _
    exact .ok place.toExpression List.suffix_rfl
  case case12 => -- a whole number
    intro n value line rest m _
    simp only [factor]
    exact .ok _ (List.suffix_cons _ rest)
  case case13 => -- a fraction
    intro n value line rest m _
    simp only [factor]
    exact .ok _ (List.suffix_cons _ rest)
  case case14 => -- a parenthesis without a level for it
    intro line rest m _
    cases m with
    | zero =>
      simp only [factor]
      exact .none_left .out
    | succ m =>
      simp only [factor]
      refine .none_left (.of_behind (fun inner rest => ?_) _ (hexpression m rest).1)
      exact leftOf_sign_suffix .rparen _ rest
  case case15 => -- an expression in parentheses
    intro line rest n ih m hm
    obtain ⟨m, rfl⟩ := Nat.exists_eq_add_of_le' (Nat.le_trans (Nat.le_add_left 1 n) hm)
    simp only [factor]
    refine ((ih m (Nat.le_of_succ_le_succ hm)).bind fun inner rest => ?_).cons _
    exact (sign_overtakes .rparen rest).bind fun _ rest => .ok inner List.suffix_rfl
  case case16 => -- no factor
    intro n ts _ hIdent hInt hFloat hParen m _
    have h := startsFactor_eq_false hIdent hInt hFloat hParen
    rw [factor_fail h, factor_fail h]
    exact .fail .expression List.suffix_rfl
  case case17 => -- a bracket without a level for it
    intro name line line' rest m _
    cases m with
    | zero =>
      simp only [subscript]
      exact .none_left .out
    | succ m =>
      simp only [subscript]
      refine .none_left (.of_behind (fun index rest => ?_) _ (hexpression m rest).1)
      exact leftOf_sign_suffix .rbracket _ rest
  case case18 => -- an index
    intro name line line' rest n ih m hm
    obtain ⟨m, rfl⟩ := Nat.exists_eq_add_of_le' (Nat.le_trans (Nat.le_add_left 1 n) hm)
    simp only [subscript]
    refine ((ih m (Nat.le_of_succ_le_succ hm)).bind fun index rest => ?_).cons _
    exact (sign_overtakes .rbracket rest).bind fun _ rest =>
      .ok (Variable.mk name (some index) line) List.suffix_rfl
  case case19 => -- no index
    intro n name line ts hts m _
    have h := startsWith_eq_false hts
    rw [subscript_scalar h, subscript_scalar h]
    exact .ok _ List.suffix_rfl
  case case20 => -- a chain
    intro tier n ts ihOperand ihRest m hm
    rw [chain, chain]
    exact (ihOperand m hm).bind fun left rest => ihRest left rest m hm

section Productions

variable {n m : Nat} (h : n ≤ m)
include h

theorem expression_overtakes : OvertakesTo n (expression n) (expression m) :=
  fun ts => expression_family_overtakes.1 n ts m h

theorem subscript_overtakes (name : String) (line : Nat) :
    OvertakesTo n (subscript n name line) (subscript m name line) :=
  fun ts => expression_family_overtakes.2.2.2.2.1 n name line ts m h

theorem place_overtakes : OvertakesTo n (place n) (place m) := by
  intro ts
  refine (identifier_overtakes ts).bind fun named rest => ?_
  exact subscript_overtakes h named.1 named.2 rest

/-! ## 4. Statements -/

theorem condition_overtakes : OvertakesTo n (condition n) (condition m) := by
  intro ts
  refine (sign_overtakes .lparen ts).bind fun _ rest => ?_
  refine (expression_overtakes h rest).bind fun test rest => ?_
  exact (sign_overtakes .rparen rest).bind fun _ rest => .ok test List.suffix_rfl

theorem written_overtakes : OvertakesTo n (written n) (written m) := by
  intro ts
  unfold written
  split
  · exact .ok _ (List.suffix_cons _ _)
  · exact expression_overtakes h ts

end Productions

section Items

variable {n : Nat} {item item' : Production Statement} (hi : OvertakesTo n item item')
include hi

theorem statements_overtakes : OvertakesTo n (statements item) (statements item') := by
  intro ts
  refine (hi ts).bind fun first rest => ?_
  exact (repeatWhile_overtakes hi rest).bind fun others rest => .ok (first, others) List.suffix_rfl

theorem braces_overtakes : OvertakesTo n (braces item) (braces item') := by
  intro ts
  refine (sign_overtakes .lbrace ts).bind fun line rest => ?_
  refine (statements_overtakes hi rest).bind fun listed rest => ?_
  exact (sign_overtakes .rbrace rest).bind fun _ rest =>
    .ok (Block.mk (listed.1 :: listed.2) line) List.suffix_rfl

end Items

/-- What is read at the end of the tokens, and then something else, leaves nothing. -/
theorem leftOf_bind_nil {p : Production α} (hp : Local p) {k : Read α → Except Failure (Read β)}
    (hk : ∀ a, leftOf (k (a, [])) = []) : leftOf (p [] >>= k) = [] := by
  have hnil := List.suffix_nil.mp (hp 0 [] []).1
  cases hread : p [] with
  | error failure =>
    rw [hread] at hnil
    exact hnil
  | ok read =>
    obtain ⟨a, rest⟩ := read
    rw [hread] at hnil
    obtain rfl : rest = [] := hnil
    exact hk a

theorem statement_alone (m : Nat) {l : Lexeme} (h : l.token.startsStatement = true) :
    leftOf (statement (m + 1) [l]) = [] := by
  obtain ⟨t, line⟩ := l
  cases t with
  | ident name => exact leftOf_bind_nil (subscript_local m name line) fun _ => rfl
  | keyword word =>
    cases word with
    | returnKw => exact leftOf_bind_nil (expression_local m) fun _ => rfl
    | ifKw | whileKw | readKw | writeKw | exitKw => rfl
    | elseKw | floatKw | intKw => cases h
  | symbol s =>
    cases s with
    | lbrace => cases m <;> rfl
    | _ => cases h
  | int | float | string | eof => cases h

/-- A statement is missing in front of any other token. -/
theorem statement_missing (m : Nat) {ts : List Lexeme}
    (h : startsWith Token.startsStatement ts = false) :
    statement (m + 1) ts = fail .statement ts := by
  unfold statement
  split
  all_goals first | rfl | cases h

/-- Without a level for a statement, the token in front of which reading stops may be any. -/
theorem statement_beyond (m : Nat) (ts : List Lexeme) : Beyond ts (statement m ts) := by
  cases m with
  | zero => exact .out
  | succ m =>
    by_cases hstarts : startsWith Token.startsStatement ts = false
    · rw [statement_missing m hstarts]
      exact .missing hstarts
    · cases ts with
      | nil => exact absurd rfl hstarts
      | cons l rest =>
        have halone := statement_alone m (eq_true_of_ne_false hstarts)
        have htakes := (statement_local (m + 1)).length_leftOf_le halone rest
        exact .further (statement_local (m + 1) 0 [] (l :: rest)).1 (Nat.lt_succ_of_le htakes)

theorem statement_overtakes {n m : Nat} (h : n ≤ m) :
    OvertakesTo n (statement n) (statement m) := by
  induction n generalizing m with
  | zero => exact fun ts => .none_left (statement_beyond m ts)
  | succ n ih =>
    obtain ⟨m, rfl⟩ := Nat.exists_eq_add_of_le' (Nat.le_trans (Nat.le_add_left 1 n) h)
    have hless : n ≤ m := Nat.le_of_succ_le_succ h
    intro ts
    unfold statement
    split
    · -- an assignment
      refine ((subscript_overtakes hless _ _ _).bind fun target rest => ?_).cons _
      refine (sign_overtakes .assign rest).bind fun _ rest => ?_
      refine (expression_overtakes hless rest).bind fun value rest => ?_
      exact (sign_overtakes .semicolon rest).bind fun _ rest => .ok _ List.suffix_rfl
    · -- a choice, with a second block or without one
      refine ((condition_overtakes hless _).bind fun test rest => ?_).cons _
      refine (braces_overtakes (ih hless) rest).bind fun body rest => ?_
      simp only []
      split
      · refine ((braces_overtakes (ih hless) _).bind fun other rest => ?_).skip _
        exact .ok _ List.suffix_rfl
      · exact .ok _ List.suffix_rfl
    · -- a loop
      refine ((condition_overtakes hless _).bind fun test rest => ?_).cons _
      exact (ih hless rest).bind fun body rest => .ok _ List.suffix_rfl
    · -- a `read`
      refine ((sign_overtakes .lparen _).bind fun _ rest => ?_).cons _
      refine (place_overtakes hless rest).bind fun target rest => ?_
      refine (sign_overtakes .rparen rest).bind fun _ rest => ?_
      exact (sign_overtakes .semicolon rest).bind fun _ rest => .ok _ List.suffix_rfl
    · -- a `write`
      refine ((sign_overtakes .lparen _).bind fun _ rest => ?_).cons _
      refine (written_overtakes hless rest).bind fun value rest => ?_
      refine (sign_overtakes .rparen rest).bind fun _ rest => ?_
      exact (sign_overtakes .semicolon rest).bind fun _ rest => .ok _ List.suffix_rfl
    · -- a `return`
      refine ((expression_overtakes hless _).bind fun value rest => ?_).cons _
      exact (sign_overtakes .semicolon rest).bind fun _ rest => .ok _ List.suffix_rfl
    · -- an `exit`
      refine ((sign_overtakes .semicolon _).bind fun _ rest => ?_).cons _
      exact .ok _ List.suffix_rfl
    · -- statements between braces
      simp only [braces, sign_cons, ok_bind, bind_assoc]
      refine ((statements_overtakes (ih hless) _).bind fun listed rest => ?_).cons _
      exact (sign_overtakes .rbrace rest).bind fun _ rest => .ok _ List.suffix_rfl
    · -- no statement
      exact .fail .statement List.suffix_rfl

/-! ## 5. Programs -/

section Declarations

variable {n : Nat}

theorem dimension_overtakes : OvertakesTo n dimension dimension := by
  intro ts
  by_cases h : startsWith (· = .symbol .lbracket) ts = false
  · rw [dimension_none h]
    exact .ok none List.suffix_rfl
  · rcases ts with _ | ⟨⟨t, line⟩, rest⟩
    · exact absurd rfl h
    · have ht : t = .symbol .lbracket := of_decide_eq_true (eq_true_of_ne_false h)
      rw [ht, dimension]
      refine ((arraySize_overtakes rest).bind fun size rest => ?_).skip _
      exact (sign_overtakes .rbracket rest).bind fun _ rest => .ok (some size) List.suffix_rfl

theorem nextDeclaration_overtakes (type : ValueType) :
    OvertakesTo n (nextDeclaration type) (nextDeclaration type) := by
  intro ts
  refine (sign_overtakes .comma ts).bind fun _ rest => ?_
  refine (identifier_overtakes rest).bind fun named rest => ?_
  exact (dimension_overtakes rest).bind fun size rest =>
    .ok (Declaration.mk named.1 type size named.2) List.suffix_rfl

theorem group_overtakes : OvertakesTo n group group := by
  intro ts
  refine (valueType_overtakes ts).bind fun typed rest => ?_
  refine (identifier_overtakes rest).bind fun named rest => ?_
  refine (dimension_overtakes rest).bind fun size rest => ?_
  refine (repeatWhile_overtakes (nextDeclaration_overtakes typed.1) rest).bind fun others rest => ?_
  exact (sign_overtakes .semicolon rest).bind fun _ rest =>
    .ok (Declaration.mk named.1 typed.1 size typed.2 :: others) List.suffix_rfl

theorem declarations_overtakes : OvertakesTo n declarations declarations := by
  intro ts
  exact (repeatWhile_overtakes group_overtakes ts).bind fun groups rest =>
    .ok groups.flatten List.suffix_rfl

end Declarations

section Programs

variable {n m : Nat} (h : n ≤ m)
include h

/-- What stands in front of the body of a procedure makes up for a level. -/
theorem procedure_overtakes : OvertakesTo (n + 1) (procedure n) (procedure m) := by
  intro ts
  refine Overtakes.bindWith (n := n) (fun typed rest => ?_) (valueType_overtakes ts)
    fun typed rest _ htype => ?_
  · refine (identifier_overtakes rest).bind fun named rest => ?_
    refine (sign_overtakes .lparen rest).bind fun _ rest => ?_
    refine (sign_overtakes .rparen rest).bind fun _ rest => ?_
    refine (declarations_overtakes rest).bind fun before rest => ?_
    refine (sign_overtakes .lbrace rest).bind fun openLine rest => ?_
    refine (declarations_overtakes rest).bind fun behind rest => ?_
    refine (statements_overtakes (statement_overtakes h) rest).bind fun listed rest => ?_
    exact (sign_overtakes .rbrace rest).bind fun _ rest =>
      .ok (Procedure.mk typed.1 named.1 (blockOf openLine (before ++ behind))
        ⟨listed.1 :: listed.2, listed.1.line⟩ typed.2) List.suffix_rfl
  · have hlength := congrArg List.length (valueType_sound htype)
    rw [List.length_cons, length_tokensOf, length_tokensOf] at hlength
    omega

theorem program_overtakes : OvertakesTo (n + 1) (program n) (program m) := by
  intro ts
  refine (repeatWhile_overtakes group_overtakes ts).bind fun groups rest => ?_
  refine (procedure_overtakes h rest).bind fun first rest => ?_
  refine (repeatWhile_overtakes (procedure_overtakes h) rest).bind fun others rest => ?_
  exact .ok (Program.mk (globalsOf groups.flatten) (first :: others)
    ((globalsOf groups.flatten).elim first.line (·.line))) List.suffix_rfl

end Programs

end Parse

end CMinus
