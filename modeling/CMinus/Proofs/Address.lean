import Mathlib.Data.List.Basic
import Mathlib.Data.List.Forall2

/-!
# Address: the nodes of a tree, each at its place

A tree is given by its root and by the nodes directly below each node, from left to right. The
address of a node says which way to go at each level. A node stands in front of those below it, and
these follow from left to right: that is the order of addresses as lists. Nodes that stand in a row
in this order, each once, are `InPreorder`; the row of a node is put together from the rows of the
nodes directly below it (`inPreorder_node`).

In such a row it is enough to know how deep each node stands: the addresses follow, and so does the
tree (`agree_of_rows`).
-/

namespace CMinus

variable {ν : Type}

/-! ## 1. Addresses -/

/-- The node at an address, if the tree goes so far. -/
def nodeAt (children : ν → List ν) : ν → List Nat → Option ν
  | root, [] => some root
  | root, i :: address => (children root)[i]?.bind fun child => nodeAt children child address

/-- What holds of a tree and passes on to what is directly below holds at every address. -/
theorem forall_nodeAt {children : ν → List ν} {P : ν → Prop}
    (hbelow : ∀ n, P n → ∀ child ∈ children n, P child) {root n : ν} {address : List Nat}
    (hroot : P root) (h : nodeAt children root address = some n) : P n := by
  induction address generalizing root with
  | nil =>
    cases h
    exact hroot
  | cons i address ih =>
    obtain ⟨child, hchild, h⟩ := Option.bind_eq_some_iff.mp h
    exact ih (hbelow root hroot child (List.mem_of_getElem? hchild)) h

/-- What is met at an address stands in the row with this address, nothing else does, and addresses
    grow along the row. -/
structure InPreorder (met : List Nat → ν → Prop) (row : List (List Nat × ν)) : Prop where
  ordered : row.Pairwise fun a b => a.1 < b.1
  mem_iff : ∀ address n, (address, n) ∈ row ↔ met address n

/-- The row of a whole tree. -/
abbrev RowOf (children : ν → List ν) (root : ν) : List (List Nat × ν) → Prop :=
  InPreorder fun address n => nodeAt children root address = some n

/-! ## 2. Rows side by side -/

theorem forall₂_map {α β γ : Type} {R : α → β → Prop} {f : γ → α} {g : γ → β}
    (h : ∀ c, R (f c) (g c)) (cs : List γ) : List.Forall₂ R (cs.map f) (cs.map g) := by
  rw [List.forall₂_map_left_iff, List.forall₂_map_right_iff]
  exact List.forall₂_same.mpr fun c _ => h c

/-- Rows one after the other, the first one at the given index. -/
def sideBySide : Nat → List (List (List Nat × ν)) → List (List Nat × ν)
  | _, [] => []
  | i, row :: rows => row.map (fun e => (i :: e.1, e.2)) ++ sideBySide (i + 1) rows

theorem exists_index_of_mem {i : Nat} {rows : List (List (List Nat × ν))} {e : List Nat × ν}
    (h : e ∈ sideBySide i rows) : ∃ j address, i ≤ j ∧ e.1 = j :: address := by
  induction rows generalizing i with
  | nil => cases h
  | cons row rows ih =>
    rcases List.mem_append.mp h with h | h
    · obtain ⟨e, _, rfl⟩ := List.mem_map.mp h
      exact ⟨i, e.1, Nat.le_refl i, rfl⟩
    · obtain ⟨j, address, hj, he⟩ := ih h
      exact ⟨j, address, Nat.le_of_succ_le hj, he⟩

/-- What is said of the nodes of a row and of how deep they stand is said row by row. -/
theorem map_sideBySide {β : Type} (f : Nat → ν → β) (i : Nat)
    (rows : List (List (List Nat × ν))) :
    (sideBySide i rows).map (fun e => f e.1.length e.2) =
      rows.flatMap fun row => row.map fun e => f (e.1.length + 1) e.2 := by
  induction rows generalizing i with
  | nil => rfl
  | cons row rows ih =>
    rw [sideBySide, List.map_append, ih, List.map_map, List.flatMap_cons]
    rfl

section Rows

variable {children : ν → List ν} {nodes : List ν} {rows : List (List (List Nat × ν))}

theorem pairwise_sideBySide (h : List.Forall₂ (RowOf children) nodes rows) (i : Nat) :
    (sideBySide i rows).Pairwise fun a b => a.1 < b.1 := by
  induction h generalizing i with
  | nil => exact .nil
  | cons hrow hrows ih =>
    refine List.pairwise_append.mpr ⟨?_, ih (i + 1), fun a ha b hb => ?_⟩
    · rw [List.pairwise_map]
      exact hrow.ordered.imp List.cons_lt_cons_self.mpr
    · -- a later row has a greater index
      obtain ⟨e, _, rfl⟩ := List.mem_map.mp ha
      obtain ⟨j, address, hj, hb⟩ := exists_index_of_mem hb
      rw [hb]
      exact List.cons_lt_cons_iff.mpr (.inl hj)

theorem mem_sideBySide (h : List.Forall₂ (RowOf children) nodes rows) (i j : Nat)
    (address : List Nat) (n : ν) :
    ((i + j) :: address, n) ∈ sideBySide i rows ↔
      (nodes[j]?.bind fun child => nodeAt children child address) = some n := by
  induction h generalizing i j with
  | nil => simp [sideBySide]
  | @cons child row _ rows hrow hrows ih =>
    rw [sideBySide, List.mem_append, List.mem_map]
    cases j with
    | zero =>
      have hlater : ((i + 0) :: address, n) ∉ sideBySide (i + 1) rows := fun hmem => by
        obtain ⟨j, _, hj, he⟩ := exists_index_of_mem hmem
        have : i + 0 = j := (List.cons.inj he).1
        omega
      rw [List.getElem?_cons_zero, Option.bind_some, ← hrow.mem_iff, or_iff_left hlater]
      constructor
      · rintro ⟨e, he, heq⟩
        obtain ⟨hcons, rfl⟩ := Prod.mk.inj heq
        obtain ⟨_, rfl⟩ := List.cons.inj hcons
        exact he
      · exact fun he => ⟨_, he, rfl⟩
    | succ j =>
      have hindex : i + (j + 1) = i + 1 + j := by omega
      rw [List.getElem?_cons_succ, ← ih (i + 1) j, hindex]
      refine or_iff_right ?_
      rintro ⟨e, _, heq⟩
      have : i = i + 1 + j := (List.cons.inj (Prod.mk.inj heq).1).1
      omega

/-- **A node and the rows below it are the row of the node.** -/
theorem inPreorder_node {root : ν} (h : List.Forall₂ (RowOf children) (children root) rows) :
    RowOf children root (([], root) :: sideBySide 0 rows) where
  ordered := by
    refine List.pairwise_cons.mpr ⟨fun e he => ?_, pairwise_sideBySide h 0⟩
    obtain ⟨j, address, _, he⟩ := exists_index_of_mem he
    rw [he]
    exact List.nil_lt_cons j address
  mem_iff address n := by
    rw [List.mem_cons]
    cases address with
    | nil =>
      have hbelow : ([], n) ∉ sideBySide 0 rows := fun hmem => by
        obtain ⟨_, _, _, he⟩ := exists_index_of_mem hmem
        cases he
      rw [or_iff_left hbelow, nodeAt, Prod.mk.injEq, Option.some.injEq, eq_comm (a := n)]
      exact and_iff_right rfl
    | cons j address =>
      have hroot : (j :: address, n) ≠ ([], root) := fun he => by cases he
      have hmem := mem_sideBySide h 0 j address n
      rw [Nat.zero_add] at hmem
      rw [or_iff_right hroot, hmem, nodeAt]

end Rows

/-! ## 3. A row of depths says the addresses -/

/-- Addresses from left to right. With an address there is that of the node above it, and those of
    the nodes to the left of it below the same node. -/
structure Grown (addresses : List (List Nat)) : Prop where
  ordered : addresses.Pairwise (· < ·)
  above : ∀ a i, a ++ [i] ∈ addresses → a ∈ addresses
  left : ∀ a i j, a ++ [i] ∈ addresses → j < i → a ++ [j] ∈ addresses

/-- Of two addresses of equal length the first one comes first above already, or both are below the
    same node. -/
theorem above_lt_or_eq {a b : List Nat} {i j : Nat} (hlength : a.length = b.length)
    (h : a ++ [i] < b ++ [j]) : a ++ [i] < b ∨ a = b ∧ i < j := by
  induction a generalizing b with
  | nil =>
    rw [List.eq_nil_of_length_eq_zero hlength.symm] at h ⊢
    rcases List.cons_lt_cons_iff.mp h with hij | ⟨_, hnil⟩
    · exact .inr ⟨rfl, hij⟩
    · exact absurd hnil (List.lt_irrefl [])
  | cons x a ih =>
    cases b with
    | nil => cases hlength
    | cons y b =>
      rw [List.cons_append, List.cons_append, List.cons_lt_cons_iff] at h
      rw [List.cons_append, List.cons_lt_cons_iff]
      rcases h with hxy | ⟨rfl, hlt⟩
      · exact .inl (.inl hxy)
      · rcases ih (Nat.succ.inj hlength) hlt with hlt | ⟨rfl, hij⟩
        · exact .inl (.inr ⟨rfl, hlt⟩)
        · exact .inr ⟨rfl, hij⟩

/-- What comes before an address stands in front of it. -/
theorem mem_front_of_lt {front behind : List (List Nat)} {a b : List Nat}
    (h : (front ++ a :: behind).Pairwise (· < ·)) (hb : b ∈ front ++ a :: behind) (hlt : b < a) :
    b ∈ front := by
  obtain ⟨_, hbehind, _⟩ := List.pairwise_append.mp h
  rcases List.mem_append.mp hb with hb | hb
  · exact hb
  · rcases List.mem_cons.mp hb with rfl | hb
    · exact absurd hlt (List.lt_irrefl b)
    · exact absurd (List.lt_trans hlt ((List.pairwise_cons.mp hbehind).1 b hb)) (List.lt_irrefl b)

section Grown

variable {front behind behind' : List (List Nat)} {a a' : List Nat}

/-- Behind the same addresses, an address cannot come before another one of its length. -/
theorem Grown.not_lt (h : Grown (front ++ a :: behind)) (h' : Grown (front ++ a' :: behind'))
    (hlength : a.length = a'.length) : ¬a < a' := by
  intro hlt
  have hfront : ∀ b ∈ front, b < a := fun b hb =>
    (List.pairwise_append.mp h.ordered).2.2 b hb a List.mem_cons_self
  have ha' : a' ∈ front ++ a' :: behind' := List.mem_append_right _ List.mem_cons_self
  rcases List.eq_nil_or_concat' a with rfl | ⟨b, i, rfl⟩
  · rw [List.eq_nil_of_length_eq_zero hlength.symm] at hlt
    exact List.lt_irrefl _ hlt
  · rcases List.eq_nil_or_concat' a' with rfl | ⟨b', j, rfl⟩
    · exact List.not_lt_nil _ hlt
    · -- `a` is passed over by what stands above `a'`, or it is to the left of `a'` itself
      simp only [List.length_append, List.length_singleton, Nat.add_right_cancel_iff] at hlength
      rcases above_lt_or_eq hlength hlt with habove | ⟨rfl, hij⟩
      · have hparent : b' ++ [] < b' ++ [j] := List.append_left_lt (List.nil_lt_cons j [])
        rw [List.append_nil] at hparent
        have hmem := mem_front_of_lt h'.ordered (h'.above b' j ha') hparent
        exact List.lt_irrefl _ (List.lt_trans habove (hfront b' hmem))
      · have hmem := mem_front_of_lt h'.ordered (h'.left b j i ha' hij) hlt
        exact List.lt_irrefl _ (hfront _ hmem)

theorem Grown.eq_of_lengths (h : Grown (front ++ behind)) (h' : Grown (front ++ behind'))
    (hlengths : behind.map List.length = behind'.map List.length) : behind = behind' := by
  induction behind generalizing front behind' with
  | nil => exact (List.map_eq_nil_iff.mp hlengths.symm).symm
  | cons a behind ih =>
    cases behind' with
    | nil => cases hlengths
    | cons a' behind' =>
      obtain ⟨hlength, hrest⟩ := List.cons.inj hlengths
      have hsame : a = a' :=
        List.le_antisymm (h'.not_lt h hlength.symm) (h.not_lt h' hlength)
      rw [← hsame] at h' ⊢
      rw [List.append_cons] at h h'
      rw [ih h h' hrest]

end Grown

/-! ## 4. Trees that say the same -/

section Agree

variable {β : Type} {children : ν → List ν} {label : ν → β} {root root' : ν}
  {row row' : List (List Nat × ν)}

theorem nodeAt_append (n : ν) (a b : List Nat) :
    nodeAt children n (a ++ b) = (nodeAt children n a).bind fun m => nodeAt children m b := by
  induction a generalizing n with
  | nil => rfl
  | cons i a ih =>
    rw [List.cons_append, nodeAt, nodeAt, Option.bind_assoc]
    exact Option.bind_congr fun child _ => ih child

theorem InPreorder.mem_addresses_iff (h : RowOf children root row) (a : List Nat) :
    a ∈ row.map Prod.fst ↔ ∃ n, nodeAt children root a = some n := by
  rw [List.mem_map]
  constructor
  · intro hmem
    obtain ⟨⟨_, n⟩, hn, rfl⟩ := hmem
    exact ⟨n, (h.mem_iff _ n).mp hn⟩
  · intro hnode
    obtain ⟨n, hn⟩ := hnode
    exact ⟨(a, n), (h.mem_iff a n).mpr hn, rfl⟩

theorem nodeAt_concat (n : ν) (a : List Nat) (i : Nat) :
    nodeAt children n (a ++ [i]) = (nodeAt children n a).bind fun m => (children m)[i]? := by
  rw [nodeAt_append]
  refine Option.bind_congr fun m _ => ?_
  cases hm : (children m)[i]? <;> simp [nodeAt, hm]

/-- The addresses of a tree. -/
theorem InPreorder.grown (h : RowOf children root row) : Grown (row.map Prod.fst) where
  ordered := List.pairwise_map.mpr h.ordered
  above a i hmem := by
    obtain ⟨n, hn⟩ := (h.mem_addresses_iff _).mp hmem
    rw [nodeAt_concat] at hn
    obtain ⟨m, hm, _⟩ := Option.bind_eq_some_iff.mp hn
    exact (h.mem_addresses_iff a).mpr ⟨m, hm⟩
  left a i j hmem hji := by
    obtain ⟨n, hn⟩ := (h.mem_addresses_iff _).mp hmem
    rw [nodeAt_concat] at hn
    obtain ⟨m, hm, hi⟩ := Option.bind_eq_some_iff.mp hn
    obtain ⟨hlt, _⟩ := List.getElem?_eq_some_iff.mp hi
    refine (h.mem_addresses_iff _).mpr ⟨(children m)[j], ?_⟩
    rw [nodeAt_concat, hm, Option.bind_some, List.getElem?_eq_getElem]

/-- The nodes of two trees say the same at every address. -/
def Agree (children : ν → List ν) (label : ν → β) (root root' : ν) : Prop :=
  ∀ address, (nodeAt children root address).map label = (nodeAt children root' address).map label

theorem Agree.label_eq (h : Agree children label root root') : label root = label root' :=
  Option.some.inj (h [])

/-- What is directly below agrees one by one. -/
theorem Agree.below (h : Agree children label root root') :
    List.Forall₂ (Agree children label) (children root) (children root') := by
  have hchild : ∀ i address,
      ((children root)[i]?.bind fun child => nodeAt children child address).map label =
        ((children root')[i]?.bind fun child => nodeAt children child address).map label :=
    fun i address => h (i :: address)
  have hlength : (children root).length = (children root').length := by
    refine Nat.le_antisymm (Nat.le_of_not_lt fun hlt => ?_) (Nat.le_of_not_lt fun hlt => ?_)
    · have hnone := hchild (children root').length []
      rw [List.getElem?_eq_getElem hlt, List.getElem?_eq_none (Nat.le_refl _)] at hnone
      cases hnone
    · have hnone := hchild (children root).length []
      rw [List.getElem?_eq_getElem hlt, List.getElem?_eq_none (Nat.le_refl _)] at hnone
      cases hnone
  refine List.forall₂_iff_get.mpr ⟨hlength, fun i hi hi' address => ?_⟩
  have hsame := hchild i address
  rw [List.getElem?_eq_getElem hi, List.getElem?_eq_getElem hi'] at hsame
  exact hsame

/-- A row tells what is said at which address. -/
theorem InPreorder.mem_labels_iff (h : RowOf children root row) (address : List Nat) (y : β) :
    (address, y) ∈ row.map (fun e => (e.1, label e.2)) ↔
      (nodeAt children root address).map label = some y := by
  rw [List.mem_map, Option.map_eq_some_iff]
  constructor
  · intro hmem
    obtain ⟨⟨_, n⟩, hn, heq⟩ := hmem
    obtain ⟨rfl, rfl⟩ := Prod.mk.inj heq
    exact ⟨n, (h.mem_iff _ n).mp hn, rfl⟩
  · intro hnode
    obtain ⟨n, hn, rfl⟩ := hnode
    exact ⟨(address, n), (h.mem_iff address n).mpr hn, rfl⟩

/-- **A row of depths says its tree**: where the nodes of two trees, in preorder, are equally deep
    and say the same, the trees agree. -/
theorem agree_of_rows (h : RowOf children root row) (h' : RowOf children root' row')
    (hdepths : row.map (fun e => e.1.length) = row'.map fun e => e.1.length)
    (hlabels : row.map (fun e => label e.2) = row'.map fun e => label e.2) :
    Agree children label root root' := by
  have hgrown : Grown ([] ++ row.map Prod.fst) := h.grown
  have hgrown' : Grown ([] ++ row'.map Prod.fst) := h'.grown
  have haddresses : row.map Prod.fst = row'.map Prod.fst := by
    refine hgrown.eq_of_lengths hgrown' ?_
    rw [List.map_map, List.map_map]
    exact hdepths
  have hsame : row.map (fun e => (e.1, label e.2)) = row'.map fun e => (e.1, label e.2) := by
    rw [← List.zip_map', ← List.zip_map', hlabels]
    exact congrArg (List.zip · _) haddresses
  intro address
  refine Option.ext fun y => ?_
  rw [← h.mem_labels_iff, ← h'.mem_labels_iff, hsame]

end Agree

end CMinus
