import CMinus.Proofs.Accepted
import CMinus.Proofs.Legible

/-!
# Respelled: tokens written out and scanned again

Tokens are written with one blank between two of them, each as messages show it. The table of
spellings and the patterns of the scanner are kept apart, but they agree: what is scanned from a
text can be spelled, and what can be spelled is scanned back from its spelling (`scan_respelled`).
A blank ends every token, so no token runs on into the one behind it.
-/

namespace CMinus

open Grammar

/-- The spellings of tokens, with one blank between two of them. -/
def respelled (ts : List Token) : String :=
  " ".intercalate (ts.map Token.spelling)

/-- The same text in pieces. -/
def apart : List Token → List Piece
  | [] => []
  | [t] => [.word t]
  | t :: u :: ts => .word t :: .blank :: apart (u :: ts)

theorem join_apart (ts : List Token) : Piece.join (apart ts) = respelled ts := by
  fun_induction apart ts with
  | case1 => rfl
  | case2 t =>
    have hjoin : Piece.join [.word t] = t.spelling ++ "" := String.join_cons
    rw [hjoin, String.append_empty]
    exact String.intercalate_singleton.symm
  | case3 t u ts ih =>
    rw [respelled, List.map_cons, List.map_cons, String.intercalate_cons_cons, ← List.map_cons,
      ← respelled, ← ih, String.append_assoc]
    exact String.join_cons.trans (congrArg (t.spelling ++ ·) String.join_cons)

theorem words_apart (ts : List Token) : Piece.words (apart ts) = ts := by
  fun_induction apart ts with
  | case1 => rfl
  | case2 t => rfl
  | case3 t u ts ih => exact congrArg (t :: ·) ih

theorem legible_apart {ts : List Token} (h : AllSpellable ts) : Piece.Legible (apart ts) [] := by
  fun_induction apart ts with
  | case1 => trivial
  | case2 t =>
    have hend : Breaks (Piece.chars [] ++ []) := fun c hc => by cases hc
    exact (Piece.legible_word hend).mpr ⟨h t List.mem_cons_self, trivial⟩
  | case3 t u ts ih =>
    obtain ⟨ht, hts⟩ := allSpellable_cons.mp h
    have hbreak : Breaks (Piece.chars (.blank :: apart (u :: ts)) ++ []) := by
      rw [Piece.chars_cons, List.append_assoc]
      exact Piece.breaks_append rfl _
    exact (Piece.legible_word hbreak).mpr ⟨ht, Piece.legible_blank.mpr (ih hts)⟩

/-- What can be spelled is scanned back. -/
theorem scan_of_spellable {ts : List Token} (h : AllSpellable ts) (o : Options) :
    Parse.tokensOf (scan (respelled ts) o).1 = ts ∧ (scan (respelled ts) o).2 = [] := by
  have hscan := scan_of_legible (legible_apart h) o
  rwa [words_apart, join_apart] at hscan

/-- **Spelling and scanning are inverse.** All scanned tokens can be spelled; the tokens that can be
    spelled are those that are scanned back from their spellings, without a diagnostic; and so are
    the tokens of every source, under whatever options they were and are scanned. -/
theorem scan_respelled :
    (∀ source o, AllSpellable (Parse.tokensOf (scan source o).1)) ∧
    (∀ ts o, AllSpellable ts ↔
      Parse.tokensOf (scan (respelled ts) o).1 = ts ∧ (scan (respelled ts) o).2 = []) ∧
    ∀ source o o',
      Parse.tokensOf (scan (respelled (Parse.tokensOf (scan source o).1)) o').1 =
          Parse.tokensOf (scan source o).1 ∧
        (scan (respelled (Parse.tokensOf (scan source o).1)) o').2 = [] := by
  refine ⟨scan_spellable, fun ts o => ⟨fun h => scan_of_spellable h o, fun h => ?_⟩,
    fun source o o' => scan_of_spellable (scan_spellable source o) o'⟩
  rw [← h.1]
  exact scan_spellable _ o

/-- A name that starts with a keyword, two symbols that would be one without the blank, the largest
    whole number, the smallest positive fraction and a text with a quote in it. -/
theorem scan_respelled_mixed :
    Parse.tokensOf (scan (respelled [.ident "iffy", .symbol .assign, .symbol .equal,
        .int 9223372036854775807, .float ⟨1⟩, .string "it's", .keyword .ifKw]) {}).1 =
      [.ident "iffy", .symbol .assign, .symbol .equal, .int 9223372036854775807, .float ⟨1⟩,
        .string "it's", .keyword .ifKw] := by
  refine ((scan_respelled.2.1 _ {}).mp ?_).1
  unfold AllSpellable
  decide +kernel

end CMinus
