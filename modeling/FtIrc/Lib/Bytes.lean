import Mathlib.Algebra.GroupWithZero.Nat
import Mathlib.Data.List.Infix
import Mathlib.Data.List.Lex
import Mathlib.Data.List.Basic
import Mathlib.Order.Defs.LinearOrder
import Mathlib.Tactic.SplitIfs
import Mathlib.Tactic.Lemma

/-!
# Byte strings

The byte strings of a C++ program as lists of bytes: string literals, the character
classes of the C locale, and the search and split operations a line protocol is built
from. `cut` is `std::string::find` together with the two `substr` calls that follow it,
`words` is the loop over `stream >> word`, `fields` the loop over `std::getline` with a
delimiter when empty pieces are skipped.
-/

/-- A byte, the C++ `char`. -/
abbrev Byte := UInt8

/-- A byte string, `std::string`. -/
abbrev Str := List Byte

/-- Bytes in the order of `unsigned char`, the one `std::string` compares by. -/
instance byteOrder : LinearOrder UInt8 where
  le_refl _ := UInt8.le_refl _
  le_trans _ _ _ := UInt8.le_trans
  le_antisymm _ _ := UInt8.le_antisymm
  le_total := UInt8.le_total
  lt_iff_le_not_ge _ _ := by simp only [UInt8.lt_iff_toNat_lt, UInt8.le_iff_toNat_le]; omega
  toDecidableLE := inferInstance

/-- The bytes of a string literal. -/
def lit (s : String) : Str := s.toUTF8.data.toList

/-- The byte of a character literal. -/
abbrev ch (c : Char) : Byte := c.toNat.toUInt8

namespace Bytes

abbrev nul : Byte := 0
abbrev tab : Byte := 9
abbrev lf : Byte := 10
abbrev cr : Byte := 13
abbrev sp : Byte := 32
abbrev comma : Byte := 44
abbrev colon : Byte := 58

/-! ## Character classes of the C locale -/

/-- `isspace`. -/
def isSpace (b : Byte) : Bool := b == 32 || (9 ≤ b && b ≤ 13)

/-- `isdigit`. -/
def isDigit (b : Byte) : Bool := 48 ≤ b && b ≤ 57

/-- `isalpha`. -/
def isAlpha (b : Byte) : Bool := (65 ≤ b && b ≤ 90) || (97 ≤ b && b ≤ 122)

/-- `toupper`. -/
def toUpper (b : Byte) : Byte := if 97 ≤ b ∧ b ≤ 122 then b - 32 else b

@[simp] theorem isSpace_sp : isSpace sp = true := rfl

theorem not_isSpace_of_any {s : Str} (h : s.any isSpace = false) : ∀ b ∈ s, isSpace b = false := by
  simpa using h

theorem ne_sp_of_not_isSpace {b : Byte} (h : isSpace b = false) : b ≠ sp := by
  rintro rfl
  simp at h

theorem ne_cr_of_not_isSpace {b : Byte} (h : isSpace b = false) : b ≠ cr := by
  rintro rfl
  exact absurd h (by decide)

end Bytes

/-! ## Cutting at the first occurrence of a pattern -/

section Cut

variable {α : Type} [DecidableEq α]

/-- The text before and the text after the first occurrence of `pat`. -/
def cut (pat : List α) : List α → Option (List α × List α)
  | [] => if pat.isEmpty then some ([], []) else none
  | x :: xs =>
    if pat.isPrefixOf (x :: xs) then some ([], (x :: xs).drop pat.length)
    else (cut pat xs).map fun p => (x :: p.1, p.2)

/-- `cut` takes a string apart: what it returns is the string, less the pattern. -/
theorem eq_of_cut {pat s before after : List α}
    (h : cut pat s = some (before, after)) : s = before ++ pat ++ after := by
  induction s generalizing before after with
  | nil =>
    simp only [cut, List.isEmpty_iff] at h
    split_ifs at h with hp
    simp only [Option.some.injEq, Prod.mk.injEq] at h
    rw [← h.1, ← h.2, hp]
    rfl
  | cons x xs ih =>
    simp only [cut, List.isPrefixOf_iff_prefix] at h
    split_ifs at h with hp
    · simp only [Option.some.injEq, Prod.mk.injEq] at h
      obtain ⟨t, ht⟩ := hp
      rw [← h.1, ← h.2, List.nil_append, ← ht, List.drop_left]
    · rw [Option.map_eq_some_iff] at h
      obtain ⟨⟨b', a'⟩, hcut, heq⟩ := h
      simp only [Prod.mk.injEq] at heq
      rw [← heq.1, ← heq.2, ih hcut]
      rfl

theorem cut_singleton_cons (d x : α) (xs : List α) :
    cut [d] (x :: xs)
      = if x = d then some ([], xs) else (cut [d] xs).map fun p => (x :: p.1, p.2) := by
  simp only [cut, List.isPrefixOf_iff_prefix]
  by_cases h : x = d
  · rw [if_pos h, if_pos (by rw [h]; exact List.prefix_append [d] xs)]
    rfl
  · rw [if_neg h, if_neg (by simpa using Ne.symm h)]

/-- A pattern that does not start at the head occurs in the tail. -/
theorem cut_cons_of_not_isPrefix {pat : List α} {x : α} {xs : List α} (h : ¬ pat <+: x :: xs) :
    cut pat (x :: xs) = (cut pat xs).map fun p => (x :: p.1, p.2) := by
  rw [cut, List.isPrefixOf_iff_prefix.not.mpr h |> Bool.eq_false_iff.mpr]
  rfl

/-- A pattern does not start in front of its first letter. -/
theorem cut_append {d : α} {l : List α} (hd : d ∉ l) (pat s : List α) :
    cut (d :: pat) (l ++ s) = (cut (d :: pat) s).map fun p => (l ++ p.1, p.2) := by
  induction l with
  | nil => exact Option.map_id'.symm
  | cons x l ih =>
    rw [List.mem_cons, not_or] at hd
    have hnot : ¬ d :: pat <+: x :: (l ++ s) := by
      rintro ⟨_, heq⟩
      exact hd.1 (List.cons.inj heq).1
    rw [List.cons_append, cut_cons_of_not_isPrefix hnot, ih hd.2, Option.map_map]
    rfl

/-- A pattern is found where its first letter stands for the first time. -/
theorem cut_append_of_not_mem {d : α} {l : List α} (hd : d ∉ l) (pat rest : List α) :
    cut (d :: pat) (l ++ d :: (pat ++ rest)) = some (l, rest) := by
  have hprefix : (d :: pat).isPrefixOf (d :: (pat ++ rest)) = true :=
    List.isPrefixOf_iff_prefix.mpr ⟨rest, rfl⟩
  rw [cut_append hd, cut, if_pos hprefix, List.length_cons, List.drop_succ_cons, List.drop_left,
    Option.map_some, List.append_nil]

/-- A pattern is found wherever it stands. -/
theorem cut_eq_none_iff {pat l : List α} (hne : pat ≠ []) :
    cut pat l = none ↔ ¬ pat <:+: l := by
  induction l with
  | nil =>
    rw [cut, if_neg (by simpa using hne), List.infix_nil]
    exact iff_of_true rfl hne
  | cons x l ih =>
    rw [List.infix_cons_iff, not_or]
    by_cases hprefix : pat <+: x :: l
    · rw [cut, if_pos (List.isPrefixOf_iff_prefix.mpr hprefix)]
      exact iff_of_false (Option.some_ne_none _) fun h => h.1 hprefix
    · rw [cut_cons_of_not_isPrefix hprefix, Option.map_eq_none_iff, ih]
      exact (and_iff_right hprefix).symm

/-- Cutting at a single delimiter fails exactly when the delimiter does not occur. -/
theorem cut_singleton_eq_none {d : α} {s : List α} : cut [d] s = none ↔ d ∉ s := by
  induction s with
  | nil => simp [cut]
  | cons x xs ih =>
    rw [cut_singleton_cons]
    by_cases h : x = d
    · simp [h]
    · simp [h, ih, Ne.symm h]

/-- Cutting at a single delimiter finds its first occurrence. -/
theorem cut_singleton_eq_some {d : α} {s l r : List α} :
    cut [d] s = some (l, r) ↔ s = l ++ d :: r ∧ d ∉ l := by
  induction s generalizing l with
  | nil => simp [cut]
  | cons x xs ih =>
    rw [cut_singleton_cons]
    by_cases h : x = d
    · subst h
      simp only [↓reduceIte, Option.some.injEq, Prod.mk.injEq]
      constructor
      · rintro ⟨rfl, rfl⟩
        exact ⟨rfl, List.not_mem_nil⟩
      · rintro ⟨hs, hl⟩
        cases l with
        | nil => exact ⟨rfl, (List.cons.inj hs).2⟩
        | cons y l => exact absurd (List.cons.inj hs).1 fun h => hl (h ▸ List.mem_cons_self)
    · simp only [h, ↓reduceIte, Option.map_eq_some_iff, Prod.mk.injEq, Prod.exists]
      constructor
      · rintro ⟨l', r', hcut, rfl, rfl⟩
        obtain ⟨rfl, hl⟩ := ih.mp hcut
        exact ⟨rfl, by simp [Ne.symm h, hl]⟩
      · rintro ⟨hs, hl⟩
        cases l with
        | nil => exact absurd (List.cons.inj hs).1 h
        | cons y l =>
          obtain ⟨rfl, rfl⟩ := List.cons.inj hs
          exact ⟨l, r, ih.mpr ⟨rfl, fun hd => hl (List.mem_cons_of_mem _ hd)⟩, rfl, rfl⟩

end Cut

/-! ## Pieces of a split -/

section Pieces

variable {α : Type} {p : α → Bool}

/-- A piece has no separator, and nothing the list has not. -/
theorem mem_splitOnP {s w : List α} (h : w ∈ s.splitOnP p) : ∀ b ∈ w, p b = false ∧ b ∈ s := by
  induction s generalizing w with
  | nil =>
    rw [List.splitOnP_nil, List.mem_singleton] at h
    rw [h]
    exact fun b hb => absurd hb List.not_mem_nil
  | cons x s ih =>
    have hlift : ∀ {w}, w ∈ s.splitOnP p → ∀ b ∈ w, p b = false ∧ b ∈ x :: s := fun hw b hb =>
      ⟨(ih hw b hb).1, List.mem_cons_of_mem x (ih hw b hb).2⟩
    obtain ⟨first, rest, hsplit⟩ := List.exists_cons_of_ne_nil (List.splitOnP_ne_nil p s)
    rw [List.splitOnP_cons_eq_if_modifyHead, hsplit, List.modifyHead_cons] at h
    split_ifs at h with hx
    · rcases List.mem_cons.mp h with rfl | h
      · exact fun b hb => absurd hb List.not_mem_nil
      · exact hlift (hsplit ▸ h)
    · rcases List.mem_cons.mp h with rfl | h
      · intro b hb
        rcases List.mem_cons.mp hb with rfl | hb
        · exact ⟨Bool.eq_false_iff.mpr hx, List.mem_cons_self⟩
        · exact hlift (hsplit ▸ List.mem_cons_self) b hb
      · exact hlift (hsplit ▸ List.mem_cons_of_mem _ h)

/-- Every separator ends a piece, and the end of the list the last one. -/
theorem sum_length_splitOnP (p : α → Bool) (s : List α) :
    ((s.splitOnP p).map fun w => w.length + 1).sum = s.length + 1 := by
  induction s with
  | nil => rfl
  | cons x s ih =>
    obtain ⟨first, rest, hsplit⟩ := List.exists_cons_of_ne_nil (List.splitOnP_ne_nil p s)
    rw [hsplit, List.map_cons, List.sum_cons] at ih
    rw [List.splitOnP_cons_eq_if_modifyHead, hsplit, List.modifyHead_cons]
    split_ifs <;> simp only [List.map_cons, List.sum_cons, List.length_cons, List.length_nil] <;> omega

/-- Some pieces are no longer than all of them. -/
theorem sum_length_filter_le (q : List α → Bool) (ws : List (List α)) :
    ((ws.filter q).map fun w => w.length + 1).sum ≤ (ws.map fun w => w.length + 1).sum := by
  induction ws with
  | nil => exact le_rfl
  | cons w ws ih =>
    rw [List.filter_cons]
    split_ifs <;> simp only [List.map_cons, List.sum_cons] <;> omega

end Pieces

/-! ## Words and fields -/

namespace Bytes

/-- The whitespace-separated words of a string, as `stream >> word` reads them. -/
def words (s : Str) : List Str := (s.splitOnP isSpace).filter fun w => !w.isEmpty

/-- The non-empty pieces of a string between the delimiters. -/
def fields (d : Byte) (s : Str) : List Str := (s.splitOn d).filter fun w => !w.isEmpty

/-- A word read in front of the rest of the text. -/
theorem words_append_space {w : Str} (hw : ∀ b ∈ w, isSpace b = false) (hne : w ≠ [])
    {b : Byte} (hb : isSpace b = true) (rest : Str) :
    words (w ++ b :: rest) = w :: words rest := by
  rw [words, List.splitOnP_append_cons_of_forall_mem hw b hb]
  simp [hne, words]

/-- Whitespace separates the words around it. -/
theorem words_append_cons {b : Byte} (hb : isSpace b = true) (s rest : Str) :
    words (s ++ b :: rest) = words s ++ words rest := by
  rw [words, List.splitOnP_append_cons s rest hb, List.filter_append]
  rfl

@[simp] theorem words_nil : words [] = [] := rfl

/-- A single word. -/
theorem words_of_not_isSpace {w : Str} (hw : ∀ b ∈ w, isSpace b = false) (hne : w ≠ []) :
    words w = [w] := by
  rw [words, List.splitOnP_eq_singleton hw]
  simp [hne]

/-- A word is not empty and has no whitespace. -/
theorem of_mem_words {s w : Str} (h : w ∈ words s) :
    w ≠ [] ∧ ∀ b ∈ w, isSpace b = false ∧ b ∈ s := by
  obtain ⟨hpiece, hne⟩ := List.mem_filter.mp h
  exact ⟨by simpa using hne, mem_splitOnP hpiece⟩

/-- With a separator behind each, the words take no more room than the text. -/
theorem sum_length_words_le (s : Str) : ((words s).map fun w => w.length + 1).sum ≤ s.length + 1 :=
  (sum_length_filter_le _ _).trans (sum_length_splitOnP isSpace s).le

/-- A field is not empty and has no delimiter. -/
theorem of_mem_fields {d : Byte} {s w : Str} (h : w ∈ fields d s) :
    w ≠ [] ∧ ∀ b ∈ w, b ≠ d ∧ b ∈ s := by
  obtain ⟨hpiece, hne⟩ := List.mem_filter.mp h
  rw [List.splitOn_eq_splitOnP] at hpiece
  refine ⟨by simpa using hne, fun b hb => ?_⟩
  have hb' := mem_splitOnP hpiece b hb
  exact ⟨by simpa using hb'.1, hb'.2⟩

/-- A single field. -/
theorem fields_of_not_mem {d : Byte} {s : Str} (hne : s ≠ []) (hd : d ∉ s) : fields d s = [s] := by
  rw [fields, List.splitOn_eq_singleton hd]
  simp [hne]

/-- A list of words, joined by a delimiter that is in none of them, is cut into those that are not
empty. -/
theorem fields_intercalate {d : Byte} {pieces : List Str} (h : ∀ w ∈ pieces, d ∉ w) :
    fields d (List.intercalate [d] pieces) = pieces.filter fun w => !w.isEmpty := by
  cases pieces with
  | nil => rfl
  | cons w ws => rw [fields, List.splitOn_intercalate d h (List.cons_ne_nil w ws)]

end Bytes
