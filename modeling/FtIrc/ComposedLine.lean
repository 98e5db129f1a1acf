import FtIrc.ParsedLine

/-!
# Lines put together from words

What `Parser::parse` makes of a line that is written as a first word, more words behind single
blanks, and perhaps a trailing part. The cut is at the blank in front of the trailing part; a
word is read back as it was written unless it holds whitespace of another kind.
-/

namespace FtIrc

open Bytes

/-- Words, each with a blank in front. -/
def spaced (ws : List Str) : Str := ws.flatMap fun w => sp :: w

/-- A word in the middle of a line: it has no blank, and no colon in front. -/
structure Middle (w : Str) : Prop where
  sp_not_mem : sp ∉ w
  head_ne : w.head? ≠ some colon

/-- A text without whitespace of any kind. -/
def Unspaced (text : Str) : Prop := ∀ b ∈ text, isSpace b = false

instance (text : Str) : Decidable (Unspaced text) := List.decidableBAll _ text

/-- A word that stays one word, and the same, in the middle of a line. -/
structure Whole (w : Str) : Prop where
  ne_nil : w ≠ []
  unspaced : Unspaced w
  head_ne : w.head? ≠ some colon

theorem Whole.middle {w : Str} (h : Whole w) : Middle w :=
  ⟨fun hmem => ne_sp_of_not_isSpace (h.unspaced sp hmem) rfl, h.head_ne⟩

theorem Whole.words_eq {w : Str} (h : Whole w) : words w = [w] :=
  words_of_not_isSpace h.unspaced h.ne_nil

@[simp] theorem spaced_nil : spaced [] = [] := rfl

@[simp] theorem spaced_cons (w : Str) (ws : List Str) : spaced (w :: ws) = sp :: w ++ spaced ws := rfl

theorem mem_spaced {ws : List Str} {b : Byte} (h : b ∈ spaced ws) : b = sp ∨ ∃ w ∈ ws, b ∈ w := by
  obtain ⟨w, hw, hb⟩ := List.mem_flatMap.mp h
  rcases List.mem_cons.mp hb with heq | hb
  · exact Or.inl heq
  · exact Or.inr ⟨w, hw, hb⟩

/-- Behind words there is no colon: there is a blank, or what comes next. -/
theorem head_spaced_append {rest : Str} (hrest : rest.head? ≠ some colon) (ws : List Str) :
    (spaced ws ++ rest).head? ≠ some colon := by
  cases ws with
  | nil => exact hrest
  | cons w ws =>
    show some sp ≠ some colon
    decide

/-! ## The cut -/

/-- The trailing part of a line does not begin in front of a middle word. -/
theorem Middle.cut_eq {w : Str} (hw : Middle w) {rest : Str} (hrest : rest.head? ≠ some colon) :
    cut (lit " :") (sp :: w ++ rest)
      = (cut (lit " :") rest).map fun p => (sp :: w ++ p.1, p.2) := by
  have hlit : lit " :" = [sp, colon] := by decide
  have hnot : ¬ [sp, colon] <+: sp :: (w ++ rest) := by
    rintro ⟨tail, heq⟩
    have htail : colon :: tail = w ++ rest := (List.cons.inj heq).2
    have hhead : (w ++ rest).head? = some colon := by
      rw [← htail]
      rfl
    cases w with
    | nil => exact hrest hhead
    | cons b w => exact hw.head_ne hhead
  rw [hlit, List.cons_append, cut_cons_of_not_isPrefix hnot, cut_append hw.sp_not_mem]
  rw [Option.map_map]
  rfl

theorem cut_spaced {ws : List Str} (hws : ∀ w ∈ ws, Middle w) {rest : Str}
    (hrest : rest.head? ≠ some colon) :
    cut (lit " :") (spaced ws ++ rest)
      = (cut (lit " :") rest).map fun p => (spaced ws ++ p.1, p.2) := by
  induction ws with
  | nil =>
    exact Option.map_id'.symm
  | cons w ws ih =>
    have htail := ih fun v hv => hws v (List.mem_cons_of_mem w hv)
    rw [spaced_cons, List.append_assoc,
      (hws w List.mem_cons_self).cut_eq (head_spaced_append hrest ws), htail, Option.map_map]
    simp only [Function.comp_def, List.append_assoc]

/-! ## The words -/

theorem words_append_spaced (first : Str) (ws : List Str) :
    words (first ++ spaced ws) = words first ++ ws.flatMap words := by
  induction ws generalizing first with
  | nil => rw [spaced_nil, List.append_nil, List.flatMap_nil, List.append_nil]
  | cons w ws ih =>
    show words (first ++ sp :: (w ++ spaced ws)) = _
    rw [words_append_cons isSpace_sp, ih w]
    rfl

/-- A text is one word, and the whole of it, when it has no whitespace. -/
theorem words_eq_singleton_iff {w : Str} :
    words w = [w] ↔ w ≠ [] ∧ ∀ b ∈ w, isSpace b = false := by
  constructor
  · intro h
    have hw : w ∈ words w := by
      rw [h]
      exact List.mem_singleton_self w
    obtain ⟨hne, hunspaced⟩ := of_mem_words hw
    exact ⟨hne, fun b hb => (hunspaced b hb).1⟩
  · intro h
    exact words_of_not_isSpace h.2 h.1

/-- A text that starts with a byte of a word has a word. -/
theorem words_ne_nil {b : Byte} (hb : isSpace b = false) (rest : Str) : words (b :: rest) ≠ [] := by
  obtain ⟨piece, pieces, hsplit⟩ := List.exists_cons_of_ne_nil (List.splitOnP_ne_nil isSpace rest)
  rw [words, List.splitOnP_cons_eq_if_modifyHead, if_neg (by rw [hb]; decide), hsplit,
    List.modifyHead_cons, List.filter_cons_of_pos (by rfl)]
  exact List.cons_ne_nil _ _

/-- Words without whitespace are read back. -/
theorem flatMap_words {ws : List Str} (h : ∀ w ∈ ws, w ≠ [] ∧ ∀ b ∈ w, isSpace b = false) :
    ws.flatMap words = ws := by
  induction ws with
  | nil => rfl
  | cons w ws ih =>
    rw [List.flatMap_cons, words_eq_singleton_iff.mpr (h w List.mem_cons_self),
      ih fun v hv => h v (List.mem_cons_of_mem w hv)]
    rfl

/-! ## The line -/

theorem dropFinalCr_of_not_mem {s : Str} (h : cr ∉ s) : dropFinalCr s = s :=
  if_neg fun hlast => h (List.mem_of_getLast? hlast)

namespace Parser

variable {first : Str} {ws : List Str}

theorem parse_spaced (hne : first ≠ []) (hfirst : sp ∉ first) (hws : ∀ w ∈ ws, Middle w)
    (hcr : cr ∉ first ++ spaced ws) :
    parse (first ++ spaced ws) = assemble (words first ++ ws.flatMap words) [] := by
  have hcut : cut (lit " :") (first ++ spaced ws) = none := by
    have hlit : lit " :" = sp :: [colon] := by decide
    have hend : ([] : Str).head? ≠ some colon := by decide
    have htail := cut_spaced hws hend
    rw [List.append_nil] at htail
    rw [hlit, cut_append hfirst, ← hlit, htail]
    rfl
  have hline : first ++ spaced ws ≠ [] := List.append_ne_nil_of_left_ne_nil hne _
  rw [parse_eq, dropFinalCr_of_not_mem hcr, if_neg hline, hcut, words_append_spaced]

theorem parse_spaced_trailing (hfirst : sp ∉ first) (hws : ∀ w ∈ ws, Middle w) {trailing : Str}
    (hcr : cr ∉ first ++ spaced ws ++ lit " :" ++ trailing) :
    parse (first ++ spaced ws ++ lit " :" ++ trailing)
      = assemble (words first ++ ws.flatMap words) [trailing] := by
  have hlit : lit " :" = sp :: [colon] := by decide
  have hcut : cut (lit " :") (first ++ spaced ws ++ lit " :" ++ trailing)
      = some (first ++ spaced ws, trailing) := by
    have hlast : cut (sp :: [colon]) ([] ++ sp :: ([colon] ++ trailing)) = some ([], trailing) :=
      cut_append_of_not_mem List.not_mem_nil [colon] trailing
    have hblank : (lit " :" ++ trailing).head? ≠ some colon := by
      rw [hlit]
      show some sp ≠ some colon
      decide
    have htail := cut_spaced hws hblank
    rw [List.append_assoc, List.append_assoc]
    rw [hlit] at htail ⊢
    rw [cut_append hfirst, htail]
    show ((cut (sp :: [colon]) ([] ++ sp :: ([colon] ++ trailing))).map _).map _ = _
    rw [hlast]
    show some (first ++ (spaced ws ++ []), trailing) = _
    rw [List.append_nil]
  have hne : first ++ spaced ws ++ lit " :" ++ trailing ≠ [] := by
    rw [hlit]
    exact List.append_ne_nil_of_left_ne_nil
      (List.append_ne_nil_of_right_ne_nil _ (List.cons_ne_nil _ _)) _
  rw [parse_eq, dropFinalCr_of_not_mem hcr, if_neg hne, hcut]
  show assemble (words (first ++ spaced ws)) [trailing] = _
  rw [words_append_spaced]

end Parser

end FtIrc
