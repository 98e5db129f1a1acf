import FtIrc.Sources
import Mathlib.Algebra.Order.BigOperators.Group.List
import Mathlib.Algebra.Order.Group.Nat

/-!
# What a parsed line is made of

The pieces `Parser::parse` returns are pieces of the line: together with their separators they
are no longer than it, they have no byte it has not, and all but the last are words. With
what `extractLine` lets through this bounds everything a client can say in one line.
-/

namespace FtIrc

open Bytes

/-- A line as `extractLine` passes it on: with a line feed at most 512 bytes, and no control byte
of the framing. -/
structure AcceptedLine (line : Str) : Prop where
  length_le : line.length ≤ 511
  clean : ∀ b ∈ line, b ≠ nul ∧ b ≠ cr ∧ b ≠ lf

theorem mem_of_mem_dropFinalCr {s : Str} {b : Byte} (h : b ∈ dropFinalCr s) : b ∈ s := by
  unfold dropFinalCr at h
  split_ifs at h
  · exact List.dropLast_subset _ h
  · exact h

theorem length_dropFinalCr_le (s : Str) : (dropFinalCr s).length ≤ s.length := by
  unfold dropFinalCr
  split_ifs
  · rw [List.length_dropLast]
    omega
  · exact le_rfl

/-- What `extractLine` checks. -/
theorem Client.acceptedLine {x x' : Client} {line : Str} (h : x.extractLine = (x', some line)) :
    AcceptedLine line := by
  unfold extractLine at h
  split at h
  · cases h
  next before after hcut =>
  dsimp only at h
  split_ifs at h with hsize hcontrol
  · cases h
  · cases h
  obtain ⟨-, hline⟩ := Prod.mk.inj h
  rw [← Option.some_inj.mp hline]
  have hlf := (cut_singleton_eq_some.mp hcut).2
  refine ⟨?_, fun b hb => ⟨?_, ?_, ?_⟩⟩
  · have hle := length_dropFinalCr_le before
    simp only [maxIrcMessageSize] at hsize
    omega
  · rintro rfl
    exact hcontrol (List.any_eq_true.mpr ⟨nul, hb, by decide⟩)
  · rintro rfl
    exact hcontrol (List.any_eq_true.mpr ⟨cr, hb, by decide⟩)
  · rintro rfl
    exact hlf (mem_of_mem_dropFinalCr hb)

namespace Message

/-- The bytes the parameters take, each with a separator in front. -/
def paramsLength (m : Message) : ℕ := (m.params.map fun p => p.length + 1).sum

end Message

/-- How a message is made of the pieces of a line. -/
structure Parser.PiecesOf (line : Str) (m : Message) : Prop where
  length_le : m.command.length + m.paramsLength ≤ line.length
  command_mem : ∀ b ∈ m.command, ∃ a ∈ line, b = toUpper a
  params_mem : ∀ p ∈ m.params, ∀ b ∈ p, b ∈ line
  middle : ∀ p ∈ m.params.dropLast, p ≠ [] ∧ ∀ b ∈ p, isSpace b = false

namespace Parser

/-- The message of the words in front of the trailing part. -/
def assemble (ws trailing : List Str) : Message :=
  match ws with
  | [] => {}
  | word :: rest =>
    if word.head? = some colon then
      { origin := word.tail, command := (rest.headD []).map toUpper, params := rest.tail ++ trailing }
    else { command := word.map toUpper, params := rest ++ trailing }

theorem parse_eq (line : Str) :
    parse line = if dropFinalCr line = [] then {}
      else match cut (lit " :") (dropFinalCr line) with
        | some (base, rest) => assemble (words base) [rest]
        | none => assemble (words (dropFinalCr line)) [] := by
  unfold parse assemble
  dsimp only
  split_ifs
  · rfl
  · cases cut (lit " :") (dropFinalCr line) <;> rfl

theorem piecesOf_nil (line : Str) : PiecesOf line {} where
  length_le := Nat.zero_le _
  command_mem _ h := absurd h List.not_mem_nil
  params_mem _ h := absurd h List.not_mem_nil
  middle _ h := absurd h List.not_mem_nil

/-- The pieces of a line of words and at most one trailing part. -/
theorem piecesOf_assemble {line base : Str} {trailing : List Str} (hone : trailing = [] ∨ ∃ t, trailing = [t])
    (hlen : base.length + (trailing.map fun t => t.length + 2).sum ≤ line.length)
    (hbase : ∀ b ∈ base, b ∈ line) (htrailing : ∀ t ∈ trailing, ∀ b ∈ t, b ∈ line) :
    PiecesOf line (assemble (words base) trailing) := by
  have hwords : ∀ w ∈ words base, w ≠ [] ∧ ∀ b ∈ w, isSpace b = false ∧ b ∈ line := fun w hw =>
    ⟨(of_mem_words hw).1, fun b hb => ⟨((of_mem_words hw).2 b hb).1, hbase b ((of_mem_words hw).2 b hb).2⟩⟩
  have hsum := sum_length_words_le base
  have htrailingSum : (trailing.map fun t => t.length + 1).sum + trailing.length
      = (trailing.map fun t => t.length + 2).sum := by
    rcases hone with rfl | ⟨t, rfl⟩
    · rfl
    · simp only [List.map_cons, List.map_nil, List.sum_cons, List.sum_nil, List.length_singleton]
      omega
  -- the parameters are words and the trailing part, and the last of them may be the latter
  have hparams : ∀ rest, (∀ w ∈ rest, w ∈ words base) →
      (∀ p ∈ rest ++ trailing, ∀ b ∈ p, b ∈ line)
        ∧ ∀ p ∈ (rest ++ trailing).dropLast, p ≠ [] ∧ ∀ b ∈ p, isSpace b = false := by
    intro rest hrest
    refine ⟨fun p hp b hb => ?_, fun p hp => ?_⟩
    · rcases List.mem_append.mp hp with hp | hp
      · exact ((hwords p (hrest p hp)).2 b hb).2
      · exact htrailing p hp b hb
    · have hp' : p ∈ rest := by
        rcases hone with rfl | ⟨t, rfl⟩
        · rw [List.append_nil] at hp
          exact List.dropLast_subset _ hp
        · rwa [List.dropLast_concat] at hp
      exact ⟨(hwords p (hrest p hp')).1, fun b hb => ((hwords p (hrest p hp')).2 b hb).1⟩
  unfold assemble
  cases hws : words base with
  | nil => exact piecesOf_nil line
  | cons word rest =>
    rw [hws] at hwords hparams hsum
    rw [List.map_cons, List.sum_cons] at hsum
    have hword := hwords word List.mem_cons_self
    dsimp only
    split_ifs
    · have hlength : 0 < word.length := List.length_pos_iff.mpr hword.1
      obtain ⟨hmem, hmiddle⟩ := hparams rest.tail fun w hw =>
        List.mem_cons_of_mem word (List.mem_of_mem_tail hw)
      refine ⟨?_, ?_, hmem, hmiddle⟩
      · cases rest with
        | nil =>
          simp only [Message.paramsLength, List.headD_nil, List.tail_nil, List.nil_append,
            List.map_nil, List.length_nil, List.sum_nil] at hsum ⊢
          omega
        | cons command rest =>
          simp only [Message.paramsLength, List.headD_cons, List.tail_cons, List.map_append,
            List.sum_append, List.length_map, List.map_cons, List.sum_cons] at hsum ⊢
          omega
      · intro b hb
        obtain ⟨a, ha, rfl⟩ := List.mem_map.mp hb
        cases rest with
        | nil => exact absurd ha List.not_mem_nil
        | cons command rest =>
          exact ⟨a, ((hwords command (List.mem_cons_of_mem _ List.mem_cons_self)).2 a ha).2, rfl⟩
    · obtain ⟨hmem, hmiddle⟩ := hparams rest fun w hw => List.mem_cons_of_mem word hw
      refine ⟨?_, ?_, hmem, hmiddle⟩
      · simp only [Message.paramsLength, List.map_append, List.sum_append, List.length_map]
        omega
      · intro b hb
        obtain ⟨a, ha, rfl⟩ := List.mem_map.mp hb
        exact ⟨a, (hword.2 a ha).2, rfl⟩

/-- The parser takes a line apart. -/
theorem piecesOf_parse (line : Str) : PiecesOf line (parse line) := by
  have hle := length_dropFinalCr_le line
  rw [parse_eq]
  split_ifs
  · exact piecesOf_nil line
  split
  · next base rest hcut =>
    have hline := eq_of_cut hcut
    have hlit : (lit " :").length = 2 := by decide
    have hmem : ∀ b ∈ base ++ rest, b ∈ line := by
      intro b hb
      refine mem_of_mem_dropFinalCr ?_
      rw [hline]
      rcases List.mem_append.mp hb with hb | hb
      · exact List.mem_append_left _ (List.mem_append_left _ hb)
      · exact List.mem_append_right _ hb
    refine piecesOf_assemble (.inr ⟨rest, rfl⟩) ?_ (fun b hb => hmem b (List.mem_append_left _ hb)) ?_
    · rw [hline, List.length_append, List.length_append, hlit] at hle
      simp only [List.map_cons, List.map_nil, List.sum_cons, List.sum_nil]
      omega
    · intro t ht b hb
      rw [List.mem_singleton.mp ht] at hb
      exact hmem b (List.mem_append_right _ hb)
  · exact piecesOf_assemble (.inl rfl) hle (fun b hb => mem_of_mem_dropFinalCr hb)
      fun _ ht => absurd ht List.not_mem_nil

end Parser

end FtIrc
