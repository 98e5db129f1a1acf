import FtIrc.ComposedLine

/-!
# Messages written out

A message as a client may write it: an origin behind a colon, the command, parameters, and a last
parameter behind a colon, with any number of blanks from one up between them. `Parser::parse`
cuts the line at its first `" :"` before it looks for words, and still reads back what was
written.
-/

namespace FtIrc

open Bytes

/-! ## Blanks -/

/-- Blanks between two words, at least one. -/
def blanks (n : ℕ) : Str := List.replicate (n + 1) sp

/-- Blanks are the gaps between words of no length. -/
def padded (e : ℕ × Str) : List Str := List.replicate e.1 [] ++ [e.2]

theorem spaced_append (ws vs : List Str) : spaced (ws ++ vs) = spaced ws ++ spaced vs :=
  List.flatMap_append

theorem spaced_replicate_nil (n : ℕ) : spaced (List.replicate n []) = List.replicate n sp := by
  induction n with
  | zero => rfl
  | succ n ih =>
    rw [List.replicate_succ, spaced_cons, ih, List.replicate_succ]
    rfl

theorem spaced_padded (e : ℕ × Str) : spaced (padded e) = blanks e.1 ++ e.2 := by
  rw [padded, spaced_append, spaced_replicate_nil, spaced_cons, spaced_nil, List.append_nil, blanks,
    List.replicate_succ', List.append_assoc]
  rfl

theorem spaced_flatMap_padded (es : List (ℕ × Str)) :
    spaced (es.flatMap padded) = es.flatMap fun e => blanks e.1 ++ e.2 := by
  induction es with
  | nil => rfl
  | cons e es ih => rw [List.flatMap_cons, spaced_append, spaced_padded, ih, List.flatMap_cons]

/-! ## What is written -/

/-- A message with the blanks it is written with: those behind the origin, and those in front of
each parameter. -/
structure Rendering where
  origin : Option (Str × ℕ)
  command : Str
  middle : List (ℕ × Str)
  trailing : Option (ℕ × Str)
  origin_unspaced : ∀ o ∈ origin, Unspaced o.1
  command_whole : Whole command
  middle_whole : ∀ e ∈ middle, Whole e.2
  trailing_line : ∀ e ∈ trailing, cr ∉ e.2 ∧ lf ∉ e.2

namespace Rendering

/-- The line. -/
def text (r : Rendering) : Str :=
  (match r.origin with
    | none => []
    | some (p, n) => lit ":" ++ p ++ blanks n)
  ++ r.command
  ++ (r.middle.flatMap fun e => blanks e.1 ++ e.2)
  ++ match r.trailing with
    | none => []
    | some (n, t) => blanks n ++ lit ":" ++ t

/-- What was meant. -/
def message (r : Rendering) : Message where
  origin := (r.origin.map Prod.fst).getD []
  command := r.command.map toUpper
  params := r.middle.map Prod.snd ++ (r.trailing.map Prod.snd).toList

end Rendering

/-! ## What is read -/

theorem middle_nil : Middle [] ∧ Unspaced [] := by
  refine ⟨⟨List.not_mem_nil, by decide⟩, fun b hb => ?_⟩
  exact absurd hb List.not_mem_nil

theorem of_mem_padded {e : ℕ × Str} (h : Whole e.2) : ∀ w ∈ padded e, Middle w ∧ Unspaced w := by
  intro w hw
  rcases List.mem_append.mp hw with hw | hw
  · rw [List.eq_of_mem_replicate hw]
    exact middle_nil
  · rw [List.mem_singleton.mp hw]
    exact ⟨h.middle, h.unspaced⟩

theorem flatMap_words_replicate_nil (n : ℕ) : (List.replicate n ([] : Str)).flatMap words = [] := by
  rw [List.flatMap_eq_nil_iff]
  intro w hw
  rw [List.eq_of_mem_replicate hw]
  rfl

theorem flatMap_words_padded {e : ℕ × Str} (h : Whole e.2) : (padded e).flatMap words = [e.2] := by
  rw [padded, List.flatMap_append, flatMap_words_replicate_nil, List.flatMap_singleton,
    h.words_eq, List.nil_append]

theorem flatMap_words_flatMap_padded {es : List (ℕ × Str)} (h : ∀ e ∈ es, Whole e.2) :
    (es.flatMap padded).flatMap words = es.map Prod.snd := by
  induction es with
  | nil => rfl
  | cons e es ih =>
    rw [List.flatMap_cons, List.flatMap_append, flatMap_words_padded (h e List.mem_cons_self),
      ih fun e he => h e (List.mem_cons_of_mem _ he), List.map_cons]
    rfl

namespace Rendering

variable (r : Rendering)

/-- The first word of the line. -/
def first : Str :=
  match r.origin with
  | none => r.command
  | some (p, _) => lit ":" ++ p

/-- The words behind the first one, in front of the trailing part. -/
def rest : List Str :=
  (match r.origin with
    | none => []
    | some (_, n) => padded (n, r.command))
  ++ r.middle.flatMap padded

theorem unspaced_first : Unspaced r.first := by
  intro b hb
  unfold first at hb
  split at hb
  · exact r.command_whole.unspaced b hb
  next p n horigin =>
    rcases List.mem_append.mp hb with hb | hb
    · rw [List.mem_singleton.mp hb]
      rfl
    · exact r.origin_unspaced (p, n) horigin b hb

theorem first_ne_nil : r.first ≠ [] := by
  unfold first
  split
  · exact r.command_whole.ne_nil
  · exact List.cons_ne_nil _ _

theorem of_mem_rest : ∀ w ∈ r.rest, Middle w ∧ Unspaced w := by
  intro w hw
  rcases List.mem_append.mp hw with hw | hw
  · split at hw
    · exact absurd hw List.not_mem_nil
    · exact of_mem_padded r.command_whole w hw
  · obtain ⟨e, he, hw⟩ := List.mem_flatMap.mp hw
    exact of_mem_padded (r.middle_whole e he) w hw

/-- The words that are read in front of the trailing part. -/
theorem assemble_words (trailing : List Str) :
    Parser.assemble (words r.first ++ r.rest.flatMap words) trailing
      = { r.message with params := r.middle.map Prod.snd ++ trailing } := by
  have hmiddle := flatMap_words_flatMap_padded r.middle_whole
  rw [words_of_not_isSpace r.unspaced_first r.first_ne_nil, rest, List.flatMap_append, hmiddle]
  unfold first message
  cases r.origin with
  | none =>
    show Parser.assemble (r.command :: r.middle.map Prod.snd) trailing = _
    rw [Parser.assemble, if_neg r.command_whole.head_ne]
    rfl
  | some o =>
    obtain ⟨p, n⟩ := o
    dsimp only
    rw [flatMap_words_padded r.command_whole]
    rfl

theorem text_of_none (h : r.trailing = none) : r.text = r.first ++ spaced r.rest := by
  rw [text, first, rest, h, spaced_append, spaced_flatMap_padded]
  cases r.origin with
  | none => simp
  | some o => simp [spaced_padded]

theorem text_of_some {n : ℕ} {t : Str} (h : r.trailing = some (n, t)) :
    r.text = r.first ++ spaced (r.rest ++ List.replicate n []) ++ lit " :" ++ t := by
  have hblank : lit " :" = sp :: lit ":" := by decide
  have hgap : blanks n = List.replicate n sp ++ [sp] := List.replicate_succ'
  rw [text, first, rest, h, spaced_append, spaced_append, spaced_flatMap_padded, spaced_replicate_nil,
    hblank]
  dsimp only
  rw [hgap]
  cases r.origin with
  | none => simp
  | some o => simp [spaced_padded]

/-- Words without whitespace bring no carriage return into a line. -/
theorem cr_not_mem_spaced {ws : List Str} (h : ∀ w ∈ ws, Unspaced w) : cr ∉ spaced ws := by
  intro hmem
  rcases mem_spaced hmem with hblank | ⟨w, hw, hcr⟩
  · exact absurd hblank (by decide)
  · exact ne_cr_of_not_isSpace (h w hw cr hcr) rfl

/-- The parser reads back what was written. -/
theorem parse_text : Parser.parse r.text = r.message := by
  have hfirst : sp ∉ r.first := fun hmem => ne_sp_of_not_isSpace (r.unspaced_first sp hmem) rfl
  have hcr : cr ∉ r.first := fun hmem => ne_cr_of_not_isSpace (r.unspaced_first cr hmem) rfl
  cases htrailing : r.trailing with
  | none =>
    have hrest : cr ∉ spaced r.rest := cr_not_mem_spaced fun w hw => (r.of_mem_rest w hw).2
    rw [r.text_of_none htrailing, Parser.parse_spaced r.first_ne_nil hfirst
      fun w hw => (r.of_mem_rest w hw).1, r.assemble_words, message, htrailing]
    · rfl
    · rw [List.mem_append, not_or]
      exact ⟨hcr, hrest⟩
  | some e =>
    obtain ⟨n, t⟩ := e
    have hwords : ∀ w ∈ r.rest ++ List.replicate n [], Middle w ∧ Unspaced w := by
      intro w hw
      rcases List.mem_append.mp hw with hw | hw
      · exact r.of_mem_rest w hw
      · rw [List.eq_of_mem_replicate hw]
        exact middle_nil
    have hrest : cr ∉ spaced (r.rest ++ List.replicate n []) :=
      cr_not_mem_spaced fun w hw => (hwords w hw).2
    rw [r.text_of_some htrailing, Parser.parse_spaced_trailing hfirst fun w hw => (hwords w hw).1,
      List.flatMap_append, flatMap_words_replicate_nil, List.append_nil, r.assemble_words, message,
      htrailing]
    · rfl
    · simp only [List.mem_append, not_or]
      exact ⟨⟨⟨hcr, hrest⟩, by decide⟩, (r.trailing_line (n, t) htrailing).1⟩

end Rendering

/-- Parsing undoes rendering, whatever the pieces and the blanks between them; and whatever the
line, all parameters but the last are words. -/
theorem parse_undoes_rendering :
    (∀ r : Rendering, Parser.parse r.text = r.message)
    ∧ ∀ line, ∀ param ∈ (Parser.parse line).params.dropLast,
        param ≠ [] ∧ ∀ b ∈ param, isSpace b = false :=
  ⟨Rendering.parse_text, fun line => (Parser.piecesOf_parse line).middle⟩

/-- An origin, pairs of blanks, a parameter with a colon inside, and a text with `" :"` in it. -/
def blankedKick : Rendering where
  origin := some (lit "a", 1)
  command := lit "kick"
  middle := [(1, lit "#b:c"), (0, lit "d")]
  trailing := some (1, lit "e :f ")
  origin_unspaced := by
    rintro _ ⟨rfl⟩
    exact not_isSpace_of_any (by decide)
  command_whole := ⟨by decide, not_isSpace_of_any (by decide), by decide⟩
  middle_whole := by
    intro e he
    rcases List.mem_cons.mp he with rfl | he
    · exact ⟨by decide, not_isSpace_of_any (by decide), by decide⟩
    · rw [List.mem_singleton.mp he]
      exact ⟨by decide, not_isSpace_of_any (by decide), by decide⟩
  trailing_line := by
    rintro _ ⟨rfl⟩
    decide

theorem parse_undoes_rendering_sample :
    blankedKick.text = lit ":a  kick  #b:c d  :e :f "
      ∧ Parser.parse blankedKick.text
        = { origin := lit "a", command := lit "KICK", params := [lit "#b:c", lit "d", lit "e :f "] } :=
  ⟨by decide, (parse_undoes_rendering.1 blankedKick).trans (by decide)⟩

end FtIrc
