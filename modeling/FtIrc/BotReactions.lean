import FtIrc.Addressing
import FtIrc.BotStream

/-!
# What the bot takes for a command

`Bot::processLine` looks for its numerics and for JOIN anywhere in a line. The words the server
writes in front of a text are none of these, with one exception, so what makes the bot act on a
line that is relayed for a user is the text: it holds a numeric between blanks, or a JOIN with the
bot's channel behind it. The exception is a JOIN itself, and there the bot finds what the server
wrote.
-/

namespace FtIrc

open Bytes

/-! ## A word between blanks -/

/-- A word with a blank on either side. -/
def blanked (w : Str) : Str := sp :: (w ++ [sp])

/-- Of two words in front of a blank neither is the beginning of the other. -/
theorem not_prefix_of_ne {w v rest : Str} (hw : sp ∉ w) (hv : sp ∉ v) (hne : v ≠ w)
    (hrest : rest.head? = some sp) : ¬ w ++ [sp] <+: v ++ rest := by
  rintro ⟨tail, heq⟩
  obtain ⟨r, rfl⟩ := List.head?_eq_some_iff.mp hrest
  rw [List.append_assoc, List.singleton_append] at heq
  have hcut : cut [sp] (w ++ sp :: tail) = some (w, tail) := cut_singleton_eq_some.mpr ⟨rfl, hw⟩
  have hcut' : cut [sp] (v ++ sp :: r) = some (v, r) := cut_singleton_eq_some.mpr ⟨rfl, hv⟩
  rw [heq, hcut', Option.some_inj, Prod.mk.injEq] at hcut
  exact hne hcut.1

/-- A word that is not among the words of a line is first found behind them. -/
theorem cut_blanked_spaced {w first : Str} {ws : List Str} {rest : Str} (hw : sp ∉ w)
    (hfirst : sp ∉ first) (hws : ∀ v ∈ ws, sp ∉ v ∧ v ≠ w) (hrest : rest.head? = some sp) :
    cut (blanked w) (first ++ spaced ws ++ rest)
      = (cut (blanked w) rest).map fun p => (first ++ spaced ws ++ p.1, p.2) := by
  induction ws generalizing first with
  | nil =>
    rw [spaced_nil, List.append_nil]
    exact cut_append hfirst (w ++ [sp]) rest
  | cons v ws ih =>
    obtain ⟨hv, hne⟩ := hws v List.mem_cons_self
    have hhead : (spaced ws ++ rest).head? = some sp := by
      cases ws with
      | nil => exact hrest
      | cons u us => rfl
    have hnot : ¬ blanked w <+: sp :: (v ++ spaced ws ++ rest) := by
      rw [blanked, List.cons_prefix_cons, List.append_assoc]
      exact fun h => not_prefix_of_ne hw hv hne hhead h.2
    have hline : first ++ spaced (v :: ws) ++ rest = first ++ sp :: (v ++ spaced ws ++ rest) := by
      rw [spaced_cons, List.append_assoc]
      rfl
    rw [hline, blanked, cut_append hfirst, ← blanked, cut_cons_of_not_isPrefix hnot,
      ih hv fun u hu => hws u (List.mem_cons_of_mem v hu), Option.map_map, Option.map_map]
    congr 1
    funext p
    simp only [Function.comp_apply, spaced_cons, List.append_assoc, List.cons_append]

/-- No word stands across the start of a trailing part. -/
theorem cut_blanked_trailing {w : Str} (hw : w ≠ []) (hcolon : w.head? ≠ some colon) (text : Str) :
    cut (blanked w) (lit " :" ++ text)
      = (cut (blanked w) text).map fun p => (lit " :" ++ p.1, p.2) := by
  obtain ⟨b, w, rfl⟩ := List.exists_cons_of_ne_nil hw
  have hlit : lit " :" = [sp, colon] := by decide
  have hblank : ¬ blanked (b :: w) <+: sp :: colon :: text := by
    rw [blanked, List.cons_append, List.cons_prefix_cons, List.cons_prefix_cons]
    exact fun h => hcolon (congrArg some h.2.1)
  have hmark : ¬ blanked (b :: w) <+: colon :: text := by
    rw [blanked, List.cons_prefix_cons]
    exact fun h => absurd h.1 (by decide)
  rw [hlit]
  show cut (blanked (b :: w)) (sp :: colon :: text) = _
  rw [cut_cons_of_not_isPrefix hblank, cut_cons_of_not_isPrefix hmark, Option.map_map]
  rfl

/-! ## A line relayed for a user -/

/-- A line in the name of a user: the words behind the source, and a text. -/
def userLine (nickname username : Str) (middle : List Str) (text : Str) : Str :=
  lit ":" ++ nickname ++ lit "!" ++ username ++ lit "@localhost" ++ spaced middle ++ lit " :" ++ text

namespace Bot

/-- The replies `processLine` looks for. -/
def numerics : List Str := [lit "001", lit "433", lit "464"]

/-- The words of a relayed line: none of them is a numeric, and none but the last is JOIN. -/
structure Relayable (middle : List Str) : Prop where
  word : ∀ w ∈ middle, sp ∉ w ∧ w ∉ numerics
  last : ∀ w ∈ middle.dropLast, w ≠ lit "JOIN"

/-- The channel that a relayed line seems to be a JOIN of. Behind a last word JOIN that is the text,
and else what follows the first JOIN in the text. -/
def joinedChannel (middle : List Str) (text : Str) : Option Str :=
  if middle.getLast? = some (lit "JOIN") then some text
  else (cut (lit " JOIN ") text).map fun p => if p.2.head? = some colon then p.2.tail else p.2

/-- The text has one of the numerics between blanks, or makes the line seem to be the JOIN of
somebody else to the bot's channel. -/
def Misreads (bot : Bot) (nickname : Str) (middle : List Str) (text : Str) : Prop :=
  (∃ numeric ∈ numerics, blanked numeric <:+: text)
    ∨ nickname ≠ botNickname ∧ joinedChannel middle text = some bot.channel

instance (bot : Bot) (nickname : Str) (middle : List Str) (text : Str) :
    Decidable (bot.Misreads nickname middle text) :=
  inferInstanceAs (Decidable ((∃ numeric ∈ numerics, blanked numeric <:+: text) ∨ _))

/-- Whatever `sendLine` does, it throws or it sends. -/
theorem sendLine_ne (bot : Bot) (line : Str) : bot.sendLine line ≠ .ok bot := by
  unfold sendLine
  split_ifs
  · exact fun h => nomatch h
  · exact fun h => nomatch h
  · intro h
    have hsent := congrArg Bot.sent (Except.ok.inj h)
    exact List.append_ne_nil_of_right_ne_nil [] (List.cons_ne_nil _ [])
      (List.append_cancel_left (hsent.trans (List.append_nil _).symm))

section Line

variable {nickname username : Str} {middle : List Str} (hnick : sp ∉ nickname) (huser : sp ∉ username)
  (hmiddle : Relayable middle)
include hnick huser

theorem sp_not_mem_source :
    sp ∉ lit ":" ++ nickname ++ lit "!" ++ username ++ lit "@localhost" := by
  simp only [List.mem_append, not_or]
  exact ⟨⟨⟨⟨by decide, hnick⟩, by decide⟩, huser⟩, by decide⟩

/-- A word that is not in front of the text is found where it is found in the text. -/
theorem cut_userLine {w : Str} (hw : w ≠ []) (hcolon : w.head? ≠ some colon) (hsp : sp ∉ w)
    (hwords : ∀ v ∈ middle, sp ∉ v ∧ v ≠ w) (text : Str) :
    cut (blanked w) (userLine nickname username middle text)
      = (cut (blanked w) text).map fun p => (userLine nickname username middle p.1, p.2) := by
  have hhead : (lit " :" ++ text).head? = some sp := rfl
  have hsource := sp_not_mem_source hnick huser
  rw [userLine, List.append_assoc _ (lit " :"), cut_blanked_spaced hsp hsource hwords hhead,
    cut_blanked_trailing hw hcolon, Option.map_map]
  congr 1
  funext p
  simp only [Function.comp_apply, userLine, List.append_assoc]

include hmiddle in
/-- What `greetJoinedUser` takes to be joined. -/
theorem joinedChannel_eq (text : Str) :
    (cut (lit " JOIN ") (userLine nickname username middle text)).map
        (fun p => if p.2.head? = some colon then p.2.tail else p.2)
      = joinedChannel middle text := by
  have hjoin : lit " JOIN " = blanked (lit "JOIN") := by decide
  unfold joinedChannel
  split_ifs with hlast
  · -- the words in front of the last one are others, and behind it stands the colon of the text
    obtain ⟨ws, rfl⟩ := List.getLast?_eq_some_iff.mp hlast
    have hwords : ∀ v ∈ ws, sp ∉ v ∧ v ≠ lit "JOIN" := by
      intro v hv
      refine ⟨(hmiddle.word v (List.mem_append_left _ hv)).1, hmiddle.last v ?_⟩
      rwa [List.dropLast_concat]
    have hline : userLine nickname username (ws ++ [lit "JOIN"]) text
        = lit ":" ++ nickname ++ lit "!" ++ username ++ lit "@localhost" ++ spaced ws
          ++ (blanked (lit "JOIN") ++ colon :: text) := by
      simp only [userLine, spaced, List.flatMap_append, List.flatMap_singleton, List.append_assoc]
      rfl
    have hfound := cut_append_of_not_mem (d := sp) List.not_mem_nil (lit "JOIN" ++ [sp]) (colon :: text)
    rw [hline, hjoin, cut_blanked_spaced (by decide) (sp_not_mem_source hnick huser) hwords rfl]
    show ((cut (sp :: (lit "JOIN" ++ [sp])) ([] ++ sp :: (lit "JOIN" ++ [sp] ++ colon :: text))).map
      _).map _ = _
    rw [hfound]
    rfl
  · -- no word is `JOIN`, so the mark can only be found in the text
    have hwords : ∀ v ∈ middle, sp ∉ v ∧ v ≠ lit "JOIN" := by
      intro v hv
      refine ⟨(hmiddle.word v hv).1, fun heq => ?_⟩
      obtain ⟨ws, last, rfl⟩ := List.eq_nil_or_concat' middle |>.resolve_left (List.ne_nil_of_mem hv)
      rcases List.mem_append.mp hv with hv | hv
      · refine hmiddle.last v ?_ heq
        rwa [List.dropLast_concat]
      · rw [List.getLast?_concat, ← List.mem_singleton.mp hv, heq] at hlast
        exact hlast rfl
    rw [hjoin, cut_userLine hnick huser (by decide) (by decide) (by decide) hwords, Option.map_map]
    rfl

/-- A JOIN is found behind the nickname. -/
theorem length_le_of_cut {pat text before after : Str}
    (h : cut (sp :: pat) (userLine nickname username middle text) = some (before, after)) :
    (lit ":" ++ nickname).length ≤ before.length := by
  rw [userLine, List.append_assoc, List.append_assoc,
    cut_append (sp_not_mem_source hnick huser), Option.map_eq_some_iff] at h
  obtain ⟨p, _, hp⟩ := h
  rw [← (Prod.mk.inj hp).1]
  simp only [List.length_append]
  omega

include hmiddle in
/-- `greetJoinedUser` greets when the line seems to be the JOIN of somebody else. -/
theorem greetJoinedUser_userLine (bot : Bot) (hne : nickname ≠ []) (hbang : ch '!' ∉ nickname)
    (text : Str) :
    bot.greetJoinedUser (userLine nickname username middle text)
      = if nickname ≠ botNickname ∧ joinedChannel middle text = some bot.channel then
          bot.sendLine (lit "PRIVMSG " ++ bot.channel ++ lit " :Hello @" ++ nickname)
        else .ok bot := by
  have hhead : (userLine nickname username middle text).head? = some colon := rfl
  -- the first exclamation mark is the one behind the nickname
  have hend : cut (lit "!") (userLine nickname username middle text)
      = some (lit ":" ++ nickname,
        username ++ lit "@localhost" ++ spaced middle ++ lit " :" ++ text) := by
    refine cut_singleton_eq_some.mpr ⟨?_, ?_⟩
    · simp only [userLine, List.append_assoc]
      rfl
    · rw [List.mem_append, not_or]
      exact ⟨by decide, hbang⟩
  have hjoined := joinedChannel_eq hnick huser hmiddle text
  unfold greetJoinedUser
  rw [if_neg (not_not_intro hhead), hend]
  cases hcut : cut (lit " JOIN ") (userLine nickname username middle text) with
  | none =>
    rw [hcut, Option.map_none] at hjoined
    rw [← hjoined, if_neg fun h => Option.some_ne_none _ h.2.symm]
  | some p =>
    obtain ⟨before, after⟩ := p
    have hlen := length_le_of_cut hnick huser hcut
    rw [hcut, Option.map_some] at hjoined
    dsimp only at hjoined ⊢
    -- the bot reads a line only if the exclamation mark stands in front of the JOIN
    rw [if_neg (Nat.not_lt.mpr hlen)]
    have htail : (lit ":" ++ nickname).tail = nickname := rfl
    rw [htail]
    by_cases hself : nickname = botNickname
    · rw [if_pos (by simp [hself]), if_neg fun h => h.1 hself]
    rw [if_neg (by simp [hself, hne])]
    by_cases hchannel : (if after.head? = some colon then after.tail else after) = bot.channel
    · rw [if_neg (not_not_intro hchannel), if_pos ⟨hself, by rw [← hjoined, hchannel]⟩]
    · rw [if_pos hchannel, if_neg fun h => hchannel (Option.some_inj.mp (hjoined.trans h.2))]

include hmiddle in
/-- A numeric is found in a relayed line when it is found in the text. -/
theorem numeric_infix_iff {numeric : Str} (hnumeric : numeric ∈ numerics) (text : Str) :
    blanked numeric <:+: userLine nickname username middle text ↔ blanked numeric <:+: text := by
  have hshape : ∀ n ∈ numerics, n ≠ [] ∧ n.head? ≠ some colon ∧ sp ∉ n := by decide
  obtain ⟨hne, hcolon, hsp⟩ := hshape numeric hnumeric
  have hwords : ∀ v ∈ middle, sp ∉ v ∧ v ≠ numeric :=
    fun v hv => ⟨(hmiddle.word v hv).1, fun heq => (hmiddle.word v hv).2 (heq ▸ hnumeric)⟩
  have hpattern : blanked numeric ≠ [] := List.cons_ne_nil _ _
  rw [← not_iff_not, ← cut_eq_none_iff hpattern, ← cut_eq_none_iff hpattern,
    cut_userLine hnick huser hne hcolon hsp hwords, Option.map_eq_none_iff]

include hmiddle in
/-- Without a numeric in the text the line gets as far as the greeting. -/
theorem processLine_of_not_numeric (bot : Bot) {text : Str}
    (hnone : ¬ ∃ numeric ∈ numerics, blanked numeric <:+: text) :
    bot.processLine (userLine nickname username middle text)
      = bot.greetJoinedUser (userLine nickname username middle text) := by
  have hping : ¬ lit "PING " <+: userLine nickname username middle text := by
    rintro ⟨rest, heq⟩
    exact absurd (List.cons.inj heq).1 (by decide)
  have hmissing : ∀ numeric ∈ numerics,
      ¬ blanked numeric <:+: userLine nickname username middle text := by
    intro numeric hmem hfound
    exact hnone ⟨numeric, hmem, (numeric_infix_iff hnick huser hmiddle hmem text).mp hfound⟩
  obtain ⟨h001, h433, h464⟩ : lit " 001 " = blanked (lit "001") ∧ lit " 433 " = blanked (lit "433")
      ∧ lit " 464 " = blanked (lit "464") := by decide
  rw [processLine, if_neg hping, h001, h433, h464, if_neg (hmissing _ (by decide)),
    if_neg (hmissing _ (by decide)), if_neg (hmissing _ (by decide))]

include hmiddle in
/-- A numeric in the text makes the bot throw or send. -/
theorem processLine_ne_of_numeric (bot : Bot) {numeric text : Str} (hmem : numeric ∈ numerics)
    (hfound : blanked numeric <:+: text) :
    bot.processLine (userLine nickname username middle text) ≠ .ok bot := by
  rw [← numeric_infix_iff hnick huser hmiddle hmem text] at hfound
  unfold processLine
  split_ifs with hping hwelcome hinUse hpassword
  · exact bot.sendLine_ne _
  · exact bot.sendLine_ne _
  · exact fun h => nomatch h
  · exact fun h => nomatch h
  · simp only [numerics, List.mem_cons, List.not_mem_nil, or_false] at hmem
    rcases hmem with rfl | rfl | rfl
    · exact absurd hfound hwelcome
    · exact absurd hfound hinUse
    · exact absurd hfound hpassword

include hmiddle in
/-- The bot neither throws nor sends on a relayed line, unless it misreads the text. -/
theorem processLine_userLine (bot : Bot) (hne : nickname ≠ []) (hbang : ch '!' ∉ nickname)
    (text : Str) :
    bot.processLine (userLine nickname username middle text) = .ok bot
      ↔ ¬ bot.Misreads nickname middle text := by
  by_cases hnumeric : ∃ numeric ∈ numerics, blanked numeric <:+: text
  · obtain ⟨numeric, hmem, hfound⟩ := hnumeric
    refine iff_of_false ?_ (not_not_intro (Or.inl ⟨numeric, hmem, hfound⟩))
    exact processLine_ne_of_numeric hnick huser hmiddle bot hmem hfound
  · rw [processLine_of_not_numeric hnick huser hmiddle bot hnumeric,
      greetJoinedUser_userLine hnick huser hmiddle bot hne hbang text, Misreads, not_or,
      and_iff_right hnumeric]
    split_ifs with hjoins
    · exact iff_of_false (bot.sendLine_ne _) (not_not_intro hjoins)
    · exact iff_of_true rfl hjoins

end Line

end Bot

/-! ## The words of relayed lines -/

theorem sp_not_mem_of_isValidUsername {u : Str} (h : UserCommand.isValidUsername u = true) :
    sp ∉ u := by
  simp only [UserCommand.isValidUsername, Bool.and_eq_true, List.all_eq_true, bne_iff_ne] at h
  exact fun hmem => (h.2 sp hmem).1.1.1.2 rfl

namespace Bot

theorem mem_numerics {w : Str} : w ∈ numerics → ∃ b ∈ w.head?, b ∈ lit "04" := by
  intro h
  simp only [numerics, List.mem_cons, List.not_mem_nil, or_false] at h
  rcases h with rfl | rfl | rfl
  · exact ⟨ch '0', by decide, by decide⟩
  · exact ⟨ch '4', by decide, by decide⟩
  · exact ⟨ch '4', by decide, by decide⟩

/-- A word that is a name or a command, as those in front of the last one are. -/
structure Plain (w : Str) : Prop where
  word : sp ∉ w ∧ w ∉ numerics
  ne_join : w ≠ lit "JOIN"

instance (w : Str) : Decidable (Plain w) :=
  decidable_of_iff ((sp ∉ w ∧ w ∉ numerics) ∧ w ≠ lit "JOIN") ⟨fun h => ⟨h.1, h.2⟩, fun h => ⟨h.1, h.2⟩⟩

/-- A channel name is no numeric and no command: it starts with the byte of its kind. -/
theorem channel_word {name : Str} (h : JoinCommand.isValidChannelName name = true) :
    Plain name := by
  obtain ⟨first, rest, rfl, hfirst, -⟩ := head_of_isValidChannelName h
  refine ⟨⟨(middle_of_isValidChannelName h).sp_not_mem, fun hmem => ?_⟩, fun heq => ?_⟩
  · obtain ⟨b, hb, hdigit⟩ := mem_numerics hmem
    obtain rfl : first = b := Option.some_inj.mp hb
    rcases hfirst with rfl | rfl
    · exact absurd hdigit (by decide)
    · exact absurd hdigit (by decide)
  · obtain rfl : first = ch 'J' := (List.cons.inj heq).1
    exact absurd hfirst (by decide)

/-- A nickname is no numeric, however it is spelled: it does not start with a digit. -/
theorem nickname_word {n nick : Str} (hvalid : NickCommand.isValidNickname n = true)
    (hspelled : toIrcLowerCase n = toIrcLowerCase nick) : sp ∉ nick ∧ nick ∉ numerics := by
  constructor
  · intro hmem
    have hmem' : toIrcLower sp ∈ toIrcLowerCase n := by
      rw [hspelled]
      exact List.mem_map_of_mem hmem
    obtain ⟨b, hb, hlower⟩ := List.mem_map.mp hmem'
    have hsp : toIrcLower sp = sp := by decide
    rw [hsp, toIrcLower_eq_iff (Or.inr (Or.inl rfl))] at hlower
    exact (not_mem_of_isValidNickname hvalid).1 (hlower ▸ hb)
  · intro hmem
    obtain ⟨b, hb, hdigit⟩ := mem_numerics hmem
    cases n with
    | nil => exact absurd hvalid (by decide)
    | cons first rest =>
      have hfirst : toIrcLower first = toIrcLower b := by
        have hhead := congrArg List.head? hspelled
        rw [toIrcLowerCase, toIrcLowerCase, List.map_cons, List.head?_cons, List.head?_map,
          Option.mem_def.mp hb] at hhead
        exact Option.some_inj.mp hhead
      simp only [NickCommand.isValidNickname, Bool.and_eq_true, decide_eq_true_eq] at hvalid
      have hdigits : (lit "04").all (fun d => NickCommand.validFirstCharacters.all
          fun b => toIrcLower b != toIrcLower d) = true := by decide
      have hne := List.all_eq_true.mp (List.all_eq_true.mp hdigits b hdigit) first hvalid.1.2
      exact absurd hfirst (bne_iff_ne.mp hne)

theorem Relayable.singleton {w : Str} (h : sp ∉ w ∧ w ∉ numerics) : Relayable [w] where
  word v hv := by
    rwa [List.mem_singleton.mp hv]
  last _ hv := absurd hv List.not_mem_nil

theorem Relayable.cons {w : Str} {ws : List Str} (hw : Plain w) (h : Relayable ws) :
    Relayable (w :: ws) where
  word v hv := by
    rcases List.mem_cons.mp hv with rfl | hv
    · exact hw.word
    · exact h.word v hv
  last v hv := by
    cases ws with
    | nil => exact absurd hv List.not_mem_nil
    | cons u us =>
      rw [List.dropLast_cons_cons] at hv
      rcases List.mem_cons.mp hv with rfl | hv
      · exact hw.ne_join
      · exact h.last v hv

end Bot

namespace Server

/-- The names that can get into a relayed line are valid. -/
structure Named (s : Server) : Prop where
  nickname : ∀ p, s.nickname p = [] ∨ NickCommand.isValidNickname (s.nickname p) = true
  channel : ∀ name ch, s.findChannel name = some ch → JoinCommand.isValidChannelName name = true

/-- All that clients other than `c` are sent between `s` and `t` satisfies `R`, and the names are
kept. -/
structure Tells (c : Ptr) (R : Str → Prop) (s t : Server) : Prop where
  output : ∀ p x, p ≠ c → s.heap p = some x → ∃ y, t.heap p = some y ∧ x.Appends R y
  identity : ∀ p, (t.client p).identity = (s.client p).identity
  channel : ∀ name ch, t.findChannel name = some ch → ∃ ch₀, s.findChannel name = some ch₀

namespace Tells

variable {c : Ptr} {R : Str → Prop} {s t u : Server}

theorem refl (c : Ptr) (R : Str → Prop) (s : Server) : Tells c R s s :=
  ⟨fun _ x _ hx => ⟨x, hx, .refl R x⟩, fun _ => rfl, fun _ ch h => ⟨ch, h⟩⟩

theorem trans (h : Tells c R s t) (h' : Tells c R t u) : Tells c R s u where
  output p x hp hx := by
    obtain ⟨y, hy, hxy⟩ := h.output p x hp hx
    obtain ⟨z, hz, hyz⟩ := h'.output p y hp hy
    exact ⟨z, hz, hxy.trans hyz⟩
  identity p := (h'.identity p).trans (h.identity p)
  channel name ch hch := by
    obtain ⟨ch₁, hch₁⟩ := h'.channel name ch hch
    exact h.channel name ch₁ hch₁

/-- What the client itself is sent is its own affair. -/
theorem reply (s : Server) (text : Str) : Tells c R s (s.sendMessage c text) where
  output p x hp hx := ⟨x, by rw [sendMessage, heap_modify, if_neg hp, hx], .refl R x⟩
  identity _ := identity_sendMessage ..
  channel _ ch h := ⟨ch, h⟩

theorem relay (p : Ptr) {text : Str} (h : R text) : Tells c R s (s.sendMessage p text) where
  output q x _ hx := appends_sendMessage p h q x hx
  identity _ := identity_sendMessage ..
  channel _ ch h := ⟨ch, h⟩

theorem relayAll (ps : List Ptr) {text : Str} (h : R text) : Tells c R s (s.sendAll ps text) :=
  sendAll_induct s ps text (P := fun t => Tells c R s t) (.refl c R s) fun _ p ht => ht.trans (relay p h)

theorem tell (s : Server) (ch : Channel) {text : Str} (h : R text) :
    Tells c R s ((s.broadcastMessage ch text (some c)).sendMessage c text) :=
  (relayAll _ h).trans (reply _ text)

theorem modifyChannel (s : Server) (name : Str) (f : Channel → Channel) :
    Tells c R s (s.modifyChannel name f) where
  output _ x _ hx := ⟨x, hx, .refl R x⟩
  identity _ := rfl
  channel n ch hch := by
    rw [findChannel, Server.modifyChannel, OrdMap.find?_modify] at hch
    split_ifs at hch
    · obtain ⟨ch₀, hch₀, _⟩ := Option.map_eq_some_iff.mp hch
      exact ⟨ch₀, hch₀⟩
    · exact ⟨ch, hch⟩

theorem named (h : Tells c R s t) (hs : s.Named) : t.Named where
  nickname p := by
    have hsame : t.nickname p = s.nickname p := congrArg Client.Identity.nickname (h.identity p)
    rw [hsame]
    exact hs.nickname p
  channel name ch hch := by
    obtain ⟨ch₀, hch₀⟩ := h.channel name ch hch
    exact hs.channel name ch₀ hch₀

theorem userPrefix_eq (h : Tells c R s t) (p : Ptr) : userPrefix t p = userPrefix s p := by
  have hnickname : t.nickname p = s.nickname p := congrArg Client.Identity.nickname (h.identity p)
  have husername : t.username p = s.username p := congrArg Client.Identity.username (h.identity p)
  rw [userPrefix, userPrefix, hnickname, husername]

/-- A loop tells others what its turns tell them. -/
theorem foldl {α : Type} {f : Server → α → Server} {l : List α}
    (hturn : ∀ t, Tells c R s t → ∀ a ∈ l, Tells c R t (f t a)) : Tells c R s (l.foldl f s) := by
  suffices hloop : ∀ t, Tells c R s t → Tells c R s (l.foldl f t) from hloop s (.refl c R s)
  induction l with
  | nil => exact fun t ht => ht
  | cons a l ih =>
    intro t ht
    refine ih (fun t ht b hb => hturn t ht b (List.mem_cons_of_mem a hb)) _ ?_
    exact ht.trans (hturn t ht a List.mem_cons_self)

end Tells

end Server

/-! ## The handlers -/

theorem Server.Named.found {s : Server} (hs : s.Named) {nick : Str} {q : Ptr}
    (h : s.findClientByNick nick = some q) : sp ∉ nick ∧ nick ∉ Bot.numerics := by
  obtain ⟨hne, -, hspelled, -⟩ := Server.findClientByNick_eq_some h
  rcases hs.nickname q with hnil | hvalid
  · rw [Server.nickname] at hnil
    rw [hnil] at hspelled
    exact absurd (List.map_eq_nil_iff.mp hspelled.symm) hne
  · exact Bot.nickname_word hvalid hspelled

section Handlers

variable {s : Server} {c : Ptr} {R : Str → Prop} (hs : s.Named)
include hs

theorem PrivmsgCommand.tells_sendOne {senderPrefix text target : Str}
    (hR : Bot.Relayable [lit "PRIVMSG", target] →
      R (senderPrefix ++ lit " PRIVMSG " ++ target ++ lit " :" ++ text ++ lit "\r\n")) :
    Server.Tells c R s (sendOne senderPrefix text c s target) := by
  have hverb : Bot.Plain (lit "PRIVMSG") := by decide
  unfold sendOne
  dsimp only
  split_ifs
  · split
    · exact .reply s _
    next channel hch =>
    split_ifs
    · exact .reply s _
    · exact .relayAll _ (hR (.cons hverb (.singleton (Bot.channel_word (hs.channel target channel hch)).word)))
  · split
    · exact .reply s _
    next q hfind => exact .relay q (hR (.cons hverb (.singleton (hs.found hfind))))

theorem TopicCommand.tells_execute {params : List Str}
    (hR : ∀ name text rest, params = name :: text :: rest → Bot.Relayable [lit "TOPIC", name] →
      R (userPrefix s c ++ lit " TOPIC " ++ name ++ lit " :" ++ text ++ lit "\r\n")) :
    Server.Tells c R s (execute s c params) := by
  have hverb : Bot.Plain (lit "TOPIC") := by decide
  unfold execute
  split
  · exact .reply s _
  next name rest =>
  dsimp only
  split
  · exact .reply s _
  next channel hch =>
  by_cases hmem : channel.isMember c = true
  swap
  · rw [if_pos (by simpa using hmem)]
    exact .reply s _
  rw [if_neg (by simpa using hmem)]
  cases rest with
  | nil =>
    -- 331 or 332
    dsimp only
    split_ifs
    · exact .reply s _
    · exact .reply s _
  | cons text rest =>
    dsimp only
    split_ifs
    · exact .reply s _
    · -- the broadcast is the only line that is not a reply
      have htext := hR name text rest rfl
        (.cons hverb (.singleton (Bot.channel_word (hs.channel name channel hch)).word))
      have hset : Server.Tells c R s (s.modifyChannel name fun ch => { ch with topic := text }) :=
        .modifyChannel s name _
      exact hset.trans (.tell _ channel htext)

theorem KickCommand.tells_kickOne {reason name nick : Str}
    (hR : Bot.Relayable [lit "KICK", name, nick] →
      R (userPrefix s c ++ lit " KICK " ++ name ++ lit " " ++ nick ++ lit " :" ++ reason
        ++ lit "\r\n")) :
    Server.Tells c R s (kickOne reason c s name nick) := by
  have hverb : Bot.Plain (lit "KICK") := by decide
  unfold kickOne
  dsimp only
  split
  · exact .reply s _
  next channel hch =>
  split_ifs
  · exact .reply s _
  · exact .reply s _
  split
  · exact .reply s _
  next q hfind =>
  split_ifs
  · exact .reply s _
  · have htext := hR (.cons hverb (.cons (Bot.channel_word (hs.channel name channel hch))
      (.singleton (hs.found hfind))))
    exact (Server.Tells.tell s channel htext).trans (.modifyChannel _ name _)

end Handlers

/-! ## Lines and disconnects -/

/-- The line asks the server to relay a text behind these words. -/
inductive Message.Relays (m : Message) : List Str → Str → Prop
  | privmsg {targets text target : Str} {rest : List Str} (hm : m.handler = some .privmsg)
      (hparams : m.params = targets :: text :: rest) (htarget : target ∈ splitString targets comma) :
      Relays m [lit "PRIVMSG", target] text
  | topic {name text : Str} {rest : List Str} (hm : m.handler = some .topic)
      (hparams : m.params = name :: text :: rest) : Relays m [lit "TOPIC", name] text
  | kick {channels users : Str} {rest : List Str} {turn : Str × Str} (hm : m.handler = some .kick)
      (hparams : m.params = channels :: users :: rest)
      (hturn : turn ∈ KickCommand.targets (splitString channels comma) (splitString users comma)) :
      Relays m [lit "KICK", turn.1, turn.2] (rest.headD (lit "No reason given"))

theorem contents_append (line : Str) : contents (line ++ lit "\r\n") = line := by
  have hlit : lit "\r\n" = [cr] ++ [lf] := by decide
  rw [hlit, ← List.append_assoc, contents, List.dropLast_concat, List.dropLast_concat]

/-- What the server sends for `x` is what the words and the text say, and the bot lets it pass
unless it misreads the text. -/
def Bot.LetsPass (bot : Bot) (x : Client) (middle : List Str) (text message : Str) : Prop :=
  contents message = userLine x.nickname x.username middle text
    ∧ (bot.processLine (contents message) = .ok bot ↔ ¬ bot.Misreads x.nickname middle text)

section Sender

variable {s : Server} (h : Reachable s) {c : Ptr} {x : Client} (hx : s.heap c = some x)
  (hreg : x.isRegistered = true)
include h hx hreg

theorem Reachable.isValidUsername : UserCommand.isValidUsername x.username = true := by
  have huser := (h.identity_sound c x hx).username
  simp only [Client.isRegistered, Bool.and_eq_true] at hreg
  rwa [show x.identity.userSet = true from hreg.2, if_pos rfl] at huser

theorem Reachable.letsPass (bot : Bot) {middle : List Str} (hmiddle : Bot.Relayable middle)
    (text : Str) :
    bot.LetsPass x middle text (userLine x.nickname x.username middle text ++ lit "\r\n") := by
  have hvalid := h.isValidNickname hx hreg
  obtain ⟨hsp, hbang⟩ := not_mem_of_isValidNickname hvalid
  have huser := sp_not_mem_of_isValidUsername (h.isValidUsername hx hreg)
  rw [Bot.LetsPass, contents_append]
  exact ⟨rfl, Bot.processLine_userLine hsp huser hmiddle bot (ne_nil_of_isValidNickname hvalid) hbang text⟩

end Sender

/-- A command other than PASS, NICK and USER is handled for a registered client, and else it is
answered. -/
theorem Server.tells_processMessage {s : Server} {c : Ptr} {R : Str → Prop} {m : Message} {k : Command}
    (hm : m.handler = some k) (hk : k ≠ .pass ∧ k ≠ .nick ∧ k ≠ .user)
    (hexecute : (s.client c).isRegistered = true → Server.Tells c R s (k.execute s c m.params)) :
    Server.Tells c R s (s.processMessage c m) := by
  by_cases hreg : (s.client c).isRegistered = true
  · rw [s.processMessage_of_registered hreg hm]
    exact hexecute hreg
  · obtain ⟨h1, h2, h3, h4⟩ := Message.command_ne_of_handler hm
    have hlookup : commands.lookup m.command = some k := hm
    rw [Bool.not_eq_true] at hreg
    unfold processMessage
    dsimp only
    rw [if_neg h1, if_neg h2, if_neg h3, if_neg h4, hlookup]
    dsimp only
    rw [if_pos (show k ≠ .pass ∧ k ≠ .nick ∧ k ≠ .user ∧ _ from ⟨hk.1, hk.2.1, hk.2.2, hreg⟩)]
    split_ifs
    · exact .reply s _
    · exact .reply s _

theorem Reachable.named {s : Server} (h : Reachable s) : s.Named where
  nickname p := by
    cases hp : s.heap p with
    | none =>
      refine Or.inl ?_
      rw [Server.nickname, Server.client, hp]
      rfl
    | some x =>
      have hsound := (h.identity_sound p x hp).nickname
      rw [Server.nickname, Server.client_of_heap hp]
      split_ifs at hsound
      · exact Or.inr hsound
      · exact Or.inl hsound
  channel name ch hch := (h.keyed name ch hch).1

/-- The words in a message, put together the way the handlers do it. -/
theorem userLine_pair (s : Server) (c : Ptr) {verb w : Str} {mark : Str}
    (hmark : mark = sp :: verb ++ [sp]) (text : Str) :
    userPrefix s c ++ mark ++ w ++ lit " :" ++ text ++ lit "\r\n"
      = userLine (s.nickname c) (s.username c) [verb, w] text ++ lit "\r\n" := by
  rw [hmark]
  simp only [userPrefix, userLine, spaced_cons, spaced_nil, List.append_assoc, List.cons_append,
    List.nil_append]

section Line

variable {s : Server} (h : Reachable s) {c : Ptr} {x : Client} (hx : s.heap c = some x) (bot : Bot)
include h hx

/-- What PRIVMSG, TOPIC and KICK relay, from a state with the names of a reachable one. -/
theorem Reachable.tells_line {t : Server} {x' : Client} (ht : t.Named) (hx' : t.heap c = some x')
    (hidentity : x'.identity = x.identity) {m : Message}
    (hm : m.handler = some .privmsg ∨ m.handler = some .topic ∨ m.handler = some .kick) :
    Server.Tells c (fun message => ∃ middle text, m.Relays middle text ∧ bot.LetsPass x middle text message)
      t (t.processMessage c m) := by
  have hnickname : t.nickname c = x.nickname := by
    rw [Server.nickname, Server.client_of_heap hx']
    exact Client.nickname_of_identity hidentity
  have husername : t.username c = x.username := by
    rw [Server.username, Server.client_of_heap hx']
    exact congrArg Client.Identity.username hidentity
  have hregistered : (t.client c).isRegistered = true → x.isRegistered = true := by
    rw [Server.client_of_heap hx', Client.isRegistered_of_identity hidentity]
    exact id
  -- PRIVMSG and TOPIC lines have one word in front of their text
  have hpair : ∀ {mark verb w text : Str}, mark = sp :: verb ++ [sp] → (t.client c).isRegistered = true →
      Bot.Relayable [verb, w] → bot.LetsPass x [verb, w] text
        (userPrefix t c ++ mark ++ w ++ lit " :" ++ text ++ lit "\r\n") := by
    intro mark verb w text hmark hreg hmiddle
    rw [userLine_pair t c hmark, hnickname, husername]
    exact h.letsPass hx (hregistered hreg) bot hmiddle text
  rcases hm with hm | hm | hm
  · refine Server.tells_processMessage hm (by decide) fun hreg => ?_
    show Server.Tells c _ t (PrivmsgCommand.execute t c m.params)
    unfold PrivmsgCommand.execute
    split
    · exact .reply t _
    · exact .reply t _
    next targets text rest hparams =>
    refine .foldl fun u htu target htarget => PrivmsgCommand.tells_sendOne (htu.named ht) fun hmiddle => ?_
    exact ⟨_, text, .privmsg hm hparams htarget, hpair (by decide) hreg hmiddle⟩
  · refine Server.tells_processMessage hm (by decide) fun hreg => ?_
    refine TopicCommand.tells_execute ht fun name text rest hparams hmiddle => ?_
    exact ⟨_, text, .topic hm hparams, hpair (by decide) hreg hmiddle⟩
  · -- a KICK line has two words in front of its text, so `hpair` does not fit it
    refine Server.tells_processMessage hm (by decide) fun hreg => ?_
    show Server.Tells c _ t (KickCommand.execute t c m.params)
    unfold KickCommand.execute
    split
    next channels users rest hparams =>
      dsimp only
      split_ifs
      · exact .reply t _
      refine .foldl fun u htu turn hturn => KickCommand.tells_kickOne (htu.named ht) fun hmiddle => ?_
      refine ⟨_, _, .kick hm hparams hturn, ?_⟩
      rw [htu.userPrefix_eq]
      have hline : ∀ reason : Str, userPrefix t c ++ lit " KICK " ++ turn.1 ++ lit " " ++ turn.2
          ++ lit " :" ++ reason ++ lit "\r\n"
          = userLine x.nickname x.username [lit "KICK", turn.1, turn.2] reason ++ lit "\r\n" := by
        intro reason
        have hmark : lit " KICK " = sp :: lit "KICK" ++ [sp] := by decide
        have hblank : lit " " = [sp] := by decide
        rw [hmark, hblank, ← hnickname, ← husername]
        simp only [userPrefix, userLine, spaced_cons, spaced_nil, List.append_assoc, List.cons_append,
          List.nil_append]
      rw [hline]
      exact h.letsPass hx (hregistered hreg) bot hmiddle _
    · exact .reply t _

end Line

/-- A message that PRIVMSG, TOPIC or KICK relays for `x` is one that the bot lets pass unless it
misreads the text. -/
def Bot.LetsPassFrom (bot : Bot) (x : Client) (m : Message) (message : Str) : Prop :=
  ∃ middle text, m.Relays middle text ∧ bot.LetsPass x middle text message

/-- Whatever the server relays to others for a client as PRIVMSG, TOPIC, KICK or QUIT, the bot
neither throws nor sends on it exactly if it does not misread the text. -/
theorem relayed_text_ignored_iff {s : Server} (h : Reachable s) (bot : Bot) :
    (∀ c x line p y, s.heap c = some x → p ≠ c → s.heap p = some y →
      (Parser.parse line).handler = some .privmsg ∨ (Parser.parse line).handler = some .topic
        ∨ (Parser.parse line).handler = some .kick →
      (∃ z, (s.processLine c line).heap p = some z
        ∧ y.Appends (bot.LetsPassFrom x (Parser.parse line)) z)
      ∧ ∀ s', LineOf c line s s' → ∃ z, s'.heap p = some z
        ∧ y.Appends (bot.LetsPassFrom x (Parser.parse line)) z)
    ∧ ∀ fd c x p y, s.clients.find? fd = some c → s.heap c = some x → p ≠ c → s.heap p = some y →
      ∃ z, (s.disconnectClient fd).heap p = some z
        ∧ y.Appends (bot.LetsPass x [lit "QUIT"] (Server.quitReason x)) z := by
  refine ⟨fun c x line p y hx hpc hy hm => ⟨?_, fun s' hline => ?_⟩, fun fd c x p y hfd hx hpc hy => ?_⟩
  · exact (h.tells_line hx bot h.named hx rfl hm).output p y hpc hy
  · -- the line has been taken out of the sender's buffer before it is processed
    obtain ⟨w, x', hw, _, hextract, rfl⟩ := hline
    obtain rfl := Option.some_inj.mp (hx.symm.trans hw)
    have hidentity := Client.extractLine_identity hextract
    have hextracted : (s.modify c fun _ => x').Named := by
      refine ⟨fun q => ?_, h.named.channel⟩
      by_cases hq : q = c
      · rw [hq, Server.nickname, Server.client_modify_self _ hx, Client.nickname_of_identity hidentity,
          ← Server.client_of_heap hx]
        exact h.named.nickname c
      · rw [Server.nickname, Server.client_modify_ne _ _ hq]
        exact h.named.nickname q
    have hy' : (s.modify c fun _ => x').heap p = some y := by
      rw [Server.heap_modify, if_neg hpc, hy]
    have htells := h.tells_line hx bot hextracted (Server.heap_extracted hx x') hidentity hm
    obtain ⟨z, hz, hyz⟩ := htells.output p y hpc hy'
    refine ⟨z, ?_, hyz⟩
    rw [Server.handleLine, Server.heap_modify, if_neg hpc]
    exact hz
  · refine Server.appends_disconnectClient hfd hx hpc hy fun hreg => ?_
    have hline : Server.quitMessage x
        = userLine x.nickname x.username [lit "QUIT"] (Server.quitReason x) ++ lit "\r\n" := by
      have hmark : lit "@localhost QUIT :" = lit "@localhost" ++ (sp :: lit "QUIT") ++ lit " :" := by decide
      simp only [Server.quitMessage, userLine, hmark, spaced_cons, spaced_nil,
        List.append_assoc, List.cons_append, List.nil_append]
    rw [hline]
    exact h.letsPass hx hreg bot (.singleton (by decide)) (Server.quitReason x)

/-- Ann and the bot are on the bot's channel. -/
def greeterEvents : List Event :=
  [.accept (.connection 4 true (some (lit "127.0.0.1")) (some 0)),
    .accept (.connection 5 true (some (lit "127.0.0.2")) (some 1)),
    .read 4 (.data (lit "PASS pw\r\nNICK ann\r\nUSER a 0 * :A\r\nJOIN #c\r\n")),
    .read 5 (.data (lit "PASS :pw\r\nNICK ft_bot\r\nUSER ftbot 0 * :ft_irc bonus bot\r\nJOIN #c\r\n"))]

def greeted : Server := (Server.start (lit "pw") 3).run greeterEvents

def greeter : Bot := { password := lit "pw", channel := lit "#c" }

theorem relayed_text_ignored_iff_sample :
    ∃ x y z, greeted.heap 0 = some x ∧ greeted.heap 1 = some y ∧ y.nickname = Bot.botNickname
      ∧ (greeted.processLine 0 (lit "PRIVMSG #c :hello")).heap 1 = some z
      ∧ y.Appends (greeter.LetsPassFrom x (Parser.parse (lit "PRIVMSG #c :hello"))) z
      ∧ z.trace.accepted.getLast? = some (lit ":ann!a@localhost PRIVMSG #c :hello\r\n")
      ∧ ¬ greeter.Misreads (lit "ann") [lit "PRIVMSG", lit "#c"] (lit "hello") := by
  obtain ⟨hadm, hann, hbot, hcommand, hsent, hread⟩ : (Server.start (lit "pw") 3).AdmitsAll greeterEvents
      ∧ (greeted.heap 0).isSome = true
      ∧ (greeted.heap 1).map Client.nickname = some Bot.botNickname
      ∧ (Parser.parse (lit "PRIVMSG #c :hello")).handler = some .privmsg
      ∧ ((greeted.processLine 0 (lit "PRIVMSG #c :hello")).heap 1).map
          (fun z => z.trace.accepted.getLast?)
        = some (some (lit ":ann!a@localhost PRIVMSG #c :hello\r\n"))
      ∧ ¬ greeter.Misreads (lit "ann") [lit "PRIVMSG", lit "#c"] (lit "hello") := by
    decide +kernel
  obtain ⟨x, hx⟩ := Option.isSome_iff_exists.mp hann
  obtain ⟨y, hy, hname⟩ := Option.map_eq_some_iff.mp hbot
  have hreachable : Reachable greeted := (Reachable.start _ _).run hadm
  have hline := (relayed_text_ignored_iff hreachable greeter).1 0 x
    (lit "PRIVMSG #c :hello") 1 y hx (by decide) hy (Or.inl hcommand)
  obtain ⟨z, hz, hyz⟩ := hline.1
  rw [hz, Option.map_some, Option.some_inj] at hsent
  exact ⟨x, y, z, hx, hy, hname, hz, hyz, hsent, hread⟩

/-- A number in a message to the channel stops the bot. -/
theorem numeric_text_stops_bot :
    Reachable greeted
      ∧ (greeted.heap 1).map Client.nickname = some Bot.botNickname
      ∧ ((greeted.processLine 0 (lit "PRIVMSG #c :room 433 is free")).heap 1).map
          (fun z => z.trace.accepted.getLast?)
        = some (some (lit ":ann!a@localhost PRIVMSG #c :room 433 is free\r\n"))
      ∧ greeter.processLine (contents (lit ":ann!a@localhost PRIVMSG #c :room 433 is free\r\n"))
        = .error "bot nickname is already in use" := by
  obtain ⟨hadm, hbot, hsent, hstopped⟩ : (Server.start (lit "pw") 3).AdmitsAll greeterEvents
      ∧ (greeted.heap 1).map Client.nickname = some Bot.botNickname
      ∧ ((greeted.processLine 0 (lit "PRIVMSG #c :room 433 is free")).heap 1).map
          (fun z => z.trace.accepted.getLast?)
        = some (some (lit ":ann!a@localhost PRIVMSG #c :room 433 is free\r\n"))
      ∧ greeter.processLine (contents (lit ":ann!a@localhost PRIVMSG #c :room 433 is free\r\n"))
        = .error "bot nickname is already in use" := by
    decide +kernel
  exact ⟨(Reachable.start _ _).run hadm, hbot, hsent, hstopped⟩

/-! ## Real joins -/

namespace Bot

/-- What `isValidChannelName` of the bot's `main` leaves. -/
theorem clean_of_channelOfArgument {argument channel : Str}
    (h : channelOfArgument argument = some channel) :
    channel.length ≤ maxChannelNameSize ∧ ∀ b ∈ channel, b ≠ nul ∧ b ≠ cr ∧ b ≠ lf := by
  unfold channelOfArgument at h
  dsimp only at h
  split_ifs at h with hvalid
  obtain rfl := Option.some_inj.mp h
  unfold isValidBotChannelName at hvalid
  split_ifs at hvalid with hsize _
  refine ⟨?_, fun b hb => ⟨?_, ?_, ?_⟩⟩
  · simp only [Bool.or_eq_true, decide_eq_true_eq, not_or] at hsize
    omega
  · rintro rfl
    exact absurd (List.all_eq_true.mp List.all_takeWhile nul hb) (by decide)
  · rintro rfl
    exact absurd (List.all_eq_true.mp hvalid cr hb) (by decide)
  · rintro rfl
    exact absurd (List.all_eq_true.mp hvalid lf hb) (by decide)

/-- A greeting passes the bot's outbound check. -/
theorem sendLine_greeting (bot : Bot) {argument nickname : Str}
    (hbot : channelOfArgument argument = some bot.channel)
    (hnick : NickCommand.isValidNickname nickname = true) :
    let greeting := lit "PRIVMSG " ++ bot.channel ++ lit " :Hello @" ++ nickname
    bot.sendLine greeting = .ok { bot with sent := bot.sent ++ [greeting ++ lit "\r\n"] } := by
  intro greeting
  obtain ⟨hlen, hchannel⟩ := clean_of_channelOfArgument hbot
  obtain ⟨hnickClean, hnickLen⟩ := short_of_isValidNickname hnick
  have hlength : greeting.length = 8 + bot.channel.length + 9 + nickname.length := by
    simp only [greeting, List.length_append]
    rfl
  have hsize : ¬ (greeting.isEmpty || decide (greeting.length + 2 > maxIrcMessageSize)) = true := by
    have hne : greeting ≠ [] := by
      rw [← List.length_pos_iff, hlength]
      omega
    simp only [maxChannelNameSize] at hlen
    simp only [maxIrcMessageSize, Bool.or_eq_true, List.isEmpty_iff, decide_eq_true_eq, hne, false_or,
      hlength]
    omega
  have hclean : Clean greeting := by
    simp +decide [greeting, hnickClean, show Clean bot.channel from hchannel]
  have hcontrol : ¬ (greeting.any fun b => b == nul || b == cr || b == lf) = true := by
    rw [List.any_eq_true]
    rintro ⟨b, hb, hbad⟩
    obtain ⟨h0, h1, h2⟩ := hclean b hb
    simp [h0, h1, h2] at hbad
  rw [sendLine, if_neg hsize, if_neg hcontrol]

end Bot

/-- On the line of a JOIN the bot greets, in its own channel and anybody but itself, and it never
throws. -/
theorem real_joins_greeted (bot : Bot) (argument nickname username channelName : Str)
    (hbot : channelOfArgument argument = some bot.channel)
    (hnick : NickCommand.isValidNickname nickname = true)
    (huser : UserCommand.isValidUsername username = true)
    (hchannel : JoinCommand.isValidChannelName channelName = true) :
    bot.processLine
        (lit ":" ++ nickname ++ lit "!" ++ username ++ lit "@localhost JOIN :" ++ channelName)
      = .ok (if channelName = bot.channel ∧ nickname ≠ Bot.botNickname then
          { bot with
            sent := bot.sent ++ [lit "PRIVMSG " ++ channelName ++ lit " :Hello @" ++ nickname ++ lit "\r\n"] }
        else bot) := by
  have hline : lit ":" ++ nickname ++ lit "!" ++ username ++ lit "@localhost JOIN :" ++ channelName
      = userLine nickname username [lit "JOIN"] channelName := by
    have hmark : lit "@localhost JOIN :" = lit "@localhost" ++ (sp :: lit "JOIN") ++ lit " :" := by
      decide
    simp only [userLine, hmark, spaced_cons, spaced_nil, List.append_assoc, List.nil_append]
  obtain ⟨hsp, hbang⟩ := not_mem_of_isValidNickname hnick
  have husp := sp_not_mem_of_isValidUsername huser
  have hne := ne_nil_of_isValidNickname hnick
  have hmiddle : Bot.Relayable [lit "JOIN"] := .singleton (by decide)
  -- a numeric is looked for with its blanks, and the name has none
  have hnumeric : ¬ ∃ numeric ∈ Bot.numerics, blanked numeric <:+: channelName := by
    rintro ⟨numeric, -, hfound⟩
    exact (Bot.channel_word hchannel).word.1 (hfound.subset List.mem_cons_self)
  have hjoined : Bot.joinedChannel [lit "JOIN"] channelName = some channelName := if_pos rfl
  rw [hline, Bot.processLine_of_not_numeric hsp husp hmiddle bot hnumeric,
    Bot.greetJoinedUser_userLine hsp husp hmiddle bot hne hbang]
  by_cases hgreets : channelName = bot.channel ∧ nickname ≠ Bot.botNickname
  · obtain ⟨rfl, hother⟩ := hgreets
    rw [if_pos ⟨hother, hjoined⟩, if_pos ⟨rfl, hother⟩, bot.sendLine_greeting hbot hnick]
  · rw [if_neg hgreets, if_neg]
    rintro ⟨hother, heq⟩
    rw [hjoined, Option.some_inj] at heq
    exact hgreets ⟨heq, hother⟩

theorem real_joins_greeted_sample :
    greeter.processLine (lit ":ann!a@localhost JOIN :#c")
      = .ok { greeter with sent := [lit "PRIVMSG #c :Hello @ann\r\n"] } :=
  real_joins_greeted greeter (lit "#c") (lit "ann") (lit "a") (lit "#c") (by decide) (by decide)
    (by decide) (by decide)

end FtIrc
