import FtIrc.BotStream
import FtIrc.Lib.Presence
import FtIrc.ModeReplay
import FtIrc.Roster
import Mathlib.Data.List.TakeWhile

/-!
# What a message announces

A client that is sent messages only can still know who is on its channels: JOIN, PART, KICK, QUIT,
NICK, TOPIC and MODE lines and the numerics 001, 332 and 353 say so, and PRIVMSG lines what is said
there. `notices` reads a message as such a client does, and for each kind of message that the server
sends a lemma says what is read.
-/

namespace FtIrc

open Bytes

/-- What clients are told, all names and nicknames in lower case. -/
abbrev Notice := Presence.Notice Str Str Str

/-! ## Reading a message -/

/-- The text in front of the first blank. -/
def word (text : Str) : Str := text.takeWhile (· != sp)

/-- The text behind the first blank. -/
def behind (text : Str) : Str := (text.dropWhile (· != sp)).tail

/-- The last parameter of a message, without its colon. -/
def trailing (text : Str) : Str := (contents text).drop 1

/-- The nickname in a source. -/
def sourceNickname (source : Str) : Str := (source.drop 1).takeWhile (· != ch '!')

/-- An entry of a list of names, without the mark of an operator. -/
def unmarked (entry : Str) : Str := if entry.head? = some (ch '@') then entry.drop 1 else entry

/-- The operators that letters and arguments make and unmake. -/
def operatorChanges : Bool → Str → List Str → List (Bool × Str)
  | _, [], _ => []
  | on, c :: cs, pieces =>
    if c = ch '+' then operatorChanges true cs pieces
    else if c = ch '-' then operatorChanges false cs pieces
    else if c = ch 'o' then (on, pieces.headD []) :: operatorChanges on cs pieces.tail
    else if c = ch 'k' ∨ (c = ch 'l' ∧ on = true) then operatorChanges on cs pieces.tail
    else operatorChanges on cs pieces

/-- The verbs a client listens to. -/
def verbs : List Str :=
  [lit "001", lit "JOIN", lit "PART", lit "KICK", lit "QUIT", lit "NICK", lit "TOPIC", lit "332",
    lit "353", lit "MODE", lit "PRIVMSG"]

/-- What a client reads in a message that comes from `nick` with this verb, and the rest. -/
def readNotices (nick verb rest : Str) : List Notice :=
  if verb = lit "001" then [.welcome (toIrcLowerCase (word rest))]
  else if verb = lit "JOIN" then [.joined (toIrcLowerCase nick) (trailing rest)]
  else if verb = lit "PART" then [.left (toIrcLowerCase nick) (word rest)]
  else if verb = lit "KICK" then [.left (toIrcLowerCase (word (behind rest))) (word rest)]
  else if verb = lit "QUIT" then [.quit (toIrcLowerCase nick)]
  else if verb = lit "NICK" then [.renamed (toIrcLowerCase nick) (toIrcLowerCase (trailing rest))]
  else if verb = lit "TOPIC" then [.topic (word rest) (trailing (behind rest))]
  else if verb = lit "332" then [.topic (word (behind rest)) (trailing (behind (behind rest)))]
  else if verb = lit "353" then
    let entries := fields sp (trailing (behind (behind (behind rest))))
    [.names (word (behind (behind rest))) (entries.map fun e => toIrcLowerCase (unmarked e)).toFinset
      ((entries.filter fun e => e.head? = some (ch '@')).map
        fun e => toIrcLowerCase (unmarked e)).toFinset]
  else if verb = lit "MODE" then
    let parts := (contents (behind rest)).splitOn sp
    (operatorChanges true (parts.headD []) parts.tail).map
      fun e => .operator e.1 (toIrcLowerCase e.2) (word rest)
  else if verb = lit "PRIVMSG" then
    if PrivmsgCommand.isChannel (word rest) then
      [.said (toIrcLowerCase nick) (word rest) (trailing (behind rest))]
    else [.whispered (toIrcLowerCase nick) (trailing (behind rest))]
  else []

/-- What a client reads in a message. -/
def notices (text : Str) : List Notice :=
  readNotices (sourceNickname (word text)) (word (behind text)) (behind (behind text))

/-! ## The parts of a message -/

section Parts

variable {text a b : Str}

theorem word_append (h : sp ∉ a) (b : Str) : word (a ++ sp :: b) = a := by
  have hall : ∀ x ∈ a, (x != sp) = true := fun x hx => bne_iff_ne.mpr fun heq => h (heq ▸ hx)
  rw [word, List.takeWhile_append_of_pos hall, List.takeWhile_cons_of_neg (by decide), List.append_nil]

theorem behind_append (h : sp ∉ a) (b : Str) : behind (a ++ sp :: b) = b := by
  have hall : ∀ x ∈ a, (x != sp) = true := fun x hx => bne_iff_ne.mpr fun heq => h (heq ▸ hx)
  rw [behind, List.dropWhile_append_of_pos hall, List.dropWhile_cons_of_neg (by decide), List.tail_cons]

theorem not_mem_word (text : Str) : sp ∉ word text := by
  intro h
  exact absurd (List.mem_takeWhile_imp h) (by decide)

/-- A text with a blank is cut at it. -/
theorem word_behind (h : sp ∈ text) : word text ++ sp :: behind text = text := by
  cases hcut : cut [sp] text with
  | none => exact absurd h (cut_singleton_eq_none.mp hcut)
  | some e =>
    obtain ⟨rfl, hword⟩ := cut_singleton_eq_some.mp hcut
    rw [word_append hword, behind_append hword]

theorem contents_append_end (text : Str) : contents (text ++ lit "\r\n") = text := by
  rw [contents, show lit "\r\n" = [cr] ++ [lf] from rfl, ← List.append_assoc, List.dropLast_concat,
    List.dropLast_concat]

theorem trailing_append_end (text : Str) : trailing (colon :: (text ++ lit "\r\n")) = text := by
  rw [trailing, ← List.cons_append, contents_append_end, List.drop_one, List.tail_cons]

/-- Source, verb and the rest of a message. -/
theorem notices_of_parts {source verb : Str} (hsource : sp ∉ source) (hverb : sp ∉ verb) (rest : Str) :
    notices (source ++ sp :: (verb ++ sp :: rest)) = readNotices (sourceNickname source) verb rest := by
  rw [notices, word_append hsource, behind_append hsource, word_append hverb, behind_append hverb]

end Parts

/-! ## Messages that announce nothing -/

/-- A message with a verb that clients do not listen to. -/
def Neutral (text : Str) : Prop :=
  ∃ source verb rest, text = source ++ sp :: (verb ++ sp :: rest) ∧ sp ∉ source ∧ sp ∉ verb
    ∧ verb ∉ verbs

namespace Neutral

theorem notices {text : Str} (h : Neutral text) : notices text = [] := by
  obtain ⟨source, verb, rest, rfl, hsource, hverb, hnot⟩ := h
  rw [notices_of_parts hsource hverb, readNotices]
  simp only [verbs, List.mem_cons, List.not_mem_nil, or_false, not_or] at hnot
  simp only [hnot, if_false]

/-- Source and verb decide. -/
theorem append {head : Str} (h : Neutral head) (rest : Str) : Neutral (head ++ rest) := by
  obtain ⟨source, verb, tail, rfl, hsource, hverb, hnot⟩ := h
  refine ⟨source, verb, tail ++ rest, ?_, hsource, hverb, hnot⟩
  simp only [List.append_assoc, List.cons_append]

/-- Two blanks and the verb between them can be looked for. -/
theorem of_word {head : Str} (hfirst : sp ∈ head) (hsecond : sp ∈ behind head)
    (hverb : word (behind head) ∉ verbs) : Neutral head := by
  refine ⟨word head, word (behind head), behind (behind head), ?_, not_mem_word _, not_mem_word _, hverb⟩
  rw [word_behind hsecond, word_behind hfirst]

end Neutral

/-! ## Messages in the name of a user -/

/-- Nicknames and usernames leave blanks and exclamation marks to the message. -/
structure Spoken (nick user : Str) : Prop where
  nickname : sp ∉ nick
  mark : ch '!' ∉ nick
  username : sp ∉ user

section Users

variable {nick user : Str} (h : Spoken nick user)
include h

theorem Spoken.not_mem_source : sp ∉ lit ":" ++ nick ++ lit "!" ++ user ++ lit "@localhost" := by
  have hlits : sp ∉ lit ":" ∧ sp ∉ lit "!" ∧ sp ∉ lit "@localhost" := by decide
  simp only [List.mem_append, not_or]
  exact ⟨⟨⟨⟨hlits.1, h.nickname⟩, hlits.2.1⟩, h.username⟩, hlits.2.2⟩

theorem Spoken.sourceNickname :
    sourceNickname (lit ":" ++ nick ++ lit "!" ++ user ++ lit "@localhost") = nick := by
  have hall : ∀ b ∈ nick, (b != ch '!') = true := fun b hb => bne_iff_ne.mpr fun heq => h.mark (heq ▸ hb)
  have htext : (lit ":" ++ nick ++ lit "!" ++ user ++ lit "@localhost").drop 1
      = nick ++ ch '!' :: (user ++ lit "@localhost") := by
    simp only [List.append_assoc]
    rfl
  rw [FtIrc.sourceNickname, htext, List.takeWhile_append_of_pos hall,
    List.takeWhile_cons_of_neg (by decide), List.append_nil]

/-- A message of a user is read with the nickname of the user. -/
theorem Spoken.notices {verb : Str} (hverb : sp ∉ verb) (rest : Str) :
    notices (lit ":" ++ nick ++ lit "!" ++ user ++ lit "@localhost" ++ sp :: (verb ++ sp :: rest))
      = readNotices nick verb rest := by
  rw [notices_of_parts h.not_mem_source hverb, h.sourceNickname]

/-- A message of a user with a verb that nobody listens to. -/
theorem Spoken.neutral {verb : Str} (hverb : sp ∉ verb) (hnot : verb ∉ verbs) (rest : Str) :
    Neutral (lit ":" ++ nick ++ lit "!" ++ user ++ lit "@localhost" ++ sp :: (verb ++ sp :: rest)) :=
  ⟨_, verb, rest, rfl, h.not_mem_source, hverb, hnot⟩

theorem Spoken.notices_join (name : Str) :
    FtIrc.notices (lit ":" ++ nick ++ lit "!" ++ user ++ lit "@localhost" ++ lit " JOIN :" ++ name
      ++ lit "\r\n") = [.joined (toIrcLowerCase nick) name] := by
  have hverb : sp ∉ lit "JOIN" := by decide
  have hread := h.notices hverb (colon :: (name ++ lit "\r\n"))
  rw [List.append_assoc, List.append_assoc _ (lit " JOIN :")]
  refine hread.trans ?_
  rw [readNotices, if_neg (by decide), if_pos rfl, trailing_append_end]

theorem Spoken.notices_part {name : Str} (hname : sp ∉ name) :
    FtIrc.notices (lit ":" ++ nick ++ lit "!" ++ user ++ lit "@localhost" ++ lit " PART " ++ name
      ++ lit " :Left all channels\r\n") = [.left (toIrcLowerCase nick) name] := by
  have hverb : sp ∉ lit "PART" := by decide
  have hread := h.notices hverb
    (name ++ sp :: lit ":Left all channels\r\n")
  rw [List.append_assoc, List.append_assoc _ (lit " PART ")]
  refine hread.trans ?_
  rw [readNotices, if_neg (by decide), if_neg (by decide), if_pos rfl, word_append hname]

theorem Spoken.notices_kick {name target : Str} (hname : sp ∉ name) (htarget : sp ∉ target)
    (reason : Str) :
    FtIrc.notices (lit ":" ++ nick ++ lit "!" ++ user ++ lit "@localhost" ++ lit " KICK " ++ name
      ++ lit " " ++ target ++ lit " :" ++ reason ++ lit "\r\n") = [.left (toIrcLowerCase target) name] := by
  have hverb : sp ∉ lit "KICK" := by decide
  have hread := h.notices hverb
    (name ++ sp :: (target ++ sp :: colon :: (reason ++ lit "\r\n")))
  simp only [List.append_assoc] at hread ⊢
  refine hread.trans ?_
  rw [readNotices, if_neg (by decide), if_neg (by decide), if_neg (by decide), if_pos rfl,
    word_append hname, behind_append hname, word_append htarget]

theorem Spoken.notices_quit (reason : Str) :
    FtIrc.notices (lit ":" ++ nick ++ lit "!" ++ user ++ lit "@localhost QUIT :" ++ reason
      ++ lit "\r\n") = [.quit (toIrcLowerCase nick)] := by
  have hverb : sp ∉ lit "QUIT" := by decide
  have hread := h.notices hverb (colon :: (reason ++ lit "\r\n"))
  simp only [List.append_assoc] at hread ⊢
  refine hread.trans ?_
  rw [readNotices]
  simp +decide

theorem Spoken.notices_nick (newNickname : Str) :
    FtIrc.notices (lit ":" ++ nick ++ lit "!" ++ user ++ lit "@localhost NICK :" ++ newNickname
      ++ lit "\r\n") = [.renamed (toIrcLowerCase nick) (toIrcLowerCase newNickname)] := by
  have hverb : sp ∉ lit "NICK" := by decide
  have hread := h.notices hverb (colon :: (newNickname ++ lit "\r\n"))
  simp only [List.append_assoc] at hread ⊢
  refine hread.trans ?_
  rw [readNotices, trailing_append_end]
  simp +decide

theorem Spoken.notices_topic {name : Str} (hname : sp ∉ name) (topic : Str) :
    FtIrc.notices (lit ":" ++ nick ++ lit "!" ++ user ++ lit "@localhost" ++ lit " TOPIC " ++ name
      ++ lit " :" ++ topic ++ lit "\r\n") = [.topic name topic] := by
  have hverb : sp ∉ lit "TOPIC" := by decide
  have hread := h.notices hverb
    (name ++ sp :: colon :: (topic ++ lit "\r\n"))
  simp only [List.append_assoc] at hread ⊢
  refine hread.trans ?_
  rw [readNotices, word_append hname, behind_append hname, trailing_append_end]
  simp +decide

theorem Spoken.notices_privmsg {target : Str} (htarget : sp ∉ target) (text : Str) :
    FtIrc.notices (lit ":" ++ nick ++ lit "!" ++ user ++ lit "@localhost" ++ lit " PRIVMSG " ++ target
      ++ lit " :" ++ text ++ lit "\r\n")
      = if PrivmsgCommand.isChannel target then [.said (toIrcLowerCase nick) target text]
        else [.whispered (toIrcLowerCase nick) text] := by
  have hverb : sp ∉ lit "PRIVMSG" := by decide
  have hread := h.notices hverb
    (target ++ sp :: colon :: (text ++ lit "\r\n"))
  simp only [List.append_assoc] at hread ⊢
  refine hread.trans ?_
  rw [readNotices, word_append htarget, behind_append htarget, trailing_append_end]
  simp +decide

end Users

/-! ## Messages in the name of the server -/

/-- The source of the numerics. -/
theorem notices_of_server {verb : Str} (hverb : sp ∉ verb) (rest : Str) :
    notices (lit ":server" ++ sp :: (verb ++ sp :: rest)) = readNotices (lit "server") verb rest :=
  notices_of_parts (by decide) hverb rest

theorem notices_welcome {nick : Str} (hnick : sp ∉ nick) (user : Str) :
    notices (welcome nick user) = [.welcome (toIrcLowerCase nick)] := by
  have hverb : sp ∉ lit "001" := by decide
  have hread := notices_of_server hverb
    (nick ++ sp :: (lit ":Welcome to the ft_irc Network, " ++ nick ++ lit "!" ++ user
      ++ lit "@localhost\r\n"))
  unfold welcome
  simp only [List.append_assoc] at hread ⊢
  refine hread.trans ?_
  rw [readNotices, if_pos rfl, word_append hnick]

theorem notices_topicReply {nick name : Str} (hnick : sp ∉ nick) (hname : sp ∉ name) (topic : Str) :
    notices (lit ":server 332 " ++ nick ++ lit " " ++ name ++ lit " :" ++ topic ++ lit "\r\n")
      = [.topic name topic] := by
  have hverb : sp ∉ lit "332" := by decide
  have hread := notices_of_server hverb
    (nick ++ sp :: (name ++ sp :: colon :: (topic ++ lit "\r\n")))
  simp only [List.append_assoc] at hread ⊢
  refine hread.trans ?_
  rw [readNotices, behind_append hnick, word_append hname, behind_append hname, trailing_append_end]
  simp +decide

theorem notices_namesReply {nick name : Str} (hnick : sp ∉ nick) (hname : sp ∉ name) (list : Str) :
    notices (lit ":server 353 " ++ nick ++ lit " = " ++ name ++ lit " :" ++ list ++ lit "\r\n")
      = [.names name ((fields sp list).map fun e => toIrcLowerCase (unmarked e)).toFinset
          (((fields sp list).filter fun e => e.head? = some (ch '@')).map
            fun e => toIrcLowerCase (unmarked e)).toFinset] := by
  have hverb : sp ∉ lit "353" := by decide
  have hread := notices_of_server hverb
    (nick ++ sp :: (lit "=" ++ sp :: (name ++ sp :: colon :: (list ++ lit "\r\n"))))
  simp only [List.append_assoc] at hread ⊢
  refine hread.trans ?_
  have hequals : sp ∉ lit "=" := by decide
  rw [readNotices, behind_append hnick, behind_append hequals, word_append hname, behind_append hname,
    trailing_append_end]
  simp +decide

/-! ## Modes -/

section Modes

open ModeCommand

variable {nick user target : Str}

/-- The source of a MODE message has a tilde in front of the username. -/
theorem Spoken.tilde (h : Spoken nick user) : Spoken nick (lit "~" ++ user) := by
  refine ⟨h.nickname, h.mark, fun hmem => ?_⟩
  exact (List.mem_append.mp hmem).elim (fun hb => absurd hb (by decide)) h.username

theorem Spoken.notices_mode (h : Spoken nick user) (htarget : sp ∉ target) {letters : Str}
    (hletters : sp ∉ letters) {pieces : List Str} (hpieces : ∀ p ∈ pieces, sp ∉ p) :
    FtIrc.notices (lit ":" ++ nick ++ lit "!~" ++ user ++ lit "@localhost MODE " ++ target ++ lit " "
        ++ letters ++ (pieces.flatMap fun p => sp :: p) ++ lit "\r\n")
      = (operatorChanges true letters pieces).map
          fun e => .operator e.1 (toIrcLowerCase e.2) target := by
  have hverb : sp ∉ lit "MODE" := by decide
  have hread := h.tilde.notices hverb
    (target ++ sp :: ((letters ++ pieces.flatMap fun p => sp :: p) ++ lit "\r\n"))
  have hparts : (letters ++ pieces.flatMap fun p => sp :: p).splitOn sp = letters :: pieces := by
    have hall : ∀ p ∈ letters :: pieces, sp ∉ p := List.forall_mem_cons.mpr ⟨hletters, hpieces⟩
    have hsplit := splitOn_pieces hall
    have hshape : ((letters :: pieces).flatMap fun p => sp :: p)
        = [] ++ sp :: (letters ++ pieces.flatMap fun p => sp :: p) := rfl
    rw [hshape, List.splitOn_append_cons_self] at hsplit
    exact (List.cons.inj hsplit).2
  simp only [List.append_assoc] at hread ⊢
  refine hread.trans ?_
  rw [readNotices, behind_append htarget, word_append htarget, ← List.append_assoc,
    contents_append_end, hparts]
  simp +decide

/-- The operators that a change makes or unmakes, by the name it is announced with. -/
def Change.named : Change → Option (Bool × Str)
  | .operator on nick _ => some (on, nick)
  | _ => none

/-- The operators are read back from the letters and arguments of an announcement. -/
theorem operatorChanges_letters (lastSign : Option Bool) {on : Bool}
    (hon : ∀ b, lastSign = some b → on = b) (ds : List Change) :
    operatorChanges on (letters (lastSign.map sign) ds) (ds.filterMap Change.piece)
      = ds.filterMap Change.named := by
  induction ds generalizing lastSign on with
  | nil => rfl
  | cons d ds ih =>
    have hletter : operatorChanges d.isPlus (d.letter :: letters (some (sign d.isPlus)) ds)
        ((d :: ds).filterMap Change.piece) = (d :: ds).filterMap Change.named := by
      have hsame : ∀ b, some d.isPlus = some b → d.isPlus = b := fun b hb => Option.some_inj.mp hb
      have hrest := ih (some d.isPlus) hsame
      rw [Option.map_some] at hrest
      rw [filterMap_cons_toList, filterMap_cons_toList, ← hrest]
      cases d <;> simp +decide [operatorChanges, Change.letter, Change.piece, Change.named, Change.isPlus]
    rw [letters]
    split_ifs with hsame
    · cases lastSign with
      | none => cases hsame
      | some b =>
        have hsign : b = d.isPlus := by
          rw [Option.map_some, Option.some_inj] at hsame
          revert hsame
          cases b <;> cases d.isPlus <;> decide
        rw [hon b rfl, hsign]
        exact hletter
    · rw [List.singleton_append, operatorChanges]
      cases hplus : d.isPlus with
      | true =>
        rw [sign, if_pos rfl, if_pos rfl]
        rw [hplus, sign, if_pos rfl] at hletter
        exact hletter
      | false =>
        rw [sign, if_neg Bool.false_ne_true, if_neg (by decide), if_pos rfl]
        rw [hplus, sign, if_neg Bool.false_ne_true] at hletter
        exact hletter

end Modes

end FtIrc
