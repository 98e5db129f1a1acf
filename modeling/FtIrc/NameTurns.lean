import FtIrc.Departures
import FtIrc.ModeLetters
import FtIrc.Roster

/-!
# The turns of a command

JOIN, KICK and PRIVMSG take the names of their channels one after the other, TOPIC, MODE and INVITE
are about one channel each. A `NameTurn` is the part of a command that is about one name. A turn that
finds its channel stays within it. One that does not founds a channel if it is a JOIN's, and else
answers that there is none.
-/

namespace FtIrc

open Bytes

/-! ## Turns -/

/-- The part of a command that is about one name. -/
structure NameTurn where
  name : Str
  /-- the numeric that says that there is no such channel -/
  missing : Str
  /-- what the command does, with the name in this spelling -/
  run : Str → Server → Server

/-- The name is spelled as it was given. -/
def NameTurn.step (s : Server) (t : NameTurn) : Server := t.run t.name s

/-- The turns of JOIN, each with its key. -/
def JoinCommand.turns (client : Ptr) : List Str → List Str → List NameTurn
  | [], _ => []
  | channelName :: channels, keys =>
    { name := channelName
      missing := lit ":server 403 "
      run := fun name s => joinOne s client name (keys.headD []) } :: turns client channels keys.tail

/-- The turns of KICK. -/
def KickCommand.turns (client : Ptr) (params : List Str) : List NameTurn :=
  match loopOf params with
  | none => []
  | some (reason, l) => l.map fun e =>
    { name := e.1
      missing := lit ":server 403 "
      run := fun name s => kickOne reason client s name e.2 }

/-- The turns of PRIVMSG. -/
def PrivmsgCommand.turns (senderPrefix : Str) (client : Ptr) (params : List Str) : List NameTurn :=
  match params with
  | targetString :: messageText :: _ => (splitString targetString comma).map fun target =>
    { name := target
      missing := lit ":server 401 "
      run := fun name s => sendOne senderPrefix messageText client s name }
  | _ => []

/-- The turn of TOPIC. -/
def TopicCommand.turns (client : Ptr) (params : List Str) : List NameTurn :=
  match params with
  | channelName :: rest =>
    [{ name := channelName
       missing := lit ":server 403 "
       run := fun name s => execute s client (name :: rest) }]
  | [] => []

/-- The turn of MODE. -/
def ModeCommand.turns (client : Ptr) (params : List Str) : List NameTurn :=
  match params with
  | target :: rest =>
    [{ name := target
       missing := lit ":server 403 "
       run := fun name s => execute s client (name :: rest) }]
  | [] => []

/-- The turn of INVITE. -/
def InviteCommand.turns (client : Ptr) (params : List Str) : List NameTurn :=
  match params with
  | targetNick :: channelName :: rest =>
    [{ name := channelName
       missing := lit ":server 403 "
       run := fun name s => execute s client (targetNick :: name :: rest) }]
  | _ => []

/-- The turns of a line, if its client may command. -/
def Server.turns (s : Server) (c : Ptr) (m : Message) : List NameTurn :=
  if (s.client c).isRegistered = true then
    match m.handler with
    | some .join =>
      if m.params.head? = some (lit "0") then [] else JoinCommand.turns c m.channelNames m.keys
    | some .kick => KickCommand.turns c m.params
    | some .privmsg => PrivmsgCommand.turns (userPrefix s c) c m.params
    | some .topic => TopicCommand.turns c m.params
    | some .mode => ModeCommand.turns c m.params
    | some .invite => InviteCommand.turns c m.params
    | _ => []
  else []

/-! ### A command that has turns does nothing else -/

section Execute

variable {s : Server} {c : Ptr} {params : List Str}

/-- The loop of JOIN is the fold of its turns. -/
theorem JoinCommand.joinLoop_eq (s : Server) (c : Ptr) (names keys : List Str) :
    joinLoop s c names keys = (turns c names keys).foldl NameTurn.step s := by
  induction names generalizing s keys with
  | nil => rfl
  | cons name names ih =>
    rw [joinLoop, ih]
    rfl

theorem JoinCommand.map_name_turns (c : Ptr) (names keys : List Str) :
    (turns c names keys).map NameTurn.name = names := by
  induction names generalizing keys with
  | nil => rfl
  | cons name names ih => rw [turns, List.map_cons, ih]

/-- Every turn of JOIN is one of `joinOne`, with some key. -/
theorem JoinCommand.of_mem_turns {names keys : List Str} {t : NameTurn} (h : t ∈ turns c names keys) :
    t.missing = lit ":server 403 " ∧ ∃ key, t.run = fun name s => joinOne s c name key := by
  induction names generalizing keys with
  | nil => exact absurd h List.not_mem_nil
  | cons name names ih =>
    rw [turns] at h
    rcases List.mem_cons.mp h with rfl | h
    · exact ⟨rfl, _, rfl⟩
    · exact ih h

theorem KickCommand.execute_eq_turns (h : turns c params ≠ []) :
    execute s c params = (turns c params).foldl NameTurn.step s := by
  unfold turns at h ⊢
  rw [execute_eq]
  cases hloop : loopOf params with
  | none =>
    rw [hloop] at h
    exact absurd rfl h
  | some loop =>
    dsimp only
    rw [List.foldl_map]
    rfl

theorem PrivmsgCommand.execute_eq_turns (h : turns (userPrefix s c) c params ≠ []) :
    execute s c params = (turns (userPrefix s c) c params).foldl NameTurn.step s := by
  match params with
  | [] => exact absurd rfl h
  | [_] => exact absurd rfl h
  | target :: text :: rest =>
    rw [turns, List.foldl_map]
    rfl

theorem TopicCommand.execute_eq_turns (h : turns c params ≠ []) :
    execute s c params = (turns c params).foldl NameTurn.step s := by
  cases params with
  | nil => exact absurd rfl h
  | cons => rfl

theorem ModeCommand.execute_eq_turns (h : turns c params ≠ []) :
    execute s c params = (turns c params).foldl NameTurn.step s := by
  cases params with
  | nil => exact absurd rfl h
  | cons => rfl

theorem InviteCommand.execute_eq_turns (h : turns c params ≠ []) :
    execute s c params = (turns c params).foldl NameTurn.step s := by
  match params with
  | [] => exact absurd rfl h
  | [_] => exact absurd rfl h
  | nick :: name :: rest => rfl

end Execute

/-- A line that has turns does nothing else. -/
theorem Server.processMessage_eq_turns {s : Server} {c : Ptr} {m : Message} (h : s.turns c m ≠ []) :
    s.processMessage c m = (s.turns c m).foldl NameTurn.step s := by
  unfold turns at h ⊢
  by_cases hreg : (s.client c).isRegistered = true
  swap
  · rw [if_neg hreg] at h
    exact absurd rfl h
  rw [if_pos hreg] at h ⊢
  cases hm : m.handler with
  | none =>
    rw [hm] at h
    exact absurd rfl h
  | some command =>
    rw [processMessage_of_registered hreg hm]
    rw [hm] at h
    cases command with
    | join =>
      dsimp only at h ⊢
      by_cases hzero : m.params.head? = some (lit "0")
      · rw [if_pos hzero] at h
        exact absurd rfl h
      rw [if_neg hzero] at h ⊢
      have hparams : m.params ≠ [] := by
        intro hnil
        rw [Message.channelNames, hm, hnil] at h
        exact h rfl
      show JoinCommand.execute s c m.params = _
      rw [JoinCommand.execute_eq hm (fun hleaves => hzero hleaves.2) hparams, JoinCommand.joinLoop_eq]
    | kick => exact KickCommand.execute_eq_turns h
    | privmsg => exact PrivmsgCommand.execute_eq_turns h
    | topic => exact TopicCommand.execute_eq_turns h
    | mode => exact ModeCommand.execute_eq_turns h
    | invite => exact InviteCommand.execute_eq_turns h
    | pass => exact absurd rfl h
    | nick => exact absurd rfl h
    | user => exact absurd rfl h

/-! ## Staying within a channel -/

namespace Server

/-- Between `u` and `v` everybody has been offered texts of one kind, and nothing else. -/
def Offers (R : Str → Prop) (u v : Server) : Prop :=
  ∀ p x, u.heap p = some x → ∃ y texts, v.heap p = some y
    ∧ y.trace.offered = x.trace.offered ++ texts ∧ ∀ text ∈ texts, R text

/-- Between `u` and `v` one channel may have changed, if it is there, and nothing else has happened
but messages of one kind. -/
structure Within (R : Str → Prop) (name : Str) (u v : Server) : Prop where
  frame : ∀ n, n ≠ name → v.findChannel n = u.findChannel n
  kept : (v.findChannel name).isSome = (u.findChannel name).isSome
  nickname : ∀ p, v.nickname p = u.nickname p
  offers : u.Offers R v

namespace Within

variable {R : Str → Prop} {name : Str} {u v w : Server}

theorem refl (R : Str → Prop) (name : Str) (u : Server) : Within R name u u where
  frame _ _ := rfl
  kept := rfl
  nickname _ := rfl
  offers _ x hx := ⟨x, [], hx, (List.append_nil _).symm, fun _ h => absurd h List.not_mem_nil⟩

/-- What is offered in two steps is of the kind if it is in each. -/
theorem trans (h : Within R name u v) (h' : Within R name v w) : Within R name u w where
  frame n hn := (h'.frame n hn).trans (h.frame n hn)
  kept := h'.kept.trans h.kept
  nickname p := (h'.nickname p).trans (h.nickname p)
  offers p x hx := by
    obtain ⟨y, texts, hy, hoffered, htexts⟩ := h.offers p x hx
    obtain ⟨z, texts', hz, hoffered', htexts'⟩ := h'.offers p y hy
    refine ⟨z, texts ++ texts', hz, ?_, fun text htext => ?_⟩
    · rw [hoffered', hoffered, List.append_assoc]
    · exact (List.mem_append.mp htext).elim (htexts text) (htexts' text)

theorem sendMessage (p : Ptr) {text : Str} (htext : R text) : Within R name u (u.sendMessage p text) where
  frame n _ := by
    rw [findChannel, channels_sendMessage]
    rfl
  kept := by
    rw [findChannel, channels_sendMessage]
    rfl
  nickname q := nickname_sendMessage ..
  offers q x hx := by
    rw [Server.sendMessage, heap_modify]
    split_ifs with hq
    · refine ⟨x.sendMessage text, [text], by rw [← hq, hx]; rfl, x.offered_sendMessage text, ?_⟩
      exact fun t ht => List.mem_singleton.mp ht ▸ htext
    · exact (refl R name u).offers q x hx

/-- A broadcast of one text of the kind. -/
theorem sendAll (ps : List Ptr) {text : Str} (htext : R text) : Within R name u (u.sendAll ps text) :=
  sendAll_induct u ps text (P := Within R name u) (.refl R name u) fun _ p ht =>
    ht.trans (.sendMessage p htext)

/-- Texts of the kind, one after the other. -/
theorem sendMessages (p : Ptr) {texts : List Str} (htexts : ∀ text ∈ texts, R text) :
    Within R name u (texts.foldl (·.sendMessage p) u) := by
  induction texts generalizing u with
  | nil => exact .refl R name u
  | cons text texts ih =>
    obtain ⟨htext, hrest⟩ := List.forall_mem_cons.mp htexts
    exact (sendMessage p htext).trans (ih hrest)

/-- The channel changes. -/
theorem modifyChannel (f : Channel → Channel) : Within R name u (u.modifyChannel name f) where
  frame n hn := OrdMap.find?_modify_ne _ _ hn
  kept := by
    rw [findChannel, Server.modifyChannel, OrdMap.find?_modify_self, Option.isSome_map]
    rfl
  nickname _ := rfl
  offers := (refl R name u).offers

/-- There are the channels there were. -/
theorem mem_keys (h : Within R name u v) {n : Str} : n ∈ v.channels.keys ↔ n ∈ u.channels.keys := by
  have hsome : ∀ s : Server, n ∈ s.channels.keys ↔ (s.findChannel n).isSome = true := fun s => by
    rw [OrdMap.mem_keys, Option.isSome_iff_exists]
    rfl
  rw [hsome, hsome]
  by_cases hn : n = name
  · rw [hn, h.kept]
  · rw [h.frame n hn]

end Within

end Server

/-- The kind has all texts of the user with this nickname, and all replies but one numeric. -/
structure Allows (R : Str → Prop) (nickname missing : Str) : Prop where
  user : ∀ {text : Str}, FromUser nickname text → R text
  reply : ∀ {numeric : Str} (rest : Str), numeric.length = 12 → numeric ≠ missing → R (numeric ++ rest)

/-- All texts. -/
theorem allows_true (nickname missing : Str) : Allows (fun _ => True) nickname missing :=
  ⟨fun _ => trivial, fun _ _ _ => trivial⟩

/-- The texts that do not say that there is no such channel. -/
theorem allows_found {nickname missing : Str} (hvalid : NickCommand.isValidNickname nickname = true)
    (hserver : lit ":server " <+: missing) (hlen : missing.length = 12) :
    Allows (fun text => ¬ missing <+: text) nickname missing where
  user hfrom hmissing := hfrom.not_server hvalid (hserver.trans hmissing)
  reply rest hnumeric hne hmissing := by
    have hhead := List.prefix_of_prefix_length_le hmissing (List.prefix_append _ rest)
      (hlen.trans hnumeric.symm).le
    exact hne (hhead.eq_of_length (hlen.trans hnumeric.symm)).symm

/-! ## The commands stay within the channel they find -/

/-- PRIVMSG takes the name of a channel for one. -/
theorem PrivmsgCommand.isChannel_of_isValidChannelName {name : Str}
    (h : JoinCommand.isValidChannelName name = true) : isChannel name = true := by
  obtain ⟨first, rest, rfl, hfirst, -⟩ := head_of_isValidChannelName h
  simpa [isChannel] using hfirst

section Commands

variable {R : Str → Prop} {c : Ptr} {u : Server} {name : Str}

/-- KICK from a channel that there is not. -/
theorem KickCommand.kickOne_of_none (hnone : u.findChannel name = none) (reason nick : Str) :
    ∃ rest, kickOne reason c u name nick = u.sendMessage c (lit ":server 403 " ++ rest) := by
  unfold kickOne
  rw [hnone]
  simp only [List.append_assoc]
  exact ⟨_, rfl⟩

/-- KICK looks for the channel first, and changes and answers about no other. -/
theorem KickCommand.within_kickOne (hR : Allows R (u.nickname c) (lit ":server 403 "))
    (hmissing : u.findChannel name = none → ∀ rest, R (lit ":server 403 " ++ rest)) (reason nick : Str) :
    u.Within R name (kickOne reason c u name nick) := by
  cases hch : u.findChannel name with
  | none =>
    obtain ⟨rest, hone⟩ := kickOne_of_none hch reason nick
    rw [hone]
    exact .sendMessage c (hmissing hch rest)
  | some ch =>
    unfold kickOne
    rw [hch]
    dsimp only
    by_cases hmem : (!ch.isMember c) = true
    · rw [if_pos hmem]
      simp only [List.append_assoc]
      exact .sendMessage c (hR.reply _ (by decide) (by decide))
    rw [if_neg hmem]
    by_cases hop : (!ch.isOperator c) = true
    · rw [if_pos hop]
      simp only [List.append_assoc]
      exact .sendMessage c (hR.reply _ (by decide) (by decide))
    rw [if_neg hop]
    cases hfind : u.findClientByNick nick with
    | none =>
      simp only [List.append_assoc]
      exact .sendMessage c (hR.reply _ (by decide) (by decide))
    | some d =>
      dsimp only
      by_cases hd : (!ch.isMember d) = true
      · rw [if_pos hd]
        simp only [List.append_assoc]
        exact .sendMessage c (hR.reply _ (by decide) (by decide))
      rw [if_neg hd]
      have htext := hR.user (fromUser_kickMessage u c name nick reason)
      exact ((Server.Within.sendAll _ htext).trans (.sendMessage c htext)).trans (.modifyChannel _)

/-- PRIVMSG to a channel that there is not. -/
theorem PrivmsgCommand.sendOne_of_none (hkind : isChannel name = true) (hnone : u.findChannel name = none)
    (senderPrefix text : Str) :
    ∃ rest, sendOne senderPrefix text c u name = u.sendMessage c (lit ":server 401 " ++ rest) := by
  unfold sendOne
  dsimp only
  rw [if_pos hkind, hnone]
  simp only [List.append_assoc]
  exact ⟨_, rfl⟩

/-- PRIVMSG changes no channel. -/
theorem PrivmsgCommand.within_sendOne (hR : Allows R (u.nickname c) (lit ":server 401 "))
    (hmissing : u.findChannel name = none → ∀ rest, R (lit ":server 401 " ++ rest))
    (hnames : ∀ n ∈ u.channels.keys, JoinCommand.isValidChannelName n = true) {senderPrefix : Str}
    (hfrom : FromUser (u.nickname c) senderPrefix) (text : Str) :
    u.Within R name (sendOne senderPrefix text c u name) := by
  have htext : R (senderPrefix ++ lit " PRIVMSG " ++ name ++ lit " :" ++ text ++ lit "\r\n") :=
    hR.user (((((hfrom.append _).append _).append _).append _).append _)
  by_cases hkind : isChannel name = true
  · cases hch : u.findChannel name with
    | none =>
      obtain ⟨rest, hone⟩ := sendOne_of_none (c := c) hkind hch senderPrefix text
      rw [hone]
      exact .sendMessage c (hmissing hch rest)
    | some ch =>
      unfold sendOne
      dsimp only
      rw [if_pos hkind, hch]
      dsimp only
      split_ifs
      · simp only [List.append_assoc]
        exact .sendMessage c (hR.reply _ (by decide) (by decide))
      · exact .sendAll _ htext
  · unfold sendOne
    dsimp only
    rw [if_neg hkind]
    cases hfind : u.findClientByNick name with
    | some q => exact .sendMessage q htext
    | none =>
      -- the name of a channel would be one for `isChannel`
      have hch : u.findChannel name = none := by
        by_contra hch
        obtain ⟨ch, hch⟩ := Option.ne_none_iff_exists'.mp hch
        exact hkind (isChannel_of_isValidChannelName (hnames name (OrdMap.mem_keys.mpr ⟨ch, hch⟩)))
      simp only [List.append_assoc]
      exact .sendMessage c (hmissing hch _)

/-- TOPIC of a channel that there is not. -/
theorem TopicCommand.execute_of_none (hnone : u.findChannel name = none) (rest : List Str) :
    ∃ text, execute u c (name :: rest) = u.sendMessage c (lit ":server 403 " ++ text) := by
  unfold execute
  dsimp only
  rw [hnone]
  simp only [List.append_assoc]
  exact ⟨_, rfl⟩

theorem TopicCommand.within_execute (hR : Allows R (u.nickname c) (lit ":server 403 "))
    (hmissing : u.findChannel name = none → ∀ rest, R (lit ":server 403 " ++ rest)) (rest : List Str) :
    u.Within R name (execute u c (name :: rest)) := by
  cases hch : u.findChannel name with
  | none =>
    obtain ⟨text, htext⟩ := execute_of_none (c := c) hch rest
    rw [htext]
    exact .sendMessage c (hmissing hch text)
  | some ch =>
    unfold execute
    dsimp only
    rw [hch]
    dsimp only
    by_cases hmem : (!ch.isMember c) = true
    · rw [if_pos hmem]
      simp only [List.append_assoc]
      exact .sendMessage c (hR.reply _ (by decide) (by decide))
    rw [if_neg hmem]
    cases rest with
    | nil =>
      dsimp only
      simp only [List.append_assoc]
      split_ifs <;> exact .sendMessage c (hR.reply _ (by decide) (by decide))
    | cons text =>
      dsimp only
      by_cases hop : (ch.topicRestricted && !ch.isOperator c) = true
      · rw [if_pos hop]
        simp only [List.append_assoc]
        exact .sendMessage c (hR.reply _ (by decide) (by decide))
      rw [if_neg hop]
      have htext : R (userPrefix u c ++ lit " TOPIC " ++ name ++ lit " :" ++ text ++ lit "\r\n") :=
        hR.user ((((((fromUser_userPrefix u c).append _).append _).append _).append _).append _)
      exact ((Server.Within.modifyChannel _).trans (.sendAll _ htext)).trans (.sendMessage c htext)

/-- INVITE of somebody who is there to a channel that is not. -/
theorem InviteCommand.execute_of_none {nick : Str} (hfind : u.findClientByNick nick ≠ none)
    (hnone : u.findChannel name = none) (rest : List Str) :
    ∃ text, execute u c (nick :: name :: rest) = u.sendMessage c (lit ":server 403 " ++ text) := by
  obtain ⟨d, hfind⟩ := Option.ne_none_iff_exists'.mp hfind
  unfold execute
  dsimp only
  rw [hfind, hnone]
  simp only [List.append_assoc]
  exact ⟨_, rfl⟩

theorem InviteCommand.within_execute (hR : Allows R (u.nickname c) (lit ":server 403 "))
    (hmissing : u.findChannel name = none → ∀ rest, R (lit ":server 403 " ++ rest)) (nick : Str)
    (rest : List Str) : u.Within R name (execute u c (nick :: name :: rest)) := by
  unfold execute
  dsimp only
  cases hfind : u.findClientByNick nick with
  | none =>
    simp only [List.append_assoc]
    exact .sendMessage c (hR.reply _ (by decide) (by decide))
  | some d =>
    dsimp only
    cases hch : u.findChannel name with
    | none =>
      simp only [List.append_assoc]
      exact .sendMessage c (hmissing hch _)
    | some ch =>
      dsimp only
      by_cases hmem : (!ch.isMember c) = true
      · rw [if_pos hmem]
        simp only [List.append_assoc]
        exact .sendMessage c (hR.reply _ (by decide) (by decide))
      rw [if_neg hmem]
      by_cases hd : ch.isMember d = true
      · rw [if_pos hd]
        simp only [List.append_assoc]
        exact .sendMessage c (hR.reply _ (by decide) (by decide))
      rw [if_neg hd]
      by_cases hop : (ch.inviteOnly && !ch.isOperator c) = true
      · rw [if_pos hop]
        simp only [List.append_assoc]
        exact .sendMessage c (hR.reply _ (by decide) (by decide))
      rw [if_neg hop]
      simp only [List.append_assoc]
      have hadded : u.Within R name (u.modifyChannel name (·.addInvited d)) := .modifyChannel _
      refine (hadded.trans (.sendMessage c (hR.reply _ (by decide) (by decide)))).trans
        (.sendMessage d (hR.user ?_))
      have hfrom := fromUser_userPrefix
        ((u.modifyChannel name (·.addInvited d)).sendMessage c
          (lit ":server 341 " ++ (u.nickname c ++ (lit " " ++ (nick ++ (lit " " ++ (name ++ lit "\r\n"))))))) c
      rw [Server.nickname_sendMessage] at hfrom
      exact hfrom.append _

namespace ModeCommand

theorem fromUser_announcement (c : Ptr) (target : Str) (m : ModeLoop) :
    FromUser (m.server.nickname c) (announcement c target m) := by
  unfold FromUser announcement
  simp only [List.append_assoc]
  rw [List.prefix_append_right_inj, List.prefix_append_right_inj]
  exact List.prefix_append _ _

section Letters

variable {m : ModeLoop} (h : u.Within R name m.server)
include h

theorem within_change (f : Channel → Channel) (isPlus : Bool) (letter : Byte) (piece : Str) :
    u.Within R name ((m.change name f).applied isPlus letter piece).server := by
  rw [ModeLoop.server_applied, ModeLoop.server_change]
  exact h.trans (.modifyChannel f)

variable {nickname missing : Str} (hR : Allows R nickname missing)
include hR

theorem within_reply {numeric : Str} (rest : Str) (hlength : numeric.length = 12)
    (hne : numeric ≠ missing) : u.Within R name (m.reply c (numeric ++ rest)).server :=
  h.trans (.sendMessage c (hR.reply rest hlength hne))

variable (hnumerics : lit ":server 696 " ≠ missing ∧ lit ":server 467 " ≠ missing
  ∧ lit ":server 441 " ≠ missing)
include hnumerics

theorem within_keyLetter (ch : Channel) : u.Within R name (keyLetter c name ch m).server := by
  unfold keyLetter
  split
  · exact h
  next key rest _ =>
  have hrest : u.Within R name { m with params := rest }.server := h
  dsimp only
  simp only [List.append_assoc]
  split_ifs
  · exact within_reply hrest hR _ (by decide) hnumerics.1
  · exact within_change hrest _ _ _ _
  · exact within_reply hrest hR _ (by decide) hnumerics.2.1
  · exact within_change hrest _ _ _ _
  · exact h

theorem within_limitLetter (ch : Channel) : u.Within R name (limitLetter c name ch m).server := by
  unfold limitLetter
  split_ifs
  · split
    · exact h
    next limit rest _ =>
    have hrest : u.Within R name { m with params := rest }.server := h
    dsimp only
    simp only [List.append_assoc]
    split_ifs
    · exact within_reply hrest hR _ (by decide) hnumerics.1
    · exact within_change hrest _ _ _ _
    · exact h
  · exact within_change h _ _ _ _
  · exact h

/-- The letter may be about somebody who is not there, or not in the channel. -/
theorem within_operatorLetter (ch : Channel) : u.Within R name (operatorLetter c name ch m).server := by
  unfold operatorLetter
  split
  · exact h
  next nick rest _ =>
  have hrest : u.Within R name { m with params := rest }.server := h
  dsimp only
  simp only [List.append_assoc]
  split
  · exact within_reply hrest hR _ (by decide) hnumerics.2.2
  · split_ifs
    · exact within_change hrest _ _ _ _
    · exact within_change hrest _ _ _ _
    · exact hrest
    · exact within_reply hrest hR _ (by decide) hnumerics.2.2

/-- The answers to single letters are numerics of their own. -/
theorem within_modeLetter (letter : Byte) : u.Within R name (modeLetter c name m letter).server := by
  unfold modeLetter
  split
  · exact h
  -- the signs, and then the letters in the order of the source
  split_ifs
  · exact h
  · exact h
  · unfold inviteOnlyLetter
    split_ifs
    · exact within_change h _ _ _ _
    · exact h
  · unfold topicLetter
    split_ifs
    · exact within_change h _ _ _ _
    · exact h
  · exact within_keyLetter h hR hnumerics _
  · exact within_limitLetter h hR hnumerics _
  · exact within_operatorLetter h hR hnumerics _
  · exact h

/-- The loop over the mode string looks the channel up in every turn. -/
theorem within_modeLoop (letters : Str) : u.Within R name (modeLoop c name letters m).server := by
  unfold modeLoop
  induction letters generalizing m with
  | nil => exact h
  | cons letter letters ih => exact ih (within_modeLetter h hR hnumerics letter)

end Letters

theorem execute_of_none (hname : JoinCommand.isValidChannelName name = true)
    (hnone : u.findChannel name = none) (rest : List Str) :
    ∃ text, execute u c (name :: rest) = u.sendMessage c (lit ":server 403 " ++ text) := by
  obtain ⟨first, others, rfl, hfirst, -⟩ := head_of_isValidChannelName hname
  unfold execute
  dsimp only
  rw [if_neg (by rcases hfirst with rfl | rfl <;> simp), hnone]
  simp only [List.append_assoc]
  exact ⟨_, rfl⟩

theorem within_execute (hR : Allows R (u.nickname c) (lit ":server 403 "))
    (hmissing : u.findChannel name = none → ∀ rest, R (lit ":server 403 " ++ rest)) (rest : List Str) :
    u.Within R name (execute u c (name :: rest)) := by
  unfold execute
  dsimp only
  split_ifs with hkind
  · exact .refl R name u
  cases hch : u.findChannel name with
  | none =>
    simp only [List.append_assoc]
    exact .sendMessage c (hmissing hch _)
  | some ch =>
    dsimp only
    cases rest with
    | nil =>
      simp only [List.append_assoc]
      exact .sendMessage c (hR.reply _ (by decide) (by decide))
    | cons letters arguments =>
      dsimp only
      by_cases hop : (!ch.isOperator c) = true
      · rw [if_pos hop]
        simp only [List.append_assoc]
        exact .sendMessage c (hR.reply _ (by decide) (by decide))
      rw [if_neg hop]
      cases hknown : unknownLetter letters with
      | some letter =>
        simp only [List.append_assoc]
        exact .sendMessage c (hR.reply _ (by decide) (by decide))
      | none =>
        have hloop : u.Within R name (modeLoop c name letters { server := u, params := arguments }).server :=
          within_modeLoop (.refl R name u) hR (by decide) letters
        generalize modeLoop c name letters { server := u, params := arguments } = m at *
        dsimp only
        unfold broadcastModes
        split_ifs
        · exact hloop
        split
        · exact hloop
        · have hfrom := fromUser_announcement c name m
          rw [hloop.nickname] at hfrom
          exact hloop.trans (.sendAll _ (hR.user hfrom))

end ModeCommand

namespace JoinCommand

/-- What everybody is told. -/
theorem within_announce (hR : Allows R (u.nickname c) (lit ":server 403 ")) (ch : Channel) (isNew : Bool) :
    u.Within R name (announce u c ch name isNew) := by
  have hjoin : R (userPrefix u c ++ lit " JOIN :" ++ name ++ lit "\r\n") :=
    hR.user ((((fromUser_userPrefix u c).append _).append _).append _)
  have hmode : R (lit ":server MODE " ++ name ++ lit " +t\r\n") :=
    hR.reply (lit " " ++ name ++ lit " +t\r\n") (by decide : (lit ":server MODE").length = 12) (by decide)
  rw [announce_eq]
  refine .trans (.sendAll _ hjoin) (.sendMessages c fun text htext => ?_)
  simp only [joinMessages, greetings, List.mem_append, List.mem_cons, List.not_mem_nil,
    or_false] at htext
  rcases htext with ((rfl | hnew) | htopic) | rfl | rfl
  · exact hjoin
  · split_ifs at hnew
    · exact List.mem_singleton.mp hnew ▸ hmode
    · exact absurd hnew List.not_mem_nil
  · split_ifs at htopic
    · rw [List.mem_singleton.mp htopic]
      simp only [List.append_assoc]
      exact hR.reply _ (by decide) (by decide)
    · exact absurd htopic List.not_mem_nil
  · simp only [namesHeader, List.append_assoc]
    exact hR.reply _ (by decide) (by decide)
  · simp only [endLine, List.append_assoc]
    exact hR.reply _ (by decide) (by decide)

/-- JOIN of a channel that there is. -/
theorem within_joinOne (hR : Allows R (u.nickname c) (lit ":server 403 ")) {ch : Channel}
    (hch : u.findChannel name = some ch) (hvalid : isValidChannelName name = true) (key : Str) :
    u.Within R name (joinOne u c name key) := by
  unfold joinOne
  dsimp only
  rw [if_neg (by simpa using hvalid), hch]
  dsimp only
  simp only [List.append_assoc]
  split_ifs
  · exact .refl R name u
  · exact .sendMessage c (hR.reply _ (by decide) (by decide))
  · exact .sendMessage c (hR.reply _ (by decide) (by decide))
  · exact .sendMessage c (hR.reply _ (by decide) (by decide))
  · have hentered : u.Within R name (enter u c name) := (Server.Within.modifyChannel _).trans (.modifyChannel _)
    split
    · exact hentered
    · exact hentered.trans (within_announce ((hentered.nickname c).symm ▸ hR) _ false)

/-- JOIN of a channel that there is not. -/
theorem joinOne_of_none (hnew : u.findChannel name = none) (key : Str) :
    joinOne u c name key = (if isValidChannelName name = true then
      announce { u with channels := u.channels.insert name (Channel.founded name c) } c
        (Channel.founded name c) name true
      else u.sendMessage c (lit ":server 403 " ++ u.nickname c ++ lit " " ++ name
        ++ lit " :No such channel\r\n")) := by
  unfold joinOne
  dsimp only
  by_cases hvalid : isValidChannelName name = true
  · have hfound : Server.findChannel
        { u with channels := u.channels.insert name (Channel.founded name c) } name
          = some (Channel.founded name c) := OrdMap.find?_insert_self ..
    rw [if_neg (by simpa using hvalid), hnew, if_pos hvalid]
    dsimp only
    rw [Effects.create_eq hnew, hfound]
  · rw [if_pos (by simpa using hvalid), if_neg hvalid]

end JoinCommand

end Commands

end FtIrc
