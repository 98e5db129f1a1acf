import FtIrc.Delivery
import FtIrc.Orphans

/-!
# Who hears of a departure

KICK, `JOIN 0` and a disconnect take a client out of channels, and each computes for itself who is
told. A `Leave` says what a turn of one of them is to do, read off the state the turn begins in: who
leaves which channels, who is in them, what the announcement is and whether it fits on a line. The
leaves of a whole step (`Leaves`) are compared with the states in front of it and behind it: theirs
are the memberships that end, and everybody is sent the announcements of the leaves that affect them,
once each, and nothing else but replies to a command of one's own.
-/

namespace FtIrc

open Bytes Relation

namespace Client

/-- The client takes messages, and has room for this one. -/
def Ready (x : Client) (text : Str) : Prop :=
  x.stopped = false ∧ x.sendBuffer.length + text.length ≤ maxSendBuffer

/-- Between `x` and `y` a client has been offered these messages. If it takes messages and has room
for those that are valid, it has been sent these. -/
def Gets (x : Client) (messages : List Str) (y : Client) : Prop :=
  y.trace.offered = x.trace.offered ++ messages
    ∧ (x.stopped = false →
      x.sendBuffer.length + (messages.filter isValidOutboundMessage).flatten.length ≤ maxSendBuffer →
      y.trace.accepted = x.trace.accepted ++ messages.filter isValidOutboundMessage
        ∧ y.sendBuffer = x.sendBuffer ++ (messages.filter isValidOutboundMessage).flatten)

theorem offered_sendMessages (x : Client) (messages : List Str) :
    (messages.foldl sendMessage x).trace.offered = x.trace.offered ++ messages := by
  induction messages generalizing x with
  | nil => exact (List.append_nil _).symm
  | cons message messages ih =>
    rw [List.foldl_cons, ih, offered_sendMessage, List.append_assoc, List.singleton_append]

theorem gets_sendMessages (x : Client) (messages : List Str) :
    x.Gets messages (messages.foldl sendMessage x) :=
  ⟨x.offered_sendMessages messages, fun hlive hroom => sendMessages_of_room hlive hroom⟩

end Client

/-! ## Leaves -/

/-- A client leaves channels: who is in them, what they are to be told, and whether that can be
sent. -/
structure Leave where
  who : Ptr
  channels : List Str
  affected : List Ptr
  text : Str
  fits : Bool

/-- The memberships that end with a leave. -/
def Leave.memberships (e : Leave) : List (Ptr × Str) := e.channels.map fun name => (e.who, name)

/-- The leaves that affect a client. -/
def leavesFor (ls : List Leave) (r : Ptr) : List Leave := ls.filter fun e => decide (r ∈ e.affected)

/-- The leaves in the turns of a loop, each read off the state its turn begins in. -/
def leavesOf {α : Type} (turn : Server → α → Server) (leave : Server → α → Option Leave) :
    Server → List α → List Leave
  | _, [] => []
  | u, a :: l => (leave u a).toList ++ leavesOf turn leave (turn u a) l

theorem leavesOf_append {α : Type} (turn : Server → α → Server) (leave : Server → α → Option Leave)
    (u : Server) (front back : List α) :
    leavesOf turn leave u (front ++ back)
      = leavesOf turn leave u front ++ leavesOf turn leave (front.foldl turn u) back := by
  induction front generalizing u with
  | nil => rfl
  | cons a front ih => rw [List.cons_append, leavesOf, leavesOf, ih, List.append_assoc, List.foldl_cons]

namespace Server

/-- The members of the channel stored under a name. -/
def membersOf (s : Server) (name : Str) : List Ptr := (s.findChannel name).elim [] Channel.members

theorem mem_membersOf {s : Server} {p : Ptr} {name : Str} :
    p ∈ s.membersOf name ↔ s.IsMember p name := by
  unfold membersOf IsMember
  cases s.findChannel name with
  | none => simp
  | some ch => simp

/-- The names of the channels a client is in. -/
def channelsOf (s : Server) (p : Ptr) : List Str :=
  s.channels.keys.filter fun name => decide (p ∈ s.membersOf name)

theorem mem_channelsOf {s : Server} {p : Ptr} {name : Str} :
    name ∈ s.channelsOf p ↔ s.IsMember p name := by
  rw [channelsOf, List.mem_filter, decide_eq_true_eq, mem_membersOf]
  refine ⟨fun h => h.2, fun h => ⟨?_, h⟩⟩
  obtain ⟨ch, hch, _⟩ := h
  exact OrdMap.mem_keys.mpr ⟨ch, hch⟩

/-- A disconnect: the client leaves all of its channels at once. -/
def quitLeave (s : Server) (d : Ptr) : Leave where
  who := d
  channels := s.channelsOf d
  affected := (s.channelsOf d).flatMap s.membersOf
  text := quitMessage (s.client d)
  fits := decide (Clean (quitReason (s.client d)) ∧ quitLength (s.client d) ≤ 512)

end Server

namespace KickCommand

/-- The KICK line. -/
def kickMessage (s : Server) (client : Ptr) (channelName targetNick reason : Str) : Str :=
  userPrefix s client ++ lit " KICK " ++ channelName ++ lit " " ++ targetNick ++ lit " :"
    ++ reason ++ lit "\r\n"

theorem fromUser_kickMessage (s : Server) (c : Ptr) (name nick reason : Str) :
    FromUser (s.nickname c) (kickMessage s c name nick reason) :=
  (((((((fromUser_userPrefix s c).append _).append _).append _).append _).append _).append _).append _

/-- The reason, and the pairs the loop visits, if there is a loop. -/
def loopOf (params : List Str) : Option (Str × List (Str × Str)) :=
  match params with
  | channelList :: userList :: rest =>
    let channels := splitString channelList comma
    let users := splitString userList comma
    if channels.length ≠ 1 ∧ channels.length ≠ users.length then none
    else some (rest.headD (lit "No reason given"), targets channels users)
  | _ => none

theorem execute_eq (s : Server) (c : Ptr) (params : List Str) :
    execute s c params = match loopOf params with
      | none => s.sendMessage c
          (lit ":server 461 " ++ s.nickname c ++ lit " KICK :Not enough parameters\r\n")
      | some (reason, l) => l.foldl (fun s e => kickOne reason c s e.1 e.2) s := by
  match params with
  | [] => rfl
  | [_] => rfl
  | channelList :: userList :: rest =>
    dsimp only [execute, loopOf]
    split_ifs <;> rfl

/-- The parts of a loop are pieces of the line. -/
theorem clean_of_loopOf {params : List Str} (hparams : ∀ p ∈ params, Clean p) {reason : Str}
    {l : List (Str × Str)} (h : loopOf params = some (reason, l)) :
    Clean reason ∧ ∀ e ∈ l, (Clean e.1 ∧ Clean e.2)
      ∧ e.1 ∈ splitString (params.headD []) comma := by
  unfold loopOf at h
  split at h
  · next channelList userList rest =>
    dsimp only at h
    split_ifs at h
    obtain ⟨hreason, rfl⟩ := Prod.mk.inj (Option.some_inj.mp h)
    refine ⟨?_, fun e he => ?_⟩
    · rw [← hreason]
      cases rest with
      | nil => decide
      | cons r rest => exact hparams r (by simp)
    · obtain ⟨hchannel, huser⟩ := mem_targets he
      exact ⟨⟨clean_of_mem_splitString (hparams channelList (by simp)) hchannel,
        clean_of_mem_splitString (hparams userList (by simp)) huser⟩, hchannel⟩
  · cases h

/-- A turn that kicks somebody. -/
theorem kickOne_kicks {s : Server} {c d : Ptr} {name nick : Str} {ch : Channel} (reason : Str)
    (hch : s.findChannel name = some ch) (hmem : c ∈ ch.members) (hop : c ∈ ch.operators)
    (hfind : s.findClientByNick nick = some d) (hd : d ∈ ch.members) :
    kickOne reason c s name nick
      = ((s.broadcastMessage ch (kickMessage s c name nick reason) (some c)).sendMessage c
          (kickMessage s c name nick reason)).modifyChannel name (·.removeMember d) := by
  unfold kickOne
  rw [hch, hfind]
  dsimp only
  rw [if_neg (by simpa using hmem), if_neg (by simpa using hop), if_neg (by simpa using hd)]
  rfl

/-- A turn of the loop of KICK: the client that is found, unless the turn is refused. -/
def leaveOf (reason : Str) (client : Ptr) (s : Server) (channelName targetNick : Str) : Option Leave :=
  match s.findChannel channelName, s.findClientByNick targetNick with
  | some channel, some targetClient =>
    if client ∈ channel.members ∧ client ∈ channel.operators ∧ targetClient ∈ channel.members then
      some {
        who := targetClient
        channels := [channelName]
        affected := channel.members
        text := kickMessage s client channelName targetNick reason
        fits := decide (kickLength s client channelName targetNick reason ≤ 512) }
    else none
  | _, _ => none

theorem leaveOf_eq_some {reason : Str} {c : Ptr} {s : Server} {name nick : Str} {e : Leave}
    (h : leaveOf reason c s name nick = some e) :
    ∃ ch d, s.findChannel name = some ch ∧ s.findClientByNick nick = some d ∧ c ∈ ch.members
      ∧ c ∈ ch.operators ∧ d ∈ ch.members
      ∧ e = {
        who := d
        channels := [name]
        affected := ch.members
        text := kickMessage s c name nick reason
        fits := decide (kickLength s c name nick reason ≤ 512) } := by
  unfold leaveOf at h
  split at h
  · next ch d hch hfind =>
    split_ifs at h with hkicks
    exact ⟨ch, d, hch, hfind, hkicks.1, hkicks.2.1, hkicks.2.2, (Option.some_inj.mp h).symm⟩
  · cases h

/-- A turn in which nobody leaves is refused. -/
theorem kickOne_of_leaveOf_none {reason : Str} {c : Ptr} {s : Server} {name nick : Str}
    (h : leaveOf reason c s name nick = none) :
    ∃ text, lit ":server " <+: text ∧ kickOne reason c s name nick = s.sendMessage c text := by
  have hreply : ∀ (numeric rest : Str), lit ":server " <+: numeric → lit ":server " <+: numeric ++ rest :=
    fun _ rest hnumeric => hnumeric.trans (List.prefix_append _ rest)
  unfold leaveOf at h
  unfold kickOne
  cases hch : s.findChannel name with
  | none =>
    refine ⟨_, ?_, rfl⟩
    simp only [List.append_assoc]
    exact hreply _ _ (by decide)
  | some ch =>
    dsimp only
    by_cases hmem : c ∈ ch.members
    swap
    · rw [if_pos (by simpa using hmem)]
      refine ⟨_, ?_, rfl⟩
      simp only [List.append_assoc]
      exact hreply _ _ (by decide)
    rw [if_neg (by simpa using hmem)]
    by_cases hop : c ∈ ch.operators
    swap
    · rw [if_pos (by simpa using hop)]
      refine ⟨_, ?_, rfl⟩
      simp only [List.append_assoc]
      exact hreply _ _ (by decide)
    rw [if_neg (by simpa using hop)]
    cases hfind : s.findClientByNick nick with
    | none =>
      refine ⟨_, ?_, rfl⟩
      simp only [List.append_assoc]
      exact hreply _ _ (by decide)
    | some d =>
      rw [hch, hfind] at h
      dsimp only at h ⊢
      have hd : d ∉ ch.members := by
        intro hd
        rw [if_pos ⟨hmem, hop, hd⟩] at h
        cases h
      rw [if_pos (by simpa using hd)]
      refine ⟨_, ?_, rfl⟩
      simp only [List.append_assoc]
      exact hreply _ _ (by decide)

end KickCommand

namespace JoinCommand

/-- The PART line of `JOIN 0`. -/
def partMessage (s : Server) (client : Ptr) (channelName : Str) : Str :=
  userPrefix s client ++ lit " PART " ++ channelName ++ lit " :Left all channels\r\n"

theorem fromUser_partMessage (s : Server) (c : Ptr) (name : Str) :
    FromUser (s.nickname c) (partMessage s c name) :=
  (((fromUser_userPrefix s c).append _).append _).append _

/-- The client and the others on the channel are told. -/
def tellPart (s : Server) (client : Ptr) (channel : Channel) : Server :=
  (s.broadcastMessage channel (partMessage s client channel.name) (some client)).sendMessage client
    (partMessage s client channel.name)

@[simp] theorem channels_tellPart (s : Server) (c : Ptr) (ch : Channel) :
    (tellPart s c ch).channels = s.channels := by
  rw [tellPart, Server.channels_sendMessage, Server.channels_broadcastMessage]

@[simp] theorem nickname_tellPart (s : Server) (c : Ptr) (ch : Channel) (p : Ptr) :
    (tellPart s c ch).nickname p = s.nickname p := by
  rw [tellPart, Server.nickname_sendMessage, Server.broadcastMessage, Server.nickname_sendAll]

@[simp] theorem username_tellPart (s : Server) (c : Ptr) (ch : Channel) (p : Ptr) :
    (tellPart s c ch).username p = s.username p := by
  rw [tellPart, Server.username_sendMessage, Server.broadcastMessage, Server.username_sendAll]

/-- A turn of the loop of `JOIN 0`: the client, if it is in the channel. -/
def leaveOf (client : Ptr) (s : Server) (name : Str) : Option Leave :=
  match s.findChannel name with
  | some channel =>
    if client ∈ channel.members then
      some {
        who := client
        channels := [name]
        affected := channel.members
        text := partMessage s client name
        fits := true }
    else none
  | none => none

section Turn

variable {s : Server} {c : Ptr} {name : Str} {ch : Channel}

theorem leave_of_none (hch : s.findChannel name = none) : leave s c name = s := by
  rw [leave, hch]

theorem leave_of_not_mem (hch : s.findChannel name = some ch) (hmem : c ∉ ch.members) :
    leave s c name = s := by
  rw [leave, hch]
  exact if_neg (by simpa using hmem)

theorem leave_of_mem (hch : s.findChannel name = some ch) (hname : ch.name = name)
    (hmem : c ∈ ch.members) :
    leave s c name = if (ch.removeMember c).getMembersCount = 0
      then ((tellPart s c ch).modifyChannel name (·.removeMember c)).removeChannel name
      else (tellPart s c ch).modifyChannel name (·.removeMember c) := by
  rw [leave, hch]
  dsimp only
  rw [if_pos (by simpa using hmem), hname]
  unfold tellPart partMessage
  rw [hname]

/-- A turn leaves the other channels alone. -/
theorem findChannel_leave_ne (hname : ∀ ch, s.findChannel name = some ch → ch.name = name) {n : Str}
    (hn : n ≠ name) : (leave s c name).findChannel n = s.findChannel n := by
  cases hch : s.findChannel name with
  | none => rw [leave_of_none hch]
  | some ch =>
    by_cases hmem : c ∈ ch.members
    · have hmodified : ((tellPart s c ch).modifyChannel name (·.removeMember c)).findChannel n
          = s.findChannel n := by
        rw [Server.findChannel, Server.modifyChannel, OrdMap.find?_modify_ne _ _ hn, channels_tellPart]
        rfl
      rw [leave_of_mem hch (hname ch hch) hmem]
      split_ifs
      · rw [Server.findChannel_removeChannel, if_neg hn, hmodified]
      · exact hmodified
    · rw [leave_of_not_mem hch hmem]

/-- What a turn makes of its channel. -/
theorem findChannel_leave_self (hname : ∀ ch, s.findChannel name = some ch → ch.name = name)
    (hch : s.findChannel name = some ch) (hmem : c ∈ ch.members) :
    (leave s c name).findChannel name
      = if (ch.removeMember c).getMembersCount = 0 then none else some (ch.removeMember c) := by
  rw [leave_of_mem hch (hname ch hch) hmem]
  split_ifs
  · rw [Server.findChannel_removeChannel, if_pos rfl]
  · rw [Server.findChannel, Server.modifyChannel, OrdMap.find?_modify_self, channels_tellPart,
      ← Server.findChannel, hch, Option.map_some]

/-- A turn in which nobody leaves does nothing. -/
theorem leave_of_leaveOf_none (h : leaveOf c s name = none) : leave s c name = s := by
  unfold leaveOf at h
  cases hch : s.findChannel name with
  | none => exact leave_of_none hch
  | some ch =>
    rw [hch] at h
    dsimp only at h
    refine leave_of_not_mem hch fun hmem => ?_
    rw [if_pos hmem] at h
    cases h

theorem leaveOf_eq_some {e : Leave} (h : leaveOf c s name = some e) :
    ∃ ch, s.findChannel name = some ch ∧ c ∈ ch.members
      ∧ e = {
        who := c
        channels := [name]
        affected := ch.members
        text := partMessage s c name
        fits := true } := by
  unfold leaveOf at h
  split at h
  · next ch hch =>
    split_ifs at h with hmem
    exact ⟨ch, hch, hmem, (Option.some_inj.mp h).symm⟩
  · cases h

/-- A turn that leaves a channel. -/
theorem heap_leave (hch : s.findChannel name = some ch) (hmem : c ∈ ch.members) :
    (leave s c name).heap = (tellPart s c ch).heap := by
  unfold leave
  rw [hch]
  dsimp only
  rw [if_pos (by simpa using hmem)]
  split_ifs <;> rfl

/-- What a turn changes is the membership of the client in the channel. -/
theorem isMember_leave (hs : s.Integrity) {d : Ptr} {n : Str} :
    (leave s c name).IsMember d n ↔ s.IsMember d n ∧ ¬ (n = name ∧ d = c) := by
  have hname : ∀ ch, s.findChannel name = some ch → ch.name = name := fun ch hch =>
    (hs.channel name ch hch).name_eq
  unfold Server.IsMember
  by_cases hn : n = name
  swap
  · rw [findChannel_leave_ne hname hn, and_iff_left fun h => hn h.1]
  subst hn
  cases hch : s.findChannel n with
  | none =>
    rw [leave_of_none hch, hch]
    simp
  | some ch =>
    by_cases hmem : c ∈ ch.members
    swap
    · rw [leave_of_not_mem hch hmem, hch]
      refine ⟨fun h => ⟨h, fun heq => ?_⟩, fun h => h.1⟩
      obtain ⟨ch', hch', hd⟩ := h
      obtain rfl := Option.some_inj.mp hch'
      exact hmem (heq.2 ▸ hd)
    -- a channel is deleted when it has no members left
    have hempty : (ch.removeMember c).getMembersCount = 0 → d ∉ (ch.removeMember c).members :=
      fun hcount hd => absurd (List.length_eq_zero_iff.mp hcount) (List.ne_nil_of_mem hd)
    have hmem_iff := (hs.channel n ch hch).wf.mem_removeMember (p := c) (q := d)
    rw [findChannel_leave_self hname hch hmem]
    split_ifs with hcount
    · simpa using fun hd => not_not.mp fun hne => hempty hcount (hmem_iff.mpr ⟨hne, hd⟩)
    · simpa [and_comm] using hmem_iff

end Turn

end JoinCommand

/-! ## Announcements -/

/-- What a client tells its channel, all of the members hear once, itself included. -/
theorem Server.heap_tellChannel {s : Server} {ch : Channel} {c : Ptr} (hnodup : ch.members.Nodup)
    (hc : c ∈ ch.members) (text : Str) (r : Ptr) :
    ((s.broadcastMessage ch text (some c)).sendMessage c text).heap r
      = if r ∈ ch.members then (s.heap r).map (·.sendMessage text) else s.heap r := by
  have hothers : ∀ q, q ∈ ch.members.filter (fun p => some p != some c) ↔ q ∈ ch.members ∧ q ≠ c := by
    intro q
    rw [List.mem_filter, bne_iff_ne, ne_eq, Option.some.injEq]
  rw [broadcastMessage]
  by_cases hr : r = c
  · subst hr
    rw [if_pos hc, sendMessage, heap_modify_self, heap_sendAll_of_not_mem fun h => ((hothers r).mp h).2 rfl]
  · rw [sendMessage, heap_modify_ne _ _ hr]
    split_ifs with hmem
    · exact heap_sendAll_of_mem (hnodup.filter _) ((hothers r).mpr ⟨hmem, hr⟩)
    · exact heap_sendAll_of_not_mem fun h => hmem ((hothers r).mp h).1

/-! ## Steps in which clients leave -/

/-- A line that announces the departure of the user with this nickname: one of its own, or a KICK
line, which spells the nickname as the operator did. -/
def AnnouncesDeparture (nickname text : Str) : Prop :=
  FromUser nickname text ∨ ∃ s c name nick reason,
    text = KickCommand.kickMessage s c name nick reason
      ∧ toIrcLowerCase nick = toIrcLowerCase nickname

/-- A line in the name of the server, which answers a command. -/
def isReply (text : Str) : Bool := (lit ":server ").isPrefixOf text

/-- The leaves in the step from `s` to `s'`, and the client whose command or end it is. -/
inductive Leaves (s s' : Server) : Ptr → List Leave → Prop
  | kick {c : Ptr} {line reason : Str} {l : List (Str × Str)} {t : Server}
      (hline : DispatchOf c line s t s') (hreg : (t.client c).isRegistered = true)
      (hm : (Parser.parse line).handler = some .kick)
      (hloop : KickCommand.loopOf (Parser.parse line).params = some (reason, l)) :
      Leaves s s' c (leavesOf (fun u e => KickCommand.kickOne reason c u e.1 e.2)
        (fun u e => KickCommand.leaveOf reason c u e.1 e.2) t l)
  | part {c : Ptr} {line : Str} {t : Server} (hline : DispatchOf c line s t s')
      (hreg : (t.client c).isRegistered = true) (hm : (Parser.parse line).LeavesAll) :
      Leaves s s' c (leavesOf (fun u name => JoinCommand.leave u c name) (JoinCommand.leaveOf c) t
        t.channels.keys)
  | quit {fd : Fd} {d : Ptr} (hfd : s.clients.find? fd = some d) (hs' : s' = s.disconnectClient fd)
      (hreg : (s.client d).isRegistered = true) : Leaves s s' d [s.quitLeave d]

/-- In the step from `s` to `s'`, for client `c`, all leaves are announced as far as the announcements
fit. -/
structure Announced (s s' : Server) (c : Ptr) (ls : List Leave) : Prop where
  /-- the memberships that end are the ones of the leaves, -/
  lost : ∀ d name, s.IsMember d name ∧ ¬ s'.IsMember d name
    ↔ (d, name) ∈ ls.flatMap Leave.memberships
  /-- and each of them ends once -/
  once : (ls.flatMap Leave.memberships).Nodup
  /-- an announcement names who leaves, -/
  announces : ∀ e ∈ ls, AnnouncesDeparture (s.nickname e.who) e.text
  /-- and can be sent if it fits -/
  fits : ∀ e ∈ ls, isValidOutboundMessage e.text = e.fits
  /-- whoever is there behind the step has been offered the announcements of the leaves that affect
  it, in order, and besides them only replies to its own command; if it takes messages and has room,
  it has been sent the announcements that fit, which are all of them exactly if they all fit -/
  heard : ∀ r x y, s.heap r = some x → s'.heap r = some y → ∃ messages,
    x.Gets messages y
      ∧ messages.filter (fun text => !isReply text) = (leavesFor ls r).map Leave.text
      ∧ (r ≠ c → messages = (leavesFor ls r).map Leave.text)
      ∧ (messages.filter isValidOutboundMessage).filter (fun text => !isReply text)
        = ((leavesFor ls r).filter Leave.fits).map Leave.text
      ∧ ((messages.filter isValidOutboundMessage).filter (fun text => !isReply text)
          = (leavesFor ls r).map Leave.text
        ↔ ∀ e ∈ leavesFor ls r, e.fits = true)
  /-- only the client that quits is not there any more -/
  gone : ∀ r, s'.heap r = none → s.heap r = none ∨ r = c ∧ ls.map Leave.who = [c]

/-- A piece of such a step, from `u` to `u'`, in which clients leave and nothing else happens but
messages. -/
structure Leaving (c : Ptr) (u u' : Server) (ls : List Leave) : Prop where
  lost : ∀ d name, u'.IsMember d name ↔ u.IsMember d name ∧ (d, name) ∉ ls.flatMap Leave.memberships
  member : ∀ e ∈ ls.flatMap Leave.memberships, u.IsMember e.1 e.2
  once : (ls.flatMap Leave.memberships).Nodup
  announces : ∀ e ∈ ls, AnnouncesDeparture (u.nickname e.who) e.text
  fits : ∀ e ∈ ls, isValidOutboundMessage e.text = e.fits
  heard : ∀ r, ∃ messages : List Str,
    u'.heap r = (u.heap r).map (fun x => messages.foldl Client.sendMessage x)
      ∧ messages.filter (fun text => !isReply text) = (leavesFor ls r).map Leave.text
      ∧ (r ≠ c → messages = (leavesFor ls r).map Leave.text)

namespace Leaving

variable {c d : Ptr} {u v w : Server} {ls ls' : List Leave}

theorem nickname (h : Leaving c u v ls) (p : Ptr) : v.nickname p = u.nickname p := by
  obtain ⟨messages, hheap, _⟩ := h.heard p
  unfold Server.nickname Server.client
  rw [hheap]
  cases u.heap p with
  | none => rfl
  | some x => exact Client.nickname_of_identity (x.identity_sendMessages messages)

theorem refl (c : Ptr) (u : Server) : Leaving c u u [] where
  lost _ _ := (and_iff_left List.not_mem_nil).symm
  member _ he := absurd he List.not_mem_nil
  once := List.nodup_nil
  announces _ he := absurd he List.not_mem_nil
  fits _ he := absurd he List.not_mem_nil
  heard _ := ⟨[], by simp, rfl, fun _ => rfl⟩

/-- Pieces of a step behind each other. -/
theorem trans (h : Leaving c u v ls) (h' : Leaving c v w ls') : Leaving c u w (ls ++ ls') where
  lost d name := by
    rw [h'.lost, h.lost, List.flatMap_append, List.mem_append, not_or, and_assoc]
  member e he := by
    rw [List.flatMap_append, List.mem_append] at he
    rcases he with he | he
    · exact h.member e he
    · exact ((h.lost _ _).mp (h'.member e he)).1
  once := by
    rw [List.flatMap_append]
    refine h.once.append h'.once fun e he he' => ?_
    -- who has left in the first piece is no member in the second
    exact ((h.lost _ _).mp (h'.member e he')).2 he
  announces e he := by
    rcases List.mem_append.mp he with he | he
    · exact h.announces e he
    · exact h.nickname e.who ▸ h'.announces e he
  fits e he := by
    rcases List.mem_append.mp he with he | he
    · exact h.fits e he
    · exact h'.fits e he
  heard r := by
    obtain ⟨ms, hms, hfilter, hall⟩ := h.heard r
    obtain ⟨ns, hns, hfilter', hall'⟩ := h'.heard r
    have hleaves : leavesFor (ls ++ ls') r = leavesFor ls r ++ leavesFor ls' r := List.filter_append ..
    refine ⟨ms ++ ns, ?_, ?_, fun hr => ?_⟩
    · rw [hns, hms, Option.map_map]
      congr 1
      funext x
      exact (List.foldl_append ..).symm
    · rw [List.filter_append, hfilter, hfilter', hleaves, List.map_append]
    · rw [hall hr, hall' hr, hleaves, List.map_append]

/-- A turn that is refused. -/
theorem reply {text : Str} (htext : lit ":server " <+: text) :
    Leaving c u (u.sendMessage c text) [] where
  lost d name := by
    unfold Server.IsMember Server.findChannel
    rw [Server.channels_sendMessage]
    exact (and_iff_left List.not_mem_nil).symm
  member _ he := absurd he List.not_mem_nil
  once := List.nodup_nil
  announces _ he := absurd he List.not_mem_nil
  fits _ he := absurd he List.not_mem_nil
  heard r := by
    have hreply : isReply text = true := List.isPrefixOf_iff_prefix.mpr htext
    by_cases hr : r = c
    · refine ⟨[text], ?_, ?_, fun hne => absurd hr hne⟩
      · rw [hr, Server.sendMessage, Server.heap_modify_self]
        rfl
      · rw [List.filter_cons_of_neg (by simp [hreply])]
        rfl
    · refine ⟨[], ?_, rfl, fun _ => rfl⟩
      rw [Server.sendMessage, Server.heap_modify_ne _ _ hr]
      simp

/-- A turn in which the members of a channel are told that one of them leaves. -/
theorem of_told {ch : Channel} {name text : Str} {fits : Bool} (hnodup : ch.members.Nodup)
    (hc : c ∈ ch.members) (hch : u.findChannel name = some ch) (hd : d ∈ ch.members)
    (hheap : v.heap = ((u.broadcastMessage ch text (some c)).sendMessage c text).heap)
    (hlost : ∀ q n, v.IsMember q n ↔ u.IsMember q n ∧ ¬ (n = name ∧ q = d))
    (hannounces : AnnouncesDeparture (u.nickname d) text) (hfits : isValidOutboundMessage text = fits)
    (hreply : isReply text = false) :
    Leaving c u v [⟨d, [name], ch.members, text, fits⟩] where
  lost q n := by
    rw [hlost]
    show _ ↔ _ ∧ (q, n) ∉ [(d, name)]
    rw [List.mem_singleton, Prod.mk.injEq, and_comm (a := q = d)]
  member e he := by
    obtain rfl := List.mem_singleton.mp he
    exact ⟨ch, hch, hd⟩
  once := List.nodup_singleton _
  announces e he := by
    obtain rfl := List.mem_singleton.mp he
    exact hannounces
  fits e he := by
    obtain rfl := List.mem_singleton.mp he
    exact hfits
  heard r := by
    rw [hheap, Server.heap_tellChannel hnodup hc]
    by_cases hr : r ∈ ch.members
    · have hleaves : leavesFor [⟨d, [name], ch.members, text, fits⟩] r
          = [⟨d, [name], ch.members, text, fits⟩] := List.filter_cons_of_pos (decide_eq_true hr)
      refine ⟨[text], if_pos hr, ?_, fun _ => ?_⟩
      · rw [hleaves, List.filter_cons_of_pos (by simp [hreply])]
        rfl
      · rw [hleaves]
        rfl
    · have hleaves : leavesFor [⟨d, [name], ch.members, text, fits⟩] r = [] :=
        List.filter_cons_of_neg (by simpa using hr)
      refine ⟨[], ?_, ?_, fun _ => ?_⟩
      · rw [if_neg hr]
        simp
      · rw [hleaves]
        rfl
      · rw [hleaves]
        rfl

/-- A loop all of whose turns are such pieces is one. -/
theorem foldl {α : Type} {turn : Server → α → Server} {leave : Server → α → Option Leave} {l : List α}
    (hturn : ∀ front a back, l = front ++ a :: back →
      Leaving c u (front.foldl turn u) (leavesOf turn leave u front) →
      Leaving c (front.foldl turn u) (turn (front.foldl turn u) a)
        (leave (front.foldl turn u) a).toList) :
    Leaving c u (l.foldl turn u) (leavesOf turn leave u l) := by
  have hfronts : ∀ front back, l = front ++ back →
      Leaving c u (front.foldl turn u) (leavesOf turn leave u front) := by
    intro front
    induction front using List.reverseRecOn with
    | nil => exact fun _ _ => .refl c u
    | append_singleton front a ih =>
      intro back hl
      rw [List.append_assoc, List.singleton_append] at hl
      have hfront := ih _ hl
      have hone := hfront.trans (hturn front a back hl hfront)
      rw [List.foldl_append, List.foldl_cons, List.foldl_nil, leavesOf_append]
      simpa only [leavesOf, List.append_nil] using hone
  exact hfronts l [] (List.append_nil l).symm

end Leaving

section

variable {s s' t : Server} {c d : Ptr} {line : Str}

/-- The state a turn of the loop of KICK begins in. -/
theorem DispatchOf.kick_turn (h : DispatchOf c line s t s') (hreach : Reachable s)
    (hreg : (t.client c).isRegistered = true) (hm : (Parser.parse line).handler = some .kick)
    {reason : Str} {front back : List (Str × Str)}
    (hloop : KickCommand.loopOf (Parser.parse line).params = some (reason, front ++ back)) :
    (front.foldl (fun s e => KickCommand.kickOne reason c s e.1 e.2) t).Tidy
      ∧ (front.foldl (fun s e => KickCommand.kickOne reason c s e.1 e.2) t).Integrity := by
  have hclean : (Parser.parse line).Clean := by
    obtain ⟨_, _, _, _, hextract, _⟩ := h
    exact (Client.acceptedLine hextract).clean_parse
  obtain ⟨hreason, hparts⟩ := KickCommand.clean_of_loopOf hclean.params hloop
  have hfront : ∀ e ∈ front, _ := fun e he => hparts e (List.mem_append_left back he)
  have htidy := (h.answers_before hreach.tidy).tidy
  refine ⟨(KickCommand.answers_loop htidy h.allocated hreason fun e he => (hfront e he).1).tidy, ?_⟩
  have hnames : (Parser.parse line).channelNames
      = splitString ((Parser.parse line).params.headD []) comma := by
    rw [Message.channelNames, hm]
  have heffects : Effects c (Parser.parse line) t
      (front.foldl (fun s e => KickCommand.kickOne reason c s e.1 e.2) t) := by
    apply Effects.refl.foldl
    intro s e he hs
    exact hs.kickOne hreg hm reason (hnames ▸ (hfront e he).2) e.2
  exact heffects.integrity (h.integrity hreach.integrity) h.allocated

/-- The state a turn of the loop of `JOIN 0` begins in. -/
theorem DispatchOf.part_turn (h : DispatchOf c line s t s') (hreach : Reachable s)
    (hreg : (t.client c).isRegistered = true) (hm : (Parser.parse line).LeavesAll) (front : List Str) :
    (front.foldl (fun s n => JoinCommand.leave s c n) t).Tidy
      ∧ (front.foldl (fun s n => JoinCommand.leave s c n) t).Integrity := by
  have htidy := (h.answers_before hreach.tidy).tidy
  have hc := h.allocated
  have heffects : Effects c (Parser.parse line) t
      (front.foldl (fun s n => JoinCommand.leave s c n) t) := by
    apply Effects.refl.foldl
    intro s n _ hs
    exact hs.leave hreg hm n
  refine ⟨?_, heffects.integrity (h.integrity hreach.integrity) h.allocated⟩
  clear heffects h hreg
  induction front generalizing t with
  | nil => exact htidy
  | cons n front ih =>
    have hone := JoinCommand.answers_leave htidy hc n
    exact ih hone.tidy (hone.allocated c hc)

/-- A user who may command is called by a valid nickname. -/
theorem DispatchOf.isValidNickname (h : DispatchOf c line s t s') (hreach : Reachable s)
    (hreg : (t.client c).isRegistered = true) :
    NickCommand.isValidNickname (t.nickname c) = true := by
  obtain ⟨x, x', hx, _, hextract, rfl, _⟩ := h
  have hc := Server.client_of_heap (Server.heap_extracted hx x')
  have hidentity := Client.extractLine_identity hextract
  rw [hc, Client.isRegistered_of_identity hidentity] at hreg
  rw [Server.nickname, hc, Client.nickname_of_identity hidentity]
  exact hreach.isValidNickname hx hreg

/-- What a user says is no reply. -/
theorem FromUser.isReply_eq_false {n text : Str} (h : FromUser n text)
    (hn : NickCommand.isValidNickname n = true) : isReply text = false :=
  Bool.eq_false_iff.mpr fun hreply => h.not_server hn (List.isPrefixOf_iff_prefix.mp hreply)

/-- The loop of KICK. -/
theorem DispatchOf.leaving_kick (h : DispatchOf c line s t s') (hreach : Reachable s)
    (hreg : (t.client c).isRegistered = true) (hm : (Parser.parse line).handler = some .kick)
    {reason : Str} {l : List (Str × Str)}
    (hloop : KickCommand.loopOf (Parser.parse line).params = some (reason, l)) :
    Leaving c t (l.foldl (fun u e => KickCommand.kickOne reason c u e.1 e.2) t)
      (leavesOf (fun u e => KickCommand.kickOne reason c u e.1 e.2)
        (fun u e => KickCommand.leaveOf reason c u e.1 e.2) t l) := by
  have hclean : (Parser.parse line).Clean := by
    obtain ⟨_, _, _, _, hextract, _⟩ := h
    exact (Client.acceptedLine hextract).clean_parse
  obtain ⟨hreason, hparts⟩ := KickCommand.clean_of_loopOf hclean.params hloop
  refine Leaving.foldl fun front e back hl hfront => ?_
  obtain ⟨htidy, hint⟩ := h.kick_turn hreach hreg hm (hl ▸ hloop)
  obtain ⟨⟨hname, hnick⟩, _⟩ := hparts e (by simp [hl])
  have hvalid : NickCommand.isValidNickname _ = true :=
    (hfront.nickname c).symm ▸ h.isValidNickname hreach hreg
  obtain ⟨name, nick⟩ := e
  generalize front.foldl (fun u e => KickCommand.kickOne reason c u e.1 e.2) t = u at *
  dsimp only at hname hnick ⊢
  cases hleave : KickCommand.leaveOf reason c u name nick with
  | none =>
    obtain ⟨text, htext, hkick⟩ := KickCommand.kickOne_of_leaveOf_none hleave
    rw [hkick]
    exact .reply htext
  | some leave =>
    obtain ⟨ch, d, hch, hfind, hmem, hop, hd, rfl⟩ := KickCommand.leaveOf_eq_some hleave
    have hkick := KickCommand.kickOne_kicks reason hch hmem hop hfind hd
    have hwf := (hint.channel name ch hch).wf
    have hch' := fun text => (Server.findChannel_tell u ch text c name).trans hch
    refine Leaving.of_told hwf.nodup_members hmem hch hd ?_ (fun q n => ?_) ?_ ?_ ?_
    · rw [hkick]
      rfl
    · rw [hkick, Server.modifyChannel_eq _ (hch' _)]
      unfold Server.IsMember
      rw [Server.findChannel_modifyChannel (hch' _), Server.findChannel_tell]
      by_cases hn : n = name
      · rw [if_pos hn, hn, hch]
        simpa [and_comm] using hwf.mem_removeMember (p := d) (q := q)
      · rw [if_neg hn, and_iff_left fun h => hn h.1]
    · exact Or.inr ⟨u, c, name, nick, reason, rfl, (Server.findClientByNick_eq_some hfind).2.2.1.symm⟩
    · rw [Bool.eq_iff_iff, decide_eq_true_eq, KickCommand.kickMessage, isValidOutboundMessage_append
        (by simp +decide [htidy.clean_userPrefix c, hname, hnick, hreason]) (by decide)]
      simp only [List.length_append, Server.Tidy.length_userPrefix]
      rfl
    · exact (KickCommand.fromUser_kickMessage u c name nick reason).isReply_eq_false hvalid

/-- The loop of `JOIN 0`. -/
theorem DispatchOf.leaving_part (h : DispatchOf c line s t s') (hreach : Reachable s)
    (hreg : (t.client c).isRegistered = true) (hm : (Parser.parse line).LeavesAll) :
    Leaving c t (JoinCommand.leaveAll t c)
      (leavesOf (fun u name => JoinCommand.leave u c name) (JoinCommand.leaveOf c) t t.channels.keys) := by
  refine Leaving.foldl fun front name back _ hfront => ?_
  obtain ⟨htidy, hint⟩ := h.part_turn hreach hreg hm front
  have hvalid : NickCommand.isValidNickname _ = true :=
    (hfront.nickname c).symm ▸ h.isValidNickname hreach hreg
  generalize front.foldl (fun u name => JoinCommand.leave u c name) t = u at *
  cases hleave : JoinCommand.leaveOf c u name with
  | none =>
    rw [JoinCommand.leave_of_leaveOf_none hleave]
    exact .refl c u
  | some leave =>
    obtain ⟨ch, hch, hmem, rfl⟩ := JoinCommand.leaveOf_eq_some hleave
    have hpart := JoinCommand.fromUser_partMessage u c name
    refine Leaving.of_told (hint.channel name ch hch).wf.nodup_members hmem hch hmem ?_
      (fun q n => JoinCommand.isMember_leave hint) (Or.inl hpart) ?_ (hpart.isReply_eq_false hvalid)
    · have htexts := htidy.texts name ch hch
      rw [JoinCommand.heap_leave hch hmem, JoinCommand.tellPart, htexts.name_eq]
    · have htexts := htidy.texts name ch hch
      have hlenName := htexts.name.length_le
      have hlenNick := (htidy.nickname c).length_le
      have hlenUser := (htidy.username c).length_le
      rw [JoinCommand.partMessage, isValidOutboundMessage_append
        (by simp +decide [htidy.clean_userPrefix c, htexts.name.clean]) (by decide)]
      -- 49 bytes of text, and at most 9 + 10 + 50 of names
      simp only [List.length_append, Server.Tidy.length_userPrefix]
      show 1 + _ + 1 + _ + 10 + 6 + _ + 21 ≤ 512
      omega

/-- Of the announcements those arrive that fit. -/
theorem filter_announcements {messages : List Str} {ls : List Leave}
    (hmessages : messages.filter (fun text => !isReply text) = ls.map Leave.text)
    (hfits : ∀ e ∈ ls, isValidOutboundMessage e.text = e.fits) :
    (messages.filter isValidOutboundMessage).filter (fun text => !isReply text)
        = (ls.filter Leave.fits).map Leave.text
      ∧ ((messages.filter isValidOutboundMessage).filter (fun text => !isReply text)
          = ls.map Leave.text ↔ ∀ e ∈ ls, e.fits = true) := by
  have hsome : (messages.filter isValidOutboundMessage).filter (fun text => !isReply text)
      = (ls.filter Leave.fits).map Leave.text := by
    rw [List.filter_filter, List.filter_congr (fun _ _ => Bool.and_comm _ _), ← List.filter_filter,
      hmessages, List.filter_map]
    exact congrArg _ (List.filter_congr hfits)
  refine ⟨hsome, ?_⟩
  rw [hsome, ← List.length_filter_eq_length_iff]
  refine ⟨fun h => ?_, fun h => ?_⟩
  · have hlength := congrArg List.length h
    rwa [List.length_map, List.length_map] at hlength
  · rw [List.filter_eq_self.mpr (List.length_filter_eq_length_iff.mp h)]

/-- The loop of a line makes up the step. -/
theorem DispatchOf.announced (h : DispatchOf c line s t s') {ls : List Leave}
    (hloop : Leaving c t (t.processMessage c (Parser.parse line)) ls) : Announced s s' c ls := by
  have hbefore : ∀ q n, t.IsMember q n ↔ s.IsMember q n := fun q n => by
    unfold Server.IsMember
    rw [h.findChannel_eq]
  have hafter : ∀ q n, s'.IsMember q n ↔ (t.processMessage c (Parser.parse line)).IsMember q n :=
    fun q n => by
      unfold Server.IsMember
      rw [h.findChannel_after]
  obtain ⟨x₀, x₀', hx₀, _, hextract, rfl, hs'⟩ := h
  have hs'' : s' = ((s.modify c fun _ => x₀').processMessage c (Parser.parse line)).modify c
    (·.recordLine line) := hs'
  generalize (s.modify c fun _ => x₀').processMessage c (Parser.parse line) = u at *
  subst hs''
  clear hs'
  have hwhole : ∀ r x, s.heap r = some x → ∃ messages y,
      (u.modify c (·.recordLine line)).heap r = some y ∧ x.Gets messages y
        ∧ messages.filter (fun text => !isReply text) = (leavesFor ls r).map Leave.text
        ∧ (r ≠ c → messages = (leavesFor ls r).map Leave.text) := by
    intro r x hx
    obtain ⟨messages, hheap, hfilter, hall⟩ := hloop.heard r
    -- taking the line and recording it leaves alone what a client has been sent
    by_cases hr : r = c
    · subst hr
      obtain rfl := Option.some_inj.mp (hx₀.symm.trans hx)
      obtain ⟨after, rfl⟩ := Client.extractLine_some hextract
      rw [Server.heap_extracted hx₀, Option.map_some] at hheap
      have hgets := Client.gets_sendMessages { x₀ with recvBuffer := after } messages
      refine ⟨messages, Client.recordLine _ line, ?_, hgets, hfilter, hall⟩
      rw [Server.heap_modify_self, hheap, Option.map_some]
    · rw [Server.heap_modify_ne _ _ hr, hx, Option.map_some] at hheap
      exact ⟨messages, _, by rw [Server.heap_modify_ne _ _ hr, hheap], x.gets_sendMessages messages,
        hfilter, hall⟩
  refine ⟨fun q n => ?_, hloop.once, fun e he => ?_, hloop.fits, fun r x y hx hy => ?_, fun r hr => ?_⟩
  · rw [← hbefore, hafter, hloop.lost, not_and, not_not]
    exact ⟨fun h => h.2 h.1, fun h => ⟨hloop.member _ h, fun _ => h⟩⟩
  · have hnickname : (s.modify c fun _ => x₀').nickname e.who = s.nickname e.who := by
      unfold Server.nickname Server.client
      rw [Server.heap_modify]
      split_ifs with hwho
      · rw [hwho, hx₀]
        exact Client.nickname_of_identity (Client.extractLine_identity hextract)
      · rfl
    exact hnickname ▸ hloop.announces e he
  · obtain ⟨messages, y', hy', hgets, hfilter, hall⟩ := hwhole r x hx
    obtain rfl := Option.some_inj.mp (hy.symm.trans hy')
    obtain ⟨hsome, hexactly⟩ := filter_announcements hfilter fun e he =>
      hloop.fits e (List.mem_filter.mp he).1
    exact ⟨messages, hgets, hfilter, hall, hsome, hexactly⟩
  · refine Or.inl ?_
    cases hx : s.heap r with
    | none => rfl
    | some x =>
      obtain ⟨_, y, hy, _⟩ := hwhole r x hx
      rw [hr] at hy
      cases hy

/-! ### A disconnect -/

theorem Server.fits_quitLeave (h : s.Tidy) (d : Ptr) :
    isValidOutboundMessage (s.quitLeave d).text = (s.quitLeave d).fits := by
  rw [Bool.eq_iff_iff, Server.quitLeave, decide_eq_true_eq]
  exact Server.isValidOutboundMessage_quitMessage (h.nickname d).clean (h.username d).clean

/-- Whoever shares a channel with the client is told, once. -/
theorem Server.mem_affected_quitLeave {r : Ptr} (hr : r ≠ d) :
    r ∈ (s.quitLeave d).affected ↔ r ∈ s.quitRecipients d := by
  rw [Server.mem_quitRecipients, Server.quitLeave, List.mem_flatMap]
  simp only [Server.mem_channelsOf, Server.mem_membersOf]
  constructor
  · rintro ⟨name, ⟨ch, hch, hd⟩, ch', hch', hmem⟩
    obtain rfl := Option.some_inj.mp (hch.symm.trans hch')
    exact ⟨hr, name, ch, hch, hd, hmem⟩
  · rintro ⟨_, name, ch, hch, hd, hmem⟩
    exact ⟨name, ⟨ch, hch, hd⟩, ch, hch, hmem⟩

/-- The QUIT line that a survivor is sent when a descriptor is disconnected. -/
def Server.quitLine? (s : Server) (q : Ptr) (fd : Fd) : Option Str :=
  match s.clients.find? fd with
  | none => none
  | some p =>
    if (s.client p).isRegistered = true ∧ q ∈ s.quitRecipients p then some (quitMessage (s.client p))
    else none

/-- What follows the announcement frees the client that quits, and touches no other. -/
theorem Server.heap_disconnectClient (s : Server) {fd : Fd} {p q : Ptr} (hfd : s.clients.find? fd = some p)
    (hq : q ≠ p) : (s.disconnectClient fd).heap q
      = (s.heap q).map fun y => (s.quitLine? q fd).toList.foldl Client.sendMessage y := by
  rw [disconnectClient, hfd]
  show Function.update (s.announceQuit p).heap p none q = _
  rw [Function.update_of_ne hq, announceQuit, quitLine?, hfd]
  dsimp only
  by_cases hreg : (s.client p).isRegistered = true
  · rw [if_pos hreg]
    by_cases hmem : q ∈ s.quitRecipients p
    · rw [if_pos ⟨hreg, hmem⟩, heap_sendAll_of_mem (s.nodup_quitRecipients p) hmem]
      rfl
    · rw [if_neg fun h => hmem h.2, heap_sendAll_of_not_mem hmem]
      exact Option.map_id'.symm
  · rw [if_neg hreg, if_neg fun h => hreg h.1]
    exact Option.map_id'.symm

/-- That line is the announcement of the leave. -/
theorem Server.quitLine?_toList {fd : Fd} (hfd : s.clients.find? fd = some d)
    (hreg : (s.client d).isRegistered = true) {r : Ptr} (hr : r ≠ d) :
    (s.quitLine? r fd).toList = (leavesFor [s.quitLeave d] r).map Leave.text := by
  rw [Server.quitLine?, hfd]
  dsimp only
  by_cases hmem : r ∈ s.quitRecipients d
  · have hfor : leavesFor [s.quitLeave d] r = [s.quitLeave d] :=
      List.filter_cons_of_pos (decide_eq_true ((mem_affected_quitLeave hr).mpr hmem))
    rw [if_pos ⟨hreg, hmem⟩, hfor]
    rfl
  · have hfor : leavesFor [s.quitLeave d] r = [] :=
      List.filter_cons_of_neg (by simpa using mt (mem_affected_quitLeave hr).mp hmem)
    rw [if_neg fun h => hmem h.2, hfor]
    rfl

theorem Server.isMember_disconnectClient (hs : s.Integrity) {fd : Fd}
    (hfd : s.clients.find? fd = some d) {q : Ptr} {n : Str} :
    (s.disconnectClient fd).IsMember q n ↔ s.IsMember q n ∧ q ≠ d := by
  unfold Server.IsMember
  rw [Server.findChannel_disconnectClient hfd]
  cases hch : s.findChannel n with
  | none => simp
  | some ch =>
    have hmem : q ∈ ((ch.removeMember d).removeInvited d).members ↔ q ≠ d ∧ q ∈ ch.members :=
      (hs.channel n ch hch).wf.mem_removeMember
    simpa [and_comm] using hmem

/-- No text of the client is taken for a reply. -/
theorem Reachable.isReply_quitLeave (h : Reachable s) {fd : Fd} (hfd : s.clients.find? fd = some d)
    (hreg : (s.client d).isRegistered = true) : isReply (s.quitLeave d).text = false := by
  obtain ⟨x, hx, _⟩ := Option.map_eq_some_iff.mp (h.integrity.object fd d hfd)
  rw [Server.client_of_heap hx] at hreg
  refine (fromUser_quitMessage (s.client d)).isReply_eq_false ?_
  rw [Server.client_of_heap hx]
  exact h.isValidNickname hx hreg

theorem announced_disconnectClient (hreach : Reachable s) {fd : Fd} (hfd : s.clients.find? fd = some d)
    (hreg : (s.client d).isRegistered = true) :
    Announced s (s.disconnectClient fd) d [s.quitLeave d] := by
  have hfits := s.fits_quitLeave hreach.tidy d
  have hsingle : ∀ {P : Leave → Prop}, P (s.quitLeave d) → ∀ e ∈ [s.quitLeave d], P e := fun h e he =>
    List.mem_singleton.mp he ▸ h
  refine ⟨fun q n => ?_, ?_, hsingle (Or.inl (fromUser_quitMessage _)), hsingle hfits,
    fun r x y hx hy => ?_, fun r hr => ?_⟩
  · rw [Server.isMember_disconnectClient hreach.integrity hfd, List.flatMap_singleton,
      Leave.memberships, List.mem_map, not_and, not_not]
    constructor
    · intro h
      refine ⟨n, Server.mem_channelsOf.mpr (h.2 h.1 ▸ h.1), ?_⟩
      rw [h.2 h.1]
      rfl
    · rintro ⟨n', hn', heq⟩
      obtain ⟨rfl, rfl⟩ := Prod.mk.inj heq
      exact ⟨Server.mem_channelsOf.mp hn', fun _ => rfl⟩
  · rw [List.flatMap_singleton, Leave.memberships]
    refine List.Nodup.map (fun a b h => (Prod.mk.inj h).2) ?_
    exact s.channels.nodup_keys.filter _
  · have hrd : r ≠ d := by
      rintro rfl
      rw [heap_disconnectClient_self hfd] at hy
      cases hy
    rw [Server.heap_disconnectClient s hfd hrd, Server.quitLine?_toList hfd hreg hrd, hx, Option.map_some,
      Option.some_inj] at hy
    have hfilter : ((leavesFor [s.quitLeave d] r).map Leave.text).filter (fun text => !isReply text)
        = (leavesFor [s.quitLeave d] r).map Leave.text := by
      refine List.filter_eq_self.mpr fun text htext => ?_
      obtain ⟨e, he, rfl⟩ := List.mem_map.mp htext
      obtain rfl := List.mem_singleton.mp (List.mem_filter.mp he).1
      rw [hreach.isReply_quitLeave hfd hreg]
      rfl
    obtain ⟨hsome, hexactly⟩ := filter_announcements hfilter fun e he =>
      hsingle (P := fun e => isValidOutboundMessage e.text = e.fits) hfits e (List.mem_filter.mp he).1
    exact ⟨_, hy ▸ x.gets_sendMessages _, hfilter, fun _ => rfl, hsome, hexactly⟩
  · by_cases hrd : r = d
    · exact Or.inr ⟨hrd, rfl⟩
    · rw [Server.heap_disconnectClient s hfd hrd] at hr
      exact Or.inl (Option.map_eq_none_iff.mp hr)

/-- All leaves of a step are announced, as far as the announcements fit. -/
theorem Leaves.announced (hreach : Reachable s) {ls : List Leave} (h : Leaves s s' c ls) :
    Announced s s' c ls := by
  cases h with
  | @kick _ line reason l t hline hreg hm hloop =>
    refine hline.announced ?_
    -- the handler is its loop, and the leaves are read off the turns of the loop
    have hexecute : t.processMessage c (Parser.parse line)
        = l.foldl (fun u e => KickCommand.kickOne reason c u e.1 e.2) t := by
      rw [t.processMessage_of_registered hreg hm]
      show KickCommand.execute t c (Parser.parse line).params = _
      rw [KickCommand.execute_eq, hloop]
    rw [hexecute]
    exact hline.leaving_kick hreach hreg hm hloop
  | @part _ line t hline hreg hm =>
    refine hline.announced ?_
    rw [Server.processMessage_of_leavesAll hreg hm]
    exact hline.leaving_part hreach hreg hm
  | quit hfd hs' hreg =>
    rw [hs']
    exact announced_disconnectClient hreach hfd hreg

/-- A step in which a membership ends has leaves. -/
theorem Move.leaves (hmove : Move s s') (hreach : Reachable s) {name : Str} (hd : s.IsMember d name)
    (hgone : ¬ s'.IsMember d name) : ∃ c ls, Leaves s s' c ls := by
  cases hmove with
  | connect => exact absurd hd hgone
  | io => exact absurd hd hgone
  | poll h =>
    obtain ⟨_, rfl, _⟩ := Server.of_refreshPollEvents h
    exact absurd hd hgone
  | @disconnect fd p x hfd hx hdead =>
    obtain ⟨ch, hch, hmem⟩ := hd
    have hch' := Server.findChannel_disconnectClient hfd name
    rw [hch, Option.map_some] at hch'
    have hdp : d = p := by
      by_contra hne
      exact hgone ⟨_, hch', (ch.mem_removeMember_of_ne hne).mpr hmem⟩
    subst hdp
    obtain ⟨y, hy, hreg⟩ := hreach.member_registered ⟨ch, hch, hmem⟩
    rw [← Server.client_of_heap hy] at hreg
    exact ⟨d, _, .quit hfd rfl hreg⟩
  | @line c x x' line hx live hextract =>
    have h : DispatchOf c line s (s.modify c fun _ => x') _ := ⟨x, x', hx, live, hextract, rfl, rfl⟩
    obtain ⟨ch, hch, hmem⟩ := hd
    have hch₀ : (s.modify c fun _ => x').findChannel name = some ch := hch
    have hgone' : ¬ ((s.modify c fun _ => x').processMessage c (Parser.parse line)).IsMember d name := by
      rintro ⟨ch', hch', hmem'⟩
      exact hgone ⟨ch', (h.findChannel_after name).trans hch', hmem'⟩
    -- a client that is not registered changes no channel
    have hreg : ((s.modify c fun _ => x').client c).isRegistered = true := by
      refine h.registered_of_changed (n := name) fun heq => hgone ⟨ch, heq.trans hch, hmem⟩
    rcases h.effects.permitted (h.integrity hreach.integrity) h.allocated hch₀ with
      ⟨ch', hch', hperm⟩ | ⟨_, hleaves, _⟩
    · have hout : d ∉ ch'.members := fun hmem' => hgone' ⟨ch', hch', hmem'⟩
      cases hperm with
      | unchanged => exact absurd hmem hout
      | joined _ _ _ hc =>
        rw [Channel.addMember_of_not_mem _ hc] at hout
        exact absurd (List.mem_append_left _ hmem) hout
      | left hleaves => exact ⟨c, _, .part h hreg hleaves⟩
      | kicked _ hm =>
        cases hloop : KickCommand.loopOf (Parser.parse line).params with
        | some loop =>
          obtain ⟨reason, l⟩ := loop
          exact ⟨c, _, .kick h hreg hm hloop⟩
        | none =>
          refine absurd ?_ hgone'
          rw [Server.processMessage_of_registered hreg hm]
          show (KickCommand.execute _ c (Parser.parse line).params).IsMember d name
          rw [KickCommand.execute_eq, hloop]
          exact ⟨ch, hch₀, hmem⟩
      | invited qs =>
        obtain ⟨_, heq⟩ := Channel.foldl_addInvited qs ch
        rw [heq] at hout
        exact absurd hmem hout
      | topic => exact absurd hmem hout
      | mode _ _ _ hkept => exact absurd (hkept.2.2.1 ▸ hmem) hout
    · exact ⟨c, _, .part h hreg hleaves⟩

end

/-- Nobody vanishes silently, exactly as far as the announcements fit. A step that ends a membership
consists of leaves, in one of the three ways; and of all leaves in a step everybody whom they affect
hears, once each and if the line is not too long, and nobody else does. -/
theorem departures_announced {s s' : Server} (h : Reachable s) (hmove : Move s s') :
    (∀ d name, s.IsMember d name → ¬ s'.IsMember d name → ∃ c ls, Leaves s s' c ls)
    ∧ ∀ c ls, Leaves s s' c ls → Announced s s' c ls :=
  ⟨fun _ _ hd hgone => hmove.leaves h hd hgone, fun _ _ hleaves => hleaves.announced h⟩

/-- The first client of the sample has gone away. -/
def hungUp : Server := sample.run [.pollError 4]

/-- Its channel hears of it. -/
theorem departures_announced_sample :
    Reachable hungUp ∧ Move hungUp (hungUp.disconnectClient 4)
      ∧ ∃ y, (hungUp.disconnectClient 4).heap 1 = some y
        ∧ y.trace.accepted = (hungUp.client 1).trace.accepted
          ++ [lit ":ann!a@localhost QUIT :socket error (POLLERR/POLLHUP)\r\n"] := by
  obtain ⟨hadm, hfd, hdead, hreg, ⟨hfor, hvalid⟩, hlive, hroom, hheap⟩ :
      sample.AdmitsAll [.pollError 4] ∧ hungUp.clients.find? 4 = some 0
      ∧ (hungUp.heap 0).map (·.dead) = some true ∧ (hungUp.client 0).isRegistered = true
      ∧ ((leavesFor [hungUp.quitLeave 0] 1).map Leave.text
          = [lit ":ann!a@localhost QUIT :socket error (POLLERR/POLLHUP)\r\n"]
        ∧ isValidOutboundMessage
          (lit ":ann!a@localhost QUIT :socket error (POLLERR/POLLHUP)\r\n") = true)
      ∧ (hungUp.client 1).stopped = false
      ∧ (hungUp.client 1).sendBuffer.length
        + [lit ":ann!a@localhost QUIT :socket error (POLLERR/POLLHUP)\r\n"].flatten.length ≤ maxSendBuffer
      ∧ (hungUp.heap 1).isSome = true ∧ ((hungUp.disconnectClient 4).heap 1).isSome = true := by
    decide +kernel
  have hreach : Reachable hungUp := reachable_sample.run hadm
  obtain ⟨x, hx, hxdead⟩ := Option.map_eq_some_iff.mp hdead
  obtain ⟨x₁, hx₁⟩ := Option.isSome_iff_exists.mp hheap.1
  obtain ⟨y, hy⟩ := Option.isSome_iff_exists.mp hheap.2
  have hmove : Move hungUp (hungUp.disconnectClient 4) := .disconnect hfd hx hxdead
  have hannounced := (departures_announced hreach hmove).2 0 _ (.quit hfd rfl hreg)
  obtain ⟨messages, hgets, _, hmessages, _⟩ := hannounced.heard 1 x₁ y hx₁ hy
  have htext := (hmessages (by decide)).trans hfor
  rw [Server.client_of_heap hx₁] at hlive hroom ⊢
  have hall : messages.filter isValidOutboundMessage = messages := by
    rw [htext]
    exact List.filter_cons_of_pos hvalid
  have hsent := hgets.2 hlive
  rw [hall, htext] at hsent
  exact ⟨hreach, hmove, y, hy, (hsent hroom).1⟩

/-- The first client of the sample has kicked the second, for a reason that fits in the line. -/
def kickedSilently : Server :=
  sample.run [.read 4 (.data (lit "KICK #c bob :" ++ List.replicate 481 (ch 'a') ++ lit "\r\n"))]

/-- The second client of the sample has quit, for a reason that fits in the line. -/
def quitSilently : Server :=
  sample.run [.read 5 (.data (lit "QUIT :" ++ List.replicate 482 (ch 'a') ++ lit "\r\n")),
    .write 5 (.sent 164), .reap]

/-- The second client has left the channel, and the first, which is in it, has not been told. -/
theorem silent_departures :
    Reachable sample ∧ sample.IsMember 0 (lit "#c") ∧ sample.IsMember 1 (lit "#c")
      ∧ (sample.client 0).sendBuffer.length + 1024 ≤ maxSendBuffer
      ∧ (Reachable kickedSilently ∧ ¬ kickedSilently.IsMember 1 (lit "#c")
        ∧ (kickedSilently.client 0).stopped = false
        ∧ (kickedSilently.client 0).sendBuffer = (sample.client 0).sendBuffer)
      ∧ (Reachable quitSilently ∧ ¬ quitSilently.IsMember 1 (lit "#c")
        ∧ (quitSilently.client 0).stopped = false
        ∧ (quitSilently.client 0).sendBuffer = (sample.client 0).sendBuffer) := by
  obtain ⟨hmembers, hroom, ⟨hkick, hkicked, hlive, hbuffer⟩, hquit, hgone, hlive', hbuffer'⟩ :
      (sample.findChannel (lit "#c")).map (·.members) = some [0, 1]
      ∧ (sample.client 0).sendBuffer.length + 1024 ≤ maxSendBuffer
      ∧ (sample.AdmitsAll
          [.read 4 (.data (lit "KICK #c bob :" ++ List.replicate 481 (ch 'a') ++ lit "\r\n"))]
        ∧ (kickedSilently.findChannel (lit "#c")).map (·.members) = some [0]
        ∧ (kickedSilently.client 0).stopped = false
        ∧ (kickedSilently.client 0).sendBuffer = (sample.client 0).sendBuffer)
      ∧ sample.AdmitsAll
          [.read 5 (.data (lit "QUIT :" ++ List.replicate 482 (ch 'a') ++ lit "\r\n")),
            .write 5 (.sent 164), .reap]
        ∧ (quitSilently.findChannel (lit "#c")).map (·.members) = some [0]
        ∧ (quitSilently.client 0).stopped = false
        ∧ (quitSilently.client 0).sendBuffer = (sample.client 0).sendBuffer := by
    decide +kernel
  have hleft : ∀ s : Server, (s.findChannel (lit "#c")).map (·.members) = some [0] →
      ¬ s.IsMember 1 (lit "#c") := by
    rintro s h ⟨ch, hch, hmem⟩
    rw [hch, Option.map_some, Option.some_inj] at h
    rw [h] at hmem
    exact absurd hmem (by decide)
  obtain ⟨ch, hch, hmem⟩ := Option.map_eq_some_iff.mp hmembers
  exact ⟨reachable_sample, ⟨ch, hch, by simp [hmem]⟩, ⟨ch, hch, by simp [hmem]⟩, hroom,
    ⟨reachable_sample.run hkick, hleft _ hkicked, hlive, hbuffer⟩,
    reachable_sample.run hquit, hleft _ hgone, hlive', hbuffer'⟩

end FtIrc
