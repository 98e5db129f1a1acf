import FtIrc.Refusals

/-!
# Who a message reaches

PRIVMSG goes through its targets from left to right. A recipient whose buffer is full dies in the
middle of the loop, and a later target may then be nobody's nickname any more; each turn is
therefore described in the state it begins in. Between the first and the last of these states
nothing happens but `sendMessage`.
-/

namespace FtIrc

open Bytes

/-! ## What a client makes of a message -/

/-- What becomes of a client that is sent a message without control bytes: once it has been offered
it is in the send buffer as a whole, or the client had no room and is dead, or nothing has
happened. -/
structure Client.Receives (y : Client) (message : Str) (z : Client) : Prop where
  offered : z.trace.offered = y.trace.offered ++ [message]
  identity : z.identity = y.identity
  appended : y.stopped = false → message.length ≤ 512 →
    y.sendBuffer.length + message.length ≤ 65536 →
    z.sendBuffer = y.sendBuffer ++ message ∧ z.stopped = false
  overflown : y.stopped = false → message.length ≤ 512 →
    65536 < y.sendBuffer.length + message.length → z.sendBuffer = y.sendBuffer ∧ z.dead = true
  ignored : y.stopped = true ∨ 512 < message.length →
    z.sendBuffer = y.sendBuffer ∧ z.dead = y.dead ∧ z.closing = y.closing

namespace Client

section Sending

variable {x : Client} {message : Str}

/-- A message that is not valid is refused. -/
theorem sendMessage_of_not_valid (hlive : x.stopped = false)
    (hvalid : isValidOutboundMessage message = false) :
    x.sendMessage message = { x with trace.offered := x.trace.offered ++ [message] } := by
  unfold sendMessage
  dsimp only
  rw [if_neg (by exact Bool.eq_false_iff.mp hlive), if_pos (by simp [hvalid])]

/-- A valid message for which there is room is appended. -/
theorem sendMessage_of_room (hlive : x.stopped = false)
    (hvalid : isValidOutboundMessage message = true)
    (hroom : x.sendBuffer.length + message.length ≤ maxSendBuffer) :
    x.sendMessage message
      = { x with
          sendBuffer := x.sendBuffer ++ message
          trace.offered := x.trace.offered ++ [message]
          trace.accepted := x.trace.accepted ++ [message] } := by
  have hfits : ¬ (decide (x.sendBuffer.length > maxSendBuffer)
      || decide (message.length > maxSendBuffer - x.sendBuffer.length)) = true := by
    simp only [Bool.or_eq_true, decide_eq_true_eq]
    omega
  unfold sendMessage
  dsimp only
  rw [if_neg (by exact Bool.eq_false_iff.mp hlive), if_neg (by simp [hvalid]), if_neg hfits]

/-- A valid message for which there is no room is the end of the client. -/
theorem sendMessage_of_overflow (hlive : x.stopped = false)
    (hvalid : isValidOutboundMessage message = true)
    (hroom : maxSendBuffer < x.sendBuffer.length + message.length) :
    (x.sendMessage message).dead = true ∧ (x.sendMessage message).sendBuffer = x.sendBuffer := by
  have hfull : (decide (x.sendBuffer.length > maxSendBuffer)
      || decide (message.length > maxSendBuffer - x.sendBuffer.length)) = true := by
    simp only [Bool.or_eq_true, decide_eq_true_eq]
    omega
  have hdead : x.dead = false := alive_of_not_stopped hlive
  unfold sendMessage
  dsimp only
  rw [if_neg (by exact Bool.eq_false_iff.mp hlive), if_neg (by simp [hvalid]), if_pos hfull, markDead,
    if_neg (by simp [hdead])]
  exact ⟨rfl, rfl⟩

end Sending

theorem receives_sendMessage (y : Client) {head tail : Str} (hhead : Clean head)
    (htail : isValidOutboundMessage tail = true) :
    y.Receives (head ++ tail) (y.sendMessage (head ++ tail)) := by
  have hvalid : isValidOutboundMessage (head ++ tail) = true ↔ (head ++ tail).length ≤ 512 := by
    rw [isValidOutboundMessage_append hhead htail, List.length_append]
    rfl
  generalize head ++ tail = message at hvalid
  refine ⟨y.offered_sendMessage message, y.identity_sendMessage message, ?_, ?_, ?_⟩
  · intro hlive hlen hroom
    rw [sendMessage_of_room hlive (hvalid.mpr hlen) hroom]
    exact ⟨rfl, hlive⟩
  · intro hlive hlen hroom
    exact (sendMessage_of_overflow hlive (hvalid.mpr hlen) hroom).symm
  · rintro (hstopped | hlong)
    · rw [sendMessage_of_stopped hstopped]
      exact ⟨rfl, rfl, rfl⟩
    by_cases hstopped : y.stopped = true
    · rw [sendMessage_of_stopped hstopped]
      exact ⟨rfl, rfl, rfl⟩
    have hrefused : isValidOutboundMessage message = false := by
      by_contra hnot
      have hlen := hvalid.mp (by simpa using hnot)
      omega
    rw [sendMessage_of_not_valid (by simpa using hstopped) hrefused]
    exact ⟨rfl, rfl, rfl⟩

end Client

/-! ## Nothing but messages -/

namespace Client

/-- Messages change nobody's identity. -/
theorem identity_sendMessages (x : Client) (messages : List Str) :
    (messages.foldl sendMessage x).identity = x.identity := by
  induction messages generalizing x with
  | nil => rfl
  | cons message messages ih => exact (ih _).trans (x.identity_sendMessage message)

/-- Messages revive nobody. -/
theorem dead_sendMessages (x : Client) (messages : List Str) (h : x.dead = true) :
    (messages.foldl sendMessage x).dead = true := by
  induction messages generalizing x with
  | nil => exact h
  | cons message messages ih => exact ih _ (x.dead_sendMessage message h)

/-- Messages to a live client, if there is room for those that are valid. -/
theorem sendMessages_of_room {x : Client} {messages : List Str} (hlive : x.stopped = false)
    (hroom : x.sendBuffer.length + (messages.filter isValidOutboundMessage).flatten.length
      ≤ maxSendBuffer) :
    (messages.foldl sendMessage x).trace.accepted
        = x.trace.accepted ++ messages.filter isValidOutboundMessage
      ∧ (messages.foldl sendMessage x).sendBuffer
        = x.sendBuffer ++ (messages.filter isValidOutboundMessage).flatten := by
  induction messages generalizing x with
  | nil => exact ⟨(List.append_nil _).symm, (List.append_nil _).symm⟩
  | cons message messages ih =>
    rw [List.foldl_cons]
    cases hvalid : isValidOutboundMessage message with
    | false =>
      rw [List.filter_cons_of_neg (by simp [hvalid])] at hroom ⊢
      rw [sendMessage_of_not_valid hlive hvalid]
      exact ih hlive hroom
    | true =>
      rw [List.filter_cons_of_pos hvalid, List.flatten_cons, List.length_append] at hroom
      have hsent := sendMessage_of_room hlive hvalid (by omega)
      have hbuffer : (x.sendMessage message).sendBuffer = x.sendBuffer ++ message := by rw [hsent]
      have haccepted : (x.sendMessage message).trace.accepted = x.trace.accepted ++ [message] := by
        rw [hsent]
      have hlive' : (x.sendMessage message).stopped = false := by
        rw [hsent]
        exact hlive
      obtain ⟨hall, hbytes⟩ := ih hlive' (by rw [hbuffer, List.length_append]; omega)
      rw [List.filter_cons_of_pos hvalid, hall, hbytes, haccepted, hbuffer, List.flatten_cons,
        List.append_assoc, List.append_assoc]
      exact ⟨rfl, rfl⟩

end Client

namespace Server

/-- From `s` to `t` nothing has happened but `sendMessage`. -/
structure OnlySends (s t : Server) : Prop where
  server : t = { s with heap := t.heap }
  client : ∀ p, ∃ messages : List Str,
    t.heap p = (s.heap p).map fun x => messages.foldl Client.sendMessage x

namespace OnlySends

variable {s t u : Server}

theorem refl (s : Server) : OnlySends s s where
  server := rfl
  client p := ⟨[], by simp⟩

theorem trans (h : OnlySends s t) (h' : OnlySends t u) : OnlySends s u where
  server := by
    rw [h'.server, h.server]
  client p := by
    obtain ⟨ms, hms⟩ := h.client p
    obtain ⟨ns, hns⟩ := h'.client p
    refine ⟨ms ++ ns, ?_⟩
    rw [hns, hms, Option.map_map]
    congr 1
    funext x
    exact (List.foldl_append ..).symm

theorem sendMessage (s : Server) (p : Ptr) (message : Str) : OnlySends s (s.sendMessage p message) where
  server := rfl
  client q := by
    rw [Server.sendMessage, heap_modify]
    split_ifs with hq
    · exact ⟨[message], by rw [hq]; rfl⟩
    · exact ⟨[], by simp⟩

theorem sendAll (s : Server) (ps : List Ptr) (message : Str) : OnlySends s (s.sendAll ps message) :=
  sendAll_induct s ps message (P := OnlySends s) (.refl s) fun t p ht => ht.trans (sendMessage t p message)

variable (h : OnlySends s t)
include h

theorem channels : t.channels = s.channels := by rw [h.server]

theorem clients : t.clients = s.clients := by rw [h.server]

theorem findChannel (name : Str) : t.findChannel name = s.findChannel name := by
  rw [Server.findChannel, h.channels]
  rfl

/-- An object is still there, for the same user, and if it was dead it is. -/
theorem exists_client {p : Ptr} {x : Client} (hx : s.heap p = some x) :
    ∃ y, t.heap p = some y ∧ y.identity = x.identity ∧ (x.dead = true → y.dead = true) := by
  obtain ⟨messages, hheap⟩ := h.client p
  rw [hx, Option.map_some] at hheap
  exact ⟨_, hheap, x.identity_sendMessages messages, x.dead_sendMessages messages⟩

theorem identity (p : Ptr) : (t.client p).identity = (s.client p).identity := by
  cases hx : s.heap p with
  | some x =>
    obtain ⟨y, hy, hidentity, _⟩ := h.exists_client hx
    rw [client_of_heap hx, client_of_heap hy, hidentity]
  | none =>
    obtain ⟨_, hheap⟩ := h.client p
    rw [hx, Option.map_none] at hheap
    rw [Server.client, Server.client, hx, hheap]

theorem nickname (p : Ptr) : t.nickname p = s.nickname p :=
  congrArg Client.Identity.nickname (h.identity p)

theorem allocated {p : Ptr} (hp : s.Allocated p) : t.Allocated p := by
  obtain ⟨x, hx⟩ := Option.isSome_iff_exists.mp hp
  obtain ⟨y, hy, _⟩ := h.exists_client hx
  rw [Allocated, hy, Option.isSome_some]

/-- The nicknames of those who are not dead stay different. -/
theorem uniqueNicknames (hs : s.UniqueNicknames) : t.UniqueNicknames := by
  refine hs.of_nicknamesFrom fun p y hy => Or.inr ?_
  obtain ⟨messages, hheap⟩ := h.client p
  cases hx : s.heap p with
  | none =>
    rw [hx, hy] at hheap
    cases hheap
  | some x =>
    obtain ⟨z, hz, hidentity, hdead⟩ := h.exists_client hx
    obtain rfl := Option.some_inj.mp (hz.symm.trans hy)
    refine ⟨x, rfl, Client.nickname_of_identity hidentity, fun hlive => ?_⟩
    by_contra hnot
    rw [hdead (by simpa using hnot)] at hlive
    cases hlive

end OnlySends

/-! ## One turn of PRIVMSG -/

/-- The clients of an audience receive the message, and nothing happens to the others. -/
def Reaches (t t' : Server) (audience : Ptr → Prop) (message : Str) : Prop :=
  ∀ p y, t.heap p = some y → ∃ z, t'.heap p = some z
    ∧ (audience p → y.Receives message z) ∧ (¬ audience p → z = y)

theorem reaches_sendMessage (t : Server) (q : Ptr) {head tail : Str} (hhead : Clean head)
    (htail : isValidOutboundMessage tail = true) :
    t.Reaches (t.sendMessage q (head ++ tail)) (· = q) (head ++ tail) := by
  intro p y hy
  by_cases hp : p = q
  · refine ⟨y.sendMessage (head ++ tail), ?_, fun _ => y.receives_sendMessage hhead htail,
      fun hne => absurd hp hne⟩
    rw [sendMessage, heap_modify, if_pos hp, ← hp, hy, Option.map_some]
  · refine ⟨y, ?_, fun heq => absurd heq hp, fun _ => rfl⟩
    rw [sendMessage, heap_modify_ne _ _ hp, hy]

/-- A broadcast reaches every member but the sender, whatever becomes of the others. -/
theorem reaches_broadcastMessage (t : Server) {channel : Channel} (hwf : channel.Wf) (c : Ptr)
    {head tail : Str} (hhead : Clean head) (htail : isValidOutboundMessage tail = true) :
    t.Reaches (t.broadcastMessage channel (head ++ tail) (some c))
      (fun p => p ∈ channel.members ∧ p ≠ c) (head ++ tail) := by
  intro p y hy
  have hmem : p ∈ channel.members.filter (fun p => some p != some c)
      ↔ p ∈ channel.members ∧ p ≠ c := by
    simp [List.mem_filter]
  by_cases hp : p ∈ channel.members ∧ p ≠ c
  · refine ⟨y.sendMessage (head ++ tail), ?_, fun _ => y.receives_sendMessage hhead htail,
      fun hnot => absurd hp hnot⟩
    rw [broadcastMessage, heap_sendAll_of_mem (hwf.nodup_members.filter _) (hmem.mpr hp), hy,
      Option.map_some]
  · refine ⟨y, ?_, fun hin => absurd hin hp, fun _ => rfl⟩
    rw [broadcastMessage, heap_sendAll_of_not_mem fun hin => hp (hmem.mp hin), hy]

/-- A connected client that is not dead and has the nickname. -/
structure GoesBy (t : Server) (q : Ptr) (nick : Str) : Prop where
  connected : ∃ fd, t.clients.find? fd = some q
  live : (t.client q).dead = false
  nickname : toIrcLowerCase (t.nickname q) = toIrcLowerCase nick

end Server

namespace PrivmsgCommand

open Server

/-- What one target comes to, from the state `t` its turn begins in to the state `t'` it ends in:
a channel of the sender and a user that there is are told, and else the sender gets an error. -/
structure Delivered (t t' : Server) (c : Ptr) (target message : Str) : Prop where
  toChannel : isChannel target = true → ∀ channel, t.findChannel target = some channel →
    c ∈ channel.members → t.Reaches t' (fun p => p ∈ channel.members ∧ p ≠ c) message
  toUser : isChannel target = false → ∀ q, t.GoesBy q target →
    (∀ q', t.GoesBy q' target → q' = q) ∧ t.Reaches t' (· = q) message
  toNobody :
    (isChannel target = true → ∀ channel, t.findChannel target = some channel → c ∉ channel.members) →
    (isChannel target = false → ∀ q, ¬ t.GoesBy q target) →
      ∃ error, ServerReply error ∧ t.Reaches t' (· = c) error

namespace Delivered

variable {t t' : Server} {c : Ptr} {target message : Str}

theorem of_channel {channel : Channel} (hkind : isChannel target = true)
    (hch : t.findChannel target = some channel) (hin : c ∈ channel.members)
    (hreaches : t.Reaches t' (fun p => p ∈ channel.members ∧ p ≠ c) message) :
    Delivered t t' c target message where
  toChannel _ channel' hch' _ := by rwa [← Option.some_inj.mp (hch.symm.trans hch')]
  toUser hnot := absurd (hkind.symm.trans hnot) (by decide)
  toNobody hno _ := absurd hin (hno hkind channel hch)

theorem of_user {q : Ptr} (hkind : isChannel target = false) (hq : t.GoesBy q target)
    (hunique : ∀ r, t.GoesBy r target → r = q) (hreaches : t.Reaches t' (· = q) message) :
    Delivered t t' c target message where
  toChannel hnot := absurd (hkind.symm.trans hnot) (by decide)
  toUser _ r hr := by
    rw [hunique r hr]
    exact ⟨hunique, hreaches⟩
  toNobody _ hno := absurd hq (hno hkind q)

theorem of_nobody (hchannel : isChannel target = true → ∀ channel,
      t.findChannel target = some channel → c ∉ channel.members)
    (huser : isChannel target = false → ∀ q, ¬ t.GoesBy q target)
    (herror : ∃ error, ServerReply error ∧ t.Reaches t' (· = c) error) :
    Delivered t t' c target message where
  toChannel hkind channel hch hin := absurd hin (hchannel hkind channel hch)
  toUser hkind q hq := absurd hq (huser hkind q)
  toNobody _ _ := herror

end Delivered

section Turn

variable {s t : Server} (h : Reachable s) (ht : s.OnlySends t)
include h ht

/-- Two clients that are not dead do not go by one nickname. -/
theorem goesBy_unique {q r : Ptr} {nick : Str} (hnick : nick ≠ []) (hq : t.GoesBy q nick)
    (hr : t.GoesBy r nick) : q = r := by
  have hheap : ∀ p, t.GoesBy p nick → ∃ x, t.heap p = some x ∧ x.dead = false
      ∧ toIrcLowerCase x.nickname = toIrcLowerCase nick := by
    intro p hp
    obtain ⟨fd, hfd⟩ := hp.connected
    rw [ht.clients] at hfd
    obtain ⟨x, hx⟩ := Option.isSome_iff_exists.mp (ht.allocated (h.integrity.allocated_of_find? hfd))
    have hlive := hp.live
    have hname := hp.nickname
    rw [Server.nickname, client_of_heap hx] at hname
    rw [client_of_heap hx] at hlive
    exact ⟨x, hx, hlive, hname⟩
  obtain ⟨x, hx, hxlive, hxname⟩ := hheap q hq
  obtain ⟨y, hy, hylive, hyname⟩ := hheap r hr
  have hne : x.nickname ≠ [] := by
    intro hnil
    rw [hnil] at hxname
    exact hnick (List.map_eq_nil_iff.mp hxname.symm)
  exact ht.uniqueNicknames h.uniqueNicknames q r x y hx hy hxlive hylive hne (hxname.trans hyname.symm)

/-- The nickname lookup finds whoever goes by the nickname. -/
theorem findClientByNick_iff {q : Ptr} {nick : Str} (hnick : nick ≠ []) :
    t.findClientByNick nick = some q ↔ t.GoesBy q nick := by
  have hfound : ∀ r, t.findClientByNick nick = some r → t.GoesBy r nick := by
    intro r hr
    obtain ⟨_, hlive, hname, hconnected⟩ := findClientByNick_eq_some hr
    exact ⟨hconnected, hlive, hname⟩
  refine ⟨hfound q, fun hq => ?_⟩
  cases hfind : t.findClientByNick nick with
  | none =>
    obtain ⟨fd, hfd⟩ := hq.connected
    exact absurd hq.nickname ((findClientByNick_eq_none hnick).mp hfind fd q hfd hq.live)
  | some r => rw [goesBy_unique h ht hnick (hfound r hfind) hq]

/-- The errors of the handler name the sender and the target. -/
theorem reaches_error {c : Ptr} {target : Str} (htarget : Clean target) {numeric reason : String}
    (hserver : ServerReply (lit numeric)) (hnumeric : Clean (lit numeric))
    (hreason : isValidOutboundMessage (lit reason) = true) :
    ∃ error, ServerReply error
      ∧ t.Reaches (t.sendMessage c (lit numeric ++ t.nickname c ++ lit " " ++ target ++ lit reason))
          (· = c) error := by
  have hnick : Clean (t.nickname c) := by
    rw [ht.nickname]
    exact (h.tidy.nickname c).clean
  refine ⟨lit numeric ++ t.nickname c ++ lit " " ++ target ++ lit reason, ?_,
    t.reaches_sendMessage c ?_ hreason⟩
  · repeat apply ServerReply.append
    exact hserver
  · simp +decide [hnumeric, hnick, htarget]

/-- A turn of the loop, whatever the turns in front of it have sent. -/
theorem delivered_sendOne {c : Ptr} {senderPrefix text target : Str}
    (hsender : Clean senderPrefix) (htext : Clean text) (htarget : Clean target)
    (hne : target ≠ []) :
    Delivered t (sendOne senderPrefix text c t target) c target
      (senderPrefix ++ lit " PRIVMSG " ++ target ++ lit " :" ++ text ++ lit "\r\n") := by
  have hmessage : Clean (senderPrefix ++ lit " PRIVMSG " ++ target ++ lit " :" ++ text) := by
    simp +decide [hsender, htext, htarget]
  have hend : isValidOutboundMessage (lit "\r\n") = true := by decide
  have hmissing : ∃ error, ServerReply error ∧ t.Reaches (t.sendMessage c (lit ":server 401 "
      ++ t.nickname c ++ lit " " ++ target ++ lit " :No such nick/channel\r\n")) (· = c) error :=
    reaches_error h ht htarget (by decide) (by decide) (by decide)
  unfold sendOne
  dsimp only
  cases hkind : isChannel target with
  | true =>
    have hnotUser : true = false → ∀ q, ¬ t.GoesBy q target := fun hnot => absurd hnot (by decide)
    rw [← hkind] at hnotUser
    rw [if_pos rfl]
    cases hch : t.findChannel target with
    | none =>
      exact .of_nobody (fun _ channel hch' => absurd (hch.symm.trans hch') (by simp)) hnotUser hmissing
    | some channel =>
      dsimp only
      by_cases hin : channel.isMember c = true
      · rw [if_neg (by simpa using hin)]
        -- the member list is the one of `s`: turns send messages and nothing else
        rw [ht.findChannel] at hch
        have hreaches := t.reaches_broadcastMessage (h.integrity.channel target channel hch).wf c hmessage hend
        rw [← ht.findChannel] at hch
        exact .of_channel hkind hch ((Channel.isMember_iff _ _).mp hin) hreaches
      · -- 404, to one who is not on the channel
        rw [if_pos (by simpa using hin)]
        refine .of_nobody (fun _ channel' hch' hmem => hin ?_) hnotUser
          (reaches_error h ht htarget (by decide) (by decide) (by decide))
        rw [Option.some_inj.mp (hch.symm.trans hch')]
        exact (Channel.isMember_iff _ _).mpr hmem
  | false =>
    rw [if_neg Bool.false_ne_true]
    cases hfind : t.findClientByNick target with
    | none =>
      refine .of_nobody (fun hnot => absurd (hkind.symm.trans hnot) (by decide)) (fun _ q hq => ?_) hmissing
      rw [(findClientByNick_iff h ht hne).mpr hq] at hfind
      cases hfind
    | some q =>
      -- the lookup is made in `t`, so a client that an earlier turn overflowed is not found
      have hq := (findClientByNick_iff h ht hne).mp hfind
      exact .of_user hkind hq (fun r hr => goesBy_unique h ht hne hr hq)
        (t.reaches_sendMessage q hmessage hend)

omit h in
theorem onlySends_sendOne (senderPrefix text : Str) (c : Ptr) (target : Str) :
    s.OnlySends (sendOne senderPrefix text c t target) := by
  refine ht.trans ?_
  unfold sendOne
  dsimp only
  split_ifs
  · cases t.findChannel target with
    | none => exact .sendMessage ..
    | some channel =>
      dsimp only
      split_ifs
      · exact .sendMessage ..
      · exact .sendAll ..
  · cases t.findClientByNick target with
    | none => exact .sendMessage ..
    | some q => exact .sendMessage ..

omit h in
theorem onlySends_loop (senderPrefix text : Str) (c : Ptr) (targets : List Str) :
    s.OnlySends (targets.foldl (sendOne senderPrefix text c) t) := by
  induction targets generalizing t with
  | nil => exact ht
  | cons target targets ih => exact ih (onlySends_sendOne ht senderPrefix text c target)

end Turn

end PrivmsgCommand

/-- PRIVMSG of a registered client takes its targets from left to right, each in the state that the
targets in front of it have left, and tells exactly those whom the target means; nothing else
happens between one state and the next. -/
theorem privmsg_reaches_audience {s : Server} (h : Reachable s) {c : Ptr} {x : Client}
    (hx : s.heap c = some x) (hreg : x.isRegistered = true) {line : Str} (hline : AcceptedLine line)
    {targets text : Str} {rest : List Str}
    (hprivmsg : (Parser.parse line).handler = some .privmsg)
    (hparams : (Parser.parse line).params = targets :: text :: rest) :
    let turns := fun l : List Str =>
      l.foldl (PrivmsgCommand.sendOne (userPrefix s c) text c) s
    s.processLine c line = turns (splitString targets comma)
    ∧ (∀ front target back, splitString targets comma = front ++ target :: back →
        PrivmsgCommand.Delivered (turns front) (turns (front ++ [target])) c target
          (lit ":" ++ x.nickname ++ lit "!" ++ x.username ++ lit "@localhost PRIVMSG " ++ target
            ++ lit " :" ++ text ++ lit "\r\n"))
    ∧ s.OnlySends (s.processLine c line)
    ∧ ∀ p, ((s.processLine c line).client p).identity = (s.client p).identity := by
  have hclient : s.client c = x := Server.client_of_heap hx
  have hclean := hline.clean_parse.params
  rw [hparams] at hclean
  have hprocess : s.processLine c line
      = (splitString targets comma).foldl (PrivmsgCommand.sendOne (userPrefix s c) text c) s := by
    rw [Server.processLine, s.processMessage_of_registered (by rw [hclient, hreg]) hprivmsg]
    show PrivmsgCommand.execute s c (Parser.parse line).params = _
    rw [hparams]
    rfl
  have hsends := fun l => PrivmsgCommand.onlySends_loop (.refl s) (userPrefix s c) text c l
  dsimp only
  rw [hprocess]
  refine ⟨rfl, fun front target back hsplit => ?_, hsends _, (hsends _).identity⟩
  have htarget : target ∈ splitString targets comma := by simp [hsplit]
  -- the turns in front have only sent messages, so the turn is one from a state like `s`
  have hdelivered := PrivmsgCommand.delivered_sendOne h (hsends front) (c := c)
    (h.tidy.clean_userPrefix c) (hclean text (by simp))
    (clean_of_mem_splitString (hclean targets (by simp)) htarget) (of_mem_fields htarget).1
  have hmessage : lit ":" ++ x.nickname ++ lit "!" ++ x.username ++ lit "@localhost PRIVMSG "
      = userPrefix s c ++ lit " PRIVMSG " := by
    rw [userPrefix, Server.nickname, Server.username, hclient]
    simp only [List.append_assoc]
    rfl
  rw [List.foldl_append, hmessage]
  exact hdelivered

/-- Ann writes to her channel, to Bob and to a user that does not exist: Bob has both messages and
Ann an error. -/
def spread : Str := lit "PRIVMSG #c,bob,zed :hi"

theorem privmsg_reaches_audience_sample :
    (sample.heap 0).isSome = true ∧ splitString (lit "#c,bob,zed") comma = [lit "#c", lit "bob", lit "zed"]
      ∧ sample.OnlySends (sample.processLine 0 spread)
      ∧ (∃ t t', PrivmsgCommand.Delivered t t' 0 (lit "bob") (lit ":ann!a@localhost PRIVMSG bob :hi\r\n"))
      ∧ ((sample.processLine 0 spread).client 1).sendBuffer = (sample.client 1).sendBuffer
          ++ lit ":ann!a@localhost PRIVMSG #c :hi\r\n" ++ lit ":ann!a@localhost PRIVMSG bob :hi\r\n"
      ∧ ((sample.processLine 0 spread).client 0).sendBuffer = (sample.client 0).sendBuffer
          ++ lit ":server 401 ann zed :No such nick/channel\r\n" := by
  obtain ⟨hann, hhandler, hparams, hsplit, hlen, hclean, hbob, herror⟩ :
      (sample.heap 0).map (fun x => (x.isRegistered, x.nickname, x.username))
          = some (true, lit "ann", lit "a")
      ∧ (Parser.parse spread).handler = some .privmsg
      ∧ (Parser.parse spread).params = [lit "#c,bob,zed", lit "hi"]
      ∧ splitString (lit "#c,bob,zed") comma = [lit "#c"] ++ lit "bob" :: [lit "zed"]
      ∧ spread.length ≤ 511
      ∧ (spread.all fun b => b != nul && b != cr && b != lf) = true
      ∧ ((sample.processLine 0 spread).client 1).sendBuffer = (sample.client 1).sendBuffer
          ++ lit ":ann!a@localhost PRIVMSG #c :hi\r\n" ++ lit ":ann!a@localhost PRIVMSG bob :hi\r\n"
      ∧ ((sample.processLine 0 spread).client 0).sendBuffer = (sample.client 0).sendBuffer
          ++ lit ":server 401 ann zed :No such nick/channel\r\n" := by
    decide +kernel
  obtain ⟨x, hx, hidentity⟩ := Option.map_eq_some_iff.mp hann
  simp only [Prod.mk.injEq] at hidentity
  obtain ⟨hreg, hnickname, husername⟩ := hidentity
  have hline : AcceptedLine spread := by
    refine ⟨hlen, fun b hb => ?_⟩
    have hbyte := List.all_eq_true.mp hclean b hb
    simp only [bne_iff_ne, Bool.and_eq_true] at hbyte
    exact ⟨hbyte.1.1, hbyte.1.2, hbyte.2⟩
  obtain ⟨-, hturns, hsends, -⟩ :=
    privmsg_reaches_audience reachable_sample hx hreg hline hhandler hparams
  have hturn := hturns _ _ _ hsplit
  rw [hnickname, husername] at hturn
  exact ⟨by rw [hx, Option.isSome_some], hsplit, hsends, ⟨_, _, hturn⟩, hbob, herror⟩

end FtIrc
