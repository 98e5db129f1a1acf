import FtIrc.Effects

/-!
# Two servers side by side

A line reads little of the server: the password, the channels, names, the nickname lookup
and the identity of its own client. Two servers that agree on these, and go on agreeing
under the primitive operations, agree after any line. They may even differ in a channel, if the
client cannot get into it in either. `Likeness` says so of a relation between servers, and
`Likeness.processMessage` goes through the handlers once, for every such relation.
-/

namespace FtIrc

open Bytes

/-- The client without what it has received and not yet used. -/
def Client.withoutInput (x : Client) : Client :=
  { x with recvBuffer := [], trace.received := [] }

/-- A change of a client that does not look at its input. -/
def Client.Blind (f : Client → Client) : Prop := ∀ x, (f x).withoutInput = f x.withoutInput

namespace Client

/-- Closing asks whether the client is stopped. -/
theorem blind_markClosing (reason : Str) : Blind (·.markClosing reason) := by
  intro x
  by_cases hstopped : (x.dead || x.closing) = true
  · simp only [markClosing, withoutInput, hstopped, if_true]
  · simp only [markClosing, withoutInput, hstopped, Bool.false_eq_true, if_false]

/-- The counter of failed attempts is all that is read. -/
theorem blind_recordFailedPassAttempt : Blind (·.recordFailedPassAttempt) := by
  intro x
  by_cases hcount : x.failedPassAttempts < 2 ^ 32 - 1
  · simp only [recordFailedPassAttempt, withoutInput, hcount, if_true]
  · simp only [recordFailedPassAttempt, withoutInput, hcount, if_false]

/-- What a client is sent depends on its output and on whether it is stopped. -/
theorem blind_sendMessage (message : Str) : Blind (·.sendMessage message) := by
  intro x
  by_cases hstopped : (x.dead || x.closing) = true
  · simp only [sendMessage, withoutInput, hstopped, if_true]
  obtain ⟨hdead, hclosing⟩ : x.dead = false ∧ x.closing = false := by simpa using hstopped
  by_cases hvalid : (!isValidOutboundMessage message) = true
  · simp only [sendMessage, withoutInput, hdead, hclosing, Bool.or_false, hvalid, if_true,
      Bool.false_eq_true, if_false]
  by_cases hfits : (decide (x.sendBuffer.length > maxSendBuffer)
      || decide (message.length > maxSendBuffer - x.sendBuffer.length)) = true
  · simp only [sendMessage, markDead, withoutInput, hdead, hclosing, Bool.or_false, hvalid, hfits,
      if_true, Bool.false_eq_true, if_false]
  · simp only [sendMessage, withoutInput, hdead, hclosing, Bool.or_false, hvalid, hfits,
      Bool.false_eq_true, if_false]

end Client

/-- A channel that client `c` is not in, and gets into with none of the keys `K`. -/
structure Channel.Shut (c : Ptr) (K : Str → Prop) (ch : Channel) : Prop where
  out : c ∉ ch.members
  powerless : c ∉ ch.operators
  locked : ch.password ≠ []
  wrong : ∀ key, K key → key ≠ ch.password

namespace Channel.Shut

variable {c : Ptr} {K : Str → Prop} {ch : Channel} (h : ch.Shut c K)
include h

/-- Who is not in the channel is refused by all commands. -/
theorem isMember : ch.isMember c = false := (ch.isMember_eq_false c).mpr h.out

theorem isOperator : ch.isOperator c = false := by simpa using h.powerless

/-- JOIN refuses the key. -/
theorem refuses {key : Str} (hkey : key = [] ∨ K key) :
    (!ch.password.isEmpty && ch.password != key) = true := by
  have hne : ch.password ≠ key := by
    rcases hkey with rfl | hkey
    · exact h.locked
    · exact (h.wrong key hkey).symm
  simp [h.locked, hne]

end Channel.Shut

/-- A relation between servers that client `c` cannot tell apart with lines that offer keys of `K`
and ask for the modes of channels of `F`. The channels of `F` are the same, the others are shut. -/
structure Likeness (c : Ptr) (F K : Str → Prop) (R : Server → Server → Prop) : Prop where
  password : ∀ {s t}, R s t → t.password = s.password
  nickname : ∀ {s t}, R s t → ∀ p, t.nickname p = s.nickname p
  username : ∀ {s t}, R s t → ∀ p, t.username p = s.username p
  identity : ∀ {s t}, R s t → (t.client c).identity = (s.client c).identity
  findClientByNick : ∀ {s t}, R s t → ∀ n, t.findClientByNick n = s.findClientByNick n
  nickRecipients : ∀ {s t}, R s t → ∀ p, t.nickRecipients p = s.nickRecipients p
  keys : ∀ {s t}, R s t → t.channels.keys = s.channels.keys
  findChannel : ∀ {s t}, R s t → ∀ {n}, F n → t.findChannel n = s.findChannel n
  named : ∀ {s t}, R s t → ∀ {n ch}, F n → s.findChannel n = some ch → F ch.name
  shut : ∀ {s t}, R s t → ∀ {n}, ¬ F n → ∃ ch ch', s.findChannel n = some ch
    ∧ t.findChannel n = some ch' ∧ ch.Shut c K ∧ ch'.Shut c K
  sendMessage : ∀ {s t}, R s t → ∀ p text, R (s.sendMessage p text) (t.sendMessage p text)
  modify : ∀ {s t}, R s t → ∀ f, Client.Blind f → R (s.modify c f) (t.modify c f)
  modifyChannel : ∀ {s t}, R s t → ∀ {n}, F n → ∀ {f : Channel → Channel},
    (∀ ch, (f ch).name = ch.name) → R (s.modifyChannel n f) (t.modifyChannel n f)
  removeChannel : ∀ {s t}, R s t → ∀ {n}, F n → R (s.removeChannel n) (t.removeChannel n)
  createChannel : ∀ {s t}, R s t → ∀ {n}, F n → R (s.createChannel n) (t.createChannel n)

/-- A relation between servers with the same channels, whatever becomes of these. -/
structure SameChannels (R : Server → Server → Prop) : Prop where
  channels : ∀ {s t}, R s t → t.channels = s.channels
  withChannels : ∀ {s t}, R s t → ∀ channels,
    R { s with channels := channels } { t with channels := channels }

namespace SameChannels

variable {R : Server → Server → Prop} (hR : SameChannels R) {s t : Server} (h : R s t)
include hR h

/-- Who hears of a new nickname is read off the channels. -/
theorem nickRecipients (p : Ptr) : t.nickRecipients p = s.nickRecipients p := by
  unfold Server.nickRecipients
  rw [hR.channels h]

/-- A channel is found in both or in neither. -/
theorem findChannel (name : Str) : t.findChannel name = s.findChannel name := by
  rw [Server.findChannel, Server.findChannel, hR.channels h]

theorem modifyChannel (name : Str) (f : Channel → Channel) :
    R (s.modifyChannel name f) (t.modifyChannel name f) := by
  rw [Server.modifyChannel, Server.modifyChannel, hR.channels h]
  exact hR.withChannels h _

theorem removeChannel (name : Str) : R (s.removeChannel name) (t.removeChannel name) := by
  rw [Server.removeChannel, Server.removeChannel, hR.channels h]
  exact hR.withChannels h _

/-- A channel is created if there is none. -/
theorem createChannel (name : Str) : R (s.createChannel name) (t.createChannel name) := by
  rw [Server.createChannel, Server.createChannel, hR.findChannel h, hR.channels h]
  split
  · exact h
  · exact hR.withChannels h _

end SameChannels

namespace Likeness

section

variable {c : Ptr} {F K : Str → Prop} {R : Server → Server → Prop} (hR : Likeness c F K R)
  {s t : Server} (h : R s t)
include hR h

/-! ## What is read -/

theorem passOk : (t.client c).passOk = (s.client c).passOk :=
  congrArg Client.Identity.passOk (hR.identity h)

theorem userSet : (t.client c).userSet = (s.client c).userSet :=
  congrArg Client.Identity.userSet (hR.identity h)

theorem failedPassAttempts :
    (t.client c).failedPassAttempts = (s.client c).failedPassAttempts :=
  congrArg Client.Identity.failedPassAttempts (hR.identity h)

theorem isRegistered : (t.client c).isRegistered = (s.client c).isRegistered :=
  Client.isRegistered_of_identity (hR.identity h)

/-- Replies name the client alike. -/
theorem displayName : FtIrc.displayName (t.client c) = FtIrc.displayName (s.client c) := by
  unfold FtIrc.displayName
  rw [Client.nickname_of_identity (hR.identity h)]

/-- Messages of a user begin alike. -/
theorem userPrefix (p : Ptr) : FtIrc.userPrefix t p = FtIrc.userPrefix s p := by
  rw [FtIrc.userPrefix, FtIrc.userPrefix, hR.nickname h, hR.username h]

/-- The 353 line of a channel is the same. -/
theorem namesList (ch : Channel) : JoinCommand.namesList t ch = JoinCommand.namesList s ch := by
  simp only [JoinCommand.namesList, hR.nickname h]

/-! ## What is written -/

/-- The recipients are told one after the other. -/
theorem sendAll (ps : List Ptr) (text : Str) : R (s.sendAll ps text) (t.sendAll ps text) := by
  unfold Server.sendAll
  induction ps generalizing s t with
  | nil => exact h
  | cons p ps ih => exact ih (hR.sendMessage h p text)

/-- The recipients are read off a channel that is the same in both. -/
theorem broadcastMessage (ch : Channel) (text : Str) (sender : Option Ptr) :
    R (s.broadcastMessage ch text sender) (t.broadcastMessage ch text sender) :=
  hR.sendAll h _ _

/-- A message computed from the state it is sent in. -/
theorem reply {f : Server → Str} (hf : f t = f s) :
    R (s.sendMessage c (f s)) (t.sendMessage c (f t)) := by
  rw [hf]
  exact hR.sendMessage h c (f s)

/-- A message that is sent under a condition. -/
theorem replyIf (b : Bool) {f : Server → Str} (hf : f t = f s) :
    R (if b then s.sendMessage c (f s) else s) (if b then t.sendMessage c (f t) else t) := by
  split_ifs
  · exact hR.reply h hf
  · exact h

/-! ## PASS, NICK and USER -/

/-- PASS reads the password, the counter and what has been accepted so far. -/
theorem pass (params : List Str) :
    R (PassCommand.execute s c params) (PassCommand.execute t c params) := by
  unfold PassCommand.execute
  dsimp only
  rw [hR.displayName h, hR.passOk h, hR.password h]
  have hwrong := fun text =>
    hR.sendMessage (hR.modify h _ Client.blind_recordFailedPassAttempt) c text
  rw [hR.failedPassAttempts (hwrong _)]
  split_ifs
  · exact hR.sendMessage h ..
  · exact hR.sendMessage h ..
  · exact hR.modify h _ fun _ => rfl
  · exact hR.modify (hwrong _) _ (Client.blind_markClosing _)
  · exact hwrong _

/-- The change is announced to the same clients. -/
theorem broadcastNicknameChange (p : Ptr) (oldNickname newNickname : Str) :
    R (s.broadcastNicknameChange p oldNickname newNickname)
      (t.broadcastNicknameChange p oldNickname newNickname) := by
  unfold Server.broadcastNicknameChange
  rw [hR.nickRecipients h, hR.username h]
  split_ifs
  · exact h
  · exact hR.sendAll h _ _

/-- The end of NICK and of USER: the welcome, if the registration is complete now. -/
theorem welcomeIf (before : Bool) :
    R (if before && (s.client c).isRegistered then
        s.sendMessage c (welcome (s.nickname c) (s.username c)) else s)
      (if before && (t.client c).isRegistered then
        t.sendMessage c (welcome (t.nickname c) (t.username c)) else t) := by
  rw [hR.isRegistered h, hR.nickname h, hR.username h]
  split_ifs
  · exact hR.sendMessage h ..
  · exact h

/-- The part of NICK behind its checks. -/
theorem nickAccepted (newNickname : Str) (wasRegistered : Bool) (oldNickname : Str) :
    let take (s : Server) :=
      let s := s.modify c fun x => { x with nickname := newNickname, nickSet := true }
      let s :=
        if wasRegistered && oldNickname != newNickname then
          s.broadcastNicknameChange c oldNickname newNickname
        else s
      if !wasRegistered && (s.client c).isRegistered then
        s.sendMessage c (welcome (s.nickname c) (s.username c))
      else s
    R (take s) (take t) := by
  intro take
  have hset := hR.modify h (fun x => { x with nickname := newNickname, nickSet := true }) fun _ => rfl
  apply hR.welcomeIf
  split_ifs
  · exact hR.broadcastNicknameChange hset ..
  · exact hset

/-- NICK reads the lookup of the wanted nickname. -/
theorem nick (params : List Str) :
    R (NickCommand.execute s c params) (NickCommand.execute t c params) := by
  have haccepted := hR.nickAccepted h (params.headD []) (s.client c).isRegistered (s.nickname c)
  unfold NickCommand.execute
  dsimp only at haccepted ⊢
  rw [hR.displayName h, hR.findClientByNick h, hR.isRegistered h, hR.nickname h]
  by_cases hnone : params.headD [] = []
  · rw [if_pos hnone, if_pos hnone]
    exact hR.sendMessage h ..
  rw [if_neg hnone, if_neg hnone]
  by_cases hvalid : (!NickCommand.isValidNickname (params.headD [])) = true
  · rw [if_pos hvalid, if_pos hvalid]
    exact hR.sendMessage h ..
  rw [if_neg hvalid, if_neg hvalid]
  by_cases howner : s.findClientByNick (params.headD []) ≠ none
      ∧ s.findClientByNick (params.headD []) ≠ some c
  · rw [if_pos howner, if_pos howner]
    exact hR.sendMessage h ..
  · rw [if_neg howner, if_neg howner]
    exact haccepted

/-- USER reads whether there has been one. -/
theorem user (params : List Str) :
    R (UserCommand.execute s c params) (UserCommand.execute t c params) := by
  unfold UserCommand.execute
  dsimp only
  rw [hR.displayName h, hR.userSet h]
  by_cases hset : (s.client c).userSet = true
  · rw [if_pos hset, if_pos hset]
    exact hR.sendMessage h ..
  rw [if_neg hset, if_neg hset]
  split
  · next username _ _ _ _ =>
    by_cases hvalid : (!UserCommand.isValidUsername username) = true
    · rw [if_pos hvalid, if_pos hvalid]
      exact hR.sendMessage h ..
    · rw [if_neg hvalid, if_neg hvalid]
      exact hR.welcomeIf (hR.modify h (fun x => { x with username, userSet := true }) fun _ => rfl) true
  · exact hR.sendMessage h ..

/-! ## JOIN -/

/-- What everybody is told about a new member. -/
theorem announce (ch : Channel) (name : Str) (isNew : Bool) :
    R (JoinCommand.announce s c ch name isNew) (JoinCommand.announce t c ch name isNew) := by
  unfold JoinCommand.announce
  rw [hR.userPrefix h]
  -- each reply names the client by a nickname that the replies before it have left alone
  have htold := fun joinMsg => hR.sendMessage (hR.broadcastMessage h ch joinMsg (some c)) c joinMsg
  have hmode := hR.replyIf (htold (FtIrc.userPrefix s c ++ lit " JOIN :" ++ name ++ lit "\r\n")) isNew
    (f := fun _ => lit ":server MODE " ++ name ++ lit " +t\r\n") rfl
  have htopic := hR.replyIf hmode (!ch.topic.isEmpty)
    (f := fun s => lit ":server 332 " ++ s.nickname c ++ lit " " ++ name ++ lit " :" ++ ch.topic
      ++ lit "\r\n") (by rw [hR.nickname hmode])
  have hnames := hR.reply htopic
    (f := fun s => lit ":server 353 " ++ s.nickname c ++ lit " = " ++ name ++ lit " :"
      ++ JoinCommand.namesList s ch ++ lit "\r\n")
    (by rw [hR.nickname htopic, hR.namesList htopic])
  exact hR.reply hnames
    (f := fun s => lit ":server 366 " ++ s.nickname c ++ lit " " ++ name
      ++ lit " :End of /NAMES list\r\n") (by rw [hR.nickname hnames])

/-- A channel of `F` is founded in both. -/
theorem create {name : Str} (hn : F name) :
    R (JoinCommand.create s c name) (JoinCommand.create t c name) := by
  have htopic := hR.modifyChannel (hR.createChannel h hn) hn
    (f := fun ch => { ch with topicRestricted := true }) fun _ => rfl
  exact hR.modifyChannel (hR.modifyChannel htopic hn (Channel.name_addMember · c)) hn
    (Channel.name_addOperator · c)

/-- A channel of `F` is entered in both. -/
theorem enter {name : Str} (hn : F name) :
    R (JoinCommand.enter s c name) (JoinCommand.enter t c name) := by
  refine hR.modifyChannel (hR.modifyChannel h hn (Channel.name_addMember · c)) hn fun ch => ?_
  split_ifs <;> rfl

/-- A channel that is shut refuses the client in both servers. -/
theorem joinOne (name : Str) {key : Str} (hkey : key = [] ∨ K key) :
    R (JoinCommand.joinOne s c name key) (JoinCommand.joinOne t c name key) := by
  by_cases hn : F name
  swap
  · obtain ⟨ch, ch', hch, hch', hshut, hshut'⟩ := hR.shut h hn
    unfold JoinCommand.joinOne
    dsimp only
    rw [hR.nickname h, hch, hch']
    dsimp only
    rw [hshut.isMember, hshut'.isMember, if_neg Bool.false_ne_true, if_neg Bool.false_ne_true,
      if_pos (hshut.refuses hkey), if_pos (hshut'.refuses hkey)]
    split_ifs <;> exact hR.sendMessage h ..
  have hcreated := hR.create h hn
  have hentered := hR.enter h hn
  unfold JoinCommand.joinOne
  dsimp only
  rw [hR.nickname h, hR.findChannel h hn, hR.findChannel hcreated hn, hR.findChannel hentered hn]
  by_cases hvalid : (!JoinCommand.isValidChannelName name) = true
  · rw [if_pos hvalid, if_pos hvalid]
    exact hR.sendMessage h ..
  rw [if_neg hvalid, if_neg hvalid]
  cases s.findChannel name with
  | none =>
    dsimp only
    split
    · exact hcreated
    · exact hR.announce hcreated ..
  | some ch =>
    dsimp only
    split_ifs
    · exact h
    · exact hR.sendMessage h ..
    · exact hR.sendMessage h ..
    · exact hR.sendMessage h ..
    · split
      · exact hentered
      · exact hR.announce hentered ..

/-- Every key in the list is one of `K`, and where the list ends there is none. -/
theorem joinLoop (names : List Str) {keys : List Str} (hkeys : ∀ k ∈ keys, K k) :
    R (JoinCommand.joinLoop s c names keys) (JoinCommand.joinLoop t c names keys) := by
  induction names generalizing s t keys with
  | nil => exact h
  | cons name names ih =>
    have hkey : keys.headD [] = [] ∨ K (keys.headD []) := by
      cases keys with
      | nil => exact Or.inl rfl
      | cons key keys => exact Or.inr (hkeys key List.mem_cons_self)
    exact ih (hR.joinOne h name hkey) fun k hk => hkeys k (List.mem_of_mem_tail hk)

/-- The client is in no channel that is shut. -/
theorem leave (name : Str) : R (JoinCommand.leave s c name) (JoinCommand.leave t c name) := by
  unfold JoinCommand.leave
  by_cases hn : F name
  swap
  · obtain ⟨ch, ch', hch, hch', hshut, hshut'⟩ := hR.shut h hn
    rw [hch, hch']
    dsimp only
    rw [hshut.isMember, hshut'.isMember, if_neg Bool.false_ne_true, if_neg Bool.false_ne_true]
    exact h
  rw [hR.findChannel h hn, hR.userPrefix h]
  split
  · exact h
  next ch hch =>
  have hleft := fun text => hR.modifyChannel (hR.sendMessage (hR.broadcastMessage h ch text (some c)) c text)
    hn (f := (·.removeMember c)) fun ch => by rw [Channel.removeMember_eq]
  dsimp only
  split_ifs
  · exact hR.removeChannel (hleft _) (hR.named h hn hch)
  · exact hleft _
  · exact h

omit hR in
/-- A loop over a list, if each turn keeps the likeness. -/
theorem foldl {α : Type} {f : Server → α → Server}
    (hf : ∀ {s t}, R s t → ∀ a, R (f s a) (f t a)) (l : List α) : R (l.foldl f s) (l.foldl f t) := by
  induction l generalizing s t with
  | nil => exact h
  | cons a l ih => exact ih (hf h a)

/-- JOIN, whose keys are those of the message. -/
theorem join {m : Message} (hkeys : ∀ k ∈ m.keys, K k) :
    R (JoinCommand.execute s c m.params) (JoinCommand.execute t c m.params) := by
  unfold Message.keys at hkeys
  unfold JoinCommand.execute JoinCommand.leaveAll
  rw [hR.nickname h, hR.keys h]
  match hp : m.params with
  | [] => exact hR.sendMessage h ..
  | [target] =>
    dsimp only
    split_ifs
    · exact foldl h (fun h name => hR.leave h name) _
    · exact hR.joinLoop h _ fun k hk => absurd hk List.not_mem_nil
  | target :: offered :: rest =>
    rw [hp] at hkeys
    dsimp only
    split_ifs
    · exact foldl h (fun h name => hR.leave h name) _
    · exact hR.joinLoop h _ hkeys

/-! ## KICK, INVITE, TOPIC and PRIVMSG -/

/-- A kick from a channel that is shut is refused in both. -/
theorem kickOne (reason name nick : Str) :
    R (KickCommand.kickOne reason c s name nick) (KickCommand.kickOne reason c t name nick) := by
  unfold KickCommand.kickOne
  dsimp only
  rw [hR.nickname h, hR.findClientByNick h, hR.userPrefix h]
  by_cases hn : F name
  swap
  · obtain ⟨ch, ch', hch, hch', hshut, hshut'⟩ := hR.shut h hn
    rw [hch, hch']
    dsimp only
    rw [hshut.isMember, hshut'.isMember, if_pos Bool.not_false, if_pos Bool.not_false]
    exact hR.sendMessage h ..
  rw [hR.findChannel h hn]
  split
  · exact hR.sendMessage h ..
  next ch _ =>
  split_ifs
  · exact hR.sendMessage h ..
  · exact hR.sendMessage h ..
  split
  · exact hR.sendMessage h ..
  split_ifs
  · exact hR.sendMessage h ..
  · exact hR.modifyChannel (hR.sendMessage (hR.broadcastMessage h ..) ..) hn fun ch => by
      rw [Channel.removeMember_eq]

theorem kick (params : List Str) :
    R (KickCommand.execute s c params) (KickCommand.execute t c params) := by
  unfold KickCommand.execute
  dsimp only
  rw [hR.nickname h]
  split
  · split_ifs
    · exact hR.sendMessage h ..
    · exact foldl h (fun h e => hR.kickOne h _ e.1 e.2) _
  · exact hR.sendMessage h ..

/-- So is an invitation. -/
theorem invite (params : List Str) :
    R (InviteCommand.execute s c params) (InviteCommand.execute t c params) := by
  unfold InviteCommand.execute
  dsimp only
  rw [hR.nickname h]
  split
  swap
  · exact hR.sendMessage h ..
  next nick name _ =>
  rw [hR.findClientByNick h]
  split
  · exact hR.sendMessage h ..
  next q _ =>
  by_cases hn : F name
  swap
  · obtain ⟨ch, ch', hch, hch', hshut, hshut'⟩ := hR.shut h hn
    rw [hch, hch']
    dsimp only
    rw [hshut.isMember, hshut'.isMember, if_pos Bool.not_false, if_pos Bool.not_false]
    exact hR.sendMessage h ..
  rw [hR.findChannel h hn]
  split
  · exact hR.sendMessage h ..
  split_ifs
  · exact hR.sendMessage h ..
  · exact hR.sendMessage h ..
  · exact hR.sendMessage h ..
  · have hinvited := hR.modifyChannel h hn (Channel.name_addInvited · q)
    have hanswered := hR.reply hinvited (f := fun s => lit ":server 341 " ++ s.nickname c ++ lit " "
      ++ nick ++ lit " " ++ name ++ lit "\r\n") (by rw [hR.nickname hinvited])
    rw [hR.userPrefix hanswered]
    exact hR.sendMessage hanswered ..

/-- So is TOPIC, with or without a text. -/
theorem topic (params : List Str) :
    R (TopicCommand.execute s c params) (TopicCommand.execute t c params) := by
  unfold TopicCommand.execute
  dsimp only
  rw [hR.nickname h]
  split
  · exact hR.sendMessage h ..
  next name rest =>
  by_cases hn : F name
  swap
  · obtain ⟨ch, ch', hch, hch', hshut, hshut'⟩ := hR.shut h hn
    rw [hch, hch']
    dsimp only
    rw [hshut.isMember, hshut'.isMember, if_pos Bool.not_false, if_pos Bool.not_false]
    exact hR.sendMessage h ..
  rw [hR.findChannel h hn]
  split
  · exact hR.sendMessage h ..
  next ch _ =>
  by_cases hmem : (!ch.isMember c) = true
  · rw [if_pos hmem, if_pos hmem]
    exact hR.sendMessage h ..
  rw [if_neg hmem, if_neg hmem]
  split
  · split_ifs
    · exact hR.sendMessage h ..
    · exact hR.sendMessage h ..
  next newTopic _ =>
  split_ifs
  · exact hR.sendMessage h ..
  · have hset := hR.modifyChannel h hn (f := fun ch => { ch with topic := newTopic }) fun _ => rfl
    rw [hR.userPrefix hset]
    exact hR.sendMessage (hR.broadcastMessage hset ..) ..

/-- So is a message to the channel; a message to a user goes to the same client. -/
theorem sendOne (senderPrefix text target : Str) :
    R (PrivmsgCommand.sendOne senderPrefix text c s target)
      (PrivmsgCommand.sendOne senderPrefix text c t target) := by
  unfold PrivmsgCommand.sendOne
  dsimp only
  rw [hR.nickname h, hR.findClientByNick h]
  by_cases hchannel : PrivmsgCommand.isChannel target = true
  swap
  · rw [if_neg hchannel, if_neg hchannel]
    split
    · exact hR.sendMessage h ..
    · exact hR.sendMessage h ..
  rw [if_pos hchannel, if_pos hchannel]
  by_cases hn : F target
  swap
  · obtain ⟨ch, ch', hch, hch', hshut, hshut'⟩ := hR.shut h hn
    rw [hch, hch']
    dsimp only
    rw [hshut.isMember, hshut'.isMember, if_pos Bool.not_false, if_pos Bool.not_false]
    exact hR.sendMessage h ..
  rw [hR.findChannel h hn]
  split
  · exact hR.sendMessage h ..
  split_ifs
  · exact hR.sendMessage h ..
  · exact hR.broadcastMessage h ..

theorem privmsg (params : List Str) :
    R (PrivmsgCommand.execute s c params) (PrivmsgCommand.execute t c params) := by
  unfold PrivmsgCommand.execute
  rw [hR.nickname h, hR.userPrefix h]
  split
  · exact hR.sendMessage h ..
  · exact hR.sendMessage h ..
  · exact foldl h (fun h target => hR.sendOne h _ _ target) _

end

/-! ## MODE -/

end Likeness

/-- Two loops over a mode string that differ in their servers at most. -/
structure ModeCommand.ModeLoop.Alike (R : Server → Server → Prop) (m m' : ModeLoop) : Prop where
  server : R m.server m'.server
  params : m'.params = m.params
  isPlus : m'.isPlus = m.isPlus
  appliedModes : m'.appliedModes = m.appliedModes
  appliedParams : m'.appliedParams = m.appliedParams
  lastSign : m'.lastSign = m.lastSign

namespace Likeness

open ModeCommand

variable {c : Ptr} {F K : Str → Prop} {R : Server → Server → Prop} (hR : Likeness c F K R)

section

variable {m m' : ModeLoop} (h : m.Alike R m')
include h

/-- The announcement grows alike. -/
theorem modeApplied (isPlus : Bool) (letter : Byte) (piece : Str) :
    (m.applied isPlus letter piece).Alike R (m'.applied isPlus letter piece) := by
  unfold ModeLoop.applied
  dsimp only
  rw [h.lastSign]
  split_ifs
  · exact ⟨h.server, h.params, h.isPlus, by rw [h.appliedModes], by rw [h.appliedParams], rfl⟩
  · exact ⟨h.server, h.params, h.isPlus, by rw [h.appliedModes], by rw [h.appliedParams], h.lastSign⟩

/-- The parameters that are left are the same. -/
theorem modeParams (rest : List Str) :
    ModeLoop.Alike R { m with params := rest } { m' with params := rest, isPlus := m.isPlus } :=
  ⟨h.server, rfl, rfl, h.appliedModes, h.appliedParams, h.lastSign⟩

include hR

theorem modeReply (text : Str) : (m.reply c text).Alike R (m'.reply c text) :=
  ⟨hR.sendMessage h.server c text, h.params, h.isPlus, h.appliedModes, h.appliedParams, h.lastSign⟩

variable {target : Str} (hn : F target)
include hn

/-- The channel of the loop is one of `F`. -/
theorem modeChange {f : Channel → Channel} (hf : ∀ ch, (f ch).name = ch.name) :
    (m.change target f).Alike R (m'.change target f) :=
  ⟨hR.modifyChannel h.server hn hf, h.params, h.isPlus, h.appliedModes, h.appliedParams, h.lastSign⟩

/-- The key is read off the channel of `F`. -/
theorem keyLetter (ch : Channel) :
    (ModeCommand.keyLetter c target ch m).Alike R (ModeCommand.keyLetter c target ch m') := by
  unfold ModeCommand.keyLetter
  dsimp only
  rw [h.params, h.isPlus, hR.nickname h.server]
  split
  · exact h
  next key rest _ =>
  have hrest := modeParams h rest
  split_ifs
  · exact hR.modeReply hrest _
  · exact modeApplied (hR.modeChange hrest hn fun _ => by rfl) ..
  · exact hR.modeReply hrest _
  · exact modeApplied (hR.modeChange hrest hn fun _ => by rfl) ..
  · exact hrest

theorem limitLetter (ch : Channel) :
    (ModeCommand.limitLetter c target ch m).Alike R (ModeCommand.limitLetter c target ch m') := by
  unfold ModeCommand.limitLetter
  dsimp only
  rw [h.params, h.isPlus, hR.nickname h.server]
  by_cases hplus : m.isPlus = true
  · rw [if_pos hplus, if_pos hplus]
    split
    · exact h
    next limit rest _ =>
    have hrest := modeParams h rest
    split_ifs
    · exact hR.modeReply hrest _
    · exact modeApplied (hR.modeChange hrest hn fun _ => by rfl) ..
    · exact hrest
  · rw [if_neg hplus, if_neg hplus]
    split_ifs
    · exact modeApplied (hR.modeChange h hn fun _ => by rfl) ..
    · exact h

/-- Whom `o` is about is looked up by nickname. -/
theorem operatorLetter (ch : Channel) :
    (ModeCommand.operatorLetter c target ch m).Alike R (ModeCommand.operatorLetter c target ch m') := by
  unfold ModeCommand.operatorLetter
  dsimp only
  rw [h.params, h.isPlus, hR.nickname h.server]
  split
  · exact h
  next nick rest _ =>
  have hrest := modeParams h rest
  rw [hR.findClientByNick h.server]
  split
  · exact hR.modeReply hrest _
  next q _ =>
  split_ifs
  -- granted, taken away, as it was before, not a member
  · exact modeApplied (hR.modeChange hrest hn (Channel.name_addOperator · q)) ..
  · exact modeApplied (hR.modeChange hrest hn fun _ => by rfl) ..
  · exact hrest
  · exact hR.modeReply hrest _

/-- One turn of the loop. -/
theorem modeLetter (letter : Byte) :
    (ModeCommand.modeLetter c target m letter).Alike R
      (ModeCommand.modeLetter c target m' letter) := by
  unfold ModeCommand.modeLetter ModeCommand.inviteOnlyLetter ModeCommand.topicLetter
  rw [hR.findChannel h.server hn, h.isPlus]
  split
  · exact h
  next ch _ =>
  split_ifs
  · exact ⟨h.server, h.params, rfl, h.appliedModes, h.appliedParams, h.lastSign⟩
  · exact ⟨h.server, h.params, rfl, h.appliedModes, h.appliedParams, h.lastSign⟩
  · exact modeApplied (hR.modeChange h hn fun _ => by rfl) ..
  · exact h
  · exact modeApplied (hR.modeChange h hn fun _ => by rfl) ..
  · exact h
  · exact hR.keyLetter h hn ch
  · exact hR.limitLetter h hn ch
  · exact hR.operatorLetter h hn ch
  · exact h

/-- The loop over the mode string. -/
theorem modeLoop (modeString : Str) :
    (ModeCommand.modeLoop c target modeString m).Alike R
      (ModeCommand.modeLoop c target modeString m') := by
  unfold ModeCommand.modeLoop
  induction modeString generalizing m m' with
  | nil => exact h
  | cons letter letters ih => exact ih (hR.modeLetter h hn letter)

/-- The announcement goes to the same members. -/
theorem broadcastModes :
    R (ModeCommand.broadcastModes c target m) (ModeCommand.broadcastModes c target m') := by
  unfold ModeCommand.broadcastModes
  rw [h.appliedModes, h.appliedParams, hR.findChannel h.server hn, hR.nickname h.server,
    hR.username h.server]
  split_ifs
  · exact h.server
  · split
    · exact h.server
    · exact hR.broadcastMessage h.server ..

end

section

variable {s t : Server} (h : R s t)
include hR h

/-- MODE, except for the query of a channel that is shut. -/
theorem mode {params : List Str} (hquery : ∀ n, params = [n] → F n) :
    R (ModeCommand.execute s c params) (ModeCommand.execute t c params) := by
  unfold ModeCommand.execute
  rw [hR.nickname h]
  split
  · exact hR.sendMessage h ..
  next target rest =>
  by_cases hname : target.head? ≠ some (ch '#') ∧ target.head? ≠ some (ch '&')
  · rw [if_pos hname, if_pos hname]
    exact h
  rw [if_neg hname, if_neg hname]
  by_cases hn : F target
  swap
  · obtain ⟨ch, ch', hch, hch', hshut, hshut'⟩ := hR.shut h hn
    rw [hch, hch']
    cases rest with
    | nil => exact absurd (hquery target rfl) hn
    | cons modeString arguments =>
      dsimp only
      rw [hshut.isOperator, hshut'.isOperator, if_pos Bool.not_false, if_pos Bool.not_false]
      exact hR.sendMessage h ..
  rw [hR.findChannel h hn]
  split
  · exact hR.sendMessage h ..
  next channel _ =>
  split
  · exact hR.sendMessage h ..
  next modeString arguments =>
  by_cases hop : (!channel.isOperator c) = true
  · rw [if_pos hop, if_pos hop]
    exact hR.sendMessage h ..
  rw [if_neg hop, if_neg hop]
  split
  · exact hR.sendMessage h ..
  · have hstart : ModeLoop.Alike R { server := s, params := arguments }
        { server := t, params := arguments } := ⟨h, rfl, rfl, rfl, rfl, rfl⟩
    exact hR.broadcastModes (hR.modeLoop hstart hn modeString) hn

/-! ## A line -/

/-- Every command object, by the table. -/
theorem execute (command : Command) {m : Message} (hkeys : command = .join → ∀ k ∈ m.keys, K k)
    (hquery : command = .mode → ∀ n, m.params = [n] → F n) :
    R (command.execute s c m.params) (command.execute t c m.params) := by
  cases command with
  | pass => exact hR.pass h m.params
  | nick => exact hR.nick h m.params
  | user => exact hR.user h m.params
  | join => exact hR.join h (hkeys rfl)
  | privmsg => exact hR.privmsg h m.params
  | kick => exact hR.kick h m.params
  | invite => exact hR.invite h m.params
  | topic => exact hR.topic h m.params
  | mode => exact hR.mode h (hquery rfl)

/-- Servers that are alike for a client stay alike over a line of it that offers no key of a channel
that is shut, and does not ask for its modes. -/
theorem processMessage {m : Message} (hkeys : m.handler = some .join → ∀ k ∈ m.keys, K k)
    (hquery : m.handler = some .mode → ∀ n, m.params = [n] → F n) :
    R (s.processMessage c m) (t.processMessage c m) := by
  unfold Server.processMessage
  dsimp only
  rw [hR.displayName h, hR.passOk h, hR.isRegistered h]
  by_cases hempty : m.command = []
  · rw [if_pos hempty, if_pos hempty]
    exact h
  rw [if_neg hempty, if_neg hempty]
  by_cases hcap : m.command = lit "CAP"
  · rw [if_pos hcap, if_pos hcap]
    split_ifs
    · exact hR.sendMessage h ..
    · exact h
  rw [if_neg hcap, if_neg hcap]
  by_cases hping : m.command = lit "PING"
  · rw [if_pos hping, if_pos hping]
    exact hR.sendMessage h ..
  rw [if_neg hping, if_neg hping]
  by_cases hquit : m.command = lit "QUIT"
  · rw [if_pos hquit, if_pos hquit]
    exact hR.modify h _ (Client.blind_markClosing _)
  rw [if_neg hquit, if_neg hquit]
  split
  · exact hR.sendMessage h ..
  next command hcommand =>
  split_ifs
  · exact hR.sendMessage h ..
  · exact hR.sendMessage h ..
  · refine hR.execute h command (fun hjoin => hkeys ?_) fun hmode => hquery ?_
    · rw [Message.handler, hcommand, hjoin]
    · rw [Message.handler, hcommand, hmode]

end

/-- If no channel is shut, any line will do. -/
theorem processLine (hR : Likeness c (fun _ => True) (fun _ => True) R) {s t : Server} (h : R s t)
    (line : Str) : R (s.processLine c line) (t.processLine c line) :=
  hR.processMessage h (fun _ _ _ => trivial) fun _ _ _ => trivial

end Likeness

end FtIrc
