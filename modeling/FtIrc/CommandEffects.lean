import FtIrc.Effects

/-!
# The effects of the handlers

Each handler is taken apart into the effects of `FtIrc.Effects`. The loops of JOIN, KICK,
PRIVMSG and MODE keep "this state was reached by effects of the line" as their invariant, so
a turn may start from any such state.
-/

namespace FtIrc

open Bytes

/-- A change of a channel depends on the channel that is there. -/
theorem Server.modifyChannel_eq {s : Server} {name : Str} {ch : Channel} (f : Channel → Channel)
    (h : s.findChannel name = some ch) :
    s.modifyChannel name f = s.modifyChannel name fun _ => f ch := by
  have hmodify : s.channels.modify name f = s.channels.modify name fun _ => f ch :=
    OrdMap.modify_congr h rfl
  rw [Server.modifyChannel, Server.modifyChannel, hmodify]

/-- Telling a channel changes no channel. -/
theorem Server.findChannel_tell (s : Server) (ch : Channel) (text : Str) (c : Ptr) (name : Str) :
    ((s.broadcastMessage ch text (some c)).sendMessage c text).findChannel name
      = s.findChannel name := by
  rw [findChannel, channels_sendMessage, channels_broadcastMessage]
  rfl

/-- The branch of PASS for a wrong password is one update of the client. -/
theorem PassCommand.wrong_eq {c : Ptr} {s₀ : Server} {x : Client} (hx : s₀.heap c = some x)
    {text : Str} (htext : text = lit ":server 464 " ++ displayName x ++ lit " :Password incorrect\r\n") :
    let s := (s₀.modify c (·.recordFailedPassAttempt)).sendMessage c text
    (if (s.client c).failedPassAttempts ≥ PassCommand.maxFailedPassAttempts then
        s.modify c (·.markClosing (lit "too many invalid PASS attempts"))
      else s) = s₀.modify c fun _ => x.failPass := by
  intro s
  have hs : s = s₀.modify c fun _ => x.recordFailedPassAttempt.sendMessage text := by
    show (s₀.modify c _).modify c _ = _
    rw [Server.modify_modify]
    exact Server.modify_eq _ hx
  rw [hs, Server.client_modify_self _ hx, Server.modify_modify]
  unfold Client.failPass
  rw [htext]
  dsimp only
  split_ifs <;> rfl

namespace Effects

variable {c : Ptr} {m : Message} {s₀ s : Server}

/-! ## PASS, NICK and USER -/

section Registration

variable {x : Client} (hx : s₀.heap c = some x)
include hx

theorem pass (hm : m.handler = some .pass) :
    Effects c m s₀ (PassCommand.execute s₀ c m.params) := by
  have hc : s₀.client c = x := Server.client_of_heap hx
  unfold PassCommand.execute
  dsimp only
  rw [hc]
  by_cases hok : x.passOk = true
  · rw [if_pos hok]
    apply refl.reply
    repeat apply ServerReply.append
    decide
  rw [if_neg hok]
  have hok' : x.passOk = false := Bool.eq_false_iff.mpr hok
  by_cases hnone : m.params.headD [] = []
  · rw [if_pos hnone]
    apply refl.reply
    repeat apply ServerReply.append
    decide
  rw [if_neg hnone]
  have hhead : m.params.head? = some s₀.password ↔ m.params.headD [] = s₀.password := by
    cases hp : m.params with
    | nil => exact absurd (by rw [hp]; rfl) hnone
    | cons w ws => exact Option.some_inj
  by_cases hpassword : m.params.headD [] = s₀.password
  · rw [if_pos hpassword, Server.modify_eq _ hx]
    exact refl.tail (.own hx (.authenticate hm hok' (hhead.mpr hpassword)))
  · rw [if_neg hpassword, PassCommand.wrong_eq hx rfl]
    exact refl.tail (.own hx (.failPass hm hok' fun h => hpassword (hhead.mp h)))

/-- The branch of NICK for a nickname that is accepted: one update of the client, then the
announcement of the change. -/
theorem nick_accepted {n : Str} (hm : m.handler = some .nick) (hok : x.passOk = true)
    (hparam : m.params.head? = some n) (hvalid : NickCommand.isValidNickname n = true)
    (hfree : ∀ q, s₀.findClientByNick n = some q → q = c) :
    let s := s₀.modify c fun x => { x with nickname := n, nickSet := true }
    let s :=
      if x.isRegistered && x.nickname != n then s.broadcastNicknameChange c x.nickname n else s
    Effects c m s₀
      (if !x.isRegistered && (s.client c).isRegistered then
        s.sendMessage c (welcome (s.nickname c) (s.username c))
      else s) := by
  have hown : Effects c m s₀ (s₀.modify c fun _ => x.takeNickname n) :=
    refl.tail (.own hx (.takeNickname hm hok hparam hvalid hfree))
  have hc : s₀.client c = x := Server.client_of_heap hx
  intro s₁ s₂
  cases hreg : x.isRegistered with
  | true =>
    have hs₁ : s₁ = s₀.modify c fun _ => x.takeNickname n := by
      refine Server.modify_congr hx ?_
      simp [Client.takeNickname, hreg]
    rw [← hs₁] at hown
    rw [Bool.not_true, Bool.false_and, if_neg Bool.false_ne_true]
    show Effects c m s₀ (if _ then _ else s₁)
    split_ifs with hchanged
    · unfold Server.broadcastNicknameChange
      split_ifs with hempty
      · exact hown
      · apply hown.relayAll (by rw [hc, hreg])
        rw [Server.nickname, hc]
        have hhead : FromUser x.nickname (lit ":" ++ x.nickname ++ lit "!") := List.prefix_rfl
        exact (((hhead.append _).append _).append _).append _
    · exact hown
  | false =>
    have hs₂ : s₂ = s₁ := by
      show (if _ then _ else s₁) = s₁
      rw [hreg, Bool.false_and, if_neg Bool.false_ne_true]
    have hclient : s₁.client c = { x with nickname := n, nickSet := true } :=
      Server.client_modify_self _ hx
    rw [hs₂, Bool.not_false, Bool.true_and, Server.nickname, Server.username, hclient]
    refine Eq.subst ?_ hown
    simp only [Client.takeNickname, hreg, Bool.not_false, Bool.true_and]
    split_ifs
    · show _ = (s₀.modify c _).modify c _
      rw [Server.modify_modify]
      symm
      exact Server.modify_eq _ hx
    · symm
      exact Server.modify_eq _ hx

theorem nick (hm : m.handler = some .nick) (hok : x.passOk = true) :
    Effects c m s₀ (NickCommand.execute s₀ c m.params) := by
  have hc : s₀.client c = x := Server.client_of_heap hx
  unfold NickCommand.execute
  dsimp only
  rw [Server.nickname, hc]
  by_cases hnone : m.params.headD [] = []
  · rw [if_pos hnone]
    exact refl.reply _ (by decide)
  rw [if_neg hnone]
  by_cases hvalid : NickCommand.isValidNickname (m.params.headD []) = true
  swap
  · rw [if_pos (by simpa using hvalid)]
    apply refl.reply
    repeat apply ServerReply.append
    decide
  rw [if_neg (by simpa using hvalid)]
  by_cases howner : s₀.findClientByNick (m.params.headD []) ≠ none
      ∧ s₀.findClientByNick (m.params.headD []) ≠ some c
  · rw [if_pos howner]
    apply refl.reply
    repeat apply ServerReply.append
    decide
  rw [if_neg howner]
  have hparam : m.params.head? = some (m.params.headD []) := by
    cases hp : m.params with
    | nil => exact absurd (by rw [hp]; rfl) hnone
    | cons w ws => rfl
  refine nick_accepted hx hm hok hparam hvalid fun q hq => ?_
  by_contra hne
  exact howner ⟨by rw [hq]; exact Option.some_ne_none q,
    by rw [hq]; exact fun h => hne (Option.some_inj.mp h)⟩

theorem user (hm : m.handler = some .user) (hok : x.passOk = true) :
    Effects c m s₀ (UserCommand.execute s₀ c m.params) := by
  have hc : s₀.client c = x := Server.client_of_heap hx
  unfold UserCommand.execute
  dsimp only
  rw [hc]
  by_cases hset : x.userSet = true
  · rw [if_pos hset]
    apply refl.reply
    repeat apply ServerReply.append
    decide
  rw [if_neg hset]
  split
  · next username _ _ _ _ _ =>
    by_cases hvalid : UserCommand.isValidUsername username = true
    swap
    · rw [if_pos (by simpa using hvalid)]
      apply refl.reply
      repeat apply ServerReply.append
      decide
    rw [if_neg (by simpa using hvalid)]
    have hown : Effects c m s₀ (s₀.modify c fun _ => x.takeUsername username) :=
      refl.tail (.own hx (.takeUsername hm hok (Bool.eq_false_iff.mpr hset) hvalid))
    rw [Server.nickname, Server.username, Server.client_modify_self _ hx]
    refine Eq.subst ?_ hown
    simp only [Client.takeUsername]
    split_ifs
    · show _ = (s₀.modify c _).modify c _
      rw [Server.modify_modify]
      symm
      exact Server.modify_eq _ hx
    · symm
      exact Server.modify_eq _ hx
  · apply refl.reply
    repeat apply ServerReply.append
    decide

end Registration

/-! ## The loops -/

/-- What is sent behind `userPrefix` is said in the name of the client. -/
theorem fromUser (hs : Effects c m s₀ s) (hm : m.handler ≠ some .nick) :
    FromUser (s₀.nickname c) (userPrefix s c) := by
  rw [← hs.nickname_eq hm]
  exact fromUser_userPrefix s c

/-- A loop over a list is a sequence of effects if each turn is. -/
theorem foldl {α : Type} {f : Server → α → Server} (hs : Effects c m s₀ s) (l : List α)
    (step : ∀ s, ∀ a ∈ l, Effects c m s₀ s → Effects c m s₀ (f s a)) :
    Effects c m s₀ (l.foldl f s) := by
  induction l generalizing s with
  | nil => exact hs
  | cons a l ih =>
    rw [List.foldl_cons]
    apply ih (step s a List.mem_cons_self hs)
    intro s b hb
    exact step s b (List.mem_cons_of_mem a hb)

section Registered

variable (hreg : (s₀.client c).isRegistered = true)

include hreg in
/-- The client's words go to the other members of a channel and then to the client. -/
theorem tellChannel (hs : Effects c m s₀ s) (ch : Channel) {text : Str}
    (h : FromUser (s₀.nickname c) text) :
    Effects c m s₀ ((s.broadcastMessage ch text (some c)).sendMessage c text) :=
  (hs.relayAll hreg _ h).tail (.relay c hreg h)

/-! ## JOIN -/

section Join

variable (hm : m.handler = some .join) (hzero : m.params.head? ≠ some (lit "0"))

include hreg hm in
theorem announce (hs : Effects c m s₀ s) (channel : Channel) (name : Str) (isNew : Bool) :
    Effects c m s₀ (JoinCommand.announce s c channel name isNew) := by
  have hfrom := hs.fromUser (by rw [hm]; decide)
  have htext : FromUser (s₀.nickname c) (userPrefix s c ++ lit " JOIN :" ++ name ++ lit "\r\n") :=
    ((hfrom.append _).append _).append _
  have htold := hs.tellChannel hreg channel htext
  unfold JoinCommand.announce
  dsimp only
  apply reply
  · apply reply
    · split_ifs
      -- a topic and a new channel, a topic only, a new channel only, neither
      · apply reply
        · exact htold.reply _ (.append (.append (by decide) _) _)
        · repeat apply ServerReply.append
          decide
      · apply htold.reply
        repeat apply ServerReply.append
        decide
      · exact htold.reply _ (.append (.append (by decide) _) _)
      · exact htold
    · repeat apply ServerReply.append
      decide
  · repeat apply ServerReply.append
    decide

omit hreg in
/-- The steps that create a channel amount to one insertion. -/
theorem create_eq {name : Str} (hnew : s.findChannel name = none) :
    JoinCommand.create s c name
      = { s with channels := s.channels.insert name (Channel.founded name c) } := by
  unfold JoinCommand.create Server.createChannel
  rw [hnew]
  simp only [Server.modifyChannel, OrdMap.modify_insert]
  rfl

omit hreg in
/-- The steps that enter a channel amount to one change. -/
theorem enter_eq {name : Str} {ch : Channel} (hch : s.findChannel name = some ch) :
    JoinCommand.enter s c name
      = s.modifyChannel name fun _ => (ch.addMember c).removeInvited c := by
  have huninvite : ∀ ch : Channel,
      (if ch.isInvited c then ch.removeInvited c else ch) = ch.removeInvited c := by
    intro ch
    split_ifs with hin
    · rfl
    · have hout : c ∉ ch.invitedClients := fun h => hin ((Channel.isInvited_iff _ _).mpr h)
      rw [Channel.removeInvited, List.erase_of_not_mem hout]
  unfold JoinCommand.enter
  simp only [huninvite, Server.modifyChannel, OrdMap.modify_modify]
  exact Server.modifyChannel_eq _ hch

include hreg hm hzero in
theorem joinOne (hs : Effects c m s₀ s) {name key : Str} (hname : name ∈ m.channelNames)
    (hkey : key = [] ∨ key ∈ m.keys) : Effects c m s₀ (JoinCommand.joinOne s c name key) := by
  unfold JoinCommand.joinOne
  dsimp only
  by_cases hvalid : JoinCommand.isValidChannelName name = true
  swap
  · rw [if_pos (by simpa using hvalid)]
    apply hs.reply
    repeat apply ServerReply.append
    decide
  rw [if_neg (by simpa using hvalid)]
  -- a channel that is not there is founded, whatever the key
  split
  · next hnew =>
    have hfound := hs.tail (.found hreg hm hzero hname hvalid hnew)
    rw [← create_eq hnew] at hfound
    split
    · exact hfound
    · exact hfound.announce hreg hm _ _ _
  · next ch hch =>
    by_cases hmem : ch.isMember c = true
    · rw [if_pos hmem]
      exact hs
    rw [if_neg hmem]
    -- the refusals in the order of the source: the key, the invitation, the limit
    by_cases hpassword : (!ch.password.isEmpty && ch.password != key) = true
    · rw [if_pos hpassword]
      apply hs.reply
      repeat apply ServerReply.append
      decide
    rw [if_neg hpassword]
    by_cases hinvite : (ch.inviteOnly && !ch.isInvited c) = true
    · rw [if_pos hinvite]
      apply hs.reply
      repeat apply ServerReply.append
      decide
    rw [if_neg hinvite]
    by_cases hlimit : (decide (ch.userLimit > 0) && decide (ch.getMembersCount ≥ ch.userLimit)) = true
    · rw [if_pos hlimit]
      apply hs.reply
      repeat apply ServerReply.append
      decide
    rw [if_neg hlimit]
    -- what the three refusals leave is all that the effect asks for
    have hchange : ChannelChange c m s₀ s name ch ((ch.addMember c).removeInvited c) := by
      refine .join hm hzero (by simpa using hmem) ?_ ?_ ?_
      · by_cases hp : ch.password = []
        · exact Or.inl hp
        · have heq : ch.password = key := by simpa [hp] using hpassword
          exact Or.inr (heq ▸ hkey.resolve_left (heq ▸ hp))
      · simpa using hinvite
      · simp only [Channel.getMembersCount, ge_iff_le, Bool.and_eq_true, decide_eq_true_eq]
          at hlimit
        omega
    have hentered := hs.tail (.change hreg hname hch hchange)
    rw [← enter_eq hch] at hentered
    split
    · exact hentered
    · exact hentered.announce hreg hm _ _ _

include hreg hm hzero in
theorem joinLoop (hs : Effects c m s₀ s) (names keys : List Str)
    (hnames : ∀ n ∈ names, n ∈ m.channelNames) (hkeys : ∀ k ∈ keys, k ∈ m.keys) :
    Effects c m s₀ (JoinCommand.joinLoop s c names keys) := by
  induction names generalizing s keys with
  | nil => exact hs
  | cons name names ih =>
    rw [JoinCommand.joinLoop]
    have hkey : keys.headD [] = [] ∨ keys.headD [] ∈ m.keys := by
      cases keys with
      | nil => exact Or.inl rfl
      | cons k ks => exact Or.inr (hkeys k List.mem_cons_self)
    apply ih (hs.joinOne hreg hm hzero (hnames name List.mem_cons_self) hkey)
    · intro n hn
      exact hnames n (List.mem_cons_of_mem name hn)
    · intro k hk
      exact hkeys k (List.mem_of_mem_tail hk)

include hreg in
theorem leave (hs : Effects c m s₀ s) (hzero : m.LeavesAll) (name : Str) :
    Effects c m s₀ (JoinCommand.leave s c name) := by
  have hfrom := hs.fromUser (by rw [hzero.1]; decide)
  unfold JoinCommand.leave
  split
  · exact hs
  next ch hch =>
  by_cases hmem : ch.isMember c = true
  swap
  · rw [if_neg hmem]
    exact hs
  rw [if_pos hmem, Channel.isMember_iff] at *
  have htext : FromUser (s₀.nickname c)
      (userPrefix s c ++ lit " PART " ++ ch.name ++ lit " :Left all channels\r\n") :=
    ((hfrom.append _).append _).append _
  have htold := hs.tellChannel hreg ch htext
  have hch' := fun text => (Server.findChannel_tell s ch text c name).trans hch
  dsimp only
  rw [Server.modifyChannel_eq _ (hch' _)]
  split_ifs with hcount
  · have hrest : (ch.removeMember c).members = [] := List.length_eq_zero_iff.mp hcount
    exact htold.tail (.dissolve hreg hzero (hch' _) hmem hrest)
  · have hrest : (ch.removeMember c).members ≠ [] := fun h => hcount (List.length_eq_zero_iff.mpr h)
    exact htold.tail (.part hreg hzero (hch' _) hmem hrest)

include hreg hm in
theorem join : Effects c m s₀ (JoinCommand.execute s₀ c m.params) := by
  have hnames : m.channelNames = splitString (m.params.headD []) comma := by
    rw [Message.channelNames, hm]
  unfold JoinCommand.execute
  split
  · apply refl.reply
    repeat apply ServerReply.append
    decide
  next target rest hp =>
  split_ifs with hzero
  · apply refl.foldl
    intro s name _ hs
    refine hs.leave hreg ⟨hm, ?_⟩ name
    rw [hp, hzero]
    rfl
  · apply refl.joinLoop hreg hm
    · rw [hp]
      exact fun h => hzero (Option.some_inj.mp h)
    · intro n hn
      rw [hnames, hp]
      exact hn
    · intro k hk
      rw [Message.keys, hp]
      cases rest with
      | nil => exact absurd hk List.not_mem_nil
      | cons key rest => exact hk

end Join

/-! ## KICK, INVITE, TOPIC and PRIVMSG -/

include hreg in
theorem kickOne (hs : Effects c m s₀ s) (hm : m.handler = some .kick) (reason : Str) {name : Str}
    (hname : name ∈ m.channelNames) (targetNick : Str) :
    Effects c m s₀ (KickCommand.kickOne reason c s name targetNick) := by
  have hfrom := hs.fromUser (by rw [hm]; decide)
  unfold KickCommand.kickOne
  dsimp only
  split
  · apply hs.reply
    repeat apply ServerReply.append
    decide
  next ch hch =>
  by_cases hmem : ch.isMember c = true
  swap
  · rw [if_pos (by simpa using hmem)]
    apply hs.reply
    repeat apply ServerReply.append
    decide
  rw [if_neg (by simpa using hmem)]
  by_cases hop : ch.isOperator c = true
  swap
  · rw [if_pos (by simpa using hop)]
    apply hs.reply
    repeat apply ServerReply.append
    decide
  rw [if_neg (by simpa using hop)]
  split
  · apply hs.reply
    repeat apply ServerReply.append
    decide
  next q hfind =>
  by_cases hq : ch.isMember q = true
  swap
  · rw [if_pos (by simpa using hq)]
    apply hs.reply
    repeat apply ServerReply.append
    decide
  rw [if_neg (by simpa using hq)]
  have htext : FromUser (s₀.nickname c) (userPrefix s c ++ lit " KICK " ++ name ++ lit " "
      ++ targetNick ++ lit " :" ++ reason ++ lit "\r\n") :=
    ((((((hfrom.append _).append _).append _).append _).append _).append _).append _
  rw [Channel.isMember_iff] at hmem hq
  rw [Channel.isOperator_iff] at hop
  have hch' := fun text => (Server.findChannel_tell s ch text c name).trans hch
  rw [Server.modifyChannel_eq _ (hch' _)]
  exact (hs.tellChannel hreg ch htext).tail (.change hreg hname (hch' _) (.kick hm hmem hop hq))

include hreg in
theorem kick (hm : m.handler = some .kick) :
    Effects c m s₀ (KickCommand.execute s₀ c m.params) := by
  have hnames : m.channelNames = splitString (m.params.headD []) comma := by
    rw [Message.channelNames, hm]
  have hrefused : Effects c m s₀ (s₀.sendMessage c
      (lit ":server 461 " ++ s₀.nickname c ++ lit " KICK :Not enough parameters\r\n")) := by
    apply refl.reply
    repeat apply ServerReply.append
    decide
  unfold KickCommand.execute
  dsimp only
  split
  · next channelList userList rest hp =>
    split_ifs
    · exact hrefused
    · apply refl.foldl
      intro s e he hs
      have he' : e.1 ∈ splitString channelList comma := by
        unfold KickCommand.targets at he
        split at he
        · next name hlist =>
          obtain ⟨u, _, rfl⟩ := List.mem_map.mp he
          rw [hlist]
          exact List.mem_singleton_self name
        · exact (List.of_mem_zip he).1
      exact hs.kickOne hreg hm _ (by rw [hnames, hp]; exact he') e.2
  · exact hrefused

include hreg in
theorem invite (hm : m.handler = some .invite) :
    Effects c m s₀ (InviteCommand.execute s₀ c m.params) := by
  unfold InviteCommand.execute
  split
  swap
  · apply refl.reply
    repeat apply ServerReply.append
    decide
  next targetNick name rest hp =>
  have hname : name ∈ m.channelNames := by
    rw [Message.channelNames, hm, hp]
    exact List.mem_singleton_self name
  dsimp only
  split
  · apply refl.reply
    repeat apply ServerReply.append
    decide
  next q hfind =>
  split
  · apply refl.reply
    repeat apply ServerReply.append
    decide
  next ch hch =>
  by_cases hmem : ch.isMember c = true
  swap
  · rw [if_pos (by simpa using hmem)]
    apply refl.reply
    repeat apply ServerReply.append
    decide
  rw [if_neg (by simpa using hmem)]
  by_cases hq : ch.isMember q = true
  · rw [if_pos hq]
    apply refl.reply
    repeat apply ServerReply.append
    decide
  rw [if_neg hq]
  -- operators are asked for only if the channel is +i
  by_cases hop : (ch.inviteOnly && !ch.isOperator c) = true
  · rw [if_pos hop]
    apply refl.reply
    repeat apply ServerReply.append
    decide
  rw [if_neg hop, Server.modifyChannel_eq _ hch]
  have hinvited := (refl : Effects c m s₀ s₀).tail
    (.change hreg hname hch (.invite hm (by simpa using hmem) (by simpa using hop) hfind
      (by simpa using hq)))
  have hreplied := hinvited.reply (lit ":server 341 " ++ s₀.nickname c ++ lit " "
      ++ targetNick ++ lit " " ++ name ++ lit "\r\n") (by
    repeat apply ServerReply.append
    decide)
  have hfrom := hreplied.fromUser (by rw [hm]; decide)
  exact hreplied.tail
    (.relay q hreg (((((hfrom.append _).append _).append _).append _).append _))

include hreg in
theorem topic (hm : m.handler = some .topic) :
    Effects c m s₀ (TopicCommand.execute s₀ c m.params) := by
  have hfrom := fromUser (refl : Effects c m s₀ s₀) (by rw [hm]; decide)
  unfold TopicCommand.execute
  split
  · apply refl.reply
    repeat apply ServerReply.append
    decide
  next name rest hp =>
  have hname : name ∈ m.channelNames := by
    rw [Message.channelNames, hm, hp]
    exact List.mem_singleton_self name
  dsimp only
  split
  · apply refl.reply
    repeat apply ServerReply.append
    decide
  next ch hch =>
  by_cases hmem : ch.isMember c = true
  swap
  · rw [if_pos (by simpa using hmem)]
    apply refl.reply
    repeat apply ServerReply.append
    decide
  rw [if_neg (by simpa using hmem)]
  split
  · split_ifs
    · apply refl.reply
      repeat apply ServerReply.append
      decide
    · apply refl.reply
      repeat apply ServerReply.append
      decide
  next _ text _ =>
  by_cases hop : (ch.topicRestricted && !ch.isOperator c) = true
  · rw [if_pos hop]
    apply refl.reply
    repeat apply ServerReply.append
    decide
  rw [if_neg hop, Server.modifyChannel_eq _ hch]
  have htext : FromUser (s₀.nickname c) (userPrefix s₀ c ++ lit " TOPIC " ++ name ++ lit " :"
      ++ text ++ lit "\r\n") :=
    ((((hfrom.append _).append _).append _).append _).append _
  have hset := (refl : Effects c m s₀ s₀).tail
    (.change hreg hname hch (.topic text hm (by simpa using hmem) (by simpa using hop)))
  exact hset.tellChannel hreg _ htext

include hreg in
theorem privmsg (hm : m.handler = some .privmsg) :
    Effects c m s₀ (PrivmsgCommand.execute s₀ c m.params) := by
  have hfrom := fromUser (refl : Effects c m s₀ s₀) (by rw [hm]; decide)
  unfold PrivmsgCommand.execute
  split
  · apply refl.reply
    repeat apply ServerReply.append
    decide
  · apply refl.reply
    repeat apply ServerReply.append
    decide
  next targets text rest _ =>
  apply refl.foldl
  intro s target _ hs
  have htext : FromUser (s₀.nickname c) (userPrefix s₀ c ++ lit " PRIVMSG " ++ target ++ lit " :"
      ++ text ++ lit "\r\n") :=
    ((((hfrom.append _).append _).append _).append _).append _
  unfold PrivmsgCommand.sendOne
  dsimp only
  split_ifs
  · split
    · apply hs.reply
      repeat apply ServerReply.append
      decide
    · split_ifs
      · apply hs.reply
        repeat apply ServerReply.append
        decide
      · exact hs.relayAll hreg _ htext
  · split
    · apply hs.reply
      repeat apply ServerReply.append
      decide
    · next q _ => exact hs.tail (.relay q hreg htext)

/-! ## MODE -/

section Mode

variable {target : Str} {ch₀ : Channel} (hm : m.handler = some .mode)
  (hname : target ∈ m.channelNames) (h₀ : s₀.findChannel target = some ch₀)
  (hop : c ∈ ch₀.operators)

include hreg hm hname h₀ hop in
/-- A letter that changes the channel. -/
theorem modeChange (hs : Effects c m s₀ s) {ch : Channel} (hch : s.findChannel target = some ch)
    {f : Channel → Channel} (hchange : ModeChange s ch (f ch)) :
    Effects c m s₀ (s.modifyChannel target f) := by
  rw [Server.modifyChannel_eq _ hch]
  exact hs.tail (.change hreg hname hch (.mode hm h₀ hop hchange))

variable {l : ModeCommand.ModeLoop} {ch : Channel}

include hreg hm hname h₀ hop in
theorem inviteOnlyLetter (hs : Effects c m s₀ l.server)
    (hch : l.server.findChannel target = some ch) :
    Effects c m s₀ (ModeCommand.inviteOnlyLetter target ch l).server := by
  unfold ModeCommand.inviteOnlyLetter
  split_ifs with hflag
  · have hplus : l.isPlus = !ch.inviteOnly := by
      cases hp : l.isPlus <;> simp_all
    rw [ModeCommand.ModeLoop.server_applied, hplus]
    exact hs.modeChange hreg hm hname h₀ hop hch .inviteOnly
  · exact hs

include hreg hm hname h₀ hop in
theorem topicLetter (hs : Effects c m s₀ l.server)
    (hch : l.server.findChannel target = some ch) :
    Effects c m s₀ (ModeCommand.topicLetter target ch l).server := by
  unfold ModeCommand.topicLetter
  split_ifs with hflag
  · have hplus : l.isPlus = !ch.topicRestricted := by
      cases hp : l.isPlus <;> simp_all
    rw [ModeCommand.ModeLoop.server_applied, hplus]
    exact hs.modeChange hreg hm hname h₀ hop hch .topicRestricted
  · exact hs

include hreg hm hname h₀ hop in
theorem keyLetter (hs : Effects c m s₀ l.server)
    (hch : l.server.findChannel target = some ch) :
    Effects c m s₀ (ModeCommand.keyLetter c target ch l).server := by
  unfold ModeCommand.keyLetter
  split
  · exact hs
  next key rest _ =>
  dsimp only
  split_ifs with hplus hbad hfree hkey
  · apply hs.reply
    repeat apply ServerReply.append
    decide
  · rw [ModeCommand.ModeLoop.server_applied]
    refine hs.modeChange hreg hm hname h₀ hop hch (.setPassword (List.isEmpty_iff.mp hfree) ?_)
    simpa [and_assoc] using hbad
  · apply hs.reply
    repeat apply ServerReply.append
    decide
  · rw [ModeCommand.ModeLoop.server_applied]
    exact hs.modeChange hreg hm hname h₀ hop hch .clearPassword
  · exact hs

include hreg hm hname h₀ hop in
theorem limitLetter (hs : Effects c m s₀ l.server)
    (hch : l.server.findChannel target = some ch) :
    Effects c m s₀ (ModeCommand.limitLetter c target ch l).server := by
  unfold ModeCommand.limitLetter
  split_ifs with hplus hset
  · split
    · exact hs
    next limit rest _ =>
    dsimp only
    split_ifs with hbad hlimit
    · apply hs.reply
      repeat apply ServerReply.append
      decide
    · rw [ModeCommand.ModeLoop.server_applied]
      exact hs.modeChange hreg hm hname h₀ hop hch (.userLimit hlimit.2)
    · exact hs
  · rw [ModeCommand.ModeLoop.server_applied]
    exact hs.modeChange hreg hm hname h₀ hop hch (.userLimit (by omega))
  · exact hs

include hreg hm hname h₀ hop in
theorem operatorLetter (hs : Effects c m s₀ l.server)
    (hch : l.server.findChannel target = some ch) :
    Effects c m s₀ (ModeCommand.operatorLetter c target ch l).server := by
  have hrefused : ∀ nick : Str, Effects c m s₀ (l.server.sendMessage c
      (lit ":server 441 " ++ l.server.nickname c ++ lit " " ++ nick ++ lit " " ++ target
        ++ lit " :They aren't on that channel\r\n")) := by
    intro nick
    apply hs.reply
    repeat apply ServerReply.append
    decide
  unfold ModeCommand.operatorLetter
  split
  · exact hs
  next nick rest _ =>
  dsimp only
  split
  · exact hrefused nick
  next q hfind =>
  by_cases hq : ch.isMember q = true
  swap
  · rw [if_neg hq]
    exact hrefused nick
  rw [if_pos hq]
  rw [Channel.isMember_iff] at hq
  by_cases hturn : (l.isPlus && !ch.isOperator q || !l.isPlus && ch.isOperator q) = true
  swap
  · rw [if_neg hturn]
    exact hs
  rw [if_pos hturn, ModeCommand.ModeLoop.server_applied]
  apply hs.modeChange hreg hm hname h₀ hop hch
  cases hplus : l.isPlus with
  | true => exact .addOperator hfind hq (by simpa [hplus] using hturn)
  | false => exact .removeOperator hfind hq (by simpa [hplus] using hturn)

include hreg hm hname h₀ hop in
/-- One letter of the mode string. -/
theorem modeLetter (hs : Effects c m s₀ l.server) (letter : Byte) :
    Effects c m s₀ (ModeCommand.modeLetter c target l letter).server := by
  unfold ModeCommand.modeLetter
  split
  · exact hs
  next ch hch =>
  split_ifs
  · exact hs
  · exact hs
  · exact hs.inviteOnlyLetter hreg hm hname h₀ hop hch
  · exact hs.topicLetter hreg hm hname h₀ hop hch
  · exact hs.keyLetter hreg hm hname h₀ hop hch
  · exact hs.limitLetter hreg hm hname h₀ hop hch
  · exact hs.operatorLetter hreg hm hname h₀ hop hch
  · exact hs

include hreg hm hname h₀ hop in
theorem modeLoop (hs : Effects c m s₀ l.server) (modeString : Str) :
    Effects c m s₀ (ModeCommand.modeLoop c target modeString l).server := by
  unfold ModeCommand.modeLoop
  induction modeString generalizing l with
  | nil => exact hs
  | cons letter rest ih => exact ih (hs.modeLetter hreg hm hname h₀ hop letter)

end Mode

include hreg in
theorem mode (hm : m.handler = some .mode) :
    Effects c m s₀ (ModeCommand.execute s₀ c m.params) := by
  unfold ModeCommand.execute
  split
  · apply refl.reply
    repeat apply ServerReply.append
    decide
  next target rest hp =>
  have hname : target ∈ m.channelNames := by
    rw [Message.channelNames, hm, hp]
    exact List.mem_singleton_self target
  split_ifs
  · exact refl
  split
  · apply refl.reply
    repeat apply ServerReply.append
    decide
  next ch hch =>
  split
  · apply refl.reply
    repeat apply ServerReply.append
    decide
  next modeString arguments =>
  by_cases hop : ch.isOperator c = true
  swap
  · rw [if_pos (by simpa using hop)]
    apply refl.reply
    repeat apply ServerReply.append
    decide
  rw [if_neg (by simpa using hop)]
  split
  · apply refl.reply
    repeat apply ServerReply.append
    decide
  have hloop := modeLoop hreg hm hname hch ((Channel.isOperator_iff _ _).mp hop)
    (l := { server := s₀, params := arguments }) refl modeString
  unfold ModeCommand.broadcastModes
  split_ifs
  · exact hloop
  split
  · exact hloop
  · apply hloop.relayAll hreg
    rw [hloop.nickname_eq (by rw [hm]; decide)]
    have hhead : FromUser (s₀.nickname c) (lit ":" ++ s₀.nickname c ++ lit "!~") := by
      have htilde : lit "!~" = lit "!" ++ lit "~" := by decide
      rw [htilde, ← List.append_assoc]
      exact List.prefix_append _ _
    exact (((((((hhead.append _).append _).append _).append _).append _).append _).append _)

end Registered

end Effects

/-! ## The dispatch -/

/-- The commands answered in place are not in the table. -/
theorem Message.command_ne_of_handler {m : Message} {k : Command} (h : m.handler = some k) :
    m.command ≠ [] ∧ m.command ≠ lit "CAP" ∧ m.command ≠ lit "PING" ∧ m.command ≠ lit "QUIT" := by
  refine ⟨?_, ?_, ?_, ?_⟩ <;>
  · intro hc
    rw [Message.handler, hc] at h
    exact absurd h (by cases k <;> decide)

/-- A line of a connected client is a sequence of effects. -/
theorem Server.processMessage_effects {s : Server} {c : Ptr} {x : Client} (hx : s.heap c = some x)
    (m : Message) : Effects c m s (s.processMessage c m) := by
  have hc : s.client c = x := Server.client_of_heap hx
  have hrefl : Effects c m s s := Effects.refl
  unfold Server.processMessage
  dsimp only
  by_cases hempty : m.command = []
  · rw [if_pos hempty]
    exact hrefl
  rw [if_neg hempty]
  -- CAP, PING and QUIT are handled before the table is looked at
  by_cases hcap : m.command = lit "CAP"
  · rw [if_pos hcap]
    split_ifs
    · exact hrefl.reply _ (by decide)
    · exact hrefl
  rw [if_neg hcap]
  by_cases hping : m.command = lit "PING"
  · rw [if_pos hping]
    apply hrefl.reply
    repeat apply ServerReply.append
    decide
  rw [if_neg hping]
  by_cases hquit : m.command = lit "QUIT"
  · rw [if_pos hquit, Server.modify_eq _ hx]
    exact hrefl.tail (.own hx (.quit _ hquit))
  rw [if_neg hquit]
  split
  · apply hrefl.reply
    repeat apply ServerReply.append
    decide
  next k hk =>
  by_cases hpass : k ≠ .pass ∧ (s.client c).passOk = false
  · rw [if_pos hpass]
    apply hrefl.reply
    decide
  rw [if_neg hpass]
  by_cases hgate : k ≠ .pass ∧ k ≠ .nick ∧ k ≠ .user ∧ (s.client c).isRegistered = false
  · rw [if_pos hgate]
    apply hrefl.reply
    repeat apply ServerReply.append
    decide
  rw [if_neg hgate]
  -- what the two gates leave
  have hok : k ≠ .pass → x.passOk = true := by
    intro hne
    rw [← hc]
    simpa [hne] using hpass
  have hreg : k ≠ .pass → k ≠ .nick → k ≠ .user → (s.client c).isRegistered = true := by
    intro h1 h2 h3
    simpa [h1, h2, h3] using hgate
  cases k with
  | pass => exact Effects.pass hx hk
  | nick => exact Effects.nick hx hk (hok (by decide))
  | user => exact Effects.user hx hk (hok (by decide))
  | join => exact Effects.join (hreg (by decide) (by decide) (by decide)) hk
  | privmsg => exact Effects.privmsg (hreg (by decide) (by decide) (by decide)) hk
  | kick => exact Effects.kick (hreg (by decide) (by decide) (by decide)) hk
  | invite => exact Effects.invite (hreg (by decide) (by decide) (by decide)) hk
  | topic => exact Effects.topic (hreg (by decide) (by decide) (by decide)) hk
  | mode => exact Effects.mode (hreg (by decide) (by decide) (by decide)) hk

end FtIrc
