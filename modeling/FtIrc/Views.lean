import FtIrc.Announcements
import FtIrc.BotReactions
import FtIrc.Leaving
import FtIrc.NickChange

/-!
# What the clients can see

The server as a world of participants and rooms (`FtIrc.Lib.Presence`): who is registered, under
which nickname, and on which channels. `Informs` says that a piece of the program is a sequence of
acts of that world, and that the messages which the clients are offered announce to each of them
just what the acts tell it. There is a lemma for each turn of each command.
-/

namespace FtIrc

open Bytes

abbrev World := Presence.World Ptr Str Str Str

abbrev Act := Presence.Act Ptr Str Str Str

abbrev View := Presence.View Str Str Str

namespace Server

/-! ## The world the server keeps -/

/-- The channel with a name, or one without members if there is none. -/
def channelAt (s : Server) (name : Str) : Channel := (s.findChannel name).getD { name }

/-- Who is registered, under which nickname, and on which channels. -/
def world (s : Server) : World where
  present := {p | (s.client p).isRegistered = true}
  name p := if (s.client p).isRegistered = true then toIrcLowerCase (s.nickname p) else []
  inside name := (s.channelAt name).members.toFinset
  operators name := (s.channelAt name).operators.toFinset
  topic name := (s.channelAt name).topic

/-- What the announcements rely on. -/
structure Steady (s : Server) : Prop where
  integrity : s.Integrity
  named : ∀ name ch, s.findChannel name = some ch → JoinCommand.isValidChannelName name = true
  inhabited : ∀ name ch, s.findChannel name = some ch → ∀ p ∈ ch.members,
    (s.client p).isRegistered = true
  sound : ∀ p, (s.client p).identity.Sound

section World

variable {s t : Server} {c p : Ptr} {name : Str} {ch : Channel}

theorem channelAt_eq (h : s.findChannel name = some ch) : s.channelAt name = ch := by
  rw [channelAt, h, Option.getD_some]

theorem channelAt_of_none (h : s.findChannel name = none) : s.channelAt name = { name } := by
  rw [channelAt, h, Option.getD_none]

theorem inside_world (h : s.findChannel name = some ch) :
    s.world.inside name = ch.members.toFinset := by
  rw [← channelAt_eq h]
  rfl

theorem operators_world (h : s.findChannel name = some ch) :
    s.world.operators name = ch.operators.toFinset := by
  rw [← channelAt_eq h]
  rfl

theorem topic_world (h : s.findChannel name = some ch) : s.world.topic name = ch.topic := by
  rw [← channelAt_eq h]
  rfl

theorem mem_inside (h : s.findChannel name = some ch) : p ∈ s.world.inside name ↔ p ∈ ch.members := by
  rw [inside_world h, List.mem_toFinset]

theorem mem_operators (h : s.findChannel name = some ch) :
    p ∈ s.world.operators name ↔ p ∈ ch.operators := by
  rw [operators_world h, List.mem_toFinset]

/-- The participants of a room are the members of its channel, if there is one. -/
theorem mem_inside_iff : p ∈ s.world.inside name ↔ s.IsMember p name := by
  cases hch : s.findChannel name with
  | some ch =>
    rw [mem_inside hch]
    exact ⟨fun h => ⟨ch, hch, h⟩, fun ⟨ch', hch', h⟩ => Option.some_inj.mp (hch'.symm.trans hch) ▸ h⟩
  | none =>
    have hempty : s.world.inside name = ∅ := by
      show (s.channelAt name).members.toFinset = ∅
      rw [channelAt_of_none hch]
      rfl
    rw [hempty]
    exact iff_of_false (Finset.notMem_empty p) fun ⟨ch, hch', _⟩ => by cases hch.symm.trans hch'

theorem name_world (h : (s.client p).isRegistered = true) :
    s.world.name p = toIrcLowerCase (s.nickname p) := if_pos h

/-- What is found under a nickname has that name in the world. -/
theorem name_of_found {nick : Str} (h : s.findClientByNick nick = some p)
    (hreg : (s.client p).isRegistered = true) : s.world.name p = toIrcLowerCase nick := by
  rw [name_world hreg]
  exact (findClientByNick_eq_some h).2.2.1

/-- The world is made of the identities and of what can be seen of the channels. -/
theorem world_congr (hidentity : ∀ p, (t.client p).identity = (s.client p).identity)
    (hchannel : ∀ n, (t.channelAt n).members = (s.channelAt n).members
      ∧ (t.channelAt n).operators = (s.channelAt n).operators
      ∧ (t.channelAt n).topic = (s.channelAt n).topic) : t.world = s.world := by
  have hreg : ∀ p, (t.client p).isRegistered = (s.client p).isRegistered :=
    fun p => Client.isRegistered_of_identity (hidentity p)
  have hnick : ∀ p, t.nickname p = s.nickname p :=
    fun p => Client.nickname_of_identity (hidentity p)
  simp only [world, hreg, hnick, fun n => (hchannel n).1, fun n => (hchannel n).2.1,
    fun n => (hchannel n).2.2]

/-- The world after one channel has changed. -/
theorem world_of_channel (hidentity : ∀ p, (t.client p).identity = (s.client p).identity)
    (hothers : ∀ n, n ≠ name → t.findChannel n = s.findChannel n) :
    t.world = { s.world with
      inside := Function.update s.world.inside name (t.channelAt name).members.toFinset
      operators := Function.update s.world.operators name (t.channelAt name).operators.toFinset
      topic := Function.update s.world.topic name (t.channelAt name).topic } := by
  have hreg : ∀ p, (t.client p).isRegistered = (s.client p).isRegistered :=
    fun p => Client.isRegistered_of_identity (hidentity p)
  have hnick : ∀ p, t.nickname p = s.nickname p :=
    fun p => Client.nickname_of_identity (hidentity p)
  have hat : ∀ n, n ≠ name → t.channelAt n = s.channelAt n :=
    fun n hn => by rw [channelAt, hothers n hn, channelAt]
  refine Presence.World.ext ?_ ?_ (Function.eq_update_iff.mpr ⟨rfl, fun n hn => ?_⟩)
    (Function.eq_update_iff.mpr ⟨rfl, fun n hn => ?_⟩) (Function.eq_update_iff.mpr ⟨rfl, fun n hn => ?_⟩)
  · simp only [world, hreg]
  · simp only [world, hreg, hnick]
  all_goals simp only [world, hat n hn]

/-- The nicknames on a channel. -/
theorem image_name_world {l : List Ptr} (h : ∀ p ∈ l, (s.client p).isRegistered = true) :
    l.toFinset.image s.world.name = (l.map fun p => toIrcLowerCase (s.nickname p)).toFinset := by
  ext n
  simp only [Finset.mem_image, List.mem_toFinset, List.mem_map]
  constructor
  · rintro ⟨p, hp, rfl⟩
    exact ⟨p, hp, (name_world (h p hp)).symm⟩
  · rintro ⟨p, hp, rfl⟩
    exact ⟨p, hp, name_world (h p hp)⟩

end World

/-! ## Acts and their announcements -/

/-- From `s` to `t` the server acts as its world does, and offers each client messages that announce
what the acts tell it; nobody vanishes or speaks, and nothing else happens to the clients. -/
structure Informs (s t : Server) (acts : List Act) : Prop where
  admits : s.world.Admits acts
  world : t.world = s.world.run acts
  told : ∀ p, ∃ messages : List Str,
    t.heap p = (s.heap p).map (fun x => messages.foldl Client.sendMessage x)
      ∧ messages.flatMap notices = s.world.heard p acts
  plain : ∀ a ∈ acts, a.Plain

namespace Informs

variable {s t u : Server} {acts acts' : List Act}

theorem refl (s : Server) : Informs s s [] where
  admits := trivial
  world := rfl
  told p := ⟨[], by simp, rfl⟩
  plain _ ha := absurd ha List.not_mem_nil

theorem trans (h : Informs s t acts) (h' : Informs t u acts') : Informs s u (acts ++ acts') where
  admits := Presence.World.admits_append.mpr ⟨h.admits, h.world ▸ h'.admits⟩
  world := by rw [h'.world, h.world, Presence.World.run_append]
  told p := by
    obtain ⟨ms, hms, hheard⟩ := h.told p
    obtain ⟨ns, hns, hheard'⟩ := h'.told p
    refine ⟨ms ++ ns, ?_, ?_⟩
    · rw [hns, hms, Option.map_map]
      congr 1
      funext x
      exact (List.foldl_append ..).symm
    · rw [List.flatMap_append, hheard, hheard', h.world, Presence.World.heard_append]
  plain a ha := (List.mem_append.mp ha).elim (h.plain a) (h'.plain a)

/-- The clients keep their identities. -/
theorem identity (h : Informs s t acts) (p : Ptr) : (t.client p).identity = (s.client p).identity := by
  obtain ⟨messages, hheap, _⟩ := h.told p
  rw [Server.client, Server.client, hheap]
  cases s.heap p with
  | none => rfl
  | some x => exact x.identity_sendMessages messages

theorem isRegistered (h : Informs s t acts) (p : Ptr) :
    (t.client p).isRegistered = (s.client p).isRegistered :=
  Client.isRegistered_of_identity (h.identity p)

theorem nickname (h : Informs s t acts) (p : Ptr) : t.nickname p = s.nickname p :=
  Client.nickname_of_identity (h.identity p)

theorem username (h : Informs s t acts) (p : Ptr) : t.username p = s.username p :=
  congrArg Client.Identity.username (h.identity p)

/-- Nothing that can be seen has changed, and nothing has been announced. -/
theorem of_silent (hworld : t.world = s.world)
    (htold : ∀ p, ∃ messages : List Str,
      t.heap p = (s.heap p).map (fun x => messages.foldl Client.sendMessage x)
        ∧ messages.flatMap notices = []) : Informs s t [] :=
  ⟨trivial, hworld, htold, fun _ ha => absurd ha List.not_mem_nil⟩

/-- One act. -/
theorem of_act {a : Act} (ha : s.world.Enabled a) (hworld : t.world = s.world.apply a)
    (htold : ∀ p, ∃ messages : List Str,
      t.heap p = (s.heap p).map (fun x => messages.foldl Client.sendMessage x)
        ∧ messages.flatMap notices = s.world.hears p a) (hplain : a.Plain) :
    Informs s t [a] where
  admits := ⟨ha, trivial⟩
  world := hworld
  told p := by
    obtain ⟨messages, hheap, hheard⟩ := htold p
    refine ⟨messages, hheap, hheard.trans ?_⟩
    rw [Presence.World.heard, Presence.World.heard, List.append_nil]
  plain a' ha' := by
    rwa [List.mem_singleton.mp ha']

/-- A loop over a list. -/
theorem foldl {α : Type} {f : Server → α → Server} {Q : Server → Prop} (l : List α)
    (step : ∀ t, ∀ a ∈ l, Q t → (∃ acts, Informs t (f t a) acts) ∧ Q (f t a)) {s : Server} (hs : Q s) :
    ∃ acts, Informs s (l.foldl f s) acts := by
  induction l generalizing s with
  | nil => exact ⟨[], refl s⟩
  | cons a l ih =>
    obtain ⟨⟨acts, h⟩, hnext⟩ := step s a List.mem_cons_self hs
    obtain ⟨acts', h'⟩ := ih (fun t b hb => step t b (List.mem_cons_of_mem a hb)) hnext
    exact ⟨acts ++ acts', h.trans h'⟩

end Informs

/-- A message that announces nothing. -/
theorem informs_sendMessage (s : Server) (c : Ptr) {text : Str} (h : notices text = []) :
    Informs s (s.sendMessage c text) [] := by
  refine .of_silent (world_congr (fun p => identity_sendMessage ..) fun n => ⟨rfl, rfl, rfl⟩) fun p => ?_
  rw [sendMessage, heap_modify]
  split_ifs with hp
  · refine ⟨[text], by rw [hp]; rfl, ?_⟩
    simp [h]
  · exact ⟨[], by simp, rfl⟩

/-- A change of a channel that cannot be seen. -/
theorem informs_modifyChannel {s : Server} {name : Str} {ch ch' : Channel}
    (hch : s.findChannel name = some ch) (hmembers : ch'.members = ch.members)
    (hoperators : ch'.operators = ch.operators) (htopic : ch'.topic = ch.topic) :
    Informs s (s.modifyChannel name fun _ => ch') [] := by
  refine .of_silent (world_congr (fun p => rfl) fun n => ?_) fun p => ⟨[], by simp [modifyChannel], rfl⟩
  rw [channelAt, findChannel_modifyChannel hch]
  split_ifs with hn
  · rw [hn, channelAt_eq hch, Option.getD_some]
    exact ⟨hmembers, hoperators, htopic⟩
  · exact ⟨rfl, rfl, rfl⟩

end Server

/-! ## What stays in place within a line -/

open Server

/-- Channels are founded under valid names, and only registered clients get into them. -/
theorem Effects.populated {c : Ptr} {m : Message} {s₀ s : Server} (h : Effects c m s₀ s)
    (hs : ∀ name ch, s₀.findChannel name = some ch → JoinCommand.isValidChannelName name = true
      ∧ ∀ p ∈ ch.members, (s₀.client p).isRegistered = true) :
    ∀ name ch, s.findChannel name = some ch → JoinCommand.isValidChannelName name = true
      ∧ ∀ p ∈ ch.members, (s₀.client p).isRegistered = true := by
  apply h.induct (P := fun t => ∀ name ch, t.findChannel name = some ch →
    JoinCommand.isValidChannelName name = true
      ∧ ∀ p ∈ ch.members, (s₀.client p).isRegistered = true) hs
  intro t t' _ heff ht
  cases heff with
  | reply => exact ht
  | relay => exact ht
  | own => exact ht
  | @found _ name hreg _ _ _ hvalid =>
    intro n ch hch
    rw [findChannel, OrdMap.find?_insert] at hch
    split_ifs at hch with hn
    · rw [hn, ← Option.some_inj.mp hch]
      refine ⟨hvalid, fun p hp => ?_⟩
      rwa [List.mem_singleton.mp hp]
    · exact ht n ch hch
  | @change _ name ch₀ ch₁ hreg _ hch₀ hchange =>
    intro n ch hch
    rw [findChannel_modifyChannel hch₀] at hch
    split_ifs at hch with hn
    swap
    · exact ht n ch hch
    obtain ⟨hvalid, hmembers⟩ := ht name ch₀ hch₀
    rw [hn, ← Option.some_inj.mp hch]
    refine ⟨hvalid, fun p hp => ?_⟩
    -- members are added by JOIN only, and JOIN adds its client
    cases hchange with
    | join _ _ hout =>
      rw [Channel.addMember_of_not_mem _ hout] at hp
      rcases List.mem_append.mp hp with hp | hp
      · exact hmembers p hp
      · rwa [List.mem_singleton.mp hp]
    | kick =>
      rw [Channel.removeMember_eq] at hp
      exact hmembers p (List.mem_of_mem_erase hp)
    | invite =>
      rw [Channel.addInvited] at hp
      split_ifs at hp <;> exact hmembers p hp
    | topic => exact hmembers p hp
    | mode _ _ _ hmode =>
      cases hmode with
      | addOperator _ _ hop =>
        rw [Channel.addOperator_of_not_mem _ hop] at hp
        exact hmembers p hp
      | inviteOnly | topicRestricted | setPassword | clearPassword | userLimit | removeOperator =>
        exact hmembers p hp
  | @part _ name ch₀ hreg _ hch₀ =>
    intro n ch hch
    rw [findChannel_modifyChannel hch₀] at hch
    split_ifs at hch with hn
    · obtain ⟨hvalid, hmembers⟩ := ht name ch₀ hch₀
      rw [hn, ← Option.some_inj.mp hch, Channel.removeMember_eq]
      exact ⟨hvalid, fun p hp => hmembers p (List.mem_of_mem_erase hp)⟩
    · exact ht n ch hch
  | @dissolve _ name ch₀ hreg _ hch₀ =>
    intro n ch hch
    rw [findChannel_removeChannel, findChannel_modifyChannel hch₀] at hch
    split_ifs at hch with hname hn
    · obtain ⟨hvalid, hmembers⟩ := ht name ch₀ hch₀
      rw [hn, ← Option.some_inj.mp hch, Channel.removeMember_eq]
      exact ⟨hvalid, fun p hp => hmembers p (List.mem_of_mem_erase hp)⟩
    · exact ht n ch hch

/-- What the announcements rely on is there at every point of a line. -/
theorem Server.Informs.steady {c : Ptr} {m : Message} {s t : Server} {acts : List Act}
    (h : Informs s t acts) (heffects : Effects c m s t) (hs : s.Steady) (hc : s.Allocated c) :
    t.Steady := by
  have hpopulated := heffects.populated fun name ch hch => ⟨hs.named name ch hch, hs.inhabited name ch hch⟩
  refine ⟨heffects.integrity hs.integrity hc, fun name ch hch => (hpopulated name ch hch).1,
    fun name ch hch p hp => ?_, fun p => ?_⟩
  · rw [h.isRegistered]
    exact (hpopulated name ch hch).2 p hp
  · rw [h.identity]
    exact hs.sound p

namespace Server

section Turns

variable {s : Server} (hs : s.Steady) {c : Ptr}
include hs

/-- Who is registered has names that can be read in a message. -/
theorem Steady.spoken (p : Ptr) (hreg : (s.client p).isRegistered = true) :
    NickCommand.isValidNickname (s.nickname p) = true ∧ Spoken (s.nickname p) (s.username p) := by
  obtain ⟨hnick, huser, _⟩ := hs.sound p
  simp only [Client.isRegistered, Bool.and_eq_true] at hreg
  rw [if_pos (show (s.client p).identity.nickSet = true from hreg.1.2)] at hnick
  rw [if_pos (show (s.client p).identity.userSet = true from hreg.2)] at huser
  obtain ⟨hsp, hmark⟩ := not_mem_of_isValidNickname hnick
  exact ⟨hnick, hsp, hmark, sp_not_mem_of_isValidUsername huser⟩

theorem Steady.blankFree : ModeCommand.BlankFree s := by
  intro p
  have hnick := (hs.sound p).nickname
  split_ifs at hnick
  · exact (not_mem_of_isValidNickname hnick).1
  · rw [show s.nickname p = [] from hnick]
    exact List.not_mem_nil

/-- No channel has a blank in its name. -/
theorem Steady.blank {name : Str} {ch : Channel} (h : s.findChannel name = some ch) : sp ∉ name :=
  (middle_of_isValidChannelName (hs.named name ch h)).sp_not_mem

/-- What is found under a nickname has no blank in it either, however it is spelled. -/
theorem Steady.blank_of_found {nick : Str} {q : Ptr} (h : s.findClientByNick nick = some q)
    (hreg : (s.client q).isRegistered = true) : sp ∉ nick := by
  obtain ⟨_, _, hsame, _⟩ := findClientByNick_eq_some h
  intro hsp
  have hin : sp ∈ toIrcLowerCase (s.client q).nickname := by
    rw [hsame]
    exact List.mem_map.mpr ⟨sp, hsp, (toIrcLower_eq_iff (by simp)).mpr rfl⟩
  obtain ⟨b, hb, hlower⟩ := List.mem_map.mp hin
  rw [toIrcLower_eq_iff (by simp)] at hlower
  exact (hs.spoken q hreg).2.nickname (hlower ▸ hb)

/-- A message that a member sends to its channel, itself included. -/
theorem Steady.told_channel {t : Server} (ht : t.heap = s.heap) {name : Str} {ch : Channel}
    (hch : s.findChannel name = some ch) (hc : c ∈ ch.members) (text : Str) (p : Ptr) :
    ∃ messages : List Str,
      ((t.broadcastMessage ch text (some c)).sendMessage c text).heap p
          = (s.heap p).map (fun x => messages.foldl Client.sendMessage x)
        ∧ messages.flatMap notices = if p ∈ s.world.inside name then notices text else [] := by
  rw [heap_tellChannel (hs.integrity.channel name ch hch).wf.nodup_members hc, ht]
  by_cases hp : p ∈ ch.members
  · refine ⟨[text], if_pos hp, ?_⟩
    rw [if_pos ((mem_inside hch).mpr hp), List.flatMap_singleton]
  · refine ⟨[], (if_neg hp).trans (by simp), ?_⟩
    rw [if_neg fun hin => hp ((mem_inside hch).mp hin)]
    rfl

omit hs in
/-- A reply with a numeric that announces nothing. -/
theorem informs_reply (s : Server) (c : Ptr) {head rest : Str} (h : Neutral head) :
    ∃ acts, Informs s (s.sendMessage c (head ++ rest)) acts :=
  ⟨[], informs_sendMessage s c (h.append rest).notices⟩

/-- The world without a member of a channel. -/
theorem Steady.world_removeMember {t : Server} {name : Str} {ch : Channel} {d : Ptr}
    (hch : s.findChannel name = some ch)
    (hidentity : ∀ p, (t.client p).identity = (s.client p).identity)
    (hothers : ∀ n, n ≠ name → t.findChannel n = s.findChannel n)
    (hfind : t.findChannel name = some (ch.removeMember d)) :
    t.world = s.world.without d name := by
  have hwf := (hs.integrity.channel name ch hch).wf
  rw [world_of_channel hidentity hothers, channelAt_eq hfind, Channel.removeMember_eq]
  have herase : ∀ l : List Ptr, l.Nodup → (l.erase d).toFinset = l.toFinset.erase d := by
    intro l hl
    ext q
    simp only [List.mem_toFinset, Finset.mem_erase, hl.mem_erase_iff]
  have htopic : Function.update s.world.topic name ch.topic = s.world.topic :=
    Function.update_eq_self_iff.mpr (topic_world hch).symm
  simp only [herase _ hwf.nodup_members, herase _ hwf.nodup_operators, htopic]
  rw [Presence.World.without, inside_world hch, operators_world hch]

variable (hreg : (s.client c).isRegistered = true)
include hreg

/-- A turn of KICK expels somebody, or nothing happens. -/
theorem Steady.informs_kickOne (reason name nick : Str) :
    ∃ acts, Informs s (KickCommand.kickOne reason c s name nick) acts := by
  unfold KickCommand.kickOne
  dsimp only
  cases hch : s.findChannel name with
  | none =>
    simp only [List.append_assoc]
    exact informs_reply s c (.of_word (by decide) (by decide) (by decide))
  | some ch =>
    dsimp only
    by_cases hmem : c ∈ ch.members
    swap
    · rw [if_pos (by simpa using hmem)]
      simp only [List.append_assoc]
      exact informs_reply s c (.of_word (by decide) (by decide) (by decide))
    rw [if_neg (by simpa using hmem)]
    by_cases hop : c ∈ ch.operators
    swap
    · rw [if_pos (by simpa using hop)]
      simp only [List.append_assoc]
      exact informs_reply s c (.of_word (by decide) (by decide) (by decide))
    rw [if_neg (by simpa using hop)]
    cases hfind : s.findClientByNick nick with
    | none =>
      simp only [List.append_assoc]
      exact informs_reply s c (.of_word (by decide) (by decide) (by decide))
    | some d =>
      dsimp only
      by_cases hd : d ∈ ch.members
      swap
      · rw [if_pos (by simpa using hd)]
        simp only [List.append_assoc]
        exact informs_reply s c (.of_word (by decide) (by decide) (by decide))
      rw [if_neg (by simpa using hd)]
      have hdreg := hs.inhabited name ch hch d hd
      have hch' := fun text => (findChannel_tell s ch text c name).trans hch
      -- the line goes out while the target is still a member, so that it hears it too
      refine ⟨[.expel c d name], .of_act ⟨(mem_operators hch).mpr hop, (mem_inside hch).mpr hd⟩
        ?_ (fun p => ?_) trivial⟩
      · rw [modifyChannel_eq _ (hch' _)]
        refine hs.world_removeMember hch (fun p => ?_) (fun n hn => ?_) ?_
        · show (((s.broadcastMessage ch _ (some c)).sendMessage c _).client p).identity = _
          rw [identity_sendMessage, broadcastMessage, identity_sendAll]
        · rw [findChannel_modifyChannel (hch' _), if_neg hn, findChannel_tell]
        · rw [findChannel_modifyChannel (hch' _), if_pos rfl]
      · obtain ⟨messages, hheap, hheard⟩ := hs.told_channel rfl hch hmem
          (KickCommand.kickMessage s c name nick reason) p
        refine ⟨messages, hheap, hheard.trans ?_⟩
        rw [Presence.World.hears, KickCommand.kickMessage, userPrefix,
          (hs.spoken c hreg).2.notices_kick (hs.blank hch) (hs.blank_of_found hfind hdreg),
          name_of_found hfind hdreg]

omit hreg in
/-- A turn of `JOIN 0` leaves a channel, or nothing happens. -/
theorem Steady.informs_leave (hreg : (s.client c).isRegistered = true) (name : Str) :
    ∃ acts, Informs s (JoinCommand.leave s c name) acts := by
  cases hch : s.findChannel name with
  | none =>
    rw [JoinCommand.leave_of_none hch]
    exact ⟨[], .refl s⟩
  | some ch =>
    by_cases hmem : c ∈ ch.members
    swap
    · rw [JoinCommand.leave_of_not_mem hch hmem]
      exact ⟨[], .refl s⟩
    have hsound := hs.integrity.channel name ch hch
    have hnames : ∀ ch', s.findChannel name = some ch' → ch'.name = name := fun ch' hch' => by
      rw [← Option.some_inj.mp (hch.symm.trans hch'), hsound.name_eq]
    have hheap := JoinCommand.heap_leave hch hmem
    rw [JoinCommand.tellPart, hsound.name_eq] at hheap
    have hidentity : ∀ p, ((JoinCommand.leave s c name).client p).identity = (s.client p).identity := by
      intro p
      rw [client, hheap]
      show ((s.broadcastMessage ch _ (some c)).sendMessage c _ |>.client p).identity = _
      rw [identity_sendMessage, broadcastMessage, identity_sendAll]
    have hothers : ∀ n, n ≠ name → (JoinCommand.leave s c name).findChannel n = s.findChannel n :=
      fun n hn => JoinCommand.findChannel_leave_ne hnames hn
    have hself := JoinCommand.findChannel_leave_self hnames hch hmem
    have hin := (mem_inside hch).mpr hmem
    refine ⟨[.leave c name], .of_act hin ?_ (fun p => ?_) trivial⟩
    · have herase : (s.world.inside name).erase c = ((ch.removeMember c).members).toFinset := by
        ext q
        rw [Finset.mem_erase, mem_inside hch, List.mem_toFinset, hsound.wf.mem_removeMember]
      rw [Presence.World.apply, herase]
      split_ifs at hself with hcount
      · -- the last member has left
        -- the room is closed, and with it the topic is lost
        have hmembers : (ch.removeMember c).members = [] := List.length_eq_zero_iff.mp hcount
        have hops : (s.world.operators name).erase c = ∅ := by
          refine Finset.eq_empty_of_forall_notMem fun q hq => ?_
          have hq' : q ∈ (ch.removeMember c).operators := by
            rw [Channel.removeMember_eq]
            rw [Finset.mem_erase, mem_operators hch] at hq
            exact hsound.wf.nodup_operators.mem_erase_iff.mpr hq
          have hin := (hsound.wf.removeMember c).operators_sub q hq'
          rw [hmembers] at hin
          exact List.not_mem_nil hin
        rw [world_of_channel hidentity hothers, channelAt_of_none hself, Presence.World.without, herase,
          hmembers, hops]
        rfl
      · have hne : ((ch.removeMember c).members).toFinset ≠ ∅ := by
          intro hnil
          refine hcount (List.length_eq_zero_iff.mpr (List.eq_nil_iff_forall_not_mem.mpr fun q hq => ?_))
          rw [← List.mem_toFinset, hnil] at hq
          exact Finset.notMem_empty q hq
        rw [hs.world_removeMember hch hidentity hothers hself, if_neg hne, Function.update_eq_self]
        rfl
    · obtain ⟨messages, htold, hheard⟩ := hs.told_channel rfl hch hmem
        (JoinCommand.partMessage s c name) p
      refine ⟨messages, by rw [hheap]; exact htold, hheard.trans ?_⟩
      rw [Presence.World.hears, JoinCommand.partMessage, userPrefix,
        (hs.spoken c hreg).2.notices_part (hs.blank hch), name_world hreg]

/-- TOPIC sets a topic, or tells the client of the one there is, or nothing happens. -/
theorem Steady.informs_topic (params : List Str) :
    ∃ acts, Informs s (TopicCommand.execute s c params) acts := by
  unfold TopicCommand.execute
  cases params with
  -- no channel is named
  | nil =>
    simp only [List.append_assoc]
    exact informs_reply s c (.of_word (by decide) (by decide) (by decide))
  | cons name rest =>
    dsimp only
    cases hch : s.findChannel name with
    | none =>
      simp only [List.append_assoc]
      exact informs_reply s c (.of_word (by decide) (by decide) (by decide))
    | some ch =>
      dsimp only
      by_cases hmem : c ∈ ch.members
      swap
      · rw [if_pos (by simpa using hmem)]
        simp only [List.append_assoc]
        exact informs_reply s c (.of_word (by decide) (by decide) (by decide))
      rw [if_neg (by simpa using hmem)]
      have hspoken := (hs.spoken c hreg).2
      have hin := (mem_inside hch).mpr hmem
      -- without a topic it is a question, and the answer shows the topic as it is known
      cases rest with
      | nil =>
        dsimp only
        split_ifs
        · simp only [List.append_assoc]
          exact informs_reply s c (.of_word (by decide) (by decide) (by decide))
        · have htext : notices (lit ":server 332 " ++ s.nickname c ++ lit " " ++ name
              ++ (lit " :" ++ ch.topic) ++ lit "\r\n") = [.topic name ch.topic] := by
            rw [← List.append_assoc _ (lit " :")]
            exact notices_topicReply hspoken.nickname (hs.blank hch) ch.topic
          refine ⟨[.consult c name], .of_act hin ?_ (fun p => ?_) trivial⟩
          · exact world_congr (fun p => identity_sendMessage ..) fun n => ⟨rfl, rfl, rfl⟩
          · rw [Presence.World.hears, topic_world hch, sendMessage, heap_modify]
            split_ifs with hp
            · refine ⟨[_], by rw [hp]; rfl, ?_⟩
              rw [List.flatMap_singleton, htext]
            · exact ⟨[], by simp, rfl⟩
      -- the new topic is told to all members, to the author last
      | cons topic rest =>
        dsimp only
        split_ifs
        · simp only [List.append_assoc]
          exact informs_reply s c (.of_word (by decide) (by decide) (by decide))
        rw [modifyChannel_eq _ hch]
        generalize hmodified : (s.modifyChannel name fun _ => { ch with topic := topic }) = u
        have hheap : u.heap = s.heap := by rw [← hmodified]; rfl
        have hfind : ∀ n, u.findChannel n = if n = name then some { ch with topic := topic }
            else s.findChannel n := fun n => by rw [← hmodified, findChannel_modifyChannel hch]
        have hmask : userPrefix u c = userPrefix s c := by
          simp only [userPrefix, nickname, username, client, hheap]
        have hread : notices (userPrefix s c ++ lit " TOPIC " ++ name ++ lit " :" ++ topic ++ lit "\r\n")
            = [.topic name topic] := hspoken.notices_topic (hs.blank hch) topic
        rw [hmask]
        generalize userPrefix s c ++ lit " TOPIC " ++ name ++ lit " :" ++ topic ++ lit "\r\n" = text
          at hread
        have hidentity : ∀ p, (((u.broadcastMessage ch text (some c)).sendMessage c text).client p).identity
            = (s.client p).identity := by
          intro p
          rw [identity_sendMessage, broadcastMessage, identity_sendAll, client, hheap]
          rfl
        have hothers : ∀ n, n ≠ name → ((u.broadcastMessage ch text (some c)).sendMessage c text).findChannel n
            = s.findChannel n := fun n hn => by rw [findChannel_tell, hfind, if_neg hn]
        refine ⟨[.retitle c name topic], .of_act hin ?_ (fun p => ?_) trivial⟩
        · rw [world_of_channel hidentity hothers,
            channelAt_eq (by rw [findChannel_tell, hfind, if_pos rfl]), Presence.World.apply]
          simp only [← inside_world hch, ← operators_world hch, Function.update_eq_self]
        · obtain ⟨messages, htold, hheard⟩ := hs.told_channel hheap hch hmem text p
          refine ⟨messages, htold, hheard.trans ?_⟩
          rw [Presence.World.hears, hread]

/-- INVITE changes nothing that can be seen. -/
theorem Steady.informs_invite (params : List Str) :
    ∃ acts, Informs s (InviteCommand.execute s c params) acts := by
  have hspoken := (hs.spoken c hreg).2
  unfold InviteCommand.execute
  split
  swap
  · simp only [List.append_assoc]
    exact informs_reply s c (.of_word (by decide) (by decide) (by decide))
  next nick name _ =>
  dsimp only
  cases hfind : s.findClientByNick nick with
  | none =>
    simp only [List.append_assoc]
    exact informs_reply s c (.of_word (by decide) (by decide) (by decide))
  | some d =>
    dsimp only
    cases hch : s.findChannel name with
    | none =>
      simp only [List.append_assoc]
      exact informs_reply s c (.of_word (by decide) (by decide) (by decide))
    | some ch =>
      dsimp only
      split_ifs
      · simp only [List.append_assoc]
        exact informs_reply s c (.of_word (by decide) (by decide) (by decide))
      · simp only [List.append_assoc]
        exact informs_reply s c (.of_word (by decide) (by decide) (by decide))
      · simp only [List.append_assoc]
        exact informs_reply s c (.of_word (by decide) (by decide) (by decide))
      -- nothing can be seen of an invitation in a view, neither by the host nor by the guest
      have hadded : Informs s (s.modifyChannel name (·.addInvited d)) [] := by
        rw [modifyChannel_eq _ hch]
        refine informs_modifyChannel hch ?_ ?_ ?_ <;>
        · unfold Channel.addInvited
          split_ifs <;> rfl
      have hreplied : ∀ t : Server, Informs t (t.sendMessage c (lit ":server 341 " ++ t.nickname c ++ lit " "
          ++ nick ++ lit " " ++ name ++ lit "\r\n")) [] := by
        intro t
        have hneutral : Neutral (lit ":server 341 ") := .of_word (by decide) (by decide) (by decide)
        apply informs_sendMessage
        simp only [List.append_assoc]
        exact (hneutral.append _).notices
      have hrelayed : notices (userPrefix s c ++ lit " INVITE " ++ nick ++ lit " :" ++ name
          ++ lit "\r\n") = [] := by
        have hverb : sp ∉ lit "INVITE" := by decide
        have hneutral := hspoken.neutral hverb (by decide) (nick ++ lit " :" ++ name ++ lit "\r\n")
        simp only [userPrefix, List.append_assoc] at hneutral ⊢
        exact hneutral.notices
      -- the prefix of the relayed line is made behind the first answer
      have hmask : ∀ t u : Server, Informs s t [] → Informs s u [] → userPrefix t c = userPrefix u c := by
        intro t u ht hu
        rw [userPrefix, userPrefix, ht.nickname, ht.username, hu.nickname, hu.username]
      have hsecond := hadded.trans (hreplied _)
      refine ⟨[], hsecond.trans (informs_sendMessage _ d ?_)⟩
      rw [hmask _ s hsecond (.refl s)]
      exact hrelayed

end Turns

end Server

end FtIrc
