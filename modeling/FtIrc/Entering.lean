import FtIrc.Views

/-!
# What can be seen of a JOIN

The members of a channel read of a new member in its JOIN line. The new member reads who is there in
the list of names, and the topic in front of it if there is one.
-/

namespace FtIrc

open Bytes

namespace JoinCommand

variable {s : Server} {c : Ptr} {channel : Channel} {name : Str}

/-! ## The list of names -/

section Names

variable (hnicks : ∀ p ∈ channel.members, NickCommand.isValidNickname (s.nickname p) = true)
include hnicks

/-- An entry is the nickname, with a mark if it is an operator's. -/
theorem unmarked_namesEntry {p : Ptr} (hp : p ∈ channel.members) :
    unmarked (namesEntry s channel p) = s.nickname p
      ∧ ((namesEntry s channel p).head? = some (ch '@') ↔ p ∈ channel.operators) := by
  have hmark : (s.nickname p).head? ≠ some (ch '@') := fun hhead =>
    absurd (mem_of_isValidNickname (hnicks p hp) _ (List.mem_of_head? hhead)) (by decide)
  rw [← Channel.isOperator_iff]
  unfold namesEntry
  split_ifs with hop
  · exact ⟨if_pos rfl, iff_of_true rfl hop⟩
  · rw [List.nil_append]
    exact ⟨if_neg hmark, iff_of_false hmark hop⟩

/-- The list of names is read as it is meant. -/
theorem notices_namesLine (hnick : sp ∉ s.nickname c) (hname : sp ∉ name) :
    notices (namesHeader s c name ++ namesList s channel ++ lit "\r\n")
      = [.names name (channel.members.map fun p => toIrcLowerCase (s.nickname p)).toFinset
          ((channel.members.filter fun p => p ∈ channel.operators).map
            fun p => toIrcLowerCase (s.nickname p)).toFinset] := by
  have hall : (channel.members.map (namesEntry s channel)).map (fun e => toIrcLowerCase (unmarked e))
      = channel.members.map fun p => toIrcLowerCase (s.nickname p) := by
    rw [List.map_map]
    refine List.map_congr_left fun p hp => ?_
    rw [Function.comp_apply, (unmarked_namesEntry hnicks hp).1]
  have hops : (((channel.members.map (namesEntry s channel)).filter fun e => e.head? = some (ch '@')).map
      fun e => toIrcLowerCase (unmarked e))
      = (channel.members.filter fun p => p ∈ channel.operators).map fun p => toIrcLowerCase (s.nickname p) := by
    rw [List.filter_map, List.map_map]
    have hfilter : channel.members.filter ((fun e => decide (e.head? = some (ch '@'))) ∘ namesEntry s channel)
        = channel.members.filter fun p => p ∈ channel.operators := by
      refine List.filter_congr fun p hp => ?_
      rw [Function.comp_apply, decide_eq_decide]
      exact (unmarked_namesEntry hnicks hp).2
    rw [hfilter]
    refine List.map_congr_left fun p hp => ?_
    rw [Function.comp_apply, (unmarked_namesEntry hnicks (List.mem_filter.mp hp).1).1]
  rw [namesHeader, notices_namesReply hnick hname, fields_namesList hnicks, hall, hops]

/-- What the new member reads in all that it is told. -/
theorem notices_joinMessages (hspoken : Spoken (s.nickname c) (s.username c)) (hname : sp ∉ name)
    (isNew : Bool) :
    (joinMessages s c channel name isNew).flatMap notices
      = [.joined (toIrcLowerCase (s.nickname c)) name]
        ++ (if channel.topic = [] then [] else [.topic name channel.topic])
        ++ [.names name (channel.members.map fun p => toIrcLowerCase (s.nickname p)).toFinset
            ((channel.members.filter fun p => p ∈ channel.operators).map
              fun p => toIrcLowerCase (s.nickname p)).toFinset] := by
  have hmode : notices (lit ":server MODE " ++ name ++ lit " +t\r\n") = [] := by
    have hverb : sp ∉ lit "MODE" := by decide
    have hread := notices_of_server hverb (name ++ sp :: lit "+t\r\n")
    rw [List.append_assoc]
    refine hread.trans ?_
    rw [readNotices, behind_append hname]
    simp +decide [contents]
  have hend : notices (endLine s c name) = [] := by
    have hneutral : Neutral (lit ":server 366 ") := .of_word (by decide) (by decide) (by decide)
    unfold endLine
    simp only [List.append_assoc]
    exact (hneutral.append _).notices
  have hnew : (if isNew then [lit ":server MODE " ++ name ++ lit " +t\r\n"] else []).flatMap notices
      = [] := by
    split_ifs
    · rw [List.flatMap_singleton, hmode]
    · rfl
  have htopic : (if !channel.topic.isEmpty then
      [lit ":server 332 " ++ s.nickname c ++ lit " " ++ name ++ lit " :" ++ channel.topic ++ lit "\r\n"]
      else []).flatMap notices = if channel.topic = [] then [] else [.topic name channel.topic] := by
    by_cases hempty : channel.topic = []
    · rw [if_pos hempty, hempty]
      rfl
    · rw [if_neg hempty, if_pos (by simpa using hempty), List.flatMap_singleton,
        notices_topicReply hspoken.nickname hname]
  unfold joinMessages greetings
  simp only [List.flatMap_append, List.flatMap_cons, List.flatMap_nil, hnew, htopic, hend,
    notices_namesLine hnicks hspoken.nickname hname, List.append_nil, userPrefix, hspoken.notices_join]

end Names

/-! ## Who is told what -/

/-- What a JOIN tells a client. -/
def joinTold (s : Server) (client : Ptr) (channel : Channel) (name : Str) (isNewChannel : Bool)
    (p : Ptr) : List Str :=
  if p = client then joinMessages s client channel name isNewChannel
  else if p ∈ channel.members then [userPrefix s client ++ lit " JOIN :" ++ name ++ lit "\r\n"]
  else []

/-- The announcement sends everybody what is meant for it, and does nothing else. -/
theorem heap_announce_eq (hc : s.Allocated c) (hnodup : channel.members.Nodup) (isNew : Bool) (p : Ptr) :
    (announce s c channel name isNew).heap p
      = (s.heap p).map fun x => (joinTold s c channel name isNew p).foldl Client.sendMessage x := by
  unfold joinTold
  by_cases hp : p = c
  · subst hp
    obtain ⟨y, hy⟩ := Option.isSome_iff_exists.mp hc
    rw [heap_announce hy, hy, Option.map_some, if_pos rfl]
  rw [if_neg hp]
  have hfold : ∀ (messages : List Str) (t : Server),
      (messages.foldl (·.sendMessage c) t).heap p = t.heap p := by
    intro messages
    induction messages with
    | nil => exact fun _ => rfl
    | cons message messages ih =>
      intro t
      rw [List.foldl_cons, ih, Server.sendMessage, Server.heap_modify_ne _ _ hp]
  have hothers : p ∈ channel.members.filter (fun q => some q != some c) ↔ p ∈ channel.members := by
    rw [List.mem_filter, bne_iff_ne, ne_eq, Option.some.injEq, and_iff_left hp]
  rw [announce_eq, hfold, Server.broadcastMessage]
  split_ifs with hmem
  · rw [Server.heap_sendAll_of_mem (hnodup.filter _) (hothers.mpr hmem)]
    rfl
  · rw [Server.heap_sendAll_of_not_mem fun h => hmem (hothers.mp h)]
    simp

end JoinCommand

namespace Server

open JoinCommand

variable {s : Server} {c : Ptr} {ch : Channel} {name : Str}

theorem channelAt_congr {t : Server} (h : t.findChannel name = s.findChannel name) :
    t.channelAt name = s.channelAt name := by
  rw [channelAt, h, channelAt]

/-- Who is registered is there. -/
theorem allocated_of_isRegistered (h : (s.client c).isRegistered = true) : s.Allocated c := by
  cases hx : s.heap c with
  | some x => rw [Allocated, hx, Option.isSome_some]
  | none =>
    rw [client, hx] at h
    cases h

/-! ## Getting in -/

/-- When a new member is announced, the clients are as before, and one channel has the member. -/
structure Entered (s u : Server) (c : Ptr) (name : Str) (ch : Channel) : Prop where
  heap : u.heap = s.heap
  findChannel : ∀ n, u.findChannel n = if n = name then some ch else s.findChannel n
  wf : ch.Wf
  registered : ∀ p ∈ ch.members, (s.client p).isRegistered = true
  joined : c ∈ ch.members

namespace Entered

variable {u : Server} (h : Entered s u c name ch)
include h

/-- The clients have not changed, nor have their names. -/
theorem client (p : Ptr) : u.client p = s.client p := by
  rw [Server.client, h.heap, Server.client]

theorem nickname (p : Ptr) : u.nickname p = s.nickname p := congrArg Client.nickname (h.client p)

theorem username (p : Ptr) : u.username p = s.username p := congrArg Client.username (h.client p)

/-- The announcement changes nothing, so the channel is all that has changed. -/
theorem world_announce (isNew : Bool) : (announce u c ch name isNew).world = { s.world with
    inside := Function.update s.world.inside name ch.members.toFinset
    operators := Function.update s.world.operators name ch.operators.toFinset
    topic := Function.update s.world.topic name ch.topic } := by
  have honly := onlySends_announce u c ch name isNew
  have hidentity : ∀ p, ((announce u c ch name isNew).client p).identity = (s.client p).identity :=
    fun p => (honly.identity p).trans (by rw [h.client])
  have hothers : ∀ n, n ≠ name → (announce u c ch name isNew).findChannel n = s.findChannel n :=
    fun n hn => by rw [honly.findChannel, h.findChannel, if_neg hn]
  have hself := (honly.findChannel name).trans ((h.findChannel name).trans (if_pos rfl))
  rw [world_of_channel hidentity hothers, channelAt_eq hself]

/-- Everybody is sent what is meant for it. -/
theorem heap_announce (isNew : Bool) (p : Ptr) : (announce u c ch name isNew).heap p
    = (s.heap p).map fun x => (joinTold u c ch name isNew p).foldl Client.sendMessage x := by
  have hc : u.Allocated c := by
    rw [Allocated, h.heap]
    exact allocated_of_isRegistered (h.registered c h.joined)
  rw [← h.heap]
  exact heap_announce_eq hc h.wf.nodup_members isNew p

/-- Members are known under the names they have in the world. -/
theorem image_name {l : List Ptr} (hl : ∀ p ∈ l, p ∈ ch.members) :
    (l.map fun p => toIrcLowerCase (u.nickname p)).toFinset = l.toFinset.image s.world.name := by
  rw [image_name_world fun p hp => h.registered p (hl p hp)]
  simp only [h.nickname]

/-- The new member can be read of in its lines. -/
theorem spoken (hs : s.Steady) : Spoken (u.nickname c) (u.username c) := by
  rw [h.nickname, h.username]
  exact (hs.spoken c (h.registered c h.joined)).2

theorem name_eq : toIrcLowerCase (u.nickname c) = s.world.name c := by
  rw [name_world (h.registered c h.joined), h.nickname]

/-- The new member reads who is there. -/
theorem notices_self (hs : s.Steady) (hname : sp ∉ name) (isNew : Bool) :
    (joinTold u c ch name isNew c).flatMap notices
      = [.joined (s.world.name c) name]
        ++ (if ch.topic = [] then [] else [.topic name ch.topic])
        ++ [.names name (ch.members.toFinset.image s.world.name)
            (ch.operators.toFinset.image s.world.name)] := by
  have hnicks : ∀ p ∈ ch.members, NickCommand.isValidNickname (u.nickname p) = true := by
    intro p hp
    rw [h.nickname]
    exact (hs.spoken p (h.registered p hp)).1
  -- all operators are members
  have hops : (ch.members.filter fun p => p ∈ ch.operators).toFinset = ch.operators.toFinset := by
    ext p
    rw [List.mem_toFinset, List.mem_toFinset, List.mem_filter, decide_eq_true_iff]
    exact ⟨fun hp => hp.2, fun hp => ⟨h.wf.operators_sub p hp, hp⟩⟩
  rw [joinTold, if_pos rfl, notices_joinMessages hnicks (h.spoken hs) hname, h.name_eq,
    h.image_name fun p hp => hp, h.image_name fun p hp => (List.mem_filter.mp hp).1, hops]

/-- The others read of the new member. -/
theorem notices_other (hs : s.Steady) {p : Ptr} (hp : p ≠ c) (isNew : Bool) :
    (joinTold u c ch name isNew p).flatMap notices
      = if p ∈ ch.members then [.joined (s.world.name c) name] else [] := by
  rw [joinTold, if_neg hp]
  split_ifs
  · rw [List.flatMap_singleton, userPrefix, (h.spoken hs).notices_join, h.name_eq]
  · rfl

end Entered

/-! ## A turn of JOIN -/

/-- A JOIN of a channel that is not there founds it. -/
theorem Steady.informs_founded (hs : s.Steady) (hreg : (s.client c).isRegistered = true)
    (hvalid : isValidChannelName name = true) (hnew : s.findChannel name = none) :
    Informs s (announce { s with channels := s.channels.insert name (Channel.founded name c) } c
      (Channel.founded name c) name true) [.found c name] := by
  have hname := (middle_of_isValidChannelName hvalid).sp_not_mem
  have hmembers : ∀ p ∈ (Channel.founded name c).members, p = c := fun p hp => List.mem_singleton.mp hp
  have hentered : Entered s { s with channels := s.channels.insert name (Channel.founded name c) } c
      name (Channel.founded name c) := by
    refine ⟨rfl, fun n => ?_, Channel.wf_founded name c, fun p hp => ?_, List.mem_singleton_self c⟩
    · rw [findChannel, OrdMap.find?_insert]
      split_ifs <;> rfl
    · rw [hmembers p hp]
      exact hreg
  have hin : s.world.inside name = ∅ := by
    show (s.channelAt name).members.toFinset = ∅
    rw [channelAt_of_none hnew]
    rfl
  have htopic : s.world.topic name = [] := by
    show (s.channelAt name).topic = []
    rw [channelAt_of_none hnew]
  refine .of_act ⟨hreg, hin, htopic⟩ ?_
    (fun p => ⟨joinTold _ c (Channel.founded name c) name true p, hentered.heap_announce true p, ?_⟩)
    trivial
  · have hsame : Function.update s.world.topic name (Channel.founded name c).topic = s.world.topic :=
      Function.update_eq_self_iff.mpr htopic.symm
    rw [hentered.world_announce, Presence.World.apply, hsame]
    rfl
  · rw [Presence.World.hears]
    by_cases hp : p = c
    · subst hp
      rw [if_pos rfl, hentered.notices_self hs hname]
      simp [Channel.founded]
    · rw [if_neg hp, hentered.notices_other hs hp, if_neg fun hmem => hp (hmembers p hmem)]

/-- A JOIN that is let in enters the channel. -/
theorem Steady.informs_entered (hs : s.Steady) (hreg : (s.client c).isRegistered = true)
    (hvalid : isValidChannelName name = true) (hch : s.findChannel name = some ch)
    (hout : c ∉ ch.members) :
    Informs s (announce (s.modifyChannel name fun _ => (ch.addMember c).removeInvited c) c
      ((ch.addMember c).removeInvited c) name false) [.enter c name] := by
  have hname := (middle_of_isValidChannelName hvalid).sp_not_mem
  have hwf := (hs.integrity.channel name ch hch).wf
  have hwf' := hwf.enter hout
  obtain ⟨hmembers, hoperators, htopic⟩ : ((ch.addMember c).removeInvited c).members = ch.members ++ [c]
      ∧ ((ch.addMember c).removeInvited c).operators = ch.operators
      ∧ ((ch.addMember c).removeInvited c).topic = ch.topic := by
    rw [Channel.addMember_of_not_mem _ hout]
    exact ⟨rfl, rfl, rfl⟩
  generalize (ch.addMember c).removeInvited c = ch' at hwf' hmembers hoperators htopic
  have hentered : Entered s (s.modifyChannel name fun _ => ch') c name ch' := by
    refine ⟨rfl, findChannel_modifyChannel hch ch', hwf', fun p hp => ?_, ?_⟩
    · rw [hmembers, List.mem_append, List.mem_singleton] at hp
      rcases hp with hp | rfl
      · exact hs.inhabited name ch hch p hp
      · exact hreg
    · rw [hmembers]
      exact List.mem_append_right _ (List.mem_singleton_self c)
  have hnot : c ∉ s.world.inside name := fun hin => hout ((mem_inside hch).mp hin)
  have hinside : ch'.members.toFinset = insert c (s.world.inside name) := by
    ext p
    rw [List.mem_toFinset, hmembers, Finset.mem_insert, mem_inside hch]
    simp [or_comm]
  have hops : ch'.operators.toFinset = s.world.operators name := by
    rw [hoperators, operators_world hch]
  refine .of_act ⟨hreg, hnot⟩ ?_
    (fun p => ⟨joinTold _ c ch' name false p, hentered.heap_announce false p, ?_⟩) trivial
  · rw [hentered.world_announce, Presence.World.apply, hinside, hops, htopic, ← topic_world hch]
    simp only [Function.update_eq_self]
  · rw [Presence.World.hears]
    by_cases hp : p = c
    · subst hp
      rw [if_pos rfl, hentered.notices_self hs hname, hinside, hops, htopic, topic_world hch]
      rfl
    · have hiff : p ∈ ch'.members ↔ p ∈ s.world.inside name := by
        rw [hmembers, mem_inside hch, List.mem_append, List.mem_singleton, or_iff_left hp]
      rw [if_neg hp, hentered.notices_other hs hp]
      simp only [hiff]

/-- A refusal says nothing that is seen. -/
theorem informs_refusal (s : Server) (c : Ptr) (name : Str) {r : String × String}
    (hr : r ∈ refusals) : ∃ acts, Informs s (s.sendMessage c (refusal s c name r)) acts := by
  have hneutral : ∀ r ∈ refusals, Neutral (lit r.1) := by
    simp only [refusals, List.forall_mem_cons, List.not_mem_nil, false_imp_iff, implies_true, and_true]
    exact ⟨.of_word (by decide) (by decide) (by decide), .of_word (by decide) (by decide) (by decide),
      .of_word (by decide) (by decide) (by decide), .of_word (by decide) (by decide) (by decide)⟩
  unfold refusal
  simp only [List.append_assoc]
  exact informs_reply s c (hneutral r hr)

/-- A turn of JOIN founds a channel or enters one, or nothing happens. -/
theorem Steady.informs_joinOne (hs : s.Steady) (hreg : (s.client c).isRegistered = true)
    (name key : Str) : ∃ acts, Informs s (joinOne s c name key) acts := by
  generalize hjoined : joinOne s c name key = t
  have houtcome := joinOne_outcome s c name key
  rw [hjoined] at houtcome
  cases houtcome with
  | already => exact ⟨[], .refl s⟩
  | refused hr => exact informs_refusal s c name hr
  | founded hvalid hnew => exact ⟨_, hs.informs_founded hreg hvalid hnew⟩
  | entered hvalid hch hout => exact ⟨_, hs.informs_entered hreg hvalid hch hout⟩

end Server

end FtIrc
