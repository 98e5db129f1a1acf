import FtIrc.Showing

/-!
# What is said

PRIVMSG says something on a channel, or to one client, for each of its targets. What a nickname means
is looked up when its turn comes.
-/

namespace FtIrc

open Bytes

namespace PrivmsgCommand

/-- What a turn of the loop says. -/
def utterance (messageText : Str) (client : Ptr) (s : Server) (currentTarget : Str) : List Act :=
  if isChannel currentTarget then
    if (s.channelAt currentTarget).isMember client then [.say client currentTarget messageText] else []
  else (s.findClientByNick currentTarget).toList.map fun p => .whisper client p messageText

/-- What the loop says. -/
def utterances (senderPrefix messageText : Str) (client : Ptr) : Server → List Str → List Act
  | _, [] => []
  | s, target :: targets =>
    utterance messageText client s target
      ++ utterances senderPrefix messageText client
          (sendOne senderPrefix messageText client s target) targets

end PrivmsgCommand

/-- What a message of a client says. -/
def Server.spoken (s : Server) (c : Ptr) (m : Message) : List Act :=
  if (s.client c).isRegistered = true ∧ m.handler = some .privmsg then
    match m.params with
    | targets :: text :: _ =>
      PrivmsgCommand.utterances (userPrefix s c) text c s (splitString targets comma)
    | _ => []
  else []

namespace Server

variable {s t : Server} {c : Ptr} {acts : List Act}

/-- From `s` to `t` the server acts as its world does, and nothing is said. -/
def ShowsSilently (s t : Server) : Prop :=
  ∃ acts, Shows s t acts ∧ acts.filter Presence.Act.isSpeech = []

theorem Informs.showsSilently (h : Informs s t acts) : ShowsSilently s t :=
  ⟨acts, h.shows, List.filter_eq_nil_iff.mpr fun a ha => (h.plain a ha).not_isSpeech⟩

/-- Messages leave the world as it is. -/
theorem OnlySends.world (h : s.OnlySends t) : t.world = s.world :=
  world_congr h.identity fun n => by
    rw [channelAt, h.findChannel]
    exact ⟨rfl, rfl, rfl⟩

/-- A turn of PRIVMSG says what it says to those that it means. -/
theorem Steady.shows_sendOne (hs : s.Steady) (hreg : (s.client c).isRegistered = true)
    (hsame : s.OnlySends t) (text target : Str) :
    Shows t (PrivmsgCommand.sendOne (userPrefix s c) text c t target)
      (PrivmsgCommand.utterance text c t target) := by
  have hspoken := (hs.spoken c hreg).2
  have hregt : (t.client c).isRegistered = true := by
    rw [Client.isRegistered_of_identity (hsame.identity c), hreg]
  have hname : t.world.name c = toIrcLowerCase (s.nickname c) := by
    rw [name_world hregt, hsame.nickname]
  -- the three refusals are told to the sender alone
  have hrefused : ∀ {numeric reason : String}, Neutral (lit numeric) → Shows t (t.sendMessage c
      (lit numeric ++ t.nickname c ++ lit " " ++ target ++ lit reason)) [] := by
    intro numeric reason h
    refine (informs_sendMessage t c ?_).shows
    simp only [List.append_assoc]
    exact (h.append _).notices
  have hread : sp ∉ target → notices (userPrefix s c ++ lit " PRIVMSG " ++ target ++ lit " :" ++ text
      ++ lit "\r\n") = if PrivmsgCommand.isChannel target then [.said (t.world.name c) target text]
        else [.whispered (t.world.name c) text] := fun htarget => by
    rw [hname]
    exact hspoken.notices_privmsg htarget text
  -- a nickname has no blank, and the casemapping neither makes nor removes one
  have hfound : ∀ q, t.findClientByNick target = some q → sp ∉ target := by
    intro q hq hsp
    obtain ⟨_, _, hspelled, _⟩ := findClientByNick_eq_some hq
    have hin : sp ∈ toIrcLowerCase (t.nickname q) := by
      rw [nickname, hspelled]
      exact List.mem_map.mpr ⟨sp, hsp, (toIrcLower_eq_iff (by simp)).mpr rfl⟩
    obtain ⟨b, hb, hlower⟩ := List.mem_map.mp hin
    rw [toIrcLower_eq_iff (by simp)] at hlower
    rw [hsame.nickname] at hb
    exact hs.blankFree q (hlower ▸ hb)
  unfold PrivmsgCommand.sendOne PrivmsgCommand.utterance
  dsimp only
  cases hkind : PrivmsgCommand.isChannel target with
  -- a channel: the members hear it, the sender does not
  | true =>
    rw [if_pos rfl, if_pos rfl]
    cases hch : t.findChannel target with
    | none =>
      rw [channelAt_of_none hch]
      exact hrefused (.of_word (by decide) (by decide) (by decide))
    | some channel =>
      rw [channelAt_eq hch]
      dsimp only
      by_cases hin : channel.isMember c = true
      swap
      · rw [if_pos (by simpa using hin), if_neg hin]
        exact hrefused (.of_word (by decide) (by decide) (by decide))
      rw [if_neg (by simpa using hin), if_pos hin]
      have hch' := hch
      rw [hsame.findChannel] at hch'
      have htext := hread (hs.blank hch')
      rw [if_pos hkind] at htext
      have hnodup := (hs.integrity.channel target channel hch').wf.nodup_members
      refine ⟨⟨(mem_inside hch).mpr ((Channel.isMember_iff ..).mp hin), trivial⟩, ?_, fun p y hy =>
        ⟨?_, fun a ha => by simp [List.mem_singleton.mp ha]⟩⟩
      · exact (OnlySends.sendAll t _ _).world
      · rw [Presence.World.heard, Presence.World.heard, List.append_nil, Presence.World.hears]
        have hmem : p ∈ channel.members.filter (fun p => some p != some c)
            ↔ p ∈ t.world.inside target ∧ p ≠ c := by
          rw [mem_inside hch]
          simp [List.mem_filter]
        rw [broadcastMessage] at hy
        by_cases hp : p ∈ t.world.inside target ∧ p ≠ c
        · rw [heap_sendAll_of_mem (hnodup.filter _) (hmem.mpr hp)] at hy
          obtain ⟨x, hx, rfl⟩ := Option.map_eq_some_iff.mp hy
          rw [if_pos hp, client_of_heap hx, ← htext]
          exact x.reads_sendMessage _
        · rw [heap_sendAll_of_not_mem fun h => hp (hmem.mp h)] at hy
          rw [if_neg hp, client_of_heap hy]
          exact .refl y
  -- a nickname: one client hears it, which may be the sender
  | false =>
    rw [if_neg Bool.false_ne_true, if_neg Bool.false_ne_true]
    cases hfind : t.findClientByNick target with
    | none => exact hrefused (.of_word (by decide) (by decide) (by decide))
    | some q =>
      have htext := hread (hfound q hfind)
      rw [if_neg (by rw [hkind]; decide)] at htext
      show Shows t _ [.whisper c q text]
      refine ⟨⟨hregt, trivial⟩, ?_, fun p y hy => ⟨?_, fun a ha => by simp [List.mem_singleton.mp ha]⟩⟩
      · exact (OnlySends.sendMessage t q _).world
      · rw [Presence.World.heard, Presence.World.heard, List.append_nil, Presence.World.hears]
        dsimp only at hy
        rw [sendMessage, heap_modify] at hy
        split_ifs at hy ⊢ with hp
        · obtain ⟨x, hx, rfl⟩ := Option.map_eq_some_iff.mp hy
          rw [hp, client_of_heap hx, ← htext]
          exact x.reads_sendMessage _
        · rw [client_of_heap hy]
          exact .refl y

/-- All targets in turn. -/
theorem Steady.shows_loop (hs : s.Steady) (hreg : (s.client c).isRegistered = true) (text : Str)
    (targets : List Str) (hsame : s.OnlySends t) :
    Shows t (targets.foldl (PrivmsgCommand.sendOne (userPrefix s c) text c) t)
      (PrivmsgCommand.utterances (userPrefix s c) text c t targets) := by
  induction targets generalizing t with
  | nil => exact (Informs.refl t).shows
  | cons target targets ih =>
    have hnext := PrivmsgCommand.onlySends_sendOne hsame (userPrefix s c) text c target
    refine (hs.shows_sendOne hreg hsame text target).trans (ih hnext) fun p hp => ?_
    obtain ⟨messages, hheap⟩ :=
      (PrivmsgCommand.onlySends_loop (.refl _) (userPrefix s c) text c targets).client p
    rwa [Allocated, List.foldl_cons, hheap, Option.isSome_map] at hp

/-- PRIVMSG says what the message of the client says. -/
theorem Steady.shows_privmsg (hs : s.Steady) (hreg : (s.client c).isRegistered = true) {m : Message}
    (hm : m.handler = some .privmsg) :
    Shows s (PrivmsgCommand.execute s c m.params) (s.spoken c m) := by
  have hrefused : ∀ {head : Str} (rest : Str), Neutral head → Shows s (s.sendMessage c (head ++ rest)) [] :=
    fun rest h => (informs_sendMessage s c (h.append rest).notices).shows
  rw [Server.spoken, if_pos ⟨hreg, hm⟩]
  unfold PrivmsgCommand.execute
  cases m.params with
  | nil =>
    simp only [List.append_assoc]
    exact hrefused _ (.of_word (by decide) (by decide) (by decide))
  | cons targets rest =>
    cases rest with
    | nil =>
      simp only [List.append_assoc]
      exact hrefused _ (.of_word (by decide) (by decide) (by decide))
    | cons text rest => exact hs.shows_loop hreg text (splitString targets comma) (.refl s)

/-! ## What the acts are -/

theorem isSpeech_of_mem_utterances {senderPrefix text : Str} {targets : List Str} {a : Act}
    (ha : a ∈ PrivmsgCommand.utterances senderPrefix text c s targets) : a.isSpeech = true := by
  induction targets generalizing s with
  | nil => exact absurd ha List.not_mem_nil
  | cons target targets ih =>
    rw [PrivmsgCommand.utterances] at ha
    rcases List.mem_append.mp ha with ha | ha
    · unfold PrivmsgCommand.utterance at ha
      split_ifs at ha
      · rw [List.mem_singleton.mp ha]
        rfl
      · exact absurd ha List.not_mem_nil
      · obtain ⟨q, _, rfl⟩ := List.mem_map.mp ha
        rfl
    · exact ih ha

theorem isSpeech_of_mem_spoken {m : Message} {a : Act} (ha : a ∈ s.spoken c m) : a.isSpeech = true := by
  unfold spoken at ha
  split_ifs at ha
  · split at ha
    · exact isSpeech_of_mem_utterances ha
    · exact absurd ha List.not_mem_nil
  · exact absurd ha List.not_mem_nil

end Server

end FtIrc
