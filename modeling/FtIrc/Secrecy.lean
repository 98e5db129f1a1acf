import FtIrc.Departures
import FtIrc.Keys
import FtIrc.Rekeying

/-!
# What outsiders learn of a channel's key

A line of a client that is not in a channel has the same effect whatever the key of the channel is,
with one exception: the query of the modes is answered with the key in it, before anybody asks
whether the client is a member.
-/

namespace FtIrc

open Bytes

/-! ## The query of the modes -/

namespace ModeCommand

/-- The reply to the query. -/
def modesMessage (s : Server) (client : Ptr) (target : Str) (channel : Channel) : Str :=
  lit ":server 324 " ++ s.nickname client ++ lit " " ++ target ++ lit " " ++ activeModes channel
    ++ lit "\r\n"

theorem execute_query {s : Server} {c : Ptr} {target : Str} {channel : Channel}
    (hvalid : JoinCommand.isValidChannelName target = true)
    (hch : s.findChannel target = some channel) :
    execute s c [target] = s.sendMessage c (modesMessage s c target channel) := by
  obtain ⟨first, rest, rfl, hfirst, _⟩ := head_of_isValidChannelName hvalid
  unfold execute
  dsimp only
  rw [if_neg fun h => hfirst.elim (fun heq => h.1 (by rw [heq]; rfl)) fun heq => h.2 (by rw [heq]; rfl),
    hch]
  rfl

theorem modesMessage_ne_nil {s : Server} {c : Ptr} {target : Str} {channel : Channel} :
    modesMessage s c target channel ≠ [] := by
  unfold modesMessage
  exact List.append_ne_nil_of_right_ne_nil _ (by decide)

/-- The letters of a channel that has a key. -/
def lettersWithKey (channel : Channel) : Str :=
  (if channel.inviteOnly then lit "i" else []) ++ (if channel.topicRestricted then lit "t" else [])
    ++ lit "k" ++ (if channel.userLimit > 0 then lit "l" else [])

/-- The limit, as it stands in the reply. -/
def limitArgument (channel : Channel) : Str :=
  if channel.userLimit > 0 then lit " " ++ decimal channel.userLimit else []

theorem activeModes_key (channel : Channel) {key : Str} (hkey : key ≠ []) :
    activeModes { channel with password := key }
      = lit "+" ++ lettersWithKey channel ++ (lit " " ++ key ++ limitArgument channel) := by
  have hset : (!key.isEmpty) = true := by simpa using hkey
  have hletters : lettersWithKey channel ≠ [] := by
    unfold lettersWithKey
    exact List.append_ne_nil_of_left_ne_nil (List.append_ne_nil_of_right_ne_nil _ (by decide)) _
  unfold lettersWithKey at hletters
  unfold activeModes limitArgument lettersWithKey
  dsimp only
  rw [if_pos hset, if_pos hset, if_neg hletters]

theorem short_lettersWithKey (channel : Channel) : Short 4 (lettersWithKey channel) := by
  unfold lettersWithKey
  constructor
  · split_ifs <;> decide
  · split_ifs <;> decide

theorem short_limitArgument {channel : Channel} (h : channel.userLimit < 2 ^ 32) :
    Short 11 (limitArgument channel) := by
  have hlen := length_decimal_le h
  unfold limitArgument
  split_ifs
  · refine ⟨by simp +decide [clean_decimal], ?_⟩
    rw [List.length_append]
    show 1 + _ ≤ 11
    omega
  · exact short_nil 11

section Query

variable {s : Server} (hs : s.Tidy) (c : Ptr) {target : Str} {channel : Channel}
  (hch : s.findChannel target = some channel) {key key' : Str}

/-- The reply with one key is the reply with another exactly if the keys are the same. -/
theorem modesMessage_inj (hkey : key ≠ []) (hkey' : key' ≠ []) :
    modesMessage s c target { channel with password := key }
        = modesMessage s c target { channel with password := key' }
      ↔ key = key' := by
  constructor
  · intro h
    rw [modesMessage, modesMessage, activeModes_key _ hkey, activeModes_key _ hkey'] at h
    exact List.append_cancel_left (List.append_cancel_right (List.append_cancel_left
      (List.append_cancel_left (List.append_cancel_right h))))
  · rintro rfl
    rfl

/-- A longer key makes a longer reply. -/
theorem length_modesMessage (s : Server) (c : Ptr) (target : Str) (channel : Channel) {key : Str}
    (hkey : key ≠ []) :
    (modesMessage s c target { channel with password := key }).length
      = (modesMessage s c target { channel with password := lit "x" }).length + key.length - 1 := by
  have hpos := List.length_pos_iff.mpr hkey
  rw [modesMessage, modesMessage, activeModes_key _ hkey, activeModes_key _ (by decide)]
  simp only [List.length_append]
  have hone : (lit "x").length = 1 := rfl
  omega

include hs hch in
/-- With a short key the reply can be sent. -/
theorem isValid_modesMessage (hkey : Short 1 key) (hne : key ≠ []) :
    isValidOutboundMessage (modesMessage s c target { channel with password := key }) = true := by
  have htexts := hs.texts target channel hch
  have hlenName := htexts.name.length_le
  have hlenNick := (hs.nickname c).length_le
  have hlenLetters := (short_lettersWithKey channel).length_le
  have hlenLimit := (short_limitArgument htexts.userLimit).length_le
  have hlenKey := hkey.length_le
  rw [modesMessage, activeModes_key _ hne, isValidOutboundMessage_append ?_ (by decide)]
  · simp only [List.length_append]
    show 12 + _ + 1 + _ + 1 + (1 + _ + (1 + _ + _)) + 2 ≤ 512
    omega
  · simp +decide [(hs.nickname c).clean, htexts.name.clean, (short_lettersWithKey channel).clean,
      (short_limitArgument htexts.userLimit).clean, hkey.clean]

end Query

end ModeCommand

/-! ## What a client sees -/

/-- A message is queued, or nothing is. -/
theorem Client.sendBuffer_sendMessage (x : Client) (text : Str) :
    (x.Ready text ∧ (x.sendMessage text).sendBuffer = x.sendBuffer ++ text)
    ∨ (¬ (x.Ready text ∧ isValidOutboundMessage text = true)
      ∧ (x.sendMessage text).sendBuffer = x.sendBuffer) := by
  unfold sendMessage Ready
  dsimp only
  by_cases hstopped : (x.dead || x.closing) = true
  · rw [if_pos hstopped]
    exact Or.inr ⟨fun h => absurd (hstopped.symm.trans h.1.1) (by decide), rfl⟩
  rw [if_neg hstopped]
  by_cases hvalid : (!isValidOutboundMessage text) = true
  · rw [if_pos hvalid]
    exact Or.inr ⟨fun h => by rw [h.2] at hvalid; exact absurd hvalid (by decide), rfl⟩
  rw [if_neg hvalid]
  by_cases hfull : (decide (x.sendBuffer.length > maxSendBuffer)
      || decide (text.length > maxSendBuffer - x.sendBuffer.length)) = true
  · rw [if_pos hfull]
    rw [Bool.or_eq_true, decide_eq_true_eq, decide_eq_true_eq] at hfull
    refine Or.inr ⟨fun h => ?_, ?_⟩
    · have hroom := h.1.2
      omega
    · unfold markDead
      split_ifs <;> rfl
  · rw [if_neg hfull]
    rw [Bool.or_eq_true, decide_eq_true_eq, decide_eq_true_eq] at hfull
    exact Or.inl ⟨⟨Bool.eq_false_iff.mpr hstopped, by omega⟩, rfl⟩

namespace Message

/-- The keys a line offers. -/
def offers (m : Message) : List Str := if m.handler = some .join then m.keys else []

/-- The line asks for the modes of the channel, and the client gets the answer, at least if the
key in it is short. -/
def AsksForKey (m : Message) (s : Server) (c : Ptr) (name : Str) (ch : Channel) : Prop :=
  m.handler = some .mode ∧ m.params = [name]
    ∧ (s.client c).Ready (ModeCommand.modesMessage s c name { ch with password := lit "x" })

end Message

namespace Server

/-- A client has been told the same by two servers, and is a member of the same channels. -/
def LooksSame (s t : Server) (c : Ptr) : Prop :=
  (t.client c).sendBuffer = (s.client c).sendBuffer ∧ ∀ name, t.IsMember c name ↔ s.IsMember c name

/-- The state a line is handled in: a reachable one, or what is left of one when the line has been
taken from the buffer of the client. -/
def Handles (s : Server) (c : Ptr) (line : Str) : Prop :=
  Reachable s ∨ ∃ s₀ s', Reachable s₀ ∧ DispatchOf c line s₀ s s'

namespace Handles

variable {s : Server} {c : Ptr} {line : Str} (h : s.Handles c line)
include h

theorem integrity : s.Integrity := by
  rcases h with h | ⟨s₀, s', h, hline⟩
  · exact h.integrity
  · exact hline.integrity h.integrity

theorem tidy : s.Tidy := by
  rcases h with h | ⟨s₀, s', h, hline⟩
  · exact h.tidy
  · exact (hline.answers_before h.tidy).tidy

theorem keyed : s.Keyed := by
  rcases h with h | ⟨s₀, s', h, hline⟩
  · exact h.keyed
  · intro name ch hch
    exact h.keyed name ch ((hline.findChannel_eq name).symm.trans hch)

end Handles

end Server

theorem Rekeyed.looksSame {name key : Str} {ch : Channel} {s t : Server}
    (h : Rekeyed name key ch s t) (c : Ptr) : s.LooksSame t c := by
  refine ⟨by rw [h.client], fun n => ?_⟩
  unfold Server.IsMember
  by_cases hn : n = name
  · subst hn
    rw [h.found, h.found']
    simp only [Option.some.injEq, exists_eq_left']
  · rw [h.findChannel_ne hn]

/-- The key of a channel stays secret from a client that is not in it, exactly as long as the
client does not ask for the modes of the channel. -/
theorem key_secret {s : Server} {c : Ptr} {line name : Str} {ch : Channel} {x : Client}
    (h : s.Handles c line) (hx : s.heap c = some x) (hreg : x.isRegistered = true)
    (hch : s.findChannel name = some ch) (hlocked : ch.password ≠ []) (hout : c ∉ ch.members)
    (hoffers : ch.password ∉ (Parser.parse line).offers) :
    (∀ key, key ≠ [] → key ≠ ch.password → key ∉ (Parser.parse line).offers →
        (s.processLine c line).LooksSame ((s.rekey name key).processLine c line) c)
      ↔ ¬ (Parser.parse line).AsksForKey s c name ch := by
  unfold Server.processLine
  generalize Parser.parse line = m at hoffers ⊢
  have hrekeyed : ∀ key, Rekeyed name key ch s (s.rekey name key) := fun key =>
    ⟨rfl, hch, fun n ch hch => (h.integrity.channel n ch hch).name_eq⟩
  have hvalid := (h.keyed name ch hch).1
  by_cases hquery : m.handler = some .mode ∧ m.params = [name]
  swap
  · refine iff_of_true (fun key hkey _ hkeys => ?_) fun hasks => hquery ⟨hasks.1, hasks.2.1⟩
    unfold Message.offers at hoffers hkeys
    refine ((hrekeyed key).processMessage (h.integrity.channel name ch hch).wf hout hlocked hkey
      (fun hjoin => ?_) fun hmode hparams => hquery ⟨hmode, hparams⟩).looksSame c
    rw [if_pos hjoin] at hoffers hkeys
    exact ⟨hoffers, hkeys⟩
  obtain ⟨hmode, hparams⟩ := hquery
  have hnone : m.offers = [] := if_neg (by rw [hmode]; decide)
  have hanswer : ∀ (t : Server) ch', (t.client c).isRegistered = true → t.findChannel name = some ch' →
      t.processMessage c m = t.sendMessage c (ModeCommand.modesMessage t c name ch') := by
    intro t ch' ht hch'
    rw [Server.processMessage_of_registered ht hmode, hparams]
    exact ModeCommand.execute_query hvalid hch'
  have hc := Server.client_of_heap hx
  have hreg' : (s.client c).isRegistered = true := by rw [hc, hreg]
  -- both servers answer, each with its key
  have hsame : ∀ key, (s.processMessage c m).LooksSame ((s.rekey name key).processMessage c m) c
      ↔ (x.sendMessage (ModeCommand.modesMessage s c name { ch with password := key })).sendBuffer
        = (x.sendMessage (ModeCommand.modesMessage s c name ch)).sendBuffer := by
    intro key
    have hr := hrekeyed key
    rw [hanswer s ch hreg' hch, hanswer _ _ (by rw [hr.client, hreg']) hr.found']
    unfold Server.LooksSame
    rw [Server.sendMessage, Server.sendMessage, Server.client_modify_self _ hx,
      Server.client_modify_self _ (show (s.rekey name key).heap c = some x from hx)]
    exact and_iff_left (hr.looksSame c).2
  have htidy := h.tidy
  by_cases hready : x.Ready (ModeCommand.modesMessage s c name { ch with password := lit "x" })
  · refine iff_of_false (fun hsee => ?_) fun hnot => hnot ⟨hmode, hparams, by rwa [hc]⟩
    -- a key of one byte that is not the key of the channel
    obtain ⟨key, hshort, hne, hother⟩ : ∃ key, Short 1 key ∧ key ≠ [] ∧ key ≠ ch.password := by
      by_cases hx : lit "x" = ch.password
      · exact ⟨lit "y", ⟨by decide, by decide⟩, by decide, by rw [← hx]; decide⟩
      · exact ⟨lit "x", ⟨by decide, by decide⟩, by decide, hx⟩
    have hleak := (hsame key).mp (hsee key hne hother (by rw [hnone]; exact List.not_mem_nil))
    have hlen := ModeCommand.length_modesMessage s c name ch hne
    have hkeyLen := hshort.length_le
    rcases x.sendBuffer_sendMessage (ModeCommand.modesMessage s c name { ch with password := key })
      with ⟨_, hqueued⟩ | ⟨hnot, _⟩
    · rw [hqueued] at hleak
      rcases x.sendBuffer_sendMessage (ModeCommand.modesMessage s c name ch) with ⟨_, hth⟩ | ⟨_, hth⟩
      · rw [hth] at hleak
        exact hother ((ModeCommand.modesMessage_inj c hne hlocked).mp (List.append_cancel_left hleak))
      · rw [hth] at hleak
        exact ModeCommand.modesMessage_ne_nil (List.append_cancel_left (hleak.trans (List.append_nil _).symm))
    · refine hnot ⟨⟨hready.1, ?_⟩, ModeCommand.isValid_modesMessage htidy c hch hshort hne⟩
      have hroom := hready.2
      omega
  · refine iff_of_true (fun key hkey _ _ => (hsame key).mpr ?_) fun hasks => hready (hc ▸ hasks.2.2)
    have hsilent : ∀ key, key ≠ [] →
        (x.sendMessage (ModeCommand.modesMessage s c name { ch with password := key })).sendBuffer
          = x.sendBuffer := by
      intro key hkey
      rcases x.sendBuffer_sendMessage (ModeCommand.modesMessage s c name { ch with password := key })
        with ⟨hr, _⟩ | ⟨_, hsame⟩
      · have hlen := ModeCommand.length_modesMessage s c name ch hkey
        have hroom := hr.2
        have hpos := List.length_pos_iff.mpr hkey
        exact absurd ⟨hr.1, by omega⟩ hready
      · exact hsame
    rw [hsilent key hkey]
    exact (hsilent ch.password hlocked).symm

theorem key_secret_sample :
    (locked.processLine 2 (lit "JOIN #c guess")).LooksSame
      ((locked.rekey (lit "#c") (lit "other")).processLine 2 (lit "JOIN #c guess")) 2 := by
  obtain ⟨hchannel, hclient, hhandler, hkeys⟩ :
      (locked.findChannel (lit "#c")).map (fun ch => (ch.password, ch.members)) = some (lit "k:1", [0, 1])
      ∧ (locked.heap 2).map (·.isRegistered) = some true
      ∧ (Parser.parse (lit "JOIN #c guess")).handler = some .join
      ∧ (Parser.parse (lit "JOIN #c guess")).keys = [lit "guess"] := by
    decide +kernel
  obtain ⟨ch, hch, heq⟩ := Option.map_eq_some_iff.mp hchannel
  obtain ⟨hpassword, hmembers⟩ := Prod.mk.inj heq
  obtain ⟨x, hx, hreg⟩ := Option.map_eq_some_iff.mp hclient
  have hoffers : (Parser.parse (lit "JOIN #c guess")).offers = [lit "guess"] := by
    rw [Message.offers, if_pos hhandler, hkeys]
  refine (key_secret (.inl reachable_locked) hx hreg hch (by rw [hpassword]; decide)
    (by rw [hmembers]; decide) (by rw [hoffers, hpassword]; decide)).mpr ?_ (lit "other") (by decide)
    (by rw [hpassword]; decide) (by rw [hoffers]; decide)
  rintro ⟨hmode, _⟩
  exact absurd (hhandler.symm.trans hmode) (by decide)

/-- A client that is not in the channel asks for its modes, and is told the key. -/
theorem leaked_key :
    Reachable locked ∧ (locked.findChannel (lit "#c")).map (fun ch => (ch.password, ch.members))
        = some (lit "k:1", [0, 1])
      ∧ (locked.heap 2).map (·.isRegistered) = some true
      ∧ ((locked.processLine 2 (lit "MODE #c")).client 2).trace.accepted.getLast?
          = some (lit ":server 324 cal #c +tk k:1\r\n")
      ∧ ¬ (locked.processLine 2 (lit "MODE #c")).LooksSame
        ((locked.rekey (lit "#c") (lit "other")).processLine 2 (lit "MODE #c")) 2 := by
  obtain ⟨hchannel, hclient, htold, hbuffer⟩ :
      (locked.findChannel (lit "#c")).map (fun ch => (ch.password, ch.members)) = some (lit "k:1", [0, 1])
      ∧ (locked.heap 2).map (·.isRegistered) = some true
      ∧ ((locked.processLine 2 (lit "MODE #c")).client 2).trace.accepted.getLast?
          = some (lit ":server 324 cal #c +tk k:1\r\n")
      ∧ (((locked.rekey (lit "#c") (lit "other")).processLine 2 (lit "MODE #c")).client 2).sendBuffer
        ≠ ((locked.processLine 2 (lit "MODE #c")).client 2).sendBuffer := by
    decide +kernel
  exact ⟨reachable_locked, hchannel, hclient, htold, fun h => hbuffer h.1⟩

end FtIrc
