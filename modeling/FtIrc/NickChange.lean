import FtIrc.Refusals

/-!
# Changing a nickname

NICK answers a nickname it refuses and does nothing else. A nickname it takes is announced under
the old one to the client and to everybody who shares a channel with it, to each of them once.
-/

namespace FtIrc

open Bytes

/-- Two clients are on one channel. -/
def Server.ShareChannel (s : Server) (p q : Ptr) : Prop :=
  ∃ name ch, s.findChannel name = some ch ∧ p ∈ ch.members ∧ q ∈ ch.members

/-- The NICK line of a client that changes its nickname. -/
def nickMessage (x : Client) (newNickname : Str) : Str :=
  lit ":" ++ x.nickname ++ lit "!" ++ x.username ++ lit "@localhost NICK :" ++ newNickname ++ lit "\r\n"

namespace NickCommand

/-- The answer to a nickname that is not taken: 431, 432 or 433. -/
def refusal (s : Server) (client : Ptr) (params : List Str) : Option Str :=
  let newNickname := params.headD []
  if newNickname = [] then some (lit ":server 431 * :No nickname given\r\n")
  else if !isValidNickname newNickname then
    some (lit ":server 432 " ++ displayName (s.client client) ++ lit " " ++ newNickname
      ++ lit " :Erroneous nickname\r\n")
  else if s.findClientByNick newNickname ≠ none ∧ s.findClientByNick newNickname ≠ some client then
    some (lit ":server 433 " ++ displayName (s.client client) ++ lit " " ++ newNickname
      ++ lit " :Nickname is already in use\r\n")
  else none

/-- The server after a client that is registered has changed its nickname. -/
structure Renamed (s s' : Server) (c : Ptr) (x : Client) (newNickname : Str) : Prop where
  valid : isValidOutboundMessage (nickMessage x newNickname) = true
  client : s'.heap c = some ({ x with nickname := newNickname }.sendMessage (nickMessage x newNickname))
  told : ∀ q y, q ≠ c → s.heap q = some y → s.ShareChannel c q →
    s'.heap q = some (y.sendMessage (nickMessage x newNickname))
  others : ∀ q, q ≠ c → ¬ s.ShareChannel c q → s'.heap q = s.heap q
  channels : s'.channels = s.channels
  clients : s'.clients = s.clients
  pollFds : s'.pollFds = s.pollFds
  identities : ∀ q, q ≠ c → (s'.client q).identity = (s.client q).identity

section

variable {s : Server} {c : Ptr} {params : List Str}

theorem execute_of_refusal {text : Str} (h : refusal s c params = some text) :
    execute s c params = s.sendMessage c text := by
  unfold refusal at h
  unfold execute
  dsimp only at h ⊢
  split_ifs at h ⊢ <;> rw [← Option.some_inj.mp h]

/-- A nickname that is not refused is valid and nobody else's. -/
theorem valid_of_refusal (h : refusal s c params = none) :
    isValidNickname (params.headD []) = true := by
  unfold refusal at h
  dsimp only at h
  split_ifs at h with _ hvalid
  simpa using hvalid

/-- What NICK does for a client that is registered, when nothing is refused. -/
theorem execute_of_accepted {x : Client} (hx : s.heap c = some x) (hreg : x.isRegistered = true)
    (hnick : x.nickname ≠ []) (h : refusal s c params = none)
    (hne : x.nickname ≠ params.headD []) :
    execute s c params
      = (s.modify c fun x => { x with nickname := params.headD [] }).sendAll (s.nickRecipients c)
          (nickMessage x (params.headD [])) := by
  have hclient : s.client c = x := Server.client_of_heap hx
  have hvalid := valid_of_refusal h
  unfold refusal at h
  unfold execute
  dsimp only at h ⊢
  generalize params.headD [] = newNickname at *
  have hset : x.nickSet = true := by
    simp only [Client.isRegistered, Bool.and_eq_true] at hreg
    exact hreg.1.2
  have hmodify : (s.modify c fun x => { x with nickname := newNickname, nickSet := true })
      = s.modify c fun x => { x with nickname := newNickname } :=
    Server.modify_congr hx (by rw [hset])
  have hempty : (x.nickname.isEmpty || newNickname.isEmpty) = false := by
    have hnew := ne_nil_of_isValidNickname hvalid
    simp [hnick, hnew]
  have hdiffers : (x.nickname != newNickname) = true := bne_iff_ne.mpr hne
  have huser : (s.modify c fun x => { x with nickname := newNickname }).username c = x.username := by
    rw [Server.username, Server.client_modify_self _ hx]
  split_ifs at h with hnil hinvalid htaken
  rw [if_neg hnil, if_neg hinvalid, if_neg htaken, hmodify, Server.nickname, hclient, hreg, hdiffers]
  simp only [Bool.not_true, Bool.false_and, Bool.and_self, if_true, Bool.false_eq_true, if_false]
  rw [Server.broadcastNicknameChange, hempty, if_neg Bool.false_ne_true, huser]
  rfl

/-- The recipients hear of the change once each. -/
theorem renamed_of_accepted (h : Reachable s) {x : Client} (hx : s.heap c = some x)
    (hreg : x.isRegistered = true) (hfree : refusal s c params = none)
    (hne : x.nickname ≠ params.headD []) :
    Renamed s (execute s c params) c x (params.headD []) := by
  have hvalid := valid_of_refusal hfree
  have hold := h.isValidNickname hx hreg
  have hnick := ne_nil_of_isValidNickname hold
  rw [execute_of_accepted hx hreg hnick hfree hne]
  generalize params.headD [] = newNickname at *
  have hnodup := s.nodup_nickRecipients c
  have hshares : ∀ q, q ≠ c → (q ∈ s.nickRecipients c ↔ s.ShareChannel c q) := by
    intro q hq
    rw [Server.mem_nickRecipients, or_iff_right hq]
    rfl
  constructor
  · have hshort := short_of_isValidNickname hold
    have hshort' := short_of_isValidNickname hvalid
    have huser := h.tidy.username c
    rw [Server.username, Server.client_of_heap hx] at huser
    have hlen := hshort.length_le
    have hlen' := hshort'.length_le
    have hlenUser := huser.length_le
    have hlit : (lit ":").length + (lit "!").length + (lit "@localhost NICK :").length
        + (lit "\r\n").length = 21 := by decide
    rw [nickMessage, isValidOutboundMessage_append
      (by simp +decide [hshort.clean, hshort'.clean, huser.clean]) (by decide)]
    simp only [List.length_append, maxIrcMessageSize]
    omega
  · rw [Server.heap_sendAll_of_mem hnodup (Server.mem_nickRecipients.mpr (Or.inl rfl)),
      Server.heap_modify_self, hx]
    rfl
  · intro q y hq hy hshare
    rw [Server.heap_sendAll_of_mem hnodup ((hshares q hq).mpr hshare), Server.heap_modify_ne _ _ hq, hy]
    rfl
  · intro q hq hshare
    rw [Server.heap_sendAll_of_not_mem fun hmem => hshare ((hshares q hq).mp hmem),
      Server.heap_modify_ne _ _ hq]
  · rw [Server.channels_sendAll, Server.channels_modify]
  · rw [Server.clients_sendAll, Server.clients_modify]
  · rw [Server.pollFds_sendAll, Server.pollFds_modify]
  · intro q hq
    rw [Server.identity_sendAll, Server.client_modify_ne _ _ hq]

end

end NickCommand

/-- NICK of a registered client. A nickname that is refused is answered, which changes nothing but
the output of the client. One that is taken is announced in a valid line, once to the client and
once to everybody who shares a channel with it, to nobody else, and changes nothing but the
nickname. -/
theorem nick_announced_once {s : Server} (h : Reachable s) {c : Ptr} {x : Client}
    (hx : s.heap c = some x) (hreg : x.isRegistered = true) {m : Message}
    (hm : m.handler = some .nick) :
    (∀ text, NickCommand.refusal s c m.params = some text →
      s.processMessage c m = s.sendMessage c text
      ∧ (s.processMessage c m).channels = s.channels
      ∧ (∀ q, q ≠ c → (s.processMessage c m).heap q = s.heap q)
      ∧ ((s.processMessage c m).client c).identity = x.identity)
    ∧ (NickCommand.refusal s c m.params = none → m.params.headD [] ≠ x.nickname →
        NickCommand.Renamed s (s.processMessage c m) c x (m.params.headD [])
        ∧ ∀ q y, s.heap q = some y → (q = c ∨ s.ShareChannel c q) →
          ((s.processMessage c m).client q).trace.offered
            = y.trace.offered ++ [nickMessage x (m.params.headD [])]) := by
  have hclient : s.client c = x := Server.client_of_heap hx
  have hprocess : s.processMessage c m = NickCommand.execute s c m.params :=
    s.processMessage_of_registered (by rw [hclient, hreg]) hm
  rw [hprocess]
  constructor
  · intro text hrefused
    rw [NickCommand.execute_of_refusal hrefused]
    refine ⟨rfl, rfl, fun q hq => Server.heap_modify_ne _ _ hq, ?_⟩
    rw [Server.identity_sendMessage, hclient]
  · intro hfree hne
    have hrenamed := NickCommand.renamed_of_accepted h hx hreg hfree hne.symm
    refine ⟨hrenamed, fun q y hy hq => ?_⟩
    by_cases hqc : q = c
    · subst hqc
      obtain rfl := Option.some_inj.mp (hx.symm.trans hy)
      rw [Server.client_of_heap hrenamed.client, Client.offered_sendMessage]
    · rw [Server.client_of_heap (hrenamed.told q y hqc hy (hq.resolve_left hqc)),
        Client.offered_sendMessage]

/-- Ann takes another nickname, and Bob, who is on her channel, hears of it. -/
theorem nick_announced_once_sample :
    (sample.heap 0).map Client.nickname = some (lit "ann")
      ∧ NickCommand.refusal sample 0 [lit "Anna"] = none
      ∧ ((sample.processMessage 0 { command := lit "NICK", params := [lit "Anna"] }).client
          1).trace.offered
        = (sample.client 1).trace.offered ++ [lit ":ann!a@localhost NICK :Anna\r\n"] := by
  obtain ⟨hann, hbob, hfree, hhandler⟩ :
      (sample.heap 0).map (fun x => (x.isRegistered, x.nickname, x.username))
          = some (true, lit "ann", lit "a")
      ∧ (sample.findChannel (lit "#c")).map Channel.members = some [0, 1]
      ∧ NickCommand.refusal sample 0 [lit "Anna"] = none
      ∧ Message.handler { command := lit "NICK", params := [lit "Anna"] } = some .nick := by
    decide +kernel
  obtain ⟨y, hy⟩ := Option.isSome_iff_exists.mp
    (show (sample.heap 1).isSome = true by decide +kernel)
  obtain ⟨x, hx, hidentity⟩ := Option.map_eq_some_iff.mp hann
  simp only [Prod.mk.injEq] at hidentity
  obtain ⟨hreg, hnickname, husername⟩ := hidentity
  obtain ⟨ch, hch, hmembers⟩ := Option.map_eq_some_iff.mp hbob
  have hshare : sample.ShareChannel 0 1 := by
    refine ⟨lit "#c", ch, hch, ?_, ?_⟩ <;> rw [hmembers] <;> decide
  have hne : (Message.params { command := lit "NICK", params := [lit "Anna"] }).headD []
      ≠ x.nickname := by
    rw [hnickname]
    decide
  obtain ⟨-, honce⟩ := (nick_announced_once reachable_sample hx hreg hhandler).2 hfree hne
  refine ⟨?_, hfree, ?_⟩
  · rw [hx, Option.map_some, hnickname]
  · rw [honce 1 y hy (Or.inr hshare), Server.client_of_heap hy, nickMessage, hnickname, husername]
    rfl

end FtIrc
