import FtIrc.Alike

/-!
# Another key

Two servers that differ in the key of one channel, and a client that is not in it. Every line of
the client leaves them so, and tells everybody the same in both, if the keys are none it offers
and it does not ask for the modes of the channel.
-/

namespace FtIrc

open Bytes

/-- The key of a channel is replaced. -/
def Server.rekey (s : Server) (name key : Str) : Server :=
  s.modifyChannel name fun ch => { ch with password := key }

/-- `t` is `s` with another key on the channel `ch`, which is stored under `name`. -/
structure Rekeyed (name key : Str) (ch : Channel) (s t : Server) : Prop where
  eq : t = s.rekey name key
  found : s.findChannel name = some ch
  named : ∀ n ch, s.findChannel n = some ch → ch.name = n

namespace Rekeyed

section

variable {name key n : Str} {ch : Channel} {s t : Server} (h : Rekeyed name key ch s t)
include h

/-! ## What is read -/

/-- All clients are the same. -/
theorem client (p : Ptr) : t.client p = s.client p := by
  rw [h.eq]
  rfl

theorem password : t.password = s.password := by
  rw [h.eq]
  rfl

theorem nickname (p : Ptr) : t.nickname p = s.nickname p :=
  congrArg Client.nickname (h.client p)

theorem username (p : Ptr) : t.username p = s.username p :=
  congrArg Client.username (h.client p)

/-- So the same client is found by a nickname. -/
theorem findClientByNick (nick : Str) : t.findClientByNick nick = s.findClientByNick nick := by
  rw [h.eq]
  rfl

/-- The channels have the same names. -/
theorem keys : t.channels.keys = s.channels.keys := by
  rw [h.eq]
  exact OrdMap.keys_modify ..

/-- The other channels are the same. -/
theorem findChannel_ne (hn : n ≠ name) : t.findChannel n = s.findChannel n := by
  rw [h.eq]
  exact OrdMap.find?_modify_ne _ _ hn

/-- The channel has the other key. -/
theorem found' : t.findChannel name = some { ch with password := key } := by
  rw [h.eq, Server.findChannel, Server.rekey, Server.modifyChannel, OrdMap.find?_modify_self,
    ← Server.findChannel, h.found, Option.map_some]

/-- The recipients of a NICK depend on the members only. -/
theorem nickRecipients (p : Ptr) : t.nickRecipients p = s.nickRecipients p := by
  rw [h.eq]
  unfold Server.nickRecipients
  show (s.channels.entries.map _).foldl _ _ = _
  rw [List.foldl_map]
  congr 1
  funext rs e
  by_cases he : e.1 = name
  · rw [if_pos he]
    rfl
  · rw [if_neg he]

/-! ## What is written -/

/-- A change of a client. -/
theorem modify (p : Ptr) (f : Client → Client) :
    Rekeyed name key ch (s.modify p f) (t.modify p f) := by
  refine ⟨?_, h.found, h.named⟩
  rw [h.eq]
  rfl

/-- Another channel changes. -/
theorem modifyChannel (hn : n ≠ name) {f : Channel → Channel} (hf : ∀ ch, (f ch).name = ch.name) :
    Rekeyed name key ch (s.modifyChannel n f) (t.modifyChannel n f) := by
  refine ⟨?_, ?_, fun i other hother => ?_⟩
  · rw [h.eq]
    simp only [Server.rekey, Server.modifyChannel, OrdMap.modify_modify_ne _ _ _ hn]
  · rw [← h.found]
    exact OrdMap.find?_modify_ne _ _ hn.symm
  · rw [Server.findChannel, Server.modifyChannel, OrdMap.find?_modify] at hother
    split_ifs at hother
    · obtain ⟨ch₀, hch₀, rfl⟩ := Option.map_eq_some_iff.mp hother
      rw [hf]
      exact h.named i ch₀ hch₀
    · exact h.named i other hother

/-- Another channel is removed. -/
theorem removeChannel (hn : n ≠ name) :
    Rekeyed name key ch (s.removeChannel n) (t.removeChannel n) := by
  refine ⟨?_, ?_, fun i other hother => ?_⟩
  · rw [h.eq]
    simp only [Server.rekey, Server.modifyChannel, Server.removeChannel,
      OrdMap.erase_modify_ne _ _ hn]
  · rw [Server.findChannel_removeChannel, if_neg hn.symm, h.found]
  · rw [Server.findChannel_removeChannel] at hother
    split_ifs at hother
    exact h.named i other hother

/-- Another channel is created. -/
theorem createChannel (hn : n ≠ name) :
    Rekeyed name key ch (s.createChannel n) (t.createChannel n) := by
  rw [Server.createChannel, Server.createChannel, h.findChannel_ne hn]
  split
  · exact h
  refine ⟨?_, ?_, fun i other hother => ?_⟩
  · rw [h.eq]
    simp only [Server.rekey, Server.modifyChannel, OrdMap.insert_modify_ne _ _ _ hn]
  · rw [← h.found]
    exact OrdMap.find?_insert_ne _ _ hn.symm
  · rw [Server.findChannel, OrdMap.find?_insert] at hother
    split_ifs at hother with hi
    · rw [← Option.some_inj.mp hother, hi]
    · exact h.named i other hother

end

variable {name key : Str} {ch : Channel} {s t : Server} {c : Ptr}

/-- A client that is not in the channel cannot tell the keys apart, unless it offers one of them. -/
theorem likeness (hwf : ch.Wf) (hout : c ∉ ch.members) (hlocked : ch.password ≠ []) (hkey : key ≠ []) :
    Likeness c (· ≠ name) (fun offered => offered ≠ ch.password ∧ offered ≠ key)
      (Rekeyed name key ch) where
  password h := h.password
  nickname h := h.nickname
  username h := h.username
  identity h := by rw [h.client]
  findClientByNick h := h.findClientByNick
  nickRecipients h := h.nickRecipients
  keys h := h.keys
  findChannel h _ hn := h.findChannel_ne hn
  named h n other hn hother := by rwa [h.named n other hother]
  shut h n hn := by
    obtain rfl := not_not.mp hn
    have hpowerless : c ∉ ch.operators := fun hop => hout (hwf.operators_sub c hop)
    exact ⟨ch, _, h.found, h.found', ⟨hout, hpowerless, hlocked, fun _ hoffered => hoffered.1⟩,
      ⟨hout, hpowerless, hkey, fun _ hoffered => hoffered.2⟩⟩
  sendMessage h p text := h.modify p _
  modify h f _ := h.modify c f
  modifyChannel h _ hn _ hf := h.modifyChannel hn hf
  removeChannel h _ hn := h.removeChannel hn
  createChannel h _ hn := h.createChannel hn

/-- A line that offers neither key and is not the query. -/
theorem processMessage (h : Rekeyed name key ch s t) (hwf : ch.Wf) (hout : c ∉ ch.members)
    (hlocked : ch.password ≠ []) (hkey : key ≠ []) {m : Message}
    (hkeys : m.handler = some .join → ch.password ∉ m.keys ∧ key ∉ m.keys)
    (hquery : m.handler = some .mode → m.params ≠ [name]) :
    Rekeyed name key ch (s.processMessage c m) (t.processMessage c m) := by
  refine (likeness hwf hout hlocked hkey).processMessage h (fun hjoin offered hoffered => ?_)
    fun hmode n hparams => ?_
  · obtain ⟨hold, hnew⟩ := hkeys hjoin
    exact ⟨fun heq => hold (heq ▸ hoffered), fun heq => hnew (heq ▸ hoffered)⟩
  · rintro rfl
    exact hquery hmode hparams

end Rekeyed

end FtIrc
