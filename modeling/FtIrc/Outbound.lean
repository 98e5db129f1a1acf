import FtIrc.Nicknames
import FtIrc.ParsedLine
import Mathlib.Data.Nat.Digits.Defs

/-!
# What fits on a line

`sendMessage` refuses a message that is longer than a line, or has a control byte of the framing
in it. The texts the server keeps never have one, and nicknames, usernames and channel names are
short: a server of which this is true is `Tidy`. There only the length of a message matters, and
`Answers` says of a piece of a handler when all that it sends is valid.
-/

namespace FtIrc

open Bytes

/-! ## Texts -/

/-- A text without the bytes that frame messages. -/
def Clean (text : Str) : Prop := ∀ b ∈ text, b ≠ nul ∧ b ≠ cr ∧ b ≠ lf

instance (text : Str) : Decidable (Clean text) := List.decidableBAll _ text

@[simp] theorem clean_append {a b : Str} : Clean (a ++ b) ↔ Clean a ∧ Clean b := by
  simp only [Clean, List.mem_append, or_imp, forall_and]
  tauto

@[simp] theorem clean_cons {b : Byte} {l : Str} :
    Clean (b :: l) ↔ (b ≠ nul ∧ b ≠ cr ∧ b ≠ lf) ∧ Clean l := by
  simp only [Clean, List.forall_mem_cons]

@[simp] theorem clean_nil : Clean [] := fun _ h => absurd h List.not_mem_nil

theorem Clean.of_mem {text part : Str} (h : Clean text) (hsub : ∀ b ∈ part, b ∈ text) :
    Clean part := fun b hb => h b (hsub b hb)

/-- A digit is the same number as a character and as a byte. -/
theorem toNat_ch_of_isDigit {c : Char} (h : c.isDigit = true) :
    (ch c).toNat = c.toNat ∧ 48 ≤ c.toNat ∧ c.toNat ≤ 57 := by
  simp only [Char.isDigit, ge_iff_le, Bool.and_eq_true, decide_eq_true_eq, UInt32.le_iff_toNat_le] at h
  have hlow : 48 ≤ c.toNat := h.1
  have hhigh : c.toNat ≤ 57 := h.2
  refine ⟨?_, hlow, hhigh⟩
  show (c.toNat.toUInt8).toNat = c.toNat
  rw [Nat.toUInt8, UInt8.toNat_ofNat']
  omega

/-- The bytes of a number are digits. -/
theorem digit_of_mem_decimal {n : ℕ} {b : Byte} (hb : b ∈ decimal n) :
    48 ≤ b.toNat ∧ b.toNat ≤ 57 := by
  obtain ⟨c, hc, rfl⟩ := List.mem_map.mp hb
  have hdigit := toNat_ch_of_isDigit (Nat.isDigit_of_mem_toDigits (by omega) (by omega) hc)
  omega

/-- A written number is the number. -/
theorem numeral_decimal (n : ℕ) : numeral (decimal n) = n := by
  have hdigits : ∀ (cs : List Char) (k : ℕ), (∀ c ∈ cs, c.isDigit = true) →
      (cs.map fun c => ch c).foldl appendDigit k = Nat.ofDigitChars 10 cs k := by
    intro cs
    induction cs with
    | nil => exact fun k _ => Nat.ofDigitChars_nil.symm
    | cons c cs ih =>
      intro k hcs
      obtain ⟨hc, hrest⟩ := List.forall_mem_cons.mp hcs
      rw [List.map_cons, List.foldl_cons, ih _ hrest, Nat.ofDigitChars_cons, appendDigit,
        (toNat_ch_of_isDigit hc).1]
      rfl
  rw [numeral, decimal, hdigits _ 0 fun c hc => Nat.isDigit_of_mem_toDigits (by omega) (by omega) hc]
  exact Nat.ofDigitChars_ten_toDigits

theorem clean_decimal (n : ℕ) : Clean (decimal n) := by
  intro b hb
  have hdigit := digit_of_mem_decimal hb
  refine ⟨?_, ?_, ?_⟩ <;> intro heq <;> rw [heq] at hdigit <;>
    simp only [nul, cr, lf, UInt8.reduceToNat] at hdigit <;> omega

theorem length_decimal_le {n : ℕ} (h : n < 2 ^ 32) : (decimal n).length ≤ 10 := by
  rw [decimal, List.length_map]
  exact Nat.toDigits_length 10 n 10 (by omega) (by omega)

/-- Of what is put in front of the end of a message, and has no control byte, only the length
matters. -/
theorem isValidOutboundMessage_append {head tail : Str} (hhead : Clean head)
    (htail : isValidOutboundMessage tail = true) :
    isValidOutboundMessage (head ++ tail) = true ↔ head.length + tail.length ≤ maxIrcMessageSize := by
  unfold isValidOutboundMessage at htail ⊢
  split_ifs at htail with hsize hend
  simp only [Bool.or_eq_true, List.isEmpty_iff, decide_eq_true_eq, not_or, bne_iff_ne, ne_eq,
    Decidable.not_not] at hsize hend
  have hlen : (head ++ tail).length - 2 = head.length + (tail.length - 2) := by
    rw [List.length_append]
    omega
  have hdrop : (head ++ tail).drop ((head ++ tail).length - 2) = [cr, lf] := by
    rw [hlen, List.drop_append, List.drop_of_length_le (by omega), List.nil_append,
      Nat.add_sub_cancel_left, hend.2]
  have htake : (head ++ tail).take ((head ++ tail).length - 2) = head ++ tail.take (tail.length - 2) := by
    rw [hlen, List.take_length_add_append]
  have hall : (head.all fun b => b != nul && b != cr && b != lf) = true := by
    refine List.all_eq_true.mpr fun b hb => ?_
    obtain ⟨hnul, hcr, hlf⟩ := hhead b hb
    simp only [bne_iff_ne, Bool.and_eq_true]
    exact ⟨⟨hnul, hcr⟩, hlf⟩
  rw [hdrop, htake, List.all_append, hall, htail]
  simp only [List.length_append]
  have hne : head ++ tail ≠ [] := List.append_ne_nil_of_right_ne_nil _ hsize.1
  by_cases hfits : head.length + tail.length ≤ maxIrcMessageSize
  · have hshort : ¬ head.length + tail.length > maxIrcMessageSize := by omega
    have htwo : ¬ head.length + tail.length < 2 := by omega
    simp [hne, hfits, hshort, htwo]
  · have hlong : head.length + tail.length > maxIrcMessageSize := by omega
    simp [hfits, hlong]

/-- A text without control bytes, of at most `n` bytes. -/
structure Short (n : ℕ) (text : Str) : Prop where
  clean : Clean text
  length_le : text.length ≤ n

theorem short_nil (n : ℕ) : Short n [] := ⟨clean_nil, Nat.zero_le n⟩

theorem short_of_isValidNickname {n : Str} (h : NickCommand.isValidNickname n = true) :
    Short 9 n := by
  refine ⟨fun b hb => ?_, ?_⟩
  · have hmem := mem_of_isValidNickname h b hb
    exact ⟨fun heq => absurd (heq ▸ hmem) (by decide), fun heq => absurd (heq ▸ hmem) (by decide),
      fun heq => absurd (heq ▸ hmem) (by decide)⟩
  · cases n with
    | nil => exact Nat.zero_le 9
    | cons first rest =>
      simp only [NickCommand.isValidNickname, Bool.and_eq_true, decide_eq_true_eq] at h
      exact h.1.1

theorem short_of_isValidUsername {u : Str} (h : UserCommand.isValidUsername u = true) :
    Short 32 u := by
  simp only [UserCommand.isValidUsername, Bool.and_eq_true, decide_eq_true_eq, List.all_eq_true,
    bne_iff_ne] at h
  exact ⟨fun b hb => ⟨(h.2 b hb).1.1.2, (h.2 b hb).1.2, (h.2 b hb).2⟩, h.1.2⟩

theorem length_le_of_isValidChannelName {name : Str}
    (h : JoinCommand.isValidChannelName name = true) : name.length ≤ 50 := by
  cases name with
  | nil => exact Nat.zero_le 50
  | cons first rest =>
    simp only [JoinCommand.isValidChannelName, Bool.and_eq_true, decide_eq_true_eq] at h
    exact h.1.1

/-- A condition on what is found and on what is missing. -/
theorem missing_iff {α : Type} {A : Prop} {P : α → Prop} :
    (((none : Option α) = none → A) ∧ ∀ a ∈ (none : Option α), P a) ↔ A :=
  ⟨fun h => h.1 rfl, fun h => ⟨fun _ => h, fun _ hnone => absurd hnone (Option.not_mem_none _)⟩⟩

theorem found_iff {α : Type} {a : α} {A : Prop} {P : α → Prop} :
    ((some a = none → A) ∧ ∀ b ∈ some a, P b) ↔ P a :=
  ⟨fun h => h.2 a rfl, fun h => ⟨fun hnone => absurd hnone (Option.some_ne_none a), fun b hb => by
    rwa [← Option.some_inj.mp (Option.mem_def.mp hb)]⟩⟩

/-! ## Tidy servers -/

/-- The texts of a channel. -/
structure ChannelTexts (name : Str) (ch : Channel) : Prop where
  name_eq : ch.name = name
  name : Short 50 name
  topic : Clean ch.topic
  password : Clean ch.password
  userLimit : ch.userLimit < 2 ^ 32

namespace ChannelTexts

variable {name : Str} {ch : Channel} (h : ChannelTexts name ch) (p : Ptr)
include h

theorem addMember : ChannelTexts name (ch.addMember p) := by
  unfold Channel.addMember
  split_ifs
  · exact ⟨h.name_eq, h.name, h.topic, h.password, h.userLimit⟩
  · exact h

theorem removeMember : ChannelTexts name (ch.removeMember p) := by
  rw [Channel.removeMember_eq]
  exact ⟨h.name_eq, h.name, h.topic, h.password, h.userLimit⟩

theorem addOperator : ChannelTexts name (ch.addOperator p) := by
  unfold Channel.addOperator
  split_ifs
  · exact ⟨h.name_eq, h.name, h.topic, h.password, h.userLimit⟩
  · exact h

theorem removeOperator : ChannelTexts name (ch.removeOperator p) :=
  ⟨h.name_eq, h.name, h.topic, h.password, h.userLimit⟩

theorem addInvited : ChannelTexts name (ch.addInvited p) := by
  unfold Channel.addInvited
  split_ifs
  · exact ⟨h.name_eq, h.name, h.topic, h.password, h.userLimit⟩
  · exact h

theorem removeInvited : ChannelTexts name (ch.removeInvited p) :=
  ⟨h.name_eq, h.name, h.topic, h.password, h.userLimit⟩

theorem clean_activeModes : Clean (ModeCommand.activeModes ch) := by
  unfold ModeCommand.activeModes
  dsimp only
  split_ifs <;> simp +decide [h.password, clean_decimal]

end ChannelTexts

/-- The texts the server keeps have no control bytes and names are short, and its clients and the
members of its channels are there. -/
structure Server.Tidy (s : Server) : Prop where
  nickname : ∀ p, Short 9 (s.nickname p)
  username : ∀ p, Short 32 (s.username p)
  texts : ∀ name ch, s.findChannel name = some ch → ChannelTexts name ch
  allocated : ∀ name ch, s.findChannel name = some ch → ∀ p ∈ ch.members, s.Allocated p
  connected : ∀ fd p, s.clients.find? fd = some p → s.Allocated p

/-- Every message that a client of the server has been offered so far is valid. -/
def Server.OffersValid (s : Server) : Prop :=
  ∀ p x, s.heap p = some x → ∀ text ∈ x.trace.offered, isValidOutboundMessage text = true

namespace Server

variable {s t : Server} {p c : Ptr}

/-! ## What has been offered -/

theorem offersValid_modify {f : Client → Client}
    (hf : ∀ x, s.heap p = some x → (f x).trace.offered = x.trace.offered) :
    (s.modify p f).OffersValid ↔ s.OffersValid := by
  constructor
  · intro h q x hx text htext
    by_cases hq : q = p
    · subst hq
      exact h q (f x) (by rw [heap_modify_self, hx, Option.map_some]) text (by rwa [hf x hx])
    · exact h q x (by rwa [heap_modify_ne _ _ hq]) text htext
  · intro h
    refine forall_modify (Q := fun _ x => ∀ text ∈ x.trace.offered, isValidOutboundMessage text = true)
      h fun x hx text htext => ?_
    rw [hf x hx] at htext
    exact h p x hx text htext

theorem offersValid_sendMessage {text : Str} :
    (s.sendMessage p text).OffersValid
      ↔ s.OffersValid ∧ (s.Allocated p → isValidOutboundMessage text = true) := by
  constructor
  · intro h
    have hsent : ∀ x, s.heap p = some x → ∀ text' ∈ x.trace.offered ++ [text],
        isValidOutboundMessage text' = true := by
      intro x hx text' htext'
      refine h p (x.sendMessage text) ?_ text' (by rwa [Client.offered_sendMessage])
      rw [sendMessage, heap_modify_self, hx, Option.map_some]
    refine ⟨fun q x hx text' htext' => ?_, fun hp => ?_⟩
    · by_cases hq : q = p
      · exact hsent x (hq ▸ hx) text' (List.mem_append_left _ htext')
      · exact h q x (by rwa [sendMessage, heap_modify_ne _ _ hq]) text' htext'
    · obtain ⟨x, hx⟩ := Option.isSome_iff_exists.mp hp
      exact hsent x hx text (List.mem_append_right _ (List.mem_singleton_self text))
  · rintro ⟨h, hvalid⟩
    refine forall_modify (Q := fun _ x => ∀ text ∈ x.trace.offered, isValidOutboundMessage text = true)
      h fun x hx text' htext' => ?_
    rw [Client.offered_sendMessage, List.mem_append, List.mem_singleton] at htext'
    rcases htext' with htext' | rfl
    · exact h p x hx text' htext'
    · exact hvalid (by rw [Allocated, hx, Option.isSome_some])

theorem offersValid_sendAll {ps : List Ptr} {text : Str} :
    (s.sendAll ps text).OffersValid
      ↔ s.OffersValid ∧ ((∃ p ∈ ps, s.Allocated p) → isValidOutboundMessage text = true) := by
  induction ps generalizing s with
  | nil => simp [sendAll]
  | cons p ps ih =>
    have hrest := ih (s := s.sendMessage p text)
    simp only [offersValid_sendMessage, Allocated, isSome_heap_sendMessage] at hrest
    rw [show s.sendAll (p :: ps) text = (s.sendMessage p text).sendAll ps text from rfl, hrest]
    simp only [Allocated, List.exists_mem_cons_iff, or_imp, and_assoc]

/-- Sending to some clients leaves the others alone. -/
theorem heap_sendAll_of_not_mem {ps : List Ptr} {text : Str} (hp : p ∉ ps) :
    (s.sendAll ps text).heap p = s.heap p := by
  unfold sendAll
  induction ps generalizing s with
  | nil => rfl
  | cons q ps ih =>
    rw [List.mem_cons, not_or] at hp
    rw [List.foldl_cons, ih hp.2, sendMessage, heap_modify_ne _ _ hp.1]

/-- Each of the recipients is sent the message once. -/
theorem heap_sendAll_of_mem {ps : List Ptr} {text : Str} (hnodup : ps.Nodup) (hp : p ∈ ps) :
    (s.sendAll ps text).heap p = (s.heap p).map (·.sendMessage text) := by
  induction ps generalizing s with
  | nil => exact absurd hp List.not_mem_nil
  | cons q ps ih =>
    obtain ⟨hq, hnodup⟩ := List.nodup_cons.mp hnodup
    have hcons : s.sendAll (q :: ps) text = (s.sendMessage q text).sendAll ps text := rfl
    rw [hcons]
    rcases List.mem_cons.mp hp with rfl | hrest
    · rw [heap_sendAll_of_not_mem hq, sendMessage, heap_modify_self]
    · rw [ih hnodup hrest, sendMessage, heap_modify_ne]
      exact fun heq => hq (heq ▸ hrest)

/-! ## Pieces of a handler -/

/-- From the state `s` a piece of a handler has come to `t`; what it has sent on the way is valid
exactly if `fits`. -/
structure Answers (s t : Server) (fits : Prop) : Prop where
  tidy : t.Tidy
  allocated : ∀ p, s.Allocated p → t.Allocated p
  offersValid : t.OffersValid ↔ s.OffersValid ∧ fits

namespace Answers

variable {u : Server} {f g : Prop}

theorem refl (hs : s.Tidy) : Answers s s True := ⟨hs, fun _ h => h, (and_iff_left trivial).symm⟩

theorem trans (h : Answers s t f) (h' : Answers t u g) : Answers s u (f ∧ g) :=
  ⟨h'.tidy, fun p hp => h'.allocated p (h.allocated p hp), by
    rw [h'.offersValid, h.offersValid, and_assoc]⟩

theorem congr (h : Answers s t f) (hfg : f ↔ g) : Answers s t g :=
  ⟨h.tidy, h.allocated, by rw [h.offersValid, hfg]⟩

/-- What fits anyway need not be looked at. -/
theorem silent (h : Answers s t f) (hf : f) : Answers s t True := h.congr (iff_true_intro hf)

/-- A piece that always fits, and one behind it. -/
theorem andThen (h : Answers s t True) (h' : Answers t u g) : Answers s u g :=
  (h.trans h').congr (and_iff_right trivial)

end Answers

namespace Tidy

variable (hs : s.Tidy)
include hs

theorem of_same (hnickname : ∀ p, t.nickname p = s.nickname p)
    (husername : ∀ p, t.username p = s.username p) (hchannels : t.channels = s.channels)
    (hclients : t.clients = s.clients)
    (hallocated : ∀ p, s.Allocated p → t.Allocated p) : t.Tidy where
  nickname p := by
    rw [hnickname]
    exact hs.nickname p
  username p := by
    rw [husername]
    exact hs.username p
  texts name ch hch := hs.texts name ch (by rwa [findChannel, ← hchannels])
  allocated name ch hch p hp :=
    hallocated p (hs.allocated name ch (by rwa [findChannel, ← hchannels]) p hp)
  connected fd p hp := hallocated p (hs.connected fd p (hclients ▸ hp))

/-- A message to one client. -/
theorem tell {head tail : Str} (hp : s.Allocated p) (hhead : Clean head)
    (htail : isValidOutboundMessage tail = true) {n : ℕ} (hn : head.length + tail.length = n) :
    Answers s (s.sendMessage p (head ++ tail)) (n ≤ 512) := by
  have halloc : ∀ q, s.Allocated q → (s.sendMessage p (head ++ tail)).Allocated q := fun q hq => by
    rwa [Allocated, isSome_heap_sendMessage]
  refine ⟨hs.of_same (fun q => nickname_sendMessage ..) (fun q => username_sendMessage ..) rfl rfl
    halloc,
    halloc, ?_⟩
  rw [offersValid_sendMessage, isValidOutboundMessage_append hhead htail, hn]
  exact and_congr_right fun _ => ⟨fun h => h hp, fun h _ => h⟩

/-- A message to one client, if there is a reason for it. -/
theorem tellIf (b : Bool) {head tail : Str} (hp : s.Allocated p) (hhead : Clean head)
    (htail : isValidOutboundMessage tail = true) {n : ℕ} (hn : head.length + tail.length = n) :
    Answers s (if b then s.sendMessage p (head ++ tail) else s) (b = true → n ≤ 512) := by
  cases b with
  | false => exact (Answers.refl hs).congr (iff_of_true trivial fun h => absurd h Bool.false_ne_true)
  | true => exact (hs.tell hp hhead htail hn).congr ⟨fun h _ => h, fun h => h rfl⟩

/-- A numeric with one detail. -/
theorem numeric {a z : String} {detail : Str} (hc : s.Allocated c) (ha : Clean (lit a))
    (hz : isValidOutboundMessage (lit z) = true) (hdetail : Clean detail)
    (h12 : (lit a).length = 12) {j : ℕ} (hj : (lit z).length = j) :
    Answers s (s.sendMessage c (lit a ++ s.nickname c ++ lit " " ++ detail ++ lit z))
      (12 + (s.nickname c).length + 1 + detail.length + j ≤ 512) := by
  refine hs.tell hc ?_ hz ?_
  · simp +decide only [clean_append, ha, (hs.nickname c).clean, hdetail, and_self]
  · simp only [List.length_append, h12, hj]
    rfl

/-- A message to some clients. -/
theorem tellAll {ps : List Ptr} {head tail : Str} (hhead : Clean head)
    (htail : isValidOutboundMessage tail = true) {n : ℕ} (hn : head.length + tail.length = n) :
    Answers s (s.sendAll ps (head ++ tail)) ((∃ p ∈ ps, s.Allocated p) → n ≤ 512) := by
  have halloc : ∀ q, s.Allocated q → (s.sendAll ps (head ++ tail)).Allocated q := fun q hq => by
    rwa [Allocated, isSome_heap_sendAll]
  refine ⟨hs.of_same (fun q => nickname_sendAll ..) (fun q => username_sendAll ..)
    (channels_sendAll ..) (clients_sendAll ..) halloc, halloc, ?_⟩
  rw [offersValid_sendAll, isValidOutboundMessage_append hhead htail, hn]
  exact Iff.rfl

/-- A message to the members of a channel and to the client itself. -/
theorem tellChannel (ch : Channel) {head tail : Str} (hp : s.Allocated p) (hhead : Clean head)
    (htail : isValidOutboundMessage tail = true) {n : ℕ} (hn : head.length + tail.length = n) :
    Answers s ((s.broadcastMessage ch (head ++ tail) (some p)).sendMessage p (head ++ tail))
      (n ≤ 512) := by
  have hall : Answers s (s.broadcastMessage ch (head ++ tail) (some p)) _ :=
    hs.tellAll hhead htail hn
  refine (hall.trans (hall.tidy.tell (hall.allocated p hp) hhead htail hn)).congr ?_
  exact ⟨fun h => h.2, fun h => ⟨fun _ => h, h⟩⟩

/-- A client changes without being sent anything. -/
theorem modify {f : Client → Client} (hf : ∀ x, s.heap p = some x →
      (f x).trace.offered = x.trace.offered ∧ Short 9 (f x).nickname ∧ Short 32 (f x).username) :
    Answers s (s.modify p f) True := by
  have hclient : ∀ q, (s.modify p f).client q = s.client q
      ∨ ∃ x, s.heap p = some x ∧ (s.modify p f).client q = f x := by
    intro q
    by_cases hq : q = p
    · subst hq
      cases hx : s.heap q with
      | none =>
        refine Or.inl ?_
        rw [client, client, heap_modify_self, hx, Option.map_none]
      | some x => exact Or.inr ⟨x, rfl, client_modify_self f hx⟩
    · exact Or.inl (client_modify_ne _ _ hq)
  have halloc : ∀ q, s.Allocated q → (s.modify p f).Allocated q := fun q hq => by
    rwa [Allocated, isSome_heap_modify]
  refine ⟨⟨fun q => ?_, fun q => ?_, hs.texts,
    fun name ch hch q hq => halloc q (hs.allocated name ch hch q hq),
    fun fd q hq => halloc q (hs.connected fd q hq)⟩, halloc, ?_⟩
  · rw [Server.nickname]
    rcases hclient q with heq | ⟨x, hx, heq⟩ <;> rw [heq]
    · exact hs.nickname q
    · exact (hf x hx).2.1
  · rw [Server.username]
    rcases hclient q with heq | ⟨x, hx, heq⟩ <;> rw [heq]
    · exact hs.username q
    · exact (hf x hx).2.2
  · rw [offersValid_modify fun x hx => (hf x hx).1, and_iff_left trivial]

/-- A client changes, but not who it is. -/
theorem modify_of_identity {f : Client → Client}
    (hoffered : ∀ x, (f x).trace.offered = x.trace.offered)
    (hidentity : ∀ x, (f x).nickname = x.nickname ∧ (f x).username = x.username) :
    Answers s (s.modify p f) True := by
  refine hs.modify fun x hx => ⟨hoffered x, ?_, ?_⟩
  · have hnick := hs.nickname p
    rw [Server.nickname, client_of_heap hx] at hnick
    rwa [(hidentity x).1]
  · have huser := hs.username p
    rw [Server.username, client_of_heap hx] at huser
    rwa [(hidentity x).2]

/-- Other channels, nothing sent. -/
theorem withChannels {channels : OrdMap Str Channel}
    (htexts : ∀ name ch, channels.find? name = some ch →
      ChannelTexts name ch ∧ ∀ p ∈ ch.members, s.Allocated p) :
    Answers s { s with channels := channels } True :=
  ⟨⟨hs.nickname, hs.username, fun name ch hch => (htexts name ch hch).1,
    fun name ch hch => (htexts name ch hch).2, hs.connected⟩, fun _ h => h, (and_iff_left trivial).symm⟩

/-- A channel changes. -/
theorem modifyChannel {n : Str} {f : Channel → Channel}
    (hf : ∀ ch, s.findChannel n = some ch → ChannelTexts n ch →
      ChannelTexts n (f ch) ∧ ∀ p ∈ (f ch).members, p ∈ ch.members ∨ s.Allocated p) :
    Answers s (s.modifyChannel n f) True := by
  refine hs.withChannels fun name ch' hch' => ?_
  rw [OrdMap.find?_modify] at hch'
  split_ifs at hch' with hn
  · rw [hn] at hch' ⊢
    obtain ⟨ch, hch, rfl⟩ := Option.map_eq_some_iff.mp hch'
    obtain ⟨htexts, hmembers⟩ := hf ch hch (hs.texts n ch hch)
    exact ⟨htexts, fun p hp => (hmembers p hp).elim (hs.allocated n ch hch p) id⟩
  · exact ⟨hs.texts name ch' hch', hs.allocated name ch' hch'⟩

theorem removeChannel (name : Str) : Answers s (s.removeChannel name) True := by
  refine hs.withChannels fun n ch hch => ?_
  rw [OrdMap.find?_erase] at hch
  split_ifs at hch
  exact ⟨hs.texts n ch hch, hs.allocated n ch hch⟩

/-! ## Names in messages -/

theorem clean_userPrefix (c : Ptr) : Clean (userPrefix s c) := by
  simp +decide [userPrefix, (hs.nickname c).clean, (hs.username c).clean]

omit hs in
theorem length_userPrefix (s : Server) (c : Ptr) :
    (userPrefix s c).length = 1 + (s.nickname c).length + 1 + (s.username c).length + 10 := by
  simp only [userPrefix, List.length_append]
  rfl

/-- A nickname that is found is short, however it is spelled. -/
theorem length_le_of_found {nick : Str} (h : s.findClientByNick nick = some p) :
    nick.length ≤ 9 ∧ s.Allocated p := by
  obtain ⟨_, _, hnick, fd, hfd⟩ := findClientByNick_eq_some h
  have hlen := congrArg List.length hnick
  rw [toIrcLowerCase, toIrcLowerCase, List.length_map, List.length_map] at hlen
  exact ⟨hlen ▸ (hs.nickname p).length_le, hs.connected fd p hfd⟩

theorem short_displayName (c : Ptr) : Short 9 (displayName (s.client c)) := by
  unfold displayName
  split_ifs
  · exact ⟨by decide, by decide⟩
  · exact hs.nickname c

end Tidy

/-! ## The recipients over all channels -/

theorem mem_collect {rs ms : List Ptr} {q : Ptr} : q ∈ collect rs ms ↔ q ∈ rs ∨ q ∈ ms := by
  unfold collect
  induction ms generalizing rs with
  | nil => simp
  | cons p ms ih =>
    rw [List.foldl_cons, ih, List.mem_cons]
    split_ifs with hp
    · exact ⟨fun h => h.imp_right Or.inr, fun h => h.elim Or.inl
        fun h => h.elim (fun heq => Or.inl (heq ▸ hp)) Or.inr⟩
    · rw [List.mem_append, List.mem_singleton, or_assoc]

theorem nodup_collect {rs ms : List Ptr} (h : rs.Nodup) : (collect rs ms).Nodup := by
  unfold collect
  induction ms generalizing rs with
  | nil => exact h
  | cons p ms ih =>
    rw [List.foldl_cons]
    split_ifs with hp
    · exact ih h
    · exact ih (List.nodup_append_comm.mpr (List.nodup_cons.mpr ⟨hp, h⟩))

/-- Who is collected from the channels of a client. -/
theorem mem_foldl_collect (select : Channel → List Ptr) {es : List (Str × Channel)}
    {rs : List Ptr} {q : Ptr} :
    q ∈ es.foldl (fun rs e => if e.2.isMember p then collect rs (select e.2) else rs) rs
      ↔ q ∈ rs ∨ ∃ e ∈ es, p ∈ e.2.members ∧ q ∈ select e.2 := by
  induction es generalizing rs with
  | nil => simp
  | cons e es ih =>
    rw [List.foldl_cons, ih, List.exists_mem_cons_iff]
    by_cases hp : p ∈ e.2.members
    · rw [if_pos ((Channel.isMember_iff _ _).mpr hp), mem_collect]
      tauto
    · rw [if_neg fun h => hp ((Channel.isMember_iff _ _).mp h)]
      tauto

/-- Nobody is collected twice. -/
theorem nodup_foldl_collect (select : Channel → List Ptr) {es : List (Str × Channel)}
    {rs : List Ptr} (h : rs.Nodup) :
    (es.foldl (fun rs e => if e.2.isMember p then collect rs (select e.2) else rs) rs).Nodup := by
  induction es generalizing rs with
  | nil => exact h
  | cons e es ih =>
    rw [List.foldl_cons]
    split_ifs
    · exact ih (nodup_collect h)
    · exact ih h

/-- The recipients of a QUIT line share a channel with the client. -/
theorem mem_quitRecipients {q : Ptr} : q ∈ s.quitRecipients p ↔
    q ≠ p ∧ ∃ name ch, s.findChannel name = some ch ∧ p ∈ ch.members ∧ q ∈ ch.members := by
  rw [quitRecipients, mem_foldl_collect fun ch => ch.members.filter (· != p)]
  simp only [List.not_mem_nil, false_or, List.mem_filter, bne_iff_ne]
  constructor
  · rintro ⟨e, he, hp, hq, hne⟩
    exact ⟨hne, e.1, e.2, OrdMap.find?_eq_some.mpr he, hp, hq⟩
  · rintro ⟨hne, name, ch, hch, hp, hq⟩
    exact ⟨(name, ch), OrdMap.find?_eq_some.mp hch, hp, hq, hne⟩

theorem nodup_quitRecipients (s : Server) (p : Ptr) : (s.quitRecipients p).Nodup :=
  nodup_foldl_collect (fun ch => ch.members.filter (· != p)) List.nodup_nil

/-- The recipients of a NICK line are the client and all who share a channel with it. -/
theorem mem_nickRecipients {q : Ptr} : q ∈ s.nickRecipients p ↔
    q = p ∨ ∃ name ch, s.findChannel name = some ch ∧ p ∈ ch.members ∧ q ∈ ch.members := by
  rw [nickRecipients, mem_foldl_collect Channel.members, List.mem_singleton]
  refine or_congr_right ⟨?_, ?_⟩
  · rintro ⟨e, he, hp, hq⟩
    exact ⟨e.1, e.2, OrdMap.find?_eq_some.mpr he, hp, hq⟩
  · rintro ⟨name, ch, hch, hp, hq⟩
    exact ⟨(name, ch), OrdMap.find?_eq_some.mp hch, hp, hq⟩

theorem nodup_nickRecipients (s : Server) (p : Ptr) : (s.nickRecipients p).Nodup :=
  nodup_foldl_collect Channel.members (List.nodup_singleton p)

end Server

end FtIrc
