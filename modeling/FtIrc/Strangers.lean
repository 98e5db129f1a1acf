import FtIrc.Alike
import FtIrc.Registration

/-!
# Clients that never pass

A client that has not sent the password is a stranger: it has no name, and nobody can refer to
it. The server with a stranger and the server without it, `Server.hide`, do the same for everybody
else, event by event.
-/

namespace FtIrc

open Bytes

/-- The client has not passed, and has no names. -/
structure Client.Anonymous (x : Client) : Prop where
  passOk : x.passOk = false
  nickname : x.nickname = []
  username : x.username = []

namespace Client.Anonymous

variable {x y : Client}

theorem of_identity (h : x.Anonymous) (heq : y.identity = x.identity) : y.Anonymous :=
  ⟨(congrArg Identity.passOk heq).trans h.passOk, (nickname_of_identity heq).trans h.nickname,
    (congrArg Identity.username heq).trans h.username⟩

theorem not_registered (h : x.Anonymous) : x.isRegistered = false := by
  rw [isRegistered, h.passOk]
  rfl

/-- What an anonymous client does to itself leaves it anonymous, or passes. -/
theorem own {c : Ptr} {m : Message} {s : Server} (h : x.Anonymous) (hown : OwnUpdate c m s x y) :
    y.passOk = true ∨ y.Anonymous := by
  cases hown with
  | authenticate => exact Or.inl rfl
  | failPass =>
    have hidentity := x.identity_failPass
    unfold recordFailedPassAttempt at hidentity
    split_ifs at hidentity
    · exact Or.inr ⟨(congrArg Identity.passOk hidentity).trans h.passOk,
        (nickname_of_identity hidentity).trans h.nickname,
        (congrArg Identity.username hidentity).trans h.username⟩
    · exact Or.inr (h.of_identity hidentity)
  | takeNickname _ hok => exact absurd (h.passOk.symm.trans hok) (by decide)
  | takeUsername _ hok => exact absurd (h.passOk.symm.trans hok) (by decide)
  | quit => exact Or.inr (h.of_identity (identity_markClosing ..))

end Client.Anonymous

namespace Server

/-- The server without one of its clients. -/
def hide (s : Server) (fd : Fd) (p : Ptr) : Server :=
  { s with
    pollFds := s.pollFds.eraseP fun e => e.fd == fd
    clients := s.clients.erase fd
    heap := Function.update s.heap p none }

/-- No channel refers to the client. -/
def Unreferenced (s : Server) (p : Ptr) : Prop :=
  ∀ name ch, s.findChannel name = some ch → ¬ ch.Refers p

/-- `t` is `s` without the client `p`, a stranger that is connected on `fd`. -/
structure Hides (fd : Fd) (p : Ptr) (s t : Server) : Prop where
  eq : t = s.hide fd p
  anonymous : (s.client p).Anonymous
  connected : s.clients.find? fd = some p
  only : ∀ fd', s.clients.find? fd' = some p → fd' = fd

namespace Hides

variable {fd : Fd} {p q : Ptr} {s t : Server} (h : Hides fd p s t)
include h

/-! ## What is read -/

theorem heap_ne (hq : q ≠ p) : t.heap q = s.heap q := by
  rw [h.eq]
  exact Function.update_of_ne hq none s.heap

theorem client_ne (hq : q ≠ p) : t.client q = s.client q := by
  rw [client, client, h.heap_ne hq]

/-- Without the client there is no object behind its pointer. -/
theorem heap_self : t.heap p = none := by
  rw [h.eq]
  exact Function.update_self p none s.heap

theorem nickname (q : Ptr) : t.nickname q = s.nickname q := by
  by_cases hq : q = p
  · rw [hq, Server.nickname, Server.nickname, h.anonymous.nickname, client, h.heap_self]
    rfl
  · rw [Server.nickname, Server.nickname, h.client_ne hq]

theorem username (q : Ptr) : t.username q = s.username q := by
  by_cases hq : q = p
  · rw [hq, Server.username, Server.username, h.anonymous.username, client, h.heap_self]
    rfl
  · rw [Server.username, Server.username, h.client_ne hq]

theorem clients : t.clients = s.clients.erase fd := by
  rw [h.eq]
  rfl

theorem find?_ne {fd' : Fd} (hfd : fd' ≠ fd) : t.clients.find? fd' = s.clients.find? fd' := by
  rw [h.clients, OrdMap.find?_erase_ne _ hfd]

theorem ne_of_find? {fd' : Fd} (hfd : fd' ≠ fd) (hq : s.clients.find? fd' = some q) : q ≠ p := by
  rintro rfl
  exact hfd (h.only fd' hq)

/-- An entry for another descriptor is for another client. -/
theorem ne_of_entry {e : Fd × Ptr} (he : e ∈ s.clients.entries) (hfd : e.1 ≠ fd) : e.2 ≠ p :=
  h.ne_of_find? hfd (OrdMap.find?_eq_some.mpr he)

theorem eq_of_entry {e : Fd × Ptr} (he : e ∈ s.clients.entries) (hfd : e.1 = fd) : e.2 = p := by
  have hfind := OrdMap.find?_eq_some.mpr he
  rw [hfd, h.connected] at hfind
  exact (Option.some_inj.mp hfind).symm

/-- A stranger is never found by a nickname. -/
theorem findClientByNick (n : Str) : t.findClientByNick n = s.findClientByNick n := by
  unfold Server.findClientByNick
  split_ifs with hn
  · rfl
  rw [h.clients]
  congr 1
  apply OrdMap.find?_entries_erase
  · intro e he hfd
    have hlower : toIrcLowerCase n ≠ [] := fun hnil => hn (by
      rw [toIrcLowerCase, List.map_eq_nil_iff] at hnil
      rw [hnil]
      rfl)
    rw [h.eq_of_entry he hfd, h.anonymous.nickname, Bool.and_eq_false_iff, beq_eq_false_iff_ne]
    exact Or.inr hlower.symm
  · intro e he hfd
    rw [h.client_ne (h.ne_of_entry he hfd)]

/-! ## What is written -/

/-- A change of the stranger is not seen without it. -/
theorem own {f : Client → Client} (hf : ∀ x, x.Anonymous → (f x).Anonymous) :
    Hides fd p (s.modify p f) t := by
  refine ⟨?_, ?_, h.connected, h.only⟩
  · rw [h.eq]
    simp only [hide, Server.modify, Function.update_idem]
  · have hanonymous := h.anonymous
    rw [client, heap_modify_self]
    rw [client] at hanonymous
    cases hx : s.heap p with
    | none => exact ⟨rfl, rfl, rfl⟩
    | some x =>
      rw [hx] at hanonymous
      exact hf x hanonymous

theorem modify_ne (hq : q ≠ p) (f : Client → Client) :
    Hides fd p (s.modify q f) (t.modify q f) := by
  refine ⟨?_, ?_, h.connected, h.only⟩
  · rw [h.eq]
    simp only [hide, Server.modify, Function.update_of_ne hq, Function.update_comm hq]
  · rw [client_modify_ne _ _ hq.symm]
    exact h.anonymous

/-- Without the client there is nothing to change. -/
theorem modify_self (f : Client → Client) : t.modify p f = t := by
  have hheap : Function.update t.heap p ((t.heap p).map f) = t.heap := by
    rw [h.heap_self, Option.map_none, ← h.heap_self, Function.update_eq_self]
  rw [Server.modify, hheap]

theorem sendMessage (q : Ptr) (text : Str) :
    Hides fd p (s.sendMessage q text) (t.sendMessage q text) := by
  by_cases hq : q = p
  · rw [hq, Server.sendMessage, Server.sendMessage, h.modify_self]
    exact h.own fun x hx => hx.of_identity (x.identity_sendMessage text)
  · exact h.modify_ne hq _

theorem sendAll (qs : List Ptr) (text : Str) :
    Hides fd p (s.sendAll qs text) (t.sendAll qs text) := by
  unfold Server.sendAll
  induction qs generalizing s t with
  | nil => exact h
  | cons q qs ih => exact ih (h.sendMessage q text)

end Hides

theorem sameChannels_hides (fd : Fd) (p : Ptr) : SameChannels (Hides fd p) where
  channels h := by
    rw [h.eq]
    rfl
  withChannels h channels := by
    refine ⟨?_, h.anonymous, h.connected, h.only⟩
    rw [h.eq]
    rfl

/-- The lines of the others cannot tell. -/
theorem likeness_hides (fd : Fd) {c p : Ptr} (hc : c ≠ p) :
    Likeness c (fun _ => True) (fun _ => True) (Hides fd p) where
  password h := by
    rw [h.eq]
    rfl
  nickname h := h.nickname
  username h := h.username
  identity h := by rw [h.client_ne hc]
  findClientByNick h := h.findClientByNick
  sendMessage h := h.sendMessage
  modify h f _ := h.modify_ne hc f
  nickRecipients h := (sameChannels_hides fd p).nickRecipients h
  keys h := congrArg OrdMap.keys ((sameChannels_hides fd p).channels h)
  findChannel h _ _ := (sameChannels_hides fd p).findChannel h _
  named _ _ _ _ _ := trivial
  shut _ _ h := absurd trivial h
  modifyChannel h _ _ _ _ := (sameChannels_hides fd p).modifyChannel h _ _
  removeChannel h _ _ := (sameChannels_hides fd p).removeChannel h _
  createChannel h _ _ := (sameChannels_hides fd p).createChannel h _

end Server

/-! ## Lines of the others -/

section Others

variable {c p : Ptr} {m : Message} {s₀ s : Server} {name : Str} {ch ch' : Channel}

theorem Server.findClientByNick_ne (hp : (s.client p).Anonymous) (n : Str) :
    s.findClientByNick n ≠ some p := by
  intro hfind
  obtain ⟨hn, _, hlower, _⟩ := findClientByNick_eq_some hfind
  rw [hp.nickname] at hlower
  exact hn (List.map_eq_nil_iff.mp hlower.symm)

theorem Server.Unreferenced.modifyChannel (h : s.Unreferenced p) (hch' : ¬ ch'.Refers p) :
    (s.modifyChannel name fun _ => ch').Unreferenced p := by
  intro n other hother
  rw [findChannel, Server.modifyChannel, OrdMap.find?_modify] at hother
  split_ifs at hother
  · obtain ⟨_, _, rfl⟩ := Option.map_eq_some_iff.mp hother
    exact hch'
  · exact h n other hother

theorem ModeChange.not_refers (h : ModeChange s ch ch') (hch : ¬ ch.Refers p) : ¬ ch'.Refers p := by
  cases h with
  | inviteOnly => exact hch
  | topicRestricted => exact hch
  | setPassword => exact hch
  | clearPassword => exact hch
  | userLimit => exact hch
  | addOperator _ hq =>
    intro hrefers
    rcases hrefers.of_addOperator with rfl | hrefers
    · exact hch (Or.inl hq)
    · exact hch hrefers
  | removeOperator => exact fun hrefers => hch hrefers.of_removeOperator

/-- Nobody but the client of the line and clients with a name get into a channel. -/
theorem ChannelChange.not_refers (h : ChannelChange c m s₀ s name ch ch') (hc : c ≠ p)
    (hp : (s.client p).Anonymous) (hch : ¬ ch.Refers p) : ¬ ch'.Refers p := by
  intro hrefers
  cases h with
  | join =>
    rcases hrefers.of_removeInvited.of_addMember with rfl | hrefers
    · exact hc rfl
    · exact hch hrefers
  | kick => exact hch hrefers.of_removeMember
  | invite _ _ _ hfind =>
    rcases hrefers.of_addInvited with rfl | hrefers
    · exact Server.findClientByNick_ne hp _ hfind
    · exact hch hrefers
  | topic => exact hch hrefers
  | mode _ _ _ hchange => exact hchange.not_refers hch hrefers

/-- A line of somebody else does not bring a stranger into a channel. -/
theorem Effects.unreferenced (h : Effects c m s₀ s) (hc : c ≠ p) (hp : (s₀.client p).Anonymous)
    (h₀ : s₀.Unreferenced p) : s.Unreferenced p ∧ (s.client p).Anonymous := by
  apply h.induct (P := fun s => s.Unreferenced p ∧ (s.client p).Anonymous) ⟨h₀, hp⟩
  rintro s s' _ heff ⟨hs, hanonymous⟩
  cases heff with
  | reply => exact ⟨hs, hanonymous.of_identity (Server.identity_sendMessage ..)⟩
  | relay => exact ⟨hs, hanonymous.of_identity (Server.identity_sendMessage ..)⟩
  | own => exact ⟨hs, by rwa [Server.client_modify_ne _ _ hc.symm]⟩
  | found =>
    refine ⟨fun n other hother => ?_, hanonymous⟩
    rw [Server.findChannel, OrdMap.find?_insert] at hother
    split_ifs at hother
    · rw [← Option.some_inj.mp hother]
      rintro (hmem | hmem | hmem)
      · exact hc (List.mem_singleton.mp hmem).symm
      · exact hc (List.mem_singleton.mp hmem).symm
      · exact absurd hmem List.not_mem_nil
    · exact hs n other hother
  | change _ _ hch h => exact ⟨hs.modifyChannel (h.not_refers hc hanonymous (hs _ _ hch)), hanonymous⟩
  | part _ _ hch =>
    exact ⟨hs.modifyChannel fun hrefers => hs _ _ hch hrefers.of_removeMember, hanonymous⟩
  | dissolve _ _ hch =>
    refine ⟨fun n other hother => ?_, hanonymous⟩
    rw [Server.findChannel_removeChannel] at hother
    split_ifs at hother
    exact hs.modifyChannel (fun hrefers => hs _ _ hch hrefers.of_removeMember) n other hother

end Others

/-! ## Lines of the stranger -/

section Own

variable {c p : Ptr} {m : Message} {s₀ s t : Server} {fd : Fd}

theorem OwnUpdate.passOk {x x' : Client} (h : OwnUpdate c m s x x') (hx : x.passOk = true) :
    x'.passOk = true := by
  cases h with
  | authenticate => rfl
  | failPass _ hnot => exact absurd (hnot.symm.trans hx) (by decide)
  | takeNickname => exact (congrArg Client.Identity.passOk (x.identity_takeNickname _)).trans hx
  | takeUsername => exact (congrArg Client.Identity.passOk (x.identity_takeUsername _)).trans hx
  | quit => exact (congrArg Client.Identity.passOk (x.identity_markClosing _)).trans hx

/-- Whoever has passed stays so. -/
theorem Effects.passOk (h : Effects c m s₀ s) (hc : (s₀.client c).passOk = true) :
    (s.client c).passOk = true := by
  apply h.induct (P := fun s => (s.client c).passOk = true) hc
  intro s s' _ heff hs
  cases heff with
  | reply => exact (congrArg Client.Identity.passOk (Server.identity_sendMessage ..)).trans hs
  | relay => exact (congrArg Client.Identity.passOk (Server.identity_sendMessage ..)).trans hs
  | own hx hown =>
    rw [Server.client_of_heap hx] at hc
    rw [Server.client_modify_self _ hx]
    exact hown.passOk hc
  | found => exact hs
  | change => exact hs
  | part => exact hs
  | dissolve => exact hs

/-- A line of a stranger is not noticed, unless it has the password. -/
theorem Effects.hides (h : Effects p m s₀ s) (h₀ : Server.Hides fd p s₀ t) :
    (s.client p).passOk = true ∨ Server.Hides fd p s t := by
  have hgate : ∀ {P : Prop}, (s₀.client p).isRegistered = true → P := fun hreg =>
    absurd (h₀.anonymous.not_registered.symm.trans hreg) (by decide)
  apply h.induct (P := fun s => (s.client p).passOk = true ∨ Server.Hides fd p s t) (Or.inr h₀)
  intro s s' _ heff hs
  cases heff with
  | reply =>
    refine hs.imp (fun hs => ?_) fun hs => hs.own fun x hx => hx.of_identity (x.identity_sendMessage _)
    exact (congrArg Client.Identity.passOk (Server.identity_sendMessage ..)).trans hs
  | relay _ hreg => exact hgate hreg
  | own hx hown =>
    have hanonymous := h₀.anonymous
    rw [Server.client_of_heap hx] at hanonymous
    rw [Server.client_modify_self _ hx]
    exact (hanonymous.own hown).imp id fun hx' => h₀.own fun _ _ => hx'
  | found hreg => exact hgate hreg
  | change hreg => exact hgate hreg
  | part hreg => exact hgate hreg
  | dissolve hreg => exact hgate hreg

end Own

end FtIrc
