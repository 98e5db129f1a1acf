import FtIrc.Moves

/-!
# Referential integrity

The descriptor map, the poll entries, the objects and the channel lists of a reachable
server fit together: `Server.Integrity`. Pointers enter a channel list in JOIN, INVITE and
MODE `+o`, from the client that sent the line or from a nickname lookup, and leave it only
by single erases; these are enough because no list has duplicates, so the well-formedness
of the channels is part of the invariant.
-/

namespace FtIrc

open Bytes

namespace Server

/-! ## What stays while clients talk -/

/-- The connections are the same ones, whatever else has changed. -/
structure SameConnections (s t : Server) : Prop where
  password : t.password = s.password
  listenFd : t.listenFd = s.listenFd
  pollFds : t.pollFds = s.pollFds
  clients : t.clients = s.clients
  fds : ∀ p, (t.heap p).map Client.fd = (s.heap p).map Client.fd

namespace SameConnections

variable {s t u : Server}

theorem refl : SameConnections s s := ⟨rfl, rfl, rfl, rfl, fun _ => rfl⟩

theorem trans (h : SameConnections s t) (h' : SameConnections t u) : SameConnections s u :=
  ⟨h'.password.trans h.password, h'.listenFd.trans h.listenFd, h'.pollFds.trans h.pollFds,
    h'.clients.trans h.clients, fun p => (h'.fds p).trans (h.fds p)⟩

/-- A change of objects that leaves their descriptors alone. -/
theorem modify (s : Server) (p : Ptr) {f : Client → Client}
    (hf : ∀ x, s.heap p = some x → (f x).fd = x.fd) : SameConnections s (s.modify p f) := by
  refine ⟨rfl, rfl, rfl, rfl, fun q => ?_⟩
  rw [heap_modify]
  split_ifs with hq
  · rw [hq]
    cases hx : s.heap p with
    | none => rfl
    | some x => exact congrArg some (hf x hx)
  · rfl

theorem sendMessage (s : Server) (p : Ptr) (text : Str) :
    SameConnections s (s.sendMessage p text) :=
  modify s p fun x _ => Client.fd_of_endpoint (x.endpoint_sendMessage text)

theorem sendAll (s : Server) (ps : List Ptr) (text : Str) :
    SameConnections s (s.sendAll ps text) :=
  sendAll_induct s ps text (P := fun t => SameConnections s t) refl fun t p h =>
    h.trans (sendMessage t p text)

/-- The same objects are allocated. -/
theorem isSome_heap (h : SameConnections s t) (p : Ptr) :
    (t.heap p).isSome = (s.heap p).isSome := by
  have hp := congrArg Option.isSome (h.fds p)
  rwa [Option.isSome_map, Option.isSome_map] at hp

end SameConnections

end Server

/-- A line opens and closes no connection. -/
theorem Effect.sameConnections {c : Ptr} {m : Message} {s₀ s s' : Server}
    (h : Effect c m s₀ s s') : s.SameConnections s' := by
  cases h with
  | reply => exact .sendMessage ..
  | relay => exact .sendMessage ..
  | own hx h =>
    refine .modify _ _ fun y hy => ?_
    rw [hx] at hy
    rw [Client.fd_of_endpoint h.endpoint_eq, Option.some_inj.mp hy]
  | found => exact ⟨rfl, rfl, rfl, rfl, fun _ => rfl⟩
  | change => exact ⟨rfl, rfl, rfl, rfl, fun _ => rfl⟩
  | part => exact ⟨rfl, rfl, rfl, rfl, fun _ => rfl⟩
  | dissolve => exact ⟨rfl, rfl, rfl, rfl, fun _ => rfl⟩

/-- A line opens and closes no connection. -/
theorem Effects.sameConnections {c : Ptr} {m : Message} {s₀ s : Server}
    (h : Effects c m s₀ s) : s₀.SameConnections s :=
  h.induct (P := s₀.SameConnections) .refl fun _ _ _ heff ih => ih.trans heff.sameConnections

/-- Nor does the entry into the history. -/
theorem Server.SameConnections.handleLine {s : Server} {p : Ptr} {x : Client}
    (hx : s.heap p = some x) (line : Str) : s.SameConnections (s.handleLine p line) :=
  (s.processMessage_effects hx (Parser.parse line)).sameConnections.trans
    (.modify _ p fun _ _ => rfl)

/-- The socket of a client stays its socket. -/
theorem Client.Io.endpoint_eq {x x' : Client} (h : x.Io x') : x'.endpoint = x.endpoint := by
  cases h with
  | received => exact Client.endpoint_appendToRecvBuffer ..
  | flooded => rw [Client.endpoint_markDead, Client.endpoint_appendToRecvBuffer]
  | rejected _ h =>
    have hendpoint := x.endpoint_extractLine
    rwa [h] at hendpoint
  | eof => exact Client.endpoint_markClosing ..
  | failed => exact Client.endpoint_socketError ..
  | sent => exact Client.endpoint_consumeSendBuffer ..
  | retired => exact Client.endpoint_markDead ..

/-! ## The invariant -/

namespace Channel

/-- A client is mentioned in one of the lists of a channel. -/
def Refers (ch : Channel) (p : Ptr) : Prop :=
  p ∈ ch.members ∨ p ∈ ch.operators ∨ p ∈ ch.invitedClients

instance (ch : Channel) (p : Ptr) : Decidable (ch.Refers p) :=
  inferInstanceAs (Decidable (_ ∨ _ ∨ _))

section Refers

variable {ch : Channel} {p q : Ptr}

/-- Whom a channel refers to after a removal it has referred to before. -/
theorem Refers.of_removeMember (h : (ch.removeMember q).Refers p) : ch.Refers p := by
  rw [removeMember_eq] at h
  exact h.imp List.mem_of_mem_erase (Or.imp_left List.mem_of_mem_erase)

theorem Refers.of_removeOperator (h : (ch.removeOperator q).Refers p) : ch.Refers p :=
  h.imp_right (Or.imp_left List.mem_of_mem_erase)

theorem Refers.of_removeInvited (h : (ch.removeInvited q).Refers p) : ch.Refers p :=
  h.imp_right (Or.imp_right List.mem_of_mem_erase)

/-- A new reference is to the client that has been added. -/
theorem Refers.of_addMember (h : (ch.addMember q).Refers p) : p = q ∨ ch.Refers p := by
  unfold addMember at h
  split_ifs at h
  · rcases h with h | h
    · rcases List.mem_append.mp h with h | h
      · exact Or.inr (Or.inl h)
      · exact Or.inl (List.mem_singleton.mp h)
    · exact Or.inr (Or.inr h)
  · exact Or.inr h

theorem Refers.of_addOperator (h : (ch.addOperator q).Refers p) : p = q ∨ ch.Refers p := by
  unfold addOperator at h
  split_ifs at h
  · rcases h with h | h | h
    · exact Or.inr (Or.inl h)
    · rcases List.mem_append.mp h with h | h
      · exact Or.inr (Or.inr (Or.inl h))
      · exact Or.inl (List.mem_singleton.mp h)
    · exact Or.inr (Or.inr (Or.inr h))
  · exact Or.inr h

theorem Refers.of_addInvited (h : (ch.addInvited q).Refers p) : p = q ∨ ch.Refers p := by
  unfold addInvited at h
  split_ifs at h
  · rcases h with h | h | h
    · exact Or.inr (Or.inl h)
    · exact Or.inr (Or.inr (Or.inl h))
    · rcases List.mem_append.mp h with h | h
      · exact Or.inr (Or.inr (Or.inr h))
      · exact Or.inl (List.mem_singleton.mp h)
  · exact Or.inr h

/-- A well-formed channel forgets a client that disconnects. -/
theorem Wf.not_refers_removed (h : ch.Wf) : ¬ ((ch.removeMember p).removeInvited p).Refers p := by
  rw [removeMember_eq]
  rintro (hp | hp | hp)
  · exact h.nodup_members.not_mem_erase hp
  · exact h.nodup_operators.not_mem_erase hp
  · exact h.nodup_invited.not_mem_erase hp

end Refers

end Channel

namespace Server

/-- An object lives at an address. -/
def Allocated (s : Server) (p : Ptr) : Prop := (s.heap p).isSome = true

/-- What a channel of the server satisfies, under the name it is stored. -/
structure ChannelSound (s : Server) (name : Str) (ch : Channel) : Prop where
  name_eq : ch.name = name
  wf : ch.Wf
  allocated : ∀ p, ch.Refers p → s.Allocated p

/-- A channel stays sound without one of its members. -/
theorem ChannelSound.removeMember {s : Server} {name : Str} {ch : Channel}
    (h : s.ChannelSound name ch) (p : Ptr) : s.ChannelSound name (ch.removeMember p) := by
  refine ⟨?_, h.wf.removeMember p, fun q hq => h.allocated q hq.of_removeMember⟩
  rw [Channel.name_removeMember, ← h.name_eq]

/-- The parts of the server refer to each other correctly. -/
structure Integrity (s : Server) : Prop where
  listening : s.clients.find? s.listenFd = none
  object : ∀ fd p, s.clients.find? fd = some p → (s.heap p).map Client.fd = some fd
  registered : ∀ p x, s.heap p = some x → s.clients.find? x.fd = some p
  polled : (s.pollFds.map PollFd.fd).Perm (s.listenFd :: s.clients.keys)
  channel : ∀ name ch, s.findChannel name = some ch → s.ChannelSound name ch

namespace Integrity

variable {s t : Server}

/-- A descriptor leads to an object. -/
theorem allocated_of_find? (h : s.Integrity) {fd : Fd} {p : Ptr}
    (hfd : s.clients.find? fd = some p) : s.Allocated p := by
  have hobject := congrArg Option.isSome (h.object fd p hfd)
  rwa [Option.isSome_map] at hobject

/-- Nothing but the channels needs to be looked at while the connections stay. -/
theorem of_sameConnections (h : s.Integrity) (hst : s.SameConnections t)
    (hch : ∀ name ch, t.findChannel name = some ch → s.ChannelSound name ch) : t.Integrity where
  listening := by rw [hst.clients, hst.listenFd, h.listening]
  object fd p hfd := by
    rw [hst.clients] at hfd
    rw [hst.fds p, h.object fd p hfd]
  registered p x hx := by
    have hp := hst.fds p
    rw [hx] at hp
    obtain ⟨y, hy, hfd⟩ := Option.map_eq_some_iff.mp hp.symm
    rw [hst.clients, ← hfd, h.registered p y hy]
  polled := by
    rw [hst.pollFds, hst.listenFd, hst.clients]
    exact h.polled
  channel name ch hfind := by
    obtain ⟨hname, hwf, halloc⟩ := hch name ch hfind
    refine ⟨hname, hwf, fun p hp => ?_⟩
    rw [Allocated, hst.isSome_heap]
    exact halloc p hp

/-- Integrity does not depend on what the clients are doing. -/
theorem of_sameChannels (h : s.Integrity) (hst : s.SameConnections t)
    (hch : t.channels = s.channels) : t.Integrity := by
  refine h.of_sameConnections hst fun name ch hfind => ?_
  rw [findChannel, hch] at hfind
  exact h.channel name ch hfind

end Integrity

end Server

/-! ## Lines -/

section Lines

variable {c : Ptr} {m : Message} {s₀ s s' : Server} {name : Str} {ch ch' : Channel}

/-- MODE makes operators of members only. -/
theorem ModeChange.sound (hch : s.ChannelSound name ch) (h : ModeChange s ch ch') :
    s.ChannelSound name ch' := by
  obtain ⟨hname, hwf, halloc⟩ := hch
  cases h with
  | inviteOnly => exact ⟨hname, ⟨hwf.1, hwf.2, hwf.3, hwf.4, hwf.5⟩, halloc⟩
  | topicRestricted => exact ⟨hname, ⟨hwf.1, hwf.2, hwf.3, hwf.4, hwf.5⟩, halloc⟩
  | setPassword => exact ⟨hname, ⟨hwf.1, hwf.2, hwf.3, hwf.4, hwf.5⟩, halloc⟩
  | clearPassword => exact ⟨hname, ⟨hwf.1, hwf.2, hwf.3, hwf.4, hwf.5⟩, halloc⟩
  | userLimit => exact ⟨hname, ⟨hwf.1, hwf.2, hwf.3, hwf.4, hwf.5⟩, halloc⟩
  | addOperator _ hq hop =>
    refine ⟨?_, hwf.addOperator hq, fun p hp => ?_⟩
    · rw [Channel.addOperator_of_not_mem _ hop, hname]
    · rcases hp.of_addOperator with rfl | hp
      · exact halloc p (Or.inl hq)
      · exact halloc p hp
  | removeOperator =>
    exact ⟨hname, hwf.removeOperator _, fun p hp => halloc p hp.of_removeOperator⟩

/-- Every change by a command keeps the channel sound: whom it adds is allocated. -/
theorem ChannelChange.sound (hs : s.Integrity) (hc : s.Allocated c) (hch : s.ChannelSound name ch)
    (h : ChannelChange c m s₀ s name ch ch') : s.ChannelSound name ch' := by
  obtain ⟨hname, hwf, halloc⟩ := hch
  cases h with
  | join _ _ hout =>
    refine ⟨?_, hwf.enter hout, fun p hp => ?_⟩
    · rw [Channel.addMember_of_not_mem _ hout, ← hname]
      rfl
    · rcases hp.of_removeInvited.of_addMember with rfl | hp
      · exact hc
      · exact halloc p hp
  | kick => exact Server.ChannelSound.removeMember ⟨hname, hwf, halloc⟩ _
  | invite _ _ _ hfind hq =>
    obtain ⟨_, _, _, fd, hfd⟩ := Server.findClientByNick_eq_some hfind
    refine ⟨?_, hwf.addInvited hq, fun p hp => ?_⟩
    · rw [← hname]
      unfold Channel.addInvited
      split_ifs <;> rfl
    · rcases hp.of_addInvited with rfl | hp
      · exact hs.allocated_of_find? hfd
      · exact halloc p hp
  | topic => exact ⟨hname, ⟨hwf.1, hwf.2, hwf.3, hwf.4, hwf.5⟩, halloc⟩
  | mode _ _ _ hchange => exact hchange.sound ⟨hname, hwf, halloc⟩

/-- One effect of a line keeps the server sound. -/
theorem Effect.integrity (hs : s.Integrity) (hc : s.Allocated c) (h : Effect c m s₀ s s') :
    s'.Integrity := by
  have hsame := h.sameConnections
  cases h with
  | reply => exact hs.of_sameChannels hsame rfl
  | relay => exact hs.of_sameChannels hsame rfl
  | own => exact hs.of_sameChannels hsame rfl
  | @found _ name =>
    refine hs.of_sameConnections hsame fun n ch hfind => ?_
    rw [Server.findChannel, OrdMap.find?_insert] at hfind
    split_ifs at hfind with hn
    · rw [← Option.some_inj.mp hfind, hn]
      refine ⟨rfl, Channel.wf_founded name c, fun p hp => ?_⟩
      have hpc : p = c := by simpa [Channel.Refers, Channel.founded] using hp
      rw [hpc]
      exact hc
    · exact hs.channel n ch hfind
  | @change _ name ch ch' _ _ hch h =>
    refine hs.of_sameConnections hsame fun n ch₁ hfind => ?_
    rw [Server.findChannel_modifyChannel hch] at hfind
    split_ifs at hfind with hn
    · rw [← Option.some_inj.mp hfind, hn]
      exact h.sound hs hc (hs.channel name ch hch)
    · exact hs.channel n ch₁ hfind
  | @part _ name ch _ _ hch =>
    refine hs.of_sameConnections hsame fun n ch₁ hfind => ?_
    rw [Server.findChannel_modifyChannel hch] at hfind
    split_ifs at hfind with hn
    · rw [← Option.some_inj.mp hfind, hn]
      exact (hs.channel name ch hch).removeMember c
    · exact hs.channel n ch₁ hfind
  | @dissolve _ name ch _ _ hch =>
    refine hs.of_sameConnections hsame fun n ch₁ hfind => ?_
    rw [Server.findChannel_removeChannel, Server.findChannel_modifyChannel hch,
      (hs.channel name ch hch).name_eq] at hfind
    split_ifs at hfind
    exact hs.channel n ch₁ hfind

/-- A line keeps the server sound. -/
theorem Effects.integrity (hs : s₀.Integrity) (hc : s₀.Allocated c) (h : Effects c m s₀ s) :
    s.Integrity := by
  apply h.induct (P := fun t => t.Integrity) hs
  intro t t' hpath heff ht
  refine heff.integrity ht ?_
  rw [Server.Allocated, hpath.sameConnections.isSome_heap]
  exact hc

end Lines

/-! ## Connections -/

namespace Server

/-- There is nothing to refer to. -/
theorem integrity_start (password : Str) (listenFd : Fd) : (start password listenFd).Integrity where
  listening := rfl
  object _ _ h := absurd h (Option.some_ne_none _).symm
  registered _ _ h := absurd h (Option.some_ne_none _).symm
  polled := List.Perm.refl _
  channel _ _ h := absurd h (Option.some_ne_none _).symm

namespace Integrity

variable {s s' : Server} {fd : Fd} {p : Ptr}

/-- The new object is nowhere referred to. -/
theorem connect (hs : s.Integrity) {ip : Str} (hlisten : fd ≠ s.listenFd)
    (hfd : s.clients.find? fd = none) (hp : s.heap p = none) : (s.connect fd ip p).Integrity where
  listening := by
    show (s.clients.insert fd p).find? s.listenFd = none
    rw [OrdMap.find?_insert_ne _ _ hlisten.symm, hs.listening]
  object fd' q hq := by
    show (Function.update s.heap p _ q).map Client.fd = some fd'
    have hq' : (s.clients.insert fd p).find? fd' = some q := hq
    rw [OrdMap.find?_insert] at hq'
    split_ifs at hq' with hfd'
    · rw [← Option.some_inj.mp hq', Function.update_self, hfd']
      rfl
    -- the new object is none that a client has
    · have hqp : q ≠ p := by
        intro h
        have halloc := hs.allocated_of_find? hq'
        rw [h, Allocated, hp] at halloc
        exact absurd halloc (by decide)
      rw [Function.update_of_ne hqp]
      exact hs.object fd' q hq'
  registered q x hx := by
    have hx' : Function.update s.heap p (some { fd := fd, ip := ip }) q = some x := hx
    show (s.clients.insert fd p).find? x.fd = some q
    rw [Function.update_apply] at hx'
    split_ifs at hx' with hqp
    · rw [← Option.some_inj.mp hx', hqp]
      exact OrdMap.find?_insert_self ..
    · have hq := hs.registered q x hx'
      -- the new descriptor is none that a client has
      have hne : x.fd ≠ fd := by
        intro h
        rw [h, hfd] at hq
        exact absurd hq (Option.some_ne_none q).symm
      rw [OrdMap.find?_insert_ne _ _ hne, hq]
  polled := by
    show ((s.pollFds ++ [_]).map PollFd.fd).Perm (s.listenFd :: (s.clients.insert fd p).keys)
    rw [List.map_append, List.map_singleton]
    calc (s.pollFds.map PollFd.fd ++ [fd]).Perm (fd :: s.pollFds.map PollFd.fd) :=
          List.perm_append_singleton fd _
      _ |>.Perm (fd :: s.listenFd :: s.clients.keys) := hs.polled.cons fd
      _ |>.Perm (s.listenFd :: fd :: s.clients.keys) := List.Perm.swap _ _ _
      _ |>.Perm (s.listenFd :: (s.clients.insert fd p).keys) :=
          ((OrdMap.entries_insert_perm hfd p).map Prod.fst).symm.cons _
  channel name ch hch := by
    obtain ⟨hname, hwf, halloc⟩ := hs.channel name ch hch
    refine ⟨hname, hwf, fun q hq => ?_⟩
    show (Function.update s.heap p _ q).isSome = true
    rw [Function.update_apply]
    split_ifs
    · rfl
    · exact halloc q hq

/-- The object of a client that disconnects is forgotten everywhere. -/
theorem release (hs : s.Integrity) (hfd : s.clients.find? fd = some p) :
    (s.release fd p).Integrity where
  listening := by
    show (s.clients.erase fd).find? s.listenFd = none
    rw [OrdMap.find?_erase]
    split_ifs
    · rfl
    · exact hs.listening
  object fd' q hq := by
    have hq' : (s.clients.erase fd).find? fd' = some q := hq
    rw [OrdMap.find?_erase] at hq'
    split_ifs at hq' with hfd'
    -- two descriptors of one object would be equal
    have hqp : q ≠ p := by
      intro h
      have hobject := hs.object fd' q hq'
      rw [h, hs.object fd p hfd] at hobject
      exact hfd' (Option.some_inj.mp hobject).symm
    show (Function.update s.heap p none q).map Client.fd = some fd'
    rw [Function.update_of_ne hqp]
    exact hs.object fd' q hq'
  registered q x hx := by
    have hx' : Function.update s.heap p none q = some x := hx
    rw [Function.update_apply] at hx'
    split_ifs at hx' with hqp
    have hq := hs.registered q x hx'
    have hne : x.fd ≠ fd := by
      intro h
      rw [h, hfd] at hq
      exact hqp (Option.some_inj.mp hq).symm
    show (s.clients.erase fd).find? x.fd = some q
    rw [OrdMap.find?_erase_ne _ hne, hq]
  polled := by
    have hlisten : fd ≠ s.listenFd := by
      intro h
      rw [h, hs.listening] at hfd
      exact absurd hfd (Option.some_ne_none p).symm
    have hfds : (s.pollFds.eraseP fun e => e.fd == fd).map PollFd.fd
        = (s.pollFds.map PollFd.fd).erase fd := by
      have htest : (fun e : PollFd => e.fd == fd) = (fun x => fd == x) ∘ PollFd.fd := by
        funext e
        exact Bool.beq_comm
      rw [List.erase_eq_eraseP, List.eraseP_map, htest]
    have hkeys : s.clients.keys.erase fd = (s.clients.erase fd).keys := by
      rw [(OrdMap.nodup_keys _).erase_eq_filter, OrdMap.keys_erase]
      simp only [bne, decide_not]
      rfl
    show ((s.pollFds.eraseP fun e => e.fd == fd).map PollFd.fd).Perm
      (s.listenFd :: (s.clients.erase fd).keys)
    rw [hfds, ← hkeys, ← List.erase_cons_tail (by simpa using hlisten.symm)]
    exact hs.polled.erase fd
  channel name ch hfind := by
    have hfind' : (s.channels.mapValues _).find? name = some ch := hfind
    rw [OrdMap.find?_mapValues] at hfind'
    obtain ⟨ch₀, hch₀, rfl⟩ := Option.map_eq_some_iff.mp hfind'
    obtain ⟨hname, hwf, halloc⟩ := (hs.channel name ch₀ hch₀).removeMember p
    refine ⟨hname, hwf.removeInvited p, fun q hq => ?_⟩
    have hqp : q ≠ p := fun h =>
      (hs.channel name ch₀ hch₀).wf.not_refers_removed (h ▸ hq)
    show (Function.update s.heap p none q).isSome = true
    rw [Function.update_of_ne hqp]
    exact halloc q hq.of_removeInvited

/-- The messages change no reference. -/
theorem announceQuit (hs : s.Integrity) (p : Ptr) : (s.announceQuit p).Integrity := by
  unfold Server.announceQuit
  split_ifs
  · exact hs.of_sameChannels (.sendAll ..) (channels_sendAll ..)
  · exact hs

/-- The object is deleted after it has been taken out of every channel. -/
theorem disconnectClient (hs : s.Integrity) (fd : Fd) : (s.disconnectClient fd).Integrity := by
  unfold Server.disconnectClient
  split
  · exact hs
  next p hp =>
  refine (hs.announceQuit p).release ?_
  unfold Server.announceQuit
  split_ifs
  · rw [clients_sendAll, hp]
  · exact hp

end Integrity

/-! ## The poll entries -/

section Poll

variable {s s' : Server}

/-- `refreshPollEvents` keeps the descriptors. -/
theorem fd_of_wantedEvents {e e' : PollFd} (h : s.wantedEvents e = .ok e') : e'.fd = e.fd := by
  unfold wantedEvents at h
  split_ifs at h
  · rw [← Except.ok.inj h]
  · split at h
    · cases h
    · rw [← Except.ok.inj h]

/-- The pass over the poll entries keeps their descriptors. -/
theorem fds_of_mapM {es es' : List PollFd} (h : es.mapM s.wantedEvents = .ok es') :
    es'.map PollFd.fd = es.map PollFd.fd := by
  induction es generalizing es' with
  | nil =>
    cases h
    rfl
  | cons e es ih =>
    rw [List.mapM_cons] at h
    cases he : s.wantedEvents e with
    | error => rw [he] at h; cases h
    | ok e' =>
      cases hes : es.mapM s.wantedEvents with
      | error => rw [he, hes] at h; cases h
      | ok es₁ =>
        rw [he, hes] at h
        cases h
        rw [List.map_cons, List.map_cons, fd_of_wantedEvents he, ih hes]

/-- The pass succeeds if every entry has a client. -/
theorem mapM_wantedEvents {es : List PollFd} (h : ∀ e ∈ es, ∃ e', s.wantedEvents e = .ok e') :
    ∃ es', es.mapM s.wantedEvents = .ok es' := by
  induction es with
  | nil => exact ⟨[], rfl⟩
  | cons e es ih =>
    obtain ⟨e', he⟩ := h e List.mem_cons_self
    obtain ⟨es', hes⟩ := ih fun d hd => h d (List.mem_cons_of_mem e hd)
    refine ⟨e' :: es', ?_⟩
    rw [List.mapM_cons, he, hes]
    rfl

/-- Every poll entry has its client, so `refreshPollEvents` does not throw. -/
theorem Integrity.refreshPollEvents_ok (hs : s.Integrity) :
    ∃ s', s.refreshPollEvents = .ok s' := by
  have hentries : ∀ e ∈ s.pollFds, ∃ e', s.wantedEvents e = .ok e' := by
    intro e he
    unfold wantedEvents
    split_ifs with hlisten
    · exact ⟨_, rfl⟩
    · have hmem : e.fd ∈ s.listenFd :: s.clients.keys :=
        hs.polled.mem_iff.mp (List.mem_map_of_mem he)
      obtain ⟨p, hp⟩ := OrdMap.mem_keys.mp ((List.mem_cons.mp hmem).resolve_left hlisten)
      rw [getClientByFd, hp]
      exact ⟨_, rfl⟩
  obtain ⟨es, hes⟩ := mapM_wantedEvents hentries
  refine ⟨{ s with pollFds := es }, ?_⟩
  rw [refreshPollEvents, hes]
  rfl

/-- What `refreshPollEvents` changes. -/
theorem of_refreshPollEvents (h : s.refreshPollEvents = .ok s') :
    ∃ es, s' = { s with pollFds := es } ∧ es.map PollFd.fd = s.pollFds.map PollFd.fd := by
  unfold refreshPollEvents at h
  cases hes : s.pollFds.mapM s.wantedEvents with
  | error => rw [hes] at h; cases h
  | ok es =>
    rw [hes] at h
    exact ⟨es, (Except.ok.inj h).symm, fds_of_mapM hes⟩

/-- The pass changes nothing but the entries. -/
theorem Integrity.poll (hs : s.Integrity) (h : s.refreshPollEvents = .ok s') : s'.Integrity := by
  obtain ⟨es, rfl, hfds⟩ := of_refreshPollEvents h
  refine ⟨hs.listening, hs.object, hs.registered, ?_, ?_⟩
  · show (es.map PollFd.fd).Perm _
    rw [hfds]
    exact hs.polled
  · intro name ch hch
    obtain ⟨hname, hwf, halloc⟩ := hs.channel name ch hch
    exact ⟨hname, hwf, halloc⟩

end Poll

end Server

/-! ## Reachable states -/

theorem Client.extractLine_endpoint {x x' : Client} {line : Option Str}
    (h : x.extractLine = (x', line)) : x'.endpoint = x.endpoint := by
  have hendpoint := x.endpoint_extractLine
  rwa [h] at hendpoint

/-- A client as it is when a line has been taken from its buffer. -/
theorem Server.heap_extracted {s : Server} {p : Ptr} {x : Client} (hx : s.heap p = some x)
    (x' : Client) : (s.modify p fun _ => x').heap p = some x' := by
  rw [heap_modify_self, hx, Option.map_some]

/-- A line that is cut off the buffer changes no reference. -/
theorem Server.Integrity.extracted {s : Server} (hs : s.Integrity) {p : Ptr} {x x' : Client}
    {line : Option Str} (hx : s.heap p = some x) (h : x.extractLine = (x', line)) :
    (s.modify p fun _ => x').Integrity := by
  refine hs.of_sameChannels (.modify s p fun y hy => ?_) rfl
  rw [hx] at hy
  rw [Client.fd_of_endpoint (Client.extractLine_endpoint h), Option.some_inj.mp hy]

/-- Every move keeps the server sound. -/
theorem Move.integrity {s s' : Server} (hs : s.Integrity) (h : Move s s') : s'.Integrity := by
  cases h with
  | connect hlisten hfd hp => exact hs.connect hlisten hfd hp
  | @io p x x' hx h =>
    refine hs.of_sameChannels (.modify s p fun y hy => ?_) rfl
    rw [hx] at hy
    rw [Client.fd_of_endpoint h.endpoint_eq, Option.some_inj.mp hy]
  | @line p x x' line hx live h =>
    have hx' := Server.heap_extracted hx x'
    have hprocess := Effects.integrity (hs.extracted hx h) (by rw [Server.Allocated, hx']; rfl)
      (Server.processMessage_effects hx' (Parser.parse line))
    exact hprocess.of_sameChannels (.modify _ p fun _ _ => rfl) rfl
  | disconnect => exact hs.disconnectClient _
  | poll h => exact hs.poll h

/-- So does the password. -/
theorem Move.password_eq {s s' : Server} (h : Move s s') : s'.password = s.password := by
  cases h with
  | connect => rfl
  | io => rfl
  | line hx => exact (Server.SameConnections.handleLine (Server.heap_extracted hx _) _).password
  | disconnect hfd =>
    rw [Server.disconnectClient, hfd]
    show (Server.announceQuit _ _).password = _
    unfold Server.announceQuit
    split_ifs
    · exact Server.password_sendAll ..
    · rfl
  | poll h =>
    obtain ⟨_, rfl, _⟩ := Server.of_refreshPollEvents h
    rfl

theorem Moves.password_eq {s s' : Server} (h : Moves s s') : s'.password = s.password := by
  induction h with
  | refl => rfl
  | tail _ hmove ih => exact hmove.password_eq.trans ih

/-- References are sound in every reachable state. -/
theorem Reachable.integrity {s : Server} (h : Reachable s) : s.Integrity := by
  induction h with
  | start password listenFd => exact Server.integrity_start password listenFd
  | move _ hmove ih => exact hmove.integrity ih

end FtIrc
