import FtIrc.Membership

/-!
# Channels without operators

An operator is made by an operator, or by founding the channel. So a channel that has lost its last
operator never has one again, and what only an operator may change stays as it is for as long as the
channel exists: its modes, its key, its limit, a `+t` topic, and the circle of a `+i` channel. Only
`JOIN 0` of its last member deletes it. A `+i` channel with neither members nor invitations is never
entered and never deleted.
-/

namespace FtIrc

open Bytes Relation

namespace Channel

/-- What may become of a channel without operators. -/
structure AgesTo (ch ch' : Channel) : Prop where
  operators : ch'.operators = []
  name : ch'.name = ch.name
  inviteOnly : ch'.inviteOnly = ch.inviteOnly
  topicRestricted : ch'.topicRestricted = ch.topicRestricted
  password : ch'.password = ch.password
  userLimit : ch'.userLimit = ch.userLimit
  topic : ch.topicRestricted = true → ch'.topic = ch.topic
  members : ch.inviteOnly = true → ∀ p ∈ ch'.members, p ∈ ch.members ∨ p ∈ ch.invitedClients
  invited : ch.inviteOnly = true → ch'.invitedClients ⊆ ch.invitedClients

variable {ch ch' ch'' : Channel}

theorem AgesTo.refl (hops : ch.operators = []) : ch.AgesTo ch where
  operators := hops
  name := rfl
  inviteOnly := rfl
  topicRestricted := rfl
  password := rfl
  userLimit := rfl
  topic _ := rfl
  members _ _ hp := Or.inl hp
  invited _ := List.Subset.refl _

theorem AgesTo.trans (h : ch.AgesTo ch') (h' : ch'.AgesTo ch'') : ch.AgesTo ch'' where
  operators := h'.operators
  name := h'.name.trans h.name
  inviteOnly := h'.inviteOnly.trans h.inviteOnly
  topicRestricted := h'.topicRestricted.trans h.topicRestricted
  password := h'.password.trans h.password
  userLimit := h'.userLimit.trans h.userLimit
  topic hlocked := (h'.topic (h.topicRestricted.trans hlocked)).trans (h.topic hlocked)
  members hclosed p hp := by
    rcases h'.members (h.inviteOnly.trans hclosed) p hp with hmem | hin
    · exact h.members hclosed p hmem
    · exact Or.inr (h.invited hclosed hin)
  invited hclosed := fun _ hp => h.invited hclosed (h'.invited (h.inviteOnly.trans hclosed) hp)

/-- A client that leaves takes nothing along but its own entries. -/
theorem AgesTo.erase (hops : ch.operators = []) (p : Ptr) :
    ch.AgesTo { ch with
      members := ch.members.erase p
      operators := ch.operators.erase p
      invitedClients := ch.invitedClients.erase p } where
  operators := by rw [hops, List.erase_nil]
  name := rfl
  inviteOnly := rfl
  topicRestricted := rfl
  password := rfl
  userLimit := rfl
  topic _ := rfl
  members _ _ hq := Or.inl (List.mem_of_mem_erase hq)
  invited _ := List.erase_subset

/-- A `+i` channel that nobody is in, or invited to. -/
structure Sealed (ch : Channel) : Prop where
  inviteOnly : ch.inviteOnly = true
  members : ch.members = []
  invited : ch.invitedClients = []

end Channel

/-! ## A line -/

section Lines

variable {c : Ptr} {m : Message} {name : Str} {ch ch' : Channel}

/-- No line makes more of a channel without operators. -/
theorem Permitted.agesTo (h : Permitted c m name ch ch') (hops : ch.operators = []) :
    ch.AgesTo ch' := by
  have hnobody : c ∉ ch.operators := by
    rw [hops]
    exact List.not_mem_nil
  cases h with
  | unchanged => exact .refl hops
  | joined _ _ _ hout hinvited =>
    rw [Channel.addMember_of_not_mem _ hout]
    refine { Channel.AgesTo.refl hops with
      operators := hops
      members := fun hclosed p hp => ?_
      invited := fun _ => List.erase_subset }
    rcases List.mem_append.mp hp with hp | hp
    · exact Or.inl hp
    · rw [List.mem_singleton.mp hp]
      exact Or.inr (hinvited hclosed)
  | left =>
    rw [Channel.removeMember_eq]
    exact { Channel.AgesTo.erase hops c with invited := fun _ => List.Subset.refl _ }
  | kicked _ _ _ _ hop => exact absurd hop hnobody
  | invited qs _ _ _ hop =>
    obtain ⟨invited, heq⟩ := Channel.foldl_addInvited qs ch
    rw [heq]
    exact { Channel.AgesTo.refl hops with
      invited := fun hclosed => absurd (hop hclosed) hnobody }
  | topic text _ _ _ hop =>
    exact { Channel.AgesTo.refl hops with
      topic := fun hlocked => absurd (hop hlocked) hnobody }
  | mode _ _ hop => exact absurd hop hnobody

/-- No line does anything to a sealed channel. -/
theorem Permitted.eq_of_sealed (h : Permitted c m name ch ch') (hops : ch.operators = [])
    (hsealed : ch.Sealed) : ch' = ch := by
  have hout : c ∉ ch.members := by
    rw [hsealed.members]
    exact List.not_mem_nil
  have hnobody : c ∉ ch.operators := by
    rw [hops]
    exact List.not_mem_nil
  cases h with
  | unchanged => rfl
  | joined _ _ _ _ hinvited =>
    have hin := hinvited hsealed.inviteOnly
    rw [hsealed.invited] at hin
    exact absurd hin List.not_mem_nil
  | left _ hmem => exact absurd hmem hout
  | kicked _ _ _ hmem => exact absurd hmem hout
  | invited _ _ _ hmem => exact absurd hmem hout
  | topic _ _ _ hmem => exact absurd hmem hout
  | mode _ _ hop => exact absurd hop hnobody

end Lines

/-! ## A move -/

/-- `JOIN 0` of the only member deletes the channel. -/
def Dissolves (name : Str) (s s' : Server) : Prop :=
  ∃ c line ch, LineOf c line s s' ∧ (Parser.parse line).LeavesAll ∧ s.findChannel name = some ch
    ∧ ch.members = [c] ∧ s'.findChannel name = none

section Moves

variable {s s' : Server} {name : Str} {ch : Channel}

/-- What a move makes of a channel that is there: a line has its say, a disconnect takes entries out. -/
theorem Move.channel_fate (hs : s.Integrity) (h : Move s s') (hch : s.findChannel name = some ch) :
    Dissolves name s s' ∨ ∃ ch', s'.findChannel name = some ch'
      ∧ ((∃ c m, Permitted c m name ch ch') ∨ ∃ p, ch' = (ch.removeMember p).removeInvited p) := by
  have hstays : s'.findChannel name = s.findChannel name → ∃ ch', s'.findChannel name = some ch'
      ∧ ((∃ c m, Permitted c m name ch ch') ∨ ∃ p, ch' = (ch.removeMember p).removeInvited p) :=
    fun heq => ⟨ch, heq.trans hch, Or.inl ⟨0, Parser.parse [], .unchanged⟩⟩
  cases h with
  | connect => exact Or.inr (hstays rfl)
  | io => exact Or.inr (hstays rfl)
  | @line c x x' line hx live hout =>
    have hline : LineOf c line s ((s.modify c fun _ => x').handleLine c line) :=
      ⟨x, x', hx, live, hout, rfl⟩
    have hchanged := hline.changed hs name
    rw [hch] at hchanged
    cases hafter : ((s.modify c fun _ => x').handleLine c line).findChannel name with
    | none =>
      rw [hafter] at hchanged
      cases hchanged with
      | dissolved hleaves hmembers =>
        exact Or.inl ⟨c, line, ch, hline, hleaves, hch, hmembers, hafter⟩
    | some ch' =>
      rw [hafter] at hchanged
      cases hchanged with
      | kept h => exact Or.inr ⟨ch', rfl, Or.inl ⟨c, _, h⟩⟩
  | @disconnect fd p _ hfd =>
    refine Or.inr ⟨_, ?_, Or.inr ⟨p, rfl⟩⟩
    rw [s.findChannel_disconnectClient hfd name, hch, Option.map_some]
  | poll h =>
    obtain ⟨_, rfl, _⟩ := Server.of_refreshPollEvents h
    exact Or.inr (hstays rfl)

theorem Move.agesTo (hs : s.Integrity) (h : Move s s') (hch : s.findChannel name = some ch)
    (hops : ch.operators = []) :
    Dissolves name s s' ∨ ∃ ch', s'.findChannel name = some ch' ∧ ch.AgesTo ch' := by
  rcases h.channel_fate hs hch with hgone | ⟨ch', hch', ⟨c, m, h⟩ | ⟨p, rfl⟩⟩
  · exact Or.inl hgone
  · exact Or.inr ⟨ch', hch', h.agesTo hops⟩
  · refine Or.inr ⟨_, hch', ?_⟩
    rw [Channel.removeMember_eq]
    exact .erase hops p

theorem Move.sealed (hs : s.Integrity) (h : Move s s') (hch : s.findChannel name = some ch)
    (hsealed : ch.Sealed) : s'.findChannel name = some ch := by
  have hops : ch.operators = [] := by
    refine List.eq_nil_iff_forall_not_mem.mpr fun p hp => ?_
    have hmem := (hs.channel name ch hch).wf.operators_sub p hp
    rw [hsealed.members] at hmem
    exact List.not_mem_nil hmem
  rcases h.channel_fate hs hch with ⟨c, _, ch₁, _, _, hch₁, hmembers, _⟩ | ⟨ch', hch', ⟨c, m, h⟩ | ⟨p, rfl⟩⟩
  · obtain rfl := Option.some_inj.mp (hch.symm.trans hch₁)
    rw [hsealed.members] at hmembers
    cases hmembers
  · rw [hch', h.eq_of_sealed hops hsealed]
  · have hnobody : ∀ {l : List Ptr}, l = [] → l.erase p = l := by
      rintro _ rfl
      rfl
    rw [hch', Channel.removeMember_eq]
    show some { ch with
      members := ch.members.erase p
      operators := ch.operators.erase p
      invitedClients := ch.invitedClients.erase p } = _
    rw [hnobody hops, hnobody hsealed.members, hnobody hsealed.invited]

end Moves

/-! ## A run -/

/-- A channel without operators never has one again, and what only operators may change stays as it
is, until `JOIN 0` of the last member deletes it. A `+i` channel without members and invitations is
in every later state exactly what it was. -/
theorem ownerless_channels {s s' : Server} (hs : Reachable s) (hrun : Moves s s') {name : Str}
    {ch : Channel} (hch : s.findChannel name = some ch) :
    (ch.operators = [] →
      (∃ t t', Moves s t ∧ Dissolves name t t' ∧ Moves t' s')
        ∨ ∃ ch', s'.findChannel name = some ch' ∧ ch.AgesTo ch')
    ∧ (ch.Sealed → s'.findChannel name = some ch) := by
  constructor
  · intro hops
    induction hrun with
    | refl => exact Or.inr ⟨ch, hch, .refl hops⟩
    | @tail u v hsu huv ih =>
      have hint := (hs.moves hsu).integrity
      rcases ih with ⟨t, t', hst, hgone, hrest⟩ | ⟨ch', hch', haged⟩
      · exact Or.inl ⟨t, t', hst, hgone, hrest.tail huv⟩
      rcases huv.agesTo hint hch' haged.operators with hgone | ⟨ch'', hch'', haged'⟩
      · exact Or.inl ⟨u, v, hsu, hgone, .refl⟩
      · exact Or.inr ⟨ch'', hch'', haged.trans haged'⟩
  · intro hsealed
    induction hrun with
    | refl => exact hch
    | tail hsu huv ih => exact huv.sealed (hs.moves hsu).integrity ih hsealed

/-- The operator of the sample has restricted its channel and has left it to the other client. -/
def bequeathed : Server :=
  sample.run [.read 4 (.data (lit "MODE #c +itl 7\r\nKICK #c ann\r\n"))]

/-- The other client is gone as well. -/
def vacant : Server :=
  bequeathed.run [.pollError 5, .reap]

/-- The second client stays without rights in `#c`, and nobody ever joins it there. Once it is gone
the channel is sealed. -/
theorem ownerless_channels_sample :
    (∀ s', Moves bequeathed s' → (∃ t t', Moves bequeathed t ∧ Dissolves (lit "#c") t t' ∧ Moves t' s')
      ∨ ∃ ch', s'.findChannel (lit "#c") = some ch' ∧ ch'.operators = [] ∧ ch'.userLimit = 7
          ∧ ∀ p ∈ ch'.members, p = 1)
    ∧ ∀ s', Moves vacant s' → s'.findChannel (lit "#c") = vacant.findChannel (lit "#c") := by
  obtain ⟨hfirst, hsecond, hlists, hempty⟩ :
      sample.AdmitsAll [.read 4 (.data (lit "MODE #c +itl 7\r\nKICK #c ann\r\n"))]
      ∧ bequeathed.AdmitsAll [.pollError 5, .reap]
      ∧ (bequeathed.findChannel (lit "#c")).map (fun ch => (ch.members, ch.operators, ch.inviteOnly,
          ch.userLimit, ch.invitedClients)) = some ([1], [], true, 7, [])
      ∧ (vacant.findChannel (lit "#c")).map (fun ch => (ch.members, ch.inviteOnly, ch.invitedClients))
          = some ([], true, []) := by
    decide +kernel
  have hbequeathed : Reachable bequeathed := reachable_sample.run hfirst
  have hvacant : Reachable vacant := hbequeathed.run hsecond
  obtain ⟨ch, hch, hlists⟩ := Option.map_eq_some_iff.mp hlists
  obtain ⟨ch₁, hch₁, hempty⟩ := Option.map_eq_some_iff.mp hempty
  simp only [Prod.mk.injEq] at hlists hempty
  obtain ⟨hmembers, hops, hclosed, hlimit, hinvited⟩ := hlists
  obtain ⟨hnone, hclosed₁, hnone'⟩ := hempty
  refine ⟨fun s' hrun => ?_, fun s' hrun => ?_⟩
  · rcases (ownerless_channels hbequeathed hrun hch).1 hops with hgone | ⟨ch', hch', haged⟩
    · exact Or.inl hgone
    · refine Or.inr ⟨ch', hch', haged.operators, haged.userLimit.trans hlimit, fun p hp => ?_⟩
      rcases haged.members hclosed p hp with hmem | hin
      · rw [hmembers] at hmem
        exact List.mem_singleton.mp hmem
      · rw [hinvited] at hin
        exact absurd hin List.not_mem_nil
  · rw [hch₁]
    exact (ownerless_channels hvacant hrun hch₁).2 ⟨hclosed₁, hnone, hnone'⟩

end FtIrc
