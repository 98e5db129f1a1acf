import FtIrc.Authority
import FtIrc.Lib.Runs

/-!
# Membership, operators and invitations over a run

The lists of a channel fit together in every reachable state, and each of them grows in one
kind of move only. So a client that has left a channel is nobody there until it is invited
again or made an operator again.
-/

namespace FtIrc

open Bytes Relation

namespace Server

/-- The client is a member of the channel stored under a name. -/
def IsMember (s : Server) (p : Ptr) (name : Str) : Prop :=
  ∃ ch, s.findChannel name = some ch ∧ p ∈ ch.members

/-- The client is an operator of the channel stored under a name. -/
def IsOperator (s : Server) (p : Ptr) (name : Str) : Prop :=
  ∃ ch, s.findChannel name = some ch ∧ p ∈ ch.operators

/-- The client holds an invitation to the channel stored under a name. -/
def IsInvited (s : Server) (p : Ptr) (name : Str) : Prop :=
  ∃ ch, s.findChannel name = some ch ∧ p ∈ ch.invitedClients

/-- The channel stored under a name is `+i`. -/
def IsInviteOnly (s : Server) (name : Str) : Prop :=
  ∃ ch, s.findChannel name = some ch ∧ ch.inviteOnly = true

instance (s : Server) (p : Ptr) (name : Str) : Decidable (s.IsMember p name) :=
  inferInstanceAs (Decidable (∃ ch ∈ s.findChannel name, p ∈ ch.members))

instance (s : Server) (p : Ptr) (name : Str) : Decidable (s.IsOperator p name) :=
  inferInstanceAs (Decidable (∃ ch ∈ s.findChannel name, p ∈ ch.operators))

instance (s : Server) (p : Ptr) (name : Str) : Decidable (s.IsInvited p name) :=
  inferInstanceAs (Decidable (∃ ch ∈ s.findChannel name, p ∈ ch.invitedClients))

instance (s : Server) (name : Str) : Decidable (s.IsInviteOnly name) :=
  inferInstanceAs (Decidable (∃ ch ∈ s.findChannel name, ch.inviteOnly = true))

end Server

/-! ## What a move may do to a channel -/

/-- The channel stored under a name is changed by a line. -/
inductive ChangedByLine (c : Ptr) (m : Message) (name : Str) :
    Option Channel → Option Channel → Prop
  | kept {ch ch' : Channel} (h : Permitted c m name ch ch') :
      ChangedByLine c m name (some ch) (some ch')
  | dissolved {ch : Channel} (h : m.LeavesAll) (hmembers : ch.members = [c]) :
      ChangedByLine c m name (some ch) none
  | absent : ChangedByLine c m name none none
  | founded (h : m.Names .join name) : ChangedByLine c m name none (some (Channel.founded name c))

/-- Every channel under a name keeps or loses list entries, and is not new. -/
def Shrinks (before after : Option Channel) : Prop :=
  ∀ ch', after = some ch' → ∃ ch, before = some ch ∧ ch'.members ⊆ ch.members
    ∧ ch'.operators ⊆ ch.operators ∧ ch'.invitedClients ⊆ ch.invitedClients

theorem Shrinks.refl (o : Option Channel) : Shrinks o o := fun ch h =>
  ⟨ch, h, List.Subset.refl _, List.Subset.refl _, List.Subset.refl _⟩

/-- What a line that is handled does to the channel under a name. -/
theorem LineOf.changed {s s' : Server} (hs : s.Integrity) {c : Ptr} {line : Str}
    (h : LineOf c line s s') (name : Str) :
    ChangedByLine c (Parser.parse line) name (s.findChannel name) (s'.findChannel name) := by
  obtain ⟨x, x', hx, _, h, rfl⟩ := h
  have hx' := Server.heap_extracted hx x'
  have hs' := hs.extracted hx h
  have hc : (s.modify c fun _ => x').Allocated c := by
    rw [Server.Allocated, hx']
    rfl
  have hpath := Server.processMessage_effects hx' (Parser.parse line)
  show ChangedByLine c _ name (s.findChannel name)
    (((s.modify c fun _ => x').processMessage c (Parser.parse line)).findChannel name)
  cases hch : s.findChannel name with
  | some ch =>
    rcases hpath.permitted hs' hc hch with ⟨ch', hch', hperm⟩ | ⟨hnone, hleaves, hmembers⟩
    · rw [hch']
      exact .kept hperm
    · rw [hnone]
      exact .dissolved hleaves hmembers
  | none =>
    rcases hpath.created hs' hc hch with hnone | ⟨hfounded, hm, _, hname⟩
    · rw [hnone]
      exact .absent
    · rw [hfounded]
      exact .founded ⟨hm, hname⟩

/-- Channels grow by lines only. -/
theorem Move.channel_cases {s s' : Server} (hs : s.Integrity) (h : Move s s') (name : Str) :
    Shrinks (s.findChannel name) (s'.findChannel name)
      ∨ ∃ c line, LineOf c line s s'
          ∧ ChangedByLine c (Parser.parse line) name (s.findChannel name) (s'.findChannel name) := by
  cases h with
  | connect => exact Or.inl (.refl _)
  | io => exact Or.inl (.refl _)
  | @line c x x' line hx live h =>
    have hline : LineOf c line s ((s.modify c fun _ => x').handleLine c line) :=
      ⟨x, x', hx, live, h, rfl⟩
    exact Or.inr ⟨c, line, hline, hline.changed hs name⟩
  | @disconnect fd p _ hfd =>
    refine Or.inl fun ch' hch' => ?_
    rw [s.findChannel_disconnectClient hfd name] at hch'
    obtain ⟨ch, hch, rfl⟩ := Option.map_eq_some_iff.mp hch'
    rw [Channel.removeMember_eq]
    exact ⟨ch, hch, List.erase_subset, List.erase_subset, List.erase_subset⟩
  | poll h =>
    obtain ⟨_, rfl, _⟩ := Server.of_refreshPollEvents h
    exact Or.inl (.refl _)

/-! ## How a client gets onto a list -/

/-- A line that makes a client an operator: a MODE of an operator, or the JOIN that founds the
channel. -/
def OperatorGrant (p : Ptr) (name : Str) (s s' : Server) : Prop :=
  ∃ c line, LineOf c line s s' ∧ (((Parser.parse line).Names .mode name ∧ s.IsOperator c name)
    ∨ (c = p ∧ (Parser.parse line).Names .join name ∧ s.findChannel name = none))

/-- A line that invites: an INVITE of a member, who is an operator if the channel is `+i`. -/
def InvitationGrant (name : Str) (s s' : Server) : Prop :=
  ∃ c line, LineOf c line s s' ∧ (Parser.parse line).Names .invite name ∧ s.IsMember c name
    ∧ (s.IsInviteOnly name → s.IsOperator c name)

section Gains

variable {s s' : Server} {p : Ptr} {name : Str}

theorem Move.operator_gained (hs : s.Integrity) (h : Move s s') (hbefore : ¬ s.IsOperator p name)
    (hafter : s'.IsOperator p name) : OperatorGrant p name s s' := by
  obtain ⟨ch', hch', hp⟩ := hafter
  have hmem : p ∈ ch'.members := ((h.integrity hs).channel name ch' hch').wf.operators_sub p hp
  rcases h.channel_cases hs name with hshrinks | ⟨c, line, hline, hchanged⟩
  · obtain ⟨ch, hch, _, hops, _⟩ := hshrinks ch' hch'
    exact absurd ⟨ch, hch, hops hp⟩ hbefore
  refine ⟨c, line, hline, ?_⟩
  rw [hch'] at hchanged
  cases hch : s.findChannel name with
  | none =>
    rw [hch] at hchanged
    cases hchanged with
    | founded h => exact Or.inr ⟨(List.mem_singleton.mp hp).symm, h, rfl⟩
  | some ch =>
    rw [hch] at hchanged
    cases hchanged with
    | kept hperm =>
      have hnot : p ∉ ch.operators := fun hop => hbefore ⟨ch, hch, hop⟩
      obtain ⟨hnames, hop⟩ := (hperm.authorised (hs.channel name ch hch).wf).modes
        (Or.inr (Or.inr (Or.inr (Or.inr ⟨p, hmem, fun hiff => hnot (hiff.mp hp)⟩))))
      exact Or.inl ⟨hnames, ch, hch, hop⟩

theorem Move.invitation_gained (hs : s.Integrity) (h : Move s s') (hbefore : ¬ s.IsInvited p name)
    (hafter : s'.IsInvited p name) : InvitationGrant name s s' := by
  obtain ⟨ch', hch', hp⟩ := hafter
  rcases h.channel_cases hs name with hshrinks | ⟨c, line, hline, hchanged⟩
  · obtain ⟨ch, hch, _, _, hinvited⟩ := hshrinks ch' hch'
    exact absurd ⟨ch, hch, hinvited hp⟩ hbefore
  refine ⟨c, line, hline, ?_⟩
  rw [hch'] at hchanged
  cases hch : s.findChannel name with
  | none =>
    rw [hch] at hchanged
    cases hchanged with
    | founded => exact absurd hp List.not_mem_nil
  | some ch =>
    rw [hch] at hchanged
    cases hchanged with
    | kept hperm =>
      have hnot : p ∉ ch.invitedClients := fun hin => hbefore ⟨ch, hch, hin⟩
      obtain ⟨hnames, hmem, hop⟩ :=
        (hperm.authorised (hs.channel name ch hch).wf).invitation p hp hnot
      refine ⟨hnames, ⟨ch, hch, hmem⟩, fun ⟨ch₁, hch₁, hinvite⟩ => ⟨ch, hch, hop ?_⟩⟩
      rwa [Option.some_inj.mp (hch.symm.trans hch₁)]

/-- A client enters a channel by its own JOIN, and a channel that is `+i` only when invited. -/
theorem Move.member_gained (hs : s.Integrity) (h : Move s s') (hbefore : ¬ s.IsMember p name)
    (hafter : s'.IsMember p name) :
    ∃ line, LineOf p line s s' ∧ (Parser.parse line).Names .join name
      ∧ (s.IsInviteOnly name → s.IsInvited p name) := by
  obtain ⟨ch', hch', hp⟩ := hafter
  rcases h.channel_cases hs name with hshrinks | ⟨c, line, hline, hchanged⟩
  · obtain ⟨ch, hch, hmembers, _⟩ := hshrinks ch' hch'
    exact absurd ⟨ch, hch, hmembers hp⟩ hbefore
  rw [hch'] at hchanged
  cases hch : s.findChannel name with
  | none =>
    rw [hch] at hchanged
    cases hchanged with
    | founded h =>
      obtain rfl := List.mem_singleton.mp hp
      refine ⟨line, hline, h, fun ⟨ch₁, hch₁, _⟩ => ?_⟩
      cases hch.symm.trans hch₁
  | some ch =>
    rw [hch] at hchanged
    cases hchanged with
    | kept hperm =>
      have hnot : p ∉ ch.members := fun hmem => hbefore ⟨ch, hch, hmem⟩
      obtain ⟨rfl, hnames⟩ := (hperm.authorised (hs.channel name ch hch).wf).entry p hp hnot
      refine ⟨line, hline, hnames, fun ⟨ch₁, hch₁, hinvite⟩ => ⟨ch, hch, ?_⟩⟩
      obtain rfl := Option.some_inj.mp (hch.symm.trans hch₁)
      cases hperm with
      | joined _ _ _ _ hinvited => exact hinvited hinvite
      | unchanged => exact absurd hp hnot
      | left h =>
        rw [Channel.removeMember_eq] at hp
        exact absurd (List.mem_of_mem_erase hp) hnot
      | kicked _ h | invited _ h | topic _ h | mode h =>
        exact absurd (h.symm.trans hnames.1) (by decide)

/-- A client that leaves a channel leaves nothing behind in its lists. -/
theorem Move.left_behind (hs : s.Integrity) (h : Move s s') (hbefore : s.IsMember p name)
    (hafter : ¬ s'.IsMember p name) : ¬ s'.IsOperator p name ∧ ¬ s'.IsInvited p name := by
  have hs' := h.integrity hs
  constructor
  · intro ⟨ch', hch', hop⟩
    exact hafter ⟨ch', hch', (hs'.channel name ch' hch').wf.operators_sub p hop⟩
  · intro ⟨ch', hch', hin⟩
    obtain ⟨ch, hch, hmem⟩ := hbefore
    have hnot : p ∉ ch.invitedClients := fun h =>
      (hs.channel name ch hch).wf.invited_disjoint p h hmem
    rcases h.channel_cases hs name with hshrinks | ⟨c, line, hline, hchanged⟩
    · obtain ⟨ch₁, hch₁, _, _, hinvited⟩ := hshrinks ch' hch'
      obtain rfl := Option.some_inj.mp (hch.symm.trans hch₁)
      exact hnot (hinvited hin)
    · rw [hch', hch] at hchanged
      cases hchanged with
      | kept hperm =>
        obtain ⟨hnames, _⟩ :=
          (hperm.authorised (hs.channel name ch hch).wf).invitation p hin hnot
        -- an INVITE removes nobody
        cases hperm with
        | unchanged => exact hnot hin
        | invited qs =>
          obtain ⟨_, heq⟩ := Channel.foldl_addInvited qs ch
          exact hafter ⟨_, hch', by rw [heq]; exact hmem⟩
        | left h => exact absurd (h.1.symm.trans hnames.1) (by decide)
        | joined h | kicked _ h | topic _ h | mode h =>
          exact absurd (h.symm.trans hnames.1) (by decide)

end Gains

/-! ## The representation invariant -/

/-- The lists of every channel fit together in every reachable state. A client that leaves a
channel is neither operator nor invited there, and from then on becomes an operator only by a
grant, and enters the channel while it is `+i` only after an INVITE. -/
theorem channel_representation {s : Server} (h : Reachable s) :
    (∀ name ch, s.findChannel name = some ch →
      ch.members.Nodup ∧ ch.operators.Nodup ∧ ch.invitedClients.Nodup
        ∧ (∀ p ∈ ch.operators, p ∈ ch.members)
        ∧ ∀ p, ¬ (p ∈ ch.members ∧ p ∈ ch.invitedClients))
    ∧ (∀ s' p name, Move s s' → s.IsMember p name → ¬ s'.IsMember p name →
        ¬ s'.IsOperator p name ∧ ¬ s'.IsInvited p name)
    ∧ (∀ s' p name, Moves s s' → ¬ s.IsOperator p name → s'.IsOperator p name →
        ∃ t t', Moves s t ∧ OperatorGrant p name t t' ∧ Move t t' ∧ Moves t' s')
    ∧ ∀ s' s'' p name, Moves s s' → ¬ s.IsInvited p name → Move s' s'' → ¬ s'.IsMember p name →
        s''.IsMember p name → s'.IsInviteOnly name →
        ∃ t t', Moves s t ∧ InvitationGrant name t t' ∧ Move t t' ∧ Moves t' s'
          ∧ ¬ t.IsInvited p name ∧ t'.IsInvited p name := by
  refine ⟨fun name ch hch => ?_, fun s' p name hmove => hmove.left_behind h.integrity,
    fun s' p name hrun hbefore hafter => ?_,
    fun s' s'' p name hrun hbefore hmove hout hin hinvite => ?_⟩
  · have hwf := (h.integrity.channel name ch hch).wf
    exact ⟨hwf.nodup_members, hwf.nodup_operators, hwf.nodup_invited, hwf.operators_sub,
      fun p ⟨hmem, hin⟩ => hwf.invited_disjoint p hin hmem⟩
  · obtain ⟨t, t', hst, hmove, hrest, hno, hyes⟩ :=
      hrun.exists_step_of_not (P := fun t => t.IsOperator p name) hbefore hafter
    exact ⟨t, t', hst, hmove.operator_gained (h.moves hst).integrity hno hyes, hmove, hrest⟩
  · obtain ⟨_, _, _, hinvited⟩ := hmove.member_gained (h.moves hrun).integrity hout hin
    obtain ⟨t, t', hst, hstep, hrest, hno, hyes⟩ :=
      hrun.exists_step_of_not (P := fun t => t.IsInvited p name) hbefore (hinvited hinvite)
    exact ⟨t, t', hst, hstep.invitation_gained (h.moves hst).integrity hno hyes, hstep, hrest,
      hno, hyes⟩

/-- In the sample, neither client can become anything on `#c` without a grant. -/
theorem channel_representation_sample :
    (sample.findChannel (lit "#c")).map Channel.operators = some [0]
      ∧ ∀ s' p, Moves sample s' → p ≠ 0 → s'.IsOperator p (lit "#c") →
          ∃ t t', Moves sample t ∧ OperatorGrant p (lit "#c") t t' ∧ Move t t' ∧ Moves t' s' := by
  have hlists : (sample.findChannel (lit "#c")).map Channel.operators = some [0] := by
    decide +kernel
  refine ⟨hlists, fun s' p hrun hp => ?_⟩
  refine (channel_representation reachable_sample).2.2.1 s' p _ hrun ?_
  rintro ⟨ch, hch, hop⟩
  rw [hch, Option.map_some, Option.some_inj] at hlists
  rw [hlists] at hop
  exact hp (List.mem_singleton.mp hop)

end FtIrc
