import FtIrc.Events

/-!
# Channel authority

What a whole line may have done to a channel when it has been handled. `Permitted` is closed
under the changes a line makes one after the other, so the elements of a comma list and the
letters of a mode string need no induction of their own.
-/

namespace FtIrc

open Bytes

/-! ## One channel over a whole line -/

/-- What the line `m` of client `c` may make of a channel `ch₀` that was there before, as long
as the channel exists. -/
inductive Permitted (c : Ptr) (m : Message) (name : Str) (ch₀ : Channel) : Channel → Prop
  | unchanged : Permitted c m name ch₀ ch₀
  | joined (h : m.handler = some .join) (hzero : m.params.head? ≠ some (lit "0"))
      (hname : name ∈ m.channelNames) (hout : c ∉ ch₀.members)
      (hinvited : ch₀.inviteOnly = true → c ∈ ch₀.invitedClients) :
      Permitted c m name ch₀ ((ch₀.addMember c).removeInvited c)
  | left (h : m.LeavesAll) (hmem : c ∈ ch₀.members)
      (hrest : (ch₀.removeMember c).members ≠ []) : Permitted c m name ch₀ (ch₀.removeMember c)
  | kicked (qs : List Ptr) (h : m.handler = some .kick) (hname : name ∈ m.channelNames)
      (hmem : c ∈ ch₀.members) (hop : c ∈ ch₀.operators) :
      Permitted c m name ch₀ (qs.foldl Channel.removeMember ch₀)
  | invited (qs : List Ptr) (h : m.handler = some .invite) (hname : name ∈ m.channelNames)
      (hmem : c ∈ ch₀.members) (hop : ch₀.inviteOnly = true → c ∈ ch₀.operators) :
      Permitted c m name ch₀ (qs.foldl Channel.addInvited ch₀)
  | topic (text : Str) (h : m.handler = some .topic) (hname : name ∈ m.channelNames)
      (hmem : c ∈ ch₀.members) (hop : ch₀.topicRestricted = true → c ∈ ch₀.operators) :
      Permitted c m name ch₀ { ch₀ with topic := text }
  | mode {ch : Channel} (h : m.handler = some .mode) (hname : name ∈ m.channelNames)
      (hop : c ∈ ch₀.operators) (hkept : ch.name = ch₀.name ∧ ch.topic = ch₀.topic
        ∧ ch.members = ch₀.members ∧ ch.invitedClients = ch₀.invitedClients) :
      Permitted c m name ch₀ ch

namespace Channel

/-- Removing members leaves the rest of a channel alone. -/
theorem foldl_removeMember (qs : List Ptr) (ch : Channel) :
    qs.foldl removeMember ch
      = { ch with members := ch.members.diff qs, operators := ch.operators.diff qs } := by
  induction qs generalizing ch with
  | nil => rfl
  | cons q qs ih =>
    rw [List.foldl_cons, ih, removeMember_eq, List.diff_cons, List.diff_cons]

/-- Inviting leaves everything but the invitations alone. -/
theorem foldl_addInvited (qs : List Ptr) (ch : Channel) :
    ∃ invited, qs.foldl addInvited ch = { ch with invitedClients := invited } := by
  induction qs generalizing ch with
  | nil => exact ⟨ch.invitedClients, rfl⟩
  | cons q qs ih =>
    obtain ⟨invited, h⟩ := ih (ch.addInvited q)
    refine ⟨invited, ?_⟩
    rw [List.foldl_cons, h]
    unfold addInvited
    split_ifs <;> rfl

end Channel

theorem ModeChange.kept {s : Server} {ch ch' : Channel} (h : ModeChange s ch ch') :
    ch'.name = ch.name ∧ ch'.topic = ch.topic ∧ ch'.members = ch.members
      ∧ ch'.invitedClients = ch.invitedClients := by
  cases h with
  | addOperator _ _ hop =>
    rw [Channel.addOperator_of_not_mem _ hop]
    exact ⟨rfl, rfl, rfl, rfl⟩
  | _ => exact ⟨rfl, rfl, rfl, rfl⟩

section Closure

variable {c : Ptr} {m : Message} {s₀ s : Server} {name : Str} {ch₀ ch ch' : Channel}

/-- One more change of the channel by the same line. -/
theorem Permitted.change (h : Permitted c m name ch₀ ch) (h₀ : s₀.findChannel name = some ch₀)
    (hname : name ∈ m.channelNames) (hchange : ChannelChange c m s₀ s name ch ch') :
    Permitted c m name ch₀ ch' := by
  cases hchange with
  | join hm hzero hout _ hinvited _ =>
    cases h with
    | unchanged => exact .joined hm hzero hname hout hinvited
    | joined _ _ _ hout₀ =>
      rw [Channel.addMember_of_not_mem _ hout₀] at hout
      exact absurd (List.mem_append_right _ (List.mem_singleton_self c)) hout
    | left h => exact absurd h.2 hzero
    | kicked _ h | invited _ h | topic _ h | mode h => rw [hm] at h; cases h
  | @kick q hm hmem hop hq =>
    cases h with
    | unchanged => exact .kicked [q] hm hname hmem hop
    | kicked qs _ _ hmem₀ hop₀ =>
      have h : Permitted c m name ch₀ ((qs ++ [q]).foldl Channel.removeMember ch₀) :=
        .kicked _ hm hname hmem₀ hop₀
      rwa [List.foldl_append] at h
    | left h => exact absurd (hm.symm.trans h.1) (by decide)
    | joined h | invited _ h | topic _ h | mode h => rw [hm] at h; cases h
  | @invite nick q hm hmem hop hfind hq =>
    cases h with
    | unchanged => exact .invited [q] hm hname hmem hop
    | invited qs _ _ hmem₀ hop₀ =>
      have h : Permitted c m name ch₀ ((qs ++ [q]).foldl Channel.addInvited ch₀) :=
        .invited _ hm hname hmem₀ hop₀
      rwa [List.foldl_append] at h
    | left h => exact absurd (hm.symm.trans h.1) (by decide)
    | joined h | kicked _ h | topic _ h | mode h => rw [hm] at h; cases h
  | topic text hm hmem hop =>
    cases h with
    | unchanged => exact .topic text hm hname hmem hop
    | topic _ _ _ hmem₀ hop₀ => exact .topic text hm hname hmem₀ hop₀
    | left h => exact absurd (hm.symm.trans h.1) (by decide)
    | joined h | kicked _ h | invited _ h | mode h => rw [hm] at h; cases h
  | @mode ch₁ _ hm h₁ hop hchange =>
    rw [h₀] at h₁
    obtain rfl := Option.some_inj.mp h₁
    obtain ⟨hname', htopic, hmembers, hinvited⟩ := hchange.kept
    cases h with
    | unchanged => exact .mode hm hname hop ⟨hname', htopic, hmembers, hinvited⟩
    | mode _ _ _ hkept =>
      exact .mode hm hname hop ⟨hname'.trans hkept.1, htopic.trans hkept.2.1,
        hmembers.trans hkept.2.2.1, hinvited.trans hkept.2.2.2⟩
    | left h => exact absurd (hm.symm.trans h.1) (by decide)
    | joined h | kicked _ h | invited _ h | topic _ h => rw [hm] at h; cases h

/-- A client leaves a channel only once in a line. -/
theorem Permitted.part (h : Permitted c m name ch₀ ch) (hwf : ch₀.Wf) (hleaves : m.LeavesAll)
    (hmem : c ∈ ch.members) : ch = ch₀ := by
  cases h with
  | unchanged => rfl
  | joined _ hzero => exact absurd hleaves.2 hzero
  | left =>
    exact absurd hmem (hwf.not_mem_removeMember c)
  | kicked _ h | invited _ h | topic _ h | mode h => exact absurd (h.symm.trans hleaves.1) (by decide)

end Closure

/-! ## All channels over a whole line -/

theorem eq_singleton_of_erase {l : List Ptr} {c : Ptr} (hc : c ∈ l)
    (h : l.erase c = []) : l = [c] := by
  have hlen := List.length_erase_of_mem hc
  rw [h] at hlen
  obtain ⟨a, ha⟩ := List.length_eq_one_iff.mp (by
    have hpos := List.length_pos_of_mem hc
    have hnil : ([] : List Ptr).length = 0 := rfl
    omega : l.length = 1)
  rw [ha] at hc ⊢
  rw [List.mem_singleton.mp hc]

section Lines

variable {c : Ptr} {m : Message} {s₀ s : Server} {name : Str} {ch₀ : Channel}

/-- What a line may have done to a channel that was there. -/
theorem Effects.permitted (hs : s₀.Integrity) (hc : s₀.Allocated c) (h : Effects c m s₀ s)
    (h₀ : s₀.findChannel name = some ch₀) :
    (∃ ch, s.findChannel name = some ch ∧ Permitted c m name ch₀ ch)
      ∨ (s.findChannel name = none ∧ m.LeavesAll ∧ ch₀.members = [c]) := by
  have hwf := (hs.channel name ch₀ h₀).wf
  apply h.induct (P := fun t => (∃ ch, t.findChannel name = some ch ∧ Permitted c m name ch₀ ch)
    ∨ (t.findChannel name = none ∧ m.LeavesAll ∧ ch₀.members = [c])) (Or.inl ⟨ch₀, h₀, .unchanged⟩)
  intro t t' hpath heff ht
  have hint : t.Integrity := hpath.integrity hs hc
  cases heff with
  | reply => exact ht
  | relay => exact ht
  | own => exact ht
  | @found _ n _ _ hzero _ _ hnew =>
    show (∃ ch, (t.channels.insert n _).find? name = some ch ∧ _) ∨ _
    rw [OrdMap.find?_insert]
    split_ifs with hn
    · rw [hn] at ht
      -- JOIN founds what is not there, and `JOIN 0` founds nothing
      rcases ht with ⟨ch, hch, _⟩ | ⟨_, hleaves, _⟩
      · rw [hnew] at hch
        cases hch
      · exact absurd hleaves.2 hzero
    · have hfind : (t.channels.insert n (Channel.founded n c)).find? name = t.findChannel name :=
        OrdMap.find?_insert_ne _ _ hn
      rwa [Server.findChannel, hfind]
  | @change _ n ch ch' _ hn hch hchange =>
    rw [Server.findChannel_modifyChannel hch]
    split_ifs with heq
    · subst heq
      rw [hch] at ht
      rcases ht with ⟨ch₁, hch₁, hperm⟩ | ⟨hnone, _⟩
      · obtain rfl := Option.some_inj.mp hch₁
        exact Or.inl ⟨ch', rfl, hperm.change h₀ hn hchange⟩
      · cases hnone
    · exact ht
  | @part _ n ch _ hleaves hch hmem hrest =>
    rw [Server.findChannel_modifyChannel hch]
    split_ifs with heq
    · subst heq
      rw [hch] at ht
      rcases ht with ⟨ch₁, hch₁, hperm⟩ | ⟨hnone, _⟩
      · obtain rfl := Option.some_inj.mp hch₁
        obtain rfl := hperm.part hwf hleaves hmem
        exact Or.inl ⟨_, rfl, .left hleaves hmem hrest⟩
      · cases hnone
    · exact ht
  -- only `JOIN 0` deletes, and only a channel that it empties
  | @dissolve _ n ch _ hleaves hch hmem hrest =>
    rw [Server.findChannel_removeChannel, Server.findChannel_modifyChannel hch,
      (hint.channel n ch hch).name_eq]
    split_ifs with heq
    · subst heq
      rw [hch] at ht
      rcases ht with ⟨ch₁, hch₁, hperm⟩ | ⟨hnone, _⟩
      · obtain rfl := Option.some_inj.mp hch₁
        obtain rfl := hperm.part hwf hleaves hmem
        refine Or.inr ⟨rfl, hleaves, ?_⟩
        rw [Channel.removeMember_eq] at hrest
        exact eq_singleton_of_erase hmem hrest
      · cases hnone
    · exact ht

/-- What a line may have done under a name that was not there. -/
theorem Effects.created (hs : s₀.Integrity) (hc : s₀.Allocated c) (h : Effects c m s₀ s)
    (h₀ : s₀.findChannel name = none) :
    s.findChannel name = none
      ∨ (s.findChannel name = some (Channel.founded name c) ∧ m.handler = some .join
          ∧ m.params.head? ≠ some (lit "0") ∧ name ∈ m.channelNames) := by
  apply h.induct (P := fun t => t.findChannel name = none
    ∨ (t.findChannel name = some (Channel.founded name c) ∧ m.handler = some .join
        ∧ m.params.head? ≠ some (lit "0") ∧ name ∈ m.channelNames)) (Or.inl h₀)
  intro t t' hpath heff ht
  have hint : t.Integrity := hpath.integrity hs hc
  cases heff with
  | reply => exact ht
  | relay => exact ht
  | own => exact ht
  | @found _ n _ hm hzero hn _ hnew =>
    show (t.channels.insert n _).find? name = none ∨ (t.channels.insert n _).find? name = _ ∧ _
    rw [OrdMap.find?_insert]
    split_ifs with heq
    · subst heq
      exact Or.inr ⟨rfl, hm, hzero, hn⟩
    · exact ht
  | @change _ n ch ch' _ hn hch hchange =>
    rw [Server.findChannel_modifyChannel hch]
    split_ifs with heq
    · subst heq
      rw [hch] at ht
      rcases ht with hnone | ⟨hfounded, hm, _⟩
      · cases hnone
      · obtain rfl := Option.some_inj.mp hfounded
        -- the founder is a member, so JOIN does not touch the channel again
        cases hchange with
        | join _ _ hout => exact absurd (List.mem_singleton_self c) hout
        | kick h | invite h | topic _ h | mode h => rw [hm] at h; cases h
    · exact ht
  | @part _ n ch _ hleaves hch =>
    rw [Server.findChannel_modifyChannel hch]
    split_ifs with heq
    · subst heq
      rw [hch] at ht
      rcases ht with hnone | ⟨_, _, hzero, _⟩
      · cases hnone
      · exact absurd hleaves.2 hzero
    · exact ht
  | @dissolve _ n ch _ hleaves hch =>
    rw [Server.findChannel_removeChannel, Server.findChannel_modifyChannel hch,
      (hint.channel n ch hch).name_eq]
    split_ifs with heq
    · exact Or.inl rfl
    · exact ht

end Lines

/-! ## JOIN 0 -/

/-- A registered client's command reaches its handler. -/
theorem Server.processMessage_of_registered {s : Server} {c : Ptr} {m : Message} {k : Command}
    (hreg : (s.client c).isRegistered = true) (hm : m.handler = some k) :
    s.processMessage c m = k.execute s c m.params := by
  obtain ⟨h1, h2, h3, h4⟩ := Message.command_ne_of_handler hm
  have hok : (s.client c).passOk = true := by
    simp only [Client.isRegistered, Bool.and_eq_true] at hreg
    exact hreg.1.1
  have hm' : commands.lookup m.command = some k := hm
  unfold Server.processMessage
  dsimp only
  rw [if_neg h1, if_neg h2, if_neg h3, if_neg h4, hm']
  dsimp only
  rw [if_neg (fun h => by rw [hok] at h; exact absurd h.2 (by decide)),
    if_neg (fun h => by rw [hreg] at h; exact absurd h.2.2.2 (by decide))]

namespace Server

/-- A line that leaves all channels is the loop of `JOIN 0`. -/
theorem processMessage_of_leavesAll {s : Server} {c : Ptr} {m : Message}
    (hreg : (s.client c).isRegistered = true) (hm : m.LeavesAll) :
    s.processMessage c m = JoinCommand.leaveAll s c := by
  rw [processMessage_of_registered hreg hm.1]
  show JoinCommand.execute s c m.params = _
  have hzero := hm.2
  unfold JoinCommand.execute
  cases hp : m.params with
  | nil => rw [hp] at hzero; cases hzero
  | cons target rest =>
    rw [hp] at hzero
    exact if_pos (Option.some_inj.mp hzero)

/-- The client is not a member of the channel stored under a name. -/
def Outside (s : Server) (c : Ptr) (name : Str) : Prop :=
  ∀ ch, s.findChannel name = some ch → c ∉ ch.members

/-- One turn of the loop of `JOIN 0` takes the client out of one channel. -/
theorem outside_leave {s : Server} (hs : s.Integrity) (c : Ptr) (name : Str) :
    (JoinCommand.leave s c name).Outside c name
      ∧ ∀ n, s.Outside c n → (JoinCommand.leave s c name).Outside c n := by
  unfold JoinCommand.leave
  split
  · next hnone =>
    refine ⟨fun ch hch => ?_, fun n hn => hn⟩
    rw [hnone] at hch
    cases hch
  next ch hch =>
  obtain ⟨hname, hwf, _⟩ := hs.channel name ch hch
  by_cases hmem : ch.isMember c = true
  swap
  · rw [if_neg hmem]
    refine ⟨fun ch' hch' => ?_, fun n hn => hn⟩
    rw [hch] at hch'
    rw [← Option.some_inj.mp hch']
    simpa using hmem
  rw [if_pos hmem]
  have hch' := fun text => (findChannel_tell s ch text c name).trans hch
  dsimp only
  rw [modifyChannel_eq _ (hch' _)]
  have hout : c ∉ (ch.removeMember c).members := hwf.not_mem_removeMember c
  split_ifs
  · rw [hname]
    constructor
    · intro ch₁ h₁
      rw [findChannel_removeChannel, if_pos rfl] at h₁
      cases h₁
    · intro n hn ch₁ h₁
      rw [findChannel_removeChannel, findChannel_modifyChannel (hch' _), findChannel_tell] at h₁
      split_ifs at h₁
      exact hn ch₁ h₁
  · constructor
    · intro ch₁ h₁
      rw [findChannel_modifyChannel (hch' _), if_pos rfl] at h₁
      rw [← Option.some_inj.mp h₁]
      exact hout
    · intro n hn ch₁ h₁
      rw [findChannel_modifyChannel (hch' _), findChannel_tell] at h₁
      split_ifs at h₁ with heq
      · rw [← Option.some_inj.mp h₁]
        exact hout
      · exact hn ch₁ h₁

end Server

section LeaveAll

variable {c : Ptr} {m : Message} {s₀ : Server} (hs : s₀.Integrity) (hc : s₀.Allocated c)
  (hreg : (s₀.client c).isRegistered = true) (hm : m.LeavesAll)
include hs hc hreg hm

/-- `JOIN 0` takes the client out of every channel. -/
theorem outside_leaveAll (name : Str) : (JoinCommand.leaveAll s₀ c).Outside c name := by
  have hloop : ∀ (names : List Str) (s : Server), Effects c m s₀ s →
      (names.foldl (fun s n => JoinCommand.leave s c n) s).Outside c name
        ∨ ¬ (name ∈ names ∨ s.Outside c name) := by
    intro names
    induction names with
    | nil =>
      intro s _
      by_cases hout : s.Outside c name
      · exact Or.inl hout
      · exact Or.inr fun h => h.elim (fun h => absurd h List.not_mem_nil) hout
    | cons n names ih =>
      intro s hpath
      have hturn := Server.outside_leave (hpath.integrity hs hc) c n
      rw [List.foldl_cons]
      refine (ih _ (hpath.leave hreg hm n)).imp id fun hnot h => hnot ?_
      rcases h with h | h
      · rcases List.mem_cons.mp h with rfl | h
        · exact Or.inr hturn.1
        · exact Or.inl h
      · exact Or.inr (hturn.2 name h)
  refine (hloop s₀.channels.keys s₀ Effects.refl).resolve_right fun hnot => hnot ?_
  by_cases hkey : name ∈ s₀.channels.keys
  · exact Or.inl hkey
  · refine Or.inr fun ch hch => absurd (OrdMap.mem_keys.mpr ⟨ch, hch⟩) hkey

/-- What `JOIN 0` makes of a channel. -/
theorem findChannel_leaveAll {name : Str} {ch : Channel} (hch : s₀.findChannel name = some ch) :
    (s₀.processMessage c m).findChannel name
      = if ch.members = [c] then none else some (ch.removeMember c) := by
  obtain ⟨x, hx⟩ := Option.isSome_iff_exists.mp hc
  have hwf := (hs.channel name ch hch).wf
  have hleft := Server.processMessage_of_leavesAll hreg hm
  have hout := outside_leaveAll hs hc hreg hm name
  rw [← hleft] at hout
  have hpath := s₀.processMessage_effects hx m
  -- a client that was not a member has nothing to leave
  have hsame : c ∉ ch.members → ch.removeMember c = ch := by
    intro hc
    have hop : c ∉ ch.operators := fun h => hc (hwf.operators_sub c h)
    rw [Channel.removeMember_eq, List.erase_of_not_mem hc, List.erase_of_not_mem hop]
  rcases hpath.permitted hs hc hch with ⟨ch', hch', hperm⟩ | ⟨hnone, _, hmembers⟩
  · have hne : ch.members ≠ [c] := by
      intro hsingle
      cases hperm with
      | unchanged => exact hout ch hch' (by rw [hsingle]; exact List.mem_singleton_self c)
      | joined _ hzero => exact hzero hm.2
      | left _ _ hrest =>
        rw [Channel.removeMember_eq] at hrest
        exact hrest (by rw [hsingle]; exact List.erase_cons_head c [])
      | kicked _ h | invited _ h | topic _ h | mode h =>
        exact absurd (h.symm.trans hm.1) (by decide)
    rw [if_neg hne, hch']
    cases hperm with
    | unchanged => rw [hsame (hout ch hch')]
    | joined _ hzero => exact absurd hm.2 hzero
    | left => rfl
    | kicked _ h | invited _ h | topic _ h | mode h =>
      exact absurd (h.symm.trans hm.1) (by decide)
  · rw [if_pos hmembers, hnone]

end LeaveAll

/-! ## The authority of a line -/

/-- The line is for this command and names this channel. -/
def Message.Names (m : Message) (k : Command) (name : Str) : Prop :=
  m.handler = some k ∧ name ∈ m.channelNames

/-- The change of a channel from `ch` to `ch'` by a line `m` of `c` is one `c` may make. -/
structure Authorised (c : Ptr) (m : Message) (name : Str) (ch ch' : Channel) : Prop where
  modes : (ch'.inviteOnly ≠ ch.inviteOnly ∨ ch'.topicRestricted ≠ ch.topicRestricted
      ∨ ch'.password ≠ ch.password ∨ ch'.userLimit ≠ ch.userLimit
      ∨ ∃ d ∈ ch'.members, ¬ (d ∈ ch'.operators ↔ d ∈ ch.operators)) →
    m.Names .mode name ∧ c ∈ ch.operators
  topic : ch'.topic ≠ ch.topic →
    m.Names .topic name ∧ c ∈ ch.members ∧ (c ∈ ch.operators ∨ ch.topicRestricted = false)
  removal : ∀ d ∈ ch.members, d ≠ c → d ∉ ch'.members →
    m.Names .kick name ∧ c ∈ ch.members ∧ c ∈ ch.operators
  entry : ∀ d ∈ ch'.members, d ∉ ch.members → d = c ∧ m.Names .join name
  invitation : ∀ d ∈ ch'.invitedClients, d ∉ ch.invitedClients →
    m.Names .invite name ∧ c ∈ ch.members ∧ (ch.inviteOnly = true → c ∈ ch.operators)
  unnamed : name ∉ m.channelNames → ch' = ch ∨ (m.LeavesAll ∧ ch' = ch.removeMember c)

/-- The modes and the operators among the remaining members are the same. -/
theorem same_modes {ch ch' : Channel}
    (hi : ch'.inviteOnly = ch.inviteOnly) (ht : ch'.topicRestricted = ch.topicRestricted)
    (hk : ch'.password = ch.password) (hl : ch'.userLimit = ch.userLimit)
    (ho : ∀ d ∈ ch'.members, (d ∈ ch'.operators ↔ d ∈ ch.operators)) :
    ¬ (ch'.inviteOnly ≠ ch.inviteOnly ∨ ch'.topicRestricted ≠ ch.topicRestricted
      ∨ ch'.password ≠ ch.password ∨ ch'.userLimit ≠ ch.userLimit
      ∨ ∃ d ∈ ch'.members, ¬ (d ∈ ch'.operators ↔ d ∈ ch.operators)) := by
  rintro (h | h | h | h | ⟨d, hd, h⟩)
  · exact h hi
  · exact h ht
  · exact h hk
  · exact h hl
  · exact h (ho d hd)

/-- What a line is permitted to do, it is authorised to do. -/
theorem Permitted.authorised {c : Ptr} {m : Message} {name : Str} {ch ch' : Channel}
    (hwf : ch.Wf) (h : Permitted c m name ch ch') : Authorised c m name ch ch' := by
  cases h with
  | unchanged =>
    exact ⟨fun h => absurd h (same_modes rfl rfl rfl rfl fun _ _ => Iff.rfl),
      fun h => absurd rfl h, fun d hd _ h => absurd hd h, fun d hd h => absurd hd h,
      fun d hd h => absurd hd h, fun _ => Or.inl rfl⟩
  | joined h _ hname hout =>
    rw [Channel.addMember_of_not_mem _ hout]
    refine ⟨fun h => absurd h (same_modes rfl rfl rfl rfl fun _ _ => Iff.rfl),
      fun h => absurd rfl h, fun d hd _ h => absurd (List.mem_append_left _ hd) h,
      fun d hd h' => ⟨?_, h, hname⟩, fun d hd h => absurd (List.mem_of_mem_erase hd) h,
      fun h => absurd hname h⟩
    -- the only new member is the client itself
    exact List.mem_singleton.mp ((List.mem_append.mp hd).resolve_left h')
  | left h =>
    have hkept : ∀ d ≠ c, d ∈ ch.members → d ∈ ch.members.erase c := fun d hne hd =>
      (List.mem_erase_of_ne hne).mpr hd
    rw [Channel.removeMember_eq]
    refine ⟨fun h => absurd h (same_modes rfl rfl rfl rfl fun d hd => ?_),
      fun h => absurd rfl h, fun d hd hne h => absurd (hkept d hne hd) h,
      fun d hd h => absurd (List.mem_of_mem_erase hd) h, fun d hd h => absurd hd h,
      fun _ => Or.inr ⟨h, (Channel.removeMember_eq ch c).symm⟩⟩
    exact List.mem_erase_of_ne (hwf.nodup_members.mem_erase_iff.mp hd).1
  | kicked qs h hname hmem hop =>
    rw [Channel.foldl_removeMember]
    refine ⟨fun h => absurd h (same_modes rfl rfl rfl rfl fun d hd => ?_),
      fun h => absurd rfl h, fun _ _ _ _ => ⟨⟨h, hname⟩, hmem, hop⟩,
      fun d hd h => absurd (List.diff_subset _ _ hd) h, fun d hd h => absurd hd h,
      fun h => absurd hname h⟩
    have hd' : d ∉ qs := (hwf.nodup_members.mem_sdiff_iff.mp hd).2
    exact hwf.nodup_operators.mem_sdiff_iff.trans (and_iff_left hd')
  | invited qs h hname hmem hop =>
    obtain ⟨invited, heq⟩ := Channel.foldl_addInvited qs ch
    rw [heq]
    exact ⟨fun h => absurd h (same_modes rfl rfl rfl rfl fun _ _ => Iff.rfl),
      fun h => absurd rfl h, fun d hd _ h => absurd hd h, fun d hd h => absurd hd h,
      fun _ _ _ => ⟨⟨h, hname⟩, hmem, hop⟩, fun h => absurd hname h⟩
  | topic text h hname hmem hop =>
    refine ⟨fun h => absurd h (same_modes rfl rfl rfl rfl fun _ _ => Iff.rfl),
      fun _ => ⟨⟨h, hname⟩, hmem, ?_⟩, fun d hd _ h => absurd hd h, fun d hd h => absurd hd h,
      fun d hd h => absurd hd h, fun h => absurd hname h⟩
    cases hr : ch.topicRestricted with
    | true => exact Or.inl (hop hr)
    | false => exact Or.inr rfl
  | mode h hname hop hkept =>
    obtain ⟨_, htopic, hmembers, hinvited⟩ := hkept
    exact ⟨fun _ => ⟨⟨h, hname⟩, hop⟩, fun h => absurd htopic h,
      fun d hd _ h => absurd (hmembers ▸ hd) h, fun d hd h => absurd (hmembers ▸ hd) h,
      fun d hd h => absurd (hinvited ▸ hd) h, fun h => absurd hname h⟩

/-- The channels after a disconnect: the client is gone from them, nothing else is different. -/
theorem Server.findChannel_disconnectClient {s : Server} {fd : Fd} {p : Ptr}
    (hfd : s.clients.find? fd = some p) (name : Str) :
    (s.disconnectClient fd).findChannel name
      = (s.findChannel name).map fun ch => (ch.removeMember p).removeInvited p := by
  have hannounce : (s.announceQuit p).channels = s.channels := by
    unfold Server.announceQuit
    split_ifs
    · exact Server.channels_sendAll ..
    · rfl
  rw [Server.disconnectClient, hfd]
  show ((s.announceQuit p).channels.mapValues _).find? name = _
  rw [OrdMap.find?_mapValues, hannounce]
  rfl

/-- Whatever a line changes in a channel, its client had the right to change; channels the
line does not name stay as they are, up to `JOIN 0`; a disconnect only takes the client out
of the lists. -/
theorem channel_authority {s : Server} (h : Reachable s) {c : Ptr} {x : Client}
    (hx : s.heap c = some x) :
    (∀ line name ch, s.findChannel name = some ch →
      (∀ ch', (s.processLine c line).findChannel name = some ch' →
        Authorised c (Parser.parse line) name ch ch')
      ∧ ((s.processLine c line).findChannel name = none →
        (Parser.parse line).LeavesAll ∧ ch.members = [c])
      ∧ ((Parser.parse line).LeavesAll → x.isRegistered = true →
        (s.processLine c line).findChannel name
          = if ch.members = [c] then none else some (ch.removeMember c)))
    ∧ (∀ line name, s.findChannel name = none → name ∉ (Parser.parse line).channelNames →
        (s.processLine c line).findChannel name = none)
    ∧ ∀ fd, s.clients.find? fd = some c → ∀ name, (s.disconnectClient fd).findChannel name
        = (s.findChannel name).map fun ch => (ch.removeMember c).removeInvited c := by
  have hs := h.integrity
  have hc : s.Allocated c := by
    rw [Server.Allocated, hx]
    rfl
  refine ⟨fun line name ch hch => ⟨fun ch' hch' => ?_, fun hnone => ?_, fun hm hreg => ?_⟩,
    fun line name hnone hname => ?_, fun fd hfd name => s.findChannel_disconnectClient hfd name⟩
  · rcases (s.processMessage_effects hx _).permitted hs hc hch with ⟨ch₁, hch₁, hperm⟩ | ⟨hnone, _⟩
    · obtain rfl := Option.some_inj.mp (hch₁.symm.trans hch')
      exact hperm.authorised (hs.channel name ch hch).wf
    · cases hnone.symm.trans hch'
  · rcases (s.processMessage_effects hx _).permitted hs hc hch with ⟨ch₁, hch₁, _⟩ | ⟨_, hgone⟩
    · cases hnone.symm.trans hch₁
    · exact hgone
  · exact findChannel_leaveAll hs hc (by rw [Server.client_of_heap hx, hreg]) hm hch
  · rcases (s.processMessage_effects hx _).created hs hc hnone with hnone' | ⟨_, _, _, hnamed⟩
    · exact hnone'
    · exact absurd hnamed hname

/-- The second client of the sample is no operator: a KICK of its changes nothing. -/
theorem channel_authority_sample :
    ∃ x ch, sample.heap 1 = some x ∧ sample.findChannel (lit "#c") = some ch
      ∧ (∀ ch', (sample.processLine 1 (lit "KICK #c ann")).findChannel (lit "#c") = some ch' →
          ∀ d ∈ ch.members, d ≠ 1 → d ∈ ch'.members)
      ∧ (sample.processLine 1 (lit "JOIN 0")).findChannel (lit "#c")
          = some (ch.removeMember 1) := by
  obtain ⟨hchannel, hclient⟩ :
      (sample.findChannel (lit "#c")).map (fun ch => (ch.members, ch.operators)) = some ([0, 1], [0])
      ∧ (sample.heap 1).map Client.isRegistered = some true := by decide +kernel
  obtain ⟨ch, hch, hlists⟩ := Option.map_eq_some_iff.mp hchannel
  obtain ⟨x, hx, hreg⟩ := Option.map_eq_some_iff.mp hclient
  rw [Prod.mk.injEq] at hlists
  obtain ⟨hkept, -, hleft⟩ := (channel_authority reachable_sample hx).1 (lit "KICK #c ann") _ ch hch
  refine ⟨x, ch, hx, hch, fun ch' hch' d hd hne => ?_, ?_⟩
  · by_contra hgone
    have hop := ((hkept ch' hch').removal d hd hne hgone).2.2
    rw [hlists.2] at hop
    exact absurd hop (by decide)
  · have hzero := ((channel_authority reachable_sample hx).1 (lit "JOIN 0") _ ch hch).2.2
      ⟨by decide, by decide⟩ hreg
    rw [hzero, if_neg]
    rw [hlists.1]
    decide

end FtIrc
