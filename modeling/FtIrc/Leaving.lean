import FtIrc.Departures
import FtIrc.Lib.PtrMap

/-!
# JOIN 0

The loop runs over a copy of `_channels`, and a turn may delete the channel it is at. The copy
holds addresses, so a turn that came to a deleted channel would read where no object lives. The
loop is given a second time with these addresses, and every read through one is checked.
-/

namespace FtIrc

open Bytes

namespace JoinCommand

/-! ## One turn -/

section Turn

variable {s : Server} {c : Ptr} {name : Str} {ch : Channel}

/-- A turn offers its PART line to the client and to the others on the channel, once each. -/
theorem offered_leave (hch : s.findChannel name = some ch) (hname : ch.name = name) (hwf : ch.Wf)
    {p : Ptr} {y : Client} (hy : s.heap p = some y) :
    ∃ z, (leave s c name).heap p = some z ∧ z.trace.offered = y.trace.offered
      ++ if c ∈ ch.members ∧ p ∈ ch.members then [partMessage s c name] else [] := by
  by_cases hmem : c ∈ ch.members
  swap
  · refine ⟨y, by rw [leave_of_not_mem hch hmem, hy], ?_⟩
    rw [if_neg fun h => hmem h.1, List.append_nil]
  rw [heap_leave hch hmem, tellPart, hname, Server.heap_tellChannel hwf.nodup_members hmem, hy]
  by_cases hin : p ∈ ch.members
  · refine ⟨y.sendMessage (partMessage s c name), if_pos hin, ?_⟩
    rw [Client.offered_sendMessage, if_pos ⟨hmem, hin⟩]
  · refine ⟨y, if_neg hin, ?_⟩
    rw [if_neg fun h => hin h.2, List.append_nil]

theorem partMessage_leave (n : Str) : partMessage (leave s c name) c n = partMessage s c n := by
  have hsame : (leave s c name).nickname c = s.nickname c
      ∧ (leave s c name).username c = s.username c := by
    cases hch : s.findChannel name with
    | none => simp [leave_of_none hch]
    | some ch =>
      by_cases hmem : c ∈ ch.members
      · have hheap := heap_leave hch hmem
        simp only [Server.nickname, Server.username, Server.client, hheap]
        exact ⟨nickname_tellPart s c ch c, username_tellPart s c ch c⟩
      · simp [leave_of_not_mem hch hmem]
  rw [partMessage, partMessage, userPrefix, userPrefix, hsame.1, hsame.2]

end Turn

/-! ## The loop -/

section Loop

variable {s : Server} {c : Ptr}

/-- The turns that are left find the channels as they were: what the loop has offered is a PART line
for each channel that it has left. -/
theorem offered_loop {es : List (Str × Channel)} (hnodup : (es.map Prod.fst).Nodup)
    (hes : ∀ e ∈ es, s.findChannel e.1 = some e.2 ∧ e.2.name = e.1 ∧ e.2.Wf) {p : Ptr} {y : Client}
    (hy : s.heap p = some y) :
    ∃ z, (es.foldl (fun s e => leave s c e.1) s).heap p = some z
      ∧ z.trace.offered = y.trace.offered
        ++ (es.filter fun e => decide (c ∈ e.2.members ∧ p ∈ e.2.members)).map
            fun e => partMessage s c e.1 := by
  induction es generalizing s y with
  | nil => exact ⟨y, hy, (List.append_nil _).symm⟩
  | cons e es ih =>
    obtain ⟨hnew, hnodup⟩ := List.nodup_cons.mp hnodup
    obtain ⟨hch, hname, hwf⟩ := hes e List.mem_cons_self
    obtain ⟨w, hw, hoffered⟩ := offered_leave (c := c) hch hname hwf hy
    have hrest : ∀ f ∈ es, (leave s c e.1).findChannel f.1 = some f.2 ∧ f.2.name = f.1 ∧ f.2.Wf := by
      intro f hf
      obtain ⟨hch', hname', hwf'⟩ := hes f (List.mem_cons_of_mem e hf)
      have hne : f.1 ≠ e.1 := fun heq => hnew (heq ▸ List.mem_map_of_mem hf)
      refine ⟨?_, hname', hwf'⟩
      rw [findChannel_leave_ne (fun ch h => ?_) hne, hch']
      rwa [← Option.some_inj.mp (hch.symm.trans h)]
    obtain ⟨z, hz, hoffered'⟩ := ih hnodup hrest hw
    refine ⟨z, hz, ?_⟩
    rw [hoffered', hoffered, List.append_assoc]
    simp only [partMessage_leave, List.filter_cons, decide_eq_true_eq]
    split_ifs <;> rfl

end Loop

/-! ## With addresses -/

/-- A turn at an address of the copy, on `_channels` and the objects behind it. It fails if it reads
where no channel lives. -/
def leave? (client : Ptr) (state : Server × PtrMap Str Channel) (p : ℕ) :
    Option (Server × PtrMap Str Channel) := do
  let (s, b) := state
  let channel ← b.object p
  if channel.isMember client then
    let s := tellPart s client channel
    let b := b.modify p (·.removeMember client)
    let channel ← b.object p
    if channel.getMembersCount = 0 then
      let b ← b.delete? channel.name
      some (s, b)
    else some (s, b)
  else some (s, b)

/-- `JOIN 0` with addresses. -/
def leaveAll? (client : Ptr) (s : Server) (b : PtrMap Str Channel) :
    Option (Server × PtrMap Str Channel) :=
  (b.pointers.entries.map Prod.snd).foldlM (leave? client) (s, b)

theorem sendAll_withChannels (s : Server) (channels : OrdMap Str Channel) (ps : List Ptr) (text : Str) :
    { s with channels := channels }.sendAll ps text = { s.sendAll ps text with channels := channels } := by
  unfold Server.sendAll
  induction ps generalizing s with
  | nil => rfl
  | cons p ps ih => exact ih (s.sendMessage p text)

theorem tellPart_withChannels (s : Server) (channels : OrdMap Str Channel) (c : Ptr) (ch : Channel) :
    tellPart { s with channels := channels } c ch = { tellPart s c ch with channels := channels } := by
  have hmessage : partMessage { s with channels := channels } c ch.name = partMessage s c ch.name := rfl
  simp only [tellPart, hmessage, Server.broadcastMessage, sendAll_withChannels]
  rfl

/-- A turn leaves every channel under its name. -/
theorem name_eq_leave {s : Server} {c : Ptr} {n : Str}
    (hnames : ∀ name ch, s.findChannel name = some ch → ch.name = name) {name : Str} {ch' : Channel}
    (hch' : (leave s c n).findChannel name = some ch') : ch'.name = name := by
  by_cases hne : name = n
  swap
  · rw [findChannel_leave_ne (hnames n) hne] at hch'
    exact hnames name ch' hch'
  rw [hne] at hch' ⊢
  cases hch : s.findChannel n with
  | none =>
    rw [leave_of_none hch] at hch'
    exact hnames n ch' hch'
  | some ch =>
    by_cases hmem : c ∈ ch.members
    · rw [findChannel_leave_self (hnames n) hch hmem] at hch'
      split_ifs at hch'
      rw [← Option.some_inj.mp hch', Channel.name_removeMember]
      exact hnames n ch hch
    · rw [leave_of_not_mem hch hmem] at hch'
      exact hnames n ch' hch'

section Refinement

variable {s : Server} {b : PtrMap Str Channel} {c : Ptr} (channels : OrdMap Str Channel)

/-- A turn with addresses does not fail and does what the turn without them does. -/
theorem leave?_eq (hb : b.Holds s.channels) {name : Str} {p : ℕ}
    (hp : b.pointers.find? name = some p)
    (hname : ∀ ch, s.findChannel name = some ch → ch.name = name) :
    ∃ b', leave? c ({ s with channels := channels }, b) p
        = some ({ leave s c name with channels := channels }, b')
      ∧ b'.Holds (leave s c name).channels
      ∧ ∀ n, n ≠ name → b'.pointers.find? n = b.pointers.find? n := by
  obtain ⟨ch, hobject, hch⟩ := hb.object name p hp
  have hname' := hname ch hch
  by_cases hmem : c ∈ ch.members
  swap
  · refine ⟨b, ?_, ?_, fun _ _ => rfl⟩
    · rw [leave_of_not_mem hch hmem, leave?, hobject]
      exact if_neg (by simpa using hmem)
    · rwa [leave_of_not_mem hch hmem]
  have hmodified : (b.modify p (·.removeMember c)).Holds (s.channels.modify name (·.removeMember c)) :=
    hb.modify hp _
  have hobject' : (b.modify p (·.removeMember c)).object p = some (ch.removeMember c) := by
    rw [PtrMap.object_modify, if_pos rfl, hobject, Option.map_some]
  have hsame : (ch.removeMember c).name = name := by rw [Channel.name_removeMember, hname']
  have hturn : leave? c ({ s with channels := channels }, b) p
      = if (ch.removeMember c).getMembersCount = 0
        then ((b.modify p (·.removeMember c)).delete? name).map
          fun b' => ({ tellPart s c ch with channels := channels }, b')
        else some ({ tellPart s c ch with channels := channels }, b.modify p (·.removeMember c)) := by
    simp only [leave?, hobject, Option.bind_eq_bind, Option.bind_some, hobject', hsame,
      tellPart_withChannels]
    rw [if_pos (by simpa using hmem)]
    split_ifs
    · exact Option.map_eq_bind.symm
    · rfl
  rw [hturn, leave_of_mem hch hname' hmem]
  split_ifs
  · -- the entry is deleted by the name of the object it belongs to, which is its key
    obtain ⟨b', hdelete, hholds, hothers⟩ := hmodified.delete (p := p) hp
    refine ⟨b', ?_, ?_, hothers⟩
    · rw [hdelete, Option.map_some]
      rfl
    · show b'.Holds (((tellPart s c ch).channels.modify name (·.removeMember c)).erase name)
      rwa [channels_tellPart]
  · refine ⟨_, rfl, ?_, fun _ _ => rfl⟩
    show (b.modify p (·.removeMember c)).Holds
      ((tellPart s c ch).channels.modify name (·.removeMember c))
    rwa [channels_tellPart]

/-- Nor does the loop. -/
theorem leaveLoop?_eq {es : List (Str × ℕ)} (hnodup : (es.map Prod.fst).Nodup)
    (hb : b.Holds s.channels) (hes : ∀ e ∈ es, b.pointers.find? e.1 = some e.2)
    (hnames : ∀ name ch, s.findChannel name = some ch → ch.name = name) :
    ∃ b', (es.map Prod.snd).foldlM (leave? c) ({ s with channels := channels }, b)
        = some ({ (es.map Prod.fst).foldl (fun s n => leave s c n) s with channels := channels }, b')
      ∧ b'.Holds ((es.map Prod.fst).foldl (fun s n => leave s c n) s).channels := by
  induction es generalizing s b with
  | nil => exact ⟨b, rfl, hb⟩
  | cons e es ih =>
    obtain ⟨hnew, hnodup⟩ := List.nodup_cons.mp hnodup
    obtain ⟨b', hturn, hb', hothers⟩ :=
      leave?_eq (c := c) channels hb (hes e List.mem_cons_self) (hnames e.1)
    -- the addresses that are still to come lie under other names, which the turn leaves alone
    have hrest : ∀ f ∈ es, b'.pointers.find? f.1 = some f.2 := by
      intro f hf
      rw [hothers f.1 fun heq => hnew (heq ▸ List.mem_map_of_mem hf)]
      exact hes f (List.mem_cons_of_mem e hf)
    obtain ⟨b'', hloop, hb''⟩ := ih hnodup hb' hrest fun _ _ => name_eq_leave hnames
    refine ⟨b'', ?_, hb''⟩
    rw [List.map_cons, List.foldlM_cons, hturn]
    exact hloop

/-- The addresses are copied in the order of the names. -/
theorem leaveAll?_eq (hb : b.Holds s.channels)
    (hnames : ∀ name ch, s.findChannel name = some ch → ch.name = name) :
    ∃ b', leaveAll? c s b = some ({ leaveAll s c with channels := s.channels }, b')
      ∧ b'.Holds (leaveAll s c).channels := by
  have hes : ∀ e ∈ b.pointers.entries, b.pointers.find? e.1 = some e.2 :=
    fun e he => OrdMap.find?_eq_some.mpr he
  obtain ⟨b', hloop, hb'⟩ :=
    leaveLoop?_eq (c := c) s.channels b.pointers.nodup_keys hb hes hnames
  -- both maps are sorted by the same names, so the copy visits the channels in their order
  have hkeys : b.pointers.entries.map Prod.fst = s.channels.keys := hb.keys_eq
  rw [hkeys] at hloop hb'
  exact ⟨b', hloop, hb'⟩

end Refinement

end JoinCommand

/-- A channel without a client: the others stay in their order. -/
def Channel.without (ch : Channel) (client : Ptr) : Channel :=
  { ch with members := ch.members.filter (· ≠ client), operators := ch.operators.filter (· ≠ client) }

theorem Channel.Wf.removeMember_eq_without {ch : Channel} (h : ch.Wf) (c : Ptr) :
    ch.removeMember c = ch.without c := by
  rw [Channel.removeMember_eq, Channel.without, h.nodup_members.erase_eq_filter,
    h.nodup_operators.erase_eq_filter]
  congr 1 <;> exact List.filter_congr fun p _ => by rw [bne, beq_eq_decide, decide_not]

/-- JOIN 0 of a registered client. It is on no channel afterwards; a channel that nobody else was on
is gone, every other channel is as it was, without the client; each client is offered one PART line
for each channel that it and the leaving client were on, and nothing else; and in whatever way the
channels lie in memory, the loop reads none that has been deleted. -/
theorem join_zero_leaves_everything {s : Server} (h : Reachable s) {c : Ptr} {x : Client}
    (hx : s.heap c = some x) (hreg : x.isRegistered = true) {m : Message} (hm : m.LeavesAll) :
    let s' := s.processMessage c m
    (∀ name ch, s'.findChannel name = some ch → c ∉ ch.members ∧ c ∉ ch.operators)
    ∧ (∀ name, s.findChannel name = none → s'.findChannel name = none)
    ∧ (∀ name ch, s.findChannel name = some ch →
        s'.findChannel name = if ch.members = [c] then none else some (ch.without c))
    ∧ (∀ p y, s.heap p = some y → ∃ z, s'.heap p = some z ∧ z.trace.offered = y.trace.offered
        ++ (s.channels.entries.filter fun e => decide (c ∈ e.2.members ∧ p ∈ e.2.members)).map
            fun e => JoinCommand.partMessage s c e.1)
    ∧ ∀ b : PtrMap Str Channel, b.Holds s.channels →
        ∃ b', JoinCommand.leaveAll? c s b = some ({ s' with channels := s.channels }, b')
          ∧ b'.Holds s'.channels := by
  have hint := h.integrity
  have hclient : s.client c = x := Server.client_of_heap hx
  have hc : s.Allocated c := by rw [Server.Allocated, hx, Option.isSome_some]
  have hreg' : (s.client c).isRegistered = true := by rw [hclient, hreg]
  have hleft := Server.processMessage_of_leavesAll hreg' hm
  have hnone : ∀ name, s.findChannel name = none → (s.processMessage c m).findChannel name = none := by
    intro name hname
    -- only a JOIN with a channel name founds one
    refine ((s.processMessage_effects hx m).created hint hc hname).resolve_right fun hfounded => ?_
    exact hfounded.2.2.1 hm.2
  have hwithout : ∀ name ch, s.findChannel name = some ch → (s.processMessage c m).findChannel name
      = if ch.members = [c] then none else some (ch.without c) := by
    intro name ch hch
    rw [findChannel_leaveAll hint hc hreg' hm hch, (hint.channel name ch hch).wf.removeMember_eq_without]
  dsimp only
  refine ⟨?_, hnone, hwithout, ?_, ?_⟩
  · intro name ch' hch'
    cases hch : s.findChannel name with
    | none =>
      rw [hnone name hch] at hch'
      cases hch'
    | some ch =>
      rw [hwithout name ch hch] at hch'
      split_ifs at hch'
      rw [← Option.some_inj.mp hch']
      simp [Channel.without]
  · intro p y hy
    have hes : ∀ e ∈ s.channels.entries, s.findChannel e.1 = some e.2 ∧ e.2.name = e.1 ∧ e.2.Wf := by
      intro e he
      have hch : s.findChannel e.1 = some e.2 := OrdMap.find?_eq_some.mpr he
      have hsound := hint.channel e.1 e.2 hch
      exact ⟨hch, hsound.name_eq, hsound.wf⟩
    obtain ⟨z, hz, hoffered⟩ := JoinCommand.offered_loop (c := c) s.channels.nodup_keys hes hy
    refine ⟨z, ?_, hoffered⟩
    rw [hleft, JoinCommand.leaveAll, OrdMap.keys, List.foldl_map]
    exact hz
  · intro b hb
    rw [hleft]
    exact JoinCommand.leaveAll?_eq hb fun name ch hch => (hint.channel name ch hch).name_eq

/-- Ann is also on a channel of her own. -/
def twoChannels : Server := sample.run [.read 4 (.data (lit "JOIN #d\r\n"))]

/-- The two channels, at the addresses 0 and 1. -/
def twoObjects : PtrMap Str Channel where
  pointers := ⟨[(lit "#c", 0), (lit "#d", 1)], by decide⟩
  object p := if p = 0 then twoChannels.findChannel (lit "#c")
    else if p = 1 then twoChannels.findChannel (lit "#d") else none

theorem holds_twoObjects {ch chd : Channel} (hkeys : twoChannels.channels.keys = [lit "#c", lit "#d"])
    (hch : twoChannels.findChannel (lit "#c") = some ch)
    (hchd : twoChannels.findChannel (lit "#d") = some chd) : twoObjects.Holds twoChannels.channels := by
  have hzero : twoObjects.object 0 = twoChannels.findChannel (lit "#c") := by simp [twoObjects]
  have hone : twoObjects.object 1 = twoChannels.findChannel (lit "#d") := by simp [twoObjects]
  have hcases : ∀ k p, twoObjects.pointers.find? k = some p →
      (k = lit "#c" ∧ p = 0) ∨ (k = lit "#d" ∧ p = 1) := by
    intro k p hp
    have hmem := OrdMap.find?_eq_some.mp hp
    simpa [twoObjects] using hmem
  refine ⟨fun k hk => ?_, fun k p hp => ?_, fun j k p hj hk => ?_⟩
  · by_contra hsome
    obtain ⟨v, hv⟩ := Option.ne_none_iff_exists'.mp hsome
    have hkey : k ∈ twoChannels.channels.keys := OrdMap.mem_keys.mpr ⟨v, hv⟩
    rw [hkeys] at hkey
    have hkey' : k ∈ twoObjects.pointers.keys := hkey
    obtain ⟨p, hp⟩ := OrdMap.mem_keys.mp hkey'
    rw [hk] at hp
    cases hp
  · rcases hcases k p hp with ⟨rfl, rfl⟩ | ⟨rfl, rfl⟩
    · exact ⟨ch, hzero.trans hch, hch⟩
    · exact ⟨chd, hone.trans hchd, hchd⟩
  · rcases hcases j p hj with ⟨rfl, rfl⟩ | ⟨rfl, rfl⟩ <;>
      rcases hcases k _ hk with ⟨rfl, hp⟩ | ⟨rfl, hp⟩ <;> first | rfl | cases hp

theorem join_zero_leaves_everything_sample :
    let s' := twoChannels.processMessage 0 { command := lit "JOIN", params := [lit "0"] }
    (s'.findChannel (lit "#c")).map (fun ch => (ch.members, ch.operators)) = some ([1], [])
      ∧ s'.findChannel (lit "#d") = none
      ∧ (∃ b', JoinCommand.leaveAll? 0 twoChannels twoObjects
            = some ({ s' with channels := twoChannels.channels }, b') ∧ b'.Holds s'.channels)
      ∧ ∃ z, s'.heap 1 = some z ∧ z.trace.offered = (twoChannels.client 1).trace.offered
        ++ [lit ":ann!a@localhost PART #c :Left all channels\r\n"] := by
  obtain ⟨hadm, hreg, hkeys, hlookups, hc, hbob, hparts⟩ :
      sample.AdmitsAll [.read 4 (.data (lit "JOIN #d\r\n"))]
      ∧ (twoChannels.heap 0).map Client.isRegistered = some true
      ∧ twoChannels.channels.keys = [lit "#c", lit "#d"]
      ∧ ((twoChannels.findChannel (lit "#d")).map Channel.members = some [0]
        ∧ (twoChannels.findChannel (lit "#c")).isSome = true)
      ∧ (twoChannels.findChannel (lit "#c")).map (fun ch => (ch.members, ch.operators)) = some ([0, 1], [0])
      ∧ (twoChannels.heap 1).isSome = true
      ∧ ((twoChannels.channels.entries.filter fun e => decide (0 ∈ e.2.members ∧ 1 ∈ e.2.members)).map
          fun e => JoinCommand.partMessage twoChannels 0 e.1)
        = [lit ":ann!a@localhost PART #c :Left all channels\r\n"] := by
    decide +kernel
  obtain ⟨x, hx, hreg⟩ := Option.map_eq_some_iff.mp hreg
  obtain ⟨y, hy⟩ := Option.isSome_iff_exists.mp hbob
  obtain ⟨ch, hch, hlists⟩ := Option.map_eq_some_iff.mp hc
  obtain ⟨chd, hchd, hmembers⟩ := Option.map_eq_some_iff.mp hlookups.1
  have hreachable : Reachable twoChannels := reachable_sample.run hadm
  have hholds := holds_twoObjects hkeys hch hchd
  obtain ⟨-, -, hleft, hoffered, hobjects⟩ :=
    join_zero_leaves_everything hreachable hx hreg (m := { command := lit "JOIN", params := [lit "0"] })
      ⟨by decide, rfl⟩
  obtain ⟨hmembers', hoperators'⟩ := Prod.mk.inj hlists
  refine ⟨?_, ?_, hobjects twoObjects hholds, ?_⟩
  · rw [hleft _ ch hch, hmembers', if_neg (by decide), Option.map_some]
    simp only [Channel.without, hmembers', hoperators']
    decide
  · rw [hleft _ chd hchd, if_pos hmembers]
  · obtain ⟨z, hz, htold⟩ := hoffered 1 y hy
    refine ⟨z, hz, ?_⟩
    rw [htold, hparts, Server.client_of_heap hy]

end FtIrc
