import FtIrc.GuardedRuns

/-!
# Channels without members

`JOIN 0` deletes a channel with its last member; KICK and a disconnect do not. A channel loses
its last member in these two only if an operator kicks itself out of a channel it is alone in,
or the only member disconnects. As long as neither happens every channel has a member, and a
JOIN of a name that is not there founds the channel afresh.
-/

namespace FtIrc

open Bytes Relation

/-- Every channel has a member. -/
def Server.NoOrphans (s : Server) : Prop :=
  ∀ name ch, s.findChannel name = some ch → ch.members ≠ []

namespace KickCommand

/-- A turn of the loop at which the client kicks itself out of a channel that has no other
member. -/
def EmptiesChannel (s : Server) (client : Ptr) (channelName targetNick : Str) : Prop :=
  ∃ ch ∈ s.findChannel channelName, ch.members = [client] ∧ client ∈ ch.operators
    ∧ s.findClientByNick targetNick = some client

instance (s : Server) (client : Ptr) (channelName targetNick : Str) :
    Decidable (EmptiesChannel s client channelName targetNick) :=
  inferInstanceAs (Decidable (∃ ch ∈ s.findChannel channelName, _))

/-- No turn for these pairs empties a channel. -/
def TurnsKeepMembers (reason : Str) (client : Ptr) : List (Str × Str) → Server → Prop
  | [], _ => True
  | (channelName, targetNick) :: rest, s =>
    ¬ EmptiesChannel s client channelName targetNick
      ∧ TurnsKeepMembers reason client rest (kickOne reason client s channelName targetNick)

/-- No turn of a KICK empties a channel. -/
def KeepsMembers (s : Server) (client : Ptr) (params : List Str) : Prop :=
  match params with
  | channelList :: userList :: rest =>
    let channels := splitString channelList comma
    let users := splitString userList comma
    (channels.length ≠ 1 ∧ channels.length ≠ users.length)
      ∨ TurnsKeepMembers (rest.headD (lit "No reason given")) client (targets channels users) s
  | _ => True

instance decidableTurnsKeepMembers (reason : Str) (client : Ptr) : (l : List (Str × Str)) →
    (s : Server) → Decidable (TurnsKeepMembers reason client l s)
  | [], _ => .isTrue trivial
  | (channelName, targetNick) :: rest, s =>
    have := decidableTurnsKeepMembers reason client rest
      (kickOne reason client s channelName targetNick)
    inferInstanceAs (Decidable (_ ∧ _))

instance (s : Server) (client : Ptr) : (params : List Str) → Decidable (KeepsMembers s client params)
  | [] => .isTrue trivial
  | [_] => .isTrue trivial
  | _ :: _ :: _ => inferInstanceAs (Decidable (_ ∨ _))

section Turns

variable {reason : Str} {c : Ptr} {s : Server} {name nick : Str}

/-- A turn of the loop removes one member from one channel, or is refused. -/
theorem kickOne_cases (reason : Str) (c : Ptr) (s : Server) (name nick : Str) :
    (∃ text, kickOne reason c s name nick = s.sendMessage c text)
    ∨ ∃ ch q, s.findChannel name = some ch ∧ c ∈ ch.members ∧ c ∈ ch.operators
        ∧ s.findClientByNick nick = some q ∧ q ∈ ch.members
        ∧ ∀ n, (kickOne reason c s name nick).findChannel n
          = if n = name then some (ch.removeMember q) else s.findChannel n := by
  unfold kickOne
  dsimp only
  split
  · exact .inl ⟨_, rfl⟩
  next ch hch =>
  by_cases hmem : ch.isMember c = true
  swap
  · rw [if_pos (by simpa using hmem)]
    exact .inl ⟨_, rfl⟩
  rw [if_neg (by simpa using hmem)]
  by_cases hop : ch.isOperator c = true
  swap
  · rw [if_pos (by simpa using hop)]
    exact .inl ⟨_, rfl⟩
  rw [if_neg (by simpa using hop)]
  split
  · exact .inl ⟨_, rfl⟩
  next q hfind =>
  by_cases hq : ch.isMember q = true
  swap
  · rw [if_pos (by simpa using hq)]
    exact .inl ⟨_, rfl⟩
  rw [if_neg (by simpa using hq)]
  rw [Channel.isMember_iff] at hmem hq
  rw [Channel.isOperator_iff] at hop
  refine .inr ⟨ch, q, hch, hmem, hop, hfind, hq, fun n => ?_⟩
  have hch' := fun text => (Server.findChannel_tell s ch text c name).trans hch
  rw [Server.modifyChannel_eq _ (hch' _), Server.findChannel_modifyChannel (hch' _),
    Server.findChannel_tell]

theorem kickOne_noOrphans (hs : s.NoOrphans) (hkeeps : ¬ EmptiesChannel s c name nick) :
    (kickOne reason c s name nick).NoOrphans := by
  rcases kickOne_cases reason c s name nick with ⟨_, hsame⟩ | ⟨ch, q, hch, hmem, hop, hfind, hq, hafter⟩
  · intro n ch hch
    rw [hsame, Server.findChannel, Server.channels_sendMessage] at hch
    exact hs n ch hch
  · intro n ch' hch' hnil
    rw [hafter] at hch'
    split_ifs at hch'
    · rw [← Option.some_inj.mp hch', Channel.removeMember_eq] at hnil
      -- the last member to go is the operator that kicks
      have hsingle := eq_singleton_of_erase hq hnil
      rw [hsingle, List.mem_singleton] at hmem
      exact hkeeps ⟨ch, hch, hmem ▸ hsingle, hop, hmem ▸ hfind⟩
    · exact hs n ch' hch' hnil

/-- A channel that a turn has emptied stays, without members. -/
theorem kickOne_orphan {n : Str} (h : ∃ ch, s.findChannel n = some ch ∧ ch.members = []) :
    ∃ ch, (kickOne reason c s name nick).findChannel n = some ch ∧ ch.members = [] := by
  obtain ⟨ch₀, hch₀, hnil⟩ := h
  rcases kickOne_cases reason c s name nick with ⟨_, hsame⟩ | ⟨ch, q, hch, hmem, _, _, _, hafter⟩
  · refine ⟨ch₀, ?_, hnil⟩
    rw [hsame, Server.findChannel, Server.channels_sendMessage]
    exact hch₀
  · refine ⟨ch₀, ?_, hnil⟩
    rw [hafter, if_neg, hch₀]
    rintro rfl
    rw [← Option.some_inj.mp (hch₀.symm.trans hch), hnil] at hmem
    exact absurd hmem List.not_mem_nil

theorem emptied_orphan (h : EmptiesChannel s c name nick) :
    ∃ ch, (kickOne reason c s name nick).findChannel name = some ch ∧ ch.members = [] := by
  obtain ⟨ch, hch, hsingle, hop, hfind⟩ := h
  have hmem : c ∈ ch.members := by
    rw [hsingle]
    exact List.mem_singleton_self c
  have hch' := fun text => (Server.findChannel_tell s ch text c name).trans hch
  refine ⟨ch.removeMember c, ?_, ?_⟩
  · unfold kickOne
    rw [hch, hfind]
    dsimp only
    rw [if_neg (by simpa using hmem), if_neg (by simpa using hop), if_neg (by simpa using hmem),
      Server.modifyChannel_eq _ (hch' _), Server.findChannel_modifyChannel (hch' _), if_pos rfl]
  · rw [Channel.removeMember_eq, hsingle]
    exact List.erase_cons_head c []

end Turns

/-- The loop leaves every channel a member exactly if none of its turns empties one. -/
theorem noOrphans_loop {reason : Str} {c : Ptr} (l : List (Str × Str)) {s : Server}
    (hs : s.NoOrphans) :
    (l.foldl (fun s e => kickOne reason c s e.1 e.2) s).NoOrphans ↔ TurnsKeepMembers reason c l s := by
  induction l generalizing s with
  | nil => exact iff_of_true hs trivial
  | cons e l ih =>
    rw [List.foldl_cons]
    by_cases hempties : EmptiesChannel s c e.1 e.2
    · -- the turns behind the one that empties the channel do not bring anybody in
      have horphan : ∀ (l : List (Str × Str)) (t : Server),
          (∃ ch, t.findChannel e.1 = some ch ∧ ch.members = []) →
          ∃ ch, (l.foldl (fun s e => kickOne reason c s e.1 e.2) t).findChannel e.1 = some ch
            ∧ ch.members = [] := by
        intro l
        induction l with
        | nil => exact fun _ h => h
        | cons e l ih => exact fun t h => ih _ (kickOne_orphan h)
      obtain ⟨ch, hch, hnil⟩ := horphan l _ (emptied_orphan hempties)
      exact iff_of_false (fun h => h e.1 ch hch hnil) fun h => h.1 hempties
    · exact (ih (kickOne_noOrphans hs hempties)).trans (and_iff_right hempties).symm

theorem noOrphans_execute {s : Server} {c : Ptr} {params : List Str} (hs : s.NoOrphans) :
    (execute s c params).NoOrphans ↔ KeepsMembers s c params := by
  match params with
  | [] => exact iff_of_true hs trivial
  | [_] => exact iff_of_true hs trivial
  | channelList :: userList :: rest =>
    unfold execute KeepsMembers
    dsimp only
    split_ifs with hcount
    · exact iff_of_true hs (.inl hcount)
    · exact (noOrphans_loop _ hs).trans (or_iff_right hcount).symm

end KickCommand

/-! ## Lines and disconnects -/

/-- No KICK empties a channel, and nobody disconnects who is alone in a channel. -/
def keepsMembers : Guard where
  line s c m := m.handler = some .kick → (s.client c).isRegistered = true →
    KickCommand.KeepsMembers s c m.params
  disconnect s p := ∀ e ∈ s.channels.entries, e.2.members ≠ [p]

instance (s : Server) (c : Ptr) (m : Message) : Decidable (keepsMembers.line s c m) :=
  inferInstanceAs (Decidable (_ → _ → KickCommand.KeepsMembers s c m.params))

instance (s : Server) (p : Ptr) : Decidable (keepsMembers.disconnect s p) :=
  inferInstanceAs (Decidable (∀ e ∈ s.channels.entries, e.2.members ≠ [p]))

/-- Other lines than a KICK leave every channel a member. -/
theorem Effects.noOrphans {c : Ptr} {m : Message} {s₀ s : Server} (hs : s₀.Integrity)
    (hc : s₀.Allocated c) (h : Effects c m s₀ s) (hm : m.handler ≠ some .kick)
    (h₀ : s₀.NoOrphans) : s.NoOrphans := by
  intro name ch' hch' hnil
  cases hch : s₀.findChannel name with
  | none =>
    rcases h.created hs hc hch with hnone | ⟨hfounded, _⟩
    · cases hnone.symm.trans hch'
    · rw [← Option.some_inj.mp (hfounded.symm.trans hch')] at hnil
      cases hnil
  | some ch =>
    have hne := h₀ name ch hch
    rcases h.permitted hs hc hch with ⟨ch₁, hch₁, hperm⟩ | ⟨hnone, _⟩
    · obtain rfl := Option.some_inj.mp (hch₁.symm.trans hch')
      cases hperm with
      | unchanged => exact hne hnil
      | joined _ _ _ hout =>
        rw [Channel.addMember_of_not_mem _ hout] at hnil
        exact absurd hnil (List.append_ne_nil_of_right_ne_nil _ (List.cons_ne_nil _ _))
      | left _ _ hrest => exact hrest hnil
      | kicked _ h => exact hm h
      | invited qs =>
        obtain ⟨_, heq⟩ := Channel.foldl_addInvited qs ch
        rw [heq] at hnil
        exact hne hnil
      | topic => exact hne hnil
      | mode _ _ _ hkept => exact hne (hkept.2.2.1 ▸ hnil)
    · cases hnone.symm.trans hch'

section Moves

variable {s s' : Server}

/-- What a line leaves, it leaves without orphans exactly if it meets the guard. -/
theorem DispatchOf.noOrphans_iff {c : Ptr} {line : Str} {t : Server}
    (h : DispatchOf c line s t s') (hint : s.Integrity) (hs : s.NoOrphans) :
    s'.NoOrphans ↔ keepsMembers.line t c (Parser.parse line) := by
  have ht : t.NoOrphans := fun name ch hch => hs name ch (by rw [← h.findChannel_eq, hch])
  have hafter : s'.NoOrphans ↔ (t.processMessage c (Parser.parse line)).NoOrphans := by
    simp only [Server.NoOrphans, h.findChannel_after]
  rw [hafter]
  by_cases hm : (Parser.parse line).handler = some .kick
  · cases hreg : (t.client c).isRegistered with
    | true =>
      rw [t.processMessage_of_registered hreg hm]
      exact (KickCommand.noOrphans_execute ht).trans
        ⟨fun hkeeps _ _ => hkeeps, fun hkeeps => hkeeps hm hreg⟩
    | false =>
      refine iff_of_true (fun name ch hch => ?_) fun _ hreg' => absurd (hreg.symm.trans hreg') (by decide)
      rw [Server.findChannel, h.effects.channels_of_unregistered hreg] at hch
      exact ht name ch hch
  · exact iff_of_true (h.effects.noOrphans (h.integrity hint) h.allocated hm ht)
      fun hkick _ => absurd hkick hm

theorem noOrphans_disconnectClient {fd : Fd} {p : Ptr} (hfd : s.clients.find? fd = some p)
    (hs : s.NoOrphans) : (s.disconnectClient fd).NoOrphans ↔ keepsMembers.disconnect s p := by
  constructor
  · intro hafter e he hsingle
    have hch : s.findChannel e.1 = some e.2 := OrdMap.find?_eq_some.mpr he
    refine hafter e.1 _ (by rw [s.findChannel_disconnectClient hfd, hch]; rfl) ?_
    show (e.2.removeMember p).members = []
    rw [Channel.removeMember_eq, hsingle]
    exact List.erase_cons_head p []
  · intro hkeeps name ch' hch' hnil
    rw [s.findChannel_disconnectClient hfd] at hch'
    obtain ⟨ch, hch, rfl⟩ := Option.map_eq_some_iff.mp hch'
    rw [Channel.removeMember_eq] at hnil
    have herase : ch.members.erase p = [] := hnil
    by_cases hmem : p ∈ ch.members
    · exact hkeeps (name, ch) (OrdMap.find?_eq_some.mp hch) (eq_singleton_of_erase hmem herase)
    · rw [List.erase_of_not_mem hmem] at herase
      exact hs name ch hch herase

/-- A move keeps every channel a member exactly if it meets the guard. -/
theorem Move.noOrphans_iff (h : Move s s') (hint : s.Integrity) (hs : s.NoOrphans) :
    s'.NoOrphans ↔ keepsMembers.Met s s' := by
  constructor
  · intro hafter
    refine ⟨fun c line t hdispatch => (hdispatch.noOrphans_iff hint hs).mp hafter, ?_⟩
    rintro fd p hfd rfl
    exact (noOrphans_disconnectClient hfd hs).mp hafter
  · intro hmet
    cases h with
    | connect => exact hs
    | io => exact hs
    | line hx live hextract =>
      have hdispatch : DispatchOf _ _ s _ _ := ⟨_, _, hx, live, hextract, rfl, rfl⟩
      exact (hdispatch.noOrphans_iff hint hs).mpr (hmet.1 _ _ _ hdispatch)
    | disconnect hfd => exact (noOrphans_disconnectClient hfd hs).mpr (hmet.2 _ _ hfd rfl)
    | poll h =>
      obtain ⟨_, rfl, _⟩ := Server.of_refreshPollEvents h
      exact hs

/-- A channel that is not there before a move is founded in it. -/
theorem Move.founded_of_new (h : Move s s') (hint : s.Integrity) {name : Str} {ch : Channel}
    (hbefore : s.findChannel name = none) (hafter : s'.findChannel name = some ch) :
    ∃ c line, LineOf c line s s' ∧ (Parser.parse line).Names .join name
      ∧ ch = Channel.founded name c := by
  rcases h.channel_cases hint name with hshrinks | ⟨c, line, hline, hchanged⟩
  · obtain ⟨_, hch, _⟩ := hshrinks ch hafter
    cases hbefore.symm.trans hch
  · rw [hbefore, hafter] at hchanged
    cases hchanged with
    | founded hnames => exact ⟨c, line, hline, hnames, rfl⟩

/-- A channel all of whose members have gone is not filled again in the same move. -/
theorem Move.members_of_deserted (h : Move s s') (hint : s.Integrity) {name : Str}
    {ch ch' : Channel} (hch : s.findChannel name = some ch) (hch' : s'.findChannel name = some ch')
    (hne : ch.members ≠ []) (hgone : ∀ p ∈ ch.members, p ∉ ch'.members) : ch'.members = [] := by
  refine List.eq_nil_iff_forall_not_mem.mpr fun p hp => ?_
  rcases h.channel_cases hint name with hshrinks | ⟨c, line, _, hchanged⟩
  · obtain ⟨ch₀, hch₀, hmembers, _⟩ := hshrinks ch' hch'
    obtain rfl := Option.some_inj.mp (hch.symm.trans hch₀)
    exact hgone p (hmembers hp) hp
  · rw [hch, hch'] at hchanged
    cases hchanged with
    | kept hperm =>
      have hout : p ∉ ch.members := fun hmem => hgone p hmem hp
      obtain ⟨q, hq⟩ := List.exists_mem_of_ne_nil _ hne
      have hauthorised := hperm.authorised (hint.channel name ch hch).wf
      obtain ⟨rfl, hjoin⟩ := hauthorised.entry p hp hout
      -- the line is a JOIN, which removes nobody
      have hqp : q ≠ p := fun heq => hout (heq ▸ hq)
      exact absurd ((hauthorised.removal q hq hqp (hgone q hq)).1.1.symm.trans hjoin.1) (by decide)

end Moves

/-- As long as no KICK empties a channel and nobody disconnects who is alone in one, every channel
has a member, a channel is deleted when its last member leaves, and a JOIN of a name that is not
there founds the channel, its client being the operator. A move ends this exactly if it breaks
the condition. -/
theorem no_orphan_channels (s : Server) :
    (GuardedReachable keepsMembers s →
      s.NoOrphans
      ∧ (∀ s' name ch, Move s s' → keepsMembers.Met s s' → s.findChannel name = some ch →
          (∀ p ∈ ch.members, ¬ s'.IsMember p name) → s'.findChannel name = none)
      ∧ ∀ s' name ch, Move s s' → s.findChannel name = none → s'.findChannel name = some ch →
          ∃ c line, LineOf c line s s' ∧ (Parser.parse line).Names .join name
            ∧ ch = Channel.founded name c)
    ∧ ∀ s', Reachable s → s.NoOrphans → Move s s' → (s'.NoOrphans ↔ keepsMembers.Met s s') := by
  refine ⟨fun h => ?_, fun s' hreach hs hmove => hmove.noOrphans_iff hreach.integrity hs⟩
  have hs : s.NoOrphans := by
    refine h.induct (P := Server.NoOrphans) ?_ fun u v hu hmove hmet hu' =>
      (hmove.noOrphans_iff hu.reachable.integrity hu').mpr hmet
    intro _ _ _ ch hch
    exact absurd hch (Option.some_ne_none ch).symm
  have hint := h.reachable.integrity
  refine ⟨hs, fun s' name ch hmove hmet hch hgone => ?_,
    fun s' name ch hmove => hmove.founded_of_new hint⟩
  cases hch' : s'.findChannel name with
  | none => rfl
  | some ch' =>
    have hnil := hmove.members_of_deserted hint hch hch' (hs name ch hch)
      fun p hp hp' => hgone p hp ⟨ch', hch', hp'⟩
    exact absurd hnil ((hmove.noOrphans_iff hint hs).mpr hmet name ch' hch')

/-- The operator of the sample has set a key, kicked the other client, and then itself. -/
def deserted : Server :=
  sample.run [.read 4 (.data (lit "MODE #c +k key\r\nKICK #c bob\r\nKICK #c ann\r\n"))]

/-- The second client of the sample has left, and the connection of the first one has failed. -/
def abandoned : Server :=
  sample.run [.read 5 (.data (lit "JOIN 0\r\n")), .pollError 4, .reap]

theorem deserted_orphan :
    Reachable deserted ∧ Reachable abandoned ∧ ¬ deserted.NoOrphans ∧ ¬ abandoned.NoOrphans
      ∧ ((deserted.run [.read 5 (.data (lit "JOIN #c key\r\n"))]).findChannel (lit "#c")).map
          (fun ch => (ch.members, ch.operators, ch.password)) = some ([1], [], lit "key") := by
  have hempty : ∀ s : Server, (s.findChannel (lit "#c")).map Channel.members = some [] →
      ¬ s.NoOrphans := by
    intro s hs h
    obtain ⟨ch, hch, hnil⟩ := Option.map_eq_some_iff.mp hs
    exact h _ ch hch hnil
  obtain ⟨hkicks, hleaves, hdeserted, habandoned, hlocked⟩ :
      sample.AdmitsAll [.read 4 (.data (lit "MODE #c +k key\r\nKICK #c bob\r\nKICK #c ann\r\n"))]
      ∧ sample.AdmitsAll [.read 5 (.data (lit "JOIN 0\r\n")), .pollError 4, .reap]
      ∧ (deserted.findChannel (lit "#c")).map Channel.members = some []
      ∧ (abandoned.findChannel (lit "#c")).map Channel.members = some []
      ∧ ((deserted.run [.read 5 (.data (lit "JOIN #c key\r\n"))]).findChannel (lit "#c")).map
          (fun ch => (ch.members, ch.operators, ch.password)) = some ([1], [], lit "key") := by
    decide +kernel
  exact ⟨reachable_sample.run hkicks, reachable_sample.run hleaves, hempty _ hdeserted,
    hempty _ habandoned, hlocked⟩

/-- A run in which the operator of the sample kicks the other client, leaves the channel itself,
and disconnects. -/
def tidyEvents : List Event :=
  sampleEvents ++ [.read 4 (.data (lit "KICK #c bob\r\nJOIN 0\r\n")), .pollError 4, .reap]

theorem no_orphan_channels_sample : ((Server.start (lit "pw") 3).run tidyEvents).NoOrphans :=
  ((no_orphan_channels _).1 (guardedReachable_run (by decide +kernel) (by decide +kernel))).1

end FtIrc
