import FtIrc.Entering
import FtIrc.ModeQuery

/-!
# What can be seen of a MODE

The loop over a mode string sends the operator nothing that it listens to. What the members read is
the announcement behind the loop: it names every operator that has been made or unmade, in this
order, and nobody else.
-/

namespace FtIrc

open Bytes

namespace ModeCommand

/-! ## The loop from outside -/

/-- What a turn does to the server: nothing, a change of the channel, or an answer that announces
nothing. -/
inductive Touched (client : Ptr) (target : Str) (s : Server) : Server → Prop
  | kept : Touched client target s s
  | changed (f : Channel → Channel) : Touched client target s (s.modifyChannel target f)
  | answered {text : Str} (h : Neutral text) : Touched client target s (s.sendMessage client text)

section Turns

variable (client : Ptr) (target : Str) (m : ModeLoop)

/-- The answers of the loop begin with a numeric. -/
theorem touched_reply {m' : ModeLoop} (hm' : m'.server = m.server) {head rest : Str} (h : Neutral head) :
    Touched client target m.server (m'.reply client (head ++ rest)).server := by
  rw [ModeLoop.server_reply, hm']
  exact .answered (h.append rest)

theorem touched_modeLetter (c : Byte) :
    Touched client target m.server (modeLetter client target m c).server := by
  have hchanged : ∀ (m' : ModeLoop) (f : Channel → Channel) (on : Bool) (letter : Byte) (piece : Str),
      m'.server = m.server → Touched client target m.server
        ((m'.change target f).applied on letter piece).server := by
    intro m' f on letter piece hm'
    rw [ModeLoop.server_applied, ModeLoop.server_change, hm']
    exact .changed f
  have hnumerics : Neutral (lit ":server 696 ") ∧ Neutral (lit ":server 467 ")
      ∧ Neutral (lit ":server 441 ") :=
    ⟨.of_word (by decide) (by decide) (by decide), .of_word (by decide) (by decide) (by decide),
      .of_word (by decide) (by decide) (by decide)⟩
  obtain ⟨hinvalid, hset, habsent⟩ := hnumerics
  unfold modeLetter
  split
  · exact .kept
  next channel _ =>
  -- the signs, and then the letters in the order of the source
  split_ifs
  · exact .kept
  · exact .kept
  · unfold inviteOnlyLetter
    split_ifs
    · exact hchanged m _ _ _ _ rfl
    · exact .kept
  · unfold topicLetter
    split_ifs
    · exact hchanged m _ _ _ _ rfl
    · exact .kept
  · unfold keyLetter
    split
    · exact .kept
    dsimp only
    simp only [List.append_assoc]
    split_ifs
    · exact touched_reply client target m rfl hinvalid
    · exact hchanged _ _ _ _ _ rfl
    · exact touched_reply client target m rfl hset
    · exact hchanged _ _ _ _ _ rfl
    · exact .kept
  · unfold limitLetter
    split_ifs
    · split
      · exact .kept
      dsimp only
      simp only [List.append_assoc]
      split_ifs
      · exact touched_reply client target m rfl hinvalid
      · exact hchanged _ _ _ _ _ rfl
      · exact .kept
    · exact hchanged _ _ _ _ _ rfl
    · exact .kept
  · unfold operatorLetter
    split
    · exact .kept
    dsimp only
    simp only [List.append_assoc]
    split
    · exact touched_reply client target m rfl habsent
    split
    · split
      · exact hchanged _ _ _ _ _ rfl
      · exact .kept
    · exact touched_reply client target m rfl habsent
  · exact .kept

end Turns

/-- What the clients see while the loop runs. -/
structure Unseen (target : Str) (s t : Server) : Prop where
  findChannel : ∀ n, n ≠ target → t.findChannel n = s.findChannel n
  told : ∀ p, ∃ messages : List Str,
    t.heap p = (s.heap p).map (fun x => messages.foldl Client.sendMessage x)
      ∧ messages.flatMap notices = []

variable {client : Ptr} {target : Str} {s t : Server}

theorem Touched.unseen (h : Touched client target s t) : Unseen target s t := by
  have hnothing : ∀ p, ∃ messages : List Str,
      s.heap p = (s.heap p).map (fun x => messages.foldl Client.sendMessage x)
        ∧ messages.flatMap notices = [] := fun p => ⟨[], by simp, rfl⟩
  cases h with
  | kept => exact ⟨fun _ _ => rfl, hnothing⟩
  | changed f =>
    refine ⟨fun n hn => ?_, hnothing⟩
    rw [Server.findChannel, Server.modifyChannel, OrdMap.find?_modify, if_neg hn]
    rfl
  | answered hneutral => exact ⟨fun _ _ => rfl, (Server.informs_sendMessage s client hneutral.notices).told⟩

theorem Unseen.trans {u : Server} (h : Unseen target s t) (h' : Unseen target t u) :
    Unseen target s u where
  findChannel n hn := (h'.findChannel n hn).trans (h.findChannel n hn)
  told p := by
    obtain ⟨ms, hms, hsilent⟩ := h.told p
    obtain ⟨ns, hns, hsilent'⟩ := h'.told p
    refine ⟨ms ++ ns, ?_, by rw [List.flatMap_append, hsilent, hsilent', List.append_nil]⟩
    rw [hns, hms, Option.map_map]
    congr 1
    funext x
    exact (List.foldl_append ..).symm

theorem Unseen.identity (h : Unseen target s t) (p : Ptr) :
    (t.client p).identity = (s.client p).identity := by
  obtain ⟨messages, hheap, _⟩ := h.told p
  rw [Server.client, Server.client, hheap]
  cases s.heap p with
  | none => rfl
  | some x => exact x.identity_sendMessages messages

theorem Unseen.nickname (h : Unseen target s t) (p : Ptr) : t.nickname p = s.nickname p :=
  congrArg Client.Identity.nickname (h.identity p)

variable (client target) in
theorem unseen_modeLetter (m : ModeLoop) (c : Byte) :
    Unseen target m.server (modeLetter client target m c).server :=
  (touched_modeLetter client target m c).unseen

variable (client target) in
/-- What is read of the loop is read behind it. -/
theorem unseen_modeLoop (cs : Str) (m : ModeLoop) :
    Unseen target m.server (modeLoop client target cs m).server := by
  unfold modeLoop
  induction cs generalizing m with
  | nil => exact ⟨fun _ _ => rfl, fun p => ⟨[], by simp, rfl⟩⟩
  | cons c cs ih =>
    rw [List.foldl_cons]
    exact (unseen_modeLetter client target m c).trans (ih _)

/-! ## The changes of the operators -/

/-- Who is made or unmade an operator by a change. -/
def Change.grade : Change → Option (Bool × Ptr)
  | .operator on _ q => some (on, q)
  | _ => none

theorem Change.members_apply (d : Change) (channel : Channel) :
    (d.apply channel).members = channel.members := by
  cases d with
  | operator on nick q =>
    unfold Change.apply
    cases on with
    | true =>
      dsimp only
      rw [if_pos rfl, Channel.addOperator]
      split_ifs <;> rfl
    | false => rfl
  | inviteOnly | topicRestricted | setKey | clearKey | setLimit | clearLimit => rfl

theorem Change.topic_apply (d : Change) (channel : Channel) :
    (d.apply channel).topic = channel.topic := by
  cases d with
  | operator on nick q =>
    unfold Change.apply
    cases on with
    | true =>
      dsimp only
      rw [if_pos rfl, Channel.addOperator]
      split_ifs <;> rfl
    | false => rfl
  | inviteOnly | topicRestricted | setKey | clearKey | setLimit | clearLimit => rfl

/-- What a change does to the operators. -/
theorem Change.operators_apply (d : Change) {channel : Channel} (h : channel.operators.Nodup) :
    (d.apply channel).operators.Nodup
      ∧ (d.apply channel).operators.toFinset
        = Presence.World.regraded channel.operators.toFinset d.grade.toList := by
  cases d with
  | operator on nick q =>
    unfold Change.apply
    cases on with
    | true =>
      dsimp only
      rw [if_pos rfl]
      by_cases hq : q ∈ channel.operators
      · rw [Channel.addOperator_of_mem _ hq]
        refine ⟨h, (Finset.insert_eq_self.mpr ?_).symm⟩
        exact List.mem_toFinset.mpr hq
      · rw [Channel.addOperator_of_not_mem _ hq]
        refine ⟨List.nodup_append.mpr ⟨h, List.nodup_singleton q, ?_⟩, ?_⟩
        · rintro a ha b hb rfl
          exact hq (List.mem_singleton.mp hb ▸ ha)
        · ext r
          simp [Change.grade, Presence.World.regraded]
    | false =>
      dsimp only
      rw [if_neg Bool.false_ne_true]
      refine ⟨h.erase q, ?_⟩
      ext r
      rw [List.mem_toFinset]
      show r ∈ channel.operators.erase q ↔ r ∈ channel.operators.toFinset.erase q
      rw [h.mem_erase_iff, Finset.mem_erase, List.mem_toFinset]
  | inviteOnly | topicRestricted | setKey | clearKey | setLimit | clearLimit => exact ⟨h, rfl⟩

/-- What a list of changes does to what can be seen of a channel. -/
theorem applyChanges_seen (ds : List Change) {channel : Channel} (h : channel.operators.Nodup) :
    (applyChanges channel ds).members = channel.members
      ∧ (applyChanges channel ds).topic = channel.topic
      ∧ (applyChanges channel ds).operators.toFinset
        = Presence.World.regraded channel.operators.toFinset (ds.filterMap Change.grade) := by
  induction ds generalizing channel with
  | nil => exact ⟨rfl, rfl, rfl⟩
  | cons d ds ih =>
    obtain ⟨hnodup, hoperators⟩ := d.operators_apply h
    obtain ⟨hmembers, htopic, hrest⟩ := ih hnodup
    refine ⟨hmembers.trans (d.members_apply channel), htopic.trans (d.topic_apply channel), ?_⟩
    rw [filterMap_cons_toList, Presence.World.regraded, List.foldl_append]
    refine hrest.trans ?_
    rw [hoperators]
    rfl

/-- The loop makes a list of changes, appends it to the announcement, and knows the members that it
makes and unmakes operators by their names. -/
structure Regrades (target : Str) (channel : Channel) (m m' : ModeLoop) (ds : List Change) : Prop where
  after : m'.server.findChannel target = some (applyChanges channel ds)
  appliedModes : m'.appliedModes = m.appliedModes ++ letters m.lastSign ds
  appliedParams : m'.appliedParams
    = m.appliedParams ++ (ds.filterMap Change.piece).flatMap fun p => sp :: p
  blankFree : BlankFree m.server → ∀ p ∈ ds.filterMap Change.piece, sp ∉ p
  known : ∀ on nick q, Change.operator on nick q ∈ ds → q ∈ channel.members
    ∧ toIrcLowerCase nick = toIrcLowerCase (m.server.nickname q)

variable (client) in
theorem exists_regrades {channel : Channel} {m : ModeLoop}
    (hch : m.server.findChannel target = some channel) (cs : Str) :
    ∃ ds, Regrades target channel m (modeLoop client target cs m) ds := by
  unfold modeLoop
  induction cs generalizing m channel with
  | nil =>
    refine ⟨[], hch, ?_, ?_, fun _ _ h => absurd h List.not_mem_nil, fun _ _ _ h => absurd h List.not_mem_nil⟩
    · exact (List.append_nil _).symm
    · exact (List.append_nil _).symm
  | cons c cs ih =>
    rw [List.foldl_cons]
    have hunseen := unseen_modeLetter client target m c
    have hblank : BlankFree m.server → BlankFree (modeLetter client target m c).server := by
      intro hs p
      rw [hunseen.nickname]
      exact hs p
    cases turned_modeLetter client hch c with
    | @made d rest hmakes hm' =>
      have hafter := m.findChannel_make target d rest hch
      rw [← hm'] at hafter
      obtain ⟨ds, hds⟩ := ih hafter
      refine ⟨d :: ds, hds.after, ?_, ?_, fun hs p hp => ?_, fun on nick q hmem => ?_⟩
      · rw [hds.appliedModes, hm', ModeLoop.appliedModes_make, ModeLoop.lastSign_make, letters,
          List.append_assoc, List.append_assoc]
        rfl
      · rw [hds.appliedParams, hm', ModeLoop.appliedParams_make, Change.pieceText_eq,
          filterMap_cons_toList, List.flatMap_append, List.append_assoc]
      · rw [filterMap_cons_toList] at hp
        rcases List.mem_append.mp hp with hp | hp
        · exact hmakes.not_mem_piece hs p (Option.mem_toList.mp hp)
        · exact hds.blankFree (hblank hs) p hp
      · rcases List.mem_cons.mp hmem with rfl | hmem
        · cases hmakes with
          | operator _ hfind hmember =>
            exact ⟨hmember, (Server.findClientByNick_eq_some hfind).2.2.1.symm⟩
        · obtain ⟨hmember, hnick⟩ := hds.known on nick q hmem
          rw [d.members_apply] at hmember
          rw [hunseen.nickname] at hnick
          exact ⟨hmember, hnick⟩
    | quiet hno hquiet =>
      obtain ⟨ds, hds⟩ := ih ((hquiet.findChannel target).trans hch)
      refine ⟨ds, hds.after, ?_, ?_, fun hs => hds.blankFree (hblank hs), fun on nick q hmem => ?_⟩
      · rw [hds.appliedModes, hquiet.appliedModes, hquiet.lastSign]
      · rw [hds.appliedParams, hquiet.appliedParams]
      · obtain ⟨hmember, hnick⟩ := hds.known on nick q hmem
        rw [hunseen.nickname] at hnick
        exact ⟨hmember, hnick⟩

/-- The announced names are the names of those who have been made and unmade operators. -/
theorem Regrades.named {channel : Channel} {m m' : ModeLoop} {ds : List Change}
    (h : Regrades target channel m m' ds)
    (hchannel : ∀ q ∈ channel.members, (m.server.client q).isRegistered = true) :
    (ds.filterMap Change.named).map
        (fun e => (Presence.Notice.operator e.1 (toIrcLowerCase e.2) target : Notice))
      = (ds.filterMap Change.grade).map fun e => .operator e.1 (m.server.world.name e.2) target := by
  have hknown := h.known
  clear h
  induction ds with
  | nil => rfl
  | cons d ds ih =>
    have hrest := ih fun on nick q hmem => hknown on nick q (List.mem_cons_of_mem d hmem)
    rw [filterMap_cons_toList, filterMap_cons_toList, List.map_append, List.map_append, hrest]
    congr 1
    cases d with
    | operator on nick q =>
      obtain ⟨hmember, hnick⟩ := hknown on nick q List.mem_cons_self
      show [Presence.Notice.operator on (toIrcLowerCase nick) target]
        = [Presence.Notice.operator on (m.server.world.name q) target]
      rw [hnick, Server.name_world (hchannel q hmember)]
    | inviteOnly | topicRestricted | setKey | clearKey | setLimit | clearLimit => rfl

end ModeCommand

namespace Server

open ModeCommand

variable {s : Server} {c : Ptr}

/-- The loop and the announcement behind it. -/
theorem Steady.informs_broadcastModes (hs : s.Steady) (hreg : (s.client c).isRegistered = true)
    {target : Str} {channel : Channel} (hch : s.findChannel target = some channel)
    (hop : c ∈ channel.operators) (modeString : Str) (arguments : List Str) :
    ∃ acts, Informs s (broadcastModes c target
      (modeLoop c target modeString { server := s, params := arguments })) acts := by
  have hwf := (hs.integrity.channel target channel hch).wf
  obtain ⟨ds, hds⟩ := exists_regrades c (m := { server := s, params := arguments }) hch modeString
  have hunseen := unseen_modeLoop c target modeString { server := s, params := arguments }
  generalize modeLoop c target modeString { server := s, params := arguments } = m at hds hunseen
  obtain ⟨hmembers, htopic, hoperators⟩ := applyChanges_seen ds hwf.nodup_operators
  have hmodes : m.appliedModes = letters none ds := hds.appliedModes
  have hparams : m.appliedParams = (ds.filterMap Change.piece).flatMap fun p => sp :: p :=
    hds.appliedParams
  -- the loop has changed one channel, and the grades are all that is seen of that
  have hworld : ∀ t : Server, (∀ p, (t.client p).identity = (m.server.client p).identity) →
      (∀ n, t.findChannel n = m.server.findChannel n) →
        t.world = s.world.apply (.regrade c target (ds.filterMap Change.grade)) := by
    intro t hidentity hfind
    rw [world_of_channel (fun p => (hidentity p).trans (hunseen.identity p)) fun n hn =>
      (hfind n).trans (hunseen.findChannel n hn)]
    rw [channelAt_eq ((hfind target).trans hds.after), hmembers, htopic, hoperators,
      ← inside_world hch, ← operators_world hch, ← topic_world hch, Function.update_eq_self,
      Function.update_eq_self]
    rfl
  unfold broadcastModes
  by_cases hnone : ds = []
  · -- no change is announced
    subst hnone
    rw [if_pos (by rw [hmodes]; rfl)]
    refine ⟨[], .of_silent ?_ hunseen.told⟩
    rw [hworld m.server (fun _ => rfl) fun _ => rfl, Presence.World.apply]
    show { s.world with operators := Function.update s.world.operators target (s.world.operators target) }
      = s.world
    rw [Function.update_eq_self]
  rw [if_neg (by rw [hmodes, List.isEmpty_iff]; exact letters_ne_nil hnone), hds.after]
  dsimp only
  refine ⟨[.regrade c target (ds.filterMap Change.grade)], .of_act ⟨(mem_operators hch).mpr hop, ?_⟩ ?_
    (fun p => ?_) trivial⟩
  · intro e he
    obtain ⟨d, hd, hgrade⟩ := List.mem_filterMap.mp he
    cases d with
    | operator on nick q =>
      obtain rfl := Option.some_inj.mp hgrade
      exact (mem_inside hch).mpr (hds.known on nick q hd).1
    | inviteOnly | topicRestricted | setKey | clearKey | setLimit | clearLimit => cases hgrade
  · refine hworld _ (fun p => ?_) fun n => ?_
    · rw [broadcastMessage, identity_sendAll]
    · rw [findChannel, channels_broadcastMessage]
      rfl
  · obtain ⟨messages, htold, hsilent⟩ := hunseen.told p
    have hall : (applyChanges channel ds).members.filter (fun q => some q != none) = channel.members := by
      rw [hmembers]
      exact List.filter_eq_self.mpr fun q _ => rfl
    have hspoken := (hs.spoken c hreg).2
    have hnicks : m.server.nickname c = s.nickname c ∧ m.server.username c = s.username c :=
      ⟨hunseen.nickname c, congrArg Client.Identity.username (hunseen.identity c)⟩
    -- the letters and pieces of the announcement are read back as the changes they stand for
    have hread : notices (lit ":" ++ m.server.nickname c ++ lit "!~" ++ m.server.username c
        ++ lit "@localhost MODE " ++ target ++ lit " " ++ m.appliedModes ++ m.appliedParams
        ++ lit "\r\n")
        = (ds.filterMap Change.grade).map fun e => .operator e.1 (s.world.name e.2) target := by
      have hletters : sp ∉ letters none ds := fun hsp => absurd (bytes_letters sp hsp).1 (by decide)
      rw [hnicks.1, hnicks.2, hmodes, hparams, hspoken.notices_mode (hs.blank hch) hletters
        (hds.blankFree hs.blankFree)]
      have hchanges : operatorChanges true (letters none ds) (ds.filterMap Change.piece)
          = ds.filterMap Change.named := operatorChanges_letters none (fun _ h => by cases h) ds
      rw [hchanges]
      exact hds.named (hs.inhabited target channel hch)
    rw [broadcastMessage, hall, Presence.World.hears]
    generalize lit ":" ++ m.server.nickname c ++ lit "!~" ++ m.server.username c
      ++ lit "@localhost MODE " ++ target ++ lit " " ++ m.appliedModes ++ m.appliedParams
      ++ lit "\r\n" = text at hread ⊢
    -- the answers of the loop come in front of the announcement, and say nothing
    by_cases hp : p ∈ channel.members
    · refine ⟨messages ++ [text], ?_, ?_⟩
      · rw [heap_sendAll_of_mem hwf.nodup_members hp, htold, Option.map_map]
        congr 1
        funext x
        rw [List.foldl_append]
        rfl
      · rw [List.flatMap_append, hsilent, List.nil_append, List.flatMap_singleton, hread,
          if_pos ((mem_inside hch).mpr hp)]
    · refine ⟨messages, ?_, ?_⟩
      · rw [heap_sendAll_of_not_mem hp, htold]
      · rw [hsilent, if_neg fun hin => hp ((mem_inside hch).mp hin)]

/-- MODE regrades the members of a channel, or nothing happens. -/
theorem Steady.informs_mode (hs : s.Steady) (hreg : (s.client c).isRegistered = true)
    (params : List Str) : ∃ acts, Informs s (ModeCommand.execute s c params) acts := by
  unfold ModeCommand.execute
  cases params with
  | nil =>
    simp only [List.append_assoc]
    exact informs_reply s c (.of_word (by decide) (by decide) (by decide))
  | cons target rest =>
    dsimp only
    split_ifs with hname
    · exact ⟨[], .refl s⟩
    cases hch : s.findChannel target with
    | none =>
      simp only [List.append_assoc]
      exact informs_reply s c (.of_word (by decide) (by decide) (by decide))
    | some channel =>
      cases rest with
      | nil =>
        simp only [List.append_assoc]
        exact informs_reply s c (.of_word (by decide) (by decide) (by decide))
      | cons modeString arguments =>
        dsimp only
        by_cases hop : c ∈ channel.operators
        swap
        · rw [if_pos (by simpa [Channel.isOperator_iff] using hop)]
          simp only [List.append_assoc]
          exact informs_reply s c (.of_word (by decide) (by decide) (by decide))
        rw [if_neg (by simpa [Channel.isOperator_iff] using hop)]
        cases unknownLetter modeString with
        | none => exact hs.informs_broadcastModes hreg hch hop modeString arguments
        | some letter =>
          simp only [List.append_assoc]
          exact informs_reply s c (.of_word (by decide) (by decide) (by decide))

end Server

end FtIrc
