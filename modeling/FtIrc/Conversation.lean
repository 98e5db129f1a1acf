import FtIrc.Agreement

/-!
# Conversations

What the members of a channel say to each other. The moves of a run agree on one log of it: every
client that stays on the channel has heard what the others have said, in the order of the log, and
the log has what each of them has said, in the order of its lines.
-/

namespace FtIrc

open Bytes Relation

/-- What a line says on a channel. -/
def saidIn (name line : Str) : List Str :=
  if (Parser.parse line).handler = some .privmsg then
    match (Parser.parse line).params with
    | targets :: text :: _ => ((splitString targets comma).filter (· = name)).map fun _ => text
    | _ => []
  else []

/-- What a client that has got these messages has heard on a channel, and under which nicknames it
was said. -/
def heardIn (name : Str) (messages : List Str) : List (Str × Str) :=
  (messages.flatMap notices).filterMap (Presence.Notice.remark? name)

/-! ## What a line adds to the log -/

section Lines

variable {s t s' : Server} {c p : Ptr} {name line : Str}

theorem remarks_utterance (w : World) (text : Str)
    (hname : (s.channelAt name).isMember c = true → PrivmsgCommand.isChannel name = true)
    (target : Str) : (PrivmsgCommand.utterance text c s target).flatMap (w.remarks name)
      = if target = name ∧ (s.channelAt name).isMember c = true then [(c, w.name c, text)] else [] := by
  have hwhispered : ((s.findClientByNick target).toList.map
      fun p => (.whisper c p text : Act)).flatMap (w.remarks name) = [] := by
    rw [List.flatMap_map]
    exact List.flatMap_eq_nil_iff.mpr fun _ _ => rfl
  unfold PrivmsgCommand.utterance
  by_cases hkind : PrivmsgCommand.isChannel target = true
  swap
  · rw [if_neg hkind, hwhispered, if_neg fun h => hkind (by rw [h.1]; exact hname h.2)]
  rw [if_pos hkind]
  by_cases htarget : target = name
  · subst htarget
    by_cases hin : (s.channelAt target).isMember c = true
    · rw [if_pos hin, if_pos ⟨rfl, hin⟩, List.flatMap_singleton]
      exact if_pos rfl
    · rw [if_neg hin, if_neg fun h => hin h.2]
      rfl
  · rw [if_neg fun h : target = name ∧ _ => htarget h.1]
    split_ifs
    · rw [List.flatMap_singleton]
      exact if_neg htarget
    · rfl

theorem remarks_utterances (w : World) (senderPrefix text : Str)
    (hname : (s.channelAt name).isMember c = true → PrivmsgCommand.isChannel name = true)
    (targets : List Str) :
    (PrivmsgCommand.utterances senderPrefix text c s targets).flatMap (w.remarks name)
      = if (s.channelAt name).isMember c = true then
          ((targets.filter (· = name)).map fun _ => (c, w.name c, text))
        else [] := by
  induction targets generalizing s with
  | nil => exact (ite_self _).symm
  | cons target targets ih =>
    have hsame := PrivmsgCommand.onlySends_sendOne (.refl s) senderPrefix text c target
    have hchannel : (PrivmsgCommand.sendOne senderPrefix text c s target).channelAt name
        = s.channelAt name := by
      rw [Server.channelAt, hsame.findChannel, Server.channelAt]
    rw [PrivmsgCommand.utterances, List.flatMap_append, remarks_utterance w text hname,
      ih (by rwa [hchannel]), hchannel]
    by_cases hin : (s.channelAt name).isMember c = true
    · by_cases htarget : target = name
      · simp [hin, htarget]
      · simp [hin, htarget]
    · simp [hin]

/-- The log has what a member says, and nothing of what anybody else sends there. -/
theorem transcript_spoken (w : World)
    (hname : (t.channelAt name).isMember c = true → PrivmsgCommand.isChannel name = true) :
    w.transcript name (t.spoken c (Parser.parse line))
      = if (t.client c).isRegistered = true ∧ (t.channelAt name).isMember c = true then
          (saidIn name line).map fun text => (c, w.name c, text)
        else [] := by
  rw [Presence.World.transcript_of_speech fun _ => Server.isSpeech_of_mem_spoken]
  unfold Server.spoken saidIn
  by_cases hreg : (t.client c).isRegistered = true
  swap
  · rw [if_neg fun h => hreg h.1, if_neg fun h => hreg h.1]
    rfl
  by_cases hm : (Parser.parse line).handler = some .privmsg
  swap
  · rw [if_neg fun h => hm h.2, if_neg hm]
    exact (ite_self _).symm
  rw [if_pos ⟨hreg, hm⟩, if_pos hm]
  cases (Parser.parse line).params with
  | nil => exact (ite_self _).symm
  | cons targets rest =>
    cases rest with
    | nil => exact (ite_self _).symm
    | cons text rest =>
      dsimp only
      rw [remarks_utterances w _ _ hname, List.map_map]
      simp only [hreg, true_and]
      rfl

/-- A line enters the history of its client. -/
theorem DispatchOf.dispatched (h : DispatchOf c line s t s') {x y : Client} (hx : s.heap p = some x)
    (hy : s'.heap p = some y) : ∃ lines, y.trace.dispatched = x.trace.dispatched ++ lines
      ∧ lines.map Prod.fst = if p = c then [line] else [] := by
  have heffects := h.effects.map_heap (g := fun x => x.trace.dispatched) (p := p)
    (fun x text => by rw [Client.dispatched_sendMessage]) fun _ _ _ hown => by rw [hown.dispatched_eq]
  obtain ⟨z, z', hz, _, hextract, rfl, rfl⟩ := h
  rw [Server.handleLine, Server.heap_modify] at hy
  rw [Server.heap_modify] at heffects
  split_ifs at hy heffects ⊢ with hp
  · subst hp
    obtain rfl := Option.some_inj.mp (hz.symm.trans hx)
    obtain ⟨y', hy', rfl⟩ := Option.map_eq_some_iff.mp hy
    rw [hz, Option.map_some, Option.map_some, Client.extractLine_trace hextract] at heffects
    have hprocessed : ((s.modify p fun _ => z').processMessage p (Parser.parse line)).heap p = some y' := hy'
    rw [hprocessed, Option.map_some, Option.some_inj] at heffects
    refine ⟨[(line, y'.stopped)], ?_, rfl⟩
    show y'.trace.dispatched ++ _ = _
    rw [heffects]
  · have hprocessed : ((s.modify c fun _ => z').processMessage c (Parser.parse line)).heap p = some y := hy
    rw [hprocessed, hx, Option.map_some, Option.map_some, Option.some_inj] at heffects
    exact ⟨[], by rw [heffects, List.append_nil], rfl⟩

end Lines

/-! ## A group and its log -/

/-- Between `s` and `t` the clients that stay on a channel have said there what the log has of each
of them, and have heard what it has of the others. -/
structure Converses (name : Str) (stays : Ptr → Prop) (s t : Server) (log : List (Ptr × Str × Str)) :
    Prop where
  said : ∀ p x y, stays p → s.heap p = some x → t.heap p = some y →
    ∃ lines, y.trace.dispatched = x.trace.dispatched ++ lines
      ∧ (lines.flatMap fun e => saidIn name e.1) = (log.filter fun e => e.1 = p).map fun e => e.2.2
  heard : ∀ p x y, stays p → s.heap p = some x → t.heap p = some y → y.stopped = false →
    x.stopped = false
      ∧ heardIn name y.trace.accepted
        = heardIn name x.trace.accepted ++ (log.filter fun e => e.1 ≠ p).map Prod.snd

section Groups

variable {s t u : Server} {name : Str} {stays : Ptr → Prop} {log more : List (Ptr × Str × Str)}

theorem Converses.refl (name : Str) (stays : Ptr → Prop) (s : Server) : Converses name stays s s [] where
  said p x y _ hx hy := ⟨[], by rw [Option.some_inj.mp (hy.symm.trans hx), List.append_nil], rfl⟩
  heard p x y _ hx hy hlive := by
    obtain rfl := Option.some_inj.mp (hy.symm.trans hx)
    exact ⟨hlive, (List.append_nil _).symm⟩

theorem Converses.trans (h : Converses name stays s t log) (h' : Converses name stays t u more)
    (hthere : ∀ p, stays p → t.Allocated p) : Converses name stays s u (log ++ more) where
  said p x z hp hx hz := by
    obtain ⟨y, hy⟩ := Option.isSome_iff_exists.mp (hthere p hp)
    obtain ⟨lines, hlines, hsaid⟩ := h.said p x y hp hx hy
    obtain ⟨lines', hlines', hsaid'⟩ := h'.said p y z hp hy hz
    refine ⟨lines ++ lines', by rw [hlines', hlines, List.append_assoc], ?_⟩
    rw [List.flatMap_append, hsaid, hsaid', List.filter_append, List.map_append]
  heard p x z hp hx hz hlive := by
    obtain ⟨y, hy⟩ := Option.isSome_iff_exists.mp (hthere p hp)
    obtain ⟨hlive', hheard'⟩ := h'.heard p y z hp hy hz hlive
    obtain ⟨hlive'', hheard⟩ := h.heard p x y hp hx hy hlive'
    refine ⟨hlive'', ?_⟩
    rw [hheard', hheard, List.filter_append, List.map_append, List.append_assoc]

/-- What a live client hears on a channel it attends. -/
theorem Server.Shows.heardIn {acts : List Act} (h : Shows s t acts) (hvalid : t.OffersValid) {p : Ptr}
    {x y : Client} (hx : s.heap p = some x) (hy : t.heap p = some y) (hlive : y.stopped = false)
    (hattends : s.world.Attends p name acts) : x.stopped = false
      ∧ heardIn name y.trace.accepted = heardIn name x.trace.accepted
        ++ ((s.world.transcript name acts).filter fun e => e.1 ≠ p).map Prod.snd := by
  have hread := (h.told p y hy).1
  rw [client_of_heap hx] at hread
  obtain ⟨hbefore, hheard⟩ := hread.heard hlive (hvalid p y hy)
  refine ⟨hbefore, ?_⟩
  rw [FtIrc.heardIn, hheard, List.filterMap_append, Presence.World.heard_transcript hattends]
  rfl

/-- Whoever makes a remark is on the channel and sends it in a line. -/
def Remarks (name : Str) (s t : Server) (e : Ptr × Str × Str) : Prop :=
  ∃ line u, DispatchOf e.1 line s u t ∧ s.IsMember e.1 name
    ∧ e.2.1 = toIrcLowerCase (s.nickname e.1) ∧ e.2.2 ∈ saidIn name line

/-- One move. -/
theorem GuardedReachable.converses_move (h : GuardedReachable faithfulNews s) (hmove : Move s t)
    (hmet : faithfulNews.Met s t) (hin : ∀ p, stays p → s.IsMember p name) :
    ∃ log, Converses name stays s t log ∧ ∀ e ∈ log, Remarks name s t e := by
  have hs := h.reachable.steady
  have hvalid := (h.moves (.single ⟨hmove, hmet⟩)).offersValid
  -- the log of a line
  have hdispatched : ∀ {c line w} (acts : List Act), DispatchOf c line s w t → Server.Shows s t acts →
      (∀ p, stays p → s.world.Attends p name acts) →
      s.world.transcript name acts = s.world.transcript name (w.spoken c (Parser.parse line)) →
      ∃ log, Converses name stays s t log ∧ ∀ e ∈ log, Remarks name s t e := by
    intro c line w acts hdispatch hshows hattends hlog
    have hchannel : w.channelAt name = s.channelAt name :=
      Server.channelAt_congr (hdispatch.findChannel_eq name)
    have hmember : (w.channelAt name).isMember c = true ↔ s.IsMember c name := by
      rw [hchannel, Channel.isMember_iff, ← Server.mem_inside_iff]
      exact List.mem_toFinset.symm
    have hreg : s.IsMember c name → (s.client c).isRegistered = true := by
      intro hmem
      obtain ⟨ch, hch, hc⟩ := hmem
      exact hs.inhabited name ch hch c hc
    have hidentity : (w.client c).identity = (s.client c).identity := by
      obtain ⟨x, x', hx, _, hextract, rfl, _⟩ := hdispatch
      rw [Server.client_modify_self _ hx, Server.client_of_heap hx, Client.extractLine_identity hextract]
    rw [transcript_spoken s.world fun hc => ?_, Client.isRegistered_of_identity hidentity] at hlog
    swap
    · obtain ⟨ch, hch, _⟩ := hmember.mp hc
      obtain ⟨first, rest, rfl, hfirst, -⟩ := head_of_isValidChannelName (hs.named name ch hch)
      rcases hfirst with rfl | rfl
      · rfl
      · rfl
    refine ⟨s.world.transcript name acts, ⟨fun p x y hp hx hy => ?_, fun p x y hp hx hy hlive => ?_⟩,
      fun e he => ?_⟩
    · obtain ⟨lines, hlines, hfst⟩ := hdispatch.dispatched hx hy
      refine ⟨lines, hlines, ?_⟩
      have hsaid : (lines.flatMap fun e => saidIn name e.1)
          = (lines.map Prod.fst).flatMap (saidIn name) := by rw [List.flatMap_map]
      rw [hsaid, hfst, hlog]
      by_cases hpc : p = c
      · subst hpc
        rw [if_pos rfl, if_pos ⟨hreg (hin p hp), hmember.mpr (hin p hp)⟩, List.flatMap_singleton, List.filter_map,
          List.map_map]
        simp [Function.comp_def]
      · rw [if_neg hpc]
        split_ifs
        · simp [List.filter_map, Function.comp_def, Ne.symm hpc]
        · rfl
    · exact hshows.heardIn hvalid hx hy hlive (hattends p hp)
    · rw [hlog] at he
      split_ifs at he with hboth
      · obtain ⟨text, htext, rfl⟩ := List.mem_map.mp he
        exact ⟨line, w, hdispatch, hmember.mp hboth.2, Server.name_world hboth.1, htext⟩
      · exact absurd he List.not_mem_nil
  cases h.turn hmove hmet with
  | idle hacts hnone =>
    obtain ⟨acts, hshows, hsilent⟩ := hacts
    have hattends := fun p => Presence.World.attends_of_silent (w := s.world) hsilent p name
    refine ⟨[], ⟨fun p x y _ hx hy => ⟨[], by rw [hnone p x y hx hy, List.append_nil], rfl⟩,
      fun p x y hp hx hy hlive => ?_⟩, fun _ he => absurd he List.not_mem_nil⟩
    have hheard := hshows.heardIn hvalid hx hy hlive (hattends p).1
    rwa [(hattends p).2] at hheard
  | act hdispatch hacts hnone =>
    obtain ⟨acts, hshows, hsilent⟩ := hacts
    have hattends := fun p => Presence.World.attends_of_silent (w := s.world) hsilent p name
    refine hdispatched acts hdispatch hshows (fun p _ => (hattends p).1) ?_
    rw [hnone, (hattends 0).2]
    rfl
  | speech hdispatch hshows =>
    refine hdispatched _ hdispatch hshows (fun p hp => ?_) rfl
    exact Presence.World.attends_of_speech (fun _ => Server.isSpeech_of_mem_spoken)
      (Server.mem_inside_iff.mpr (hin p hp))

end Groups

/-- A move under the condition, during which a group of clients stays on a channel. -/
def MoveTogether (name : Str) (stays : Ptr → Prop) (s t : Server) : Prop :=
  (Move s t ∧ faithfulNews.Met s t) ∧ ∀ p, stays p → s.IsMember p name ∧ t.IsMember p name

/-- The members of a channel share one conversation. As long as some clients stay on the channel,
there is one log of what is said there: whoever of them is alive in the end has heard all that the
log has of the others, once, in the order of the log, and has said what the log has of itself, in
the order of its lines. Every remark in the log was sent in a line by a member of the channel. -/
theorem conversation_ordered {s t : Server} (h : GuardedReachable faithfulNews s) {name : Str}
    {stays : Ptr → Prop} (hrun : ReflTransGen (MoveTogether name stays) s t) :
    ∃ log, Converses name stays s t log ∧ ∀ e ∈ log, ∃ u v, GuardedMoves faithfulNews s u
      ∧ Remarks name u v e ∧ GuardedMoves faithfulNews v t := by
  have hguarded : ∀ {u v}, ReflTransGen (MoveTogether name stays) u v → GuardedMoves faithfulNews u v :=
    fun hpath => hpath.lift id fun _ _ hstep => hstep.1
  have hstep : ∀ u v l, ReflTransGen (MoveTogether name stays) s u → MoveTogether name stays u v →
      Converses name stays s u l →
      ∃ more, Converses name stays s v (l ++ more) ∧ ∀ e ∈ more, Remarks name u v e := by
    intro u v l hpath huv hl
    have hu := h.moves (hguarded hpath)
    obtain ⟨more, hmore, hmade⟩ := hu.converses_move huv.1.1 huv.1.2 fun p hp => (huv.2 p hp).1
    refine ⟨more, hl.trans hmore fun p hp => ?_, hmade⟩
    obtain ⟨ch, hch, hin⟩ := (huv.2 p hp).1
    exact (hu.reachable.integrity.channel name ch hch).allocated p (Or.inl hin)
  obtain ⟨log, hlog, hmade⟩ := hrun.exists_log (.refl name stays s) hstep
  refine ⟨log, hlog, fun e he => ?_⟩
  obtain ⟨u, v, hsu, _, hvt, hmade⟩ := hmade e he
  exact ⟨u, v, hguarded hsu, hmade, hguarded hvt⟩

/-- Ann has sent two remarks. -/
def remarked : Server := (sample.receive 0 (lit "PRIVMSG #c :hi\r\nPRIVMSG #c :there\r\n")).1

/-- The first of them is handled. -/
def halfway : Server := (remarked.readLine 0).1

/-- Both are handled. -/
def discussed : Server := (halfway.readLine 0).1

/-- A line that is there to be read, and meets a condition, is handled in a move that does. -/
theorem Reachable.met_readLine {g : Guard} {s t : Server} (h : Reachable s) {p : Ptr} {line : Str}
    (ht : t = (s.readLine p).1)
    (hline : (s.heap p).map (fun x => (x.stopped, x.extractLine.2)) = some (false, some line))
    (hg : ∀ x ∈ s.heap p, g.line (s.modify p fun _ => x.extractLine.1) p (Parser.parse line)) :
    Move s t ∧ g.Met s t := by
  subst ht
  obtain ⟨x, hx, hboth⟩ := Option.map_eq_some_iff.mp hline
  obtain ⟨live, hsome⟩ := Prod.mk.inj hboth
  have hextract : x.extractLine = (x.extractLine.1, some line) := by rw [← hsome]
  have hread : (s.readLine p).1 = (s.modify p fun _ => x.extractLine.1).handleLine p line := by
    rw [Server.readLine, Server.client_of_heap hx, hextract]
  have hdispatch : DispatchOf p line s _ (s.readLine p).1 := ⟨x, _, hx, live, hextract, rfl, hread⟩
  exact ⟨Reachable.move_readLine hline, Guard.met_of_dispatch h.integrity hdispatch (hg x hx)⟩

theorem guardedReachable_remarked : GuardedReachable faithfulNews remarked := by
  obtain ⟨hadm, hmeets, hlive⟩ : (Server.start (lit "pw") 3).AdmitsAll sampleEvents
      ∧ faithfulNews.MeetsAll (Server.start (lit "pw") 3) sampleEvents
      ∧ (sample.heap 0).map (·.stopped) = some false := by
    decide +kernel
  have hsample : GuardedReachable faithfulNews sample := guardedReachable_run hadm hmeets
  obtain ⟨x, hx, live⟩ := Option.map_eq_some_iff.mp hlive
  have hchunk : IsChunk (lit "PRIVMSG #c :hi\r\nPRIVMSG #c :there\r\n") := by decide
  exact hsample.moves (QuietMoves.guarded hsample.reachable (Reachable.quiet_receive hx live hchunk).1)

/-- Bob has heard both remarks, in order. -/
theorem conversation_ordered_sample :
    ∃ log, Converses (lit "#c") (fun p => p < 2) remarked discussed log
      ∧ (log.filter fun e => e.1 ≠ 1).map Prod.snd
        = [(lit "ann", lit "hi"), (lit "ann", lit "there")] := by
  have hreach := guardedReachable_remarked
  obtain ⟨hfirst, hmeets, hsecond, hmeets', hin⟩ :
      (remarked.heap 0).map (fun x => (x.stopped, x.extractLine.2)) = some (false, some (lit "PRIVMSG #c :hi"))
      ∧ (∀ x ∈ remarked.heap 0, faithfulNews.line (remarked.modify 0 fun _ => x.extractLine.1) 0
        (Parser.parse (lit "PRIVMSG #c :hi")))
      ∧ (halfway.heap 0).map (fun x => (x.stopped, x.extractLine.2))
        = some (false, some (lit "PRIVMSG #c :there"))
      ∧ (∀ x ∈ halfway.heap 0, faithfulNews.line (halfway.modify 0 fun _ => x.extractLine.1) 0
        (Parser.parse (lit "PRIVMSG #c :there")))
      ∧ ∀ p < 2, remarked.IsMember p (lit "#c") ∧ halfway.IsMember p (lit "#c")
        ∧ discussed.IsMember p (lit "#c") := by
    decide +kernel
  obtain ⟨hbefore, hafter⟩ :
      (remarked.heap 1).map (fun x => heardIn (lit "#c") x.trace.accepted) = some []
      ∧ (discussed.heap 1).map (fun y => (y.stopped, heardIn (lit "#c") y.trace.accepted))
        = some (false, [(lit "ann", lit "hi"), (lit "ann", lit "there")]) := by
    decide +kernel
  have hmove := hreach.reachable.met_readLine (g := faithfulNews) (t := halfway) (by rw [halfway])
    hfirst hmeets
  have hmove' := (hreach.reachable.move hmove.1).met_readLine (g := faithfulNews) (t := discussed)
    (by rw [discussed]) hsecond hmeets'
  have hrun : ReflTransGen (MoveTogether (lit "#c") fun p => p < 2) remarked discussed :=
    .head ⟨hmove, fun p hp => ⟨(hin p hp).1, (hin p hp).2.1⟩⟩
      (.single ⟨hmove', fun p hp => ⟨(hin p hp).2.1, (hin p hp).2.2⟩⟩)
  obtain ⟨x, hx, hheardBefore⟩ := Option.map_eq_some_iff.mp hbefore
  obtain ⟨y, hy, hheardAfter⟩ := Option.map_eq_some_iff.mp hafter
  obtain ⟨hlive, hheardAfter⟩ := Prod.mk.inj hheardAfter
  obtain ⟨log, hlog, -⟩ := conversation_ordered hreach hrun
  have hheard := (hlog.heard 1 x y (by decide) hx hy hlive).2
  rw [hheardBefore, hheardAfter, List.nil_append] at hheard
  exact ⟨log, hlog, hheard.symm⟩

end FtIrc
