import FtIrc.Reaping
import FtIrc.ShownLines

/-!
# What the clients know

The server refines its world: every move is a run of acts of the world, and the messages that a live
client accepts in the move announce to it what the acts tell it. So whatever the order of the moves,
whoever has read all that it has been sent knows its nickname and sees the channels it is on as they
are.
-/

namespace FtIrc

open Bytes

/-- Every message fits, and nobody takes the nickname of a client that is dead and not yet
disconnected. -/
def faithfulNews : Guard where
  line s c m := answersFit.line s c m ∧ deadKeepNicknames.line s c m
  disconnect s p := answersFit.disconnect s p

instance (s : Server) (c : Ptr) (m : Message) : Decidable (faithfulNews.line s c m) :=
  inferInstanceAs (Decidable (_ ∧ _))

instance (s : Server) (p : Ptr) : Decidable (faithfulNews.disconnect s p) :=
  inferInstanceAs (Decidable (s.QuitFits p))

/-- A stronger condition is met in fewer runs. -/
theorem GuardedReachable.mono {g g' : Guard} {s : Server} (h : GuardedReachable g s)
    (hline : ∀ s c m, g.line s c m → g'.line s c m)
    (hdisconnect : ∀ s p, g.disconnect s p → g'.disconnect s p) : GuardedReachable g' s := by
  obtain ⟨password, listenFd, hrun⟩ := h
  refine ⟨password, listenFd, hrun.lift id fun u v hstep => ⟨hstep.1, fun c line t hdispatch => ?_, ?_⟩⟩
  · exact hline _ _ _ (hstep.2.1 c line t hdispatch)
  · exact fun fd p hfd heq => hdisconnect _ _ (hstep.2.2 fd p hfd heq)

namespace GuardedReachable

variable {s : Server} (h : GuardedReachable faithfulNews s)
include h

theorem answersFit : GuardedReachable FtIrc.answersFit s :=
  h.mono (fun _ _ _ => And.left) fun _ _ => id

theorem deadKeepNicknames : GuardedReachable FtIrc.deadKeepNicknames s :=
  h.mono (fun _ _ _ => And.right) fun _ _ _ => trivial

theorem offersValid : s.OffersValid :=
  h.answersFit.induct (P := Server.OffersValid) (fun _ _ _ _ hx => absurd hx (Option.some_ne_none _).symm)
    fun _ _ hu hmove hmet hu' => (hmove.offersValid_iff hu.reachable hu').mpr hmet

end GuardedReachable

/-! ## Reachable states -/

namespace Server

variable {s : Server} {c p : Ptr} {x y : Client}

theorem Steady.modify (hs : s.Steady) (hint : (s.modify c fun _ => y).Integrity)
    (hx : s.heap c = some x) (hidentity : y.identity = x.identity) :
    (s.modify c fun _ => y).Steady := by
  have hclient : ∀ p, ((s.modify c fun _ => y).client p).identity = (s.client p).identity := by
    intro p
    by_cases hp : p = c
    · rw [hp, client_modify_self _ hx, client_of_heap hx, hidentity]
    · rw [client_modify_ne _ _ hp]
  refine ⟨hint, hs.named, fun name ch hch p hp => ?_, fun p => ?_⟩
  · rw [Client.isRegistered_of_identity (hclient p)]
    exact hs.inhabited name ch hch p hp
  · rw [hclient]
    exact hs.sound p

/-- Names tell registered clients apart. -/
theorem Steady.sound_world (hs : s.Steady) (hdistinct : s.DistinctNicknames) : s.world.Sound where
  names p hp q hq heq := by
    have hp' : (s.client p).isRegistered = true := hp
    have hq' : (s.client q).isRegistered = true := hq
    rw [name_world hp', name_world hq'] at heq
    obtain ⟨x, hx⟩ := Option.isSome_iff_exists.mp (allocated_of_isRegistered hp')
    obtain ⟨y, hy⟩ := Option.isSome_iff_exists.mp (allocated_of_isRegistered hq')
    have hvalid := (hs.spoken p hp').1
    rw [nickname, client_of_heap hx] at heq hvalid
    rw [nickname, client_of_heap hy] at heq
    exact hdistinct p q x y hx hy (ne_nil_of_isValidNickname hvalid) heq
  absent p hp := if_neg hp
  inside_sub name p hp := by
    obtain ⟨ch, hch, hp⟩ := mem_inside_iff.mp hp
    exact hs.inhabited name ch hch p hp
  operators_sub name p hp := by
    cases hch : s.findChannel name with
    | none =>
      have hp' : p ∈ (s.channelAt name).operators.toFinset := hp
      rw [channelAt_of_none hch] at hp'
      exact absurd hp' (Finset.notMem_empty p)
    | some ch =>
      exact (mem_inside hch).mpr
        ((hs.integrity.channel name ch hch).wf.operators_sub p ((mem_operators hch).mp hp))

end Server

theorem Reachable.steady {s : Server} (h : Reachable s) : s.Steady where
  integrity := h.integrity
  named name ch hch := (h.keyed name ch hch).1
  inhabited name ch hch p hp := by
    obtain ⟨x, hx, hreg⟩ := h.member_registered ⟨ch, hch, hp⟩
    rw [Server.client_of_heap hx, hreg]
  sound p := by
    cases hx : s.heap p with
    | some x =>
      rw [Server.client_of_heap hx]
      exact h.identity_sound p x hx
    | none =>
      rw [Server.client, hx]
      exact ⟨rfl, rfl, fun h => by simp [Client.identity] at h⟩

/-! ## The moves -/

namespace Server

variable {s t s' : Server} {c p : Ptr} {x y : Client}

theorem shows_connect {fd : Fd} {ip : Str} (hp : s.heap p = none) : Shows s (s.connect fd ip p) [] := by
  have hheap : ∀ q, q ≠ p → (s.connect fd ip p).heap q = s.heap q :=
    fun q hq => Function.update_of_ne hq _ _
  have hself : (s.connect fd ip p).heap p = some { fd, ip } := Function.update_self ..
  have hbefore : s.client p = default := by
    rw [client, hp]
    rfl
  refine ⟨trivial, world_congr (fun q => ?_) fun n => ⟨rfl, rfl, rfl⟩, fun q z hz => ?_⟩
  · by_cases hq : q = p
    · rw [hq, client_of_heap hself, hbefore]
      rfl
    · rw [client, hheap q hq, client]
  · refine ⟨?_, fun _ ha => absurd ha List.not_mem_nil⟩
    by_cases hq : q = p
    · rw [hq, hself, Option.some_inj] at hz
      rw [hq, hbefore, ← hz]
      exact .of_silent rfl rfl id
    · rw [hheap q hq] at hz
      rw [client_of_heap hz]
      exact .refl z

theorem shows_poll (h : s.refreshPollEvents = .ok s') : Shows s s' [] := by
  obtain ⟨_, rfl, _⟩ := of_refreshPollEvents h
  refine ⟨trivial, rfl, fun q z hz => ⟨?_, fun _ ha => absurd ha List.not_mem_nil⟩⟩
  have hz' : s.heap q = some z := hz
  rw [client_of_heap hz']
  exact .refl z

/-- A line is taken from the buffer, handled and recorded. -/
theorem shows_line {line : Str} (hs : s.Steady) (hdispatch : DispatchOf c line s t s')
    (hdistinct : (t.processMessage c (Parser.parse line)).DistinctNicknames) :
    Shows s s' (t.spoken c (Parser.parse line))
      ∨ ShowsSilently s s' ∧ t.spoken c (Parser.parse line) = [] := by
  have hint := hdispatch.integrity hs.integrity
  have heffects := hdispatch.effects
  obtain ⟨x, x', hx, live, hextract, rfl, rfl⟩ := hdispatch
  have hidentity : x'.identity = x.identity := Client.extractLine_identity hextract
  have htaken : Shows s (s.modify c fun _ => x') [] := by
    refine shows_modify hx (Client.isRegistered_of_identity hidentity)
      (fun _ => by rw [Client.nickname_of_identity hidentity]) ?_
    have htrace := Client.extractLine_trace hextract
    exact .of_silent (by rw [htrace]) (by rw [htrace]) fun _ => live
  have hx' : (s.modify c fun _ => x').heap c = some x' := heap_extracted hx x'
  have hkept : ∀ q, (((s.modify c fun _ => x').processMessage c (Parser.parse line)).heap q).isSome
      = ((s.modify c fun _ => x').heap q).isSome := by
    intro q
    have hsame := heffects.map_heap (g := fun _ => ()) (p := q) (fun _ _ => rfl) fun _ _ _ _ => rfl
    have hsome := congrArg Option.isSome hsame
    rwa [Option.isSome_map, Option.isSome_map] at hsome
  -- the entry into the history is of no account
  obtain ⟨y, hy⟩ : ∃ y, ((s.modify c fun _ => x').processLine c line).heap c = some y :=
    Option.isSome_iff_exists.mp ((hkept c).trans (by rw [hx', Option.isSome_some]))
  have hrecorded : Shows ((s.modify c fun _ => x').processLine c line)
      (((s.modify c fun _ => x').processLine c line).modify c fun _ => y.recordLine line) [] :=
    shows_modify hy rfl (fun _ => rfl) (.of_silent rfl rfl id)
  have hline : ∀ acts, Shows (s.modify c fun _ => x')
        ((s.modify c fun _ => x').processMessage c (Parser.parse line)) acts →
      Shows s ((s.modify c fun _ => x').handleLine c line) acts := by
    intro acts hacts
    have hhandled := (htaken.trans hacts fun q hq => (hkept q).symm.trans hq).trans hrecorded
      fun q hq => by rwa [Allocated, isSome_heap_modify] at hq
    rw [List.nil_append, List.append_nil] at hhandled
    rw [handleLine, modify_eq _ hy]
    exact hhandled
  rcases (hs.modify hint hx hidentity).shows_processMessage hx' (Parser.parse line) hdistinct
    with hspeech | ⟨⟨acts, hacts, hsilent⟩, hnone⟩
  · exact Or.inl (hline _ hspeech)
  · exact Or.inr ⟨⟨acts, hline acts hacts, hsilent⟩, hnone⟩

/-- Whoever is disconnected vanishes. -/
theorem Steady.world_disconnectClient (hs : s.Steady) {fd : Fd} (hfd : s.clients.find? fd = some p) :
    (s.disconnectClient fd).world = s.world.apply (.vanish p) := by
  have hself : (s.disconnectClient fd).client p = default := by
    rw [client, heap_disconnectClient_self hfd]
    rfl
  -- the QUIT lines and the freeing of the client leave the others as they are
  have hothers : ∀ q, q ≠ p → ((s.disconnectClient fd).client q).identity = (s.client q).identity := by
    intro q hq
    have hclient : (s.disconnectClient fd).client q = (s.announceQuit p).client q := by
      rw [disconnectClient, hfd, client, client]
      show (Function.update (s.announceQuit p).heap p none q).getD default = _
      rw [Function.update_of_ne hq]
    rw [hclient, announceQuit]
    split_ifs
    · exact identity_sendAll ..
    · rfl
  -- a channel that is left empty stays, with its topic
  have hat : ∀ n, (s.disconnectClient fd).channelAt n
      = ((s.channelAt n).removeMember p).removeInvited p := by
    intro n
    rw [channelAt, channelAt, findChannel_disconnectClient hfd]
    cases s.findChannel n with
    | none => rfl
    | some ch => rfl
  have hwf : ∀ n, (s.channelAt n).Wf := by
    intro n
    cases hch : s.findChannel n with
    | none =>
      rw [channelAt_of_none hch]
      exact ⟨List.nodup_nil, List.nodup_nil, List.nodup_nil, fun _ h => h,
        fun _ h => absurd h List.not_mem_nil⟩
    | some ch =>
      rw [channelAt_eq hch]
      exact (hs.integrity.channel n ch hch).wf
  have herase : ∀ l : List Ptr, l.Nodup → (l.erase p).toFinset = l.toFinset.erase p := by
    intro l hl
    ext q
    rw [List.mem_toFinset, Finset.mem_erase, hl.mem_erase_iff, List.mem_toFinset]
  refine Presence.World.ext (Set.ext fun q => ?_) (Function.eq_update_iff.mpr ⟨?_, fun q hq => ?_⟩)
    (funext fun n => ?_) (funext fun n => ?_) (funext fun n => ?_)
  · show ((s.disconnectClient fd).client q).isRegistered = true ↔ (s.client q).isRegistered = true ∧ q ≠ p
    by_cases hq : q = p
    · rw [hq, hself]
      exact iff_of_false (by decide) fun h => h.2 rfl
    · rw [Client.isRegistered_of_identity (hothers q hq), and_iff_left hq]
  · show (if _ then _ else _) = _
    rw [hself]
    rfl
  · show (if _ then _ else _) = (if _ then _ else _)
    rw [Client.isRegistered_of_identity (hothers q hq), nickname,
      Client.nickname_of_identity (hothers q hq), nickname]
  · show ((s.disconnectClient fd).channelAt n).members.toFinset = (s.channelAt n).members.toFinset.erase p
    rw [hat, Channel.removeMember_eq, ← herase _ (hwf n).nodup_members]
    rfl
  · show ((s.disconnectClient fd).channelAt n).operators.toFinset
      = (s.channelAt n).operators.toFinset.erase p
    rw [hat, Channel.removeMember_eq, ← herase _ (hwf n).nodup_operators]
    rfl
  · show ((s.disconnectClient fd).channelAt n).topic = (s.channelAt n).topic
    rw [hat, Channel.removeMember_eq]
    rfl

/-- Only a client that was registered is missed. -/
theorem Steady.shows_disconnect (hs : s.Steady) (hw : s.world.Sound) {fd : Fd}
    (hfd : s.clients.find? fd = some p) : ShowsSilently s (s.disconnectClient fd) := by
  have hworld := hs.world_disconnectClient hfd
  have hheap : ∀ q, q ≠ p → (s.disconnectClient fd).heap q = (s.announceQuit p).heap q := by
    intro q hq
    rw [disconnectClient, hfd]
    exact Function.update_of_ne hq _ _
  have hpresent : ∀ q z, (s.disconnectClient fd).heap q = some z → q ≠ p := by
    rintro q z hz rfl
    rw [heap_disconnectClient_self hfd] at hz
    cases hz
  by_cases hreg : (s.client p).isRegistered = true
  · refine ⟨[.vanish p], ⟨⟨hreg, trivial⟩, hworld, fun q z hz => ?_⟩, rfl⟩
    have hq := hpresent q z hz
    refine ⟨?_, fun a ha => by simp [List.mem_singleton.mp ha, hq.symm]⟩
    rw [Presence.World.heard, Presence.World.heard, List.append_nil, Presence.World.hears]
    rw [hheap q hq, announceQuit, if_pos hreg] at hz
    have htold : q ∈ s.quitRecipients p ↔ q ≠ p ∧ s.world.Share p q := by
      rw [mem_quitRecipients, share_iff]
    have hread : notices (quitMessage (s.client p)) = [.quit (s.world.name p)] := by
      rw [name_world hreg]
      exact (hs.spoken p hreg).2.notices_quit _
    by_cases hmem : q ∈ s.quitRecipients p
    · rw [heap_sendAll_of_mem (s.nodup_quitRecipients p) hmem] at hz
      obtain ⟨y, hy, rfl⟩ := Option.map_eq_some_iff.mp hz
      rw [if_pos (htold.mp hmem), ← hread, client_of_heap hy]
      exact y.reads_sendMessage _
    · rw [heap_sendAll_of_not_mem hmem] at hz
      rw [if_neg fun h => hmem (htold.mpr h), client_of_heap hz]
      exact .refl z
  · refine ⟨[], ⟨trivial, hworld.trans (hw.apply_vanish_of_absent hreg), fun q z hz => ?_⟩, rfl⟩
    have hq := hpresent q z hz
    rw [hheap q hq, announceQuit, if_neg hreg] at hz
    rw [client_of_heap hz]
    exact ⟨.refl z, fun _ ha => absurd ha List.not_mem_nil⟩

end Server

/-! ## Runs -/

/-- What has been dispatched for a client is the same in both states, as long as it is there. -/
def Server.NothingDispatched (s s' : Server) : Prop :=
  ∀ p x y, s.heap p = some x → s'.heap p = some y → y.trace.dispatched = x.trace.dispatched

theorem Quiet.nothingDispatched {s s' : Server} (h : Quiet s s') : s.NothingDispatched s' := by
  intro p x y hx hy
  obtain ⟨z, hz, hsame⟩ := h.dispatched p x hx
  rwa [Option.some_inj.mp (hy.symm.trans hz)]

theorem Server.nothingDispatched_disconnectClient (s : Server) {fd : Fd} {p : Ptr}
    (hfd : s.clients.find? fd = some p) : s.NothingDispatched (s.disconnectClient fd) := by
  intro q x y hx hy
  have hq : q ≠ p := by
    rintro rfl
    cases (heap_disconnectClient_self hfd).symm.trans hy
  rw [s.heap_disconnectClient hfd hq, hx, Option.map_some, Option.some_inj] at hy
  rw [← hy]
  cases s.quitLine? q fd with
  | none => rfl
  | some text => exact x.dispatched_sendMessage text

/-- What a move comes to: a line says what it says, or nothing is said. -/
inductive Server.Turn (s s' : Server) : Prop
  | idle (hacts : ShowsSilently s s') (hnone : s.NothingDispatched s')
  | act {c : Ptr} {line : Str} {t : Server} (hdispatch : DispatchOf c line s t s')
      (hacts : ShowsSilently s s') (hnone : t.spoken c (Parser.parse line) = [])
  | speech {c : Ptr} {line : Str} {t : Server} (hdispatch : DispatchOf c line s t s')
      (hacts : Shows s s' (t.spoken c (Parser.parse line)))

theorem Server.Turn.shows {s s' : Server} (h : s.Turn s') : ∃ acts, Server.Shows s s' acts := by
  cases h with
  | idle hacts | act _ hacts =>
    obtain ⟨acts, hacts, _⟩ := hacts
    exact ⟨acts, hacts⟩
  | speech _ hacts => exact ⟨_, hacts⟩

/-- A move under the condition acts in the world, and shows that it does. -/
theorem GuardedReachable.turn {s s' : Server} (h : GuardedReachable faithfulNews s)
    (hmove : Move s s') (hmet : faithfulNews.Met s s') : s.Turn s' := by
  have hreach := h.reachable
  have hs := hreach.steady
  have hdistinct := h.deadKeepNicknames.distinctNicknames
  cases hmove with
  | connect hlisten hfd hp hip htotal hcount =>
    have hquiet := quiet_of_connect (.connect hlisten hfd hp hip htotal hcount) hp
    exact .idle ⟨[], Server.shows_connect hp, rfl⟩ hquiet.nothingDispatched
  | io hx hio =>
    have hsame := Server.shows_modify hx (Client.isRegistered_of_identity hio.identity_eq)
      (fun _ => by rw [Client.nickname_of_identity hio.identity_eq]) hio.reads
    exact .idle ⟨[], hsame, rfl⟩ (quiet_io hx hio).nothingDispatched
  | @line c x x' line hx live hextract =>
    have hdispatch : DispatchOf c line s _ _ := ⟨x, x', hx, live, hextract, rfl, rfl⟩
    have hkeeps : ∀ y, s.heap c = some y → x'.nickname = y.nickname ∧ (y.dead = true → x'.dead = true) := by
      intro y hy
      obtain rfl := Option.some_inj.mp (hx.symm.trans hy)
      refine ⟨Client.nickname_of_identity (Client.extractLine_identity hextract), fun hdead => ?_⟩
      simp [Client.stopped, hdead] at live
    have hline := Server.shows_line hs hdispatch
      (hdispatch.effects.distinctNicknames (hdispatch.integrity hs.integrity)
        (hreach.uniqueNicknames.modify c hkeeps) (hdistinct.modify c hkeeps) (hmet.1 c line _ hdispatch).2)
    rcases hline with hspeech | ⟨hacts, hnone⟩
    · exact .speech hdispatch hspeech
    · exact .act hdispatch hacts hnone
  | disconnect hfd =>
    exact .idle (hs.shows_disconnect (hs.sound_world hdistinct) hfd)
      (s.nothingDispatched_disconnectClient hfd)
  | poll hpoll => exact .idle ⟨[], Server.shows_poll hpoll, rfl⟩ (quiet_poll hpoll).nothingDispatched

/-- What a client makes of the messages it has got. -/
def viewOf (messages : List Str) : View := Presence.View.start.hearAll (messages.flatMap notices)

/-- Every live client that reads what it has accepted sees the world as it is. -/
theorem GuardedReachable.viewOf_accepted {s : Server} (h : GuardedReachable faithfulNews s) :
    ∀ p x, s.heap p = some x → x.stopped = false → viewOf x.trace.accepted = s.world.view p := by
  refine h.induct (P := fun s => ∀ p x, s.heap p = some x → x.stopped = false →
    viewOf x.trace.accepted = s.world.view p) (fun _ _ _ _ hx => absurd hx (Option.some_ne_none _).symm) ?_
  intro u v hu hmove hmet ih p y hy hlive
  have hw := hu.reachable.steady.sound_world hu.deadKeepNicknames.distinctNicknames
  have hvalid := ((hmove.offersValid_iff hu.reachable hu.offersValid).mpr
    ⟨fun c line t hdispatch => (hmet.1 c line t hdispatch).1, hmet.2⟩) p y hy
  obtain ⟨acts, hshows⟩ := (hu.turn hmove hmet).shows
  obtain ⟨hreads, hstays⟩ := hshows.told p y hy
  obtain ⟨hbefore, hheard⟩ := hreads.heard hlive hvalid
  have hview : viewOf (u.client p).trace.accepted = u.world.view p := by
    cases hx : u.heap p with
    | some x =>
      rw [Server.client_of_heap hx] at hbefore ⊢
      exact ih p x hx hbefore
    | none =>
      -- nobody has been there
      have hclient : u.client p = default := by
        rw [Server.client, hx]
        rfl
      have hout : p ∉ u.world.present := by
        show ¬ (u.client p).isRegistered = true
        rw [hclient]
        decide
      rw [hw.view_of_absent hout, hclient]
      rfl
  rw [viewOf, hheard, Presence.View.hearAll_append, ← viewOf, hview, hshows.world]
  exact hw.view_run hshows.admits hstays

/-- The server refines the world of its registered clients: every move is a run of acts that the
world allows, what a live client has accepted in the move announces to it exactly what the acts tell
it, and that takes its view of the world before the move to its view behind it. -/
theorem world_refined {s s' : Server} (h : GuardedReachable faithfulNews s) (hmove : Move s s')
    (hmet : faithfulNews.Met s s') :
    s.world.Sound ∧ ∃ acts, s.world.Admits acts ∧ s'.world = s.world.run acts
      ∧ ∀ p y, s'.heap p = some y → y.stopped = false →
        (s.client p).stopped = false
        ∧ y.trace.accepted.flatMap notices
            = (s.client p).trace.accepted.flatMap notices ++ s.world.heard p acts
        ∧ s'.world.view p = (s.world.view p).hearAll (s.world.heard p acts) := by
  have hw := h.reachable.steady.sound_world h.deadKeepNicknames.distinctNicknames
  refine ⟨hw, ?_⟩
  obtain ⟨acts, hshows⟩ := (h.turn hmove hmet).shows
  refine ⟨acts, hshows.admits, hshows.world, fun p y hy hlive => ?_⟩
  have hvalid := ((hmove.offersValid_iff h.reachable h.offersValid).mpr
    ⟨fun c line t hdispatch => (hmet.1 c line t hdispatch).1, hmet.2⟩) p y hy
  obtain ⟨hreads, hstays⟩ := hshows.told p y hy
  obtain ⟨hbefore, hheard⟩ := hreads.heard hlive hvalid
  refine ⟨hbefore, hheard, ?_⟩
  rw [hshows.world]
  exact (hw.view_run hshows.admits hstays).symm

/-- The connection of the first client of the sample has failed. -/
def lostEvents : List Event := sampleEvents ++ [.pollError 4]

def lost : Server := (Server.start (lit "pw") 3).run lostEvents

/-- Its disconnect is a run of acts that tell the second client who has gone. -/
theorem world_refined_sample :
    ∃ acts, lost.world.Admits acts ∧ (lost.disconnectClient 4).world = lost.world.run acts
      ∧ lost.world.heard 1 acts = [.quit (lit "ann")] := by
  obtain ⟨hadm, hmeets, hfd, hdead, hfits, hclient, haccepted⟩ :
      (Server.start (lit "pw") 3).AdmitsAll lostEvents
      ∧ faithfulNews.MeetsAll (Server.start (lit "pw") 3) lostEvents
      ∧ lost.clients.find? 4 = some 0 ∧ (lost.heap 0).map (·.dead) = some true
      ∧ faithfulNews.disconnect lost 0
      ∧ ((lost.disconnectClient 4).heap 1).map (·.stopped) = some false
      ∧ ((lost.disconnectClient 4).client 1).trace.accepted = (lost.client 1).trace.accepted
        ++ [lit ":ann!a@localhost QUIT :socket error (POLLERR/POLLHUP)\r\n"] := by
    decide +kernel
  have hreach : GuardedReachable faithfulNews lost := guardedReachable_run hadm hmeets
  obtain ⟨x, hx, hxdead⟩ := Option.map_eq_some_iff.mp hdead
  obtain ⟨y, hy, hlive⟩ := Option.map_eq_some_iff.mp hclient
  obtain ⟨-, acts, hadmits, hworld, htold⟩ := world_refined hreach (.disconnect hfd hx hxdead)
    (Guard.met_disconnectClient hreach.reachable.integrity hfd hfits)
  have hheard := (htold 1 y hy hlive).2.1
  rw [← Server.client_of_heap hy, haccepted, List.flatMap_append, List.append_cancel_left_eq] at hheard
  have hspoken : Spoken (lit "ann") (lit "a") := ⟨by decide, by decide, by decide⟩
  refine ⟨acts, hadmits, hworld, hheard.symm.trans ?_⟩
  rw [List.flatMap_singleton]
  exact hspoken.notices_quit (lit "socket error (POLLERR/POLLHUP)")

/-- Whoever has read what it has been sent knows its nickname and the channels it is on, with the
nicknames of all members, of the operators, and the topic; of other channels it knows nothing. -/
theorem views_agree {s : Server} (h : GuardedReachable faithfulNews s) {p : Ptr} {x : Client}
    (hx : s.heap p = some x) (hlive : x.stopped = false) :
    (x.isRegistered = true → (viewOf x.trace.accepted).own = toIrcLowerCase x.nickname)
    ∧ (∀ name ch, s.findChannel name = some ch → p ∈ ch.members →
        (viewOf x.trace.accepted).rooms name = some
          { names := (ch.members.map fun q => toIrcLowerCase (s.nickname q)).toFinset
            operators := (ch.operators.map fun q => toIrcLowerCase (s.nickname q)).toFinset
            topic := ch.topic })
    ∧ (∀ name, ¬ s.IsMember p name → (viewOf x.trace.accepted).rooms name = none)
    ∧ (x.sendBuffer = [] → viewOf (records lf x.trace.delivered) = viewOf x.trace.accepted) := by
  have hs := h.reachable.steady
  have hstream := h.reachable.streamed hx
  rw [h.viewOf_accepted p x hx hlive]
  refine ⟨fun hreg => ?_, fun name ch hch hp => ?_, fun name hnot => ?_, fun hsent => ?_⟩
  · rw [Presence.World.own_view, Server.name_world (by rw [Server.client_of_heap hx, hreg]),
      Server.nickname, Server.client_of_heap hx]
  · have hmembers := hs.inhabited name ch hch
    have hoperators : ∀ q ∈ ch.operators, (s.client q).isRegistered = true :=
      fun q hq => hmembers q ((hs.integrity.channel name ch hch).wf.operators_sub q hq)
    show (if p ∈ s.world.inside name then some (s.world.room name) else none) = _
    rw [if_pos ((Server.mem_inside hch).mpr hp), Presence.World.room, Server.inside_world hch,
      Server.operators_world hch, Server.topic_world hch, Server.image_name_world hmembers,
      Server.image_name_world hoperators]
  · exact if_neg fun hin => hnot (Server.mem_inside_iff.mp hin)
  · have hflatten := hstream.stream
    rw [hsent, List.append_nil] at hflatten
    rw [hflatten, (records_flatten fun m hm => Client.record_of_isValidOutboundMessage (hstream.valid m hm)).1,
      h.viewOf_accepted p x hx hlive]

theorem views_agree_sample :
    (viewOf (sample.client 1).trace.accepted).own = lit "bob"
      ∧ (viewOf (sample.client 1).trace.accepted).rooms (lit "#c")
        = some { names := {lit "ann", lit "bob"}, operators := {lit "ann"}, topic := [] } := by
  obtain ⟨hadm, hmeets, hclient, hchannel, hnicks⟩ :
      (Server.start (lit "pw") 3).AdmitsAll sampleEvents
      ∧ faithfulNews.MeetsAll (Server.start (lit "pw") 3) sampleEvents
      ∧ (sample.heap 1).map (fun x => (x.stopped, x.isRegistered, x.nickname))
        = some (false, true, lit "bob")
      ∧ (sample.findChannel (lit "#c")).map (fun ch => (ch.members, ch.operators, ch.topic))
        = some ([0, 1], [0], [])
      ∧ sample.nickname 0 = lit "ann" ∧ sample.nickname 1 = lit "bob" := by
    decide +kernel
  obtain ⟨x, hx, hfields⟩ := Option.map_eq_some_iff.mp hclient
  obtain ⟨ch, hch, hseen⟩ := Option.map_eq_some_iff.mp hchannel
  simp only [Prod.mk.injEq] at hfields hseen
  have hreach : GuardedReachable faithfulNews sample := guardedReachable_run hadm hmeets
  obtain ⟨hown, hrooms, -⟩ := views_agree hreach hx hfields.1
  rw [Server.client_of_heap hx]
  refine ⟨?_, ?_⟩
  · rw [hown hfields.2.1, hfields.2.2]
    decide
  · rw [hrooms (lit "#c") ch hch (by rw [hseen.1]; decide), hseen.1, hseen.2.1, hseen.2.2]
    have hlower : toIrcLowerCase (lit "ann") = lit "ann" ∧ toIrcLowerCase (lit "bob") = lit "bob" := by
      decide
    simp [hnicks.1, hnicks.2, hlower.1, hlower.2]

end FtIrc
