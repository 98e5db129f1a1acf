import FtIrc.NickChange
import FtIrc.Quits
import FtIrc.Refusals
import FtIrc.Regrading

/-!
# What the moves show

Every move of the server is a sequence of acts of its world, and what a live client has accepted by
its end announces these acts to it, as long as all messages are valid and nobody takes the nickname
of a dead client.
-/

namespace FtIrc

open Bytes

/-! ## One client -/

/-- From `x` to `y` a client is offered messages; if they are valid and it is alive at the end, it
has accepted what announces `news`. -/
structure Client.Reads (x y : Client) (news : List Notice) : Prop where
  offered : x.trace.offered <+: y.trace.offered
  heard : y.stopped = false → (∀ text ∈ y.trace.offered, isValidOutboundMessage text = true) →
    x.stopped = false
      ∧ y.trace.accepted.flatMap notices = x.trace.accepted.flatMap notices ++ news

namespace Client

variable {x y z : Client} {news more : List Notice}

theorem Reads.refl (x : Client) : x.Reads x [] :=
  ⟨List.prefix_rfl, fun h _ => ⟨h, (List.append_nil _).symm⟩⟩

theorem Reads.trans (h : x.Reads y news) (h' : y.Reads z more) : x.Reads z (news ++ more) where
  offered := h.offered.trans h'.offered
  heard hlive hvalid := by
    obtain ⟨hlive', heard'⟩ := h'.heard hlive hvalid
    obtain ⟨hlive'', heard⟩ := h.heard hlive' fun text htext => hvalid text (h'.offered.mem htext)
    exact ⟨hlive'', by rw [heard', heard, List.append_assoc]⟩

/-- Nothing has been sent. -/
theorem Reads.of_silent (hoffered : y.trace.offered = x.trace.offered)
    (haccepted : y.trace.accepted = x.trace.accepted) (hlive : y.stopped = false → x.stopped = false) :
    x.Reads y [] := by
  refine ⟨by rw [hoffered], fun h _ => ⟨hlive h, ?_⟩⟩
  rw [haccepted, List.append_nil]

/-- A valid message is accepted by a client that survives it. -/
theorem reads_sendMessage (x : Client) (text : Str) : x.Reads (x.sendMessage text) (notices text) := by
  refine ⟨by rw [offered_sendMessage]; exact List.prefix_append _ _, fun hlive hvalid => ?_⟩
  have htext : isValidOutboundMessage text = true := by
    refine hvalid text ?_
    rw [offered_sendMessage]
    exact List.mem_append_right _ (List.mem_singleton_self text)
  unfold sendMessage at hlive ⊢
  dsimp only at hlive ⊢
  split_ifs at hlive ⊢ with hstopped hinvalid hroom
  · exact absurd (hstopped.symm.trans hlive) (by decide)
  · rw [htext] at hinvalid
    exact absurd hinvalid (by decide)
  · -- an overflow kills
    have hdead := alive_of_not_stopped hlive
    unfold markDead at hdead
    split_ifs at hdead with halready
    exact absurd (halready.symm.trans hdead) (by decide)
  · exact ⟨hlive, by simp [List.flatMap_append]⟩

theorem reads_sendMessages (x : Client) (messages : List Str) :
    x.Reads (messages.foldl sendMessage x) (messages.flatMap notices) := by
  induction messages generalizing x with
  | nil => exact .refl x
  | cons text messages ih =>
    rw [List.foldl_cons, List.flatMap_cons]
    exact (x.reads_sendMessage text).trans (ih _)

theorem accepted_appendToRecvBuffer (x : Client) (bytes : Str) :
    (x.appendToRecvBuffer bytes).1.trace.accepted = x.trace.accepted := by
  unfold appendToRecvBuffer
  dsimp only
  split_ifs <;> rfl

/-- The socket tells a client nothing, and revives nobody. -/
theorem Io.reads (h : x.Io y) : x.Reads y [] := by
  have hdead : ∀ {z : Client} {reason : Str}, (z.markDead reason).stopped = false → False := by
    intro z reason hlive
    have halive := alive_of_not_stopped hlive
    unfold markDead at halive
    split_ifs at halive with halready
    exact absurd (halready.symm.trans halive) (by decide)
  cases h with
  | received live =>
    exact .of_silent (offered_appendToRecvBuffer ..) (accepted_appendToRecvBuffer ..) fun _ => live
  | flooded live =>
    exact .of_silent (by rw [trace_markDead, offered_appendToRecvBuffer])
      (by rw [trace_markDead, accepted_appendToRecvBuffer]) fun _ => live
  | rejected live h =>
    have htrace := x.trace_extractLine
    rw [h] at htrace
    exact .of_silent (by rw [htrace]) (by rw [htrace]) fun _ => live
  | eof live => exact .of_silent (by rw [trace_markClosing]) (by rw [trace_markClosing]) fun _ => live
  | failed reason =>
    refine .of_silent (by rw [socketError, trace_markDead]) (by rw [socketError, trace_markDead]) ?_
    exact fun hlive => (hdead hlive).elim
  | sent alive h =>
    unfold consumeSendBuffer
    rw [if_neg (by omega)]
    exact .of_silent rfl rfl id
  | retired => exact .of_silent (by rw [trace_markDead]) (by rw [trace_markDead]) fun h => (hdead h).elim

theorem markClosing_stopped (x : Client) (reason : Str) : (x.markClosing reason).stopped = true := by
  unfold markClosing
  split_ifs with h
  · exact h
  · rw [stopped, Bool.or_true]

theorem reads_markClosing (x : Client) (reason : Str) : x.Reads (x.markClosing reason) [] :=
  .of_silent (by rw [trace_markClosing]) (by rw [trace_markClosing]) fun h =>
    absurd ((x.markClosing_stopped reason).symm.trans h) (by decide)

theorem reads_failPass (x : Client) : x.Reads x.failPass [] := by
  have hneutral : Neutral (lit ":server 464 ") := .of_word (by decide) (by decide) (by decide)
  have hcounted : x.Reads x.recordFailedPassAttempt [] := by
    unfold recordFailedPassAttempt
    split_ifs
    · exact .of_silent rfl rfl id
    · exact .refl x
  have hanswered := hcounted.trans (x.recordFailedPassAttempt.reads_sendMessage
    (lit ":server 464 " ++ displayName x ++ lit " :Password incorrect\r\n"))
  have hsilent : notices (lit ":server 464 " ++ displayName x ++ lit " :Password incorrect\r\n") = [] := by
    rw [List.append_assoc]
    exact (hneutral.append _).notices
  rw [hsilent] at hanswered
  unfold failPass
  dsimp only
  split_ifs
  · exact hanswered.trans (reads_markClosing _ _)
  · exact hanswered

/-- What a client reads when it is registered at last. -/
def registrationNews (x y : Client) : List Notice :=
  if x.isRegistered = false ∧ y.isRegistered = true then [.welcome (toIrcLowerCase y.nickname)] else []

theorem reads_takeNickname (x : Client) {n : Str} (hn : sp ∉ n) :
    x.Reads (x.takeNickname n) (x.registrationNews (x.takeNickname n)) := by
  have hidentity := x.identity_takeNickname n
  have hnick : (x.takeNickname n).nickname = n := congrArg Identity.nickname hidentity
  have hreg : (x.takeNickname n).isRegistered = { x with nickname := n, nickSet := true }.isRegistered :=
    congrArg Identity.isRegistered hidentity
  rw [registrationNews, hnick, hreg]
  unfold takeNickname
  dsimp only
  have htaken : x.Reads { x with nickname := n, nickSet := true } [] := .of_silent rfl rfl id
  by_cases hwelcome : x.isRegistered = false ∧ { x with nickname := n, nickSet := true }.isRegistered = true
  · rw [if_pos hwelcome, if_pos (by rw [hwelcome.1, hwelcome.2]; rfl)]
    have hread := htaken.trans (reads_sendMessage _ (welcome n x.username))
    rwa [notices_welcome hn] at hread
  · rw [if_neg hwelcome, if_neg (by simpa using hwelcome)]
    exact htaken

theorem reads_takeUsername (x : Client) (u : Str) (hunset : x.userSet = false) (hn : sp ∉ x.nickname) :
    x.Reads (x.takeUsername u) (x.registrationNews (x.takeUsername u)) := by
  have hidentity := x.identity_takeUsername u
  have hnick : (x.takeUsername u).nickname = x.nickname := congrArg Identity.nickname hidentity
  have hreg : (x.takeUsername u).isRegistered = { x with username := u, userSet := true }.isRegistered :=
    congrArg Identity.isRegistered hidentity
  have hbefore : x.isRegistered = false := by rw [isRegistered, hunset, Bool.and_false]
  rw [registrationNews, hnick, hreg]
  unfold takeUsername
  dsimp only
  have htaken : x.Reads { x with username := u, userSet := true } [] := .of_silent rfl rfl id
  by_cases hwelcome : { x with username := u, userSet := true }.isRegistered = true
  · rw [if_pos (And.intro hbefore hwelcome), if_pos hwelcome]
    have hread := htaken.trans (reads_sendMessage _ (welcome x.nickname u))
    rwa [notices_welcome hn] at hread
  · have hnone : ¬ (x.isRegistered = false ∧ { x with username := u, userSet := true }.isRegistered = true) :=
      fun h => hwelcome h.2
    rw [if_neg hnone, if_neg hwelcome]
    exact htaken

end Client

/-! ## The server -/

namespace Server

/-- From `s` to `t` the server acts as its world does, and every client that is there at the end has
been told just what the acts tell it. -/
structure Shows (s t : Server) (acts : List Act) : Prop where
  admits : s.world.Admits acts
  world : t.world = s.world.run acts
  told : ∀ p y, t.heap p = some y → (s.client p).Reads y (s.world.heard p acts)
    ∧ ∀ a ∈ acts, a ≠ .vanish p

variable {s t u : Server} {acts more : List Act} {c : Ptr} {x y : Client}

theorem Shows.trans (h : Shows s t acts) (h' : Shows t u more)
    (hkeep : ∀ p, u.Allocated p → t.Allocated p) : Shows s u (acts ++ more) where
  admits := Presence.World.admits_append.mpr ⟨h.admits, h.world ▸ h'.admits⟩
  world := by rw [h'.world, h.world, Presence.World.run_append]
  told p z hz := by
    obtain ⟨y, hy⟩ := Option.isSome_iff_exists.mp (hkeep p (by rw [Allocated, hz]; rfl))
    obtain ⟨hread, hstays⟩ := h.told p y hy
    obtain ⟨hread', hstays'⟩ := h'.told p z hz
    rw [client_of_heap hy, h.world] at hread'
    rw [Presence.World.heard_append]
    exact ⟨hread.trans hread', fun a ha => (List.mem_append.mp ha).elim (hstays a) (hstays' a)⟩

theorem Informs.shows (h : Informs s t acts) : Shows s t acts where
  admits := h.admits
  world := h.world
  told p y hy := by
    obtain ⟨messages, hheap, hheard⟩ := h.told p
    rw [hy] at hheap
    obtain ⟨x, hx, rfl⟩ := Option.map_eq_some_iff.mp hheap.symm
    rw [client_of_heap hx, ← hheard]
    exact ⟨x.reads_sendMessages messages, fun a ha => (h.plain a ha).ne_vanish p⟩

/-- Nobody sees a client change what has nothing to do with its name. -/
theorem world_modify (hx : s.heap c = some x) (hreg : y.isRegistered = x.isRegistered)
    (hnick : x.isRegistered = true → toIrcLowerCase y.nickname = toIrcLowerCase x.nickname) :
    (s.modify c fun _ => y).world = s.world := by
  have hclient : ∀ p, p ≠ c → (s.modify c fun _ => y).client p = s.client p :=
    fun p hp => client_modify_ne _ _ hp
  have hself : (s.modify c fun _ => y).client c = y := client_modify_self _ hx
  have hregistered : ∀ p, ((s.modify c fun _ => y).client p).isRegistered = (s.client p).isRegistered := by
    intro p
    by_cases hp : p = c
    · rw [hp, hself, client_of_heap hx, hreg]
    · rw [hclient p hp]
  have hname : (s.modify c fun _ => y).world.name = s.world.name := by
    funext p
    show (if _ then _ else _) = (if _ then _ else _)
    rw [hregistered]
    split_ifs with h
    · by_cases hp : p = c
      · subst hp
        rw [client_of_heap hx] at h
        rw [nickname, nickname, hself, client_of_heap hx, hnick h]
      · rw [nickname, hclient p hp, nickname]
    · rfl
  refine Presence.World.ext (Set.ext fun p => ?_) hname rfl rfl rfl
  show ((s.modify c fun _ => y).client p).isRegistered = true ↔ (s.client p).isRegistered = true
  rw [hregistered]

/-- A client alone changes, and nothing that can be seen of it. -/
theorem shows_modify (hx : s.heap c = some x) (hreg : y.isRegistered = x.isRegistered)
    (hnick : x.isRegistered = true → toIrcLowerCase y.nickname = toIrcLowerCase x.nickname)
    (hreads : x.Reads y []) : Shows s (s.modify c fun _ => y) [] where
  admits := trivial
  world := world_modify hx hreg hnick
  told p z hz := by
    refine ⟨?_, fun _ ha => absurd ha List.not_mem_nil⟩
    rw [heap_modify] at hz
    split_ifs at hz with hp
    · rw [hx, Option.map_some, Option.some_inj] at hz
      rw [hp, client_of_heap hx, ← hz]
      exact hreads
    · rw [client_of_heap hz]
      exact .refl z

/-- A client alone changes, and is registered now. -/
theorem shows_arrive (hx : s.heap c = some x) (hreg : x.isRegistered = false)
    (hreg' : y.isRegistered = true) (hreads : x.Reads y [.welcome (toIrcLowerCase y.nickname)])
    (hfree : s.world.Free c (toIrcLowerCase y.nickname)) :
    Shows s (s.modify c fun _ => y) [.arrive c (toIrcLowerCase y.nickname)] where
  admits := by
    refine ⟨⟨fun hpresent => ?_, hfree⟩, trivial⟩
    have hpresent' : (s.client c).isRegistered = true := hpresent
    rw [client_of_heap hx, hreg] at hpresent'
    cases hpresent'
  world := by
    have hclient : ∀ p, p ≠ c → (s.modify c fun _ => y).client p = s.client p :=
      fun p hp => client_modify_ne _ _ hp
    have hself : (s.modify c fun _ => y).client c = y := client_modify_self _ hx
    refine Presence.World.ext ?_ ?_ rfl rfl rfl
    · ext p
      show ((s.modify c fun _ => y).client p).isRegistered = true
        ↔ p = c ∨ (s.client p).isRegistered = true
      by_cases hp : p = c
      · rw [hp, hself]
        exact iff_of_true hreg' (Or.inl rfl)
      · rw [hclient p hp, or_iff_right hp]
    · refine Function.eq_update_iff.mpr ⟨?_, fun p hp => ?_⟩
      · rw [name_world (by rw [hself, hreg']), nickname, hself]
      · show (if _ then _ else _) = (if _ then _ else _)
        rw [nickname, hclient p hp, nickname]
  told p z hz := by
    refine ⟨?_, fun a ha => by simp [List.mem_singleton.mp ha]⟩
    rw [Presence.World.heard, Presence.World.heard, List.append_nil, Presence.World.hears]
    rw [heap_modify] at hz
    split_ifs at hz ⊢ with hp
    · rw [hx, Option.map_some, Option.some_inj] at hz
      rw [hp, client_of_heap hx, ← hz]
      exact hreads
    · rw [client_of_heap hz]
      exact .refl z

/-- Two clients share a room of the world exactly if they share a channel. -/
theorem share_iff {p q : Ptr} : s.world.Share p q
    ↔ ∃ name ch, s.findChannel name = some ch ∧ p ∈ ch.members ∧ q ∈ ch.members := by
  constructor
  · rintro ⟨name, hp, hq⟩
    obtain ⟨ch, hch, hp⟩ := mem_inside_iff.mp hp
    exact ⟨name, ch, hch, hp, (mem_inside hch).mp hq⟩
  · rintro ⟨name, ch, hch, hp, hq⟩
    exact ⟨name, (mem_inside hch).mpr hp, (mem_inside hch).mpr hq⟩

/-- A client that is registered has another name, and all who share a channel with it are told. -/
theorem shows_rename (hx : s.heap c = some x) (hreg : x.isRegistered = true)
    (hspoken : Spoken x.nickname x.username) {n : Str} (hfree : s.world.Free c (toIrcLowerCase n)) :
    Shows s ((s.modify c fun _ => { x with nickname := n }).sendAll (s.nickRecipients c)
      (nickMessage x n)) [.rename c (toIrcLowerCase n)] where
  admits := by
    have hpresent : (s.client c).isRegistered = true := by rw [client_of_heap hx, hreg]
    exact ⟨⟨hpresent, hfree⟩, trivial⟩
  -- the name is all that changes, a broadcast changes nothing
  world := by
    have hsent : ∀ (u : Server) (ps : List Ptr) (text : Str), (u.sendAll ps text).world = u.world :=
      fun u ps text => world_congr (fun p => identity_sendAll ..) fun m => by
        rw [channelAt, findChannel, channels_sendAll]
        exact ⟨rfl, rfl, rfl⟩
    rw [hsent]
    have hself : (s.modify c fun _ => { x with nickname := n }).client c = { x with nickname := n } :=
      client_modify_self _ hx
    have hregistered : ∀ p, ((s.modify c fun _ => { x with nickname := n }).client p).isRegistered
        = (s.client p).isRegistered := by
      intro p
      by_cases hp : p = c
      · rw [hp, hself, client_of_heap hx]
        rfl
      · rw [client_modify_ne _ _ hp]
    refine Presence.World.ext (Set.ext fun p => ?_) (Function.eq_update_iff.mpr ⟨?_, fun p hp => ?_⟩)
      rfl rfl rfl
    · show ((s.modify c _).client p).isRegistered = true ↔ (s.client p).isRegistered = true
      rw [hregistered]
    · rw [name_world (by rw [hself]; exact hreg), nickname, hself]
    · show (if _ then _ else _) = (if _ then _ else _)
      rw [nickname, client_modify_ne _ _ hp, nickname]
  told p z hz := by
    refine ⟨?_, fun a ha => by simp [List.mem_singleton.mp ha]⟩
    have hname : s.world.name c = toIrcLowerCase x.nickname := by
      rw [name_world (by rw [client_of_heap hx, hreg]), nickname, client_of_heap hx]
    have hread : notices (nickMessage x n) = [.renamed (s.world.name c) (toIrcLowerCase n)] := by
      rw [hname]
      exact hspoken.notices_nick n
    -- the recipients are the client itself and whoever shares a channel with it
    have htold : p ∈ s.nickRecipients c ↔ p = c ∨ s.world.Share c p := by
      rw [mem_nickRecipients, share_iff]
    rw [Presence.World.heard, Presence.World.heard, List.append_nil, Presence.World.hears]
    by_cases hp : p ∈ s.nickRecipients c
    · rw [heap_sendAll_of_mem (s.nodup_nickRecipients c) hp] at hz
      obtain ⟨y, hy, rfl⟩ := Option.map_eq_some_iff.mp hz
      rw [if_pos (htold.mp hp), ← hread]
      have hown : (s.client p).Reads y [] := by
        rw [heap_modify] at hy
        split_ifs at hy with hpc
        · rw [hx, Option.map_some, Option.some_inj] at hy
          rw [hpc, client_of_heap hx, ← hy]
          exact .of_silent rfl rfl id
        · rw [client_of_heap hy]
          exact .refl y
      exact hown.trans (y.reads_sendMessage _)
    · rw [heap_sendAll_of_not_mem hp] at hz
      have hpc : p ≠ c := fun h => hp (htold.mpr (Or.inl h))
      rw [heap_modify_ne _ _ hpc] at hz
      rw [if_neg fun h => hp (htold.mpr h), client_of_heap hz]
      exact .refl z

end Server

end FtIrc
