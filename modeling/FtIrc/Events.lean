import FtIrc.Integrity

/-!
# Events

The event loop as the program runs it: `Event` is one call from `Server::run`, with what the
kernel answers, and `Server.step` what it does. Every event the kernel can produce leads
from a reachable state to a reachable one, and one turn of `run` is a list of events.
-/

namespace FtIrc

open Bytes

/-- One thing the loop in `run` does. -/
inductive Event where
  | accept (result : AcceptResult)
  | read (fd : Fd) (result : RecvResult)
  | write (fd : Fd) (result : SendResult)
  | pollError (fd : Fd)
  | reap
  | refresh
deriving DecidableEq, Repr

namespace Server

/-- The effect of an event. -/
def step (s : Server) : Event → Server
  | .accept result => s.acceptNewClient result
  | .read fd result => s.handleClientRead fd result
  | .write fd result => s.handleClientWrite fd result
  | .pollError fd => s.handlePollError fd
  | .reap => s.reapDeadClients
  | .refresh =>
    match s.refreshPollEvents with
    | .ok s' => s'
    | .error _ => s

/-- The effect of a list of events. -/
def run (s : Server) (events : List Event) : Server := events.foldl step s

/-- What the kernel promises: a new descriptor is not open, a new object is not one that
lives, `recv` fills at most the buffer it is given, `send` takes at most what it is offered. -/
def Admits (s : Server) : Event → Prop
  | .accept (.connection fd _ _ (some p)) =>
    fd ≠ s.listenFd ∧ s.clients.find? fd = none ∧ s.heap p = none
  | .read _ (.data bytes) => IsChunk bytes
  | .write fd (.sent n) =>
    match s.clients.find? fd with
    | none => True
    | some p => n ≤ (s.client p).sendBuffer.length
  | _ => True

/-- Every event of a list is admissible when its turn comes. -/
def AdmitsAll (s : Server) : List Event → Prop
  | [] => True
  | e :: es => s.Admits e ∧ (s.step e).AdmitsAll es

instance decidableAdmits (s : Server) : (e : Event) → Decidable (s.Admits e)
  | .accept .failed => .isTrue trivial
  | .accept (.connection _ _ _ none) => .isTrue trivial
  | .accept (.connection _ _ _ (some _)) => inferInstanceAs (Decidable (_ ∧ _ ∧ _))
  | .read _ .eof => .isTrue trivial
  | .read _ .retry => .isTrue trivial
  | .read _ (.error _) => .isTrue trivial
  | .read _ (.data bytes) => inferInstanceAs (Decidable (IsChunk bytes))
  | .write _ .retry => .isTrue trivial
  | .write _ (.error _) => .isTrue trivial
  | .write fd (.sent n) =>
    match h : s.clients.find? fd with
    | none => .isTrue (by rw [Admits, h]; trivial)
    | some p => decidable_of_iff (n ≤ (s.client p).sendBuffer.length) (by rw [Admits, h])
  | .pollError _ => .isTrue trivial
  | .reap => .isTrue trivial
  | .refresh => .isTrue trivial

instance decidableAdmitsAll (s : Server) : (es : List Event) → Decidable (s.AdmitsAll es)
  | [] => .isTrue trivial
  | e :: es =>
    have := decidableAdmitsAll (s.step e) es
    inferInstanceAs (Decidable (_ ∧ _))

end Server

/-! ## Quiet moves -/

/-- A move in which no line is handled and nobody disconnects. -/
structure Quiet (s s' : Server) : Prop where
  move : Move s s'
  dispatched : ∀ p x, s.heap p = some x →
    ∃ y, s'.heap p = some y ∧ y.trace.dispatched = x.trace.dispatched

/-- A run of quiet moves. -/
abbrev QuietMoves : Server → Server → Prop := Relation.ReflTransGen Quiet

theorem QuietMoves.moves {s s' : Server} (h : QuietMoves s s') : Moves s s' :=
  h.lift id fun _ _ hquiet => hquiet.move

theorem quiet_io {s : Server} {p : Ptr} {x x' : Client} (hx : s.heap p = some x) (h : x.Io x') :
    Quiet s (s.modify p fun _ => x') := by
  refine ⟨.io hx h, fun q y hy => ?_⟩
  rw [Server.heap_modify]
  split_ifs with hq
  · rw [hq] at hy
    obtain rfl := Option.some_inj.mp (hx.symm.trans hy)
    exact ⟨x', by rw [hx, Option.map_some], h.dispatched_eq⟩
  · exact ⟨y, hy, rfl⟩

theorem quiet_poll {s s' : Server} (h : s.refreshPollEvents = .ok s') : Quiet s s' := by
  refine ⟨.poll h, fun q y hy => ⟨y, ?_, rfl⟩⟩
  obtain ⟨_, rfl, _⟩ := Server.of_refreshPollEvents h
  exact hy

/-- A new client is nobody's object. -/
theorem quiet_of_connect {s : Server} {fd : Fd} {ip : Str} {p : Ptr}
    (h : Move s (s.connect fd ip p)) (hp : s.heap p = none) : Quiet s (s.connect fd ip p) := by
  refine ⟨h, fun q y hy => ⟨y, ?_, rfl⟩⟩
  have hqp : q ≠ p := by
    rintro rfl
    cases hp.symm.trans hy
  show Function.update s.heap p _ q = some y
  rw [Function.update_of_ne hqp, hy]

namespace Reachable

variable {s : Server} {fd : Fd} {p : Ptr}

theorem exists_client (h : Reachable s) (hfd : s.clients.find? fd = some p) :
    ∃ x, s.heap p = some x ∧ x.fd = fd :=
  Option.map_eq_some_iff.mp (h.integrity.object fd p hfd)

/-- A move of one client's socket. -/
theorem quiet_modify {x : Client} (hx : s.heap p = some x) {f : Client → Client}
    (hio : x.Io (f x)) : QuietMoves s (s.modify p f) := by
  rw [Server.modify_eq f hx]
  exact .single (quiet_io hx hio)

/-! ## Input -/

/-- One turn of the extraction loop. -/
theorem moves_readLine {x : Client} (hx : s.heap p = some x) (live : x.stopped = false) :
    Moves s (s.readLine p).1 := by
  unfold Server.readLine
  rw [Server.client_of_heap hx]
  split
  · next x' hextract => exact .single (.io hx (.rejected live hextract))
  · next x' line hextract => exact .single (.line hx live hextract)

theorem exists_readLine {x : Client} (hx : s.heap p = some x) :
    ∃ y, (s.readLine p).1.heap p = some y := by
  have hmodify := fun x' => Server.heap_extracted hx x'
  unfold Server.readLine
  split
  · next x' _ => exact ⟨x', hmodify x'⟩
  · next x' line _ =>
    have hsome := (Server.SameConnections.handleLine (hmodify x') line).isSome_heap p
    rw [hmodify] at hsome
    exact Option.isSome_iff_exists.mp hsome

theorem stopped_readLine (hgo : (s.readLine p).2 = true) :
    ((s.readLine p).1.client p).stopped = false := by
  unfold Server.readLine at hgo ⊢
  split at hgo
  · exact absurd hgo Bool.false_ne_true
  · simpa using hgo

theorem moves_readLines {x : Client} (hx : s.heap p = some x) (live : x.stopped = false)
    (fuel : ℕ) : Moves s (Server.readLines fuel s p) := by
  induction fuel generalizing s x with
  | zero => exact .refl
  | succ fuel ih =>
    rw [Server.readLines]
    dsimp only
    split_ifs with hgo
    · obtain ⟨y, hy⟩ := exists_readLine hx
      have hlive := stopped_readLine hgo
      rw [Server.client_of_heap hy] at hlive
      exact (moves_readLine hx live).trans (ih hy hlive)
    · exact moves_readLine hx live

/-- What `recv` returned is taken into the buffer, or floods it. -/
theorem quiet_receive {x : Client} (hx : s.heap p = some x) (live : x.stopped = false)
    {bytes : Str} (hchunk : IsChunk bytes) :
    QuietMoves s (s.receive p bytes).1 ∧ ∃ y, (s.receive p bytes).1.heap p = some y
      ∧ ((s.receive p bytes).2 = true → y.stopped = false) := by
  cases happend : x.appendToRecvBuffer bytes with
  | mk x' appended =>
  have hx' : x' = (x.appendToRecvBuffer bytes).1 := by rw [happend]
  have hy := Server.heap_extracted hx x'
  rw [Server.receive, Server.client_of_heap hx, happend]
  cases appended with
  | true =>
    have hio : x.Io x' := by
      rw [hx']
      exact .received live hchunk (by rw [happend])
    refine ⟨quiet_modify hx hio, x', hy, fun _ => ?_⟩
    rw [hx']
    unfold Client.appendToRecvBuffer
    dsimp only
    split_ifs <;> exact live
  | false =>
    refine ⟨?_, x'.markDead (lit "input flood: recv buffer overflow"), ?_,
      fun h => absurd h Bool.false_ne_true⟩
    · show QuietMoves s (Server.modify _ p _)
      rw [Server.modify_modify]
      apply quiet_modify hx
      rw [hx']
      exact .flooded live hchunk (by rw [happend])
    · show (Server.modify _ p _).heap p = _
      rw [Server.heap_modify_self, hy, Option.map_some]

theorem moves_handleClientRead (h : Reachable s) {result : RecvResult}
    (hadm : s.Admits (.read fd result)) : Moves s (s.handleClientRead fd result) := by
  unfold Server.handleClientRead
  split
  · exact .refl
  next p hp =>
  obtain ⟨x, hx, _⟩ := h.exists_client hp
  rw [Server.client_of_heap hx]
  split_ifs with hstopped
  · exact .refl
  have live : x.stopped = false := by
    rw [Client.stopped]
    exact Bool.eq_false_iff.mpr hstopped
  cases result with
  | eof => exact (quiet_modify hx (.eof live)).moves
  | retry => exact .refl
  | error text => exact (quiet_modify hx (.failed _)).moves
  | data bytes =>
    obtain ⟨hreceived, y, hy, hgo⟩ := quiet_receive hx live hadm
    dsimp only
    split_ifs with happended
    · exact hreceived.moves.trans (moves_readLines hy (hgo happended) _)
    · exact hreceived.moves

/-! ## Output and errors -/

theorem quiet_handleClientWrite (h : Reachable s) {result : SendResult}
    (hadm : s.Admits (.write fd result)) : QuietMoves s (s.handleClientWrite fd result) := by
  unfold Server.handleClientWrite
  split
  · exact .refl
  next p hp =>
  obtain ⟨x, hx, _⟩ := h.exists_client hp
  rw [Server.client_of_heap hx]
  split_ifs with hdead hempty
  · exact .refl
  · exact .refl
  cases result with
  | retry => exact .refl
  | error text => exact quiet_modify hx (.failed _)
  | sent n =>
    dsimp only
    split_ifs
    · exact quiet_modify hx (.failed _)
    · refine quiet_modify hx (.sent (Bool.eq_false_iff.mpr hdead) ?_)
      have hp' : s.clients.find? fd = some p := hp
      rw [Server.Admits, hp'] at hadm
      rwa [← Server.client_of_heap hx]

theorem quiet_handlePollError (h : Reachable s) (fd : Fd) : QuietMoves s (s.handlePollError fd) := by
  unfold Server.handlePollError
  split
  · exact .refl
  next p hp =>
  obtain ⟨x, hx, _⟩ := h.exists_client hp
  exact quiet_modify hx (.failed _)

theorem quiet_acceptNewClient {result : AcceptResult} (hadm : s.Admits (.accept result)) :
    QuietMoves s (s.acceptNewClient result) := by
  cases result with
  | failed => exact .refl
  | connection fd fcntlOk ipText object =>
  cases ipText with
  | none =>
    unfold Server.acceptNewClient
    dsimp only
    split_ifs <;> exact .refl
  | some ip =>
  cases object with
  | none =>
    unfold Server.acceptNewClient
    dsimp only
    split_ifs <;> exact .refl
  | some p =>
    obtain ⟨hlisten, hfd, hp⟩ := hadm
    unfold Server.acceptNewClient
    dsimp only
    split_ifs with htotal hfcntl hcount hip
    · exact .refl
    · exact .refl
    · exact .refl
    · exact .refl
    · exact .single (quiet_of_connect (.connect hlisten hfd hp (fun hnil => hip (by rw [hnil]; rfl))
        (Nat.lt_of_not_le htotal) (Nat.lt_of_not_le hcount)) hp)

/-! ## The reaper -/

theorem quiet_retire (h : Reachable s) (fd : Fd) : QuietMoves s (s.retire fd) := by
  unfold Server.retire
  split
  · exact .refl
  next p hp =>
  obtain ⟨x, hx, _⟩ := h.exists_client hp
  rw [Server.client_of_heap hx]
  split_ifs with hdone
  · simp only [Bool.and_eq_true, Bool.not_eq_eq_eq_not, Bool.not_true] at hdone
    exact quiet_modify hx (.retired hdone.1 hdone.2)
  · exact .refl

/-- While one client is disconnected, the others that are dead stay dead. -/
theorem dead_disconnectClient (h : Reachable s) {q : Ptr} {fd' : Fd}
    (hq : (s.disconnectClient fd).clients.find? fd' = some q)
    (hdead : ∀ r, s.clients.find? fd' = some r → (s.client r).dead = true) :
    ((s.disconnectClient fd).client q).dead = true := by
  unfold Server.disconnectClient at hq ⊢
  split at hq
  · exact hdead q hq
  next p hp =>
  have hannounce : (s.announceQuit p).clients = s.clients := by
    unfold Server.announceQuit
    split_ifs
    · exact Server.clients_sendAll ..
    · rfl
  have hq' : ((s.announceQuit p).clients.erase fd).find? fd' = some q := hq
  rw [hannounce, OrdMap.find?_erase] at hq'
  split_ifs at hq' with hne
  obtain ⟨x, hx, hxfd⟩ := h.exists_client hp
  obtain ⟨y, hy, hyfd⟩ := h.exists_client hq'
  have hqp : q ≠ p := by
    rintro rfl
    rw [hx] at hy
    rw [← hyfd, ← hxfd, Option.some_inj.mp hy] at hne
    exact hne rfl
  have hheap : (((s.announceQuit p).release fd p).client q) = (s.announceQuit p).client q := by
    show (Function.update (s.announceQuit p).heap p none q).getD default = _
    rw [Function.update_of_ne hqp]
    rfl
  rw [hheap]
  unfold Server.announceQuit
  split_ifs
  · exact Server.dead_sendAll _ _ (hdead q hq')
  · exact hdead q hq'

theorem moves_disconnectAll (h : Reachable s) (fds : List Fd)
    (hdead : ∀ fd ∈ fds, ∀ p, s.clients.find? fd = some p → (s.client p).dead = true) :
    Moves s (fds.foldl Server.disconnectClient s) := by
  induction fds generalizing s with
  | nil => exact .refl
  | cons fd fds ih =>
    rw [List.foldl_cons]
    have hone : Moves s (s.disconnectClient fd) := by
      cases hfd : s.clients.find? fd with
      | none =>
        rw [Server.disconnectClient, hfd]
      | some p =>
        obtain ⟨x, hx, _⟩ := h.exists_client hfd
        refine .single (.disconnect hfd hx ?_)
        rw [← Server.client_of_heap hx]
        exact hdead fd List.mem_cons_self p hfd
    refine hone.trans (ih (h.moves hone) ?_)
    intro fd' hfd' q hq
    exact h.dead_disconnectClient hq (hdead fd' (List.mem_cons_of_mem fd hfd'))

theorem quiet_retireAll (h : Reachable s) (fds : List Fd) :
    QuietMoves s (fds.foldl Server.retire s) := by
  induction fds generalizing s with
  | nil => exact .refl
  | cons fd fds ih =>
    have hone := h.quiet_retire fd
    exact hone.trans (ih (h.moves hone.moves))

/-- The reaper disconnects the dead. -/
theorem dead_of_mem_reaped {fd : Fd} (hfd : fd ∈ s.clients.keys.filter s.isDeadFd) {p : Ptr}
    (hp : s.clients.find? fd = some p) : (s.client p).dead = true := by
  have hdead := (List.mem_filter.mp hfd).2
  rwa [Server.isDeadFd, hp] at hdead

theorem moves_reapDeadClients (h : Reachable s) : Moves s s.reapDeadClients := by
  have hretired := (h.quiet_retireAll s.clients.keys).moves
  unfold Server.reapDeadClients
  exact hretired.trans ((h.moves hretired).moves_disconnectAll _ fun _ hfd _ => dead_of_mem_reaped hfd)

/-! ## Runs -/

/-- An event is a sequence of moves. -/
theorem moves_step (h : Reachable s) {e : Event} (hadm : s.Admits e) : Moves s (s.step e) := by
  cases e with
  | accept result => exact (quiet_acceptNewClient hadm).moves
  | read fd result => exact h.moves_handleClientRead hadm
  | write fd result => exact (h.quiet_handleClientWrite hadm).moves
  | pollError fd => exact (h.quiet_handlePollError fd).moves
  | reap => exact h.moves_reapDeadClients
  | refresh =>
    obtain ⟨s', hs'⟩ := h.integrity.refreshPollEvents_ok
    rw [Server.step, hs']
    exact .single (quiet_poll hs').move

/-- A run of the program is a sequence of moves. -/
theorem moves_run (h : Reachable s) {es : List Event} (hadm : s.AdmitsAll es) :
    Moves s (s.run es) := by
  induction es generalizing s with
  | nil => exact .refl
  | cons e es ih =>
    have hone := h.moves_step hadm.1
    exact hone.trans (ih (h.moves hone) hadm.2)

theorem run (h : Reachable s) {es : List Event} (hadm : s.AdmitsAll es) : Reachable (s.run es) :=
  h.moves (h.moves_run hadm)

end Reachable

/-! ## One turn of the loop -/

namespace Server

/-- The calls the loop over `_pollFds` makes for an entry. -/
def pollEvents (listenFd : Fd) (poll : Fd → Ready) (fd : Fd) : List Event :=
  if fd = listenFd then if (poll fd).pollin then [.accept (poll fd).accepted] else []
  else
    (if (poll fd).pollin then [.read fd (poll fd).received] else [])
      ++ (if (poll fd).pollout then [.write fd (poll fd).sent] else [])
      ++ (if !(poll fd).pollin && (poll fd).pollerr then [.pollError fd] else [])

/-- The calls one turn of the loop in `run` makes: with nothing to serve, `refreshPollEvents` is the
only one. -/
def turnEvents (s : Server) : PollResult → List Event
  | .ready reports =>
    .refresh :: ((s.pollFds.map PollFd.fd).flatMap (pollEvents s.listenFd reports) ++ [.reap])
  | .interrupted | .failed _ => [.refresh]

theorem run_append (s : Server) (es fs : List Event) : s.run (es ++ fs) = (s.run es).run fs :=
  List.foldl_append

theorem AdmitsAll.of_append {s : Server} {es fs : List Event} (h : s.AdmitsAll (es ++ fs)) :
    s.AdmitsAll es ∧ (s.run es).AdmitsAll fs := by
  induction es generalizing s with
  | nil => exact ⟨trivial, h⟩
  | cons e es ih =>
    obtain ⟨hes, hfs⟩ := ih h.2
    exact ⟨⟨h.1, hes⟩, hfs⟩

end Server

/-! ## Referential integrity -/

/-- In every reachable state the channel lists refer to connected clients, the poll entries
are the listening socket and the connected descriptors, and channels are stored under their
names. So a disconnect leaves no reference behind, `refreshPollEvents` does not throw, and a
new object is in no list. -/
theorem referential_integrity {s : Server} (h : Reachable s) :
    (∀ name ch, s.findChannel name = some ch → ch.name = name
      ∧ ∀ p, ch.Refers p → ∃ fd, s.clients.find? fd = some p ∧ (s.heap p).map Client.fd = some fd)
    ∧ ((s.pollFds.map PollFd.fd).filter fun fd => fd != s.listenFd).Perm s.clients.keys
    ∧ s.clients.keys.Nodup
    ∧ (∀ fd p, s.clients.find? fd = some p → ∀ name ch,
        (s.disconnectClient fd).findChannel name = some ch → ¬ ch.Refers p)
    ∧ (∃ s', s.refreshPollEvents = .ok s')
    ∧ ∀ r p, s.Admits (.accept r) → s.heap p = none → ((s.acceptNewClient r).heap p).isSome →
        ∀ name ch, (s.acceptNewClient r).findChannel name = some ch → ¬ ch.Refers p := by
  have hs := h.integrity
  refine ⟨fun name ch hch => ⟨(hs.channel name ch hch).name_eq, fun p hp => ?_⟩, ?_,
    OrdMap.nodup_keys _, fun fd p hfd name ch hch hp => ?_, hs.refreshPollEvents_ok,
    fun r p hadm hp _ name ch hch href => ?_⟩
  · obtain ⟨x, hx⟩ := Option.isSome_iff_exists.mp ((hs.channel name ch hch).allocated p hp)
    exact ⟨x.fd, hs.registered p x hx, by rw [hx]; rfl⟩
  · have hlisten : s.listenFd ∉ s.clients.keys := by
      rw [OrdMap.mem_keys, hs.listening]
      simp
    have hperm := hs.polled.filter fun fd => fd != s.listenFd
    rw [List.filter_cons_of_neg (by simp)] at hperm
    have hall : s.clients.keys.filter (fun fd => fd != s.listenFd) = s.clients.keys := by
      rw [List.filter_eq_self]
      intro fd hfd
      exact bne_iff_ne.mpr fun heq => hlisten (heq ▸ hfd)
    rwa [hall] at hperm
  · -- the object is gone, and the lists that are left refer to objects
    have halloc := ((hs.disconnectClient fd).channel name ch hch).allocated p hp
    rw [Server.disconnectClient, hfd] at halloc
    have hgone : ((s.announceQuit p).release fd p).heap p = none := Function.update_self ..
    rw [Server.Allocated, hgone] at halloc
    exact absurd halloc (by decide)
  · have hch' : s.findChannel name = some ch := by
      have hsame : (s.acceptNewClient r).channels = s.channels := by
        unfold Server.acceptNewClient
        cases r with
        | failed => rfl
        | connection _ _ ipText object =>
          cases ipText <;> cases object <;> dsimp only <;> split_ifs <;> rfl
      rw [← hch, Server.findChannel, Server.findChannel, hsame]
    have halloc := (hs.channel name ch hch').allocated p href
    rw [Server.Allocated, hp] at halloc
    exact absurd halloc (by decide)

/-- Two clients on a channel that the first of them has founded. -/
def sampleEvents : List Event :=
  [.accept (.connection 4 true (some (lit "127.0.0.1")) (some 0)),
    .accept (.connection 5 true (some (lit "127.0.0.2")) (some 1)),
    .read 4 (.data (lit "PASS pw\r\nNICK ann\r\nUSER a 0 * :A\r\nJOIN #c\r\n")),
    .read 5 (.data (lit "PASS pw\r\nNICK bob\r\nUSER b 0 * :B\r\nJOIN #c\r\n")),
    .refresh]

def sample : Server := (Server.start (lit "pw") 3).run sampleEvents

theorem reachable_sample : Reachable sample :=
  (Reachable.start _ _).run (by decide +kernel)

theorem referential_integrity_sample :
    (sample.findChannel (lit "#c")).map (fun ch => (ch.members, ch.operators))
        = some ([0, 1], [0])
      ∧ (∃ s', sample.refreshPollEvents = .ok s')
      ∧ ∀ name ch, (sample.disconnectClient 4).findChannel name = some ch → ¬ ch.Refers 0 :=
  ⟨by decide +kernel, (referential_integrity reachable_sample).2.2.2.2.1,
    (referential_integrity reachable_sample).2.2.2.1 4 0 (by decide +kernel)⟩

end FtIrc
