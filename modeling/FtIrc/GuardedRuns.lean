import FtIrc.Registration

/-!
# Runs under a condition

Some properties hold of a run as long as nobody sends certain lines, or disconnects, in
certain states. `Guard` is such a condition, on the state in front of a move, and
`GuardedMoves` are the runs all of whose moves meet it.
-/

namespace FtIrc

open Bytes Relation

/-- Line `line` of client `c` is taken from its buffer, which leaves the server in state `t`, and
handled there. -/
def DispatchOf (c : Ptr) (line : Str) (s t s' : Server) : Prop :=
  ∃ x x', s.heap c = some x ∧ x.stopped = false ∧ x.extractLine = (x', some line)
    ∧ t = s.modify c (fun _ => x') ∧ s' = t.handleLine c line

/-- A condition on the lines clients send and on the clients that disconnect. -/
structure Guard where
  /-- the client of the line, the line, and the state it is handled in -/
  line : Server → Ptr → Message → Prop := fun _ _ _ => True
  disconnect : Server → Ptr → Prop := fun _ _ => True

/-- A move meets a guard. -/
def Guard.Met (g : Guard) (s s' : Server) : Prop :=
  (∀ c line t, DispatchOf c line s t s' → g.line t c (Parser.parse line))
    ∧ ∀ fd p, s.clients.find? fd = some p → s' = s.disconnectClient fd → g.disconnect s p

/-- A run whose moves all meet a guard. -/
abbrev GuardedMoves (g : Guard) : Server → Server → Prop :=
  ReflTransGen fun s s' => Move s s' ∧ g.Met s s'

/-- The states of the runs that meet a guard from the start. -/
def GuardedReachable (g : Guard) (s : Server) : Prop :=
  ∃ password listenFd, GuardedMoves g (Server.start password listenFd) s

variable {g : Guard} {c : Ptr} {line : Str} {s t s' : Server}

theorem GuardedMoves.moves (h : GuardedMoves g s s') : Moves s s' :=
  h.lift id fun _ _ hstep => hstep.1

namespace GuardedReachable

theorem reachable (h : GuardedReachable g s) : Reachable s := by
  obtain ⟨password, listenFd, hrun⟩ := h
  exact (Reachable.start password listenFd).moves (GuardedMoves.moves hrun)

theorem moves (h : GuardedReachable g s) (hrun : GuardedMoves g s s') : GuardedReachable g s' := by
  obtain ⟨password, listenFd, hstart⟩ := h
  exact ⟨password, listenFd, hstart.trans hrun⟩

/-- What the moves that meet the guard preserve holds in all states. -/
theorem induct {P : Server → Prop} (h : GuardedReachable g s)
    (hstart : ∀ password listenFd, P (Server.start password listenFd))
    (hmove : ∀ u v, GuardedReachable g u → Move u v → g.Met u v → P u → P v) : P s := by
  obtain ⟨password, listenFd, hrun⟩ := h
  induction hrun with
  | refl => exact hstart password listenFd
  | tail hpath hstep ih => exact hmove _ _ ⟨password, listenFd, hpath⟩ hstep.1 hstep.2 ih

end GuardedReachable

namespace DispatchOf

/-- The channels do not change before the line is handled. -/
theorem findChannel_eq (h : DispatchOf c line s t s') (name : Str) :
    t.findChannel name = s.findChannel name := by
  obtain ⟨_, _, _, _, _, rfl, _⟩ := h
  rfl

/-- A line changes channels as its message does. -/
theorem findChannel_after (h : DispatchOf c line s t s') (name : Str) :
    s'.findChannel name = (t.processMessage c (Parser.parse line)).findChannel name := by
  obtain ⟨_, _, _, _, _, _, rfl⟩ := h
  rfl

theorem effects (h : DispatchOf c line s t s') :
    Effects c (Parser.parse line) t (t.processMessage c (Parser.parse line)) := by
  obtain ⟨_, x', hx, _, _, rfl, _⟩ := h
  exact Server.processMessage_effects (Server.heap_extracted hx x') _

theorem integrity (h : DispatchOf c line s t s') (hs : s.Integrity) : t.Integrity := by
  obtain ⟨_, _, hx, _, hextract, rfl, _⟩ := h
  exact hs.extracted hx hextract

theorem allocated (h : DispatchOf c line s t s') : t.Allocated c := by
  obtain ⟨_, x', hx, _, _, rfl, _⟩ := h
  rw [Server.Allocated, Server.heap_extracted hx x']
  rfl

end DispatchOf

/-- A line in a run was handled in some state. -/
theorem LineOf.exists_dispatch (h : LineOf c line s s') : ∃ t, DispatchOf c line s t s' := by
  obtain ⟨x, x', hx, live, hextract, rfl⟩ := h
  exact ⟨_, x, x', hx, live, hextract, rfl, rfl⟩

/-- A line that changes a channel comes from a registered client. -/
theorem DispatchOf.registered_of_changed (h : DispatchOf c line s t s') {n : Str}
    (hne : s'.findChannel n ≠ s.findChannel n) : (t.client c).isRegistered = true := by
  by_contra hreg
  have hsame := h.effects.channels_of_unregistered (Bool.eq_false_iff.mpr hreg)
  refine hne ?_
  rw [h.findChannel_after, Server.findChannel, hsame]
  exact h.findChannel_eq n

/-! ## Which moves meet a guard -/

/-- A line enters the history of its client, and nobody else's. -/
theorem DispatchOf.length_dispatched (h : DispatchOf c line s t s') (q : Ptr) :
    (s'.heap q).map (fun y => y.trace.dispatched.length)
      = (s.heap q).map fun x => x.trace.dispatched.length + if q = c then 1 else 0 := by
  have heffects := h.effects.map_heap (g := fun x => x.trace.dispatched.length) (p := q)
    (fun x text => by rw [Client.dispatched_sendMessage]) fun _ _ _ hown => by rw [hown.dispatched_eq]
  obtain ⟨x, x', hx, _, hextract, rfl, rfl⟩ := h
  rw [Server.heap_modify] at heffects
  rw [Server.handleLine, Server.heap_modify]
  split_ifs with hq
  · subst hq
    rw [if_pos rfl, hx, Option.map_some, Option.map_some, Client.extractLine_trace hextract] at heffects
    obtain ⟨y, hy, hlength⟩ := Option.map_eq_some_iff.mp heffects
    have hprocessed : ((s.modify q fun _ => x').processLine q line).heap q = some y := hy
    rw [hprocessed, hx]
    show some (List.length (_ ++ [_])) = some _
    rw [List.length_append, hlength]
    rfl
  · rw [if_neg hq] at heffects
    exact heffects

/-- A move handles one line only. -/
theorem DispatchOf.unique (h : DispatchOf c line s t s') {c' : Ptr} {line' : Str} {t' : Server}
    (h' : DispatchOf c' line' s t' s') : c' = c ∧ line' = line ∧ t' = t := by
  have hlength := (h.length_dispatched c).symm.trans (h'.length_dispatched c)
  obtain ⟨x, x', hx, _, hextract, rfl, _⟩ := h
  have hc : c' = c := by
    by_contra hne
    rw [hx, Option.map_some, Option.map_some, if_pos rfl, if_neg fun heq => hne heq.symm,
      Option.some_inj] at hlength
    omega
  subst hc
  obtain ⟨y, y', hy, _, hextract', rfl, _⟩ := h'
  obtain rfl := Option.some_inj.mp (hx.symm.trans hy)
  obtain ⟨rfl, hline⟩ := Prod.mk.inj (hextract.symm.trans hextract')
  exact ⟨rfl, (Option.some_inj.mp hline).symm, rfl⟩

theorem heap_disconnectClient_self {fd : Fd} {p : Ptr} (hfd : s.clients.find? fd = some p) :
    (s.disconnectClient fd).heap p = none := by
  rw [Server.disconnectClient, hfd]
  exact Function.update_self ..

namespace Guard

theorem met_of_dispatch (hs : s.Integrity) (h : DispatchOf c line s t s')
    (hg : g.line t c (Parser.parse line)) : g.Met s s' := by
  refine ⟨fun c' line' t' h' => ?_, ?_⟩
  · obtain ⟨rfl, rfl, rfl⟩ := h.unique h'
    exact hg
  · rintro fd p hfd rfl
    have hlength := h.length_dispatched p
    obtain ⟨x, hx⟩ := Option.isSome_iff_exists.mp (hs.allocated_of_find? hfd)
    rw [heap_disconnectClient_self hfd, hx] at hlength
    cases hlength

theorem met_of_quiet (hs : s.Integrity) (h : Quiet s s') : g.Met s s' := by
  refine ⟨fun c line t hdispatch => ?_, ?_⟩
  · have hlength := hdispatch.length_dispatched c
    obtain ⟨x, _, hx, _⟩ := hdispatch
    obtain ⟨y, hy, hsame⟩ := h.dispatched c x hx
    rw [hx, hy, Option.map_some, Option.map_some, if_pos rfl, hsame, Option.some_inj] at hlength
    omega
  · rintro fd p hfd rfl
    obtain ⟨x, hx⟩ := Option.isSome_iff_exists.mp (hs.allocated_of_find? hfd)
    obtain ⟨y, hy, _⟩ := h.dispatched p x hx
    cases (heap_disconnectClient_self hfd).symm.trans hy

theorem met_disconnectClient (hs : s.Integrity) {fd : Fd} {p : Ptr}
    (hfd : s.clients.find? fd = some p) (hg : g.disconnect s p) :
    g.Met s (s.disconnectClient fd) := by
  obtain ⟨x, hx⟩ := Option.isSome_iff_exists.mp (hs.allocated_of_find? hfd)
  have hgone := heap_disconnectClient_self hfd
  refine ⟨fun c line t hdispatch => ?_, fun fd' q hfd' heq => ?_⟩
  · have hlength := hdispatch.length_dispatched p
    rw [hgone, hx] at hlength
    cases hlength
  · -- only the object of the client that disconnects goes
    obtain ⟨y, hy⟩ := Option.isSome_iff_exists.mp (hs.allocated_of_find? hfd')
    have hgone' : (s.disconnectClient fd).heap q = none := by
      rw [heq]
      exact heap_disconnectClient_self hfd'
    have hqp : q = p := by
      by_contra hne
      have hkept : (s.announceQuit p).heap q = none := by
        rw [Server.disconnectClient, hfd] at hgone'
        have hupdate : Function.update (s.announceQuit p).heap p none q = none := hgone'
        rwa [Function.update_of_ne hne] at hupdate
      have hsome : ((s.announceQuit p).heap q).isSome = (s.heap q).isSome := by
        unfold Server.announceQuit
        split_ifs
        · exact Server.isSome_heap_sendAll ..
        · rfl
      rw [hkept, hy] at hsome
      cases hsome
    rwa [hqp]

/-! ## Events -/

/-- The line that is next in a client's buffer meets the guard. -/
def MeetsLine (g : Guard) (s : Server) (p : Ptr) : Prop :=
  match (s.client p).extractLine with
  | (_, none) => True
  | (x, some line) => g.line (s.modify p fun _ => x) p (Parser.parse line)

/-- The lines the extraction loop handles meet the guard. -/
def MeetsLines (g : Guard) : ℕ → Server → Ptr → Prop
  | 0, _, _ => True
  | fuel + 1, s, p =>
    g.MeetsLine s p ∧ ((s.readLine p).2 = true → MeetsLines g fuel (s.readLine p).1 p)

/-- The clients that are disconnected one after the other meet the guard. -/
def MeetsDisconnects (g : Guard) : List Fd → Server → Prop
  | [], _ => True
  | fd :: fds, s =>
    (∀ p ∈ s.clients.find? fd, g.disconnect s p) ∧ MeetsDisconnects g fds (s.disconnectClient fd)

/-- The lines and the disconnects of an event meet the guard. -/
def Meets (g : Guard) (s : Server) : Event → Prop
  | .read fd (.data bytes) =>
    ∀ p ∈ s.getClientByFd fd, (s.client p).stopped = false → (s.receive p bytes).2 = true →
      g.MeetsLines (((s.receive p bytes).1.client p).recvBuffer.length + 1) (s.receive p bytes).1 p
  | .reap =>
    let s := s.clients.keys.foldl Server.retire s
    g.MeetsDisconnects (s.clients.keys.filter s.isDeadFd) s
  | _ => True

/-- Every event of a run meets the guard when its turn comes. -/
def MeetsAll (g : Guard) (s : Server) : List Event → Prop
  | [] => True
  | e :: es => g.Meets s e ∧ g.MeetsAll (s.step e) es

section Decidable

variable (g : Guard) [∀ s p m, Decidable (g.line s p m)] [∀ s p, Decidable (g.disconnect s p)]

instance (s : Server) (p : Ptr) : Decidable (g.MeetsLine s p) :=
  match h : (s.client p).extractLine with
  | (_, none) => .isTrue (by rw [MeetsLine, h]; trivial)
  | (x, some line) =>
    decidable_of_iff (g.line (s.modify p fun _ => x) p (Parser.parse line)) (by rw [MeetsLine, h])

instance decidableMeetsLines : (fuel : ℕ) → (s : Server) → (p : Ptr) → Decidable (g.MeetsLines fuel s p)
  | 0, _, _ => .isTrue trivial
  | fuel + 1, s, p =>
    have := decidableMeetsLines fuel (s.readLine p).1 p
    inferInstanceAs (Decidable (_ ∧ _))

instance decidableMeetsDisconnects : (fds : List Fd) → (s : Server) →
    Decidable (g.MeetsDisconnects fds s)
  | [], _ => .isTrue trivial
  | fd :: fds, s =>
    have := decidableMeetsDisconnects fds (s.disconnectClient fd)
    inferInstanceAs (Decidable (_ ∧ _))

instance decidableMeets (s : Server) : (e : Event) → Decidable (g.Meets s e)
  | .read fd (.data _) => inferInstanceAs (Decidable (∀ p ∈ s.getClientByFd fd, _))
  | .read _ .eof => .isTrue trivial
  | .read _ .retry => .isTrue trivial
  | .read _ (.error _) => .isTrue trivial
  | .accept _ => .isTrue trivial
  | .write _ _ => .isTrue trivial
  | .pollError _ => .isTrue trivial
  | .refresh => .isTrue trivial
  | .reap => inferInstanceAs (Decidable (g.MeetsDisconnects _ _))

instance decidableMeetsAll : (s : Server) → (es : List Event) → Decidable (g.MeetsAll s es)
  | _, [] => .isTrue trivial
  | s, e :: es =>
    have := decidableMeetsAll (s.step e) es
    inferInstanceAs (Decidable (_ ∧ _))

end Decidable

end Guard

/-- Quiet moves meet every guard. -/
theorem QuietMoves.guarded (h : Reachable s) (hquiet : QuietMoves s s') : GuardedMoves g s s' := by
  induction hquiet with
  | refl => exact .refl
  | @tail u v hpath hstep ih =>
    have hu := h.moves (QuietMoves.moves hpath)
    exact ih.tail ⟨hstep.move, Guard.met_of_quiet hu.integrity hstep⟩

namespace Reachable

variable {p : Ptr}

theorem guarded_readLine (h : Reachable s) {x : Client} (hx : s.heap p = some x)
    (live : x.stopped = false) (hg : g.MeetsLine s p) : GuardedMoves g s (s.readLine p).1 := by
  unfold Guard.MeetsLine at hg
  unfold Server.readLine
  rw [Server.client_of_heap hx] at hg ⊢
  split
  · next x' hextract => exact QuietMoves.guarded h (.single (quiet_io hx (.rejected live hextract)))
  · next x' line hextract =>
    rw [hextract] at hg
    have hdispatch : DispatchOf p line s (s.modify p fun _ => x') _ :=
      ⟨x, x', hx, live, hextract, rfl, rfl⟩
    exact .single ⟨.line hx live hextract, Guard.met_of_dispatch h.integrity hdispatch hg⟩

/-- A line that is there to be read is handled in a move. -/
theorem move_readLine {p : Ptr} {line : Str}
    (h : (s.heap p).map (fun x => (x.stopped, x.extractLine.2)) = some (false, some line)) :
    Move s (s.readLine p).1 := by
  obtain ⟨x, hx, hline⟩ := Option.map_eq_some_iff.mp h
  obtain ⟨live, hline⟩ := Prod.mk.inj hline
  cases hextract : x.extractLine with
  | mk x' extracted =>
    rw [hextract] at hline
    subst hline
    unfold Server.readLine
    rw [Server.client_of_heap hx, hextract]
    exact .line hx live hextract

theorem guarded_readLines (h : Reachable s) {x : Client} (hx : s.heap p = some x)
    (live : x.stopped = false) {fuel : ℕ} (hg : g.MeetsLines fuel s p) :
    GuardedMoves g s (Server.readLines fuel s p) := by
  induction fuel generalizing s x with
  | zero => exact .refl
  | succ fuel ih =>
    have hone := h.guarded_readLine hx live hg.1
    rw [Server.readLines]
    dsimp only
    split_ifs with hgo
    · obtain ⟨y, hy⟩ := exists_readLine hx
      have hlive := stopped_readLine hgo
      rw [Server.client_of_heap hy] at hlive
      exact hone.trans (ih (h.moves (GuardedMoves.moves hone)) hy hlive (hg.2 hgo))
    · exact hone

theorem guarded_disconnectAll (h : Reachable s) (fds : List Fd)
    (hdead : ∀ fd ∈ fds, ∀ p, s.clients.find? fd = some p → (s.client p).dead = true)
    (hg : g.MeetsDisconnects fds s) : GuardedMoves g s (fds.foldl Server.disconnectClient s) := by
  induction fds generalizing s with
  | nil => exact .refl
  | cons fd fds ih =>
    rw [List.foldl_cons]
    have hone : GuardedMoves g s (s.disconnectClient fd) := by
      cases hfd : s.clients.find? fd with
      | none =>
        rw [Server.disconnectClient, hfd]
      | some p =>
        obtain ⟨x, hx, _⟩ := h.exists_client hfd
        refine .single ⟨.disconnect hfd hx ?_, Guard.met_disconnectClient h.integrity hfd (hg.1 p hfd)⟩
        rw [← Server.client_of_heap hx]
        exact hdead fd List.mem_cons_self p hfd
    refine hone.trans (ih (h.moves (GuardedMoves.moves hone)) ?_ hg.2)
    intro fd' hfd' q hq
    exact h.dead_disconnectClient hq (hdead fd' (List.mem_cons_of_mem fd hfd'))

/-- An event that meets a guard is a sequence of moves that do. -/
theorem guarded_step (h : Reachable s) {e : Event} (hadm : s.Admits e) (hg : g.Meets s e) :
    GuardedMoves g s (s.step e) := by
  cases e with
  | accept result => exact QuietMoves.guarded h (quiet_acceptNewClient hadm)
  | write fd result => exact QuietMoves.guarded h (h.quiet_handleClientWrite hadm)
  | pollError fd => exact QuietMoves.guarded h (h.quiet_handlePollError fd)
  | refresh =>
    obtain ⟨s', hs'⟩ := h.integrity.refreshPollEvents_ok
    rw [Server.step, hs']
    exact QuietMoves.guarded h (.single (quiet_poll hs'))
  | reap =>
    have hretired := h.quiet_retireAll s.clients.keys
    exact (QuietMoves.guarded h hretired).trans
      ((h.moves hretired.moves).guarded_disconnectAll _ (fun _ hfd _ => dead_of_mem_reaped hfd) hg)
  | read fd result =>
    show GuardedMoves g s (s.handleClientRead fd result)
    unfold Server.handleClientRead
    split
    · exact .refl
    next p hp =>
    obtain ⟨x, hx, _⟩ := h.exists_client hp
    have hclient := Server.client_of_heap hx
    rw [hclient]
    split_ifs with hstopped
    · exact .refl
    have live : x.stopped = false := by
      rw [Client.stopped]
      exact Bool.eq_false_iff.mpr hstopped
    cases result with
    | eof => exact QuietMoves.guarded h (quiet_modify hx (.eof live))
    | retry => exact .refl
    | error text => exact QuietMoves.guarded h (quiet_modify hx (.failed _))
    | data bytes =>
      obtain ⟨hreceived, y, hy, hgo⟩ := quiet_receive hx live hadm
      have hone := QuietMoves.guarded (g := g) h hreceived
      dsimp only
      split_ifs with happended
      · exact hone.trans ((h.moves hreceived.moves).guarded_readLines hy (hgo happended)
          (hg p hp (by rw [hclient, live]) happended))
      · exact hone

theorem guarded_run (h : Reachable s) {es : List Event} (hadm : s.AdmitsAll es)
    (hg : g.MeetsAll s es) : GuardedMoves g s (s.run es) := by
  induction es generalizing s with
  | nil => exact .refl
  | cons e es ih =>
    have hone := h.guarded_step hadm.1 hg.1
    exact hone.trans (ih (h.moves (GuardedMoves.moves hone)) hadm.2 hg.2)

end Reachable

/-- The runs of the program whose events meet a guard. -/
theorem guardedReachable_run {password : Str} {listenFd : Fd} {es : List Event}
    (hadm : (Server.start password listenFd).AdmitsAll es)
    (hg : g.MeetsAll (Server.start password listenFd) es) :
    GuardedReachable g ((Server.start password listenFd).run es) :=
  ⟨password, listenFd, (Reachable.start password listenFd).guarded_run hadm hg⟩

end FtIrc
