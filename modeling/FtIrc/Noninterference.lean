import FtIrc.Shadows

/-!
# Runs without a stranger

`Server.without` takes the events of one connection out of a run. What is left is a run that does
the same to everybody else, if the connection never sends the password and the limits on the
number of connections do not matter.
-/

namespace FtIrc

open Bytes

/-- The event is about a descriptor. -/
def Event.isAt (fd : Fd) : Event → Bool
  | .read fd' _ => fd' == fd
  | .write fd' _ => fd' == fd
  | .pollError fd' => fd' == fd
  | _ => false

namespace Server

/-- The client is connected all the time. -/
def Stays (s : Server) (fd : Fd) (p : Ptr) : List Event → Prop
  | [] => s.clients.find? fd = some p
  | e :: es => s.clients.find? fd = some p ∧ (s.step e).Stays fd p es

/-- A list of events without those of the client, as long as it is connected. -/
def without (s : Server) (fd : Fd) (p : Ptr) : List Event → List Event
  | [] => []
  | e :: es =>
    if s.clients.find? fd = some p then
      if e.isAt fd then (s.step e).without fd p es else e :: (s.step e).without fd p es
    else e :: es

/-- No connection is refused because there are too many. -/
def HasRoomAll (s : Server) : List Event → Prop
  | [] => True
  | e :: es => s.HasRoom e ∧ (s.step e).HasRoomAll es

/-- As long as the client is connected, no line of it is a PASS with the password. -/
def NeverPasses (s : Server) (fd : Fd) (p : Ptr) : List Event → Prop
  | [] => True
  | e :: es => s.clients.find? fd = some p →
    (∀ d ∈ ((s.step e).client p).trace.dispatched, ¬ IsPass s.password d.1)
      ∧ (s.step e).NeverPasses fd p es

instance decidableHasRoomAll (s : Server) : (es : List Event) → Decidable (s.HasRoomAll es)
  | [] => .isTrue trivial
  | e :: es =>
    have := decidableHasRoomAll (s.step e) es
    inferInstanceAs (Decidable (_ ∧ _))

instance decidableIsPass (password line : Str) : Decidable (IsPass password line) :=
  inferInstanceAs (Decidable (_ ∧ _))

instance decidableNeverPasses (s : Server) (fd : Fd) (p : Ptr) :
    (es : List Event) → Decidable (s.NeverPasses fd p es)
  | [] => .isTrue trivial
  | e :: es =>
    have := decidableNeverPasses (s.step e) fd p es
    inferInstanceAs (Decidable (_ → (∀ d ∈ ((s.step e).client p).trace.dispatched, _) ∧ _))

section Runs

variable {s t : Server} {fd : Fd} {p : Ptr}

theorem HasRoomAll.of_append {es fs : List Event} (h : s.HasRoomAll (es ++ fs)) :
    s.HasRoomAll es := by
  induction es generalizing s with
  | nil => trivial
  | cons e es ih => exact ⟨h.1, ih h.2⟩

theorem NeverPasses.of_append {es fs : List Event} (h : s.NeverPasses fd p (es ++ fs)) :
    s.NeverPasses fd p es := by
  induction es generalizing s with
  | nil => trivial
  | cons e es ih => exact fun hfd => ⟨(h hfd).1, ih (h hfd).2⟩

theorem without_of_gone (h : s.clients.find? fd ≠ some p) (es : List Event) :
    s.without fd p es = es := by
  cases es with
  | nil => rfl
  | cons e es => exact if_neg h

theorem not_stays_of_gone (h : s.clients.find? fd ≠ some p) (es : List Event) :
    ¬ s.Stays fd p es := by
  cases es with
  | nil => exact h
  | cons e es => exact fun hstays => h hstays.1

/-- More events leave more events. -/
theorem without_append (es fs : List Event) :
    s.without fd p es <+: s.without fd p (es ++ fs) := by
  induction es generalizing s with
  | nil => exact List.nil_prefix
  | cons e es ih =>
    rw [List.cons_append, without, without]
    split_ifs
    · exact ih
    · exact (List.prefix_cons_inj e).mpr ih
    · exact (List.prefix_cons_inj e).mpr (List.prefix_append es fs)

end Runs

namespace Shadows

variable {fd : Fd} {p : Ptr} {s t : Server} {e : Event} (h : Shadows fd p s t)
include h

/-- An event of the stranger is not noticed. -/
theorem step_self (hreach : Reachable s) (hadm : s.Admits e) (he : e.isAt fd = true)
    (hpass : ∀ d ∈ ((s.step e).client p).trace.dispatched, ¬ IsPass s.password d.1) :
    Shadows fd p (s.step e) t := by
  have hmoves := hreach.moves_step hadm
  have hend : ((s.step e).client p).passOk = false := by
    by_contra hpassed
    cases hx : (s.step e).heap p with
    | none =>
      rw [client, hx] at hpassed
      exact hpassed rfl
    | some x =>
      rw [client_of_heap hx] at hpassed hpass
      obtain ⟨d, hd, hpassword⟩ := (hreach.moves hmoves).pass_dispatched p x hx
        (Bool.eq_true_of_not_eq_false hpassed)
      rw [hmoves.password_eq] at hpassword
      exact hpass d hd hpassword
  cases e with
  | accept => cases he
  | reap => cases he
  | refresh => cases he
  | read fd' result =>
    obtain rfl := beq_iff_eq.mp he
    exact h.handleClientRead_self hreach.integrity hend
  | write fd' result =>
    obtain rfl := beq_iff_eq.mp he
    exact h.handleClientWrite_self result
  | pollError fd' =>
    obtain rfl := beq_iff_eq.mp he
    exact h.handlePollError_self

/-- Any other event does the same without the stranger, except that it may be disconnected. -/
theorem step_ne (hreach : Reachable s) (hadm : s.Admits e) (hroom : s.HasRoom e)
    (he : ¬ e.isAt fd = true) :
    t.Admits e ∧ (Shadows fd p (s.step e) (t.step e)
      ∨ (s.step e).clients.find? fd = none ∧ t.step e = s.step e) := by
  have hs := hreach.integrity
  cases e with
  | accept result =>
    obtain ⟨hadm', haccepted⟩ := h.acceptNewClient hs hadm hroom
    exact ⟨hadm', Or.inl haccepted⟩
  | reap => exact ⟨trivial, h.reapDeadClients⟩
  | refresh => exact ⟨trivial, Or.inl (h.refresh hs)⟩
  | pollError fd' =>
    exact ⟨trivial, Or.inl (h.handlePollError fun hfd => he (beq_iff_eq.mpr hfd))⟩
  | read fd' result =>
    refine ⟨?_, Or.inl (h.handleClientRead hs (fun hfd => he (beq_iff_eq.mpr hfd)) result)⟩
    cases result with
    | data bytes => exact hadm
    | eof => trivial
    | retry => trivial
    | error text => trivial
  | write fd' result =>
    have hfd : fd' ≠ fd := fun hfd => he (beq_iff_eq.mpr hfd)
    refine ⟨?_, Or.inl (h.handleClientWrite hfd result)⟩
    cases result with
    | retry => trivial
    | error text => trivial
    | sent n =>
      rw [Admits] at hadm ⊢
      rw [h.find?_ne hfd]
      split
      · trivial
      · next q hfind =>
        rw [hfind] at hadm
        rwa [h.client_ne (h.ne_of_find? hfd hfind)]

/-- A run does the same without the stranger. -/
theorem run (hreach : Reachable s) {es : List Event} (hadm : s.AdmitsAll es)
    (hroom : s.HasRoomAll es) (hpass : s.NeverPasses fd p es) :
    t.AdmitsAll (s.without fd p es)
    ∧ (s.Stays fd p es ∧ Shadows fd p (s.run es) (t.run (s.without fd p es))
      ∨ ¬ s.Stays fd p es ∧ t.run (s.without fd p es) = s.run es) := by
  induction es generalizing s t with
  | nil => exact ⟨trivial, Or.inl ⟨h.connected, h⟩⟩
  | cons e es ih =>
    obtain ⟨hadm, hadms⟩ := hadm
    obtain ⟨hroom, hrooms⟩ := hroom
    obtain ⟨hline, hlines⟩ := hpass h.connected
    have hnext := hreach.moves (hreach.moves_step hadm)
    have hstays : s.Stays fd p (e :: es) ↔ (s.step e).Stays fd p es := and_iff_right h.connected
    rw [without, if_pos h.connected, hstays]
    by_cases he : e.isAt fd = true
    · rw [if_pos he]
      exact ih (h.step_self hreach hadm he hline) hnext hadms hrooms hlines
    rw [if_neg he]
    obtain ⟨hadm', hshadows | ⟨hgone, hsame⟩⟩ := h.step_ne hreach hadm hroom he
    · obtain ⟨hadms', hrest⟩ := ih hshadows hnext hadms hrooms hlines
      exact ⟨⟨hadm', hadms'⟩, hrest⟩
    · have hgone' : (s.step e).clients.find? fd ≠ some p := by
        rw [hgone]
        exact Option.some_ne_none p ∘ Eq.symm
      rw [without_of_gone hgone']
      refine ⟨⟨hadm', by rwa [hsame]⟩, Or.inr ⟨not_stays_of_gone hgone' es, ?_⟩⟩
      show (t.step e).run es = (s.step e).run es
      rw [hsame]

end Shadows

/-- A new connection is a stranger. -/
theorem shadows_connect {s : Server} (hs : s.Integrity) {fd : Fd} {ip : Str} {p : Ptr}
    (hlisten : fd ≠ s.listenFd) (hfind : s.clients.find? fd = none) (hheap : s.heap p = none) :
    Shadows fd p (s.connect fd ip p) s := by
  have hunused : ∀ fd', s.clients.find? fd' ≠ some p := by
    intro fd' hfd'
    have hallocated := hs.allocated_of_find? hfd'
    rw [Allocated, hheap] at hallocated
    cases hallocated
  have hpolled : ∀ e ∈ s.pollFds, ¬ (e.fd == fd) = true := by
    intro e he hfd
    have hmem := hs.polled.mem_iff.mp (List.mem_map_of_mem he)
    rw [beq_iff_eq.mp hfd] at hmem
    obtain ⟨q, hq⟩ := OrdMap.mem_keys.mp ((List.mem_cons.mp hmem).resolve_left hlisten)
    cases hfind.symm.trans hq
  refine ⟨⟨?_, ?_, ?_, fun fd' hfd' => ?_⟩, fun name ch hch hrefers => ?_⟩
  · have hpollFds : (s.pollFds ++ [{ fd := fd, pollin := true, pollout := false : PollFd }]).eraseP
        (fun e => e.fd == fd) = s.pollFds := by
      rw [List.eraseP_append_right _ hpolled, List.eraseP_cons_of_pos (by simp), List.append_nil]
    have hclients : (s.clients.insert fd p).erase fd = s.clients := by
      refine OrdMap.ext_find? fun fd' => ?_
      rw [OrdMap.find?_erase, OrdMap.find?_insert]
      split_ifs with hfd
      · rw [hfd, hfind]
      · rfl
    have hheap' : Function.update s.heap p none = s.heap := by
      rw [← hheap, Function.update_eq_self]
    simp only [hide, connect, hpollFds, hclients, Function.update_idem, hheap']
  · show ((Function.update s.heap p _ p).getD default).Anonymous
    rw [Function.update_self]
    exact ⟨rfl, rfl, rfl⟩
  · exact OrdMap.find?_insert_self ..
  · have hfd₁ : (s.clients.insert fd p).find? fd' = some p := hfd'
    rw [OrdMap.find?_insert] at hfd₁
    split_ifs at hfd₁ with hfd
    · exact hfd
    · exact absurd hfd₁ (hunused fd')
  · have hallocated := (hs.channel name ch hch).allocated p hrefers
    rw [Allocated, hheap] at hallocated
    cases hallocated

theorem shadows_accept {s : Server} (hs : s.Integrity) {fd : Fd} {ok : Bool} {ip : Option Str}
    {p : Ptr} (hadm : s.Admits (.accept (.connection fd ok ip (some p))))
    (hconnected : (s.step (.accept (.connection fd ok ip (some p)))).clients.find? fd = some p) :
    Shadows fd p (s.step (.accept (.connection fd ok ip (some p)))) s := by
  obtain ⟨hlisten, hfind, hheap⟩ := hadm
  have hrefused : ¬ s.clients.find? fd = some p := by
    rw [hfind]
    exact Option.some_ne_none p ∘ Eq.symm
  unfold step acceptNewClient at hconnected ⊢
  cases ip with
  | none =>
    dsimp only at hconnected
    split_ifs at hconnected <;> exact absurd hconnected hrefused
  | some ip =>
    dsimp only at hconnected ⊢
    split_ifs at hconnected ⊢
    · exact absurd hconnected hrefused
    · exact absurd hconnected hrefused
    · exact absurd hconnected hrefused
    · exact absurd hconnected hrefused
    · exact shadows_connect hs hlisten hfind hheap

end Server

/-- A client that never sends the password makes no difference. Without its connection and its
events, as long as it is connected, the run goes on, and after every event the channels and all
other clients are the same. No channel refers to it, no nickname finds it, and nobody is told
when it disconnects. -/
theorem unauthenticated_noninterference {s₀ s₁ : Server} (h : Reachable s₀) {fd : Fd} {ok : Bool}
    {ip : Option Str} {p : Ptr} {es : List Event}
    (hadm : s₀.AdmitsAll (.accept (.connection fd ok ip (some p)) :: es))
    (hs₁ : s₁ = s₀.step (.accept (.connection fd ok ip (some p))))
    (hconnected : s₁.clients.find? fd = some p) (hroom : s₁.HasRoomAll es)
    (hpass : s₁.NeverPasses fd p es) :
    s₀.AdmitsAll (s₁.without fd p es)
    ∧ ∀ front, front <+: es →
      s₁.without fd p front <+: s₁.without fd p es
      ∧ (s₀.run (s₁.without fd p front)).channels = (s₁.run front).channels
      ∧ (∀ q, q ≠ p ∨ ¬ s₁.Stays fd p front →
        (s₀.run (s₁.without fd p front)).heap q = (s₁.run front).heap q)
      ∧ (s₁.Stays fd p front →
        (∀ name ch, (s₁.run front).findChannel name = some ch → ¬ ch.Refers p)
        ∧ (∀ n, (s₁.run front).findClientByNick n ≠ some p)
        ∧ ∀ q, q ≠ p → ((s₁.run front).disconnectClient fd).heap q = (s₁.run front).heap q) := by
  subst hs₁
  obtain ⟨haccept, hadms⟩ := hadm
  have hstart := Server.shadows_accept h.integrity haccept hconnected
  have hreach := h.moves (h.moves_step haccept)
  refine ⟨(hstart.run hreach hadms hroom hpass).1, ?_⟩
  rintro front ⟨back, rfl⟩
  refine ⟨Server.without_append front back, ?_⟩
  obtain ⟨_, ⟨hstays, hshadows⟩ | ⟨hgone, hsame⟩⟩ := hstart.run hreach
    (Server.AdmitsAll.of_append hadms).1 hroom.of_append hpass.of_append
  · refine ⟨hshadows.channels, fun q hq => ?_, fun _ => ⟨hshadows.unreferenced, ?_, fun q hq => ?_⟩⟩
    · exact hshadows.heap_ne (hq.resolve_right fun hnot => hnot hstays)
    · exact Server.findClientByNick_ne hshadows.anonymous
    · rw [hshadows.disconnectClient_self, hshadows.heap_ne hq]
  · rw [hsame]
    exact ⟨rfl, fun _ _ => rfl, fun hstays => absurd hstays hgone⟩

/-- A third client tries a wrong password, talks, and goes away; the first client says something in
between. -/
def strangerEvents : List Event :=
  [.read 6 (.data (lit "PASS no\r\nNICK eve\r\nJOIN #c\r\n")),
    .read 4 (.data (lit "PRIVMSG #c :hi\r\n")), .pollError 6, .reap]

/-- The sample with the third client. -/
def visited : Server :=
  sample.step (.accept (.connection 6 true (some (lit "127.0.0.3")) (some 2)))

theorem unauthenticated_noninterference_sample :
    visited.without 6 2 strangerEvents = [.read 4 (.data (lit "PRIVMSG #c :hi\r\n")), .reap]
      ∧ (sample.run (visited.without 6 2 strangerEvents)).channels = (visited.run strangerEvents).channels
      ∧ ∀ q, q ≠ 2 → (sample.run (visited.without 6 2 strangerEvents)).heap q
        = (visited.run strangerEvents).heap q := by
  obtain ⟨hadm, hconnected, hroom, hpass, hrest⟩ :
      sample.AdmitsAll (.accept (.connection 6 true (some (lit "127.0.0.3")) (some 2)) :: strangerEvents)
      ∧ visited.clients.find? 6 = some 2 ∧ visited.HasRoomAll strangerEvents
      ∧ visited.NeverPasses 6 2 strangerEvents
      ∧ visited.without 6 2 strangerEvents = [.read 4 (.data (lit "PRIVMSG #c :hi\r\n")), .reap] := by
    decide +kernel
  have hvisited : visited
      = sample.step (.accept (.connection 6 true (some (lit "127.0.0.3")) (some 2))) := rfl
  have hsame := (unauthenticated_noninterference reachable_sample hadm hvisited hconnected hroom hpass).2
    strangerEvents List.prefix_rfl
  exact ⟨hrest, hsame.2.1, fun q hq => hsame.2.2.1 q (Or.inl hq)⟩

end FtIrc
