import FtIrc.Reaping

/-!
# Reaps in a row

A reap can leave dead clients behind: those that had no room for its QUIT lines. The next iteration
of the loop reaps them, and their own QUIT lines may kill others. Nobody comes back, so there are at
most as many such iterations as there are clients, and from then on a reap changes nothing. Each
client that goes costs a survivor one line.
-/

namespace FtIrc

open Bytes

namespace Client

theorem length_le_of_isValidOutboundMessage {message : Str} (h : isValidOutboundMessage message = true) :
    message.length ≤ maxIrcMessageSize := by
  unfold isValidOutboundMessage at h
  by_contra hlong
  have hlong : message.length > maxIrcMessageSize := by omega
  rw [if_pos (by simp [hlong])] at h
  cases h

/-- Only valid messages take room. -/
theorem length_sendMessages_le (x : Client) (messages : List Str) :
    (messages.foldl sendMessage x).sendBuffer.length
      ≤ x.sendBuffer.length + (messages.filter isValidOutboundMessage).flatten.length := by
  induction messages generalizing x with
  | nil => exact Nat.le_add_right ..
  | cons message messages ih =>
    have hrest := ih (x.sendMessage message)
    rw [List.foldl_cons]
    cases hvalid : isValidOutboundMessage message with
    | false =>
      have hsame : (x.sendMessage message).sendBuffer = x.sendBuffer := by
        cases hstopped : x.stopped with
        | true => rw [sendMessage_of_stopped hstopped]
        | false => rw [sendMessage_of_not_valid hstopped hvalid]
      rw [hsame] at hrest
      rwa [List.filter_cons_of_neg (by simp [hvalid])]
    | true =>
      have hone : (x.sendMessage message).sendBuffer.length ≤ x.sendBuffer.length + message.length := by
        unfold sendMessage markDead
        dsimp only
        split_ifs <;> simp
      rw [List.filter_cons_of_pos hvalid, List.flatten_cons, List.length_append]
      omega

end Client

namespace Server

variable {s : Server}

/-! ## One reap -/

theorem keys_disconnectClient (s : Server) (fd : Fd) :
    (s.disconnectClient fd).clients.keys = s.clients.keys.filter fun j => decide (j ≠ fd) := by
  unfold disconnectClient
  cases hfd : s.clients.find? fd with
  | none =>
    have hnew : fd ∉ s.clients.keys := by
      intro hmem
      obtain ⟨p, hp⟩ := OrdMap.mem_keys.mp hmem
      rw [hfd] at hp
      cases hp
    refine (List.filter_eq_self.mpr fun j hj => decide_eq_true ?_).symm
    rintro rfl
    exact hnew hj
  | some p =>
    show ((s.announceQuit p).clients.erase fd).keys = _
    rw [OrdMap.keys_erase, announceQuit]
    split_ifs
    · rw [clients_sendAll]
    · rfl

/-- Whoever leaves is off the list, and nobody else. -/
theorem keys_reapDeadClients (hs : s.Integrity) :
    s.reapDeadClients.clients.keys = s.clients.keys.filter fun fd => !s.leavesFd fd := by
  have hall : ∀ (fds : List Fd) (t : Server), (fds.foldl disconnectClient t).clients.keys
      = t.clients.keys.filter fun j => decide (j ∉ fds) := by
    intro fds
    induction fds with
    | nil => simp
    | cons fd fds ih =>
      intro t
      rw [List.foldl_cons, ih, keys_disconnectClient, List.filter_filter]
      exact List.filter_congr fun j _ => by simp [Bool.and_comm]
  rw [reapDeadClients_eq hs, hall, (retireAll_eq s s.clients.keys).1]
  refine List.filter_congr fun fd hfd => ?_
  simp [List.mem_filter, hfd]

/-- The clients that a reap disconnects are those that are missing behind it. -/
theorem size_reapDeadClients (hs : s.Integrity) :
    s.reapDeadClients.clients.size + (s.clients.keys.filter s.leavesFd).length = s.clients.size := by
  have hsize : ∀ m : OrdMap Fd Ptr, m.size = m.keys.length := fun m => (List.length_map _).symm
  rw [hsize, hsize, keys_reapDeadClients hs, Nat.add_comm]
  exact List.length_eq_length_filter_add s.leavesFd |>.symm

/-- A reap of nobody changes nothing. -/
theorem reapDeadClients_eq_self (hs : s.Integrity) (h : s.clients.keys.filter s.leavesFd = []) :
    s.reapDeadClients = s := by
  have hretire : ∀ fds ⊆ s.clients.keys, fds.foldl retire s = s := by
    intro fds hfds
    induction fds with
    | nil => rfl
    | cons fd fds ih =>
      obtain ⟨hfd, hfds⟩ := List.cons_subset.mp hfds
      obtain ⟨p, hp⟩ := OrdMap.mem_keys.mp hfd
      have hstays := List.filter_eq_nil_iff.mp h fd hfd
      have hdrained : ¬ ((s.client p).closing && !(s.client p).hasPendingOutput) = true := by
        intro hdrained
        rw [leavesFd, hp] at hstays
        exact hstays (Bool.or_eq_true_iff.mpr (Or.inr hdrained))
      have hone : s.retire fd = s := by
        unfold retire
        rw [hp]
        exact if_neg hdrained
      rw [List.foldl_cons, hone]
      exact ih hfds
  rw [reapDeadClients_eq hs, h]
  exact hretire _ fun _ h => h

theorem reapDeadClients_descends (hs : s.Integrity) :
    s.reapDeadClients = s ∨ s.reapDeadClients.clients.size < s.clients.size := by
  by_cases h : s.clients.keys.filter s.leavesFd = []
  · exact Or.inl (reapDeadClients_eq_self hs h)
  · have hsize := size_reapDeadClients hs
    have hpos := List.length_pos_of_ne_nil h
    exact Or.inr (by omega)

/-- Behind a reap that changes nothing there is nobody to reap. -/
theorem nobodyToReap_of_fixed (hs : s.Integrity) (h : s.reapDeadClients = s) : s.NobodyToReap := by
  intro fd q hfd
  have hstays : (s.client q).leaves = false := by
    rw [← h] at hfd
    exact ((find?_reapDeadClients hs).mp hfd).2
  obtain ⟨hdead, hdrained⟩ := Bool.or_eq_false_iff.mp hstays
  refine ⟨hdead, fun ⟨hclosing, hempty⟩ => ?_⟩
  rw [hclosing, Client.hasPendingOutput, hempty] at hdrained
  cases hdrained

/-- The QUIT lines of a reap are no longer than a message for each client that leaves. -/
theorem quitLoad_le (s : Server) (q : Ptr) :
    s.quitLoad q ≤ 512 * (s.clients.keys.filter s.leavesFd).length := by
  have hall : ∀ messages : List Str,
      (messages.filter isValidOutboundMessage).flatten.length ≤ 512 * messages.length := by
    intro messages
    induction messages with
    | nil => exact Nat.le_refl _
    | cons message messages ih =>
      rw [List.length_cons]
      cases hvalid : isValidOutboundMessage message with
      | false =>
        rw [List.filter_cons_of_neg (by simp [hvalid])]
        omega
      | true =>
        have hone : message.length ≤ 512 := Client.length_le_of_isValidOutboundMessage hvalid
        rw [List.filter_cons_of_pos hvalid, List.flatten_cons, List.length_append]
        omega
  have hlines := List.length_filterMap_le (s.quitLine? q) (s.clients.keys.filter s.leavesFd)
  exact (hall _).trans (Nat.mul_le_mul_left 512 hlines)

/-! ## Iterated reaps -/

theorem reachable_reaps (hs : Reachable s) (n : ℕ) : Reachable (reapDeadClients^[n] s) := by
  induction n with
  | zero => exact hs
  | succ n ih =>
    rw [Function.iterate_succ_apply']
    exact ih.moves ih.moves_reapDeadClients

theorem size_reaps_le (hs : Reachable s) (n : ℕ) :
    (reapDeadClients^[n] s).clients.size ≤ s.clients.size := by
  induction n with
  | zero => exact Nat.le_refl _
  | succ n ih =>
    rw [Function.iterate_succ_apply']
    have hsize := size_reapDeadClients (reachable_reaps hs n).integrity
    omega

/-- Nobody is there again that was gone. -/
theorem find?_of_reaps (hs : Reachable s) {n : ℕ} {fd : Fd} {q : Ptr}
    (h : (reapDeadClients^[n] s).clients.find? fd = some q) : s.clients.find? fd = some q := by
  induction n with
  | zero => exact h
  | succ n ih =>
    rw [Function.iterate_succ_apply'] at h
    exact ih ((find?_reapDeadClients (reachable_reaps hs n).integrity).mp h).1

/-- The object of a client in good order. -/
def Live (s : Server) (fd : Fd) (q : Ptr) : Prop :=
  s.clients.find? fd = some q ∧ (s.client q).stopped = false

/-- A client with room for a message for each one that is gone is still there. -/
theorem live_reaps (hs : Reachable s) {fd : Fd} {q : Ptr} (hlive : s.Live fd q) {n : ℕ}
    (hroom : (s.client q).sendBuffer.length
      + 512 * (s.clients.size - (reapDeadClients^[n] s).clients.size) ≤ 65536) :
    (reapDeadClients^[n] s).Live fd q
      ∧ ((reapDeadClients^[n] s).client q).sendBuffer.length ≤ (s.client q).sendBuffer.length
        + 512 * (s.clients.size - (reapDeadClients^[n] s).clients.size) := by
  induction n with
  | zero => exact ⟨hlive, Nat.le_add_right ..⟩
  | succ n ih =>
    have hreach := reachable_reaps hs n
    have hsize := size_reapDeadClients hreach.integrity
    have hmost := size_reaps_le hs n
    rw [Function.iterate_succ_apply'] at hroom ⊢
    generalize reapDeadClients^[n] s = t at *
    obtain ⟨⟨hfd, hstopped⟩, hbuffer⟩ := ih (by omega)
    have hload := t.quitLoad_le q
    have hstays : (t.client q).leaves = false := by
      obtain ⟨hdead, hclosing⟩ := Bool.or_eq_false_iff.mp hstopped
      rw [Client.leaves, hdead, hclosing]
      rfl
    have hclient := client_reapDeadClients hreach.integrity hfd hstays
    have hlength := Client.length_sendMessages_le (t.client q)
      ((t.clients.keys.filter t.leavesFd).filterMap (t.quitLine? q))
    rw [← hclient, ← quitLoad] at hlength
    have hdead : (t.reapDeadClients.client q).dead = false := by
      rw [hclient]
      refine (Client.dead_sendMessages_iff hstopped ?_ _).mpr ?_
      · show _ ≤ 65536
        omega
      · rw [← quitLoad]
        show _ ≤ 65536
        omega
    have hclosing : (t.reapDeadClients.client q).closing = false := by
      rw [hclient]
      exact Client.closing_sendMessages (Client.closing_of_live hstopped) _
    refine ⟨⟨(find?_reapDeadClients hreach.integrity).mpr ⟨hfd, hstays⟩, ?_⟩, by omega⟩
    rw [Client.stopped, hdead, hclosing]
    rfl

/-- A client that is closing with output neither leaves nor hears of those who do. -/
theorem closing_reaps (hs : Reachable s) {fd : Fd} {q : Ptr} (hfd : s.clients.find? fd = some q)
    (hstopped : (s.client q).stopped = true) (hstays : (s.client q).leaves = false) (n : ℕ) :
    (reapDeadClients^[n] s).clients.find? fd = some q
      ∧ ∃ offered, (reapDeadClients^[n] s).client q = { s.client q with trace.offered := offered } := by
  induction n with
  | zero => exact ⟨hfd, (s.client q).trace.offered, rfl⟩
  | succ n ih =>
    have hint := (reachable_reaps hs n).integrity
    rw [Function.iterate_succ_apply']
    generalize reapDeadClients^[n] s = t at *
    obtain ⟨hfd', offered, hclient⟩ := ih
    have hstays' : (t.client q).leaves = false := by
      rw [hclient]
      exact hstays
    have hstopped' : (t.client q).stopped = true := by
      rw [hclient]
      exact hstopped
    refine ⟨(find?_reapDeadClients hint).mpr ⟨hfd', hstays'⟩, ?_⟩
    rw [client_reapDeadClients hint hfd' hstays', Client.sendMessages_of_stopped hstopped', hclient]
    exact ⟨_, rfl⟩

end Server

/-- As many reaps as there are clients leave nobody to reap, and no later reap changes anything. A
live client that has room for one message of full length for each client that goes is live behind
them; a closing one with output is as it was, but for what it has been offered; the others of those
that are left were there before. -/
theorem reaps_settle {s : Server} (hs : Reachable s) {n : ℕ} (hn : s.clients.size ≤ n) :
    (Server.reapDeadClients^[n] s).NobodyToReap ∧ (Server.reapDeadClients^[n] s).NoDeadMembers
    ∧ (∀ k ≥ n, Server.reapDeadClients^[k] s = Server.reapDeadClients^[n] s)
    ∧ (∀ fd q, (Server.reapDeadClients^[n] s).clients.find? fd = some q → s.clients.find? fd = some q)
    ∧ (∀ fd q, s.Live fd q → (s.client q).sendBuffer.length
        + 512 * (s.clients.size - (Server.reapDeadClients^[n] s).clients.size) ≤ 65536 →
        (Server.reapDeadClients^[n] s).Live fd q)
    ∧ ∀ fd q, s.clients.find? fd = some q → (s.client q).dead = false →
        (s.client q).closing = true → (s.client q).sendBuffer ≠ [] →
        (Server.reapDeadClients^[n] s).clients.find? fd = some q
          ∧ ∃ offered,
            (Server.reapDeadClients^[n] s).client q = { s.client q with trace.offered := offered } := by
  have hfixed : Function.IsFixedPt Server.reapDeadClients (Server.reapDeadClients^[n] s) :=
    Function.IsFixedPt.iterate_of_descends (P := Reachable) (μ := fun t => t.clients.size)
      (fun _ h => h.moves h.moves_reapDeadClients)
      (fun _ h => Server.reapDeadClients_descends h.integrity) hs hn
  have hint := (Server.reachable_reaps hs n).integrity
  have hnobody := Server.nobodyToReap_of_fixed hint hfixed
  refine ⟨hnobody, hnobody.noDeadMembers hint, fun k hk => ?_,
    fun _ _ => Server.find?_of_reaps hs, fun _ _ hlive hroom => (Server.live_reaps hs hlive hroom).1,
    fun fd q hfd hdead hclosing hpending => ?_⟩
  · obtain ⟨d, rfl⟩ := Nat.exists_eq_add_of_le' hk
    rw [Function.iterate_add_apply]
    exact Function.iterate_fixed hfixed d
  · refine Server.closing_reaps hs hfd (by rw [Client.stopped, hclosing, Bool.or_true]) ?_ n
    rw [Client.leaves, hdead, hclosing, Client.hasPendingOutput]
    simpa using hpending

/-- The first client has hung up; the second outlives it. -/
theorem reaps_settle_sample :
    hungUp.clients.size = 2 ∧ (hungUp.client 0).dead = true
      ∧ (Server.reapDeadClients^[2] hungUp).NobodyToReap
      ∧ (Server.reapDeadClients^[7] hungUp = Server.reapDeadClients^[2] hungUp)
      ∧ (Server.reapDeadClients^[2] hungUp).Live 5 1 := by
  obtain ⟨hsize, hdead, hfd, hlive, hroom⟩ :
      hungUp.clients.size = 2 ∧ (hungUp.client 0).dead = true ∧ hungUp.clients.find? 5 = some 1
      ∧ (hungUp.client 1).stopped = false ∧ (hungUp.client 1).sendBuffer.length + 1024 ≤ 65536 := by
    decide +kernel
  obtain ⟨hnobody, _, hsettled, _, hlives, _⟩ := reaps_settle reachable_hungUp hsize.le
  have hlines : ∀ left : ℕ, 512 * (2 - left) ≤ 1024 := by
    intro left
    omega
  refine ⟨hsize, hdead, hnobody, hsettled 7 (by decide), hlives 5 1 ⟨hfd, hlive⟩ ?_⟩
  rw [hsize]
  exact (Nat.add_le_add_left (hlines _) _).trans hroom

end FtIrc
