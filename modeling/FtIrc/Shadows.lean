import FtIrc.Events
import FtIrc.Strangers

/-!
# Events without a stranger

A stranger's own events are not noticed by the server without it, and every other event does the
same in both. If the stranger is disconnected, the two servers are one.
-/

namespace FtIrc

open Bytes

namespace Server

/-- `t` is `s` without a stranger to whom no channel refers. -/
structure Shadows (fd : Fd) (p : Ptr) (s t : Server) : Prop extends Hides fd p s t where
  unreferenced : s.Unreferenced p

namespace Shadows

variable {fd fd' : Fd} {p q : Ptr} {s t : Server} (h : Shadows fd p s t)
include h

/-- The channels are the same. -/
theorem channels : t.channels = s.channels := by
  rw [h.eq]
  rfl

/-- The stranger changes itself. -/
theorem own {f : Client → Client} (hf : ∀ x, (f x).identity = x.identity) :
    Shadows fd p (s.modify p f) t :=
  ⟨h.toHides.own fun x hx => hx.of_identity (hf x), h.unreferenced⟩

/-- Another client changes. -/
theorem modify_ne (hq : q ≠ p) (f : Client → Client) :
    Shadows fd p (s.modify q f) (t.modify q f) :=
  ⟨h.toHides.modify_ne hq f, h.unreferenced⟩

/-! ## Reading, for somebody else -/

/-- Another client has a line handled. -/
theorem handleLine (hq : q ≠ p) {x : Client} (hx : s.heap q = some x) (line : Str) :
    Shadows fd p (s.handleLine q line) (t.handleLine q line) := by
  refine ⟨((likeness_hides fd hq).processLine h.toHides line).modify_ne hq _, ?_⟩
  exact ((processMessage_effects hx (Parser.parse line)).unreferenced hq h.anonymous h.unreferenced).1

/-- Another client has a line cut off its buffer, and goes on reading or not in both. -/
theorem readLine (hq : q ≠ p) {x : Client} (hx : s.heap q = some x) :
    Shadows fd p (s.readLine q).1 (t.readLine q).1 ∧ (t.readLine q).2 = (s.readLine q).2 := by
  unfold Server.readLine
  rw [h.client_ne hq]
  cases (s.client q).extractLine with
  | mk x' line =>
    have hextracted := h.modify_ne hq fun _ => x'
    cases line with
    | none => exact ⟨hextracted, rfl⟩
    | some line =>
      have hline := hextracted.handleLine hq (heap_extracted hx x') line
      refine ⟨hline, ?_⟩
      dsimp only
      rw [hline.client_ne hq]

/-- The loop over the lines of another client. -/
theorem readLines (hq : q ≠ p) {x : Client} (hx : s.heap q = some x) (fuel : ℕ) :
    Shadows fd p (Server.readLines fuel s q) (Server.readLines fuel t q) := by
  induction fuel generalizing s t x with
  | zero => exact h
  | succ fuel ih =>
    obtain ⟨hline, hgo⟩ := h.readLine hq hx
    obtain ⟨y, hy⟩ := Reachable.exists_readLine hx
    rw [Server.readLines, Server.readLines]
    dsimp only
    rw [hgo]
    split_ifs
    · exact ih hline hy
    · exact hline

/-- Another client receives a chunk. -/
theorem receive (hq : q ≠ p) (bytes : Str) :
    Shadows fd p (s.receive q bytes).1 (t.receive q bytes).1
      ∧ (t.receive q bytes).2 = (s.receive q bytes).2 := by
  unfold Server.receive
  rw [h.client_ne hq]
  cases (s.client q).appendToRecvBuffer bytes with
  | mk x' appended =>
    have happended := h.modify_ne hq fun _ => x'
    dsimp only
    split_ifs
    · exact ⟨happended, rfl⟩
    · exact ⟨happended.modify_ne hq _, rfl⟩

/-- Other descriptors have the same clients. -/
theorem getClientByFd (hfd : fd' ≠ fd) : t.getClientByFd fd' = s.getClientByFd fd' := h.find?_ne hfd

/-- A read from another descriptor. -/
theorem handleClientRead (hs : s.Integrity) (hfd : fd' ≠ fd) (result : RecvResult) :
    Shadows fd p (s.handleClientRead fd' result) (t.handleClientRead fd' result) := by
  unfold Server.handleClientRead
  rw [h.getClientByFd hfd]
  split
  · exact h
  next q hfind =>
  have hq := h.ne_of_find? hfd hfind
  obtain ⟨x, hx⟩ := Option.isSome_iff_exists.mp (hs.allocated_of_find? hfind)
  rw [h.client_ne hq]
  split_ifs
  · exact h
  cases result with
  | eof => exact h.modify_ne hq _
  | retry => exact h
  | error text => exact h.modify_ne hq _
  | data bytes =>
    obtain ⟨hreceived, happended⟩ := h.receive hq bytes
    have hallocated : ∃ y, (s.receive q bytes).1.heap q = some y := by
      unfold Server.receive
      dsimp only
      split_ifs
      · exact ⟨_, heap_extracted hx _⟩
      · rw [heap_modify_self, heap_extracted hx]
        exact ⟨_, rfl⟩
    obtain ⟨y, hy⟩ := hallocated
    dsimp only
    rw [happended, hreceived.client_ne hq]
    split_ifs
    · exact hreceived.readLines hq hy _
    · exact hreceived

/-! ## Output, errors and `poll`, for somebody else -/

/-- A write to another descriptor. -/
theorem handleClientWrite (hfd : fd' ≠ fd) (result : SendResult) :
    Shadows fd p (s.handleClientWrite fd' result) (t.handleClientWrite fd' result) := by
  unfold Server.handleClientWrite
  rw [h.getClientByFd hfd]
  split
  · exact h
  next q hfind =>
  have hq := h.ne_of_find? hfd hfind
  rw [h.client_ne hq]
  split_ifs
  · exact h
  · exact h
  cases result with
  | retry => exact h
  | error text => exact h.modify_ne hq _
  | sent n =>
    dsimp only
    split_ifs
    · exact h.modify_ne hq _
    · exact h.modify_ne hq _

/-- An error on another descriptor. -/
theorem handlePollError (hfd : fd' ≠ fd) :
    Shadows fd p (s.handlePollError fd') (t.handlePollError fd') := by
  unfold Server.handlePollError
  rw [h.getClientByFd hfd]
  split
  · exact h
  next q hfind => exact h.modify_ne (h.ne_of_find? hfd hfind) _

/-- Other descriptors wait for the same events. -/
theorem wantedEvents {e : PollFd} (he : e.fd ≠ fd) : t.wantedEvents e = s.wantedEvents e := by
  unfold Server.wantedEvents
  rw [h.getClientByFd he]
  have hlisten : t.listenFd = s.listenFd := by
    rw [h.eq]
    rfl
  rw [hlisten]
  split_ifs
  · rfl
  split
  · rfl
  next q hfind => rw [h.client_ne (h.ne_of_find? he hfind)]

/-- The poll entries that are left are brought up to date as before. -/
theorem mapM_wantedEvents {es es' : List PollFd} (hnodup : (es.map PollFd.fd).Nodup)
    (hes : es.mapM s.wantedEvents = .ok es') :
    (es.eraseP fun e => e.fd == fd).mapM t.wantedEvents = .ok (es'.eraseP fun e => e.fd == fd) := by
  induction es generalizing es' with
  | nil =>
    cases hes
    rfl
  | cons e es ih =>
    rw [List.map_cons, List.nodup_cons] at hnodup
    rw [List.mapM_cons] at hes
    cases he : s.wantedEvents e with
    | error => rw [he] at hes; cases hes
    | ok e' =>
      cases hrest : es.mapM s.wantedEvents with
      | error => rw [he, hrest] at hes; cases hes
      | ok es₁ =>
        rw [he, hrest] at hes
        cases hes
        have hfd := fd_of_wantedEvents he
        by_cases hown : e.fd = fd
        · -- the entry goes, and none of the others is the stranger's
          have hothers : ∀ d ∈ es, d.fd ≠ fd := fun d hd heq =>
            hnodup.1 (List.mem_map.mpr ⟨d, hd, heq.trans hown.symm⟩)
          have hsame : es.mapM t.wantedEvents = es.mapM s.wantedEvents := by
            clear ih hnodup hrest
            induction es with
            | nil => rfl
            | cons d es ih =>
              rw [List.mapM_cons, List.mapM_cons, h.wantedEvents (hothers d List.mem_cons_self),
                ih fun d hd => hothers d (List.mem_cons_of_mem _ hd)]
          rw [List.eraseP_cons_of_pos (by simpa using hown),
            List.eraseP_cons_of_pos (by rw [hfd]; simpa using hown), hsame, hrest]
        · rw [List.eraseP_cons_of_neg (by simpa using hown),
            List.eraseP_cons_of_neg (by rw [hfd]; simpa using hown), List.mapM_cons,
            h.wantedEvents hown, he, ih hnodup.2 hrest]
          rfl

/-- The poll entries are refreshed in both. -/
theorem refresh (hs : s.Integrity) : Shadows fd p (s.step .refresh) (t.step .refresh) := by
  obtain ⟨s', hs'⟩ := hs.refreshPollEvents_ok
  have hnodup : (s.pollFds.map PollFd.fd).Nodup := by
    rw [hs.polled.nodup_iff, List.nodup_cons]
    refine ⟨fun hmem => ?_, s.clients.nodup_keys⟩
    obtain ⟨q, hq⟩ := OrdMap.mem_keys.mp hmem
    exact absurd (hs.listening.symm.trans hq) (Option.some_ne_none q).symm
  unfold refreshPollEvents at hs'
  cases hes : s.pollFds.mapM s.wantedEvents with
  | error => rw [hes] at hs'; cases hs'
  | ok es =>
    have hrest : t.pollFds.mapM t.wantedEvents = .ok (es.eraseP fun e => e.fd == fd) := by
      have hpollFds : t.pollFds = s.pollFds.eraseP fun e => e.fd == fd := by
        rw [h.eq]
        rfl
      rw [hpollFds]
      exact h.mapM_wantedEvents hnodup hes
    unfold step refreshPollEvents
    rw [hes, hrest]
    refine ⟨⟨?_, h.anonymous, h.connected, h.only⟩, h.unreferenced⟩
    show { t with pollFds := _ } = _
    rw [h.eq]
    rfl

/-! ## New connections -/

/-- Without the client no address has more connections. -/
theorem countClientsFromIp_le (ip : Str) : t.countClientsFromIp ip ≤ s.countClientsFromIp ip := by
  unfold Server.countClientsFromIp
  split_ifs
  · exact Nat.le_refl 0
  rw [h.clients]
  apply OrdMap.countP_entries_erase_le
  intro e he hfd
  rw [h.client_ne (h.ne_of_entry he hfd)]

/-- Another client connects. -/
theorem connect (hfd : fd' ≠ fd) (hq : q ≠ p) (ip : Str) :
    Shadows fd p (s.connect fd' ip q) (t.connect fd' ip q) := by
  refine ⟨⟨?_, ?_, ?_, fun fd₁ hfd₁ => ?_⟩, h.unreferenced⟩
  · have hpollFds : ∀ d : PollFd, d.fd ≠ fd → (s.pollFds ++ [d]).eraseP (fun e => e.fd == fd)
        = s.pollFds.eraseP (fun e => e.fd == fd) ++ [d] := by
      intro d hd
      rw [List.eraseP_append]
      split_ifs with hany
      · rfl
      · rw [List.eraseP_of_forall_not (l := [d]) (by simpa using hd),
          List.eraseP_of_forall_not (by simpa using hany)]
    rw [h.eq]
    simp only [hide, Server.connect, hpollFds ⟨fd', true, false⟩ hfd, OrdMap.erase_insert_ne _ _ hfd.symm,
      Function.update_comm hq]
  · show ((Function.update s.heap q _ p).getD default).Anonymous
    rw [Function.update_of_ne hq.symm]
    exact h.anonymous
  · show (s.clients.insert fd' q).find? fd = some p
    rw [OrdMap.find?_insert_ne _ _ hfd.symm, h.connected]
  · have hfd₁' : (s.clients.insert fd' q).find? fd₁ = some p := hfd₁
    rw [OrdMap.find?_insert] at hfd₁'
    split_ifs at hfd₁'
    · exact absurd (Option.some_inj.mp hfd₁') hq
    · exact h.only fd₁ hfd₁'

/-- A new connection has neither the descriptor nor the object of the stranger. -/
theorem admits_connection (hs : s.Integrity) {ok : Bool} {ip : Option Str}
    (hadm : s.Admits (.accept (.connection fd' ok ip (some q)))) :
    fd' ≠ fd ∧ q ≠ p ∧ t.Admits (.accept (.connection fd' ok ip (some q))) := by
  obtain ⟨hlisten, hfind, hheap⟩ := hadm
  have hfd : fd' ≠ fd := by
    rintro rfl
    cases hfind.symm.trans h.connected
  have hq : q ≠ p := by
    rintro rfl
    have hallocated := hs.allocated_of_find? h.connected
    rw [Allocated, hheap] at hallocated
    cases hallocated
  refine ⟨hfd, hq, ?_, ?_, ?_⟩
  · rw [h.eq]
    exact hlisten
  · rw [h.find?_ne hfd, hfind]
  · rw [h.heap_ne hq, hheap]

end Shadows

/-- The limits on the number of clients do not refuse the connection. -/
def HasRoom (s : Server) : Event → Prop
  | .accept (.connection _ _ (some ip) _) =>
    s.clients.size < maxTotalClients ∧ s.countClientsFromIp ip < maxClientsPerIp
  | _ => True

instance decidableHasRoom (s : Server) : (e : Event) → Decidable (s.HasRoom e)
  | .accept (.connection _ _ (some _) _) => inferInstanceAs (Decidable (_ ∧ _))
  | .accept (.connection _ _ none _) => .isTrue trivial
  | .accept .failed => .isTrue trivial
  | .read _ _ => .isTrue trivial
  | .write _ _ => .isTrue trivial
  | .pollError _ => .isTrue trivial
  | .reap => .isTrue trivial
  | .refresh => .isTrue trivial

namespace Shadows

variable {fd fd' : Fd} {p q : Ptr} {s t : Server} (h : Shadows fd p s t)
include h

/-- A connection that is accepted beside the client is accepted without it. -/
theorem acceptNewClient (hs : s.Integrity) {result : AcceptResult}
    (hadm : s.Admits (.accept result)) (hroom : s.HasRoom (.accept result)) :
    t.Admits (.accept result)
      ∧ Shadows fd p (s.acceptNewClient result) (t.acceptNewClient result) := by
  cases result with
  | failed => exact ⟨trivial, h⟩
  | connection fd' ok ip object =>
  cases object with
  | none =>
    refine ⟨trivial, ?_⟩
    have hrefused : ∀ s : Server, s.acceptNewClient (.connection fd' ok ip none) = s := by
      intro s
      unfold Server.acceptNewClient
      cases ip <;> dsimp only <;> split_ifs <;> rfl
    rw [hrefused, hrefused]
    exact h
  | some q =>
    obtain ⟨hfd, hq, hadm'⟩ := h.admits_connection hs hadm
    refine ⟨hadm', ?_⟩
    unfold Server.acceptNewClient
    cases ip with
    | none =>
      dsimp only
      split_ifs <;> exact h
    | some ip =>
      obtain ⟨htotal, hcount⟩ := hroom
      have htotal' : t.clients.size < maxTotalClients := by
        rw [h.clients]
        exact Nat.lt_of_le_of_lt (s.clients.size_erase_le fd) htotal
      have hcount' : t.countClientsFromIp ip < maxClientsPerIp :=
        Nat.lt_of_le_of_lt (h.countClientsFromIp_le ip) hcount
      dsimp only
      rw [if_neg (by omega), if_neg (show ¬ t.clients.size ≥ maxTotalClients by omega),
        if_neg (show ¬ s.countClientsFromIp ip ≥ maxClientsPerIp by omega),
        if_neg (show ¬ t.countClientsFromIp ip ≥ maxClientsPerIp by omega)]
      split_ifs
      · exact h
      · exact h
      · exact h.connect hfd hq ip

/-! ## The reaper -/

/-- Another client that is closing and has been served is declared dead. -/
theorem retire_ne (hfd : fd' ≠ fd) : Shadows fd p (s.retire fd') (t.retire fd') := by
  unfold Server.retire
  rw [h.find?_ne hfd]
  split
  · exact h
  next q hfind =>
  have hq := h.ne_of_find? hfd hfind
  rw [h.client_ne hq]
  split_ifs
  · exact h.modify_ne hq _
  · exact h

/-- So is the client itself, and nobody sees it. -/
theorem retire_self : Shadows fd p (s.retire fd) t := by
  unfold Server.retire
  rw [h.connected]
  dsimp only
  split_ifs
  · exact h.own fun x => x.identity_markDead _
  · exact h

/-- What is listed, without the stranger. -/
theorem retireAll (fds : List Fd) :
    Shadows fd p (fds.foldl Server.retire s)
      ((fds.filter fun fd' => decide (fd' ≠ fd)).foldl Server.retire t) := by
  induction fds generalizing s t with
  | nil => exact h
  | cons fd' fds ih =>
    by_cases hfd : fd' = fd
    · rw [List.filter_cons_of_neg (by simpa using hfd), hfd]
      exact ih h.retire_self
    · rw [List.filter_cons_of_pos (by simpa using hfd)]
      exact ih (h.retire_ne hfd)

theorem keys : t.clients.keys = s.clients.keys.filter fun fd' => decide (fd' ≠ fd) := by
  rw [h.clients, OrdMap.keys_erase]

/-- The dead among the others are the same. -/
theorem isDeadFd (hfd : fd' ≠ fd) : t.isDeadFd fd' = s.isDeadFd fd' := by
  unfold Server.isDeadFd
  rw [h.find?_ne hfd]
  split
  · rfl
  next q hfind => rw [h.client_ne (h.ne_of_find? hfd hfind)]

theorem release_ne (hfd : fd' ≠ fd) (hq : q ≠ p) :
    Shadows fd p (s.release fd' q) (t.release fd' q) := by
  refine ⟨⟨?_, ?_, ?_, fun fd₁ hfd₁ => ?_⟩, fun name ch hch => ?_⟩
  · have hpollFds : (s.pollFds.eraseP fun e => e.fd == fd).eraseP (fun e => e.fd == fd')
        = (s.pollFds.eraseP fun e => e.fd == fd').eraseP fun e => e.fd == fd := by
      apply List.eraseP_comm
      intro e _
      by_cases he : e.fd = fd
      · exact Or.inr fun he' => hfd ((beq_iff_eq.mp he').symm.trans he)
      · exact Or.inl fun he' => he (beq_iff_eq.mp he')
    rw [h.eq]
    simp only [hide, release, hpollFds, OrdMap.erase_comm _ fd, Function.update_comm hq]
  · show ((Function.update s.heap q none p).getD default).Anonymous
    rw [Function.update_of_ne hq.symm]
    exact h.anonymous
  · show (s.clients.erase fd').find? fd = some p
    rw [OrdMap.find?_erase_ne _ hfd.symm, h.connected]
  · have hfd₁' : (s.clients.erase fd').find? fd₁ = some p := hfd₁
    rw [OrdMap.find?_erase] at hfd₁'
    split_ifs at hfd₁'
    exact h.only fd₁ hfd₁'
  · have hch' : (s.channels.mapValues fun ch => (ch.removeMember q).removeInvited q).find? name
        = some ch := hch
    rw [OrdMap.find?_mapValues] at hch'
    obtain ⟨ch₀, hch₀, rfl⟩ := Option.map_eq_some_iff.mp hch'
    exact fun hrefers => h.unreferenced name ch₀ hch₀ hrefers.of_removeInvited.of_removeMember

/-- Another client is disconnected. -/
theorem disconnectClient_ne (hfd : fd' ≠ fd) :
    Shadows fd p (s.disconnectClient fd') (t.disconnectClient fd') := by
  unfold Server.disconnectClient
  rw [h.find?_ne hfd]
  split
  · exact h
  next q hfind =>
  have hq := h.ne_of_find? hfd hfind
  refine Shadows.release_ne ?_ hfd hq
  have hrecipients : t.quitRecipients q = s.quitRecipients q := by
    unfold Server.quitRecipients
    rw [h.channels]
  unfold Server.announceQuit
  rw [h.client_ne hq, hrecipients]
  split_ifs
  · refine ⟨h.toHides.sendAll _ _, fun name ch hch => h.unreferenced name ch ?_⟩
    rwa [Server.findChannel, channels_sendAll] at hch
  · exact h

/-- The stranger disconnects: nobody is told, and no channel changes. -/
theorem disconnectClient_self : s.disconnectClient fd = t := by
  have hsilent : s.announceQuit p = s := by
    rw [announceQuit, h.anonymous.not_registered]
    rfl
  have hchannels : (s.channels.mapValues fun ch => (ch.removeMember p).removeInvited p) = s.channels := by
    refine OrdMap.ext_find? fun name => ?_
    rw [OrdMap.find?_mapValues]
    cases hch : s.channels.find? name with
    | none => rfl
    | some ch =>
      have hout := h.unreferenced name ch hch
      unfold Channel.Refers at hout
      push Not at hout
      rw [Option.map_some, Channel.removeMember_eq, Channel.removeInvited,
        List.erase_of_not_mem hout.1, List.erase_of_not_mem hout.2.1, List.erase_of_not_mem hout.2.2]
  rw [Server.disconnectClient, h.connected, h.eq]
  dsimp only
  rw [hsilent, release, hchannels, hide]

/-- Several clients are disconnected. If the stranger is one of them, the servers are the same. -/
theorem disconnectAll {fds : List Fd} (hnodup : fds.Nodup) :
    (fd ∉ fds → Shadows fd p (fds.foldl Server.disconnectClient s)
      ((fds.filter fun fd' => decide (fd' ≠ fd)).foldl Server.disconnectClient t))
    ∧ (fd ∈ fds → fds.foldl Server.disconnectClient s
      = (fds.filter fun fd' => decide (fd' ≠ fd)).foldl Server.disconnectClient t) := by
  induction fds generalizing s t with
  | nil => exact ⟨fun _ => h, fun hmem => absurd hmem List.not_mem_nil⟩
  | cons fd' fds ih =>
    obtain ⟨hout, hnodup⟩ := List.nodup_cons.mp hnodup
    by_cases hfd : fd' = fd
    · subst hfd
      refine ⟨fun hnot => absurd List.mem_cons_self hnot, fun _ => ?_⟩
      have hothers : fds.filter (fun fd => decide (fd ≠ fd')) = fds := by
        rw [List.filter_eq_self]
        intro fd₁ hfd₁
        rw [decide_eq_true_eq]
        rintro rfl
        exact hout hfd₁
      rw [List.filter_cons_of_neg (by simp), hothers, List.foldl_cons, h.disconnectClient_self]
    · rw [List.filter_cons_of_pos (by simpa using hfd)]
      have hrest := ih (h.disconnectClient_ne hfd) hnodup
      refine ⟨fun hnot => hrest.1 fun hmem => hnot (List.mem_cons_of_mem fd' hmem), fun hmem => ?_⟩
      exact hrest.2 ((List.mem_cons.mp hmem).resolve_left fun heq => hfd heq.symm)

/-- The dead are listed and disconnected. The stranger is still there, or gone and forgotten. -/
theorem reapDeadClients :
    Shadows fd p s.reapDeadClients t.reapDeadClients
    ∨ s.reapDeadClients.clients.find? fd = none ∧ t.reapDeadClients = s.reapDeadClients := by
  have hretired := h.retireAll s.clients.keys
  rw [← h.keys] at hretired
  unfold Server.reapDeadClients
  dsimp only
  generalize s.clients.keys.foldl Server.retire s = s₁ at hretired ⊢
  generalize t.clients.keys.foldl Server.retire t = t₁ at hretired ⊢
  have hlisted : t₁.clients.keys.filter t₁.isDeadFd
      = (s₁.clients.keys.filter s₁.isDeadFd).filter fun fd' => decide (fd' ≠ fd) := by
    rw [hretired.keys, List.filter_filter, List.filter_filter]
    refine List.filter_congr fun fd' _ => ?_
    by_cases hfd : fd' = fd
    · simp [hfd]
    · simp [hfd, hretired.isDeadFd hfd]
  have hall := hretired.disconnectAll (s₁.clients.nodup_keys.filter s₁.isDeadFd)
  rw [hlisted]
  by_cases hmem : fd ∈ s₁.clients.keys.filter s₁.isDeadFd
  swap
  · exact Or.inl (hall.1 hmem)
  rw [hall.2 hmem]
  refine Or.inr ⟨?_, rfl⟩
  have hgone : ∀ (fds : List Fd) (u : Server), u.clients.find? fd = none →
      (fds.foldl Server.disconnectClient u).clients.find? fd = none := by
    intro fds
    induction fds with
    | nil => exact fun _ hu => hu
    | cons fd' fds ih =>
      refine fun u hu => ih _ ?_
      unfold Server.disconnectClient
      split
      · exact hu
      · next q _ =>
        have hannounce : (u.announceQuit q).clients = u.clients := by
          unfold announceQuit
          split_ifs
          · exact clients_sendAll ..
          · rfl
        show ((u.announceQuit q).clients.erase fd').find? fd = none
        rw [hannounce, OrdMap.find?_erase, hu]
        split_ifs <;> rfl
  exact hgone _ _ (by rw [hretired.clients, OrdMap.find?_erase_self])

/-! ## The stranger's own events -/

theorem of_hides {s' : Server} (h' : Hides fd p s' t) : Shadows fd p s' t := by
  refine ⟨h', fun name ch hch => h.unreferenced name ch ?_⟩
  have hchannels : s'.channels = s.channels := by
    have hs' : t.channels = s'.channels := by
      rw [h'.eq]
      rfl
    rw [← hs', h.channels]
  rwa [Server.findChannel, hchannels] at hch

/-- An error on the descriptor of the client. -/
theorem handlePollError_self : Shadows fd p (s.handlePollError fd) t := by
  unfold Server.handlePollError Server.getClientByFd
  rw [h.connected]
  exact h.own fun x => x.identity_socketError _

/-- A write to the client. -/
theorem handleClientWrite_self (result : SendResult) :
    Shadows fd p (s.handleClientWrite fd result) t := by
  unfold Server.handleClientWrite Server.getClientByFd
  rw [h.connected]
  dsimp only
  split_ifs
  · exact h
  · exact h
  cases result with
  | retry => exact h
  | error text => exact h.own fun x => x.identity_socketError _
  | sent n =>
    dsimp only
    split_ifs
    · exact h.own fun x => x.identity_socketError _
    · exact h.own fun x => x.identity_consumeSendBuffer n

omit h in
/-- A line is taken from the buffer of the stranger and handled. -/
theorem readLine_self (h : Shadows fd p s t) {x : Client} (hx : s.heap p = some x) :
    ((s.readLine p).1.client p).passOk = true ∨ Shadows fd p (s.readLine p).1 t := by
  unfold Server.readLine
  rw [client_of_heap hx]
  cases hextract : x.extractLine with
  | mk x' line =>
    have hidentity := Client.extractLine_identity hextract
    have hextracted : Shadows fd p (s.modify p fun _ => x') t := by
      have hanonymous := h.anonymous
      rw [client_of_heap hx] at hanonymous
      exact h.of_hides (h.toHides.own fun _ _ => hanonymous.of_identity hidentity)
    cases line with
    | none => exact Or.inr hextracted
    | some line =>
      have hx' := heap_extracted hx x'
      have heffects := processMessage_effects hx' (Parser.parse line)
      refine (heffects.hides hextracted.toHides).imp (fun hpass => ?_) fun hhides => ?_
      · have hrecord := client_modify_field ((s.modify p fun _ => x').processLine p line) p p
          (·.recordLine line) Client.passOk fun _ => rfl
        exact hrecord.trans hpass
      · exact h.of_hides (hhides.own fun y hy => hy.of_identity rfl)

end Shadows

/-- Whoever has passed stays so while its lines are read. -/
theorem passOk_readLines {s : Server} {p : Ptr} {x : Client} (hx : s.heap p = some x)
    (hpass : x.passOk = true) (fuel : ℕ) : ((readLines fuel s p).client p).passOk = true := by
  induction fuel generalizing s x with
  | zero => rwa [readLines, client_of_heap hx]
  | succ fuel ih =>
    obtain ⟨y, hy⟩ := Reachable.exists_readLine hx
    have hline : y.passOk = true := by
      rw [← client_of_heap hy]
      unfold readLine
      rw [client_of_heap hx]
      cases hextract : x.extractLine with
      | mk x' line =>
        have hx' := heap_extracted hx x'
        have hpass' : x'.passOk = true :=
          (congrArg Client.Identity.passOk (Client.extractLine_identity hextract)).trans hpass
        cases line with
        | none =>
          dsimp only
          rwa [client_of_heap hx']
        | some line =>
          have hafter := (processMessage_effects hx' (Parser.parse line)).passOk
            (by rwa [client_of_heap hx'])
          exact (client_modify_field ((s.modify p fun _ => x').processLine p line) p p
            (·.recordLine line) Client.passOk fun _ => rfl).trans hafter
    rw [readLines]
    dsimp only
    split_ifs
    · exact ih hy hline
    · rwa [client_of_heap hy]

namespace Shadows

variable {fd : Fd} {p : Ptr} {s t : Server}

/-- The client reads its lines, and is not authenticated behind them. -/
theorem readLines_self (h : Shadows fd p s t) {x : Client} (hx : s.heap p = some x) {fuel : ℕ}
    (hend : ((Server.readLines fuel s p).client p).passOk = false) :
    Shadows fd p (Server.readLines fuel s p) t := by
  induction fuel generalizing s x with
  | zero => exact h
  | succ fuel ih =>
    obtain ⟨y, hy⟩ := Reachable.exists_readLine hx
    rw [Server.readLines] at hend ⊢
    dsimp only at hend ⊢
    rcases h.readLine_self hx with hpass | hline
    · rw [client_of_heap hy] at hpass
      split_ifs at hend
      · exact absurd (hend.symm.trans (passOk_readLines hy hpass fuel)) (by decide)
      · rw [client_of_heap hy] at hend
        exact absurd (hend.symm.trans hpass) (by decide)
    · split_ifs at hend ⊢
      · exact ih hline hy hend
      · exact hline

/-- A read from the client that does not authenticate it. -/
theorem handleClientRead_self (h : Shadows fd p s t) (hs : s.Integrity) {result : RecvResult}
    (hend : ((s.handleClientRead fd result).client p).passOk = false) :
    Shadows fd p (s.handleClientRead fd result) t := by
  obtain ⟨x, hx⟩ := Option.isSome_iff_exists.mp (hs.allocated_of_find? h.connected)
  unfold Server.handleClientRead Server.getClientByFd at hend ⊢
  rw [h.connected] at hend ⊢
  dsimp only at hend ⊢
  split_ifs at hend ⊢
  · exact h
  cases result with
  | eof => exact h.own fun x => x.identity_markClosing _
  | retry => exact h
  | error text => exact h.own fun x => x.identity_socketError _
  | data bytes =>
    dsimp only at hend ⊢
    have hreceived : Shadows fd p (s.receive p bytes).1 t
        ∧ ∃ y, (s.receive p bytes).1.heap p = some y := by
      have happended : Shadows fd p (s.modify p fun _ => ((s.client p).appendToRecvBuffer bytes).1) t := by
        refine h.of_hides (h.toHides.own fun _ _ => h.anonymous.of_identity ?_)
        exact Client.identity_appendToRecvBuffer ..
      unfold Server.receive
      dsimp only
      split_ifs
      · exact ⟨happended, _, heap_extracted hx _⟩
      · refine ⟨happended.own fun x => x.identity_markDead _, ?_⟩
        rw [heap_modify_self, heap_extracted hx]
        exact ⟨_, rfl⟩
    obtain ⟨hreceived, y, hy⟩ := hreceived
    split_ifs at hend ⊢
    · exact hreceived.readLines_self hy hend
    · exact hreceived

end Shadows

end Server

end FtIrc
