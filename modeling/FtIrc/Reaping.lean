import FtIrc.Delivery
import FtIrc.Departures
import FtIrc.OutputStream

/-!
# What a reap leaves behind

The reaper lists the clients that are dead before it disconnects the first of them. Every
disconnect sends QUIT lines, and whoever has no room for them dies and is not on the list. A
survivor gets the QUIT lines of all on the list that it shares a channel with, so its send buffer
decides whether it lives.
-/

namespace FtIrc

open Bytes

namespace Client

theorem dead_markDead_self (x : Client) (reason : Str) : (x.markDead reason).dead = true := by
  by_cases hdead : x.dead = true
  · rw [markDead, if_pos hdead, hdead]
  · rw [markDead, if_neg hdead]

/-- The client is to be disconnected: it is dead, or it is closing and all of its output is gone. -/
def leaves (x : Client) : Bool := x.dead || (x.closing && !x.hasPendingOutput)

/-- The client behind the first loop of the reaper. -/
def retired (x : Client) : Client :=
  if x.closing && !x.hasPendingOutput then x.markDead x.deadReason else x

theorem dead_retired (x : Client) : x.retired.dead = x.leaves := by
  unfold retired leaves
  cases hdrained : x.closing && !x.hasPendingOutput with
  | false => rw [if_neg Bool.false_ne_true, Bool.or_false]
  | true => rw [if_pos rfl, Bool.or_true, dead_markDead_self]

theorem retired_of_not_leaves {x : Client} (h : x.leaves = false) : x.retired = x := by
  unfold leaves at h
  exact if_neg (by rw [(Bool.or_eq_false_iff.mp h).2]; decide)

theorem identity_retired (x : Client) : x.retired.identity = x.identity := by
  unfold retired
  split_ifs
  · exact x.identity_markDead _
  · rfl

theorem deadReason_retired (x : Client) : x.retired.deadReason = x.deadReason := by
  unfold retired markDead
  split_ifs <;> rfl

theorem retired_retired (x : Client) : x.retired.retired = x.retired := by
  cases hleaves : x.leaves with
  | false => rw [retired_of_not_leaves hleaves, retired_of_not_leaves hleaves]
  | true =>
    have hdead : x.retired.dead = true := by rw [dead_retired, hleaves]
    rw [retired]
    split_ifs
    · rw [markDead, if_pos hdead]
    · rfl

/-- Messages to a stopped client. -/
theorem sendMessages_of_stopped {x : Client} (h : x.stopped = true) (messages : List Str) :
    messages.foldl sendMessage x = { x with trace.offered := x.trace.offered ++ messages } := by
  induction messages generalizing x with
  | nil => rw [List.append_nil]; rfl
  | cons message messages ih =>
    rw [List.foldl_cons, sendMessage_of_stopped h, ih (by exact h)]
    simp only [List.append_assoc, List.singleton_append]

/-- Messages to a live client do not close it. -/
theorem closing_sendMessages {x : Client} (h : x.closing = false) (messages : List Str) :
    (messages.foldl sendMessage x).closing = false := by
  induction messages generalizing x with
  | nil => exact h
  | cons message messages ih =>
    apply ih
    unfold sendMessage markDead
    dsimp only
    split_ifs <;> exact h

/-- A live client survives messages exactly if there is room for those that are valid. -/
theorem dead_sendMessages_iff {x : Client} (hlive : x.stopped = false)
    (hbuffer : x.sendBuffer.length ≤ maxSendBuffer) (messages : List Str) :
    (messages.foldl sendMessage x).dead = false
      ↔ x.sendBuffer.length + (messages.filter isValidOutboundMessage).flatten.length ≤ maxSendBuffer := by
  induction messages generalizing x with
  | nil => exact iff_of_true (alive_of_not_stopped hlive) hbuffer
  | cons message messages ih =>
    rw [List.foldl_cons]
    cases hvalid : isValidOutboundMessage message with
    | false =>
      rw [List.filter_cons_of_neg (by simp [hvalid]), sendMessage_of_not_valid hlive hvalid]
      exact ih hlive hbuffer
    | true =>
      rw [List.filter_cons_of_pos hvalid, List.flatten_cons, List.length_append]
      by_cases hroom : x.sendBuffer.length + message.length ≤ maxSendBuffer
      · have hsent := sendMessage_of_room hlive hvalid hroom
        have hlength : (x.sendMessage message).sendBuffer.length
            = x.sendBuffer.length + message.length := by rw [hsent, List.length_append]
        have hlive' : (x.sendMessage message).stopped = false := by
          rw [hsent]
          exact hlive
        rw [ih hlive' (by omega), hlength, Nat.add_assoc]
      · have hdead := (sendMessage_of_overflow hlive hvalid (by omega)).1
        refine iff_of_false ?_ (by omega)
        rw [dead_sendMessages _ _ hdead]
        decide

end Client

namespace Server

/-! ## The first loop -/

section Retire

variable {s : Server}

theorem clients_retire (s : Server) (fd : Fd) : (s.retire fd).clients = s.clients := by
  unfold retire
  split
  · rfl
  · split_ifs <;> rfl

theorem channels_retire (s : Server) (fd : Fd) : (s.retire fd).channels = s.channels := by
  unfold retire
  split
  · rfl
  · split_ifs <;> rfl

theorem heap_retire_eq (s : Server) (fd : Fd) (q : Ptr) : (s.retire fd).heap q
    = if s.clients.find? fd = some q then (s.heap q).map Client.retired else s.heap q := by
  unfold retire
  cases hp : s.clients.find? fd with
  | none => rw [if_neg (Option.some_ne_none q).symm]
  | some p =>
    dsimp only
    by_cases hq : p = q
    · subst hq
      rw [if_pos rfl]
      cases hx : s.heap p with
      | none =>
        rw [Option.map_none]
        split_ifs
        · rw [heap_modify_self, hx, Option.map_none]
        · exact hx
      | some x =>
        rw [client_of_heap hx, Option.map_some, Client.retired]
        split_ifs
        · rw [heap_modify_self, hx, Option.map_some]
        · exact hx
    · rw [if_neg fun h => hq (Option.some_inj.mp h)]
      split_ifs
      · exact heap_modify_ne _ _ fun h => hq h.symm
      · rfl

/-- The first loop retires every client once, however often it comes to it. -/
theorem retireAll_eq (s : Server) (fds : List Fd) :
    (fds.foldl retire s).clients = s.clients ∧ (fds.foldl retire s).channels = s.channels
    ∧ ∀ q, (fds.foldl retire s).heap q
        = if ∃ fd ∈ fds, s.clients.find? fd = some q then (s.heap q).map Client.retired
          else s.heap q := by
  induction fds generalizing s with
  | nil => exact ⟨rfl, rfl, fun q => (if_neg (by simp)).symm⟩
  | cons fd fds ih =>
    obtain ⟨hclients, hchannels, hheap⟩ := ih (s.retire fd)
    rw [clients_retire] at hclients hheap
    rw [channels_retire] at hchannels
    refine ⟨hclients, hchannels, fun q => ?_⟩
    have htwice : ((s.heap q).map Client.retired).map Client.retired = (s.heap q).map Client.retired := by
      rw [Option.map_map]
      congr 1
      exact funext Client.retired_retired
    rw [List.foldl_cons, hheap, heap_retire_eq]
    by_cases hfirst : s.clients.find? fd = some q
    · rw [if_pos hfirst, htwice, ite_self, if_pos ⟨fd, List.mem_cons_self, hfirst⟩]
    · rw [if_neg hfirst]
      refine if_congr ?_ rfl rfl
      simp [hfirst]

end Retire

/-- The state behind the first loop: every client is retired. -/
theorem retireAll_heap {s : Server} (hs : s.Integrity) (q : Ptr) :
    (s.clients.keys.foldl retire s).heap q = (s.heap q).map Client.retired := by
  rw [(retireAll_eq s s.clients.keys).2.2 q]
  cases hx : s.heap q with
  | none => rw [Option.map_none, ite_self]
  | some x =>
    have hfd := hs.registered q x hx
    rw [if_pos ⟨x.fd, OrdMap.mem_keys.mpr ⟨q, hfd⟩, hfd⟩]

theorem integrity_retireAll {s : Server} (hs : s.Integrity) (fds : List Fd) :
    (fds.foldl retire s).Integrity := by
  induction fds generalizing s with
  | nil => exact hs
  | cons fd fds ih =>
    apply ih
    unfold retire
    split
    · exact hs
    · split_ifs
      · exact hs.of_sameChannels (.modify _ _ fun x _ => Client.fd_of_endpoint (x.endpoint_markDead _)) rfl
      · exact hs

/-! ## The second loop -/

section Disconnect

variable {s : Server} (hs : s.Integrity) {fd : Fd} {p : Ptr} (hfd : s.clients.find? fd = some p)
include hs hfd

/-- Two descriptors have two objects. -/
theorem ne_of_find? {fd' : Fd} {p' : Ptr} (hfd' : s.clients.find? fd' = some p') (hne : fd' ≠ fd) :
    p' ≠ p := by
  rintro rfl
  have hsame := (hs.object fd p' hfd).symm.trans (hs.object fd' p' hfd')
  exact hne (Option.some_inj.mp hsame).symm

omit hs in
/-- Those who are still there share the channels that they have shared. -/
theorem mem_quitRecipients_disconnectClient {q p' : Ptr} (hq : q ≠ p) (hp' : p' ≠ p) :
    q ∈ (s.disconnectClient fd).quitRecipients p' ↔ q ∈ s.quitRecipients p' := by
  have hmem : ∀ (ch : Channel) (r : Ptr), r ≠ p →
      (r ∈ ((ch.removeMember p).removeInvited p).members ↔ r ∈ ch.members) := by
    intro ch r hr
    exact ch.mem_removeMember_of_ne hr
  rw [mem_quitRecipients, mem_quitRecipients]
  refine and_congr_right fun _ => ?_
  constructor
  · rintro ⟨name, ch', hch', hin, hin'⟩
    rw [findChannel_disconnectClient hfd] at hch'
    obtain ⟨ch, hch, rfl⟩ := Option.map_eq_some_iff.mp hch'
    exact ⟨name, ch, hch, (hmem ch p' hp').mp hin, (hmem ch q hq).mp hin'⟩
  · rintro ⟨name, ch, hch, hin, hin'⟩
    refine ⟨name, _, ?_, (hmem ch p' hp').mpr hin, (hmem ch q hq).mpr hin'⟩
    rw [findChannel_disconnectClient hfd, hch, Option.map_some]

omit hs in
/-- A dead client that is still there is as it was, but for what it has been offered. -/
theorem client_disconnectClient_of_dead {p' : Ptr} (hp' : p' ≠ p) (hdead : (s.client p').dead = true) :
    ∃ offered, (s.disconnectClient fd).client p' = { s.client p' with trace.offered := offered } := by
  have hheap := s.heap_disconnectClient hfd hp'
  cases hx : s.heap p' with
  | none =>
    rw [client, hx] at hdead
    cases hdead
  | some x =>
    rw [client_of_heap hx] at hdead ⊢
    have hstopped : x.stopped = true := by rw [Client.stopped, hdead, Bool.true_or]
    rw [hx, Option.map_some, Client.sendMessages_of_stopped hstopped] at hheap
    exact ⟨_, client_of_heap hheap⟩

/-- What the others are sent stays the same. -/
theorem quitLine?_disconnectClient {q p' : Ptr} (hq : q ≠ p) {fd' : Fd}
    (hfd' : s.clients.find? fd' = some p') (hne : fd' ≠ fd) (hdead : (s.client p').dead = true) :
    (s.disconnectClient fd).quitLine? q fd' = s.quitLine? q fd' := by
  have hp' := ne_of_find? hs hfd hfd' hne
  obtain ⟨offered, hclient⟩ := client_disconnectClient_of_dead hfd hp' hdead
  unfold quitLine?
  rw [clients_disconnectClient fd hne, hfd']
  dsimp only
  rw [hclient]
  exact if_congr (and_congr_right fun _ => mem_quitRecipients_disconnectClient hfd hq hp') rfl rfl

end Disconnect

/-- A survivor is sent the QUIT lines in the order in which the list is disconnected. -/
theorem heap_disconnectAll {s : Server} (hs : s.Integrity) {fds : List Fd} (hnodup : fds.Nodup)
    (hdead : ∀ fd ∈ fds, ∃ p, s.clients.find? fd = some p ∧ (s.client p).dead = true) {q : Ptr}
    (hq : ∀ fd ∈ fds, s.clients.find? fd ≠ some q) :
    (fds.foldl disconnectClient s).heap q
      = (s.heap q).map fun y => (fds.filterMap (s.quitLine? q)).foldl Client.sendMessage y := by
  induction fds generalizing s with
  | nil => exact Option.map_id'.symm
  | cons fd fds ih =>
    obtain ⟨hnew, hnodup⟩ := List.nodup_cons.mp hnodup
    obtain ⟨p, hfd, _⟩ := hdead fd List.mem_cons_self
    have hqp : q ≠ p := by
      rintro rfl
      exact hq fd List.mem_cons_self hfd
    have hrest : ∀ fd' ∈ fds, fd' ≠ fd := fun fd' hfd' heq => hnew (heq ▸ hfd')
    have hdead' : ∀ fd' ∈ fds, ∃ p', (s.disconnectClient fd).clients.find? fd' = some p'
        ∧ ((s.disconnectClient fd).client p').dead = true := by
      intro fd' hfd'
      obtain ⟨p', hp', hdead'⟩ := hdead fd' (List.mem_cons_of_mem fd hfd')
      have hne := hrest fd' hfd'
      obtain ⟨offered, hclient⟩ :=
        client_disconnectClient_of_dead hfd (ne_of_find? hs hfd hp' hne) hdead'
      exact ⟨p', by rw [clients_disconnectClient fd hne, hp'], by rw [hclient]; exact hdead'⟩
    have hq' : ∀ fd' ∈ fds, (s.disconnectClient fd).clients.find? fd' ≠ some q := by
      intro fd' hfd'
      rw [clients_disconnectClient fd (hrest fd' hfd')]
      exact hq fd' (List.mem_cons_of_mem fd hfd')
    -- the lines to come are the same: a disconnect changes neither who shares a channel with `q`
    -- nor what the others that leave have to say
    have hlines : fds.filterMap ((s.disconnectClient fd).quitLine? q)
        = fds.filterMap (s.quitLine? q) := by
      refine List.filterMap_congr fun fd' hfd' => ?_
      obtain ⟨p', hp', hdead'⟩ := hdead fd' (List.mem_cons_of_mem fd hfd')
      exact quitLine?_disconnectClient hs hfd hqp hp' (hrest fd' hfd') hdead'
    rw [List.foldl_cons, ih (hs.disconnectClient fd) hnodup hdead' hq', hlines,
      heap_disconnectClient s hfd hqp, Option.map_map]
    congr 1
    funext y
    rw [Function.comp_apply, ← List.foldl_append]
    congr 1
    rw [List.filterMap_cons]
    cases s.quitLine? q fd <;> rfl

theorem find?_disconnectAll (s : Server) (fds : List Fd) (fd : Fd) :
    (fds.foldl disconnectClient s).clients.find? fd
      = if fd ∈ fds then none else s.clients.find? fd := by
  induction fds generalizing s with
  | nil => exact (if_neg List.not_mem_nil).symm
  | cons fd' fds ih =>
    rw [List.foldl_cons, ih]
    by_cases hrest : fd ∈ fds
    · rw [if_pos hrest, if_pos (List.mem_cons_of_mem fd' hrest)]
    rw [if_neg hrest]
    by_cases heq : fd = fd'
    · subst heq
      rw [if_pos List.mem_cons_self]
      cases hfd : s.clients.find? fd with
      | none => rw [disconnectClient, hfd, hfd]
      | some p =>
        rw [disconnectClient, hfd]
        exact OrdMap.find?_erase_self ..
    · rw [clients_disconnectClient fd' heq, if_neg (by simp [heq, hrest])]

/-! ## The reap -/

/-- The descriptor of a client that is to be disconnected. -/
def leavesFd (s : Server) (fd : Fd) : Bool :=
  match s.clients.find? fd with
  | none => false
  | some p => (s.client p).leaves

/-- The bytes of the QUIT lines that a survivor is sent by a reap. -/
def quitLoad (s : Server) (q : Ptr) : ℕ :=
  (((s.clients.keys.filter s.leavesFd).filterMap (s.quitLine? q)).filter
    isValidOutboundMessage).flatten.length

section Reap

variable {s : Server} (hs : s.Integrity)
include hs

theorem client_retireAll {fd : Fd} {p : Ptr} (hfd : s.clients.find? fd = some p) :
    (s.clients.keys.foldl retire s).client p = (s.client p).retired := by
  obtain ⟨x, hx⟩ := Option.isSome_iff_exists.mp (hs.allocated_of_find? hfd)
  have hheap := retireAll_heap hs p
  rw [hx, Option.map_some] at hheap
  rw [client_of_heap hx, client_of_heap hheap]

/-- The list of the second loop. -/
theorem isDeadFd_retireAll (fd : Fd) :
    (s.clients.keys.foldl retire s).isDeadFd fd = s.leavesFd fd := by
  unfold isDeadFd leavesFd
  rw [(retireAll_eq s s.clients.keys).1]
  cases hfd : s.clients.find? fd with
  | none => rfl
  | some p =>
    dsimp only
    rw [client_retireAll hs hfd, Client.dead_retired]

theorem quitLine?_retireAll (q : Ptr) (fd : Fd) :
    (s.clients.keys.foldl retire s).quitLine? q fd = s.quitLine? q fd := by
  obtain ⟨hclients, hchannels, _⟩ := retireAll_eq s s.clients.keys
  unfold quitLine?
  rw [hclients]
  cases hfd : s.clients.find? fd with
  | none => rfl
  | some p =>
    have hidentity := (s.client p).identity_retired
    have hmessage : quitMessage (s.client p).retired = quitMessage (s.client p) := by
      have husername : (s.client p).retired.username = (s.client p).username :=
        congrArg Client.Identity.username hidentity
      rw [quitMessage, quitMessage, quitReason, quitReason, Client.deadReason_retired,
        Client.nickname_of_identity hidentity, husername]
    have hrecipients : (s.clients.keys.foldl retire s).quitRecipients p = s.quitRecipients p := by
      rw [quitRecipients, quitRecipients, hchannels]
    dsimp only
    rw [client_retireAll hs hfd, hmessage, hrecipients, Client.isRegistered_of_identity hidentity]

theorem reapDeadClients_eq : s.reapDeadClients
    = (s.clients.keys.filter s.leavesFd).foldl disconnectClient (s.clients.keys.foldl retire s) := by
  unfold reapDeadClients
  dsimp only
  rw [(retireAll_eq s s.clients.keys).1, List.filter_congr fun fd _ => isDeadFd_retireAll hs fd]

/-- Who is left behind the reap. -/
theorem find?_reapDeadClients {fd : Fd} {q : Ptr} : s.reapDeadClients.clients.find? fd = some q
    ↔ s.clients.find? fd = some q ∧ (s.client q).leaves = false := by
  rw [reapDeadClients_eq hs, find?_disconnectAll, (retireAll_eq s s.clients.keys).1]
  cases hfd : s.clients.find? fd with
  | none => simp
  | some p =>
    have hkey : fd ∈ s.clients.keys := OrdMap.mem_keys.mpr ⟨p, hfd⟩
    have hlisted : fd ∈ s.clients.keys.filter s.leavesFd ↔ (s.client p).leaves = true := by
      rw [List.mem_filter, and_iff_right hkey, leavesFd, hfd]
    by_cases hleaves : (s.client p).leaves = true
    · rw [if_pos (hlisted.mpr hleaves)]
      refine iff_of_false (Option.some_ne_none q).symm fun h => ?_
      rw [← Option.some_inj.mp h.1, hleaves] at h
      cases h.2
    · rw [if_neg fun h => hleaves (hlisted.mp h)]
      refine ⟨fun h => ⟨h, ?_⟩, fun h => h.1⟩
      rw [← Option.some_inj.mp h]
      simpa using hleaves

/-- What has become of a survivor. -/
theorem client_reapDeadClients {fd : Fd} {q : Ptr} (hfd : s.clients.find? fd = some q)
    (hstays : (s.client q).leaves = false) :
    s.reapDeadClients.client q = ((s.clients.keys.filter s.leavesFd).filterMap
      (s.quitLine? q)).foldl Client.sendMessage (s.client q) := by
  obtain ⟨x, hx⟩ := Option.isSome_iff_exists.mp (hs.allocated_of_find? hfd)
  rw [client_of_heap hx] at hstays ⊢
  have hretired := retireAll_heap hs q
  rw [hx, Option.map_some, Client.retired_of_not_leaves hstays] at hretired
  have hlisted : ∀ fd' ∈ s.clients.keys.filter s.leavesFd, ∃ p, s.clients.find? fd' = some p
      ∧ (s.client p).leaves = true := by
    intro fd' hfd'
    obtain ⟨hkey, hleaves⟩ := List.mem_filter.mp hfd'
    obtain ⟨p, hp⟩ := OrdMap.mem_keys.mp hkey
    rw [leavesFd, hp] at hleaves
    exact ⟨p, hp, hleaves⟩
  have hheap := heap_disconnectAll (integrity_retireAll hs s.clients.keys)
    (s.clients.nodup_keys.filter s.leavesFd) (q := q) (fun fd' hfd' => ?_) fun fd' hfd' heq => ?_
  · rw [hretired, Option.map_some, List.filterMap_congr fun fd' _ => quitLine?_retireAll hs q fd',
      ← reapDeadClients_eq hs] at hheap
    exact client_of_heap hheap
  · obtain ⟨p, hp, hleaves⟩ := hlisted fd' hfd'
    refine ⟨p, ?_, ?_⟩
    · rw [(retireAll_eq s s.clients.keys).1, hp]
    · rw [client_retireAll hs hp, Client.dead_retired, hleaves]
  · obtain ⟨p, hp, hleaves⟩ := hlisted fd' hfd'
    rw [(retireAll_eq s s.clients.keys).1, hp] at heq
    obtain rfl := Option.some_inj.mp heq
    rw [client_of_heap hx, hstays] at hleaves
    cases hleaves

end Reap

/-- No client is dead, and none is closing without output. -/
def NobodyToReap (s : Server) : Prop :=
  ∀ fd q, s.clients.find? fd = some q →
    (s.client q).dead = false ∧ ¬ ((s.client q).closing = true ∧ (s.client q).sendBuffer = [])

/-- No member of a channel is dead. -/
def NoDeadMembers (s : Server) : Prop :=
  ∀ name ch p, s.findChannel name = some ch → p ∈ ch.members → (s.client p).dead = false

/-- Where nobody is to be reaped, no member is dead. -/
theorem NobodyToReap.noDeadMembers {s : Server} (h : s.NobodyToReap) (hs : s.Integrity) :
    s.NoDeadMembers := by
  intro name ch p hch hp
  obtain ⟨x, hx⟩ := Option.isSome_iff_exists.mp ((hs.channel name ch hch).allocated p (Or.inl hp))
  exact (h x.fd p (hs.registered p x hx)).1

theorem integrity_reapDeadClients {s : Server} (hs : s.Integrity) : s.reapDeadClients.Integrity := by
  have hall : ∀ (fds : List Fd) (t : Server), t.Integrity → (fds.foldl disconnectClient t).Integrity := by
    intro fds
    induction fds with
    | nil => exact fun _ ht => ht
    | cons fd fds ih => exact fun t ht => ih _ (ht.disconnectClient fd)
  exact hall _ _ (integrity_retireAll hs s.clients.keys)

end Server

/-- After a reap nobody is to be reaped, and no member of a channel is dead, exactly if every client
that is neither dead nor closing has room for the QUIT lines of those that leave and share a channel
with it. -/
theorem reap_leaves_nobody {s : Server} (hs : s.Integrity)
    (hbuffers : ∀ p x, s.heap p = some x → x.sendBuffer.length ≤ 65536) :
    s.reapDeadClients.NobodyToReap ∧ s.reapDeadClients.NoDeadMembers
    ↔ ∀ fd q, s.clients.find? fd = some q → (s.client q).stopped = false →
        (s.client q).sendBuffer.length + s.quitLoad q ≤ 65536 := by
  have hbuffer : ∀ fd q, s.clients.find? fd = some q → (s.client q).sendBuffer.length ≤ 65536 := by
    intro fd q hfd
    obtain ⟨x, hx⟩ := Option.isSome_iff_exists.mp (hs.allocated_of_find? hfd)
    rw [Server.client_of_heap hx]
    exact hbuffers q x hx
  have hlive : ∀ {x : Client}, x.stopped = false → x.leaves = false := by
    intro x hx
    obtain ⟨hdead, hclosing⟩ := Bool.or_eq_false_iff.mp hx
    rw [Client.leaves, hdead, hclosing]
    rfl
  constructor
  · rintro ⟨hnobody, _⟩ fd q hfd hstopped
    have hstays := hlive hstopped
    have halive := (hnobody fd q ((Server.find?_reapDeadClients hs).mpr ⟨hfd, hstays⟩)).1
    rw [Server.client_reapDeadClients hs hfd hstays] at halive
    exact (Client.dead_sendMessages_iff hstopped (hbuffer fd q hfd) _).mp halive
  · intro hroom
    have hnobody : s.reapDeadClients.NobodyToReap := by
      intro fd q hfound
      obtain ⟨hfd, hstays⟩ := (Server.find?_reapDeadClients hs).mp hfound
      rw [Server.client_reapDeadClients hs hfd hstays]
      cases hstopped : (s.client q).stopped with
      | false =>
        refine ⟨(Client.dead_sendMessages_iff hstopped (hbuffer fd q hfd) _).mpr (hroom fd q hfd hstopped),
          fun h => ?_⟩
        rw [Client.closing_sendMessages (Client.closing_of_live hstopped)] at h
        cases h.1
      | true =>
        -- a client that is closing with output is left as it is
        rw [Client.sendMessages_of_stopped hstopped]
        obtain ⟨hdead, hpending⟩ := Bool.or_eq_false_iff.mp hstays
        refine ⟨hdead, fun ⟨hclosing, hempty⟩ => ?_⟩
        have hclosing' : (s.client q).closing = true := hclosing
        have hempty' : (s.client q).sendBuffer = [] := hempty
        rw [hclosing', Client.hasPendingOutput, hempty'] at hpending
        cases hpending
    exact ⟨hnobody, hnobody.noDeadMembers (Server.integrity_reapDeadClients hs)⟩

/-- Every client of a reachable server keeps the bound of its send buffer. -/
theorem Reachable.length_sendBuffer_le {s : Server} (h : Reachable s) {p : Ptr} {x : Client}
    (hx : s.heap p = some x) : x.sendBuffer.length ≤ 65536 := by
  obtain ⟨fd, ip, houtputs⟩ := h.outputs p x hx
  exact (houtputs.streamed (Client.streamed_fresh fd ip)).length_le

theorem reachable_hungUp : Reachable hungUp := reachable_sample.run (by decide +kernel)

theorem reap_leaves_nobody_sample :
    (hungUp.client 0).dead = true ∧ hungUp.IsMember 0 (lit "#c")
      ∧ hungUp.reapDeadClients.NobodyToReap ∧ hungUp.reapDeadClients.NoDeadMembers := by
  obtain ⟨hdead, hmember, hroom⟩ :
      (hungUp.client 0).dead = true ∧ hungUp.IsMember 0 (lit "#c")
      ∧ ∀ e ∈ hungUp.clients.entries, (hungUp.client e.2).stopped = false →
          (hungUp.client e.2).sendBuffer.length + hungUp.quitLoad e.2 ≤ 65536 := by
    decide +kernel
  refine ⟨hdead, hmember, (reap_leaves_nobody reachable_hungUp.integrity
    fun p x hx => reachable_hungUp.length_sendBuffer_le hx).mpr fun fd q hfd hlive => ?_⟩
  exact hroom (fd, q) (OrdMap.find?_eq_some.mp hfd) hlive

/-- The second client has not read for a long time. -/
def unread : Server :=
  hungUp.modify 1 fun x => { x with sendBuffer := List.replicate 65536 (ch 'a') }

/-- The second client dies of the QUIT line of the first, and is left. -/
theorem reap_leaves_dead :
    unread.Integrity ∧ (∀ p x, unread.heap p = some x → x.sendBuffer.length ≤ 65536)
      ∧ unread.clients.find? 5 = some 1 ∧ (unread.client 1).stopped = false
      ∧ ¬ unread.reapDeadClients.NobodyToReap := by
  have hint : unread.Integrity :=
    reachable_hungUp.integrity.of_sameChannels (.modify _ _ fun _ _ => rfl) (Server.channels_modify ..)
  have hbuffers : ∀ p x, unread.heap p = some x → x.sendBuffer.length ≤ 65536 := by
    intro p x hx
    rw [unread, Server.heap_modify] at hx
    split_ifs at hx
    · obtain ⟨y, _, rfl⟩ := Option.map_eq_some_iff.mp hx
      exact List.length_replicate.le
    · exact reachable_hungUp.length_sendBuffer_le hx
  obtain ⟨hbob, hfd, hlive, hload⟩ :
      (hungUp.heap 1).isSome = true ∧ unread.clients.find? 5 = some 1
      ∧ (unread.client 1).stopped = false ∧ 0 < unread.quitLoad 1 := by
    decide +kernel
  obtain ⟨y, hy⟩ := Option.isSome_iff_exists.mp hbob
  have hfull : (unread.client 1).sendBuffer.length = 65536 := by
    rw [unread, Server.client_modify_self _ hy]
    exact List.length_replicate
  refine ⟨hint, hbuffers, hfd, hlive, fun hnobody => ?_⟩
  have hroom := (reap_leaves_nobody hint hbuffers).mp
    ⟨hnobody, hnobody.noDeadMembers (Server.integrity_reapDeadClients hint)⟩ 5 1 hfd hlive
  omega

end FtIrc
