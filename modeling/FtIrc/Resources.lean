import FtIrc.Framing

/-!
# Resource bounds

What a server can be made to hold: 512 connections, 128 of them from one address as long as
they are alive, 64 KiB of output for each, and of input less than two chunks. The two limits
on connections are tested when one is accepted, so they are invariants of the moves: nothing
else adds an entry, changes an address or brings a client back to life. The limit on the input
is not the constant that `appendToRecvBuffer` tests but what a settled client and one chunk
come to.
-/

namespace FtIrc

open Bytes Relation

namespace Server

/-- The entries of an address whose clients are not dead, as `countClientsFromIp` counts them. -/
def aliveFrom (s : Server) (ip : Str) : ℕ :=
  s.clients.entries.countP fun e => !(s.client e.2).dead && (s.client e.2).ip == ip

/-- The limits on connections hold. -/
structure Capped (s : Server) : Prop where
  total : s.clients.size ≤ maxTotalClients
  perIp : ∀ ip, s.aliveFrom ip ≤ maxClientsPerIp

/-- `t` has only entries of `s`, and their clients have the address they had and are not less
dead. -/
structure Fewer (s t : Server) : Prop where
  entries : t.clients.entries.Sublist s.clients.entries
  client : ∀ e ∈ t.clients.entries, (t.client e.2).ip = (s.client e.2).ip
    ∧ ((s.client e.2).dead = true → (t.client e.2).dead = true)

/-- With fewer connections the limits are kept. -/
theorem Capped.of_fewer {s t : Server} (hs : s.Capped) (h : s.Fewer t) : t.Capped := by
  refine ⟨h.entries.length_le.trans hs.total, fun ip => ?_⟩
  have hmono : t.aliveFrom ip
      ≤ t.clients.entries.countP fun e => !(s.client e.2).dead && (s.client e.2).ip == ip := by
    refine List.countP_mono_left fun e he htest => ?_
    obtain ⟨hip, hdead⟩ := h.client e he
    simp only [Bool.and_eq_true, Bool.not_eq_eq_eq_not, Bool.not_true, beq_iff_eq] at htest ⊢
    refine ⟨?_, hip ▸ htest.2⟩
    by_contra hd
    rw [hdead (by simpa using hd)] at htest
    exact absurd htest.1 (by decide)
  calc t.aliveFrom ip
      ≤ t.clients.entries.countP fun e => !(s.client e.2).dead && (s.client e.2).ip == ip := hmono
    _ ≤ s.aliveFrom ip := h.entries.countP_le
    _ ≤ maxClientsPerIp := hs.perIp ip

/-- A connection is accepted only within the limits. -/
theorem Capped.connect {s : Server} (hs : s.Capped) (hint : s.Integrity) {fd : Fd} {ip : Str}
    {p : Ptr} (hfd : s.clients.find? fd = none) (hp : s.heap p = none) (hip : ip ≠ [])
    (htotal : s.clients.size < maxTotalClients) (hcount : s.countClientsFromIp ip < maxClientsPerIp) :
    (s.connect fd ip p).Capped := by
  have hperm := OrdMap.entries_insert_perm hfd p
  refine ⟨?_, fun ip' => ?_⟩
  · show (s.clients.insert fd p).entries.length ≤ _
    rw [hperm.length_eq, List.length_cons]
    exact htotal
  -- the other entries have the clients they had
  have hold : s.clients.entries.countP
      (fun e => !((s.connect fd ip p).client e.2).dead && ((s.connect fd ip p).client e.2).ip == ip')
      = s.aliveFrom ip' := by
    refine List.countP_congr fun e he => ?_
    have hne : e.2 ≠ p := by
      rintro rfl
      have hsome := hint.allocated_of_find? (OrdMap.find?_eq_some.mpr he)
      rw [Allocated, hp] at hsome
      exact absurd hsome (by decide)
    have hclient : (s.connect fd ip p).client e.2 = s.client e.2 := by
      show (Function.update s.heap p _ e.2).getD default = _
      rw [Function.update_of_ne hne]
      rfl
    rw [hclient]
  have hnew : (s.connect fd ip p).client p = { fd, ip } := by
    show (Function.update s.heap p _ p).getD default = _
    rw [Function.update_self]
    rfl
  show (s.clients.insert fd p).entries.countP _ ≤ _
  rw [hperm.countP_eq, List.countP_cons, hold, hnew]
  by_cases heq : ip = ip'
  · have hsame : s.countClientsFromIp ip = s.aliveFrom ip := by
      rw [countClientsFromIp, if_neg (by simpa using hip)]
      rfl
    rw [← heq, ← hsame]
    split_ifs <;> omega
  · rw [if_neg (by simpa using heq)]
    exact hs.perIp ip'

end Server

theorem Client.Io.ip_eq {x x' : Client} (h : x.Io x') : x'.ip = x.ip :=
  ip_of_endpoint h.endpoint_eq

/-- What a client that was there before a move has become. -/
def Client.Outlives (s : Server) (p : Ptr) (y : Client) : Prop :=
  ∀ x, s.heap p = some x → y.ip = x.ip ∧ (x.dead = true → y.dead = true)

theorem Client.closed_outlives (s s' : Server) : Closed s s' (Client.Outlives s) := by
  constructor
  · intro p fd ip hp x hx
    exact absurd (hp.symm.trans hx) (Option.some_ne_none x).symm
  · intro p x x' hx h y hy
    obtain rfl := Option.some_inj.mp (hx.symm.trans hy)
    exact ⟨h.ip_eq, h.dead⟩
  · intro p x x' line hx live h y hy
    obtain rfl := Option.some_inj.mp (hx.symm.trans hy)
    refine ⟨ip_of_endpoint (extractLine_endpoint h), fun hdead => ?_⟩
    exact absurd (hdead.symm.trans (alive_of_not_stopped live)) (by decide)
  · intro p x text _ hx y hy
    obtain ⟨hip, hdead⟩ := hx y hy
    exact ⟨(ip_of_endpoint (x.endpoint_sendMessage text)).trans hip,
      fun h => x.dead_sendMessage text (hdead h)⟩
  · intro p x x₁ x₂ line hx live h _ hown y hy
    obtain rfl := Option.some_inj.mp (hx.symm.trans hy)
    refine ⟨(ip_of_endpoint hown.endpoint_eq).trans (ip_of_endpoint (extractLine_endpoint h)),
      fun hdead => ?_⟩
    exact absurd (hdead.symm.trans (alive_of_not_stopped live)) (by decide)
  · exact fun p x x₁ y line _ _ _ _ hy => hy

/-- Every move keeps the limits. -/
theorem Move.capped {s s' : Server} (hreach : Reachable s) (hs : s.Capped) (h : Move s s') :
    s'.Capped := by
  have houtlives := h.forall_clients (Q := Client.Outlives s)
    (fun p y hy x hx => by rw [Option.some_inj.mp (hx.symm.trans hy)]; exact ⟨rfl, id⟩)
    (Client.closed_outlives s s')
  -- only the entries of a move have to be looked at
  have hfewer : s'.clients.entries.Sublist s.clients.entries → s'.Capped := by
    refine fun hsub => hs.of_fewer ⟨hsub, fun e he => ?_⟩
    obtain ⟨x, hx, _⟩ := hreach.exists_client (OrdMap.find?_eq_some.mpr (hsub.subset he))
    obtain ⟨y, hy, _⟩ := (hreach.move h).exists_client (OrdMap.find?_eq_some.mpr he)
    rw [Server.client_of_heap hx, Server.client_of_heap hy]
    exact houtlives _ y hy x hx
  cases h with
  | connect _ hfd hp hip htotal hcount =>
    exact hs.connect hreach.integrity hfd hp hip htotal hcount
  | io => exact hfewer (List.Sublist.refl _)
  | line hx _ _ =>
    apply hfewer
    rw [(Server.SameConnections.handleLine (Server.heap_extracted hx _) _).clients]
    exact List.Sublist.refl _
  | disconnect hfd =>
    apply hfewer
    rw [Server.disconnectClient, hfd]
    have hannounce : ∀ p, (s.announceQuit p).clients = s.clients := by
      intro p
      unfold Server.announceQuit
      split_ifs
      · exact Server.clients_sendAll ..
      · rfl
    show ((s.announceQuit _).clients.erase _).entries.Sublist _
    rw [hannounce]
    exact List.filter_sublist
  | poll h =>
    obtain ⟨_, rfl, _⟩ := Server.of_refreshPollEvents h
    exact hfewer (List.Sublist.refl _)

theorem Reachable.capped {s : Server} (h : Reachable s) : s.Capped := by
  induction h with
  | start => exact ⟨Nat.zero_le _, fun _ => Nat.zero_le _⟩
  | move h hmove ih => exact hmove.capped h ih

/-! ## Receive buffers -/

namespace Server

variable {s : Server} {p : Ptr} {x : Client}

/-- The extraction loop only takes from the buffer. -/
theorem length_recvBuffer_readLines (hx : s.heap p = some x) (fuel : ℕ) :
    ∃ y, (readLines fuel s p).heap p = some y ∧ y.recvBuffer.length ≤ x.recvBuffer.length := by
  induction fuel generalizing s x with
  | zero => exact ⟨x, hx, Nat.le_refl _⟩
  | succ fuel ih =>
    rw [readLines]
    rcases readLine_cases hx with ⟨_, hread⟩ | ⟨l, t, reason, hbuffer, _, _, hread⟩
      | ⟨l, t, y, s₁, hbuffer, _, _, _, hy, hinput, hread⟩
    · rw [hread]
      exact ⟨x, hx, Nat.le_refl _⟩
    · rw [hread]
      dsimp only
      rw [if_neg Bool.false_ne_true, heap_modify_self, hx]
      refine ⟨_, rfl, ?_⟩
      rw [Client.recvBuffer_of_input (Client.input_markDead ..), hbuffer, List.length_append,
        List.length_cons]
      show t.length ≤ _
      omega
    · have hle : y.recvBuffer.length ≤ x.recvBuffer.length := by
        have hrecv : y.recvBuffer = t := congrArg Prod.fst hinput
        rw [hrecv, hbuffer, List.length_append, List.length_cons]
        omega
      rw [hread]
      dsimp only
      split_ifs
      · obtain ⟨z, hz, hzle⟩ := ih hy
        exact ⟨z, hz, hzle.trans hle⟩
      · exact ⟨y, hy, hle⟩

/-- A chunk that is read into a settled buffer is all that is added to it. -/
theorem length_recvBuffer_receive (hx : s.heap p = some x) (hsettled : x.Settled) {chunk : Str}
    (hchunk : IsChunk chunk) :
    ∃ y, (s.receive p chunk).1.heap p = some y ∧ y.recvBuffer.length < 2 * recvChunkSize := by
  have hlength : (x.recvBuffer ++ chunk).length < 2 * recvChunkSize := by
    have hlt := hsettled.length_lt
    have hle := hchunk.2
    rw [List.length_append]
    omega
  rcases receive_cases hx hsettled hchunk with ⟨_, _, reason, hreceive⟩ | ⟨_, hreceive⟩
  · rw [hreceive, heap_modify_self, hx]
    refine ⟨_, rfl, ?_⟩
    rw [Client.recvBuffer_of_input (Client.input_markDead ..)]
    exact hlength
  · rw [hreceive, heap_modify_self, hx]
    exact ⟨_, rfl, hlength⟩

theorem length_recvBuffer_handleClientRead {fd : Fd} (hfd : s.clients.find? fd = some p)
    (hx : s.heap p = some x) (live : x.stopped = false) (hsettled : x.Settled) {chunk : Str}
    (hchunk : IsChunk chunk) :
    ∃ y, (s.handleClientRead fd (.data chunk)).heap p = some y
      ∧ y.recvBuffer.length < 2 * recvChunkSize := by
  obtain ⟨y, hy, hlt⟩ := length_recvBuffer_receive hx hsettled hchunk
  rw [handleClientRead, getClientByFd, hfd]
  dsimp only
  rw [client_of_heap hx, if_neg (show ¬ (x.dead || x.closing) = true from Bool.eq_false_iff.mp live)]
  split_ifs
  · obtain ⟨z, hz, hle⟩ := length_recvBuffer_readLines hy
      (((s.receive p chunk).1.client p).recvBuffer.length + 1)
    exact ⟨z, hz, hle.trans_lt hlt⟩
  · exact ⟨y, hy, hlt⟩

end Server

/-- An event leaves no receive buffer with two chunks. -/
theorem Reachable.length_recvBuffer_step {s : Server} (h : Reachable s) {e : Event}
    (hadm : s.Admits e) (hframed : ∀ p x, s.heap p = some x → x.Framed)
    (hs : ∀ p x, s.heap p = some x → x.recvBuffer.length < 2 * recvChunkSize) :
    ∀ p x, (s.step e).heap p = some x → x.recvBuffer.length < 2 * recvChunkSize := by
  intro p y hy
  cases h.inputOf_step hadm p y hy with
  | fresh hfresh =>
    rw [hfresh]
    show 0 < _
    decide
  | same hx hxy =>
    rw [Client.recvBuffer_of_input hxy.input]
    exact hs p _ hx
  | read he hfd hx live =>
    subst he
    obtain ⟨z, hz, hlt⟩ := Server.length_recvBuffer_handleClientRead hfd hx live
      ((hframed p _ hx).settled live) hadm
    rwa [← Option.some_inj.mp (hz.symm.trans hy)]

theorem length_recvBuffer_run (password : Str) (listenFd : Fd) {es : List Event}
    (hadm : (Server.start password listenFd).AdmitsAll es) :
    ∀ p x, ((Server.start password listenFd).run es).heap p = some x →
      x.recvBuffer.length < 2 * recvChunkSize := by
  have hnobody : ∀ {Q : Client → Prop} p x,
      (Server.start password listenFd).heap p = some x → Q x :=
    fun _ _ h => absurd h (Option.some_ne_none _).symm
  refine (run_induct (P := fun s => (∀ p x, s.heap p = some x → x.Framed)
      ∧ ∀ p x, s.heap p = some x → x.recvBuffer.length < 2 * recvChunkSize) ?_
    (.start password listenFd) ⟨hnobody, hnobody⟩ hadm).2
  intro s e h ⟨hframed, hs⟩ hadm
  exact ⟨h.framed_step hframed hadm, h.length_recvBuffer_step hadm hframed hs⟩

/-! ## All bounds -/

/-- After any events, and at any moment of the next ones, there are at most 512 connections and
at most 128 live ones from one address, and no more than 64 KiB wait to be sent to a client.
Between two events no receive buffer has more than 8191 bytes, a client that goes on has no
complete line in it, and the next chunk does not bring it over the limit either. -/
theorem resource_bounds (password : Str) (listenFd : Fd) {es : List Event}
    (hadm : (Server.start password listenFd).AdmitsAll es) :
    (∀ s, Moves ((Server.start password listenFd).run es) s →
      s.clients.size ≤ 512 ∧ (∀ ip, s.aliveFrom ip ≤ 128)
        ∧ ∀ p x, s.heap p = some x → x.sendBuffer.length ≤ 65536)
    ∧ ∀ p x, ((Server.start password listenFd).run es).heap p = some x →
      x.recvBuffer.length ≤ 8191
        ∧ (x.stopped = false → lf ∉ x.recvBuffer
          ∧ ∀ chunk y, IsChunk chunk →
            (((Server.start password listenFd).run es).receive p chunk).1.heap p = some y →
            y.recvBuffer.length ≤ 8191) := by
  refine ⟨fun s hmoves => ?_, fun p x hx => ?_⟩
  · have hreach : Reachable s := ((Reachable.start password listenFd).run hadm).moves hmoves
    exact ⟨hreach.capped.total, hreach.capped.perIp, fun p x hx => (hreach.streamed hx).length_le⟩
  · have hlt := length_recvBuffer_run password listenFd hadm p x hx
    refine ⟨Nat.le_of_lt_succ hlt, fun live => ?_⟩
    have hsettled := (framed_run password listenFd hadm p x hx).settled live
    refine ⟨hsettled.incomplete, fun chunk y hchunk hy => ?_⟩
    obtain ⟨z, hz, hzlt⟩ := Server.length_recvBuffer_receive hx hsettled hchunk
    rw [← Option.some_inj.mp (hz.symm.trans hy)]
    exact Nat.le_of_lt_succ hzlt

theorem resource_bounds_sample :
    (sample.clients.size = 2 ∧ sample.aliveFrom (lit "127.0.0.1") = 1)
      ∧ sample.clients.size ≤ 512 ∧ sample.aliveFrom (lit "127.0.0.1") ≤ 128
      ∧ ∃ x, sample.heap 0 = some x ∧ x.recvBuffer.length ≤ 8191 ∧ lf ∉ x.recvBuffer := by
  obtain ⟨hadm, hsize, halive, hfound⟩ : (Server.start (lit "pw") 3).AdmitsAll sampleEvents
      ∧ sample.clients.size = 2 ∧ sample.aliveFrom (lit "127.0.0.1") = 1
      ∧ (sample.heap 0).map Client.stopped = some false := by decide +kernel
  obtain ⟨x, hx, live⟩ := Option.map_eq_some_iff.mp hfound
  obtain ⟨hany, hclients⟩ := resource_bounds (lit "pw") 3 hadm
  rw [← sample] at hany hclients
  obtain ⟨htotal, hperIp, _⟩ := hany sample .refl
  obtain ⟨hrecv, hgoing⟩ := hclients 0 x hx
  exact ⟨⟨hsize, halive⟩, htotal, hperIp _, x, hx, hrecv, (hgoing live).1⟩

/-! ## Unterminated input -/

namespace Server

section Residue

variable {s : Server} {p : Ptr} {x : Client}

/-- What the extraction loop leaves of a client that goes on is what stands behind the last line
feed. -/
theorem recvBuffer_readLines {fuel : ℕ} (hx : s.heap p = some x) (hfuel : x.recvBuffer.length < fuel) :
    ∃ y, (readLines fuel s p).heap p = some y
      ∧ (y.stopped = false → y.recvBuffer = residue lf x.recvBuffer) := by
  induction fuel generalizing s x with
  | zero => exact absurd hfuel (Nat.not_lt_zero _)
  | succ fuel ih =>
    rw [readLines]
    rcases readLine_cases hx with ⟨hnone, hread⟩ | ⟨l, t, reason, _, _, _, hread⟩
      | ⟨l, t, y, s₁, hbuffer, hl, _, _, hy, hinput, hread⟩
    · rw [hread]
      exact ⟨x, hx, fun _ => (residue_of_not_mem hnone).symm⟩
    · rw [hread]
      dsimp only
      rw [if_neg Bool.false_ne_true, heap_modify_self, hx]
      refine ⟨_, rfl, fun h => ?_⟩
      exact absurd ((Client.stopped_markDead ..).symm.trans h) (by decide)
    · rw [hread]
      dsimp only
      split_ifs with hgoing
      · have hrecv : y.recvBuffer = t := congrArg Prod.fst hinput
        rw [hbuffer, List.length_append, List.length_cons] at hfuel
        obtain ⟨z, hz, hresidue⟩ := ih hy (by rw [hrecv]; omega)
        refine ⟨z, hz, fun h => ?_⟩
        rw [hresidue h, hrecv, hbuffer, residue_append_cons hl]
      · refine ⟨y, hy, fun h => ?_⟩
        rw [h] at hgoing
        exact absurd rfl hgoing

/-- After a read, a client that goes on has the bytes behind the last line feed in its buffer,
and if there was no line feed these are fewer than 512. -/
theorem recvBuffer_handleClientRead {fd : Fd} (hfd : s.clients.find? fd = some p)
    (hx : s.heap p = some x) (live : x.stopped = false) (hsettled : x.Settled) {chunk : Str}
    (hchunk : IsChunk chunk) :
    ∃ y, (s.handleClientRead fd (.data chunk)).heap p = some y
      ∧ (y.stopped = false → y.recvBuffer = residue lf (x.recvBuffer ++ chunk)
        ∧ (lf ∈ x.recvBuffer ++ chunk ∨ (x.recvBuffer ++ chunk).length < maxIrcMessageSize)) := by
  have hlive : ¬ (x.dead || x.closing) = true := Bool.eq_false_iff.mp live
  rw [handleClientRead, getClientByFd, hfd]
  dsimp only
  rw [client_of_heap hx, if_neg hlive]
  rcases receive_cases hx hsettled hchunk with ⟨_, _, reason, hreceive⟩ | ⟨hshort, hreceive⟩
  · rw [hreceive]
    dsimp only
    rw [if_neg Bool.false_ne_true, heap_modify_self, hx]
    refine ⟨_, rfl, fun h => ?_⟩
    exact absurd ((Client.stopped_markDead ..).symm.trans h) (by decide)
  · rw [hreceive]
    dsimp only
    have hx' := heap_extracted hx (x.append chunk)
    rw [if_pos rfl, client_of_heap hx']
    obtain ⟨y, hy, hresidue⟩ := recvBuffer_readLines hx' (Nat.lt_succ_self _)
    exact ⟨y, hy, fun h => ⟨hresidue h, hshort⟩⟩

end Residue

/-- Where a read completes a line, fewer than 512 bytes are left behind the last line feed. -/
def LeavesShort (s : Server) : Event → Prop
  | .read fd (.data chunk) =>
    match s.clients.find? fd with
    | none => True
    | some p =>
      lf ∈ (s.client p).recvBuffer ++ chunk →
        (residue lf ((s.client p).recvBuffer ++ chunk)).length < maxIrcMessageSize
  | _ => True

/-- Every read of a list of events leaves a short rest. -/
def LeavesShortAll (s : Server) : List Event → Prop
  | [] => True
  | e :: es => s.LeavesShort e ∧ (s.step e).LeavesShortAll es

instance decidableLeavesShort (s : Server) : (e : Event) → Decidable (s.LeavesShort e)
  | .read fd (.data chunk) =>
    match h : s.clients.find? fd with
    | none => .isTrue (by simp only [LeavesShort, h])
    | some p =>
      decidable_of_iff (lf ∈ (s.client p).recvBuffer ++ chunk →
        (residue lf ((s.client p).recvBuffer ++ chunk)).length < maxIrcMessageSize)
        (by simp only [LeavesShort, h])
  | .read _ .eof | .read _ .retry | .read _ (.error _) => .isTrue trivial
  | .accept _ | .write .. | .pollError _ | .reap | .refresh => .isTrue trivial

instance decidableLeavesShortAll : (s : Server) → (es : List Event) → Decidable (s.LeavesShortAll es)
  | _, [] => .isTrue trivial
  | s, e :: es =>
    have := decidableLeavesShortAll (s.step e) es
    inferInstanceAs (Decidable (_ ∧ _))

end Server

/-- A client that goes on has fewer than 512 bytes of an unterminated line. -/
def Server.ShortRests (s : Server) : Prop :=
  ∀ p x, s.heap p = some x → x.stopped = false → x.recvBuffer.length < maxIrcMessageSize

theorem Reachable.shortRests_step {s : Server} (h : Reachable s) {e : Event} (hadm : s.Admits e)
    (hframed : ∀ p x, s.heap p = some x → x.Framed) (hshort : s.LeavesShort e) (hs : s.ShortRests) :
    (s.step e).ShortRests := by
  intro p y hy hgoing
  cases h.inputOf_step hadm p y hy with
  | fresh hfresh =>
    rw [hfresh]
    show 0 < _
    decide
  | same hx hxy =>
    rw [Client.recvBuffer_of_input hxy.input]
    refine hs p _ hx ?_
    by_contra hstopped
    rw [Bool.not_eq_false] at hstopped
    exact absurd ((hxy.stopped hstopped).symm.trans hgoing) (by decide)
  | read he hfd hx live =>
    subst he
    obtain ⟨z, hz, hrest⟩ := Server.recvBuffer_handleClientRead hfd hx live
      ((hframed p _ hx).settled live) hadm
    obtain rfl := Option.some_inj.mp (hz.symm.trans hy)
    obtain ⟨hresidue, hends⟩ := hrest hgoing
    rw [Server.LeavesShort, hfd] at hshort
    dsimp only at hshort
    rw [Server.client_of_heap hx] at hshort
    rw [hresidue]
    rcases hends with hlf | hlength
    · exact hshort hlf
    · exact (length_residue_le lf _).trans_lt hlength

theorem Reachable.shortRests_run {s : Server} (h : Reachable s)
    (hframed : ∀ p x, s.heap p = some x → x.Framed) (hs : s.ShortRests) {es : List Event}
    (hadm : s.AdmitsAll es) (hshort : s.LeavesShortAll es) : (s.run es).ShortRests := by
  induction es generalizing s with
  | nil => exact hs
  | cons e es ih =>
    exact ih (h.moves (h.moves_step hadm.1)) (h.framed_step hframed hadm.1)
      (h.shortRests_step hadm.1 hframed hshort.1 hs) hadm.2 hshort.2

/-- As long as every chunk that completes a line leaves fewer than 512 bytes behind it, a client
that goes on never has a line feed or 512 bytes in its buffer. After a read that it survives it
has none of the one, and fewer of the other exactly if the chunk is such. -/
theorem unterminated_input_bounded (password : Str) (listenFd : Fd) {es : List Event}
    (hadm : (Server.start password listenFd).AdmitsAll es) :
    ((Server.start password listenFd).LeavesShortAll es →
      ∀ p x, ((Server.start password listenFd).run es).heap p = some x → x.stopped = false →
        lf ∉ x.recvBuffer ∧ x.recvBuffer.length < 512)
    ∧ ∀ fd chunk p x y, IsChunk chunk →
      ((Server.start password listenFd).run es).clients.find? fd = some p →
      ((Server.start password listenFd).run es).heap p = some x → x.stopped = false →
      (((Server.start password listenFd).run es).handleClientRead fd (.data chunk)).heap p = some y →
      y.stopped = false →
        lf ∉ y.recvBuffer
        ∧ (y.recvBuffer.length < 512
          ↔ ((Server.start password listenFd).run es).LeavesShort (.read fd (.data chunk))) := by
  have hframed := framed_run password listenFd hadm
  constructor
  · intro hshort p x hx live
    have hstart : (Server.start password listenFd).ShortRests :=
      fun _ _ h => absurd h (Option.some_ne_none _).symm
    refine ⟨((hframed p x hx).settled live).incomplete, ?_⟩
    exact (Reachable.start password listenFd).shortRests_run
      (fun _ _ h => absurd h (Option.some_ne_none _).symm) hstart hadm hshort p x hx live
  · intro fd chunk p x y hchunk hfd hx live hy hgoing
    obtain ⟨z, hz, hrest⟩ := Server.recvBuffer_handleClientRead hfd hx live
      ((hframed p x hx).settled live) hchunk
    obtain rfl := Option.some_inj.mp (hz.symm.trans hy)
    obtain ⟨hresidue, hends⟩ := hrest hgoing
    -- with no line feed in the buffer and the chunk, `appendToRecvBuffer` has made its own check
    rw [hresidue, Server.LeavesShort, hfd]
    dsimp only
    rw [Server.client_of_heap hx]
    refine ⟨not_mem_residue lf _, fun h _ => h, fun h => ?_⟩
    rcases hends with hlf | hlength
    · exact h hlf
    · exact (length_residue_le lf _).trans_lt hlength

/-- One line and six hundred bytes without an end in a chunk. -/
def overfull : List Event :=
  [.accept (.connection 4 true (some (lit "127.0.0.1")) (some 0)),
    .read 4 (.data (lit "CAP\r\n" ++ List.replicate 600 (ch 'x')))]

theorem unterminated_input_bounded_sample :
    (Server.start (lit "pw") 3).LeavesShortAll sampleEvents
      ∧ ∃ x, sample.heap 0 = some x ∧ x.stopped = false ∧ lf ∉ x.recvBuffer
        ∧ x.recvBuffer.length < 512 := by
  obtain ⟨hadm, hshort, hgoing⟩ : (Server.start (lit "pw") 3).AdmitsAll sampleEvents
      ∧ (Server.start (lit "pw") 3).LeavesShortAll sampleEvents
      ∧ (sample.heap 0).map Client.stopped = some false := by
    decide +kernel
  obtain ⟨x, hx, live⟩ := Option.map_eq_some_iff.mp hgoing
  have hbounded := (unterminated_input_bounded (lit "pw") 3 hadm).1 hshort
  rw [← sample] at hbounded
  exact ⟨hshort, x, hx, live, hbounded 0 x hx live⟩

/-- The client goes on with six hundred bytes of one line in its buffer. -/
theorem unterminated_line_kept :
    (Server.start (lit "pw") 3).AdmitsAll overfull
      ∧ (((Server.start (lit "pw") 3).run overfull).heap 0).map
          (fun x => (x.stopped, decide (lf ∈ x.recvBuffer), x.recvBuffer.length))
        = some (false, false, 600) := by
  decide +kernel

end FtIrc
