import FtIrc.Sources
import FtIrc.Lib.Records

/-!
# The output stream

`Output` lists what can happen to the output side of a client, in any order: messages
offered to it, `send` taking some of its bytes or failing, the transitions to closing and to
dead. Over every interleaving the bytes the kernel has taken and the bytes still buffered
make up the accepted messages, which cutting at line feeds gives back. Every client of the
server lives such an interleaving (`Reachable.outputs`).
-/

namespace FtIrc

open Bytes Relation

/-! ## The system -/

namespace Client

/-- The part of `handleClientWrite` behind the lookup of the client. -/
def write (x : Client) (result : SendResult) : Client :=
  if x.dead then x
  else if x.sendBuffer.isEmpty then x
  else
    match result with
    | .retry => x
    | .error text => x.socketError (lit "send() failed: " ++ text)
    | .sent bytesSent =>
      if bytesSent = 0 then x.socketError (lit "send() returned zero bytes")
      else x.consumeSendBuffer bytesSent

/-- `send` takes at most what it is offered. -/
def CanSend (x : Client) : SendResult → Prop
  | .sent n => n ≤ x.sendBuffer.length
  | _ => True

/-- Everything the output side depends on is the same. -/
structure SameOutput (x y : Client) : Prop where
  sendBuffer : y.sendBuffer = x.sendBuffer
  dead : y.dead = x.dead
  closing : y.closing = x.closing
  accepted : y.trace.accepted = x.trace.accepted
  delivered : y.trace.delivered = x.trace.delivered
  socketFailed : y.trace.socketFailed = x.trace.socketFailed

/-- One step on the output side of a client. -/
inductive Output : Client → Client → Prop
  | offered (x : Client) (message : Str) : Output x (x.sendMessage message)
  | written {x : Client} {result : SendResult} (h : x.CanSend result) : Output x (x.write result)
  | failed (x : Client) (reason : Str) : Output x (x.socketError reason)
  | closed (x : Client) (reason : Str) : Output x (x.markClosing reason)
  | killed (x : Client) (reason : Str) : Output x (x.markDead reason)
  | elsewhere {x y : Client} (h : x.SameOutput y) : Output x y

/-- An interleaving of steps. -/
abbrev Outputs : Client → Client → Prop := ReflTransGen Output

/-! ## The invariant -/

/-- The output side of a client fits together. -/
structure Streamed (x : Client) : Prop where
  stream : x.trace.delivered ++ x.sendBuffer = x.trace.accepted.flatten
  length_le : x.sendBuffer.length ≤ maxSendBuffer
  valid : ∀ message ∈ x.trace.accepted, isValidOutboundMessage message = true

theorem SameOutput.streamed {x y : Client} (h : x.SameOutput y) (hx : x.Streamed) : y.Streamed where
  stream := by
    rw [h.delivered, h.sendBuffer, h.accepted]
    exact hx.stream
  length_le := by
    rw [h.sendBuffer]
    exact hx.length_le
  valid := by
    rw [h.accepted]
    exact hx.valid

/-- Neither transition touches the output. -/
theorem Streamed.markDead {x : Client} (hx : x.Streamed) (reason : Str) :
    (x.markDead reason).Streamed := by
  unfold Client.markDead
  split_ifs
  · exact hx
  · exact ⟨hx.stream, hx.length_le, hx.valid⟩
  · exact ⟨hx.stream, hx.length_le, hx.valid⟩

theorem Streamed.markClosing {x : Client} (hx : x.Streamed) (reason : Str) :
    (x.markClosing reason).Streamed := by
  unfold Client.markClosing
  split_ifs
  · exact hx
  · exact ⟨hx.stream, hx.length_le, hx.valid⟩

theorem Streamed.socketError {x : Client} (hx : x.Streamed) (reason : Str) :
    (x.socketError reason).Streamed :=
  Streamed.markDead (x := { x with trace.socketFailed := true })
    ⟨hx.stream, hx.length_le, hx.valid⟩ reason

theorem Streamed.sendMessage {x : Client} (hx : x.Streamed) (message : Str) :
    (x.sendMessage message).Streamed := by
  have hoffered : Streamed { x with trace.offered := x.trace.offered ++ [message] } :=
    ⟨hx.stream, hx.length_le, hx.valid⟩
  unfold Client.sendMessage
  dsimp only
  split_ifs with hstopped hvalid hfits
  · exact hoffered
  · exact hoffered
  · exact hoffered.markDead _
  · simp only [Bool.or_eq_true, decide_eq_true_eq, not_or, not_lt] at hfits
    refine ⟨?_, ?_, fun m hm => ?_⟩
    · rw [List.flatten_append, ← hx.stream, List.flatten_singleton, List.append_assoc]
    · rw [List.length_append]
      omega
    · rcases List.mem_append.mp hm with hm | hm
      · exact hx.valid m hm
      · rw [List.mem_singleton.mp hm]
        simpa using hvalid

/-- Within what it was offered, `send` takes bytes off the front. -/
theorem consumeSendBuffer_eq {x : Client} {n : ℕ} (h : n ≤ x.sendBuffer.length) :
    x.consumeSendBuffer n = { x with
      sendBuffer := x.sendBuffer.drop n
      trace.delivered := x.trace.delivered ++ x.sendBuffer.take n } :=
  if_neg (Nat.not_lt.mpr h)

theorem Streamed.consumeSendBuffer {x : Client} (hx : x.Streamed) {n : ℕ}
    (h : n ≤ x.sendBuffer.length) : (x.consumeSendBuffer n).Streamed := by
  rw [consumeSendBuffer_eq h]
  refine ⟨?_, ?_, hx.valid⟩
  · show x.trace.delivered ++ x.sendBuffer.take n ++ x.sendBuffer.drop n = _
    rw [List.append_assoc, List.take_append_drop]
    exact hx.stream
  · show (x.sendBuffer.drop n).length ≤ _
    rw [List.length_drop]
    have hle := hx.length_le
    omega

theorem Streamed.write {x : Client} (hx : x.Streamed) {result : SendResult}
    (h : x.CanSend result) : (x.write result).Streamed := by
  unfold Client.write
  split_ifs
  · exact hx
  · exact hx
  cases result with
  | retry => exact hx
  | error text => exact hx.socketError _
  | sent n =>
    dsimp only
    split_ifs
    · exact hx.socketError _
    · exact hx.consumeSendBuffer h

theorem Output.streamed {x y : Client} (h : x.Output y) (hx : x.Streamed) : y.Streamed := by
  cases h with
  | offered => exact hx.sendMessage _
  | written h => exact hx.write h
  | failed => exact hx.socketError _
  | closed => exact hx.markClosing _
  | killed => exact hx.markDead _
  | elsewhere h => exact h.streamed hx

/-- The invariant holds over every interleaving. -/
theorem Outputs.streamed {x y : Client} (h : x.Outputs y) (hx : x.Streamed) : y.Streamed :=
  h.preserves (fun _ _ hstep => hstep.streamed) hx

theorem streamed_fresh (fd : Fd) (ip : Str) : Streamed { fd, ip } :=
  ⟨rfl, Nat.zero_le _, fun _ h => absurd h List.not_mem_nil⟩

/-! ## The records of the stream -/

/-- A valid message ends in CRLF and has no other control byte of the framing. -/
theorem exists_of_isValidOutboundMessage {m : Str} (h : isValidOutboundMessage m = true) :
    m.length ≤ maxIrcMessageSize ∧ ∃ body, m = body ++ [cr, lf] ∧ nul ∉ body ∧ cr ∉ body ∧ lf ∉ body := by
  unfold isValidOutboundMessage at h
  split_ifs at h with hsize hend
  simp only [Bool.or_eq_true, decide_eq_true_eq, not_or, not_lt] at hsize
  simp only [Bool.or_eq_true, decide_eq_true_eq, not_or, not_lt, bne_iff_ne, ne_eq, not_not] at hend
  refine ⟨hsize.2, m.take (m.length - 2), ?_, ?_⟩
  · rw [← hend.2, List.take_append_drop]
  · simp only [List.all_eq_true, Bool.and_eq_true, bne_iff_ne, ne_eq] at h
    exact ⟨fun hb => (h nul hb).1.1 rfl, fun hb => (h cr hb).1.2 rfl, fun hb => (h lf hb).2 rfl⟩

/-- A valid message is one record. -/
theorem record_of_isValidOutboundMessage {m : Str} (h : isValidOutboundMessage m = true) :
    ∃ l, m = l ++ [lf] ∧ lf ∉ l := by
  obtain ⟨_, body, rfl, _, _, hlf⟩ := exists_of_isValidOutboundMessage h
  refine ⟨body ++ [cr], by rw [List.append_assoc]; rfl, fun hb => ?_⟩
  rcases List.mem_append.mp hb with hb | hb
  · exact hlf hb
  · exact absurd hb (by decide)

/-- Cutting the stream at line feeds gives back the messages. -/
theorem Streamed.records_eq {x : Client} (hx : x.Streamed) :
    records lf (x.trace.delivered ++ x.sendBuffer) = x.trace.accepted
      ∧ residue lf (x.trace.delivered ++ x.sendBuffer) = [] := by
  rw [hx.stream]
  exact records_flatten fun m hm => record_of_isValidOutboundMessage (hx.valid m hm)

/-! ## The clients of the server -/

theorem sameOutput_appendToRecvBuffer (x : Client) (data : Str) :
    x.SameOutput (x.appendToRecvBuffer data).1 := by
  unfold appendToRecvBuffer
  dsimp only
  split_ifs <;> exact ⟨rfl, rfl, rfl, rfl, rfl, rfl⟩

/-- What `extractLine` does to the output side: nothing, or it kills the client. -/
theorem outputs_extractLine {x x' : Client} {line : Option Str}
    (h : x.extractLine = (x', line)) : x.Outputs x' := by
  have hcut : ∀ after, x.SameOutput { x with recvBuffer := after } :=
    fun _ => ⟨rfl, rfl, rfl, rfl, rfl, rfl⟩
  have hx' : x' = x.extractLine.1 := by rw [h]
  rw [hx', extractLine]
  dsimp only
  split
  · exact .refl
  · split_ifs
    · exact .tail (.single (.elsewhere (hcut _))) (.killed ..)
    · exact .tail (.single (.elsewhere (hcut _))) (.killed ..)
    · exact .single (.elsewhere (hcut _))

theorem Io.outputs {x x' : Client} (h : x.Io x') : x.Outputs x' := by
  cases h with
  | received => exact .single (.elsewhere (sameOutput_appendToRecvBuffer ..))
  | flooded => exact .tail (.single (.elsewhere (sameOutput_appendToRecvBuffer ..))) (.killed ..)
  | rejected _ h => exact outputs_extractLine h
  | eof => exact .single (.closed ..)
  | failed reason => exact .single (.failed x reason)
  | @sent n alive hn =>
    by_cases hnone : n = 0 ∨ x.sendBuffer = []
    · -- no byte is taken
      refine .single (.elsewhere ?_)
      have hdrop : x.sendBuffer.drop n = x.sendBuffer ∧ x.sendBuffer.take n = [] := by
        rcases hnone with rfl | hnil
        · exact ⟨List.drop_zero, List.take_zero⟩
        · rw [hnil]
          exact ⟨List.drop_nil, List.take_nil⟩
      rw [consumeSendBuffer_eq hn, hdrop.1, hdrop.2, List.append_nil]
      exact ⟨rfl, rfl, rfl, rfl, rfl, rfl⟩
    · have hwrite : x.write (.sent n) = x.consumeSendBuffer n := by
        simp only [not_or] at hnone
        simp [write, alive, hnone.1, hnone.2]
      rw [← hwrite]
      exact .single (.written hn)
  | retired => exact .single (.killed ..)

end Client

theorem OwnUpdate.outputs {c : Ptr} {m : Message} {s : Server} {x x' : Client}
    (h : OwnUpdate c m s x x') : x.Outputs x' := by
  have hsame : ∀ {y : Client}, x.SameOutput y → x.Outputs y := fun h => .single (.elsewhere h)
  cases h with
  | authenticate => exact hsame ⟨rfl, rfl, rfl, rfl, rfl, rfl⟩
  | failPass =>
    have hcounted : x.Outputs x.recordFailedPassAttempt := by
      unfold Client.recordFailedPassAttempt
      split_ifs
      · exact hsame ⟨rfl, rfl, rfl, rfl, rfl, rfl⟩
      · exact .refl
    unfold Client.failPass
    dsimp only
    split_ifs
    · exact (hcounted.tail (.offered ..)).tail (.closed ..)
    · exact hcounted.tail (.offered ..)
  | @takeNickname n =>
    have hset : x.Outputs { x with nickname := n, nickSet := true } :=
      hsame ⟨rfl, rfl, rfl, rfl, rfl, rfl⟩
    unfold Client.takeNickname
    dsimp only
    split_ifs
    · exact hset.tail (.offered ..)
    · exact hset
  | @takeUsername u =>
    have hset : x.Outputs { x with username := u, userSet := true } :=
      hsame ⟨rfl, rfl, rfl, rfl, rfl, rfl⟩
    unfold Client.takeUsername
    dsimp only
    split_ifs
    · exact hset.tail (.offered ..)
    · exact hset
  | quit => exact .single (.closed ..)

/-- A client of the server has gone through such an interleaving from its connection on. -/
theorem Reachable.outputs {s : Server} (h : Reachable s) :
    ∀ p x, s.heap p = some x → ∃ fd ip, Client.Outputs { fd, ip } x := by
  apply h.forall_clients (Q := fun x => ∃ fd ip, Client.Outputs { fd, ip } x)
  intro s s' _ hs
  have hon : ∀ {x y : Client}, (∃ fd ip, Client.Outputs { fd, ip } x) → x.Outputs y →
      ∃ fd ip, Client.Outputs { fd, ip } y :=
    fun ⟨fd, ip, hx⟩ hxy => ⟨fd, ip, hx.trans hxy⟩
  constructor
  · exact fun _ fd ip _ => ⟨fd, ip, .refl⟩
  · exact fun p x x' hx h => hon (hs p x hx) h.outputs
  · exact fun p x x' line hx _ h => hon (hs p x hx) (Client.outputs_extractLine h)
  · exact fun p x text _ hx => hon hx (.single (.offered x text))
  · intro p x x₁ x₂ line hx _ h _ hupdate
    exact hon (hon (hs p x hx) (Client.outputs_extractLine h)) hupdate.outputs
  · exact fun p x x₁ y line _ _ _ _ hy =>
      hon hy (.single (.elsewhere ⟨rfl, rfl, rfl, rfl, rfl, rfl⟩))

theorem Reachable.streamed {s : Server} (h : Reachable s) {p : Ptr} {x : Client}
    (hx : s.heap p = some x) : x.Streamed := by
  obtain ⟨fd, ip, houtputs⟩ := h.outputs p x hx
  exact houtputs.streamed (Client.streamed_fresh fd ip)

/-! ## Clients that are closing -/

namespace Client

/-- A client that was closing when it died, not of its socket, has no output left. -/
def Drained (x : Client) : Prop :=
  x.closing = true → x.dead = true → x.trace.socketFailed = false → x.sendBuffer = []

theorem SameOutput.drained {x y : Client} (h : x.SameOutput y) (hx : x.Drained) : y.Drained := by
  unfold Drained
  rw [h.closing, h.dead, h.socketFailed, h.sendBuffer]
  exact hx

/-- Dying is in order without output, with a failed socket, or when the client is not closing. -/
theorem drained_markDead {x : Client} (reason : Str)
    (h : x.closing = true → x.trace.socketFailed = false → x.sendBuffer = []) :
    (x.markDead reason).Drained := by
  unfold markDead
  split_ifs
  · exact fun hclosing _ hfailed => h hclosing hfailed
  · exact fun hclosing _ hfailed => h hclosing hfailed
  · exact fun hclosing _ hfailed => h hclosing hfailed

theorem Drained.markClosing {x : Client} (hx : x.Drained) (reason : Str) :
    (x.markClosing reason).Drained := by
  unfold Client.markClosing
  split_ifs with hstopped
  · exact hx
  · intro _ hdead _
    -- it was not dead before, and is not dead now
    exact absurd (by rw [show x.dead = true from hdead]; rfl) hstopped

theorem Drained.sendMessage {x : Client} (hx : x.Drained) (message : Str) :
    (x.sendMessage message).Drained := by
  unfold Client.sendMessage
  dsimp only
  split_ifs with hstopped hvalid hfits
  · exact hx
  · exact hx
  · refine drained_markDead _ fun hclosing _ => absurd ?_ hstopped
    rw [show x.closing = true from hclosing, Bool.or_true]
  · intro hclosing
    exact absurd (by rw [show x.closing = true from hclosing, Bool.or_true]) hstopped

theorem closing_of_live {x : Client} (live : x.stopped = false) : x.closing = false := by
  rw [stopped, Bool.or_eq_false_iff] at live
  exact live.2

/-- A client that goes on is not closing, whatever happens to it next. -/
theorem drained_of_not_closing {x : Client} (h : x.closing = false) : x.Drained :=
  fun hclosing => absurd (h.symm.trans hclosing) (by decide)

theorem closing_extractLine {x x' : Client} {line : Option Str} (h : x.extractLine = (x', line)) :
    x'.closing = x.closing := by
  have hdead : ∀ (y : Client) (reason : Str), (y.markDead reason).closing = y.closing := by
    intro y reason
    unfold markDead
    split_ifs <;> rfl
  have hx' : x' = x.extractLine.1 := by rw [h]
  rw [hx', extractLine]
  dsimp only
  split
  · rfl
  · split_ifs
    · rw [hdead]
    · rw [hdead]
    · rfl

theorem Io.drained {x x' : Client} (h : x.Io x') (hx : x.Drained) : x'.Drained := by
  cases h with
  | received => exact (sameOutput_appendToRecvBuffer ..).drained hx
  | @flooded bytes live =>
    refine drained_markDead _ fun hclosing => ?_
    rw [(x.sameOutput_appendToRecvBuffer bytes).closing, closing_of_live live] at hclosing
    cases hclosing
  | rejected live h =>
    exact drained_of_not_closing ((closing_extractLine h).trans (closing_of_live live))
  | eof => exact hx.markClosing _
  | failed => exact drained_markDead _ fun _ hfailed => nomatch hfailed
  | @sent n alive hn =>
    rw [consumeSendBuffer_eq hn]
    exact fun _ hdead => absurd (alive.symm.trans hdead) (by decide)
  | retired _ hflushed =>
    refine drained_markDead _ fun _ _ => ?_
    simpa [hasPendingOutput] using hflushed

end Client

theorem OwnUpdate.drained {c : Ptr} {m : Message} {s : Server} {x x' : Client}
    (h : OwnUpdate c m s x x') (hx : x.Drained) : x'.Drained := by
  cases h with
  | authenticate => exact hx
  | failPass =>
    have hcounted : x.recordFailedPassAttempt.Drained := by
      unfold Client.recordFailedPassAttempt
      split_ifs <;> exact hx
    unfold Client.failPass
    dsimp only
    split_ifs
    · exact (hcounted.sendMessage _).markClosing _
    · exact hcounted.sendMessage _
  | @takeNickname n =>
    have hset : Client.Drained { x with nickname := n, nickSet := true } := hx
    unfold Client.takeNickname
    dsimp only
    split_ifs
    · exact hset.sendMessage _
    · exact hset
  | @takeUsername u =>
    have hset : Client.Drained { x with username := u, userSet := true } := hx
    unfold Client.takeUsername
    dsimp only
    split_ifs
    · exact hset.sendMessage _
    · exact hset
  | quit => exact hx.markClosing _

theorem Reachable.drained {s : Server} (h : Reachable s) :
    ∀ p x, s.heap p = some x → x.Drained := by
  apply h.forall_clients (Q := Client.Drained)
  intro s s' _ hs
  have hextracted : ∀ {x x' : Client} {line : Str}, x.stopped = false →
      x.extractLine = (x', some line) → x'.Drained := fun live h =>
    Client.drained_of_not_closing ((Client.closing_extractLine h).trans (Client.closing_of_live live))
  constructor
  · exact fun _ _ _ _ => Client.drained_of_not_closing rfl
  · exact fun p x x' hx h => h.drained (hs p x hx)
  · exact fun p x x' line hx live h => hextracted live h
  · exact fun p x text _ hx => hx.sendMessage text
  · exact fun p x x₁ x₂ line _ live h _ hupdate => hupdate.drained (hextracted live h)
  · exact fun p x x₁ y line _ _ _ _ hy => hy

/-! ## The reaper -/

namespace Server

variable {s : Server} {fd : Fd} {p : Ptr} {x : Client}

/-- `handleClientWrite` is `Client.write` on the object behind the descriptor. -/
theorem handleClientWrite_eq (hfd : s.clients.find? fd = some p) (hx : s.heap p = some x)
    (result : SendResult) :
    s.handleClientWrite fd result = s.modify p fun _ => x.write result := by
  have hsame : ∀ {y : Client}, y = x → s = s.modify p fun _ => y :=
    fun hy => (modify_id hx hy).symm
  rw [handleClientWrite, getClientByFd, hfd]
  dsimp only
  rw [client_of_heap hx]
  unfold Client.write
  split_ifs
  · exact hsame rfl
  · exact hsame rfl
  cases result with
  | retry => exact hsame rfl
  | error text => exact modify_eq _ hx
  | sent n =>
    dsimp only
    split_ifs
    · exact modify_eq _ hx
    · exact modify_eq _ hx

/-- The first loop of the reaper passes over a client with output. -/
theorem heap_retire (hx : s.heap p = some x) (hpending : x.hasPendingOutput = true) (fd' : Fd) :
    (s.retire fd').heap p = some x ∧ (s.retire fd').clients = s.clients := by
  unfold retire
  split
  · exact ⟨hx, rfl⟩
  next q hq =>
  by_cases hqp : p = q
  · subst hqp
    rw [client_of_heap hx, hpending, Bool.not_true, Bool.and_false, if_neg Bool.false_ne_true]
    exact ⟨hx, rfl⟩
  · split_ifs
    · rw [heap_modify_ne s _ hqp]
      exact ⟨hx, rfl⟩
    · exact ⟨hx, rfl⟩

theorem heap_retireAll (hx : s.heap p = some x) (hpending : x.hasPendingOutput = true)
    (fds : List Fd) :
    (fds.foldl retire s).heap p = some x ∧ (fds.foldl retire s).clients = s.clients := by
  induction fds generalizing s with
  | nil => exact ⟨hx, rfl⟩
  | cons fd' fds ih =>
    obtain ⟨hone, hclients⟩ := heap_retire hx hpending fd'
    obtain ⟨hrest, hclients'⟩ := ih hone
    exact ⟨hrest, hclients'.trans hclients⟩

theorem clients_disconnectClient (fd' : Fd) (hne : fd ≠ fd') :
    (s.disconnectClient fd').clients.find? fd = s.clients.find? fd := by
  unfold disconnectClient
  split
  · rfl
  next q _ =>
  have hannounce : (s.announceQuit q).clients = s.clients := by
    unfold announceQuit
    split_ifs
    · exact clients_sendAll ..
    · rfl
  show ((s.announceQuit q).clients.erase fd').find? fd = _
  rw [hannounce, OrdMap.find?_erase, if_neg hne]

theorem clients_disconnectAll (fds : List Fd) (hfd : fd ∉ fds) :
    (fds.foldl disconnectClient s).clients.find? fd = s.clients.find? fd := by
  induction fds generalizing s with
  | nil => rfl
  | cons fd' fds ih =>
    rw [List.foldl_cons, ih fun h => hfd (List.mem_cons_of_mem _ h)]
    exact clients_disconnectClient fd' fun h => hfd (h ▸ List.mem_cons_self)

/-- The reaper keeps a client that has output and is not dead. -/
theorem clients_reapDeadClients (hfd : s.clients.find? fd = some p) (hx : s.heap p = some x)
    (hpending : x.hasPendingOutput = true) (halive : x.dead = false) :
    s.reapDeadClients.clients.find? fd = some p := by
  obtain ⟨hx', hclients⟩ := heap_retireAll hx hpending s.clients.keys
  unfold reapDeadClients
  dsimp only
  rw [clients_disconnectAll, hclients, hfd]
  intro hmem
  have hdead := (List.mem_filter.mp hmem).2
  rw [isDeadFd, hclients, hfd] at hdead
  dsimp only at hdead
  rw [client_of_heap hx', halive] at hdead
  cases hdead

end Server

/-! ## Output stream integrity -/

/-- Over every interleaving on a client's output side, what the kernel has taken and what is
buffered are the accepted messages in order, the buffer keeps its bound, a send of at most what
was offered does not kill the client, and cutting the stream at line feeds gives the messages
back, each a valid one. The clients of the server live such interleavings, their writes being
`Client.write`. One that is closing, its socket in order, leaves the server only when every
accepted byte has been delivered. -/
theorem output_stream_integrity :
    (∀ fd ip x, Client.Outputs { fd, ip } x →
      x.trace.delivered ++ x.sendBuffer = x.trace.accepted.flatten
      ∧ x.sendBuffer.length ≤ 65536
      ∧ (∀ n, 0 < n → n ≤ x.sendBuffer.length →
          (x.write (.sent n)).dead = x.dead ∧ (x.write (.sent n)).deadReason = x.deadReason
          ∧ (x.dead = false →
            (x.write (.sent n)).trace.delivered = x.trace.delivered ++ x.sendBuffer.take n
            ∧ (x.write (.sent n)).sendBuffer = x.sendBuffer.drop n))
      ∧ records lf (x.trace.delivered ++ x.sendBuffer) = x.trace.accepted
      ∧ residue lf (x.trace.delivered ++ x.sendBuffer) = []
      ∧ ∀ m ∈ x.trace.accepted, m.length ≤ 512
          ∧ ∃ body, m = body ++ [cr, lf] ∧ nul ∉ body ∧ cr ∉ body ∧ lf ∉ body)
    ∧ ∀ s, Reachable s → ∀ fd p x, s.clients.find? fd = some p → s.heap p = some x →
        (∃ fd ip, Client.Outputs { fd, ip } x)
        ∧ (∀ result, s.handleClientWrite fd result = s.modify p fun _ => x.write result)
        ∧ (x.closing = true → x.trace.socketFailed = false →
            s.reapDeadClients.clients.find? fd ≠ some p →
            x.trace.delivered = x.trace.accepted.flatten) := by
  refine ⟨fun fd ip x hx => ?_, fun s h fd p x hfd hx => ⟨h.outputs p x hx,
    Server.handleClientWrite_eq hfd hx, fun hclosing hfailed hgone => ?_⟩⟩
  · have hstreamed := hx.streamed (Client.streamed_fresh fd ip)
    refine ⟨hstreamed.stream, hstreamed.length_le, fun n hpos hn => ?_, hstreamed.records_eq.1,
      hstreamed.records_eq.2,
      fun m hm => Client.exists_of_isValidOutboundMessage (hstreamed.valid m hm)⟩
    unfold Client.write
    split_ifs with hdead hempty
    · exact ⟨rfl, rfl, fun halive => absurd (halive.symm.trans hdead) Bool.false_ne_true⟩
    · rw [List.isEmpty_iff.mp hempty] at hn
      exact absurd (Nat.lt_of_lt_of_le hpos hn) (Nat.lt_irrefl 0)
    · dsimp only
      rw [if_neg (Nat.ne_of_gt hpos), Client.consumeSendBuffer_eq hn]
      exact ⟨rfl, rfl, fun _ => ⟨rfl, rfl⟩⟩
  · have hempty : x.sendBuffer = [] := by
      by_contra hpending
      have halive : x.dead = false := by
        by_contra hdead
        exact hpending (h.drained p x hx hclosing (by simpa using hdead) hfailed)
      exact hgone (Server.clients_reapDeadClients hfd hx (by simpa [Client.hasPendingOutput] using hpending)
        halive)
    have hstream := (h.streamed hx).stream
    rwa [hempty, List.append_nil] at hstream

/-- Bob has quit, and the kernel takes what he is still owed. -/
def flushing : Server := quitting.run [.write 5 (.sent 164)]

theorem reachable_flushing : Reachable flushing := reachable_quitting.run (by decide +kernel)

/-- The reaper keeps Bob while he has output, and lets him go once it is delivered. -/
theorem output_stream_integrity_sample :
    (quitting.heap 1).map (fun x => (x.closing, x.sendBuffer.length)) = some (true, 164)
      ∧ quitting.reapDeadClients.clients.find? 5 = some 1
      ∧ flushing.reapDeadClients.clients.find? 5 = none
      ∧ ∀ x, flushing.heap 1 = some x → x.trace.delivered = x.trace.accepted.flatten := by
  obtain ⟨howed, hkept, hgone, hfound, hbob⟩ :
      (quitting.heap 1).map (fun x => (x.closing, x.sendBuffer.length)) = some (true, 164)
      ∧ quitting.reapDeadClients.clients.find? 5 = some 1
      ∧ flushing.reapDeadClients.clients.find? 5 = none
      ∧ flushing.clients.find? 5 = some 1
      ∧ (flushing.heap 1).map (fun x => (x.closing, x.trace.socketFailed)) = some (true, false) := by
    decide +kernel
  refine ⟨howed, hkept, hgone, fun x hx => ?_⟩
  rw [hx, Option.map_some, Option.some_inj, Prod.mk.injEq] at hbob
  exact (output_stream_integrity.2 flushing reachable_flushing 5 1 x hfound hx).2.2
    hbob.1 hbob.2 (by rw [hgone]; exact (Option.some_ne_none 1).symm)

end FtIrc
