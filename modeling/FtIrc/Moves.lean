import FtIrc.EventLoop
import FtIrc.CommandEffects

/-!
# Reachable states

The event loop cut into the moves a server state goes through: a connection, a change of
one client by its socket, a line, a disconnect, a pass over the poll entries. `Reachable`
closes the initial state under moves, so it contains the states between two events and
those inside one: between two lines of a chunk, between two disconnects of a reap. That
every event is a sequence of moves is `FtIrc.Events`.
-/

namespace FtIrc

open Bytes

/-- What `recv` may return: at least one byte and at most a buffer full. -/
def IsChunk (bytes : Str) : Prop := bytes ≠ [] ∧ bytes.length ≤ recvChunkSize

instance (bytes : Str) : Decidable (IsChunk bytes) := inferInstanceAs (Decidable (_ ∧ _))

/-- What the event loop does to one client outside `processLine`. -/
inductive Client.Io : Client → Client → Prop
  | received {x : Client} {bytes : Str} (live : x.stopped = false) (hchunk : IsChunk bytes)
      (h : (x.appendToRecvBuffer bytes).2 = true) : Client.Io x (x.appendToRecvBuffer bytes).1
  | flooded {x : Client} {bytes : Str} (live : x.stopped = false) (hchunk : IsChunk bytes)
      (h : (x.appendToRecvBuffer bytes).2 = false) :
      Client.Io x ((x.appendToRecvBuffer bytes).1.markDead (lit "input flood: recv buffer overflow"))
  | rejected {x x' : Client} (live : x.stopped = false) (h : x.extractLine = (x', none)) :
      Client.Io x x'
  | eof {x : Client} (live : x.stopped = false) :
      Client.Io x (x.markClosing (lit "client closed the connection"))
  | failed {x : Client} (reason : Str) : Client.Io x (x.socketError reason)
  | sent {x : Client} {n : ℕ} (alive : x.dead = false) (h : n ≤ x.sendBuffer.length) :
      Client.Io x (x.consumeSendBuffer n)
  | retired {x : Client} (hclosing : x.closing = true) (hflushed : x.hasPendingOutput = false) :
      Client.Io x (x.markDead x.deadReason)

/-- The socket of a client does not change who it is. -/
theorem Client.Io.identity_eq {x x' : Client} (h : x.Io x') : x'.identity = x.identity := by
  cases h with
  | received => exact identity_appendToRecvBuffer ..
  | flooded => rw [identity_markDead, identity_appendToRecvBuffer]
  | rejected _ h =>
    have hidentity := x.identity_extractLine
    rwa [h] at hidentity
  | eof => exact identity_markClosing ..
  | failed => exact identity_socketError ..
  | sent => exact identity_consumeSendBuffer ..
  | retired => exact identity_markDead ..

theorem Client.Io.offered_eq {x x' : Client} (h : x.Io x') :
    x'.trace.offered = x.trace.offered := by
  cases h with
  | received => exact offered_appendToRecvBuffer ..
  | flooded => rw [trace_markDead, offered_appendToRecvBuffer]
  | rejected _ h =>
    have htrace := x.trace_extractLine
    rw [h] at htrace
    rw [htrace]
  | eof => rw [trace_markClosing]
  | failed =>
    rw [Client.socketError, trace_markDead]
  | sent => exact offered_consumeSendBuffer ..
  | retired => rw [trace_markDead]

/-- Only lines that are handled enter the history of lines. -/
theorem Client.Io.dispatched_eq {x x' : Client} (h : x.Io x') :
    x'.trace.dispatched = x.trace.dispatched := by
  cases h with
  | received => exact dispatched_appendToRecvBuffer ..
  | flooded => rw [trace_markDead, dispatched_appendToRecvBuffer]
  | rejected _ h =>
    have htrace := x.trace_extractLine
    rw [h] at htrace
    rw [htrace]
  | eof => rw [trace_markClosing]
  | failed =>
    rw [Client.socketError, trace_markDead]
  | sent => exact dispatched_consumeSendBuffer ..
  | retired => rw [trace_markDead]

/-- Nothing brings a dead client back. -/
theorem Client.Io.dead {x x' : Client} (h : x.Io x') (hdead : x.dead = true) : x'.dead = true := by
  have live : ∀ {y : Client}, y.stopped = false → y.dead = true → False :=
    fun hy hd => absurd ((alive_of_not_stopped hy).symm.trans hd) (by decide)
  cases h with
  | received hl => exact (live hl hdead).elim
  | flooded hl => exact (live hl hdead).elim
  | rejected hl => exact (live hl hdead).elim
  | eof hl => exact (live hl hdead).elim
  | failed => exact dead_markDead _ _ hdead
  | sent halive => exact absurd (halive.symm.trans hdead) (by decide)
  | retired => exact dead_markDead _ _ hdead

/-- One move of the server. -/
inductive Move : Server → Server → Prop
  | connect {s : Server} {fd : Fd} {ip : Str} {p : Ptr} (hlisten : fd ≠ s.listenFd)
      (hfd : s.clients.find? fd = none) (hp : s.heap p = none) (hip : ip ≠ [])
      (htotal : s.clients.size < maxTotalClients)
      (hcount : s.countClientsFromIp ip < maxClientsPerIp) : Move s (s.connect fd ip p)
  | io {s : Server} {p : Ptr} {x x' : Client} (hx : s.heap p = some x) (h : x.Io x') :
      Move s (s.modify p fun _ => x')
  | line {s : Server} {p : Ptr} {x x' : Client} {line : Str} (hx : s.heap p = some x)
      (live : x.stopped = false) (h : x.extractLine = (x', some line)) :
      Move s ((s.modify p fun _ => x').handleLine p line)
  | disconnect {s : Server} {fd : Fd} {p : Ptr} {x : Client} (hfd : s.clients.find? fd = some p)
      (hx : s.heap p = some x) (hdead : x.dead = true) : Move s (s.disconnectClient fd)
  | poll {s s' : Server} (h : s.refreshPollEvents = .ok s') : Move s s'

/-- A line of client `c` is taken from its buffer and handled. -/
def LineOf (c : Ptr) (line : Str) (s s' : Server) : Prop :=
  ∃ x x', s.heap c = some x ∧ x.stopped = false ∧ x.extractLine = (x', some line)
    ∧ s' = (s.modify c fun _ => x').handleLine c line

/-- The states the server can be in. -/
inductive Reachable : Server → Prop
  | start (password : Str) (listenFd : Fd) : Reachable (Server.start password listenFd)
  | move {s s' : Server} (h : Reachable s) (hmove : Move s s') : Reachable s'

/-- A run of the server, move by move. -/
abbrev Moves : Server → Server → Prop := Relation.ReflTransGen Move

theorem Reachable.moves {s s' : Server} (h : Reachable s) (hmoves : Moves s s') : Reachable s' := by
  induction hmoves with
  | refl => exact h
  | tail _ hmove ih => exact ih.move hmove

end FtIrc
