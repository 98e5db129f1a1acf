import FtIrc.Parser

/-!
# Clients

The `Client` class: the receive buffer and its line extraction, the bounded send buffer,
the registration flags, and the two terminal states. A client that is *closing* still
flushes its output, a *dead* one does not.

`Trace` holds history variables: what the methods were called with, which the class itself
does not remember. No method reads it.
-/

namespace FtIrc

open Bytes

/-- `MAX_SEND_BUFFER`. -/
def maxSendBuffer : ℕ := 65536

/-- `MAX_RECV_BUFFER`. -/
def maxRecvBuffer : ℕ := 8192

/-- `MAX_IRC_MESSAGE_SIZE`, the terminating CRLF included. -/
def maxIrcMessageSize : ℕ := 512

/-- A file descriptor. -/
abbrev Fd := ℕ

/-- The address of a `Client` object. -/
abbrev Ptr := ℕ

/-- `isValidOutboundMessage`: at most 512 bytes, ended by CRLF, no other control byte. -/
def isValidOutboundMessage (message : Str) : Bool :=
  if message.isEmpty || message.length > maxIrcMessageSize then false
  else if message.length < 2 || message.drop (message.length - 2) != [cr, lf] then false
  else (message.take (message.length - 2)).all fun b => b != nul && b != cr && b != lf

/-- What has happened to a client so far. -/
structure Trace where
  /-- every argument of `sendMessage` -/
  offered : List Str := []
  /-- the arguments of `sendMessage` that went into the send buffer -/
  accepted : List Str := []
  /-- the bytes the kernel took from the send buffer -/
  delivered : Str := []
  /-- the bytes that went into the receive buffer -/
  received : Str := []
  /-- the lines handed to `processLine`, each with whether the client was closing or dead
  when `processLine` returned -/
  dispatched : List (Str × Bool) := []
  /-- a socket call has failed for good, or `poll` has reported an error -/
  socketFailed : Bool := false
deriving DecidableEq, Repr

/-- A `Client` object. -/
structure Client where
  fd : Fd
  ip : Str
  recvBuffer : Str := []
  sendBuffer : Str := []
  nickname : Str := []
  username : Str := []
  passOk : Bool := false
  nickSet : Bool := false
  userSet : Bool := false
  failedPassAttempts : ℕ := 0
  dead : Bool := false
  closing : Bool := false
  deadReason : Str := []
  trace : Trace := {}
deriving DecidableEq, Repr

instance : Inhabited Client := ⟨{ fd := 0, ip := [] }⟩

namespace Client

/-- The client takes no further part in the protocol: it is closing or dead. -/
def stopped (x : Client) : Bool := x.dead || x.closing

theorem alive_of_not_stopped {x : Client} (h : x.stopped = false) : x.dead = false :=
  (Bool.or_eq_false_iff.mp h).1

/-- `markDead`: the first recorded reason stays. -/
def markDead (x : Client) (reason : Str) : Client :=
  if x.dead then x
  else { x with dead := true, deadReason := if x.deadReason.isEmpty then reason else x.deadReason }

/-- `markClosing`. -/
def markClosing (x : Client) (reason : Str) : Client :=
  if x.dead || x.closing then x
  else { x with closing := true, deadReason := reason }

/-- `sendMessage`. -/
def sendMessage (x : Client) (message : Str) : Client :=
  let x := { x with trace.offered := x.trace.offered ++ [message] }
  if x.dead || x.closing then x
  else if !isValidOutboundMessage message then x
  else if x.sendBuffer.length > maxSendBuffer
      || message.length > maxSendBuffer - x.sendBuffer.length then
    x.markDead (lit "send buffer overflow (slow or stuck client)")
  else
    { x with
      sendBuffer := x.sendBuffer ++ message
      trace.accepted := x.trace.accepted ++ [message] }

/-- `isRegistered`. -/
def isRegistered (x : Client) : Bool := x.passOk && x.nickSet && x.userSet

/-- `recordFailedPassAttempt`, the counter saturating at `UINT_MAX`. -/
def recordFailedPassAttempt (x : Client) : Client :=
  if x.failedPassAttempts < 2 ^ 32 - 1 then
    { x with failedPassAttempts := x.failedPassAttempts + 1 }
  else x

/-- `appendToRecvBuffer`. The flag is the return value. -/
def appendToRecvBuffer (x : Client) (data : Str) : Client × Bool :=
  if x.recvBuffer.length > maxRecvBuffer
      || data.length > maxRecvBuffer - x.recvBuffer.length then (x, false)
  else
    let x := { x with
      recvBuffer := x.recvBuffer ++ data
      trace.received := x.trace.received ++ data }
    if lf ∉ x.recvBuffer ∧ x.recvBuffer.length ≥ maxIrcMessageSize then (x, false)
    else (x, true)

/-- `extractLine`. The line is `none` when it returns false. -/
def extractLine (x : Client) : Client × Option Str :=
  match cut [lf] x.recvBuffer with
  | none => (x, none)
  | some (before, after) =>
    let wireSize := before.length + 1
    let x := { x with recvBuffer := after }
    if wireSize > maxIrcMessageSize then
      (x.markDead (lit "IRC message exceeds 512-byte limit"), none)
    else
      let line := dropFinalCr before
      if line.any fun b => b == nul || b == cr then
        (x.markDead (lit "forbidden control byte in IRC message"), none)
      else (x, some line)

/-- `hasPendingOutput`. -/
def hasPendingOutput (x : Client) : Bool := !x.sendBuffer.isEmpty

/-- `consumeSendBuffer`. -/
def consumeSendBuffer (x : Client) (bytesSent : ℕ) : Client :=
  if bytesSent > x.sendBuffer.length then x.markDead (lit "invalid send-buffer accounting")
  else
    { x with
      sendBuffer := x.sendBuffer.drop bytesSent
      trace.delivered := x.trace.delivered ++ x.sendBuffer.take bytesSent }

/-- `markDead` after a failed socket call. -/
def socketError (x : Client) (reason : Str) : Client :=
  { x with trace.socketFailed := true }.markDead reason

/-- The entry of a line into the history, after it has been handled. -/
def recordLine (x : Client) (line : Str) : Client :=
  { x with trace.dispatched := x.trace.dispatched ++ [(line, x.stopped)] }

/-- The fields the registration commands write: who the client is. -/
structure Identity where
  nickname : Str
  username : Str
  passOk : Bool
  nickSet : Bool
  userSet : Bool
  failedPassAttempts : ℕ
deriving DecidableEq, Repr

/-- The identity of a client. -/
def identity (x : Client) : Identity where
  nickname := x.nickname
  username := x.username
  passOk := x.passOk
  nickSet := x.nickSet
  userSet := x.userSet
  failedPassAttempts := x.failedPassAttempts

/-- `isRegistered` as a function of the identity. -/
def Identity.isRegistered (i : Identity) : Bool := i.passOk && i.nickSet && i.userSet

theorem isRegistered_of_identity {x y : Client} (h : y.identity = x.identity) :
    y.isRegistered = x.isRegistered := congrArg Identity.isRegistered h

theorem nickname_of_identity {x y : Client} (h : y.identity = x.identity) :
    y.nickname = x.nickname := congrArg Identity.nickname h

/-- Where a client is connected. -/
def endpoint (x : Client) : Fd × Str := (x.fd, x.ip)

theorem fd_of_endpoint {x y : Client} (h : y.endpoint = x.endpoint) : y.fd = x.fd :=
  congrArg Prod.fst h

theorem ip_of_endpoint {x y : Client} (h : y.endpoint = x.endpoint) : y.ip = x.ip :=
  congrArg Prod.snd h

/-! ## What the methods leave alone -/

section Frame

variable (x : Client) (text : Str) (n : ℕ)

@[simp] theorem identity_markDead : (x.markDead text).identity = x.identity := by
  unfold markDead
  split_ifs <;> rfl

@[simp] theorem identity_markClosing : (x.markClosing text).identity = x.identity := by
  unfold markClosing
  split_ifs <;> rfl

@[simp] theorem identity_sendMessage : (x.sendMessage text).identity = x.identity := by
  unfold sendMessage
  dsimp only
  split_ifs
  · rfl
  · rfl
  · rw [identity_markDead]
    rfl
  · rfl

@[simp] theorem identity_appendToRecvBuffer :
    (x.appendToRecvBuffer text).1.identity = x.identity := by
  unfold appendToRecvBuffer
  dsimp only
  split_ifs <;> rfl

@[simp] theorem identity_extractLine : x.extractLine.1.identity = x.identity := by
  unfold extractLine
  dsimp only
  split
  · rfl
  · split_ifs
    · rw [identity_markDead]
      rfl
    · rw [identity_markDead]
      rfl
    · rfl

@[simp] theorem identity_consumeSendBuffer : (x.consumeSendBuffer n).identity = x.identity := by
  unfold consumeSendBuffer
  split_ifs
  · exact identity_markDead _ _
  · rfl

@[simp] theorem identity_socketError : (x.socketError text).identity = x.identity := by
  rw [socketError, identity_markDead]
  rfl

@[simp] theorem endpoint_markDead : (x.markDead text).endpoint = x.endpoint := by
  unfold markDead
  split_ifs <;> rfl

@[simp] theorem endpoint_markClosing : (x.markClosing text).endpoint = x.endpoint := by
  unfold markClosing
  split_ifs <;> rfl

@[simp] theorem endpoint_sendMessage : (x.sendMessage text).endpoint = x.endpoint := by
  unfold sendMessage
  dsimp only
  split_ifs
  · rfl
  · rfl
  · rw [endpoint_markDead]
    rfl
  · rfl

@[simp] theorem endpoint_recordFailedPassAttempt : x.recordFailedPassAttempt.endpoint = x.endpoint := by
  unfold recordFailedPassAttempt
  split_ifs <;> rfl

@[simp] theorem endpoint_appendToRecvBuffer : (x.appendToRecvBuffer text).1.endpoint = x.endpoint := by
  unfold appendToRecvBuffer
  dsimp only
  split_ifs <;> rfl

@[simp] theorem endpoint_extractLine : x.extractLine.1.endpoint = x.endpoint := by
  unfold extractLine
  dsimp only
  split
  · rfl
  · split_ifs
    · rw [endpoint_markDead]
      rfl
    · rw [endpoint_markDead]
      rfl
    · rfl

@[simp] theorem endpoint_consumeSendBuffer : (x.consumeSendBuffer n).endpoint = x.endpoint := by
  unfold consumeSendBuffer
  split_ifs
  · exact endpoint_markDead _ _
  · rfl

@[simp] theorem endpoint_socketError : (x.socketError text).endpoint = x.endpoint := by
  rw [socketError, endpoint_markDead]
  rfl

@[simp] theorem trace_markDead : (x.markDead text).trace = x.trace := by
  unfold markDead
  split_ifs <;> rfl

@[simp] theorem trace_markClosing : (x.markClosing text).trace = x.trace := by
  unfold markClosing
  split_ifs <;> rfl

@[simp] theorem trace_extractLine : x.extractLine.1.trace = x.trace := by
  unfold extractLine
  dsimp only
  split
  · rfl
  · split_ifs
    · rw [trace_markDead]
    · rw [trace_markDead]
    · rfl

/-- Every message is offered, whatever becomes of it. -/
@[simp] theorem offered_sendMessage :
    (x.sendMessage text).trace.offered = x.trace.offered ++ [text] := by
  unfold sendMessage
  dsimp only
  split_ifs
  · rfl
  · rfl
  · rw [trace_markDead]
  · rfl

@[simp] theorem offered_appendToRecvBuffer :
    (x.appendToRecvBuffer text).1.trace.offered = x.trace.offered := by
  unfold appendToRecvBuffer
  dsimp only
  split_ifs <;> rfl

@[simp] theorem offered_consumeSendBuffer :
    (x.consumeSendBuffer n).trace.offered = x.trace.offered := by
  unfold consumeSendBuffer
  split_ifs
  · rw [trace_markDead]
  · rfl

@[simp] theorem dispatched_sendMessage :
    (x.sendMessage text).trace.dispatched = x.trace.dispatched := by
  unfold sendMessage
  dsimp only
  split_ifs
  · rfl
  · rfl
  · rw [trace_markDead]
  · rfl

@[simp] theorem dispatched_appendToRecvBuffer :
    (x.appendToRecvBuffer text).1.trace.dispatched = x.trace.dispatched := by
  unfold appendToRecvBuffer
  dsimp only
  split_ifs <;> rfl

@[simp] theorem dispatched_consumeSendBuffer :
    (x.consumeSendBuffer n).trace.dispatched = x.trace.dispatched := by
  unfold consumeSendBuffer
  split_ifs
  · rw [trace_markDead]
  · rfl

theorem dead_markDead (h : x.dead = true) : (x.markDead text).dead = true := by
  unfold markDead
  rw [if_pos h, h]

theorem dead_markClosing : (x.markClosing text).dead = x.dead := by
  unfold markClosing
  split_ifs <;> rfl

/-- A dead client stays dead. -/
theorem dead_sendMessage (h : x.dead = true) : (x.sendMessage text).dead = true := by
  unfold sendMessage
  simp [h]

end Frame

end Client

end FtIrc
