import FtIrc.Dispatch

/-!
# The event loop

`acceptNewClient`, `handleClientRead`, `handleClientWrite`, `reapDeadClients`,
`disconnectClient`, `refreshPollEvents` and the body of the loop in `Server::run`. What the
kernel answers to `accept`, `recv`, `send` and `poll` is an argument.
-/

namespace FtIrc

open Bytes

/-- `RECV_CHUNK_SIZE`. -/
def recvChunkSize : ℕ := 4096

/-- `MAX_CLIENTS_PER_IP`. -/
def maxClientsPerIp : ℕ := 128

/-- `MAX_TOTAL_CLIENTS`. -/
def maxTotalClients : ℕ := 512

/-! ## What the system calls return -/

/-- The outcome of `accept` and of the calls that set the new socket up. -/
inductive AcceptResult where
  /-- `accept` failed; every such failure is only logged -/
  | failed
  /-- a new descriptor, whether `fcntl` succeeded, the text `inet_ntop` gave, and the address
  `new Client` got (`none` when the allocation or a container insertion threw) -/
  | connection (fd : Fd) (fcntlOk : Bool) (ipText : Option Str) (object : Option Ptr)
deriving DecidableEq, Repr

/-- The outcome of `recv`. `retry` is `EAGAIN`, `EWOULDBLOCK` or `EINTR`. -/
inductive RecvResult where
  | eof
  | retry
  | error (text : Str)
  | data (bytes : Str)
deriving DecidableEq, Repr

/-- The outcome of `send`. -/
inductive SendResult where
  | retry
  | error (text : Str)
  | sent (bytes : ℕ)
deriving DecidableEq, Repr

namespace Server

/-- The server after `setupSocket` and `setupCommands`. -/
def start (password : Str) (listenFd : Fd) : Server where
  password := password
  listenFd := listenFd
  pollFds := [{ fd := listenFd, pollin := true, pollout := false }]
  clients := .empty
  channels := .empty
  heap := fun _ => none

/-! ## Connections -/

/-- The last steps of `acceptNewClient`: the object and its two entries. -/
def connect (s : Server) (clientFd : Fd) (clientIp : Str) (p : Ptr) : Server :=
  { s with
    heap := Function.update s.heap p (some { fd := clientFd, ip := clientIp })
    clients := s.clients.insert clientFd p
    pollFds := s.pollFds ++ [{ fd := clientFd, pollin := true, pollout := false }] }

/-- `acceptNewClient`. The constructor of `Client` throws on an empty address text. -/
def acceptNewClient (s : Server) : AcceptResult → Server
  | .failed => s
  | .connection clientFd fcntlOk ipText object =>
    if s.clients.size ≥ maxTotalClients then s
    else if !fcntlOk then s
    else
      match ipText with
      | none => s
      | some clientIp =>
        if s.countClientsFromIp clientIp ≥ maxClientsPerIp then s
        else
          match object with
          | none => s
          | some p => if clientIp.isEmpty then s else s.connect clientFd clientIp p

/-- The reason a QUIT line gives. -/
def quitReason (x : Client) : Str := if x.deadReason.isEmpty then lit "Client Quit" else x.deadReason

/-- The QUIT line of `disconnectClient`. -/
def quitMessage (x : Client) : Str :=
  lit ":" ++ x.nickname ++ lit "!" ++ x.username ++ lit "@localhost QUIT :" ++ quitReason x
    ++ lit "\r\n"

/-- The first part of `disconnectClient`: the QUIT line of a registered client. -/
def announceQuit (s : Server) (p : Ptr) : Server :=
  if (s.client p).isRegistered then s.sendAll (s.quitRecipients p) (quitMessage (s.client p))
  else s

/-- The second part of `disconnectClient`: the client leaves every list, and its object is
deleted. -/
def release (s : Server) (fd : Fd) (p : Ptr) : Server :=
  { s with
    channels := s.channels.mapValues fun ch => (ch.removeMember p).removeInvited p
    pollFds := s.pollFds.eraseP fun e => e.fd == fd
    clients := s.clients.erase fd
    heap := Function.update s.heap p none }

/-- `disconnectClient`. -/
def disconnectClient (s : Server) (fd : Fd) : Server :=
  match s.clients.find? fd with
  | none => s
  | some p => (s.announceQuit p).release fd p

/-- The first loop of `reapDeadClients`, for one client. -/
def retire (s : Server) (fd : Fd) : Server :=
  match s.clients.find? fd with
  | none => s
  | some p =>
    if (s.client p).closing && !(s.client p).hasPendingOutput then
      s.modify p (·.markDead (s.client p).deadReason)
    else s

/-- Whether the object behind a descriptor is dead. -/
def isDeadFd (s : Server) (fd : Fd) : Bool :=
  match s.clients.find? fd with
  | none => false
  | some p => (s.client p).dead

/-- `reapDeadClients`: the dead descriptors are listed before any of them is closed. -/
def reapDeadClients (s : Server) : Server :=
  let s := s.clients.keys.foldl retire s
  (s.clients.keys.filter s.isDeadFd).foldl disconnectClient s

/-! ## Input and output -/

/-- `processLine` on an extracted line, entered into the history. -/
def handleLine (s : Server) (p : Ptr) (completedLine : Str) : Server :=
  (s.processLine p completedLine).modify p (·.recordLine completedLine)

/-- One turn of the extraction loop of `handleClientRead`. The flag tells whether the loop
goes on. -/
def readLine (s : Server) (p : Ptr) : Server × Bool :=
  match (s.client p).extractLine with
  | (x, none) => (s.modify p fun _ => x, false)
  | (x, some completedLine) =>
    let s := (s.modify p fun _ => x).handleLine p completedLine
    (s, !(s.client p).stopped)

/-- The extraction loop. Each turn shortens the receive buffer, so `fuel` turns are enough
once `fuel` exceeds its length. -/
def readLines : ℕ → Server → Ptr → Server
  | 0, s, _ => s
  | fuel + 1, s, p =>
    let (s, continues) := s.readLine p
    if continues then readLines fuel s p else s

/-- The part of `handleClientRead` between `recv` and the extraction loop. The flag tells
whether the loop is entered. -/
def receive (s : Server) (p : Ptr) (bytes : Str) : Server × Bool :=
  let (x, appended) := (s.client p).appendToRecvBuffer bytes
  let s := s.modify p fun _ => x
  if appended then (s, true)
  else (s.modify p (·.markDead (lit "input flood: recv buffer overflow")), false)

/-- `handleClientRead`. -/
def handleClientRead (s : Server) (fd : Fd) (result : RecvResult) : Server :=
  match s.getClientByFd fd with
  | none => s
  | some p =>
    if (s.client p).dead || (s.client p).closing then s
    else
      match result with
      | .eof => s.modify p (·.markClosing (lit "client closed the connection"))
      | .retry => s
      | .error text => s.modify p (·.socketError (lit "recv() failed: " ++ text))
      | .data bytes =>
        let (s, appended) := s.receive p bytes
        if appended then s.readLines ((s.client p).recvBuffer.length + 1) p else s

/-- `handleClientWrite`. -/
def handleClientWrite (s : Server) (fd : Fd) (result : SendResult) : Server :=
  match s.getClientByFd fd with
  | none => s
  | some p =>
    if (s.client p).dead then s
    else if (s.client p).sendBuffer.isEmpty then s
    else
      match result with
      | .retry => s
      | .error text => s.modify p (·.socketError (lit "send() failed: " ++ text))
      | .sent bytesSent =>
        if bytesSent = 0 then s.modify p (·.socketError (lit "send() returned zero bytes"))
        else s.modify p (·.consumeSendBuffer bytesSent)

/-- The branch of `run` for `POLLERR`, `POLLHUP` and `POLLNVAL`. -/
def handlePollError (s : Server) (fd : Fd) : Server :=
  match s.getClientByFd fd with
  | none => s
  | some p => s.modify p (·.socketError (lit "socket error (POLLERR/POLLHUP)"))

/-! ## The loop -/

/-- The events `refreshPollEvents` asks for. -/
def wantedEvents (s : Server) (e : PollFd) : Except String PollFd :=
  if e.fd = s.listenFd then .ok { e with pollin := true, pollout := false }
  else
    match s.getClientByFd e.fd with
    | none => .error "poll state contains a client fd with no Client object"
    | some p =>
      .ok { e with
        pollin := !(s.client p).closing
        pollout := (s.client p).hasPendingOutput }

/-- `refreshPollEvents`, which throws on a descriptor without a client. -/
def refreshPollEvents (s : Server) : Except String Server :=
  (s.pollFds.mapM s.wantedEvents).map fun pollFds => { s with pollFds }

/-- What `poll` reports for a descriptor, and what the calls made because of it return. -/
structure Ready where
  pollin : Bool := false
  pollout : Bool := false
  pollerr : Bool := false
  accepted : AcceptResult := .failed
  received : RecvResult := .retry
  sent : SendResult := .retry

/-- The outcome of `poll`. `interrupted` is `EINTR`; of any other error `text` is what `strerror`
says about it. -/
inductive PollResult where
  | ready (reports : Fd → Ready)
  | interrupted
  | failed (text : String)

end Server

end FtIrc
