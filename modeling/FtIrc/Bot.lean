import FtIrc.Parser
import FtIrc.EventLoop

/-!
# The bot

The second program of the repository, a client that greets whoever joins its channel. It has
its own line extraction, which throws where the server disconnects, and its own outbound
check. The receive loop takes the handling of a line as an argument; `Bot.processLine` is the
one the program runs it with.
-/

namespace FtIrc

open Bytes

/-! ## Arguments -/

/-- `MAX_SERVER_PASSWORD_SIZE` of the server and `MAX_PASSWORD_SIZE` of the bot. -/
def maxPasswordSize : ℕ := 504

/-- `isValidPassword` of the server's `main`, on the bytes of the argument. -/
def isValidPassword (password : Str) : Bool :=
  !password.isEmpty && decide (password.length ≤ maxPasswordSize)
    && !(decide (cr ∈ password) || decide (lf ∈ password))

/-- `containsLineControl`. -/
def containsLineControl (value : Str) : Bool := decide (cr ∈ value) || decide (lf ∈ value)

/-- `isValidBotPassword` of the bot's `main`. -/
def isValidBotPassword (password : Str) : Bool :=
  if password.isEmpty then false
  else if password.length > maxPasswordSize then false
  else !containsLineControl password

/-- `MAX_CHANNEL_NAME_SIZE`. -/
def maxChannelNameSize : ℕ := 50

/-- `isValidChannelName` of the bot's `main`, which also excludes the colon and the line breaks. -/
def isValidBotChannelName (channel : Str) : Bool :=
  if channel.length < 2 || channel.length > maxChannelNameSize then false
  else if channel.head? ≠ some (ch '#') ∧ channel.head? ≠ some (ch '&') then false
  else
    channel.all fun b =>
      !(b == sp || b == comma || b == colon || b == 7 || b == cr || b == lf)

/-- The channel the bot's `main` takes from its argument, a C string that ends at the first NUL. -/
def channelOfArgument (argument : Str) : Option Str :=
  let channel := argument.takeWhile (· != nul)
  if isValidBotChannelName channel then some channel else none

/-- What `strerror` gives, in the text of an exception. -/
def errorText (text : Str) : String := String.ofList (text.map fun b => Char.ofNat b.toNat)

/-- The bot. `sent` is a history variable: the messages handed to the socket. -/
structure Bot where
  password : Str
  channel : Str
  sent : List Str := []
deriving DecidableEq, Repr

namespace Bot

/-- `BOT_NICKNAME`. -/
def botNickname : Str := lit "ft_bot"

/-! ## Sending -/

/-- The loop of `sendLine` over what `send` returns: the bytes the kernel has taken, and those it
has not. `retry` is `EINTR`; when the results run out the loop is still in `send`. -/
def transmit (sentBytes message : Str) : List SendResult → Except String (Str × Str)
  | [] => .ok (sentBytes, message)
  | result :: results =>
    if message.isEmpty then .ok (sentBytes, message)
    else
      match result with
      | .retry => transmit sentBytes message results
      | .error text => .error ("bot send() failed: " ++ errorText text)
      | .sent n =>
        if n = 0 then .error "bot send() returned zero bytes"
        else transmit (sentBytes ++ message.take n) (message.drop n) results

/-- `sendLine`: the checks, and the message the loop sends. -/
def sendLine (bot : Bot) (line : Str) : Except String Bot :=
  if line.isEmpty || line.length + 2 > maxIrcMessageSize then
    .error "bot refused an invalid IRC line"
  else if line.any fun b => b == nul || b == cr || b == lf then
    .error "bot refused an IRC control byte"
  else .ok { bot with sent := bot.sent ++ [line ++ lit "\r\n"] }

/-! ## Handling a line -/

/-- `greetJoinedUser`. The two positions are the lengths of what stands in front of them. -/
def greetJoinedUser (bot : Bot) (line : Str) : Except String Bot :=
  if line.head? ≠ some colon then .ok bot
  else
    match cut (lit " JOIN ") line, cut (lit "!") line with
    | some (beforeJoin, afterJoin), some (beforeEnd, _) =>
      if beforeEnd.length > beforeJoin.length then .ok bot
      else
        let nickname := beforeEnd.tail
        if nickname.isEmpty || nickname = botNickname then .ok bot
        else
          let joinedChannel := if afterJoin.head? = some colon then afterJoin.tail else afterJoin
          if joinedChannel ≠ bot.channel then .ok bot
          else bot.sendLine (lit "PRIVMSG " ++ bot.channel ++ lit " :Hello @" ++ nickname)
    | _, _ => .ok bot

/-- `processLine`. -/
def processLine (bot : Bot) (line : Str) : Except String Bot :=
  if lit "PING " <+: line then bot.sendLine (lit "PONG " ++ line.drop 5)
  else if lit " 001 " <:+: line then bot.sendLine (lit "JOIN " ++ bot.channel)
  else if lit " 433 " <:+: line then .error "bot nickname is already in use"
  else if lit " 464 " <:+: line then .error "bot password was rejected"
  else bot.greetJoinedUser line

/-- The lines `run` sends before it receives anything. -/
def register (bot : Bot) : Except String Bot := do
  let bot ← bot.sendLine (lit "PASS :" ++ bot.password)
  let bot ← bot.sendLine (lit "NICK " ++ botNickname)
  bot.sendLine (lit "USER ftbot 0 * :ft_irc bonus bot")

end Bot

/-! ## Receiving -/

/-- `MAX_RECEIVE_BUFFER_SIZE`. -/
def maxReceiveBufferSize : ℕ := 8192

/-- The receive buffer, and the state the lines are handled in. -/
structure Receiver (σ : Type) where
  receiveBuffer : Str := []
  state : σ
deriving DecidableEq, Repr

namespace Receiver

variable {σ : Type}

/-- `extractLine`. The line is `none` when it returns false. -/
def extractLine (r : Receiver σ) : Except String (Receiver σ × Option Str) :=
  match cut [lf] r.receiveBuffer with
  | none =>
    if r.receiveBuffer.length ≥ maxIrcMessageSize then .error "bot received an oversized IRC line"
    else .ok (r, none)
  | some (before, after) =>
    if before.length + 1 > maxIrcMessageSize then .error "bot received an oversized IRC line"
    else
      let line := dropFinalCr before
      if line.any fun b => b == nul || b == cr then .error "bot received an IRC control byte"
      else .ok ({ r with receiveBuffer := after }, some line)

/-- The loop over the lines in the buffer. Each turn shortens it, so `fuel` turns are enough once
`fuel` exceeds its length. -/
def extractLines (processLine : σ → Str → Except String σ) :
    ℕ → Receiver σ → Except String (Receiver σ)
  | 0, r => .ok r
  | fuel + 1, r =>
    match r.extractLine with
    | .error e => .error e
    | .ok (r, none) => .ok r
    | .ok (r, some line) =>
      match processLine r.state line with
      | .error e => .error e
      | .ok state => extractLines processLine fuel { r with state }

/-- What `receiveMessages` does with a chunk. -/
def receive (processLine : σ → Str → Except String σ) (r : Receiver σ) (chunk : Str) :
    Except String (Receiver σ) :=
  if r.receiveBuffer.length > maxReceiveBufferSize
      || chunk.length > maxReceiveBufferSize - r.receiveBuffer.length then
    .error "bot receive buffer limit exceeded"
  else
    let r := { r with receiveBuffer := r.receiveBuffer ++ chunk }
    extractLines processLine (r.receiveBuffer.length + 1) r

/-- `receiveMessages` over what `recv` returns; `retry` is `EINTR`. When the results run out the
loop is still in `recv`. -/
def receiveMessages (processLine : σ → Str → Except String σ) (r : Receiver σ) :
    List RecvResult → Except String (Receiver σ)
  | [] => .ok r
  | .eof :: _ => .ok r
  | .retry :: results => receiveMessages processLine r results
  | .error text :: _ =>
    .error ("bot recv() failed: " ++ errorText text)
  | .data chunk :: results =>
    match r.receive processLine chunk with
    | .error e => .error e
    | .ok r => receiveMessages processLine r results

end Receiver

/-- The receive loop as the program runs it. -/
def Bot.receiveMessages (bot : Bot) (results : List RecvResult) : Except String (Receiver Bot) :=
  Receiver.receiveMessages Bot.processLine { state := bot } results

end FtIrc
