import FtIrc.Commands.Registration
import FtIrc.Commands.Channels
import FtIrc.Commands.Mode

/-!
# Dispatch

`Server::processLine`: the commands answered in place, the gate in front of the command
objects, and the table of these.
-/

namespace FtIrc

open Bytes

/-- The command objects. -/
inductive Command where
  | pass | nick | user | join | privmsg | kick | invite | topic | mode
deriving DecidableEq, Repr

/-- The table `setupCommands` fills. -/
def commands : List (Str × Command) :=
  [(lit "PASS", .pass), (lit "NICK", .nick), (lit "USER", .user), (lit "JOIN", .join),
    (lit "PRIVMSG", .privmsg), (lit "KICK", .kick), (lit "INVITE", .invite),
    (lit "TOPIC", .topic), (lit "MODE", .mode)]

/-- `Command::execute`. -/
def Command.execute : Command → Server → Ptr → List Str → Server
  | .pass => PassCommand.execute
  | .nick => NickCommand.execute
  | .user => UserCommand.execute
  | .join => JoinCommand.execute
  | .privmsg => PrivmsgCommand.execute
  | .kick => KickCommand.execute
  | .invite => InviteCommand.execute
  | .topic => TopicCommand.execute
  | .mode => ModeCommand.execute

namespace Server

/-- `processLine` on a parsed line. -/
def processMessage (s : Server) (client : Ptr) (message : Message) : Server :=
  let commandName := message.command
  if commandName = [] then s
  else if commandName = lit "CAP" then
    if (message.params.headD []).map toUpper = lit "LS" then
      s.sendMessage client (lit ":server CAP * LS :\r\n")
    else s
  else if commandName = lit "PING" then
    let pingToken := message.params.headD (lit "ft_irc")
    s.sendMessage client (lit ":server PONG server :" ++ pingToken ++ lit "\r\n")
  else if commandName = lit "QUIT" then
    let quitReason := message.params.headD (lit "Client Quit")
    s.modify client (·.markClosing (lit "Quit: " ++ quitReason))
  else
    match commands.lookup commandName with
    | none =>
      s.sendMessage client
        (lit ":server 421 " ++ displayName (s.client client) ++ lit " " ++ commandName
          ++ lit " :Unknown command\r\n")
    | some command =>
      if command ≠ .pass ∧ (s.client client).passOk = false then
        s.sendMessage client (lit ":server 451 * :You have not registered\r\n")
      else if command ≠ .pass ∧ command ≠ .nick ∧ command ≠ .user
          ∧ (s.client client).isRegistered = false then
        s.sendMessage client
          (lit ":server 451 " ++ displayName (s.client client) ++ lit " :You have not registered\r\n")
      else command.execute s client message.params

/-- `processLine`. -/
def processLine (s : Server) (client : Ptr) (rawLine : Str) : Server :=
  s.processMessage client (Parser.parse rawLine)

end Server

end FtIrc
