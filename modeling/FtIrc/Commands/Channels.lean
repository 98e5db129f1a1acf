import FtIrc.Server

/-!
# JOIN, KICK, INVITE, TOPIC and PRIVMSG

The commands that act on channels, MODE apart. JOIN, KICK and PRIVMSG loop over comma
lists; an element that fails is answered and skipped, and later elements see what earlier
ones have changed.
-/

namespace FtIrc

open Bytes

/-- `splitString`, which the three commands with lists share. -/
def splitString (str : Str) (delimiter : Byte) : List Str := fields delimiter str

/-- `nick!user@localhost` behind a colon. -/
def userPrefix (s : Server) (client : Ptr) : Str :=
  lit ":" ++ s.nickname client ++ lit "!" ++ s.username client ++ lit "@localhost"

namespace JoinCommand

/-- `isValidChannelName`. -/
def isValidChannelName (name : Str) : Bool :=
  match name with
  | [] => false
  | first :: _ =>
    decide (name.length ≤ 50) && (first == ch '#' || first == ch '&')
      && name.all fun b => b != sp && b != comma && b != 7

/-- One channel of `JOIN 0`. -/
def leave (s : Server) (client : Ptr) (name : Str) : Server :=
  match s.findChannel name with
  | none => s
  | some channel =>
    if channel.isMember client then
      let partMsg :=
        userPrefix s client ++ lit " PART " ++ channel.name ++ lit " :Left all channels\r\n"
      let s := s.broadcastMessage channel partMsg (some client)
      let s := s.sendMessage client partMsg
      let s := s.modifyChannel name (·.removeMember client)
      if (channel.removeMember client).getMembersCount = 0 then s.removeChannel channel.name else s
    else s

/-- `JOIN 0`: the loop runs over the channels there are when it starts. -/
def leaveAll (s : Server) (client : Ptr) : Server :=
  s.channels.keys.foldl (fun s name => leave s client name) s

/-- The names of the members, operators marked, separated by spaces. -/
def namesList (s : Server) (channel : Channel) : Str :=
  List.intercalate (lit " ") (channel.members.map fun p =>
    (if channel.isOperator p then lit "@" else []) ++ s.nickname p)

/-- What everybody is told after `client` has become a member. -/
def announce (s : Server) (client : Ptr) (channel : Channel) (channelName : Str)
    (isNewChannel : Bool) : Server :=
  let joinMsg := userPrefix s client ++ lit " JOIN :" ++ channelName ++ lit "\r\n"
  let s := s.broadcastMessage channel joinMsg (some client)
  let s := s.sendMessage client joinMsg
  let s :=
    if isNewChannel then s.sendMessage client (lit ":server MODE " ++ channelName ++ lit " +t\r\n")
    else s
  let s :=
    if !channel.topic.isEmpty then
      s.sendMessage client
        (lit ":server 332 " ++ s.nickname client ++ lit " " ++ channelName ++ lit " :"
          ++ channel.topic ++ lit "\r\n")
    else s
  let s :=
    s.sendMessage client
      (lit ":server 353 " ++ s.nickname client ++ lit " = " ++ channelName ++ lit " :"
        ++ namesList s channel ++ lit "\r\n")
  s.sendMessage client
    (lit ":server 366 " ++ s.nickname client ++ lit " " ++ channelName
      ++ lit " :End of /NAMES list\r\n")

/-- The channel a JOIN creates. -/
def create (s : Server) (client : Ptr) (channelName : Str) : Server :=
  let s := s.createChannel channelName
  let s := s.modifyChannel channelName fun ch => { ch with topicRestricted := true }
  let s := s.modifyChannel channelName (·.addMember client)
  s.modifyChannel channelName (·.addOperator client)

/-- The entry into a channel that exists. -/
def enter (s : Server) (client : Ptr) (channelName : Str) : Server :=
  let s := s.modifyChannel channelName (·.addMember client)
  s.modifyChannel channelName fun ch => if ch.isInvited client then ch.removeInvited client else ch

/-- The body of the loop over the channel list. -/
def joinOne (s : Server) (client : Ptr) (channelName providedKey : Str) : Server :=
  let refuse (numeric reason : String) : Server :=
    s.sendMessage client
      (lit numeric ++ s.nickname client ++ lit " " ++ channelName ++ lit reason)
  if !isValidChannelName channelName then
    refuse ":server 403 " " :No such channel\r\n"
  else
    match s.findChannel channelName with
    | none =>
      let s := create s client channelName
      match s.findChannel channelName with
      | none => s
      | some channel => announce s client channel channelName true
    | some channel =>
      if channel.isMember client then s
      else if !channel.password.isEmpty && channel.password != providedKey then
        refuse ":server 475 " " :Cannot join channel (+k) - bad key\r\n"
      else if channel.inviteOnly && !channel.isInvited client then
        refuse ":server 473 " " :Cannot join channel (+i) - you must be invited\r\n"
      else if decide (channel.userLimit > 0)
          && decide (channel.getMembersCount ≥ channel.userLimit) then
        refuse ":server 471 " " :Cannot join channel (+l) - channel is full\r\n"
      else
        let s := enter s client channelName
        match s.findChannel channelName with
        | none => s
        | some channel => announce s client channel channelName false

/-- The loop over the channel list; a position past the end of `keys` has the empty key. -/
def joinLoop (s : Server) (client : Ptr) : List Str → List Str → Server
  | [], _ => s
  | channelName :: channels, keys =>
    joinLoop (joinOne s client channelName (keys.headD [])) client channels keys.tail

/-- `JoinCommand::execute`. -/
def execute (s : Server) (client : Ptr) (params : List Str) : Server :=
  match params with
  | [] =>
    s.sendMessage client
      (lit ":server 461 " ++ s.nickname client ++ lit " JOIN :Not enough parameters\r\n")
  | target :: rest =>
    if target = lit "0" then leaveAll s client
    else
      let keys := match rest with
        | [] => []
        | key :: _ => splitString key comma
      joinLoop s client (splitString target comma) keys

end JoinCommand

namespace KickCommand

/-- The body of the loop over the user list. -/
def kickOne (reason : Str) (client : Ptr) (s : Server) (channelName targetNick : Str) : Server :=
  let refuse (numeric : String) (detail : Str) (reason : String) : Server :=
    s.sendMessage client
      (lit numeric ++ s.nickname client ++ lit " " ++ detail ++ channelName ++ lit reason)
  match s.findChannel channelName with
  | none => refuse ":server 403 " [] " :No such channel\r\n"
  | some channel =>
    if !channel.isMember client then
      refuse ":server 442 " [] " :You're not on that channel\r\n"
    else if !channel.isOperator client then
      refuse ":server 482 " [] " :You're not channel operator\r\n"
    else
      match s.findClientByNick targetNick with
      | none =>
        refuse ":server 441 " (targetNick ++ lit " ") " :They aren't on that channel\r\n"
      | some targetClient =>
        if !channel.isMember targetClient then
          refuse ":server 441 " (targetNick ++ lit " ") " :They aren't on that channel\r\n"
        else
          let msgToSend :=
            userPrefix s client ++ lit " KICK " ++ channelName ++ lit " " ++ targetNick ++ lit " :"
              ++ reason ++ lit "\r\n"
          let s := s.broadcastMessage channel msgToSend (some client)
          let s := s.sendMessage client msgToSend
          s.modifyChannel channelName (·.removeMember targetClient)

/-- The pairs the loop visits: one channel goes with every user, more channels go with the
users position by position. -/
def targets (channels users : List Str) : List (Str × Str) :=
  match channels with
  | [channelName] => users.map fun u => (channelName, u)
  | _ => channels.zip users

/-- `KickCommand::execute`. -/
def execute (s : Server) (client : Ptr) (params : List Str) : Server :=
  let notEnough :=
    s.sendMessage client
      (lit ":server 461 " ++ s.nickname client ++ lit " KICK :Not enough parameters\r\n")
  match params with
  | channelList :: userList :: rest =>
    let channels := splitString channelList comma
    let users := splitString userList comma
    let reason := rest.headD (lit "No reason given")
    if channels.length ≠ 1 ∧ channels.length ≠ users.length then notEnough
    else
      (targets channels users).foldl (fun s e => kickOne reason client s e.1 e.2) s
  | _ => notEnough

end KickCommand

namespace InviteCommand

/-- `InviteCommand::execute`. -/
def execute (s : Server) (client : Ptr) (params : List Str) : Server :=
  match params with
  | targetNick :: channelName :: _ =>
    let reply (numeric : String) (detail : Str) (reason : String) : Server :=
      s.sendMessage client (lit numeric ++ s.nickname client ++ lit " " ++ detail ++ lit reason)
    match s.findClientByNick targetNick with
    | none => reply ":server 401 " targetNick " :No such nick/channel\r\n"
    | some targetClient =>
      match s.findChannel channelName with
      | none => reply ":server 403 " channelName " :No such channel\r\n"
      | some channel =>
        if !channel.isMember client then
          reply ":server 442 " channelName " :You're not on that channel\r\n"
        else if channel.isMember targetClient then
          reply ":server 443 " (targetNick ++ lit " " ++ channelName) " :is already on channel\r\n"
        else if channel.inviteOnly && !channel.isOperator client then
          reply ":server 482 " channelName " :You're not channel operator\r\n"
        else
          let s := s.modifyChannel channelName (·.addInvited targetClient)
          let s :=
            s.sendMessage client
              (lit ":server 341 " ++ s.nickname client ++ lit " " ++ targetNick ++ lit " "
                ++ channelName ++ lit "\r\n")
          s.sendMessage targetClient
            (userPrefix s client ++ lit " INVITE " ++ targetNick ++ lit " :" ++ channelName
              ++ lit "\r\n")
  | _ =>
    s.sendMessage client
      (lit ":server 461 " ++ s.nickname client ++ lit " INVITE :Not enough parameters\r\n")

end InviteCommand

namespace TopicCommand

/-- `TopicCommand::execute`. -/
def execute (s : Server) (client : Ptr) (params : List Str) : Server :=
  match params with
  | [] =>
    s.sendMessage client
      (lit ":server 461 " ++ s.nickname client ++ lit " TOPIC :Not enough parameters\r\n")
  | channelName :: rest =>
    let reply (numeric : String) (reason : Str) : Server :=
      s.sendMessage client
        (lit numeric ++ s.nickname client ++ lit " " ++ channelName ++ reason ++ lit "\r\n")
    match s.findChannel channelName with
    | none => reply ":server 403 " (lit " :No such channel")
    | some channel =>
      if !channel.isMember client then reply ":server 442 " (lit " :You're not on that channel")
      else
        match rest with
        | [] =>
          if channel.topic.isEmpty then reply ":server 331 " (lit " :No topic is set")
          else reply ":server 332 " (lit " :" ++ channel.topic)
        | newTopic :: _ =>
          if channel.topicRestricted && !channel.isOperator client then
            reply ":server 482 " (lit " :You're not channel operator")
          else
            let s := s.modifyChannel channelName fun ch => { ch with topic := newTopic }
            let msg :=
              userPrefix s client ++ lit " TOPIC " ++ channelName ++ lit " :" ++ newTopic
                ++ lit "\r\n"
            let s := s.broadcastMessage channel msg (some client)
            s.sendMessage client msg

end TopicCommand

namespace PrivmsgCommand

/-- `isChannel`. -/
def isChannel (target : Str) : Bool :=
  match target with
  | [] => false
  | firstChar :: _ => firstChar == ch '#' || firstChar == ch '&'

/-- The body of the loop over the targets. `senderPrefix` is computed in front of the loop. -/
def sendOne (senderPrefix messageText : Str) (client : Ptr) (s : Server) (currentTarget : Str) :
    Server :=
  let refuse (numeric reason : String) : Server :=
    s.sendMessage client
      (lit numeric ++ s.nickname client ++ lit " " ++ currentTarget ++ lit reason)
  let fullMessage :=
    senderPrefix ++ lit " PRIVMSG " ++ currentTarget ++ lit " :" ++ messageText ++ lit "\r\n"
  if isChannel currentTarget then
    match s.findChannel currentTarget with
    | none => refuse ":server 401 " " :No such nick/channel\r\n"
    | some channel =>
      if !channel.isMember client then refuse ":server 404 " " :Cannot send to channel\r\n"
      else s.broadcastMessage channel fullMessage (some client)
  else
    match s.findClientByNick currentTarget with
    | none => refuse ":server 401 " " :No such nick/channel\r\n"
    | some targetClient => s.sendMessage targetClient fullMessage

/-- `PrivmsgCommand::execute`. -/
def execute (s : Server) (client : Ptr) (params : List Str) : Server :=
  match params with
  | [] =>
    s.sendMessage client
      (lit ":server 411 " ++ s.nickname client ++ lit " :No recipient given (PRIVMSG)\r\n")
  | [_] =>
    s.sendMessage client (lit ":server 412 " ++ s.nickname client ++ lit " :No text to send\r\n")
  | targetString :: messageText :: _ =>
    (splitString targetString comma).foldl (sendOne (userPrefix s client) messageText client) s

end PrivmsgCommand

end FtIrc
