import FtIrc.Server

/-!
# PASS, NICK and USER

The three commands a connection registers with. Each sets one of the flags `isRegistered`
is the conjunction of, and NICK and USER each send the welcome themselves.
-/

namespace FtIrc

open Bytes

/-- What a reply calls a client that may not have a nickname yet. -/
def displayName (x : Client) : Str := if x.nickname.isEmpty then lit "*" else x.nickname

/-- The 001 line. -/
def welcome (nickname username : Str) : Str :=
  lit ":server 001 " ++ nickname ++ lit " :Welcome to the ft_irc Network, " ++ nickname ++ lit "!"
    ++ username ++ lit "@localhost\r\n"

namespace PassCommand

/-- `MAX_FAILED_PASS_ATTEMPTS`. -/
def maxFailedPassAttempts : ℕ := 3

/-- `PassCommand::execute`. -/
def execute (s : Server) (client : Ptr) (params : List Str) : Server :=
  let name := displayName (s.client client)
  if (s.client client).passOk then
    s.sendMessage client (lit ":server 462 " ++ name ++ lit " :You may not reregister\r\n")
  else if params.headD [] = [] then
    s.sendMessage client (lit ":server 461 " ++ name ++ lit " PASS :Not enough parameters\r\n")
  else if params.headD [] = s.password then
    s.modify client fun x => { x with passOk := true }
  else
    let s := s.modify client (·.recordFailedPassAttempt)
    let s := s.sendMessage client (lit ":server 464 " ++ name ++ lit " :Password incorrect\r\n")
    if (s.client client).failedPassAttempts ≥ maxFailedPassAttempts then
      s.modify client (·.markClosing (lit "too many invalid PASS attempts"))
    else s

end PassCommand

namespace NickCommand

/-- `MAX_NICKNAME_LENGTH`. -/
def maxNicknameLength : ℕ := 9

/-- `validFirstCharacters`. -/
def validFirstCharacters : Str :=
  lit "ABCDEFGHIJKLMNOPQRSTUVWXYZabcdefghijklmnopqrstuvwxyz[]\\`_^\x7b|\x7d"

/-- `validRemainingCharacters`. -/
def validRemainingCharacters : Str := validFirstCharacters ++ lit "0123456789-"

/-- `isValidNickname`. -/
def isValidNickname (nickname : Str) : Bool :=
  match nickname with
  | [] => false
  | first :: remaining =>
    decide (nickname.length ≤ maxNicknameLength)
      && decide (first ∈ validFirstCharacters)
      && remaining.all fun b => decide (b ∈ validRemainingCharacters)

/-- `NickCommand::execute`. -/
def execute (s : Server) (client : Ptr) (params : List Str) : Server :=
  let newNickname := params.headD []
  if newNickname = [] then
    s.sendMessage client (lit ":server 431 * :No nickname given\r\n")
  else
    let currentNickname := displayName (s.client client)
    if !isValidNickname newNickname then
      s.sendMessage client
        (lit ":server 432 " ++ currentNickname ++ lit " " ++ newNickname
          ++ lit " :Erroneous nickname\r\n")
    else
      let nicknameOwner := s.findClientByNick newNickname
      if nicknameOwner ≠ none ∧ nicknameOwner ≠ some client then
        s.sendMessage client
          (lit ":server 433 " ++ currentNickname ++ lit " " ++ newNickname
            ++ lit " :Nickname is already in use\r\n")
      else
        let wasRegistered := (s.client client).isRegistered
        let oldNickname := s.nickname client
        let s := s.modify client fun x => { x with nickname := newNickname, nickSet := true }
        let s :=
          if wasRegistered && oldNickname != newNickname then
            s.broadcastNicknameChange client oldNickname newNickname
          else s
        if !wasRegistered && (s.client client).isRegistered then
          s.sendMessage client (welcome (s.nickname client) (s.username client))
        else s

end NickCommand

namespace UserCommand

/-- `MAX_USERNAME_LENGTH`. -/
def maxUsernameLength : ℕ := 32

/-- `isValidUsername`. -/
def isValidUsername (username : Str) : Bool :=
  !username.isEmpty && decide (username.length ≤ maxUsernameLength)
    && username.all fun b =>
      b != ch '@' && b != ch '!' && b != sp && b != nul && b != cr && b != lf

/-- `UserCommand::execute`. -/
def execute (s : Server) (client : Ptr) (params : List Str) : Server :=
  let name := displayName (s.client client)
  if (s.client client).userSet then
    s.sendMessage client (lit ":server 462 " ++ name ++ lit " :You may not reregister\r\n")
  else
    match params with
    | username :: _ :: _ :: _ :: _ =>
      if !isValidUsername username then
        s.sendMessage client
          (lit ":server 468 " ++ name ++ lit " " ++ username ++ lit " :Invalid username\r\n")
      else
        let s := s.modify client fun x => { x with username, userSet := true }
        if (s.client client).isRegistered then
          s.sendMessage client (welcome (s.nickname client) (s.username client))
        else s
    | _ =>
      s.sendMessage client (lit ":server 461 " ++ name ++ lit " USER :Not enough parameters\r\n")

end UserCommand

end FtIrc
