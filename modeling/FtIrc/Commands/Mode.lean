import FtIrc.Commands.Channels

/-!
# MODE

`ModeCommand::execute`: the query of a channel's modes, and the loop that applies a mode
string letter by letter. The loop's local variables are the fields of `ModeLoop`; each
branch emits a sign into `appliedModes` only when it differs from the last one emitted.
-/

namespace FtIrc

open Bytes

/-- The decimal text of a number, `stream << n`. -/
def decimal (n : ℕ) : Str := (Nat.toDigits 10 n).map fun c => ch c

/-- A number with one more digit. -/
def appendDigit (n : ℕ) (digit : Byte) : ℕ := 10 * n + (digit.toNat - 48)

/-- The number a text of digits stands for. -/
def numeral (digits : Str) : ℕ := digits.foldl appendDigit 0

/-- `atoi` on a text of digits: `strtol` saturates at 64 bits, the result is cut to a
32-bit `int`. -/
def atoi (digits : Str) : ℤ := Int.bmod (min (numeral digits) (2 ^ 63 - 1) : ℕ) (2 ^ 32)

namespace ModeCommand

/-- The local variables of the loop over the mode string. `params` holds the parameters from
`paramIndex` on, `lastSign` is `none` for the initial `'\0'`. -/
structure ModeLoop where
  server : Server
  params : List Str
  isPlus : Bool := true
  appliedModes : Str := []
  appliedParams : Str := []
  lastSign : Option Byte := none

/-- The sign character of a direction. -/
def sign (isPlus : Bool) : Byte := if isPlus then ch '+' else ch '-'

namespace ModeLoop

/-- Append a letter to `appliedModes`, its sign first if it is not the last one emitted, and
a piece to `appliedParams`. -/
def applied (m : ModeLoop) (isPlus : Bool) (letter : Byte) (piece : Str) : ModeLoop :=
  let neededSign := sign isPlus
  let m :=
    if m.lastSign ≠ some neededSign then
      { m with lastSign := some neededSign, appliedModes := m.appliedModes ++ [neededSign] }
    else m
  { m with
    appliedModes := m.appliedModes ++ [letter]
    appliedParams := m.appliedParams ++ piece }

/-- Change the channel the command is about. -/
def change (m : ModeLoop) (target : Str) (f : Channel → Channel) : ModeLoop :=
  { m with server := m.server.modifyChannel target f }

/-- Answer the client. -/
def reply (m : ModeLoop) (client : Ptr) (message : Str) : ModeLoop :=
  { m with server := m.server.sendMessage client message }

@[simp] theorem server_applied (m : ModeLoop) (isPlus : Bool) (letter : Byte) (piece : Str) :
    (m.applied isPlus letter piece).server = m.server := by
  unfold applied
  dsimp only
  split_ifs <;> rfl

@[simp] theorem server_change (m : ModeLoop) (target : Str) (f : Channel → Channel) :
    (m.change target f).server = m.server.modifyChannel target f := rfl

@[simp] theorem server_reply (m : ModeLoop) (client : Ptr) (message : Str) :
    (m.reply client message).server = m.server.sendMessage client message := rfl

end ModeLoop

section Letters

variable (client : Ptr) (target : Str) (channel : Channel) (m : ModeLoop)

/-- The `'i'` branch. -/
def inviteOnlyLetter : ModeLoop :=
  if channel.inviteOnly != m.isPlus then
    (m.change target fun ch => { ch with inviteOnly := m.isPlus }).applied m.isPlus (ch 'i') []
  else m

/-- The `'t'` branch. -/
def topicLetter : ModeLoop :=
  if channel.topicRestricted != m.isPlus then
    (m.change target fun ch => { ch with topicRestricted := m.isPlus }).applied m.isPlus (ch 't') []
  else m

/-- The `'k'` branch. -/
def keyLetter : ModeLoop :=
  match m.params with
  | [] => m
  | key :: rest =>
    let m := { m with params := rest }
    if m.isPlus then
      if key.any fun b => b == sp || b == tab || b == comma then
        m.reply client
          (lit ":server 696 " ++ m.server.nickname client ++ lit " " ++ target ++ lit " k " ++ key
            ++ lit " :Invalid channel key (cannot contain spaces)\r\n")
      else if channel.password.isEmpty then
        (m.change target fun ch => { ch with password := key }).applied true (ch 'k')
          (lit " " ++ key)
      else
        m.reply client
          (lit ":server 467 " ++ m.server.nickname client ++ lit " " ++ target
            ++ lit " :Channel key already set\r\n")
    else if channel.password = key then
      (m.change target fun ch => { ch with password := [] }).applied false (ch 'k') (lit " *")
    else m

/-- The `'l'` branch. -/
def limitLetter : ModeLoop :=
  if m.isPlus then
    match m.params with
    | [] => m
    | limitStr :: rest =>
      let m := { m with params := rest }
      if !limitStr.all isDigit || limitStr.isEmpty then
        m.reply client
          (lit ":server 696 " ++ m.server.nickname client ++ lit " " ++ target ++ lit " l "
            ++ limitStr ++ lit " :Invalid limit mode parameter. Syntax: <limit>.\r\n")
      else
        let limit := atoi limitStr
        if limit > 0 ∧ channel.userLimit ≠ limit.toNat then
          (m.change target fun ch => { ch with userLimit := limit.toNat }).applied true (ch 'l')
            (lit " " ++ decimal limit.toNat)
        else m
  else if channel.userLimit > 0 then
    (m.change target fun ch => { ch with userLimit := 0 }).applied false (ch 'l') []
  else m

/-- The `'o'` branch. -/
def operatorLetter : ModeLoop :=
  match m.params with
  | [] => m
  | targetNick :: rest =>
    let m := { m with params := rest }
    let notThere :=
      m.reply client
        (lit ":server 441 " ++ m.server.nickname client ++ lit " " ++ targetNick ++ lit " "
          ++ target ++ lit " :They aren't on that channel\r\n")
    match m.server.findClientByNick targetNick with
    | none => notThere
    | some targetClient =>
      if channel.isMember targetClient then
        let isOp := channel.isOperator targetClient
        if (m.isPlus && !isOp) || (!m.isPlus && isOp) then
          (m.change target fun ch =>
            if m.isPlus then ch.addOperator targetClient
            else ch.removeOperator targetClient).applied m.isPlus (ch 'o') (lit " " ++ targetNick)
        else m
      else notThere

end Letters

/-- One turn of the loop over the mode string. -/
def modeLetter (client : Ptr) (target : Str) (m : ModeLoop) (c : Byte) : ModeLoop :=
  match m.server.findChannel target with
  | none => m
  | some channel =>
    if c = ch '+' then { m with isPlus := true }
    else if c = ch '-' then { m with isPlus := false }
    else if c = ch 'i' then inviteOnlyLetter target channel m
    else if c = ch 't' then topicLetter target channel m
    else if c = ch 'k' then keyLetter client target channel m
    else if c = ch 'l' then limitLetter client target channel m
    else if c = ch 'o' then operatorLetter client target channel m
    else m

/-- The letters the loop knows, signs included. -/
def knownLetters : Str := lit "+-itklo"

/-- The reply to `MODE <channel>`: the letters and the arguments of the modes that are set. -/
def activeModes (channel : Channel) : Str :=
  let letters :=
    (if channel.inviteOnly then lit "i" else []) ++ (if channel.topicRestricted then lit "t" else [])
      ++ (if !channel.password.isEmpty then lit "k" else [])
      ++ (if channel.userLimit > 0 then lit "l" else [])
  let arguments :=
    (if !channel.password.isEmpty then lit " " ++ channel.password else [])
      ++ (if channel.userLimit > 0 then lit " " ++ decimal channel.userLimit else [])
  (if letters = [] then [] else lit "+" ++ letters) ++ arguments

/-- The first letter of a mode string that is neither known nor skipped. -/
def unknownLetter (modeString : Str) : Option Byte :=
  modeString.find? fun c => decide (c ∉ knownLetters) && isAlpha c

/-- The loop over the mode string. -/
def modeLoop (client : Ptr) (target : Str) (modeString : Str) (m : ModeLoop) : ModeLoop :=
  modeString.foldl (modeLetter client target) m

/-- The broadcast behind the loop. -/
def broadcastModes (client : Ptr) (target : Str) (m : ModeLoop) : Server :=
  if m.appliedModes.isEmpty then m.server
  else
    match m.server.findChannel target with
    | none => m.server
    | some channel =>
      m.server.broadcastMessage channel
        (lit ":" ++ m.server.nickname client ++ lit "!~" ++ m.server.username client
          ++ lit "@localhost MODE " ++ target ++ lit " " ++ m.appliedModes ++ m.appliedParams
          ++ lit "\r\n") none

/-- `ModeCommand::execute`. -/
def execute (s : Server) (client : Ptr) (params : List Str) : Server :=
  match params with
  | [] =>
    s.sendMessage client
      (lit ":server 461 " ++ s.nickname client ++ lit " MODE :Not enough parameters\r\n")
  | target :: rest =>
    if target.head? ≠ some (ch '#') ∧ target.head? ≠ some (ch '&') then s
    else
      match s.findChannel target with
      | none =>
        s.sendMessage client
          (lit ":server 403 " ++ s.nickname client ++ lit " " ++ target
            ++ lit " :No such channel\r\n")
      | some channel =>
        match rest with
        | [] =>
          s.sendMessage client
            (lit ":server 324 " ++ s.nickname client ++ lit " " ++ target ++ lit " "
              ++ activeModes channel ++ lit "\r\n")
        | modeString :: arguments =>
          if !channel.isOperator client then
            s.sendMessage client
              (lit ":server 482 " ++ s.nickname client ++ lit " " ++ target
                ++ lit " :You're not channel operator\r\n")
          else
            match unknownLetter modeString with
            | some c =>
              s.sendMessage client
                (lit ":server 472 " ++ s.nickname client ++ lit " " ++ [c]
                  ++ lit " :is not a recognised channel mode.\r\n")
            | none =>
              broadcastModes client target
                (modeLoop client target modeString { server := s, params := arguments })

end ModeCommand

end FtIrc
