import FtIrc.Indexed
import FtIrc.ModeLetters
import FtIrc.Events

/-!
# No access out of range, but one

MODE and the dispatch by index, and with them all that handling a line reads. MODE asks for the
first character of its target before anything has made sure that there is one: that access is out
of range when the first parameter is empty, and no other is.
-/

namespace FtIrc

open Bytes

/-! ## MODE -/

namespace ModeCommand

/-- The loop that looks for letters it does not know. -/
def unknownLetter? (modeString : Str) : Option (Option Byte) :=
  (indices 0 modeString.length).findSomeM? fun i =>
    (modeString[i]?).map (Option.guard fun c => decide (c ∉ knownLetters) && isAlpha c)

section Letters

variable (params : List Str) (client : Ptr) (target : Str) (channel : Channel) (m : ModeLoop)
  (paramIndex : ℕ)

/-- The `'k'` branch, which is `keyLetter` on the parameter it reads. -/
def keyLetter? : Option (ModeLoop × ℕ) :=
  if paramIndex < params.length then
    (params[paramIndex]?).map fun key =>
      (keyLetter client target channel { m with params := [key] }, paramIndex + 1)
  else some (m, paramIndex)

/-- The `'l'` branch. -/
def limitLetter? : Option (ModeLoop × ℕ) :=
  if m.isPlus then
    if paramIndex < params.length then do
      let limitStr ← params[paramIndex]?
      let isValidNumber ← (indices 0 limitStr.length).allM fun j => (limitStr[j]?).map isDigit
      if !isValidNumber || limitStr.isEmpty then
        some (m.reply client
          (lit ":server 696 " ++ m.server.nickname client ++ lit " " ++ target ++ lit " l "
            ++ limitStr ++ lit " :Invalid limit mode parameter. Syntax: <limit>.\r\n"),
          paramIndex + 1)
      else
        let limit := atoi limitStr
        if limit > 0 ∧ channel.userLimit ≠ limit.toNat then
          some ((m.change target fun ch => { ch with userLimit := limit.toNat }).applied true (ch 'l')
            (lit " " ++ decimal limit.toNat), paramIndex + 1)
        else some (m, paramIndex + 1)
    else some (m, paramIndex)
  else if channel.userLimit > 0 then
    some ((m.change target fun ch => { ch with userLimit := 0 }).applied false (ch 'l') [], paramIndex)
  else some (m, paramIndex)

/-- The `'o'` branch, which is `operatorLetter` on the parameter it reads. -/
def operatorLetter? : Option (ModeLoop × ℕ) :=
  if paramIndex < params.length then
    (params[paramIndex]?).map fun targetNick =>
      (operatorLetter client target channel { m with params := [targetNick] }, paramIndex + 1)
  else some (m, paramIndex)

end Letters

/-- One turn of the loop over the mode string, with `paramIndex` beside the other variables. -/
def modeLetter? (params : List Str) (client : Ptr) (target : Str) (l : ModeLoop × ℕ) (c : Byte) :
    Option (ModeLoop × ℕ) :=
  match l.1.server.findChannel target with
  | none => some l
  | some channel =>
    if c = ch '+' then some ({ l.1 with isPlus := true }, l.2)
    else if c = ch '-' then some ({ l.1 with isPlus := false }, l.2)
    else if c = ch 'i' then some (inviteOnlyLetter target channel l.1, l.2)
    else if c = ch 't' then some (topicLetter target channel l.1, l.2)
    else if c = ch 'k' then keyLetter? params client target channel l.1 l.2
    else if c = ch 'l' then limitLetter? params client target channel l.1 l.2
    else if c = ch 'o' then operatorLetter? params client target channel l.1 l.2
    else some l

/-- The loop over the mode string. -/
def modeLoop? (params : List Str) (client : Ptr) (target modeString : Str) (l : ModeLoop × ℕ) :
    Option (ModeLoop × ℕ) :=
  (indices 0 modeString.length).foldlM (fun l i =>
    (modeString[i]?).bind (modeLetter? params client target l)) l

/-- `ModeCommand::execute`. -/
def execute? (s : Server) (client : Ptr) (params : List Str) : Option Server :=
  if params.isEmpty then
    some (s.sendMessage client
      (lit ":server 461 " ++ s.nickname client ++ lit " MODE :Not enough parameters\r\n"))
  else do
    let target ← params[0]?
    -- the source does not ask whether the target is empty
    let first ← target[0]?
    if first ≠ ch '#' ∧ first ≠ ch '&' then some s
    else
      match s.findChannel target with
      | none =>
        some (s.sendMessage client
          (lit ":server 403 " ++ s.nickname client ++ lit " " ++ target
            ++ lit " :No such channel\r\n"))
      | some channel =>
        if params.length = 1 then
          some (s.sendMessage client
            (lit ":server 324 " ++ s.nickname client ++ lit " " ++ target ++ lit " "
              ++ activeModes channel ++ lit "\r\n"))
        else if !channel.isOperator client then
          some (s.sendMessage client
            (lit ":server 482 " ++ s.nickname client ++ lit " " ++ target
              ++ lit " :You're not channel operator\r\n"))
        else do
          let modeString ← params[1]?
          let unknown ← unknownLetter? modeString
          match unknown with
          | some c =>
            some (s.sendMessage client
              (lit ":server 472 " ++ s.nickname client ++ lit " " ++ [c]
                ++ lit " :is not a recognised channel mode.\r\n"))
          | none => do
            let l ← modeLoop? params client target modeString ({ server := s, params := [] }, 2)
            some (broadcastModes client target l.1)

/-! ## The loop by index -/

theorem unknownLetter?_eq (modeString : Str) :
    unknownLetter? modeString = some (unknownLetter modeString) := by
  rw [unknownLetter, List.find?_eq_findSome?_guard]
  refine Indices.findSomeM?_eq (Nat.zero_add _).symm fun i c hread => ?_
  rw [Nat.zero_add, hread]
  rfl

/-- The loops by index and by list are in the same state: the parameters that are left are those
from `paramIndex` on. -/
def SameLoop (params : List Str) (l : ModeLoop × ℕ) (m : ModeLoop) : Prop :=
  m = { l.1 with params := params.drop l.2 }

section Same

variable {params : List Str} {client : Ptr} {target : Str} {channel : Channel} {m : ModeLoop}
  {paramIndex : ℕ}

theorem applied_params (m : ModeLoop) (isPlus : Bool) (letter : Byte) (piece : Str)
    (rest rest' : List Str) : ModeLoop.applied { m with params := rest' } isPlus letter piece
      = { ModeLoop.applied { m with params := rest } isPlus letter piece with params := rest' } := by
  unfold ModeLoop.applied
  dsimp only
  split_ifs <;> rfl

theorem keyLetter_params (key : Str) (rest : List Str) :
    keyLetter client target channel { m with params := key :: rest }
      = { keyLetter client target channel { m with params := [key] } with params := rest } := by
  unfold keyLetter
  dsimp only
  split_ifs
  · rfl
  · exact applied_params (m.change target _) true (ch 'k') _ [] rest
  · rfl
  · exact applied_params (m.change target _) false (ch 'k') _ [] rest
  · rfl

theorem operatorLetter_params (nick : Str) (rest : List Str) :
    operatorLetter client target channel { m with params := nick :: rest }
      = { operatorLetter client target channel { m with params := [nick] } with params := rest } := by
  unfold operatorLetter
  dsimp only
  cases m.server.findClientByNick nick with
  | none => rfl
  | some q =>
    dsimp only
    split_ifs
    · exact applied_params (m.change target _) _ (ch 'o') _ [] rest
    · exact applied_params (m.change target _) _ (ch 'o') _ [] rest
    · rfl
    · rfl

/-- A branch that takes a parameter takes the next one. -/
theorem drop_paramIndex (h : paramIndex < params.length) :
    ∃ p, params[paramIndex]? = some p ∧ params.drop paramIndex = p :: params.drop (paramIndex + 1) :=
  ⟨params[paramIndex], List.getElem?_eq_getElem h, List.drop_eq_getElem_cons h⟩

theorem sameLoop_keyLetter? : ∃ l, keyLetter? params client target channel m paramIndex = some l
    ∧ SameLoop params l
      (keyLetter client target channel { m with params := params.drop paramIndex }) := by
  unfold keyLetter?
  by_cases hmore : paramIndex < params.length
  · obtain ⟨key, hread, hdrop⟩ := drop_paramIndex hmore
    rw [if_pos hmore, hread, hdrop]
    exact ⟨_, rfl, keyLetter_params key _⟩
  · rw [if_neg hmore, List.drop_eq_nil_of_le (by omega)]
    exact ⟨_, rfl, by rw [SameLoop, List.drop_eq_nil_of_le (by omega)]; rfl⟩

theorem sameLoop_operatorLetter? :
    ∃ l, operatorLetter? params client target channel m paramIndex = some l
      ∧ SameLoop params l
        (operatorLetter client target channel { m with params := params.drop paramIndex }) := by
  unfold operatorLetter?
  by_cases hmore : paramIndex < params.length
  · obtain ⟨nick, hread, hdrop⟩ := drop_paramIndex hmore
    rw [if_pos hmore, hread, hdrop]
    exact ⟨_, rfl, operatorLetter_params nick _⟩
  · rw [if_neg hmore, List.drop_eq_nil_of_le (by omega)]
    exact ⟨_, rfl, by rw [SameLoop, List.drop_eq_nil_of_le (by omega)]; rfl⟩

theorem sameLoop_limitLetter? :
    ∃ l, limitLetter? params client target channel m paramIndex = some l
      ∧ SameLoop params l
        (limitLetter client target channel { m with params := params.drop paramIndex }) := by
  have happlied : ∀ (m : ModeLoop) (isPlus : Bool) (piece rest),
      ModeLoop.applied { m with params := rest } isPlus (ch 'l') piece
        = { m.applied isPlus (ch 'l') piece with params := rest } := fun m isPlus piece rest =>
    applied_params m isPlus (ch 'l') piece m.params rest
  unfold limitLetter? limitLetter
  dsimp only
  by_cases hplus : m.isPlus = true
  · rw [if_pos hplus, if_pos hplus]
    by_cases hmore : paramIndex < params.length
    · obtain ⟨limitStr, hread, hdrop⟩ := drop_paramIndex hmore
      have hdigits : (indices 0 limitStr.length).allM (fun j => (limitStr[j]?).map isDigit)
          = some (limitStr.all isDigit) := by
        refine Indices.allM_eq (Nat.zero_add _).symm fun j b hb => ?_
        rw [Nat.zero_add, hb]
        rfl
      rw [if_pos hmore, hread, hdrop]
      dsimp only [Option.bind_eq_bind, Option.bind_some]
      rw [hdigits]
      dsimp only [Option.bind_some]
      split_ifs
      · exact ⟨_, rfl, rfl⟩
      · exact ⟨_, rfl, happlied (m.change target _) true _ _⟩
      · exact ⟨_, rfl, rfl⟩
    · rw [if_neg hmore, List.drop_eq_nil_of_le (by omega)]
      exact ⟨_, rfl, by rw [SameLoop, List.drop_eq_nil_of_le (by omega)]⟩
  · rw [if_neg hplus, if_neg hplus]
    split_ifs
    · exact ⟨_, rfl, happlied (m.change target _) false _ _⟩
    · exact ⟨_, rfl, rfl⟩

/-- A turn of one loop is a turn of the other. -/
theorem sameLoop_modeLetter? {l : ModeLoop × ℕ} (h : SameLoop params l m) (c : Byte) :
    ∃ l', modeLetter? params client target l c = some l'
      ∧ SameLoop params l' (modeLetter client target m c) := by
  obtain ⟨m', paramIndex⟩ := l
  have hparams : ∀ (m : ModeLoop) (letter : Byte) (rest : List Str),
      ModeLoop.applied { m with params := rest } m.isPlus letter []
        = { m.applied m.isPlus letter [] with params := rest } := fun m letter rest =>
    applied_params m m.isPlus letter [] m.params rest
  rw [SameLoop] at h
  subst h
  unfold modeLetter? modeLetter
  dsimp only
  cases m'.server.findChannel target with
  | none => exact ⟨_, rfl, rfl⟩
  | some channel =>
    dsimp only
    split_ifs
    · exact ⟨_, rfl, rfl⟩
    · exact ⟨_, rfl, rfl⟩
    · refine ⟨_, rfl, ?_⟩
      unfold inviteOnlyLetter
      dsimp only
      split_ifs
      · exact hparams (m'.change target _) (ch 'i') _
      · rfl
    · refine ⟨_, rfl, ?_⟩
      unfold topicLetter
      dsimp only
      split_ifs
      · exact hparams (m'.change target _) (ch 't') _
      · rfl
    · exact sameLoop_keyLetter?
    · exact sameLoop_limitLetter?
    · exact sameLoop_operatorLetter?
    · exact ⟨_, rfl, rfl⟩

theorem sameLoop_modeLoop? {l : ModeLoop × ℕ} (h : SameLoop params l m) (modeString : Str) :
    ∃ l', modeLoop? params client target modeString l = some l'
      ∧ SameLoop params l' (modeLoop client target modeString m) := by
  unfold modeLoop? modeLoop
  refine Indices.foldlM_simulates (Nat.zero_add _).symm (fun i c l m hread hl => ?_) h
  rw [Nat.zero_add, hread]
  exact sameLoop_modeLetter? hl c

end Same

/-- With a target that is not empty, all accesses are in range. -/
theorem execute?_eq {s : Server} {client : Ptr} {params : List Str} (h : params.head? ≠ some []) :
    execute? s client params = some (execute s client params) := by
  rcases params with _ | ⟨_ | ⟨first, name⟩, rest⟩
  · rfl
  · exact absurd rfl h
  generalize htarget : first :: name = target
  have hread : target[0]? = some first := htarget ▸ rfl
  have hhead : target.head? = some first := htarget ▸ rfl
  unfold execute? execute
  simp only [List.isEmpty_cons, Bool.false_eq_true, if_false, List.getElem?_cons_zero,
    Option.bind_eq_bind, Option.bind_some, hread, hhead, ne_eq, Option.some_inj]
  by_cases hname : ¬ first = ch '#' ∧ ¬ first = ch '&'
  · rw [if_pos hname, if_pos hname]
  rw [if_neg hname, if_neg hname]
  cases s.findChannel target with
  | none => rfl
  | some channel =>
    rcases rest with _ | ⟨modeString, arguments⟩
    · rfl
    · have hmore : ¬ (target :: modeString :: arguments).length = 1 := by
        simp only [List.length_cons]
        omega
      -- the loop starts behind the target and the mode string
      have hstart : SameLoop (target :: modeString :: arguments)
          ({ server := s, params := [] }, 2) { server := s, params := arguments } := rfl
      obtain ⟨l, hloop, hl⟩ := sameLoop_modeLoop? hstart modeString
      have hbroadcast : broadcastModes client target l.1
          = broadcastModes client target
            (modeLoop client target modeString { server := s, params := arguments }) := by
        rw [show modeLoop client target modeString _ = _ from hl]
        rfl
      dsimp only
      rw [if_neg hmore]
      split_ifs with hop
      · rfl
      · show ((unknownLetter? modeString).bind _) = _
        rw [unknownLetter?_eq, Option.bind_some]
        cases unknownLetter modeString with
        | some c => rfl
        | none =>
          dsimp only
          rw [hloop, ← hbroadcast]
          rfl

/-- An empty target has no first character. -/
theorem execute?_eq_none {s : Server} {client : Ptr} {params : List Str} (h : params.head? = some []) :
    execute? s client params = none := by
  rcases params with _ | ⟨_ | ⟨first, name⟩, rest⟩
  · cases h
  · rfl
  · cases h

end ModeCommand

/-! ## The dispatch -/

/-- `Command::execute`. -/
def Command.execute? : Command → Server → Ptr → List Str → Option Server
  | .pass => PassCommand.execute?
  | .nick => NickCommand.execute?
  | .user => UserCommand.execute?
  | .join => JoinCommand.execute?
  | .privmsg => PrivmsgCommand.execute?
  | .kick => KickCommand.execute?
  | .invite => InviteCommand.execute?
  | .topic => TopicCommand.execute?
  | .mode => ModeCommand.execute?

namespace Server

/-- `processLine` on a parsed line. -/
def processMessage? (s : Server) (client : Ptr) (message : Message) : Option Server :=
  let commandName := message.command
  if commandName = [] then some s
  else if commandName = lit "CAP" then
    if message.params.isEmpty then some s
    else do
      let param ← message.params[0]?
      let subcommand ← toUpperCase? param
      if subcommand = lit "LS" then some (s.sendMessage client (lit ":server CAP * LS :\r\n"))
      else some s
  else if commandName = lit "PING" then do
    let pingToken ← (if message.params.isEmpty then some (lit "ft_irc") else message.params[0]?)
    some (s.sendMessage client (lit ":server PONG server :" ++ pingToken ++ lit "\r\n"))
  else if commandName = lit "QUIT" then do
    let quitReason ← (if message.params.isEmpty then some (lit "Client Quit") else message.params[0]?)
    some (s.modify client (·.markClosing (lit "Quit: " ++ quitReason)))
  else
    match commands.lookup commandName with
    | none =>
      some (s.sendMessage client
        (lit ":server 421 " ++ displayName (s.client client) ++ lit " " ++ commandName
          ++ lit " :Unknown command\r\n"))
    | some command =>
      if command ≠ .pass ∧ (s.client client).passOk = false then
        some (s.sendMessage client (lit ":server 451 * :You have not registered\r\n"))
      else if command ≠ .pass ∧ command ≠ .nick ∧ command ≠ .user
          ∧ (s.client client).isRegistered = false then
        some (s.sendMessage client
          (lit ":server 451 " ++ displayName (s.client client)
            ++ lit " :You have not registered\r\n"))
      else command.execute? s client message.params

/-- `processLine`. -/
def processLine? (s : Server) (client : Ptr) (rawLine : Str) : Option Server := do
  let message ← Parser.parse? rawLine
  s.processMessage? client message

end Server

/-- The command of a registered client is MODE, and its first parameter is empty. -/
def Message.EmptyTarget (m : Message) (s : Server) (c : Ptr) : Prop :=
  (s.client c).isRegistered = true ∧ m.handler = some .mode ∧ m.params.head? = some []

instance (m : Message) (s : Server) (c : Ptr) : Decidable (m.EmptyTarget s c) :=
  inferInstanceAs (Decidable (_ ∧ _))

theorem Command.execute?_eq (k : Command) (s : Server) (client : Ptr) (params : List Str) :
    k.execute? s client params
      = if k = .mode ∧ params.head? = some [] then none else some (k.execute s client params) := by
  cases k with
  | mode =>
    by_cases h : params.head? = some []
    · rw [if_pos ⟨rfl, h⟩]
      exact ModeCommand.execute?_eq_none h
    · rw [if_neg fun hmode => h hmode.2]
      exact ModeCommand.execute?_eq h
  | pass => exact PassCommand.execute?_eq s client params
  | nick => exact NickCommand.execute?_eq s client params
  | user => exact UserCommand.execute?_eq s client params
  | join => exact JoinCommand.execute?_eq s client params
  | privmsg => exact PrivmsgCommand.execute?_eq s client params
  | kick => exact KickCommand.execute?_eq s client params
  | invite => exact InviteCommand.execute?_eq s client params
  | topic => exact TopicCommand.execute?_eq s client params

theorem Server.processMessage?_eq (s : Server) (client : Ptr) (m : Message) :
    s.processMessage? client m
      = if m.EmptyTarget s client then none else some (s.processMessage client m) := by
  -- what is not in the table is not MODE
  have hother : ∀ name, commands.lookup name = none → m.command = name → ¬ m.EmptyTarget s client := by
    rintro _ hname rfl h
    exact absurd (hname.symm.trans h.2.1) (by decide)
  unfold processMessage? processMessage
  dsimp only
  by_cases hnil : m.command = []
  · rw [if_pos hnil, if_pos hnil, if_neg (hother _ (by decide) hnil)]
  rw [if_neg hnil, if_neg hnil]
  by_cases hcap : m.command = lit "CAP"
  · rw [if_pos hcap, if_pos hcap, if_neg (hother _ (by decide) hcap)]
    cases m.params with
    | nil => rfl
    | cons param rest =>
      show ((toUpperCase? param).bind _) = _
      rw [toUpperCase?_eq, apply_ite some]
      rfl
  rw [if_neg hcap, if_neg hcap]
  by_cases hping : m.command = lit "PING"
  · rw [if_pos hping, if_pos hping, if_neg (hother _ (by decide) hping)]
    cases m.params <;> rfl
  rw [if_neg hping, if_neg hping]
  by_cases hquit : m.command = lit "QUIT"
  · rw [if_pos hquit, if_pos hquit, if_neg (hother _ (by decide) hquit)]
    cases m.params <;> rfl
  rw [if_neg hquit, if_neg hquit]
  cases hlookup : commands.lookup m.command with
  | none => rw [if_neg (hother _ hlookup rfl)]
  | some k =>
    dsimp only
    by_cases hpass : k ≠ .pass ∧ (s.client client).passOk = false
    · have hempty : ¬ m.EmptyTarget s client := by
        rintro ⟨hreg, _⟩
        rw [Client.isRegistered, hpass.2] at hreg
        exact Bool.false_ne_true hreg
      rw [if_pos hpass, if_pos hpass, if_neg hempty]
    rw [if_neg hpass, if_neg hpass]
    by_cases hgate : k ≠ .pass ∧ k ≠ .nick ∧ k ≠ .user ∧ (s.client client).isRegistered = false
    · have hempty : ¬ m.EmptyTarget s client := fun h => by
        exact absurd (h.1.symm.trans hgate.2.2.2) (by decide)
      rw [if_pos hgate, if_pos hgate, if_neg hempty]
    rw [if_neg hgate, if_neg hgate, Command.execute?_eq]
    have hempty : m.EmptyTarget s client ↔ k = .mode ∧ m.params.head? = some [] := by
      constructor
      · rintro ⟨_, hmode, hhead⟩
        exact ⟨Option.some_inj.mp (hlookup.symm.trans hmode), hhead⟩
      · rintro ⟨rfl, hhead⟩
        refine ⟨?_, hlookup, hhead⟩
        by_contra hreg
        exact hgate ⟨by decide, by decide, by decide, Bool.eq_false_iff.mpr hreg⟩
    simp only [hempty]

/-- Handling a line reads no vector and no string at its size or behind it, unless the line is a MODE
of a registered client with an empty first parameter; there it does. Nor do the methods that
the commands call. -/
theorem accesses_in_range (s : Server) (client : Ptr) (line : Str) :
    ((s.processLine? client line).isSome = true ↔ ¬ (Parser.parse line).EmptyTarget s client)
    ∧ (¬ (Parser.parse line).EmptyTarget s client →
      s.processLine? client line = some (s.processLine client line))
    ∧ (∀ channel message sender, s.broadcastMessage? channel message sender
        = some (s.broadcastMessage channel message sender))
    ∧ (∀ recipients message, s.sendAll? recipients message = some (s.sendAll recipients message))
    ∧ (∀ recipients members, Server.collect? recipients members
        = some (Server.collect recipients members))
    ∧ (∀ text, toIrcLowerCase? text = some (toIrcLowerCase text))
    ∧ ∀ message, isValidOutboundMessage? message = some (isValidOutboundMessage message) := by
  have hline : s.processLine? client line
      = if (Parser.parse line).EmptyTarget s client then none else some (s.processLine client line) := by
    rw [Server.processLine?, Parser.parse?_eq]
    exact s.processMessage?_eq client (Parser.parse line)
  refine ⟨?_, fun h => by rw [hline, if_neg h], s.broadcastMessage?_eq, s.sendAll?_eq,
    Server.collect?_eq, toIrcLowerCase?_eq, isValidOutboundMessage?_eq⟩
  rw [hline]
  split_ifs with h
  · exact iff_of_false (by decide) (not_not_intro h)
  · exact iff_of_true rfl h

/-- A registered client sends a MODE line whose target is an empty trailing part. -/
theorem empty_target_read :
    Reachable sample ∧ sample.AdmitsAll [.read 4 (.data (lit "MODE :\r\n"))]
      ∧ (sample.client 0).isRegistered = true
      ∧ (Parser.parse (lit "MODE :")).params = [[]]
      ∧ (sample.processLine? 0 (lit "MODE :")).isSome = false := by
  refine ⟨reachable_sample, ?_⟩
  decide +kernel

end FtIrc
