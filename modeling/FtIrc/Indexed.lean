import FtIrc.ComposedLine
import FtIrc.Lib.Indices

/-!
# The accesses by index

The parser, the dispatch and the commands once more, with each `xs[i]` of the source as `xs[i]?`:
a body is `none` as soon as it reads a vector or a string at its size or behind it. The loops run
over the indices the source runs over. A read that is repeated under the same guard is made once.
-/

namespace FtIrc

open Bytes

/-- `toUpperCase`, and the two loops over the command in `Parser::parse`. -/
def toUpperCase? (text : Str) : Option Str := replaceInPlace toUpper text

theorem toUpperCase?_eq (text : Str) : toUpperCase? text = some (text.map toUpper) :=
  Indices.replaceInPlace_eq toUpper text

/-! ## Methods that commands call -/

/-- `toIrcLowerCase`. -/
def toIrcLowerCase? (text : Str) : Option Str := replaceInPlace toIrcLower text

theorem toIrcLowerCase?_eq (text : Str) : toIrcLowerCase? text = some (toIrcLowerCase text) :=
  Indices.replaceInPlace_eq toIrcLower text

/-- `isValidOutboundMessage`. -/
def isValidOutboundMessage? (message : Str) : Option Bool :=
  if message.isEmpty || decide (message.length > maxIrcMessageSize) then some false
  else if message.length < 2 then some false
  else do
    let beforeLast ← message[message.length - 2]?
    let last ← message[message.length - 1]?
    if beforeLast ≠ cr ∨ last ≠ lf then some false
    else
      (indices 0 (message.length - 2)).allM fun i =>
        (message[i]?).map fun b => !(b == nul || b == cr || b == lf)

theorem isValidOutboundMessage?_eq (message : Str) :
    isValidOutboundMessage? message = some (isValidOutboundMessage message) := by
  unfold isValidOutboundMessage? isValidOutboundMessage
  by_cases hsize : (message.isEmpty || decide (message.length > maxIrcMessageSize)) = true
  · rw [if_pos hsize, if_pos hsize]
  rw [if_neg hsize, if_neg hsize]
  by_cases hshort : message.length < 2
  · rw [if_pos hshort, if_pos]
    rw [decide_eq_true hshort, Bool.true_or]
  -- the last two bytes apart from the others
  obtain ⟨a, b, hend⟩ := List.length_eq_two.mp (show (message.drop (message.length - 2)).length = 2 by
    rw [List.length_drop]
    omega)
  have hlen : (message.take (message.length - 2)).length = message.length - 2 := by
    rw [List.length_take]
    omega
  have hread : ∀ i, message[message.length - 2 + i]? = [a, b][i]? := by
    intro i
    rw [← hend, List.getElem?_drop]
  have hlast : message.length - 1 = message.length - 2 + 1 := by omega
  have hbytes : (indices 0 (message.length - 2)).allM (fun i => (message[i]?).map fun b =>
      !(b == nul || b == cr || b == lf))
        = some ((message.take (message.length - 2)).all fun b => b != nul && b != cr && b != lf) := by
    refine Indices.allM_eq (by rw [hlen, Nat.zero_add]) fun i b hb => ?_
    rw [List.getElem?_take] at hb
    split_ifs at hb
    rw [Nat.zero_add, hb, Option.map_some]
    simp only [Bool.not_or, bne]
  rw [if_neg hshort, hbytes, hend, hlast, hread 1, show message[message.length - 2]? = _ from hread 0,
    decide_eq_false hshort, Bool.false_or]
  show (if a ≠ cr ∨ b ≠ lf then some false else _) = some (if ([a, b] != [cr, lf]) = true then _ else _)
  have hcrlf : ([a, b] != [cr, lf]) = true ↔ a ≠ cr ∨ b ≠ lf := by
    rw [bne_iff_ne, ne_eq, List.cons.injEq, List.cons.injEq, and_iff_left rfl, not_and_or]
  rw [apply_ite some]
  simp only [hcrlf]

namespace Server

/-- `Channel::broadcastMessage`. -/
def broadcastMessage? (s : Server) (channel : Channel) (message : Str) (sender : Option Ptr) :
    Option Server :=
  (indices 0 channel.members.length).foldlM (fun s i =>
    (channel.members[i]?).map fun p => if some p = sender then s else s.sendMessage p message) s

/-- The loop that collects the members of one channel for `broadcastNicknameChange`. -/
def collect? (recipients members : List Ptr) : Option (List Ptr) :=
  (indices 0 members.length).foldlM (fun recipients i =>
    (members[i]?).map fun p => if p ∈ recipients then recipients else recipients ++ [p]) recipients

/-- The loop over the recipients. -/
def sendAll? (s : Server) (recipients : List Ptr) (message : Str) : Option Server :=
  (indices 0 recipients.length).foldlM (fun s i =>
    (recipients[i]?).map fun p => s.sendMessage p message) s

theorem broadcastMessage?_eq (s : Server) (channel : Channel) (message : Str) (sender : Option Ptr) :
    s.broadcastMessage? channel message sender
      = some (s.broadcastMessage channel message sender) := by
  have hloop : (channel.members.foldl
      (fun s p => if some p = sender then s else s.sendMessage p message) s)
        = s.broadcastMessage channel message sender := by
    rw [broadcastMessage, sendAll, List.foldl_filter]
    simp only [bne_iff_ne, ne_eq, ite_not]
  rw [← hloop]
  refine Indices.foldlM_eq (Nat.zero_add _).symm (fun i p s hread => ?_) s
  rw [Nat.zero_add, hread]
  rfl

theorem collect?_eq (recipients members : List Ptr) :
    collect? recipients members = some (collect recipients members) := by
  refine Indices.foldlM_eq (Nat.zero_add _).symm (fun i p rs hread => ?_) recipients
  rw [Nat.zero_add, hread]
  rfl

theorem sendAll?_eq (s : Server) (recipients : List Ptr) (message : Str) :
    s.sendAll? recipients message = some (s.sendAll recipients message) := by
  refine Indices.foldlM_eq (Nat.zero_add _).symm (fun i p s hread => ?_) s
  rw [Nat.zero_add, hread]
  rfl

end Server

/-! ## The parser -/

namespace Parser

/-- The carriage return at the end of the line. -/
def dropFinalCr? (text : Str) : Option Str :=
  if text.isEmpty then some text
  else text[text.length - 1]?.map fun b => if b = cr then text.dropLast else text

/-- The loop over the words in front of the trailing part. -/
def assemble? (ws trailing : List Str) : Option Message :=
  match ws with
  | [] => some {}
  | word :: rest => do
    let first ← word[0]?
    if first = colon then
      let command ← toUpperCase? (rest.headD [])
      some { origin := word.tail, command, params := rest.tail ++ trailing }
    else
      let command ← toUpperCase? word
      some { command, params := rest ++ trailing }

/-- `Parser::parse`. -/
def parse? (rawLine : Str) : Option Message := do
  let line ← dropFinalCr? rawLine
  if line = [] then some {}
  else
    match cut (lit " :") line with
    | some (base, rest) => assemble? (words base) [rest]
    | none => assemble? (words line) []

theorem dropFinalCr?_eq (text : Str) : dropFinalCr? text = some (dropFinalCr text) := by
  unfold dropFinalCr? dropFinalCr
  cases text with
  | nil => rfl
  | cons b rest =>
    have hlast : (b :: rest).length - 1 < (b :: rest).length := by
      rw [List.length_cons]
      omega
    rw [List.getLast?_eq_getElem?, List.getElem?_eq_getElem hlast, Option.map_some]
    simp only [List.isEmpty_cons, Option.some_inj, Bool.false_eq_true, if_false]

/-- A word that was read is not empty. -/
theorem assemble?_eq {ws : List Str} (h : ∀ w ∈ ws, w ≠ []) (trailing : List Str) :
    assemble? ws trailing = some (assemble ws trailing) := by
  cases ws with
  | nil => rfl
  | cons word rest =>
    obtain ⟨first, tail, rfl⟩ := List.exists_cons_of_ne_nil (h word List.mem_cons_self)
    rw [assemble?, assemble]
    show (if first = colon then _ else _) = some (if some first = some colon then _ else _)
    by_cases hcolon : first = colon
    · rw [if_pos hcolon, if_pos (congrArg some hcolon), toUpperCase?_eq]
      rfl
    · rw [if_neg hcolon, if_neg fun h => hcolon (Option.some_inj.mp h), toUpperCase?_eq]
      rfl

theorem parse?_eq (rawLine : Str) : parse? rawLine = some (parse rawLine) := by
  have hwords : ∀ s, ∀ w ∈ words s, w ≠ [] := fun s w hw => (of_mem_words hw).1
  rw [parse_eq, parse?, dropFinalCr?_eq]
  show (if dropFinalCr rawLine = [] then some ({} : Message) else _) = _
  split_ifs
  · rfl
  · cases cut (lit " :") (dropFinalCr rawLine) with
    | none => exact assemble?_eq (hwords _) _
    | some p => exact assemble?_eq (hwords _) _

end Parser

/-! ## PASS, NICK and USER -/

/-- `PassCommand::execute`. -/
def PassCommand.execute? (s : Server) (client : Ptr) (params : List Str) : Option Server :=
  let name := displayName (s.client client)
  let missing :=
    s.sendMessage client (lit ":server 461 " ++ name ++ lit " PASS :Not enough parameters\r\n")
  if (s.client client).passOk then
    some (s.sendMessage client (lit ":server 462 " ++ name ++ lit " :You may not reregister\r\n"))
  else if params.isEmpty then some missing
  else do
    let given ← params[0]?
    if given.isEmpty then some missing
    else if given = s.password then some (s.modify client fun x => { x with passOk := true })
    else
      let s := s.modify client (·.recordFailedPassAttempt)
      let s := s.sendMessage client (lit ":server 464 " ++ name ++ lit " :Password incorrect\r\n")
      if (s.client client).failedPassAttempts ≥ maxFailedPassAttempts then
        some (s.modify client (·.markClosing (lit "too many invalid PASS attempts")))
      else some s

theorem PassCommand.execute?_eq (s : Server) (client : Ptr) (params : List Str) :
    execute? s client params = some (execute s client params) := by
  unfold execute? execute
  cases params with
  | nil =>
    simp only [List.isEmpty_nil, List.headD_nil, if_true]
    split_ifs <;> rfl
  | cons given rest =>
    rw [List.headD_cons]
    simp only [List.isEmpty_cons, List.getElem?_cons_zero, Option.bind_eq_bind, Option.bind_some,
      List.isEmpty_iff, Bool.false_eq_true, if_false, apply_ite some]

namespace NickCommand

/-- `isValidNickname`. -/
def isValidNickname? (nickname : Str) : Option Bool :=
  if nickname.isEmpty || decide (nickname.length > maxNicknameLength) then some false
  else do
    let first ← nickname[0]?
    if first ∉ validFirstCharacters then some false
    else
      (indices 1 nickname.length).allM fun index =>
        (nickname[index]?).map fun b => decide (b ∈ validRemainingCharacters)

/-- `NickCommand::execute`. -/
def execute? (s : Server) (client : Ptr) (params : List Str) : Option Server :=
  let missing := s.sendMessage client (lit ":server 431 * :No nickname given\r\n")
  if params.isEmpty then some missing
  else do
    let newNickname ← params[0]?
    if newNickname.isEmpty then some missing
    else
      let currentNickname := displayName (s.client client)
      let valid ← isValidNickname? newNickname
      if !valid then
        some (s.sendMessage client
          (lit ":server 432 " ++ currentNickname ++ lit " " ++ newNickname
            ++ lit " :Erroneous nickname\r\n"))
      else
        let nicknameOwner := s.findClientByNick newNickname
        if nicknameOwner ≠ none ∧ nicknameOwner ≠ some client then
          some (s.sendMessage client
            (lit ":server 433 " ++ currentNickname ++ lit " " ++ newNickname
              ++ lit " :Nickname is already in use\r\n"))
        else
          let wasRegistered := (s.client client).isRegistered
          let oldNickname := s.nickname client
          let s := s.modify client fun x => { x with nickname := newNickname, nickSet := true }
          let s :=
            if wasRegistered && oldNickname != newNickname then
              s.broadcastNicknameChange client oldNickname newNickname
            else s
          if !wasRegistered && (s.client client).isRegistered then
            some (s.sendMessage client (welcome (s.nickname client) (s.username client)))
          else some s

theorem isValidNickname?_eq (nickname : Str) :
    isValidNickname? nickname = some (isValidNickname nickname) := by
  cases nickname with
  | nil => rfl
  | cons first remaining =>
    have hremaining : (indices 1 (first :: remaining).length).allM (fun index =>
        ((first :: remaining)[index]?).map fun b => decide (b ∈ validRemainingCharacters))
          = some (remaining.all fun b => decide (b ∈ validRemainingCharacters)) := by
      refine Indices.allM_eq (by rw [List.length_cons, Nat.add_comm]) fun i b hb => ?_
      rw [Nat.add_comm, List.getElem?_cons_succ, hb]
      rfl
    simp only [isValidNickname?, isValidNickname, hremaining, List.isEmpty_cons, Bool.false_or,
      decide_eq_true_eq, List.getElem?_cons_zero, Option.bind_eq_bind, Option.bind_some, gt_iff_lt]
    by_cases hlen : maxNicknameLength < (first :: remaining).length
    · rw [if_pos hlen, decide_eq_false (by omega)]
      rfl
    · rw [if_neg hlen, decide_eq_true (by omega)]
      by_cases hfirst : first ∈ validFirstCharacters
      · rw [if_neg (not_not_intro hfirst), decide_eq_true hfirst]
        rfl
      · rw [if_pos hfirst, decide_eq_false hfirst]
        rfl

theorem execute?_eq (s : Server) (client : Ptr) (params : List Str) :
    execute? s client params = some (execute s client params) := by
  unfold execute? execute
  cases params with
  | nil => rfl
  | cons newNickname rest =>
    dsimp only
    rw [List.headD_cons]
    simp only [List.isEmpty_cons, List.getElem?_cons_zero, Option.bind_eq_bind, Option.bind_some,
      List.isEmpty_iff, Bool.false_eq_true, if_false, isValidNickname?_eq,
      apply_ite some]

end NickCommand

namespace UserCommand

/-- `isValidUsername`. -/
def isValidUsername? (username : Str) : Option Bool :=
  if username.isEmpty || decide (username.length > maxUsernameLength) then some false
  else
    (indices 0 username.length).allM fun i =>
      (username[i]?).map fun b =>
        !(b == ch '@' || b == ch '!' || b == sp || b == nul || b == cr || b == lf)

/-- `UserCommand::execute`. -/
def execute? (s : Server) (client : Ptr) (params : List Str) : Option Server :=
  let name := displayName (s.client client)
  if (s.client client).userSet then
    some (s.sendMessage client (lit ":server 462 " ++ name ++ lit " :You may not reregister\r\n"))
  else if params.length < 4 then
    some (s.sendMessage client
      (lit ":server 461 " ++ name ++ lit " USER :Not enough parameters\r\n"))
  else do
    let username ← params[0]?
    let valid ← isValidUsername? username
    if !valid then
      some (s.sendMessage client
        (lit ":server 468 " ++ name ++ lit " " ++ username ++ lit " :Invalid username\r\n"))
    else
      let s := s.modify client fun x => { x with username, userSet := true }
      if (s.client client).isRegistered then
        some (s.sendMessage client (welcome (s.nickname client) (s.username client)))
      else some s

theorem isValidUsername?_eq (username : Str) :
    isValidUsername? username = some (isValidUsername username) := by
  have hbytes : (indices 0 username.length).allM (fun i => (username[i]?).map fun b =>
      !(b == ch '@' || b == ch '!' || b == sp || b == nul || b == cr || b == lf))
        = some (username.all fun b =>
          b != ch '@' && b != ch '!' && b != sp && b != nul && b != cr && b != lf) := by
    refine Indices.allM_eq (Nat.zero_add _).symm fun i b hb => ?_
    rw [Nat.zero_add, hb, Option.map_some]
    simp only [Bool.not_or, bne]
  simp only [isValidUsername?, isValidUsername, hbytes]
  by_cases hempty : username.isEmpty = true
  · rw [hempty]
    rfl
  · rw [Bool.eq_false_iff.mpr hempty]
    by_cases hlen : maxUsernameLength < username.length
    · rw [decide_eq_true hlen, decide_eq_false (by omega)]
      rfl
    · rw [decide_eq_false hlen, decide_eq_true (by omega)]
      rfl

theorem execute?_eq (s : Server) (client : Ptr) (params : List Str) :
    execute? s client params = some (execute s client params) := by
  unfold execute? execute
  rcases params with _ | ⟨username, _ | ⟨b, _ | ⟨c, _ | ⟨d, rest⟩⟩⟩⟩
  -- too short by four, three, two and one
  · simp [apply_ite some]
  · simp [apply_ite some]
  · simp [apply_ite some]
  · simp [apply_ite some]
  · have hfour : ¬ (username :: b :: c :: d :: rest).length < 4 := by
      simp only [List.length_cons]
      omega
    simp only [if_neg hfour, List.getElem?_cons_zero, Option.bind_eq_bind, Option.bind_some,
      isValidUsername?_eq, apply_ite some]

end UserCommand

/-! ## JOIN -/

namespace JoinCommand

/-- `isValidChannelName`. -/
def isValidChannelName? (name : Str) : Option Bool :=
  if name.isEmpty then some false
  else if name.length > 50 then some false
  else do
    let firstChar ← name[0]?
    if firstChar ≠ ch '#' ∧ firstChar ≠ ch '&' then some false
    else
      (indices 0 name.length).allM fun i =>
        (name[i]?).map fun c => !(c == sp || c == comma || c == 7)

/-- The loop that lists the names of the members. -/
def namesList? (s : Server) (channel : Channel) : Option Str :=
  (indices 0 channel.members.length).foldlM (fun namesList j =>
    (channel.members[j]?).map fun p =>
      namesList ++ (if channel.isOperator p then lit "@" else []) ++ s.nickname p
        ++ (if j + 1 < channel.members.length then lit " " else [])) []

/-- What everybody is told after `client` has become a member. -/
def announce? (s : Server) (client : Ptr) (channel : Channel) (channelName : Str)
    (isNewChannel : Bool) : Option Server :=
  let joinMsg := userPrefix s client ++ lit " JOIN :" ++ channelName ++ lit "\r\n"
  let s := s.broadcastMessage channel joinMsg (some client)
  let s := s.sendMessage client joinMsg
  let s :=
    if isNewChannel then s.sendMessage client (lit ":server MODE " ++ channelName ++ lit " +t\r\n")
    else s
  let s :=
    if !channel.topic.isEmpty then
      s.sendMessage client
        (lit ":server 332 " ++ s.nickname client ++ lit " " ++ channelName ++ lit " :"
          ++ channel.topic ++ lit "\r\n")
    else s
  (namesList? s channel).map fun namesList =>
    let s :=
      s.sendMessage client
        (lit ":server 353 " ++ s.nickname client ++ lit " = " ++ channelName ++ lit " :"
          ++ namesList ++ lit "\r\n")
    s.sendMessage client
      (lit ":server 366 " ++ s.nickname client ++ lit " " ++ channelName
        ++ lit " :End of /NAMES list\r\n")

/-- The body of the loop over the channel list. -/
def joinOne? (s : Server) (client : Ptr) (channelName providedKey : Str) : Option Server := do
  let refuse (numeric reason : String) : Option Server :=
    some (s.sendMessage client
      (lit numeric ++ s.nickname client ++ lit " " ++ channelName ++ lit reason))
  let valid ← isValidChannelName? channelName
  if !valid then
    refuse ":server 403 " " :No such channel\r\n"
  else
    match s.findChannel channelName with
    | none =>
      let s := create s client channelName
      match s.findChannel channelName with
      | none => some s
      | some channel => announce? s client channel channelName true
    | some channel =>
      if channel.isMember client then some s
      else if !channel.password.isEmpty && channel.password != providedKey then
        refuse ":server 475 " " :Cannot join channel (+k) - bad key\r\n"
      else if channel.inviteOnly && !channel.isInvited client then
        refuse ":server 473 " " :Cannot join channel (+i) - you must be invited\r\n"
      else if decide (channel.userLimit > 0)
          && decide (channel.getMembersCount ≥ channel.userLimit) then
        refuse ":server 471 " " :Cannot join channel (+l) - channel is full\r\n"
      else
        let s := enter s client channelName
        match s.findChannel channelName with
        | none => some s
        | some channel => announce? s client channel channelName false

/-- A turn of the loop over the channel list. -/
def joinTurn? (client : Ptr) (channels keys : List Str) (s : Server) (i : ℕ) : Option Server := do
  let channelName ← channels[i]?
  let providedKey ← (if i < keys.length then keys[i]? else some [])
  joinOne? s client channelName providedKey

/-- The loop over the channel list. -/
def joinLoop? (s : Server) (client : Ptr) (channels keys : List Str) : Option Server :=
  (indices 0 channels.length).foldlM (joinTurn? client channels keys) s

/-- `JoinCommand::execute`. -/
def execute? (s : Server) (client : Ptr) (params : List Str) : Option Server :=
  if params.isEmpty then
    some (s.sendMessage client
      (lit ":server 461 " ++ s.nickname client ++ lit " JOIN :Not enough parameters\r\n"))
  else do
    let target ← params[0]?
    if target = lit "0" then some (leaveAll s client)
    else do
      let keys ← (if params.length > 1 then (params[1]?).map (splitString · comma) else some [])
      joinLoop? s client (splitString target comma) keys

theorem isValidChannelName?_eq (name : Str) :
    isValidChannelName? name = some (isValidChannelName name) := by
  cases name with
  | nil => rfl
  | cons first rest =>
    have hbytes : (indices 0 (first :: rest).length).allM (fun i => ((first :: rest)[i]?).map fun c =>
        !(c == sp || c == comma || c == 7))
          = some ((first :: rest).all fun b => b != sp && b != comma && b != 7) := by
      refine Indices.allM_eq (Nat.zero_add _).symm fun i b hb => ?_
      rw [Nat.zero_add, hb, Option.map_some]
      simp only [Bool.not_or, bne]
    unfold isValidChannelName? isValidChannelName
    rw [hbytes]
    simp only [List.isEmpty_cons, List.getElem?_cons_zero, Option.bind_eq_bind, Option.bind_some,
      Bool.false_eq_true, if_false]
    by_cases hlen : (first :: rest).length > 50
    · rw [if_pos hlen, decide_eq_false (by omega)]
      rfl
    · rw [if_neg hlen, decide_eq_true (by omega)]
      by_cases hfirst : first ≠ ch '#' ∧ first ≠ ch '&'
      · rw [if_pos hfirst, beq_false_of_ne hfirst.1, beq_false_of_ne hfirst.2]
        rfl
      · have hone : (first == ch '#' || first == ch '&') = true := by
          rw [Bool.or_eq_true, beq_iff_eq, beq_iff_eq]
          by_contra h
          exact hfirst (not_or.mp h)
        rw [if_neg hfirst, hone]
        rfl

theorem namesList?_eq (s : Server) (channel : Channel) :
    namesList? s channel = some (namesList s channel) := by
  have hloop : ∀ (front rest : List Ptr) (text : Str), channel.members = front ++ rest →
      (indices front.length channel.members.length).foldlM (fun namesList j =>
        (channel.members[j]?).map fun p =>
          namesList ++ (if channel.isOperator p then lit "@" else []) ++ s.nickname p
            ++ (if j + 1 < channel.members.length then lit " " else [])) text
        = some (text ++ List.intercalate (lit " ") (rest.map fun p =>
          (if channel.isOperator p then lit "@" else []) ++ s.nickname p)) := by
    intro front rest text hmembers
    have hlen : channel.members.length = front.length + rest.length := by
      rw [hmembers, List.length_append]
    induction rest generalizing front text with
    | nil =>
      rw [Indices.indices_nil (k := front.length) hlen]
      exact congrArg some (List.append_nil text).symm
    | cons p rest ih =>
      rw [List.length_cons] at hlen
      have hread : channel.members[front.length]? = some p := by
        rw [hmembers]
        simp
      have hrest := fun text => ih (front ++ [p]) text (by rw [hmembers]; simp) (by
        rw [List.length_append, List.length_singleton]
        omega)
      rw [List.length_append, List.length_singleton] at hrest
      rw [Indices.indices_cons (by omega), List.foldlM_cons, hread, Option.map_some]
      show (indices (front.length + 1) channel.members.length).foldlM _ _ = _
      rw [hrest]
      cases rest with
      | nil =>
        have hlast : ¬ front.length + 1 < channel.members.length := by
          rw [hlen]
          exact Nat.lt_irrefl _
        rw [if_neg hlast]
        simp [List.intercalate]
      | cons q rest =>
        have hmore : front.length + 1 < channel.members.length := by
          rw [hlen, List.length_cons]
          omega
        rw [if_pos hmore, List.map_cons, List.map_cons, List.map_cons, List.intercalate_cons_cons]
        simp only [List.append_assoc]
  exact hloop [] channel.members [] rfl

theorem announce?_eq (s : Server) (client : Ptr) (channel : Channel) (channelName : Str)
    (isNewChannel : Bool) :
    announce? s client channel channelName isNewChannel
      = some (announce s client channel channelName isNewChannel) := by
  unfold announce? announce
  dsimp only
  rw [namesList?_eq]
  rfl

theorem joinOne?_eq (s : Server) (client : Ptr) (channelName providedKey : Str) :
    joinOne? s client channelName providedKey = some (joinOne s client channelName providedKey) := by
  unfold joinOne? joinOne
  rw [isValidChannelName?_eq]
  dsimp only [Option.bind_eq_bind, Option.bind_some]
  rw [apply_ite some]
  split_ifs with hvalid
  · rfl
  cases s.findChannel channelName with
  | none =>
    dsimp only
    cases (create s client channelName).findChannel channelName with
    | none => rfl
    | some channel => exact announce?_eq ..
  | some channel =>
    dsimp only
    have hentered : (match (enter s client channelName).findChannel channelName with
        | none => some (enter s client channelName)
        | some channel => announce? (enter s client channelName) client channel channelName false)
          = some (match (enter s client channelName).findChannel channelName with
            | none => enter s client channelName
            | some channel => announce (enter s client channelName) client channel channelName false) := by
      cases (enter s client channelName).findChannel channelName with
      | none => rfl
      | some channel => exact announce?_eq ..
    rw [hentered]
    split_ifs <;> rfl

theorem joinLoop?_eq (s : Server) (client : Ptr) (channels keys : List Str) :
    joinLoop? s client channels keys = some (joinLoop s client channels keys) := by
  have hloop : ∀ (front rest : List Str) (s : Server), channels = front ++ rest →
      (indices front.length channels.length).foldlM (joinTurn? client channels keys) s
        = some (joinLoop s client rest (keys.drop front.length)) := by
    intro front rest s hchannels
    have hlen : channels.length = front.length + rest.length := by
      rw [hchannels, List.length_append]
    induction rest generalizing front s with
    | nil =>
      rw [Indices.indices_nil (k := front.length) hlen]
      rfl
    | cons channelName rest ih =>
      rw [List.length_cons] at hlen
      have hread : channels[front.length]? = some channelName := by
        rw [hchannels]
        simp
      have hkey : (if front.length < keys.length then keys[front.length]? else some [])
          = some ((keys.drop front.length).headD []) := by
        rw [List.headD_eq_head?_getD, List.head?_drop]
        split_ifs with hkeys
        · rw [List.getElem?_eq_getElem hkeys]
          rfl
        · rw [List.getElem?_eq_none (by omega)]
          rfl
      have hrest := fun s => ih (front ++ [channelName]) s (by rw [hchannels]; simp) (by
        rw [List.length_append, List.length_singleton]
        omega)
      rw [List.length_append, List.length_singleton] at hrest
      have hturn : joinTurn? client channels keys s front.length
          = some (joinOne s client channelName ((keys.drop front.length).headD [])) := by
        rw [joinTurn?, hread, hkey]
        exact joinOne?_eq ..
      rw [Indices.indices_cons (by omega), List.foldlM_cons, hturn, joinLoop, List.tail_drop]
      exact hrest _
  exact hloop [] channels s rfl

theorem execute?_eq (s : Server) (client : Ptr) (params : List Str) :
    execute? s client params = some (execute s client params) := by
  rcases params with _ | ⟨target, _ | ⟨key, rest⟩⟩
  · rfl
  · show (if target = lit "0" then some _ else joinLoop? s client _ []) = some (if _ then _ else _)
    rw [joinLoop?_eq, apply_ite some]
  · show (if target = lit "0" then some _ else joinLoop? s client _ _) = some (if _ then _ else _)
    rw [joinLoop?_eq, apply_ite some]

end JoinCommand

/-! ## PRIVMSG -/

namespace PrivmsgCommand

/-- `isChannel`. -/
def isChannel? (target : Str) : Option Bool :=
  if target.isEmpty then some false
  else (target[0]?).map fun firstChar => firstChar == ch '#' || firstChar == ch '&'

/-- The body of the loop over the targets. -/
def sendOne? (senderPrefix messageText : Str) (client : Ptr) (s : Server) (currentTarget : Str) :
    Option Server := do
  let refuse (numeric reason : String) : Server :=
    s.sendMessage client
      (lit numeric ++ s.nickname client ++ lit " " ++ currentTarget ++ lit reason)
  let fullMessage :=
    senderPrefix ++ lit " PRIVMSG " ++ currentTarget ++ lit " :" ++ messageText ++ lit "\r\n"
  let channel ← isChannel? currentTarget
  some (
    if channel then
      match s.findChannel currentTarget with
      | none => refuse ":server 401 " " :No such nick/channel\r\n"
      | some channel =>
        if !channel.isMember client then refuse ":server 404 " " :Cannot send to channel\r\n"
        else s.broadcastMessage channel fullMessage (some client)
    else
      match s.findClientByNick currentTarget with
      | none => refuse ":server 401 " " :No such nick/channel\r\n"
      | some targetClient => s.sendMessage targetClient fullMessage)

/-- `PrivmsgCommand::execute`. -/
def execute? (s : Server) (client : Ptr) (params : List Str) : Option Server :=
  if params.isEmpty then
    some (s.sendMessage client
      (lit ":server 411 " ++ s.nickname client ++ lit " :No recipient given (PRIVMSG)\r\n"))
  else if params.length < 2 then
    some (s.sendMessage client
      (lit ":server 412 " ++ s.nickname client ++ lit " :No text to send\r\n"))
  else do
    let targetString ← params[0]?
    let messageText ← params[1]?
    let targetList := splitString targetString comma
    (indices 0 targetList.length).foldlM (fun t i => do
      let currentTarget ← targetList[i]?
      sendOne? (userPrefix s client) messageText client t currentTarget) s

theorem isChannel?_eq (target : Str) : isChannel? target = some (isChannel target) := by
  cases target with
  | nil => rfl
  | cons first rest => rfl

theorem sendOne?_eq (senderPrefix messageText : Str) (client : Ptr) (s : Server)
    (currentTarget : Str) : sendOne? senderPrefix messageText client s currentTarget
      = some (sendOne senderPrefix messageText client s currentTarget) := by
  unfold sendOne?
  rw [isChannel?_eq]
  rfl

theorem execute?_eq (s : Server) (client : Ptr) (params : List Str) :
    execute? s client params = some (execute s client params) := by
  rcases params with _ | ⟨targetString, _ | ⟨messageText, rest⟩⟩
  · rfl
  · rfl
  · refine Indices.foldlM_eq (Nat.zero_add _).symm (fun i currentTarget t hread => ?_) s
    rw [Nat.zero_add, hread]
    exact sendOne?_eq ..

end PrivmsgCommand

/-! ## KICK, INVITE and TOPIC -/

namespace KickCommand

/-- A turn of the loop over the user list. -/
def kickTurn? (reason : Str) (client : Ptr) (channels users : List Str) (s : Server) (i : ℕ) :
    Option Server := do
  let channelName ← (if channels.length = 1 then channels[0]? else channels[i]?)
  let targetNick ← users[i]?
  some (kickOne reason client s channelName targetNick)

/-- `KickCommand::execute`. -/
def execute? (s : Server) (client : Ptr) (params : List Str) : Option Server :=
  let notEnough :=
    s.sendMessage client
      (lit ":server 461 " ++ s.nickname client ++ lit " KICK :Not enough parameters\r\n")
  if params.length < 2 then some notEnough
  else do
    let channelList ← params[0]?
    let userList ← params[1]?
    let channels := splitString channelList comma
    let users := splitString userList comma
    let reason ← (if params.length > 2 then params[2]? else some (lit "No reason given"))
    if channels.length ≠ 1 ∧ channels.length ≠ users.length then some notEnough
    else (indices 0 users.length).foldlM (kickTurn? reason client channels users) s

/-- There is one channel for all users, or one for each. -/
theorem kickLoop?_eq (reason : Str) (client : Ptr) {channels users : List Str}
    (h : channels.length = 1 ∨ channels.length = users.length) (s : Server) :
    (indices 0 users.length).foldlM (kickTurn? reason client channels users) s
      = some ((targets channels users).foldl (fun s e => kickOne reason client s e.1 e.2) s) := by
  by_cases hone : channels.length = 1
  · obtain ⟨channelName, rfl⟩ := List.length_eq_one_iff.mp hone
    rw [targets, List.foldl_map]
    refine Indices.foldlM_eq (Nat.zero_add _).symm (fun i targetNick t hread => ?_) s
    rw [Nat.zero_add, kickTurn?, if_pos hone, hread]
    rfl
  · have hsame : channels.length = users.length := h.resolve_left hone
    have htargets : targets channels users = channels.zip users := by
      unfold targets
      split
      · exact absurd rfl hone
      · rfl
    have hlen : users.length = 0 + (channels.zip users).length := by
      rw [List.length_zip]
      omega
    rw [htargets]
    refine Indices.foldlM_eq hlen (fun i e t hread => ?_) s
    obtain ⟨hchannel, huser⟩ := List.getElem?_zip_eq_some.mp hread
    rw [Nat.zero_add, kickTurn?, if_neg hone, hchannel, huser]
    rfl

theorem execute?_eq (s : Server) (client : Ptr) (params : List Str) :
    execute? s client params = some (execute s client params) := by
  rcases params with _ | ⟨channelList, _ | ⟨userList, rest⟩⟩
  · rfl
  · rfl
  · have hreason : (if (channelList :: userList :: rest).length > 2 then
        (channelList :: userList :: rest)[2]? else some (lit "No reason given"))
          = some (rest.headD (lit "No reason given")) := by
      cases rest <;> rfl
    have hlong : ¬ (channelList :: userList :: rest).length < 2 := by
      simp only [List.length_cons]
      omega
    unfold execute? execute
    dsimp only
    rw [if_neg hlong, hreason]
    show (if _ then _ else (indices 0 (splitString userList comma).length).foldlM _ s) = _
    split_ifs with hlists
    · rfl
    · refine kickLoop?_eq _ client ?_ s
      by_contra h
      exact hlists (not_or.mp h)

end KickCommand

/-- `InviteCommand::execute`. -/
def InviteCommand.execute? (s : Server) (client : Ptr) (params : List Str) : Option Server :=
  if params.length < 2 then
    some (s.sendMessage client
      (lit ":server 461 " ++ s.nickname client ++ lit " INVITE :Not enough parameters\r\n"))
  else do
    let targetNick ← params[0]?
    let channelName ← params[1]?
    let reply (numeric : String) (detail : Str) (reason : String) : Server :=
      s.sendMessage client (lit numeric ++ s.nickname client ++ lit " " ++ detail ++ lit reason)
    some (
      match s.findClientByNick targetNick with
      | none => reply ":server 401 " targetNick " :No such nick/channel\r\n"
      | some targetClient =>
        match s.findChannel channelName with
        | none => reply ":server 403 " channelName " :No such channel\r\n"
        | some channel =>
          if !channel.isMember client then
            reply ":server 442 " channelName " :You're not on that channel\r\n"
          else if channel.isMember targetClient then
            reply ":server 443 " (targetNick ++ lit " " ++ channelName) " :is already on channel\r\n"
          else if channel.inviteOnly && !channel.isOperator client then
            reply ":server 482 " channelName " :You're not channel operator\r\n"
          else
            let s := s.modifyChannel channelName (·.addInvited targetClient)
            let s :=
              s.sendMessage client
                (lit ":server 341 " ++ s.nickname client ++ lit " " ++ targetNick ++ lit " "
                  ++ channelName ++ lit "\r\n")
            s.sendMessage targetClient
              (userPrefix s client ++ lit " INVITE " ++ targetNick ++ lit " :" ++ channelName
                ++ lit "\r\n"))

theorem InviteCommand.execute?_eq (s : Server) (client : Ptr) (params : List Str) :
    execute? s client params = some (execute s client params) := by
  rcases params with _ | ⟨targetNick, _ | ⟨channelName, rest⟩⟩ <;> rfl

/-- `TopicCommand::execute`. -/
def TopicCommand.execute? (s : Server) (client : Ptr) (params : List Str) : Option Server :=
  if params.length < 1 then
    some (s.sendMessage client
      (lit ":server 461 " ++ s.nickname client ++ lit " TOPIC :Not enough parameters\r\n"))
  else do
    let channelName ← params[0]?
    let reply (numeric : String) (reason : Str) : Server :=
      s.sendMessage client
        (lit numeric ++ s.nickname client ++ lit " " ++ channelName ++ reason ++ lit "\r\n")
    match s.findChannel channelName with
    | none => some (reply ":server 403 " (lit " :No such channel"))
    | some channel =>
      if !channel.isMember client then
        some (reply ":server 442 " (lit " :You're not on that channel"))
      else if params.length = 1 then
        if channel.topic.isEmpty then some (reply ":server 331 " (lit " :No topic is set"))
        else some (reply ":server 332 " (lit " :" ++ channel.topic))
      else if channel.topicRestricted && !channel.isOperator client then
        some (reply ":server 482 " (lit " :You're not channel operator"))
      else
        (params[1]?).map fun newTopic =>
          let s := s.modifyChannel channelName fun ch => { ch with topic := newTopic }
          let msg :=
            userPrefix s client ++ lit " TOPIC " ++ channelName ++ lit " :" ++ newTopic
              ++ lit "\r\n"
          let s := s.broadcastMessage channel msg (some client)
          s.sendMessage client msg

theorem TopicCommand.execute?_eq (s : Server) (client : Ptr) (params : List Str) :
    execute? s client params = some (execute s client params) := by
  unfold execute? execute
  rcases params with _ | ⟨channelName, _ | ⟨newTopic, rest⟩⟩
  · rfl
  · show (match s.findChannel channelName with | none => _ | some channel => _) = some _
    dsimp only
    cases s.findChannel channelName with
    | none => rfl
    | some channel => simp [apply_ite some]
  · have hlong : ¬ (channelName :: newTopic :: rest).length < 1 := by
      simp only [List.length_cons]
      omega
    have hmore : ¬ (channelName :: newTopic :: rest).length = 1 := by
      simp only [List.length_cons]
      omega
    rw [if_neg hlong]
    show (match s.findChannel channelName with | none => _ | some channel => _) = some _
    dsimp only
    cases s.findChannel channelName with
    | none => rfl
    | some channel => simp [apply_ite some]

end FtIrc
