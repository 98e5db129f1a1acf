import FtIrc.Authentication
import FtIrc.BotLink
import FtIrc.ComposedLine
import FtIrc.Login
import FtIrc.Showing

/-!
# A bot that runs is registered

The first three lines of the bot take the automaton of PASS, NICK and USER to its end, unless somebody
else has the nickname of the bot; its later lines do not concern the automaton. In the latter case the
server has answered with a 433, and the bot stops when it reads that.
-/

namespace FtIrc

open Bytes Relation

/-! ## What a live client has been offered -/

/-- As long as a client is live, it has accepted whatever was valid of what it has been offered. -/
def Client.Lossless (x : Client) : Prop :=
  x.stopped = false → x.trace.accepted = x.trace.offered.filter isValidOutboundMessage

namespace Client

variable {x y : Client}

theorem lossless_of_stopped (h : x.stopped = true) : x.Lossless :=
  fun live => absurd (h.symm.trans live) (by decide)

theorem Lossless.of_trace (hx : x.Lossless) (hlive : y.stopped = false → x.stopped = false)
    (haccepted : y.trace.accepted = x.trace.accepted) (hoffered : y.trace.offered = x.trace.offered) :
    y.Lossless := by
  intro live
  rw [haccepted, hoffered]
  exact hx (hlive live)

theorem Lossless.sendMessage (hx : x.Lossless) (text : Str) : (x.sendMessage text).Lossless := by
  unfold Client.sendMessage
  dsimp only
  split_ifs with hstopped hinvalid hroom
  · exact lossless_of_stopped hstopped
  · intro live
    have hnone : [text].filter isValidOutboundMessage = [] := by simpa using hinvalid
    show x.trace.accepted = (x.trace.offered ++ [text]).filter isValidOutboundMessage
    rw [List.filter_append, hnone, List.append_nil, hx live]
  · exact lossless_of_stopped (stopped_markDead ..)
  · intro live
    have hone : [text].filter isValidOutboundMessage = [text] := by simpa using hinvalid
    show x.trace.accepted ++ [text] = (x.trace.offered ++ [text]).filter isValidOutboundMessage
    rw [List.filter_append, hone, hx live]

theorem Io.lossless (h : x.Io y) (hx : x.Lossless) : y.Lossless := by
  cases h with
  | received live =>
    exact hx.of_trace (fun _ => live) (accepted_appendToRecvBuffer ..) (offered_appendToRecvBuffer ..)
  | flooded => exact lossless_of_stopped (stopped_markDead ..)
  | rejected live h =>
    have htrace := x.trace_extractLine
    rw [h] at htrace
    exact hx.of_trace (fun _ => live) (by rw [htrace]) (by rw [htrace])
  | eof => exact lossless_of_stopped (markClosing_stopped ..)
  | failed => exact lossless_of_stopped (stopped_markDead ..)
  | sent alive h =>
    unfold consumeSendBuffer
    rw [if_neg (by omega)]
    exact hx.of_trace id rfl rfl
  | retired => exact lossless_of_stopped (stopped_markDead ..)

end Client

theorem OwnUpdate.lossless {c : Ptr} {m : Message} {s : Server} {x x' : Client}
    (h : OwnUpdate c m s x x') (hx : x.Lossless) : x'.Lossless := by
  cases h with
  | authenticate => exact hx.of_trace id rfl rfl
  | failPass =>
    have hcounted : x.recordFailedPassAttempt.Lossless := by
      unfold Client.recordFailedPassAttempt
      split_ifs
      · exact hx.of_trace id rfl rfl
      · exact hx
    unfold Client.failPass
    dsimp only
    split_ifs
    · exact Client.lossless_of_stopped (Client.markClosing_stopped ..)
    · exact hcounted.sendMessage _
  | @takeNickname n =>
    have htaken : ({ x with nickname := n, nickSet := true } : Client).Lossless := hx.of_trace id rfl rfl
    unfold Client.takeNickname
    dsimp only
    split_ifs
    · exact htaken.sendMessage _
    · exact htaken
  | @takeUsername u =>
    have htaken : ({ x with username := u, userSet := true } : Client).Lossless := hx.of_trace id rfl rfl
    unfold Client.takeUsername
    dsimp only
    split_ifs
    · exact htaken.sendMessage _
    · exact htaken
  | quit => exact Client.lossless_of_stopped (Client.markClosing_stopped ..)

theorem Reachable.lossless {s : Server} (h : Reachable s) :
    ∀ p x, s.heap p = some x → x.Lossless := by
  induction h with
  | start => exact fun _ _ h => absurd h (Option.some_ne_none _).symm
  | move _ hmove ih =>
    refine hmove.forall_clients (Q := fun _ x => x.Lossless) ih ?_
    constructor
    · exact fun _ _ _ _ _ => rfl
    · exact fun q x _ hx hio => hio.lossless (ih q x hx)
    · intro q x x' line hx live hextract
      have htrace := Client.extractLine_trace hextract
      exact (ih q x hx).of_trace (fun _ => live) (by rw [htrace]) (by rw [htrace])
    · exact fun _ _ text _ hx => hx.sendMessage text
    · intro q x x₁ x₂ line hx live hextract _ hown
      have htrace := Client.extractLine_trace hextract
      exact hown.lossless ((ih q x hx).of_trace (fun _ => live) (by rw [htrace]) (by rw [htrace]))
    · exact fun _ _ _ _ _ _ _ _ _ hy => hy.of_trace id rfl rfl

/-! ## The lines of the bot -/

/-- The command of a line that begins with a word. -/
theorem Parser.command_of_word {word rest : Str} (hne : word ≠ [])
    (hword : ∀ b ∈ word, isSpace b = false) (hcolon : word.head? ≠ some colon)
    (hcr : cr ∉ word ++ sp :: rest) : (parse (word ++ sp :: rest)).command = word.map toUpper := by
  have hlit : lit " :" = [sp, colon] := by decide
  have hsp : sp ∉ word := fun h => absurd (hword sp h) (by decide)
  have hnil : word ++ sp :: rest ≠ [] := List.append_ne_nil_of_left_ne_nil hne _
  have hassemble : ∀ ws trailing, (assemble (word :: ws) trailing).command = word.map toUpper := by
    intro ws trailing
    rw [assemble, if_neg hcolon]
  rw [parse_eq, dropFinalCr_of_not_mem hcr, if_neg hnil, hlit, cut_append hsp]
  cases hcut : cut [sp, colon] (sp :: rest) with
  | none =>
    rw [Option.map_none]
    dsimp only
    rw [words_append_space hword hne (by decide)]
    exact hassemble ..
  | some p =>
    obtain ⟨front, trailing⟩ := p
    rw [Option.map_some]
    dsimp only
    -- what stands in front of the trailing part is the word, and perhaps a blank and more
    cases front with
    | nil =>
      rw [List.append_nil, words_of_not_isSpace hword hne]
      exact hassemble ..
    | cons b front =>
      have hline := eq_of_cut hcut
      rw [List.cons_append, List.cons_append, List.cons.injEq] at hline
      rw [← hline.1, words_append_space hword hne (by decide)]
      exact hassemble ..

/-- Lines without PASS, NICK and USER leave the automaton where it is. -/
theorem Client.Identity.foldl_login_other {password : Str} {i : Identity} {entries : List (Str × Bool)}
    (h : ∀ e ∈ entries, (Parser.parse e.1).handler ∉ [some .pass, some .nick, some .user]) :
    entries.foldl (fun i e => i.login password (Parser.parse e.1) e.2) i = i := by
  induction entries with
  | nil => rfl
  | cons e entries ih =>
    have hother : (Parser.parse e.1).handler ≠ some .pass ∧ (Parser.parse e.1).handler ≠ some .nick
        ∧ (Parser.parse e.1).handler ≠ some .user := by
      simpa using h e List.mem_cons_self
    rw [List.foldl_cons, login_other hother.1 hother.2.1 hother.2.2]
    exact ih fun e he => h e (List.mem_cons_of_mem _ he)

namespace Bot

variable {bot bot' : Bot} {line : Str}

/-- No answer of the bot is one. -/
theorem handler_of_mem_answers {channel answer : Str} (h : answer ∈ answers channel line)
    (hvalid : isValidOutboundMessage (answer ++ lit "\r\n") = true) :
    (Parser.parse answer).handler ∉ [some .pass, some .nick, some .user] := by
  obtain ⟨verb, hverb, rest, rfl⟩ := exists_verb_of_mem_answers h
  obtain ⟨_, body, hbody, _, hcr, _⟩ := Client.exists_of_isValidOutboundMessage hvalid
  have hlit : lit "\r\n" = [cr, lf] := by decide
  rw [hlit] at hbody
  obtain rfl := List.append_cancel_right hbody
  have hverbs : ∀ verb ∈ verbs, verb ≠ [] ∧ (∀ b ∈ verb, isSpace b = false)
      ∧ verb.head? ≠ some colon
      ∧ commands.lookup (verb.map toUpper) ∉ [some .pass, some .nick, some .user] := by
    decide +kernel
  obtain ⟨hne, hword, hcolon, hhandler⟩ := hverbs verb hverb
  rw [Message.handler, Parser.command_of_word hne hword hcolon hcr]
  exact hhandler

/-- A line that makes the bot throw is not among those that it has handled. -/
theorem not_mem_of_foldlM {lines : List Str} (hthrows : ∀ bot, ∃ e, processLine bot line = .error e)
    (h : lines.foldlM processLine bot = .ok bot') : line ∉ lines := by
  induction lines generalizing bot with
  | nil => exact List.not_mem_nil
  | cons first lines ih =>
    rw [List.foldlM_cons] at h
    cases hone : bot.processLine first with
    | error e =>
      rw [hone] at h
      cases h
    | ok bot₁ =>
      rw [hone] at h
      rw [List.mem_cons, not_or]
      refine ⟨fun hfirst => ?_, ih h⟩
      obtain ⟨e, hthrown⟩ := hthrows bot
      rw [hfirst, hone] at hthrown
      cases hthrown

/-- Who the bot is once it has registered. -/
def loggedIn (free : Bool) : Client.Identity where
  nickname := if free then botNickname else []
  username := lit "ftbot"
  passOk := true
  nickSet := free
  userSet := true
  failedPassAttempts := 0

/-- The answer to the bot when somebody else has its nickname. -/
def inUse : Str := lit ":server 433 * ft_bot :Nickname is already in use\r\n"

/-- Its three lines in the automaton. -/
theorem login_registration (hpassword : IsPassword bot.password) (free₁ free free₃ : Bool) :
    Client.Identity.loginAll bot.password bot.registration [free₁, free, free₃] = loggedIn free
      ∧ (Client.Identity.loginAll bot.password (bot.registration.take 1) [free₁]).inUse
        (Parser.parse (bot.registration.getD 1 [])) = inUse := by
  have hpass : Parser.parse (lit "PASS :" ++ bot.password)
      = { command := lit "PASS", params := [bot.password] } := hpassword.parse_passLine
  have hfirst : Client.Identity.stranger.login bot.password
      { command := lit "PASS", params := [bot.password] } free₁
        = { Client.Identity.stranger with passOk := true } := by
    have hhandler : (Message.handler { command := lit "PASS", params := [bot.password] })
        = some .pass := by
      show commands.lookup (lit "PASS") = some .pass
      decide
    unfold Client.Identity.login
    rw [hhandler]
    dsimp only
    rw [if_neg, if_pos]
    · rfl
    · rintro (hok | hnil)
      · exact absurd hok (by decide)
      · exact hpassword.ne_nil hnil
  -- the nickname is taken if nobody has it; the bot does not wait for the answer
  have hnick : ({ Client.Identity.stranger with passOk := true } : Client.Identity).login bot.password
      (Parser.parse (lit "NICK " ++ botNickname)) free
        = { Client.Identity.stranger with
            passOk := true, nickname := if free then botNickname else [], nickSet := free } := by
    have hline : (Parser.parse (lit "NICK " ++ botNickname)).handler = some .nick
        ∧ (Parser.parse (lit "NICK " ++ botNickname)).params.headD [] = botNickname
        ∧ NickCommand.isValidNickname botNickname = true := by
      decide +kernel
    unfold Client.Identity.login
    rw [hline.1, hline.2.1]
    cases free with
    | true => exact if_pos ⟨rfl, hline.2.2, rfl⟩
    | false => exact if_neg fun h => Bool.false_ne_true h.2.2
  have huser : ({ Client.Identity.stranger with
      passOk := true, nickname := if free then botNickname else [], nickSet := free } :
        Client.Identity).login bot.password (Parser.parse (lit "USER ftbot 0 * :ft_irc bonus bot")) free₃
          = loggedIn free := by
    have hline : (Parser.parse (lit "USER ftbot 0 * :ft_irc bonus bot")).handler = some .user
        ∧ (Parser.parse (lit "USER ftbot 0 * :ft_irc bonus bot")).params.headD [] = lit "ftbot"
        ∧ 4 ≤ (Parser.parse (lit "USER ftbot 0 * :ft_irc bonus bot")).params.length
        ∧ UserCommand.isValidUsername (lit "ftbot") = true := by
      decide +kernel
    unfold Client.Identity.login
    rw [hline.1, hline.2.1]
    exact if_pos ⟨rfl, rfl, hline.2.2⟩
  constructor
  · simp only [Client.Identity.loginAll, registration, List.zip_cons_cons, List.zip_nil_right,
      List.foldl_cons, List.foldl_nil, hpass, hfirst, hnick, huser]
  · simp only [Client.Identity.loginAll, registration, List.take_succ_cons, List.take_zero,
      List.zip_cons_cons, List.zip_nil_right, List.foldl_cons, List.foldl_nil, List.getD_cons_succ,
      List.getD_cons_zero, hpass, hfirst]
    decide +kernel

/-- The bot throws when it reads the 433. -/
theorem throws_inUse (bot : Bot) : ∃ e, bot.processLine (contents inUse) = .error e := by
  have htext : ¬ lit "PING " <+: contents inUse ∧ ¬ lit " 001 " <:+: contents inUse
      ∧ lit " 433 " <:+: contents inUse := by
    decide +kernel
  unfold processLine
  rw [if_neg htext.1, if_neg htext.2.1, if_pos htext.2.2]
  exact ⟨_, rfl⟩

end Bot

/-! ## The bot is registered -/

/-- Once the server has handled the registration, the client of the bot is where that leads. -/
theorem Link.Sound.loggedIn {p : Ptr} {bot registered : Bot} {l : Link} (h : l.Sound p bot registered)
    (hbot : bot.sent = []) (hpassword : IsPassword bot.password)
    (hregister : bot.register = .ok registered) (hserver : l.server.password = bot.password)
    (hlines : 3 ≤ (l.peer p).lines.length) :
    ∃ free, (l.peer p).identity = Bot.loggedIn free
      ∧ (free = false → Bot.inUse ∈ (l.peer p).trace.offered) := by
  obtain ⟨verdicts, hreplayed⟩ := h.between.reachable.replayed p _ h.allocated
  rw [hserver] at hreplayed
  -- what has been handled begins with the registration, and goes on with answers
  have hprefix := (h.lines hbot hregister).1
  rw [h.contents_sent hbot hregister] at hprefix
  have hlength : bot.registration.length = 3 := rfl
  obtain ⟨more, hmore⟩ : bot.registration <+: (l.peer p).lines :=
    List.prefix_of_prefix_length_le (List.prefix_append ..) hprefix (by rwa [hlength])
  rw [← hmore, List.prefix_append_right_inj] at hprefix
  have hverdicts := hreplayed.length_eq
  rw [← hmore, List.length_append, hlength] at hverdicts
  obtain ⟨free₁, free, free₃, rest, rfl⟩ :
      ∃ free₁ free free₃ rest, verdicts = free₁ :: free :: free₃ :: rest := by
    rcases verdicts with _ | ⟨free₁, _ | ⟨free, _ | ⟨free₃, rest⟩⟩⟩
    · rw [List.length_nil] at hverdicts
      omega
    · rw [List.length_singleton] at hverdicts
      omega
    · rw [List.length_cons, List.length_singleton] at hverdicts
      omega
    · exact ⟨free₁, free, free₃, rest, rfl⟩
  obtain ⟨hlogin, hinUse⟩ := Bot.login_registration hpassword free₁ free free₃
  refine ⟨free, ?_, fun hfree => ?_⟩
  · have hanswers : ∀ e ∈ more.zip rest,
        (Parser.parse e.1).handler ∉ [some .pass, some .nick, some .user] := by
      intro e he
      have hanswer := hprefix.subset (List.of_mem_zip he).1
      obtain ⟨line, _, hin⟩ := List.mem_flatMap.mp hanswer
      exact Bot.handler_of_mem_answers hin
        ((h.said hregister).valid _ (List.mem_append_right _ hanswer))
    have hidentity := hreplayed.identity_eq
    unfold Client.Identity.loginAll at hidentity hlogin
    rw [← hidentity, ← hmore]
    have hthree : bot.registration.length = [free₁, free, free₃].length := hlength
    show ((bot.registration ++ more).zip ([free₁, free, free₃] ++ rest)).foldl _ _ = _
    rw [List.zip_append hthree, List.foldl_append, hlogin]
    exact Client.Identity.foldl_login_other hanswers
  · subst hfree
    have htold := hreplayed.told 1 rfl
    rw [← hmore] at htold
    rw [← hinUse]
    exact htold

/-- A bot that has the password of the server gets in: once the server has handled its registration,
it has passed at the first attempt, and it is registered under its nickname or has been told that
somebody else has that. A bot that goes on although it has read all that it has been sent is
registered. -/
theorem bot_registers {p : Ptr} {bot registered : Bot} (hbot : bot.sent = [])
    (hpassword : IsPassword bot.password) (hregister : bot.register = .ok registered) {l : Link}
    (h : l.Reached p registered) (hserver : l.server.password = bot.password)
    (hlines : 3 ≤ (l.peer p).lines.length) :
    (l.peer p).passOk = true ∧ (l.peer p).failedPassAttempts = 0 ∧ (l.peer p).username = lit "ftbot"
      ∧ ((l.peer p).isRegistered = true ∧ (l.peer p).nickname = Bot.botNickname
        ∨ (l.peer p).isRegistered = false ∧ Bot.inUse ∈ (l.peer p).trace.offered)
      ∧ ((l.peer p).stopped = false → l.consumed = (l.peer p).trace.accepted.flatten →
          (l.peer p).isRegistered = true) := by
  have hsound : l.Sound p bot registered := h.sound
  obtain ⟨free, hidentity, htold⟩ := hsound.loggedIn hbot hpassword hregister hserver hlines
  have hregistered : (l.peer p).isRegistered = free := by
    have hsame := congrArg Client.Identity.isRegistered hidentity
    cases free <;> exact hsame
  refine ⟨congrArg Client.Identity.passOk hidentity,
    congrArg Client.Identity.failedPassAttempts hidentity,
    congrArg Client.Identity.username hidentity, ?_, fun live hread => ?_⟩
  · cases free with
    | true => exact Or.inl ⟨hregistered, congrArg Client.Identity.nickname hidentity⟩
    | false => exact Or.inr ⟨hregistered, htold rfl⟩
  · cases free with
    | true => exact hregistered
    | false =>
      -- the 433 is among what the bot has handled, but that throws
      have hvalid : isValidOutboundMessage Bot.inUse = true := by decide +kernel
      have haccepted : Bot.inUse ∈ (l.peer p).trace.accepted := by
        rw [hsound.between.reachable.lossless p _ hsound.allocated live]
        exact List.mem_filter.mpr ⟨htold rfl, hvalid⟩
      rw [← hsound.records_of_consumed hread] at haccepted
      exact absurd (List.mem_map_of_mem haccepted)
        (Bot.not_mem_of_foldlM Bot.throws_inUse hsound.heard.handled)

/-- The bot of the sample has read its welcome. -/
theorem bot_registers_sample :
    (joining.peer 2).isRegistered = true ∧ (joining.peer 2).passOk = true
      ∧ (joining.peer 2).username = lit "ftbot" := by
  obtain ⟨hregister, hserver, hlines, hlive, hread⟩ : sampleBot.register = .ok registeredBot
      ∧ joining.server.password = sampleBot.password ∧ 3 ≤ (joining.peer 2).lines.length
      ∧ (joining.peer 2).stopped = false
      ∧ joining.consumed = (joining.peer 2).trace.accepted.flatten := by
    decide +kernel
  have hpassword : IsPassword sampleBot.password :=
    isPassword_of_isValidPassword (by decide) (by decide)
  obtain ⟨hok, _, husername, _, hregisters⟩ :=
    bot_registers rfl hpassword hregister reached_joining hserver hlines
  exact ⟨hregisters hlive hread, hok, husername⟩

end FtIrc
