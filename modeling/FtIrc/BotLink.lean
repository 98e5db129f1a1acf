import FtIrc.BotStream
import FtIrc.Surviving
import Mathlib.Data.List.TakeWhile

/-!
# The bot and the server over their connection

Both programs as one system: the server handles its events, the bot takes chunks from its socket, and
the kernel hands on no byte out of order. Whatever else the server does and however both streams are
cut, the server handles the lines of the bot once each and in their order, the bot handles the
messages that the server has accepted for it once each and in their order, and what the bot says after
its registration answers these messages.
-/

namespace FtIrc

open Bytes Relation

/-! ## Handlers that throw -/

namespace Receiver

variable {σ : Type} {handle : σ → Str → Except String σ} {r r' : Receiver σ} {state : σ} {b : Str}

/-- The receiver has had the messages in the bytes `b` handled, and keeps the rest. -/
structure Heard (handle : σ → Str → Except String σ) (state : σ) (b : Str) (r : Receiver σ) : Prop where
  receiveBuffer : r.receiveBuffer = residue lf b
  handled : ((records lf b).map contents).foldlM handle state = .ok r.state

theorem heard_nil (state : σ) : Heard handle state [] { state } where
  receiveBuffer := (residue_of_not_mem List.not_mem_nil).symm
  handled := by
    rw [records_of_not_mem List.not_mem_nil]
    rfl

/-- A chunk of a stream of messages that does not make a handler throw. -/
theorem Heard.receive {ms : List Str} (hms : ∀ m ∈ ms, isValidOutboundMessage m = true)
    (h : Heard handle state b r) {chunk : Str} (hchunk : IsChunk chunk)
    (hstream : b ++ chunk <+: ms.flatten) (hr : r.receive handle chunk = .ok r') :
    Heard handle state (b ++ chunk) r'
      ∧ ((records lf (residue lf b ++ chunk)).map contents).foldlM handle r.state = .ok r'.state := by
  obtain ⟨more, hmore⟩ := hstream
  rw [List.append_assoc] at hmore
  rw [receive_foldlM hms h.receiveBuffer hchunk hmore] at hr
  cases hfold : ((records lf (residue lf b ++ chunk)).map contents).foldlM handle r.state with
  | error e =>
    rw [hfold] at hr
    cases hr
  | ok state' =>
    rw [hfold] at hr
    obtain rfl := Except.ok.inj hr
    refine ⟨⟨rfl, ?_⟩, rfl⟩
    rw [records_append, List.map_append, List.foldlM_append, h.handled]
    exact hfold

end Receiver

/-! ## What the bot says -/

namespace Bot

variable {bot bot' : Bot} {line : Str}

theorem contents_crlf (line : Str) : contents (line ++ lit "\r\n") = line := by
  have hlit : lit "\r\n" = [cr, lf] := by decide
  rw [contents, hlit, List.append_cons, List.dropLast_concat, List.dropLast_concat]

/-- The loop over `send` gives the kernel the message from its front. -/
theorem transmit_ok {sentBytes message taken rest : Str} {results : List SendResult}
    (h : transmit sentBytes message results = .ok (taken, rest)) :
    taken ++ rest = sentBytes ++ message := by
  induction results generalizing sentBytes message with
  | nil =>
    obtain ⟨rfl, rfl⟩ := Prod.mk.inj (Except.ok.inj h)
    rfl
  | cons result results ih =>
    unfold transmit at h
    split_ifs at h
    · obtain ⟨rfl, rfl⟩ := Prod.mk.inj (Except.ok.inj h)
      rfl
    cases result with
    | retry => exact ih h
    | error => cases h
    | sent n =>
      dsimp only at h
      split_ifs at h
      rw [ih h, List.append_assoc, List.take_append_drop]

theorem sendLine_eq_ok (h : bot.sendLine line = .ok bot') :
    bot' = { bot with sent := bot.sent ++ [line ++ lit "\r\n"] }
      ∧ isValidOutboundMessage (line ++ lit "\r\n") = true := by
  unfold sendLine at h
  split_ifs at h with hsize hcontrol
  refine ⟨(Except.ok.inj h).symm, ?_⟩
  have hlit : lit "\r\n" = [cr, lf] := by decide
  have hlength : (line ++ [cr, lf]).length = line.length + 2 := List.length_append
  simp only [Bool.or_eq_true, decide_eq_true_eq, not_or, not_lt] at hsize
  rw [hlit]
  unfold isValidOutboundMessage
  rw [hlength, if_neg (by simp; omega), Nat.add_sub_cancel, List.drop_left, List.take_left,
    if_neg (by simp)]
  rw [List.all_eq_true]
  intro c hc
  have hclean := hcontrol
  rw [List.any_eq_true, not_exists] at hclean
  have hc' := hclean c
  simp only [not_and, Bool.not_eq_true, Bool.or_eq_false_iff] at hc'
  simp [bne, hc' hc]

/-! ### Its answers do not depend on what it has said before -/

/-- A bot that has said nothing yet. -/
def silent (channel : Str) : Bot := { password := [], channel }

/-- The bot goes on with what another one has said. -/
def resume (bot other : Bot) : Bot := { bot with sent := bot.sent ++ other.sent }

theorem resume_silent (bot : Bot) : bot.resume (silent bot.channel) = bot := by
  show { bot with sent := bot.sent ++ [] } = bot
  rw [List.append_nil]

/-- A line counts as sent as a whole. While the loop runs, the kernel has taken a prefix of all that
counts as sent, and all of it when nothing is left. -/
theorem transmit_sendLine {taken rest : Str} {results : List SendResult}
    (h : bot.sendLine line = .ok bot')
    (hsend : transmit bot.sent.flatten (line ++ lit "\r\n") results = .ok (taken, rest)) :
    taken <+: bot'.sent.flatten ∧ (rest = [] → taken = bot'.sent.flatten) := by
  have hall : taken ++ rest = bot'.sent.flatten := by
    obtain ⟨rfl, -⟩ := sendLine_eq_ok h
    rw [transmit_ok hsend, List.flatten_append, List.flatten_singleton]
  refine ⟨⟨rest, hall⟩, fun hrest => ?_⟩
  rw [← hall, hrest, List.append_nil]

theorem sendLine_eq_map (bot : Bot) (line : Str) :
    bot.sendLine line = ((silent bot.channel).sendLine line).map bot.resume := by
  unfold sendLine
  split_ifs <;> rfl

theorem greetJoinedUser_eq_map (bot : Bot) (line : Str) :
    bot.greetJoinedUser line = ((silent bot.channel).greetJoinedUser line).map bot.resume := by
  have hquiet : Except.ok bot
      = (Except.ok (silent bot.channel) : Except String Bot).map bot.resume := by
    show Except.ok bot = Except.ok (bot.resume (silent bot.channel))
    rw [resume_silent]
  unfold greetJoinedUser
  by_cases hcolon : line.head? ≠ some colon
  · rw [if_pos hcolon, if_pos hcolon]
    exact hquiet
  rw [if_neg hcolon, if_neg hcolon]
  split
  · next beforeJoin afterJoin beforeEnd _ _ _ =>
    have hchannel : (silent bot.channel).channel = bot.channel := rfl
    dsimp only
    rw [hchannel]
    generalize (if afterJoin.head? = some colon then afterJoin.tail else afterJoin) = joinedChannel
    split_ifs
    · exact hquiet
    · exact hquiet
    · exact hquiet
    · exact bot.sendLine_eq_map _
  · exact hquiet

theorem processLine_eq_map (bot : Bot) (line : Str) :
    bot.processLine line = ((silent bot.channel).processLine line).map bot.resume := by
  unfold processLine
  by_cases hping : lit "PING " <+: line
  · rw [if_pos hping, if_pos hping]
    exact bot.sendLine_eq_map _
  rw [if_neg hping, if_neg hping]
  by_cases hwelcome : lit " 001 " <:+: line
  · rw [if_pos hwelcome, if_pos hwelcome]
    exact bot.sendLine_eq_map _
  rw [if_neg hwelcome, if_neg hwelcome]
  by_cases hinUse : lit " 433 " <:+: line
  · rw [if_pos hinUse, if_pos hinUse]
    rfl
  rw [if_neg hinUse, if_neg hinUse]
  by_cases hrejected : lit " 464 " <:+: line
  · rw [if_pos hrejected, if_pos hrejected]
    rfl
  rw [if_neg hrejected, if_neg hrejected]
  exact bot.greetJoinedUser_eq_map line

/-- The lines that the bot answers to a line. -/
def answers (channel line : Str) : List Str :=
  match (silent channel).processLine line with
  | .error _ => []
  | .ok bot => bot.sent.map contents

/-- The lines that the bot begins with. -/
def registration (bot : Bot) : List Str :=
  [lit "PASS :" ++ bot.password, lit "NICK " ++ botNickname, lit "USER ftbot 0 * :ft_irc bonus bot"]

/-- The bot goes on to say some lines. -/
structure Says (bot : Bot) (lines : List Str) (bot' : Bot) : Prop where
  channel : bot'.channel = bot.channel
  sent : bot'.sent = bot.sent ++ lines.map (· ++ lit "\r\n")
  valid : ∀ line ∈ lines, isValidOutboundMessage (line ++ lit "\r\n") = true

theorem Says.refl (bot : Bot) : bot.Says [] bot where
  channel := rfl
  sent := (List.append_nil _).symm
  valid _ h := absurd h List.not_mem_nil

theorem Says.trans {bot'' : Bot} {lines lines' : List Str} (h : bot.Says lines bot')
    (h' : bot'.Says lines' bot'') : bot.Says (lines ++ lines') bot'' where
  channel := h'.channel.trans h.channel
  sent := by rw [h'.sent, h.sent, List.map_append, List.append_assoc]
  valid line hline := (List.mem_append.mp hline).elim (h.valid line) (h'.valid line)

theorem says_sendLine (h : bot.sendLine line = .ok bot') : bot.Says [line] bot' := by
  obtain ⟨rfl, hvalid⟩ := sendLine_eq_ok h
  exact ⟨rfl, rfl, fun l hl => by rwa [List.mem_singleton.mp hl]⟩

/-- The commands of the bot's answers. -/
def verbs : List Str := [lit "PONG", lit "JOIN", lit "PRIVMSG"]

/-- The bot passes over a line, or greets whoever has joined. -/
theorem greetJoinedUser_cases (h : bot.greetJoinedUser line = .ok bot') :
    bot' = bot ∨ ∃ rest, bot.sendLine (lit "PRIVMSG" ++ sp :: rest) = .ok bot' := by
  have hprivmsg : lit "PRIVMSG " = lit "PRIVMSG" ++ [sp] := by decide
  have hquiet : Except.ok bot = (.ok bot' : Except String Bot) → bot' = bot :=
    fun h => (Except.ok.inj h).symm
  unfold greetJoinedUser at h
  by_cases hcolon : line.head? ≠ some colon
  · rw [if_pos hcolon] at h
    exact Or.inl (hquiet h)
  rw [if_neg hcolon] at h
  split at h
  · next beforeJoin afterJoin beforeEnd _ _ _ =>
    dsimp only at h
    generalize (if afterJoin.head? = some colon then afterJoin.tail else afterJoin) = joined at h
    rw [hprivmsg, List.append_assoc, List.append_assoc, List.append_assoc] at h
    split_ifs at h
    · exact Or.inl (hquiet h)
    · exact Or.inl (hquiet h)
    · exact Or.inl (hquiet h)
    · exact Or.inr ⟨_, h⟩
  · exact Or.inl (hquiet h)

/-- The bot handles a line without a word, or says one line. -/
theorem processLine_cases (h : bot.processLine line = .ok bot') :
    bot' = bot ∨ ∃ verb ∈ verbs, ∃ rest, bot.sendLine (verb ++ sp :: rest) = .ok bot' := by
  have hpong : lit "PONG " = lit "PONG" ++ [sp] := by decide
  have hjoin : lit "JOIN " = lit "JOIN" ++ [sp] := by decide
  unfold processLine at h
  by_cases hping : lit "PING " <+: line
  · rw [if_pos hping, hpong, List.append_assoc] at h
    exact Or.inr ⟨_, by decide, _, h⟩
  rw [if_neg hping] at h
  by_cases hwelcome : lit " 001 " <:+: line
  · rw [if_pos hwelcome, hjoin, List.append_assoc] at h
    exact Or.inr ⟨_, by decide, _, h⟩
  rw [if_neg hwelcome] at h
  by_cases hinUse : lit " 433 " <:+: line
  · rw [if_pos hinUse] at h
    cases h
  rw [if_neg hinUse] at h
  by_cases hrejected : lit " 464 " <:+: line
  · rw [if_pos hrejected] at h
    cases h
  rw [if_neg hrejected] at h
  refine (greetJoinedUser_cases h).imp_right fun hgreeted => ?_
  exact ⟨lit "PRIVMSG", by decide, hgreeted⟩

theorem says_processLine (h : bot.processLine line = .ok bot') :
    bot.Says (answers bot.channel line) bot' := by
  rw [processLine_eq_map] at h
  unfold answers
  cases hother : (silent bot.channel).processLine line with
  | error e =>
    rw [hother] at h
    cases h
  | ok other =>
    rw [hother] at h
    obtain rfl := Except.ok.inj h
    have hsaid : ∃ lines, (silent bot.channel).Says lines other := by
      rcases processLine_cases hother with rfl | ⟨_, _, _, hanswer⟩
      · exact ⟨[], .refl _⟩
      · exact ⟨_, says_sendLine hanswer⟩
    obtain ⟨lines, hsaid⟩ := hsaid
    have hsent : other.sent = lines.map (· ++ lit "\r\n") := hsaid.sent
    have hlines : other.sent.map contents = lines := by
      rw [hsent, List.map_map]
      exact (List.map_congr_left fun l _ => contents_crlf l).trans (List.map_id lines)
    dsimp only
    rw [hlines]
    refine ⟨rfl, ?_, hsaid.valid⟩
    show bot.sent ++ other.sent = _
    rw [hsent]

theorem exists_verb_of_mem_answers {channel answer : Str} (h : answer ∈ answers channel line) :
    ∃ verb ∈ verbs, ∃ rest, answer = verb ++ sp :: rest := by
  unfold answers at h
  cases hother : (silent channel).processLine line with
  | error e =>
    rw [hother] at h
    exact absurd h List.not_mem_nil
  | ok other =>
    rw [hother] at h
    rcases processLine_cases hother with rfl | ⟨verb, hverb, rest, hanswer⟩
    · exact absurd h List.not_mem_nil
    · have hsent : other.sent = [verb ++ sp :: rest ++ lit "\r\n"] := (says_sendLine hanswer).sent
      dsimp only at h
      rw [hsent, List.map_singleton, contents_crlf] at h
      exact ⟨verb, hverb, rest, List.mem_singleton.mp h⟩

/-- A number of lines: each is answered in its turn. -/
theorem says_foldlM {lines : List Str} (h : lines.foldlM processLine bot = .ok bot') :
    bot.Says (lines.flatMap (answers bot.channel)) bot' := by
  induction lines generalizing bot with
  | nil =>
    obtain rfl := Except.ok.inj h
    exact .refl bot
  | cons line lines ih =>
    rw [List.foldlM_cons] at h
    cases hone : bot.processLine line with
    | error e =>
      rw [hone] at h
      cases h
    | ok bot₁ =>
      rw [hone] at h
      have hfirst := says_processLine hone
      have hrest := ih h
      rw [hfirst.channel] at hrest
      rw [List.flatMap_cons]
      exact hfirst.trans hrest

theorem says_register (h : bot.register = .ok bot') : bot.Says bot.registration bot' := by
  unfold register at h
  cases hpass : bot.sendLine (lit "PASS :" ++ bot.password) with
  | error e =>
    rw [hpass] at h
    cases h
  | ok bot₁ =>
    rw [hpass] at h
    cases hnick : bot₁.sendLine (lit "NICK " ++ botNickname) with
    | error e =>
      have h : (bot₁.sendLine (lit "NICK " ++ botNickname) >>= fun bot =>
        bot.sendLine (lit "USER ftbot 0 * :ft_irc bonus bot")) = .ok bot' := h
      rw [hnick] at h
      cases h
    | ok bot₂ =>
      have h : (bot₁.sendLine (lit "NICK " ++ botNickname) >>= fun bot =>
        bot.sendLine (lit "USER ftbot 0 * :ft_irc bonus bot")) = .ok bot' := h
      rw [hnick] at h
      exact ((says_sendLine hpass).trans (says_sendLine hnick)).trans (says_sendLine h)

end Bot

/-! ## How the server frames what the bot says -/

/-- A valid message is a good record, and the server takes the same line out of it as the bot. -/
theorem good_of_isValidOutboundMessage {m : Str} (h : isValidOutboundMessage m = true) :
    isGoodRecord m = true ∧ dropFinalCr m.dropLast = contents m := by
  obtain ⟨hsize, body, rfl, hnul, hcr, _⟩ := Client.exists_of_isValidOutboundMessage h
  have hdrop : dropFinalCr (body ++ [cr, lf]).dropLast = body := by
    rw [List.append_cons, List.dropLast_concat, dropFinalCr, List.getLast?_concat, if_pos rfl,
      List.dropLast_concat]
  have hclean : (body.all fun b => b != nul && b != cr) = true := by
    rw [List.all_eq_true]
    intro b hb
    rw [Bool.and_eq_true, bne_iff_ne, bne_iff_ne]
    constructor
    · rintro rfl
      exact hnul hb
    · rintro rfl
      exact hcr hb
  refine ⟨?_, ?_⟩
  · rw [isGoodRecord, hdrop, hclean, decide_eq_true hsize]
    rfl
  · rw [hdrop, contents, List.append_cons, List.dropLast_concat, List.dropLast_concat]

/-- The lines in the first bytes of a stream of messages are the contents of the first messages. -/
theorem framed_messages {ms : List Str} (hms : ∀ m ∈ ms, isValidOutboundMessage m = true) {b : Str}
    (hstream : b <+: ms.flatten) :
    framed b <+: ms.map contents ∧ (b = ms.flatten → framed b = ms.map contents) := by
  obtain ⟨more, hmore⟩ := hstream
  obtain ⟨later, hcut, hrest, _⟩ := records_of_messages hms hmore
  have hframed : framed b = (records lf b).map contents := by
    have hall : ∀ m ∈ records lf b, isValidOutboundMessage m = true := by
      intro m hm
      apply hms
      rw [hcut]
      exact List.mem_append_left _ hm
    rw [framed, List.takeWhile_eq_self_iff.mpr fun m hm => (good_of_isValidOutboundMessage (hall m hm)).1]
    exact List.map_congr_left fun m hm => (good_of_isValidOutboundMessage (hall m hm)).2
  refine ⟨?_, fun hwhole => ?_⟩
  · rw [hframed, hcut, List.map_append]
    exact List.prefix_append ..
  · rw [hframed, hwhole,
      (records_flatten fun m hm => Client.record_of_isValidOutboundMessage (hms m hm)).1]

/-! ## The two programs -/

/-- The states of the server between two events. -/
inductive Between : Server → Prop
  | start (password : Str) (listenFd : Fd) : Between (Server.start password listenFd)
  | step {s : Server} {e : Event} (h : Between s) (hadm : s.Admits e) : Between (s.step e)

theorem Between.reachable {s : Server} (h : Between s) : Reachable s := by
  induction h with
  | start => exact .start _ _
  | step _ hadm ih => exact ih.moves (ih.moves_step hadm)

theorem Between.run {s : Server} (h : Between s) {es : List Event} (hadm : s.AdmitsAll es) :
    Between (s.run es) := by
  induction es generalizing s with
  | nil => exact h
  | cons e es ih => exact ih (h.step hadm.1) hadm.2

theorem Between.framed {s : Server} (h : Between s) {p : Ptr} {x : Client} (hx : s.heap p = some x) :
    x.Framed := by
  induction h generalizing p x with
  | start => exact absurd hx (Option.some_ne_none _).symm
  | step h hadm ih => exact h.reachable.framed_step (fun _ _ => ih) hadm p x hx

/-- The server, the bot, and what the bot has taken from its socket. -/
structure Link where
  server : Server
  receiver : Receiver Bot
  consumed : Str

namespace Link

/-- The bot as it stands. -/
def bot (l : Link) : Bot := l.receiver.state

/-- The server's end of the connection. -/
def peer (l : Link) (p : Ptr) : Client := l.server.client p

/-- The states of the two programs over the connection with the object `p`, while it is there. The
server takes any event, as long as it has received no more than the bot has sent; the bot takes any
chunk of what the kernel has taken from the server. -/
inductive Reached (p : Ptr) (registered : Bot) : Link → Prop
  | accepted {s : Server} {fd : Fd} {ip : Str} (hs : Between s) (hp : s.heap p = some { fd, ip }) :
      Reached p registered { server := s, receiver := { state := registered }, consumed := [] }
  | server {l : Link} {e : Event} (h : Reached p registered l) (hadm : l.server.Admits e)
      (hstays : ((l.server.step e).heap p).isSome)
      (hcarried : ((l.server.step e).client p).trace.received <+: l.bot.sent.flatten) :
      Reached p registered { l with server := l.server.step e }
  | bot {l : Link} {chunk : Str} {r : Receiver Bot} (h : Reached p registered l)
      (hchunk : IsChunk chunk)
      (hcarried : l.consumed ++ chunk <+: (l.peer p).trace.delivered)
      (hr : l.receiver.receive Bot.processLine chunk = .ok r) :
      Reached p registered { l with receiver := r, consumed := l.consumed ++ chunk }

/-- The server takes these events in turn, and receives no more than the bot has sent. -/
def Carried (p : Ptr) (sent : Str) (s : Server) : List Event → Prop
  | [] => True
  | e :: es => s.Admits e ∧ ((s.step e).heap p).isSome
      ∧ ((s.step e).client p).trace.received <+: sent ∧ Carried p sent (s.step e) es

instance decidableCarried (p : Ptr) (sent : Str) (s : Server) : (es : List Event) →
    Decidable (Carried p sent s es)
  | [] => .isTrue trivial
  | e :: es =>
    have := decidableCarried p sent (s.step e) es
    inferInstanceAs (Decidable (_ ∧ _ ∧ _ ∧ _))

theorem Reached.run {p : Ptr} {registered : Bot} {l : Link} (h : l.Reached p registered)
    {es : List Event} (hes : Carried p l.bot.sent.flatten l.server es) :
    Reached p registered { l with server := l.server.run es } := by
  induction es generalizing l with
  | nil => exact h
  | cons e es ih =>
    obtain ⟨hadm, hstays, hcarried, hrest⟩ := hes
    exact ih (h.server hadm hstays hcarried) hrest

/-- What holds of the two programs at every time. -/
structure Sound (p : Ptr) (bot registered : Bot) (l : Link) : Prop where
  between : Between l.server
  allocated : l.server.heap p = some (l.peer p)
  received : (l.peer p).trace.received <+: l.bot.sent.flatten
  consumed : l.consumed <+: (l.peer p).trace.delivered
  heard : Receiver.Heard Bot.processLine registered l.consumed l.receiver

variable {p : Ptr} {bot registered : Bot} {l : Link}

/-- The messages that the server has accepted are valid, and what it has delivered is their
beginning. -/
theorem Sound.streamed (h : l.Sound p bot registered) : (l.peer p).Streamed :=
  h.between.reachable.streamed h.allocated

theorem Sound.delivered (h : l.Sound p bot registered) :
    (l.peer p).trace.delivered <+: (l.peer p).trace.accepted.flatten :=
  ⟨_, h.streamed.stream⟩

/-- The bot takes a chunk. -/
theorem Sound.receive (h : l.Sound p bot registered) {chunk : Str} {r : Receiver Bot}
    (hchunk : IsChunk chunk) (hcarried : l.consumed ++ chunk <+: (l.peer p).trace.delivered)
    (hr : l.receiver.receive Bot.processLine chunk = .ok r) :
    Sound p bot registered { l with receiver := r, consumed := l.consumed ++ chunk } := by
  obtain ⟨hheard, hfold⟩ := h.heard.receive h.streamed.valid hchunk (hcarried.trans h.delivered) hr
  have hsaid := Bot.says_foldlM hfold
  refine ⟨h.between, h.allocated, h.received.trans ?_, hcarried, hheard⟩
  show l.receiver.state.sent.flatten <+: r.state.sent.flatten
  rw [hsaid.sent, List.flatten_append]
  exact List.prefix_append ..

/-- The server takes an event. -/
theorem Sound.event (h : l.Sound p bot registered) {e : Event} (hadm : l.server.Admits e)
    (hstays : ((l.server.step e).heap p).isSome)
    (hcarried : ((l.server.step e).client p).trace.received <+: l.bot.sent.flatten) :
    Sound p bot registered { l with server := l.server.step e } := by
  have hsome : (l.server.heap p).isSome := by
    rw [h.allocated]
    rfl
  have hsurvives := h.between.reachable.survives_step hadm hsome hstays
  obtain ⟨y, hy, houtputs⟩ := hsurvives.outputs h.allocated
  have hpeer : (l.server.step e).client p = y := Server.client_of_heap hy
  refine ⟨h.between.step hadm, ?_, hcarried, h.consumed.trans ?_, h.heard⟩
  · show (l.server.step e).heap p = some ((l.server.step e).client p)
    rw [hpeer, hy]
  · show (l.peer p).trace.delivered <+: ((l.server.step e).client p).trace.delivered
    rw [hpeer]
    exact houtputs.delivered

theorem Reached.sound (h : l.Reached p registered) : l.Sound p bot registered := by
  induction h with
  | @accepted s fd ip hs hp =>
    have hpeer : s.client p = { fd, ip } := Server.client_of_heap hp
    refine ⟨hs, ?_, ?_, ?_, Receiver.heard_nil registered⟩
    · rw [peer, hpeer, hp]
    · rw [peer, hpeer]
      exact List.nil_prefix
    · rw [peer, hpeer]
  | server _ hadm hstays hcarried ih => exact ih.event hadm hstays hcarried
  | bot _ hchunk hcarried hr ih => exact ih.receive hchunk hcarried hr

end Link

/-- What a client has had handled of a stream of messages. -/
theorem Client.Framed.lines_of_messages {x : Client} (hx : x.Framed) {ms : List Str}
    (hms : ∀ m ∈ ms, isValidOutboundMessage m = true) (hreceived : x.trace.received <+: ms.flatten) :
    x.lines <+: ms.map contents
      ∧ (x.stopped = false → x.trace.received = ms.flatten → x.lines = ms.map contents) := by
  obtain ⟨hframed, hwhole⟩ := framed_messages hms hreceived
  constructor
  · rcases hx.conforms with ⟨_, hlines⟩ | ⟨_, _, _, _, hlines⟩
    · rwa [hlines]
    · exact hlines.trans hframed
  · intro live hall
    have hlines := (hx.onTrack live).conforms (framed_of_not_mem (hx.settled live).incomplete)
    rcases hlines with ⟨_, hlines⟩ | ⟨handled, last, hdispatched, _⟩
    · rw [hlines]
      exact hwhole hall
    · have hgoing := (hx.onTrack live).going (last, true) (by rw [hdispatched]; exact List.mem_concat_self)
      cases hgoing

namespace Link

variable {p : Ptr} {bot registered : Bot} {l : Link}

/-- The bot has handled all messages once it has read all bytes. -/
theorem Sound.records_of_consumed (h : l.Sound p bot registered)
    (hwhole : l.consumed = (l.peer p).trace.accepted.flatten) :
    records lf l.consumed = (l.peer p).trace.accepted := by
  rw [hwhole]
  exact (records_flatten fun m hm => Client.record_of_isValidOutboundMessage (h.streamed.valid m hm)).1

/-- What the bot has said: its registration, and the answers to what it has heard. -/
theorem Sound.said (h : l.Sound p bot registered) (hregister : bot.register = .ok registered) :
    bot.Says (bot.registration ++ ((records lf l.consumed).map contents).flatMap
      (Bot.answers bot.channel)) l.bot := by
  have hfirst := Bot.says_register hregister
  have hrest := Bot.says_foldlM h.heard.handled
  rw [hfirst.channel] at hrest
  exact hfirst.trans hrest

theorem Sound.contents_sent (h : l.Sound p bot registered) (hbot : bot.sent = [])
    (hregister : bot.register = .ok registered) :
    l.bot.sent.map contents = bot.registration ++ ((records lf l.consumed).map contents).flatMap
      (Bot.answers bot.channel) := by
  rw [(h.said hregister).sent, hbot, List.nil_append, List.map_map]
  exact (List.map_congr_left fun line _ => Bot.contents_crlf line).trans (List.map_id _)

/-- What the server has handled of it. -/
theorem Sound.lines (h : l.Sound p bot registered) (hbot : bot.sent = [])
    (hregister : bot.register = .ok registered) :
    (l.peer p).lines <+: l.bot.sent.map contents
      ∧ ((l.peer p).stopped = false → (l.peer p).trace.received = l.bot.sent.flatten →
          (l.peer p).lines = l.bot.sent.map contents) := by
  have hsaid := h.said hregister
  have hvalid : ∀ m ∈ l.bot.sent, isValidOutboundMessage m = true := by
    rw [hsaid.sent, hbot, List.nil_append]
    intro m hm
    obtain ⟨line, hline, rfl⟩ := List.mem_map.mp hm
    exact hsaid.valid line hline
  exact (h.between.framed h.allocated).lines_of_messages hvalid h.received

end Link

/-- However the server's other business and the chunks of both streams interleave, the bot has handled
the first messages that the server has accepted for it, once each and in order, and has said its
registration and the answers to these messages, no more. The server has handled the first of these
lines, once each and in order; and all of them, once they have all arrived and the client goes on. -/
theorem bot_linked {p : Ptr} {bot registered : Bot} (hbot : bot.sent = [])
    (hregister : bot.register = .ok registered) {l : Link} (h : l.Reached p registered) :
    ∃ heard unheard tail, (l.peer p).trace.accepted = heard ++ unheard
      ∧ l.consumed = heard.flatten ++ tail ∧ lf ∉ tail
      ∧ (l.consumed = (l.peer p).trace.accepted.flatten → unheard = [])
      ∧ (heard.map contents).foldlM Bot.processLine registered = .ok l.bot
      ∧ l.bot.sent.map contents
          = bot.registration ++ (heard.map contents).flatMap (Bot.answers bot.channel)
      ∧ (l.peer p).lines <+: l.bot.sent.map contents
      ∧ ((l.peer p).stopped = false → (l.peer p).trace.received = l.bot.sent.flatten →
          (l.peer p).lines = l.bot.sent.map contents) := by
  have hsound : l.Sound p bot registered := h.sound
  obtain ⟨more, hmore⟩ := hsound.consumed.trans hsound.delivered
  obtain ⟨later, hcut, _, _⟩ := records_of_messages hsound.streamed.valid hmore
  obtain ⟨hlines, hall⟩ := hsound.lines hbot hregister
  refine ⟨records lf l.consumed, later, residue lf l.consumed, hcut,
    (flatten_records lf l.consumed).symm, not_mem_residue lf _, fun hwhole => ?_, hsound.heard.handled,
    hsound.contents_sent hbot hregister, hlines, hall⟩
  rw [hsound.records_of_consumed hwhole] at hcut
  exact List.append_right_eq_self.mp hcut.symm

/-- A bot for the channel of the sample. -/
def sampleBot : Bot := { password := lit "pw", channel := lit "#c" }

/-- It has sent its registration. -/
def registeredBot : Bot := { sampleBot with sent := sampleBot.registration.map (· ++ lit "\r\n") }

/-- The server of the sample has accepted the bot. -/
def hosting : Server := sample.run [.accept (.connection 6 true (some (lit "127.0.0.3")) (some 2))]

/-- Its registration arrives in two pieces; in between another client speaks. At the end the kernel
takes the welcome. -/
def registering : List Event :=
  [.read 6 (.data (lit "PASS :pw\r\nNICK ft_")), .read 4 (.data (lit "PRIVMSG #c :hello\r\n")),
    .read 6 (.data (lit "bot\r\nUSER ftbot 0 * :ft_irc bonus bot\r\n")), .write 6 (.sent 75)]

/-- The bot has sent its registration to the server of the sample. -/
def registered : Link where
  server := hosting
  receiver := { state := registeredBot }
  consumed := []

/-- The server has welcomed the bot. -/
def welcomed : Link := { registered with server := registered.server.run registering }

/-- The bot has read the welcome. -/
def joining : Link where
  server := welcomed.server
  receiver := { state := { registeredBot with sent := registeredBot.sent ++ [lit "JOIN #c\r\n"] } }
  consumed := welcomed.consumed
    ++ lit ":server 001 ft_bot :Welcome to the ft_irc Network, ft_bot!ftbot@localhost\r\n"

/-- Its answer has arrived. -/
def linked : Link :=
  { joining with server := joining.server.run [.read 6 (.data (lit "JOIN #c\r\n"))] }

theorem reached_joining : joining.Reached 2 registeredBot := by
  have hhosting : Between hosting := by
    have hadm : (Server.start (lit "pw") 3).AdmitsAll
        (sampleEvents ++ [.accept (.connection 6 true (some (lit "127.0.0.3")) (some 2))]) := by
      decide +kernel
    have hrun := (Between.start _ _).run hadm
    rwa [Server.run_append] at hrun
  obtain ⟨hfresh, hfirst, hchunk, hcarried, hreceive⟩ :
      hosting.heap 2 = some { fd := 6, ip := lit "127.0.0.3" }
      ∧ Link.Carried 2 registered.bot.sent.flatten registered.server registering
      ∧ IsChunk (lit ":server 001 ft_bot :Welcome to the ft_irc Network, ft_bot!ftbot@localhost\r\n")
      ∧ joining.consumed <+: (welcomed.peer 2).trace.delivered
      ∧ welcomed.receiver.receive Bot.processLine
          (lit ":server 001 ft_bot :Welcome to the ft_irc Network, ft_bot!ftbot@localhost\r\n")
        = .ok joining.receiver := by
    decide +kernel
  have hregistered : registered.Reached 2 registeredBot := .accepted hhosting hfresh
  have hwelcomed : welcomed.Reached 2 registeredBot := hregistered.run hfirst
  exact hwelcomed.bot hchunk hcarried hreceive

theorem reached_linked : linked.Reached 2 registeredBot := by
  have hcarried : Link.Carried 2 joining.bot.sent.flatten joining.server
      [.read 6 (.data (lit "JOIN #c\r\n"))] := by
    decide +kernel
  exact reached_joining.run hcarried

/-- The server has handled the registration of the bot and its JOIN, which answers the welcome. -/
theorem bot_linked_sample :
    (linked.peer 2).lines = sampleBot.registration ++ [lit "JOIN #c"]
      ∧ ∃ heard unheard, (linked.peer 2).trace.accepted = heard ++ unheard
        ∧ (heard.map contents).foldlM Bot.processLine registeredBot = .ok linked.bot
        ∧ linked.bot.sent.map contents
          = sampleBot.registration ++ (heard.map contents).flatMap (Bot.answers sampleBot.channel) := by
  obtain ⟨hregister, hlines⟩ : sampleBot.register = .ok registeredBot
      ∧ (linked.peer 2).lines = sampleBot.registration ++ [lit "JOIN #c"] := by
    decide +kernel
  obtain ⟨heard, unheard, _, haccepted, _, _, _, hhandled, hsent, _⟩ :=
    bot_linked (l := linked) rfl hregister reached_linked
  exact ⟨hlines, heard, unheard, haccepted, hhandled, hsent⟩

end FtIrc
