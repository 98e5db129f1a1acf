import FtIrc.GuardedRuns
import FtIrc.ModeFitting

/-!
# Messages that are refused

A client may send a line of 512 bytes, and so may the server; but what the server says repeats
parts of the line behind a prefix of its own, so not every line can be answered. `MessageFits` is
the condition that all answers to a line fit, and as long as it holds no message is refused.
-/

namespace FtIrc

open Bytes Relation

/-! ## Lines and disconnects that fit -/

/-- What each command sends fits. -/
def Command.Fits : Command → Server → Ptr → List Str → Prop
  | .pass => fun _ _ _ => True
  | .nick => NickCommand.Fits
  | .user => UserCommand.Fits
  | .join => JoinCommand.Fits
  | .privmsg => PrivmsgCommand.Fits
  | .kick => KickCommand.Fits
  | .invite => InviteCommand.Fits
  | .topic => TopicCommand.Fits
  | .mode => ModeCommand.Fits

instance : (command : Command) → (s : Server) → (client : Ptr) → (params : List Str) →
    Decidable (command.Fits s client params)
  | .pass => fun _ _ _ => .isTrue trivial
  | .nick => fun s c ps => inferInstanceAs (Decidable (NickCommand.Fits s c ps))
  | .user => fun s c ps => inferInstanceAs (Decidable (UserCommand.Fits s c ps))
  | .join => fun s c ps => inferInstanceAs (Decidable (JoinCommand.Fits s c ps))
  | .privmsg => fun s c ps => inferInstanceAs (Decidable (PrivmsgCommand.Fits s c ps))
  | .kick => fun s c ps => inferInstanceAs (Decidable (KickCommand.Fits s c ps))
  | .invite => fun s c ps => inferInstanceAs (Decidable (InviteCommand.Fits s c ps))
  | .topic => fun s c ps => inferInstanceAs (Decidable (TopicCommand.Fits s c ps))
  | .mode => fun s c ps => inferInstanceAs (Decidable (ModeCommand.Fits s c ps))

namespace Server

/-- A client may use a command. -/
def Permits (s : Server) (client : Ptr) (command : Command) : Prop :=
  command = .pass ∨ ((s.client client).passOk = true
    ∧ (command = .nick ∨ command = .user ∨ (s.client client).isRegistered = true))

instance (s : Server) (client : Ptr) (command : Command) : Decidable (s.Permits client command) :=
  inferInstanceAs (Decidable (_ ∨ _))

/-- The token of a PING is sent back, and a command that is not known. -/
def MessageFits (s : Server) (client : Ptr) (message : Message) : Prop :=
  (message.command = lit "PING" → 21 + (message.params.headD (lit "ft_irc")).length + 2 ≤ 512)
  ∧ (message.command ∉ [[], lit "CAP", lit "PING", lit "QUIT"] → message.handler = none →
      12 + (displayName (s.client client)).length + 1 + message.command.length + 19 ≤ 512)
  ∧ ∀ command ∈ message.handler, s.Permits client command →
      command.Fits s client message.params

instance (s : Server) (client : Ptr) (message : Message) : Decidable (s.MessageFits client message) :=
  inferInstanceAs (Decidable ((_ → _) ∧ (_ → _ → _) ∧ ∀ command ∈ message.handler, _ → _))

/-- The length of a QUIT line. -/
def quitLength (x : Client) : ℕ :=
  1 + x.nickname.length + 1 + x.username.length + 17 + (quitReason x).length + 2

/-- The QUIT line of a registered client fits, if there is somebody to get it. A reason may be the
text of a failed system call. -/
def QuitFits (s : Server) (p : Ptr) : Prop :=
  (s.client p).isRegistered = true → s.quitRecipients p ≠ [] →
    Clean (quitReason (s.client p)) ∧ quitLength (s.client p) ≤ 512

instance (s : Server) (p : Ptr) : Decidable (s.QuitFits p) := inferInstanceAs (Decidable (_ → _ → _))

end Server

/-- Everything that is answered and announced fits. -/
def answersFit : Guard where
  line s c m := s.MessageFits c m
  disconnect s p := s.QuitFits p

instance (s : Server) (c : Ptr) (m : Message) : Decidable (answersFit.line s c m) :=
  inferInstanceAs (Decidable (s.MessageFits c m))

instance (s : Server) (p : Ptr) : Decidable (answersFit.disconnect s p) :=
  inferInstanceAs (Decidable (s.QuitFits p))

/-! ## A line -/

/-- The pieces of a line that `extractLine` passes on. -/
structure Message.Clean (m : Message) : Prop where
  command : FtIrc.Clean m.command
  params : ∀ p ∈ m.params, FtIrc.Clean p

theorem toUpper_clean {a : Byte} (h : a ≠ nul ∧ a ≠ cr ∧ a ≠ lf) :
    toUpper a ≠ nul ∧ toUpper a ≠ cr ∧ toUpper a ≠ lf := by
  unfold toUpper
  split_ifs with hlower
  · obtain ⟨hlow, hhigh⟩ := hlower
    rw [UInt8.le_iff_toNat_le] at hlow hhigh
    have h97 : (97 : Byte).toNat = 97 := rfl
    have h122 : (122 : Byte).toNat = 122 := rfl
    have h32 : (32 : Byte).toNat = 32 := rfl
    have hupper : (a - 32).toNat = a.toNat - 32 := by
      rw [UInt8.toNat_sub, h32]
      omega
    refine ⟨?_, ?_, ?_⟩ <;> intro heq <;> rw [heq] at hupper <;>
      simp only [nul, cr, lf, UInt8.reduceToNat] at hupper <;> omega
  · exact h

theorem AcceptedLine.clean_parse {line : Str} (h : AcceptedLine line) : (Parser.parse line).Clean := by
  have hpieces := Parser.piecesOf_parse line
  refine ⟨fun b hb => ?_, fun p hp b hb => h.clean b (hpieces.params_mem p hp b hb)⟩
  obtain ⟨a, ha, rfl⟩ := hpieces.command_mem b hb
  exact toUpper_clean (h.clean a ha)

theorem Command.answers {s : Server} {c : Ptr} {params : List Str} (hs : s.Tidy) (hc : s.Allocated c)
    (hops : ∀ name ch, s.findChannel name = some ch → ∀ p ∈ ch.operators, p ∈ ch.members)
    (hparams : ∀ p ∈ params, Clean p) (command : Command) :
    s.Answers (command.execute s c params) (command.Fits s c params) := by
  cases command with
  | pass => exact PassCommand.answers hs hc params
  | nick => exact NickCommand.answers hs hc hparams
  | user => exact UserCommand.answers hs hc hparams
  | join => exact JoinCommand.answers hs hc hparams
  | privmsg => exact PrivmsgCommand.answers hs hc hparams
  | kick => exact KickCommand.answers hs hc hparams
  | invite => exact InviteCommand.answers hs hc hparams
  | topic => exact TopicCommand.answers hs hc hparams
  | mode => exact ModeCommand.answers hs hc hops hparams

namespace Server

variable {s t : Server} {c : Ptr} {m : Message}

theorem answers_processMessage (hs : s.Tidy) (hc : s.Allocated c)
    (hops : ∀ name ch, s.findChannel name = some ch → ∀ p ∈ ch.operators, p ∈ ch.members)
    (hm : m.Clean) : s.Answers (s.processMessage c m) (s.MessageFits c m) := by
  have hname := hs.short_displayName c
  have hlen := hname.length_le
  -- the commands that are answered in place have no handler
  have hplace : m.handler = none → m.command ∈ [[], lit "CAP", lit "QUIT"] → (True ↔ s.MessageFits c m) := by
    intro hnone hin
    refine iff_of_true trivial ⟨fun hping => ?_, fun hout _ => ?_, fun command hcommand => ?_⟩
    · rw [hping] at hin
      exact absurd hin (by decide)
    · refine absurd ?_ hout
      simp only [List.mem_cons, List.not_mem_nil, or_false] at hin ⊢
      tauto
    · rw [hnone] at hcommand
      exact absurd hcommand (Option.not_mem_none _)
  have hlookup : m.handler = commands.lookup m.command := rfl
  unfold processMessage
  dsimp only
  by_cases hempty : m.command = []
  · rw [if_pos hempty]
    refine (Answers.refl hs).congr (hplace ?_ ?_) <;> simp +decide [hlookup, hempty]
  rw [if_neg hempty]
  by_cases hcap : m.command = lit "CAP"
  · rw [if_pos hcap]
    -- for a line with a handler the three parts of the condition are one
    have hfits : True ↔ s.MessageFits c m := by
      refine hplace ?_ ?_ <;> simp +decide [hlookup, hcap]
    refine Answers.congr ?_ hfits
    split_ifs
    · have htold := hs.tell (n := 20) hc clean_nil
        (show isValidOutboundMessage (lit ":server CAP * LS :\r\n") = true by decide) rfl
      exact htold.silent (by omega)
    · exact .refl hs
  rw [if_neg hcap]
  by_cases hping : m.command = lit "PING"
  · rw [if_pos hping]
    have htoken : Clean (m.params.headD (lit "ft_irc")) := by
      cases hparams : m.params with
      | nil => decide
      | cons p _ => exact hm.params p (hparams ▸ List.mem_cons_self)
    refine (hs.tell (n := 21 + (m.params.headD (lit "ft_irc")).length + 2) hc
      (by simp +decide only [clean_append, htoken, and_self]) (by decide)
      (by simp only [List.length_append]; rfl)).congr ?_
    refine ⟨fun h => ⟨fun _ => h, fun hout => ?_, fun command hcommand => ?_⟩, fun h => h.1 hping⟩
    · exact absurd (by simp [hping]) hout
    · have hnone : commands.lookup (lit "PING") = none := by decide
      rw [hlookup, hping, hnone] at hcommand
      exact absurd hcommand (Option.not_mem_none _)
  rw [if_neg hping]
  by_cases hquit : m.command = lit "QUIT"
  · rw [if_pos hquit]
    have hfits : True ↔ s.MessageFits c m := by
      refine hplace ?_ ?_ <;> simp +decide [hlookup, hquit]
    refine Answers.congr (hs.modify_of_identity (fun x => ?_) fun x => ?_) hfits
    · rw [Client.trace_markClosing]
    · have hidentity := x.identity_markClosing (lit "Quit: " ++ m.params.headD (lit "Client Quit"))
      exact ⟨congrArg Client.Identity.nickname hidentity, congrArg Client.Identity.username hidentity⟩
  rw [if_neg hquit]
  have hout : m.command ∉ [[], lit "CAP", lit "PING", lit "QUIT"] := by
    simp only [List.mem_cons, List.not_mem_nil, or_false, not_or]
    exact ⟨hempty, hcap, hping, hquit⟩
  rw [← hlookup]
  cases hhandler : m.handler with
  | none =>
    refine (hs.tell (n := 12 + (displayName (s.client c)).length + 1 + m.command.length + 19) hc
      (by simp +decide [hname.clean, hm.command]) (by decide)
      (by simp only [List.length_append]; rfl)).congr ?_
    refine ⟨fun h => ⟨fun h => absurd h hping, fun _ _ => h, fun command hcommand => ?_⟩,
      fun h => h.2.1 hout hhandler⟩
    rw [hhandler] at hcommand
    exact absurd hcommand (Option.not_mem_none _)
  | some command =>
    have hfits : s.MessageFits c m ↔ (s.Permits c command → command.Fits s c m.params) := by
      refine ⟨fun h => h.2.2 command hhandler, fun h => ⟨fun h => absurd h hping, fun _ hnone => ?_,
        fun command' hcommand' => ?_⟩⟩
      · rw [hhandler] at hnone
        exact absurd hnone (Option.some_ne_none _)
      · rw [hhandler] at hcommand'
        rwa [← Option.some_inj.mp (Option.mem_def.mp hcommand')]
    refine Answers.congr ?_ hfits.symm
    dsimp only
    have hrefused : ∀ {b : Bool}, b = false → b ≠ true := fun h => Bool.eq_false_iff.mp h
    -- the two gates: PASS first, then the registration
    split_ifs with hpass hreg
    · have htold := hs.tell (n := 40) hc clean_nil
        (show isValidOutboundMessage (lit ":server 451 * :You have not registered\r\n") = true by decide) rfl
      refine (htold.silent (by omega)).congr (iff_of_true trivial fun hpermits => ?_)
      rcases hpermits with h | h
      · exact absurd h hpass.1
      · exact absurd h.1 (hrefused hpass.2)
    · refine ((hs.tell (n := 12 + (displayName (s.client c)).length + 27) hc
        (by simp +decide [hname.clean]) (by decide)
        (by simp only [List.length_append]; rfl)).silent (by omega)).congr ?_
      refine iff_of_true trivial fun hpermits => ?_
      rcases hpermits with h | ⟨_, h | h | h⟩
      · exact absurd h hreg.1
      · exact absurd h hreg.2.1
      · exact absurd h hreg.2.2.1
      · exact absurd h (hrefused hreg.2.2.2)
    · have hpermits : s.Permits c command := by
        unfold Permits
        by_contra hnot
        simp only [not_or, not_and] at hnot hpass hreg
        have hok : (s.client c).passOk = true := by
          simpa using hpass hnot.1
        obtain ⟨hnick, huser, hregistered⟩ := hnot.2 hok
        exact hregistered (by simpa using hreg hnot.1 hnick huser)
      exact (Command.answers hs hc hops hm.params command).congr (imp_iff_right hpermits).symm

/-- The server is tidy if its channels are. -/
theorem Tidy.of_texts (hint : s.Integrity) (hidentity : ∀ p x, s.heap p = some x → x.identity.Sound)
    (htexts : ∀ name ch, s.findChannel name = some ch → ChannelTexts name ch) : s.Tidy where
  nickname p := by
    cases hx : s.heap p with
    | none =>
      rw [Server.nickname, client, hx]
      exact short_nil 9
    | some x =>
      rw [Server.nickname, client_of_heap hx]
      have hsound : if x.nickSet then NickCommand.isValidNickname x.nickname = true
        else x.nickname = [] := (hidentity p x hx).nickname
      split_ifs at hsound
      · exact short_of_isValidNickname hsound
      · rw [hsound]
        exact short_nil 9
  username p := by
    cases hx : s.heap p with
    | none =>
      rw [Server.username, client, hx]
      exact short_nil 32
    | some x =>
      rw [Server.username, client_of_heap hx]
      have hsound : if x.userSet then UserCommand.isValidUsername x.username = true
        else x.username = [] := (hidentity p x hx).username
      split_ifs at hsound
      · exact short_of_isValidUsername hsound
      · rw [hsound]
        exact short_nil 32
  texts := htexts
  allocated name ch hch p hp := (hint.channel name ch hch).allocated p (Or.inl hp)
  connected _ _ hp := hint.allocated_of_find? hp

end Server

section Moves

variable {s t s' : Server} {c : Ptr} {line : Str}

/-- Taking a line out of the buffer changes nothing that is sent. -/
theorem DispatchOf.answers_before (h : DispatchOf c line s t s') (hs : s.Tidy) :
    s.Answers t True := by
  obtain ⟨x, x', hx, _, hextract, rfl, _⟩ := h
  have hidentity := Client.extractLine_identity hextract
  have htrace := Client.extractLine_trace hextract
  have hnick := hs.nickname c
  have huser := hs.username c
  rw [Server.nickname, Server.client_of_heap hx] at hnick
  rw [Server.username, Server.client_of_heap hx] at huser
  refine hs.modify fun y hy => ?_
  obtain rfl := Option.some_inj.mp (hx.symm.trans hy)
  refine ⟨by rw [htrace], ?_, ?_⟩
  · rwa [Client.nickname_of_identity hidentity]
  · rwa [show x'.username = x.username from congrArg Client.Identity.username hidentity]

/-- A line is answered in messages that are all valid exactly if it fits. -/
theorem DispatchOf.answers (h : DispatchOf c line s t s') (hs : s.Tidy) (hint : s.Integrity) :
    s.Answers s' (t.MessageFits c (Parser.parse line)) := by
  have hbefore := h.answers_before hs
  have hops : ∀ name ch, t.findChannel name = some ch → ∀ p ∈ ch.operators, p ∈ ch.members :=
    fun name ch hch => ((h.integrity hint).channel name ch hch).wf.operators_sub
  have hclean : (Parser.parse line).Clean := by
    obtain ⟨_, _, _, _, hextract, _⟩ := h
    exact (Client.acceptedLine hextract).clean_parse
  have hprocessed := hbefore.andThen
    (Server.answers_processMessage hbefore.tidy h.allocated hops hclean)
  obtain ⟨_, _, _, _, _, _, rfl⟩ := h
  have hrecorded := hprocessed.tidy.modify_of_identity (p := c) (f := (·.recordLine line))
    (fun _ => rfl) fun _ => ⟨rfl, rfl⟩
  exact (hprocessed.trans hrecorded).congr (and_iff_left trivial)

/-- The texts of all channels are clean and short. -/
theorem Reachable.tidy (h : Reachable s) : s.Tidy := by
  have htexts : ∀ name ch, s.findChannel name = some ch → ChannelTexts name ch := by
    induction h with
    | start => exact fun _ _ hch => absurd hch (Option.some_ne_none _).symm
    | move h hmove ih =>
      have htidy := Server.Tidy.of_texts h.integrity h.identity_sound ih
      cases hmove with
      | connect => exact ih
      | io => exact ih
      | line hx live hextract =>
        have hdispatch : DispatchOf _ _ _ _ _ := ⟨_, _, hx, live, hextract, rfl, rfl⟩
        exact (hdispatch.answers htidy h.integrity).tidy.texts
      | disconnect hfd =>
        intro name ch' hch'
        rw [Server.findChannel_disconnectClient hfd] at hch'
        obtain ⟨ch, hch, rfl⟩ := Option.map_eq_some_iff.mp hch'
        exact ((ih name ch hch).removeMember _).removeInvited _
      | poll h =>
        obtain ⟨_, rfl, _⟩ := Server.of_refreshPollEvents h
        exact ih
  exact .of_texts h.integrity h.identity_sound htexts

/-- A text without control bytes in front of its end is valid only if it has none. -/
theorem Server.isValidOutboundMessage_quitMessage {x : Client} (hnick : Clean x.nickname)
    (huser : Clean x.username) : isValidOutboundMessage (Server.quitMessage x) = true
      ↔ Clean (Server.quitReason x) ∧ Server.quitLength x ≤ 512 := by
  have hmessage : Server.quitMessage x = lit ":" ++ x.nickname ++ lit "!" ++ x.username
      ++ lit "@localhost QUIT :" ++ Server.quitReason x ++ lit "\r\n" := rfl
  have hlen : (lit ":" ++ x.nickname ++ lit "!" ++ x.username ++ lit "@localhost QUIT :"
      ++ Server.quitReason x).length + (lit "\r\n").length = Server.quitLength x := by
    simp only [List.length_append]
    rfl
  by_cases hreason : Clean (Server.quitReason x)
  · rw [hmessage, isValidOutboundMessage_append (by simp +decide [hnick, huser, hreason]) (by decide),
      hlen, and_iff_right hreason]
    exact Iff.rfl
  · refine iff_of_false (fun hvalid => hreason ?_) fun h => hreason h.1
    rw [hmessage] at hvalid
    unfold isValidOutboundMessage at hvalid
    split_ifs at hvalid
    have hall := List.all_eq_true.mp hvalid
    have hend : (lit "\r\n").length = 2 := rfl
    rw [List.length_append, hend, Nat.add_sub_cancel, List.take_left] at hall
    intro b hb
    have hbyte := hall b (List.mem_append_right _ hb)
    simp only [bne_iff_ne, Bool.and_eq_true] at hbyte
    exact ⟨hbyte.1.1, hbyte.1.2, hbyte.2⟩

/-- A disconnect is announced in a valid message exactly if its QUIT line fits. -/
theorem offersValid_disconnectClient (hs : s.Tidy) {fd : Fd} {p : Ptr}
    (hfd : s.clients.find? fd = some p) (h : s.OffersValid) :
    (s.disconnectClient fd).OffersValid ↔ s.QuitFits p := by
  have hannounced : (s.announceQuit p).OffersValid ↔ s.QuitFits p := by
    unfold Server.announceQuit Server.QuitFits
    by_cases hreg : (s.client p).isRegistered = true
    · rw [if_pos hreg, Server.offersValid_sendAll, and_iff_right h, imp_iff_right hreg,
        Server.isValidOutboundMessage_quitMessage (hs.nickname p).clean (hs.username p).clean]
      refine imp_congr_left ⟨?_, fun hne => ?_⟩
      · rintro ⟨q, hq, _⟩
        exact List.ne_nil_of_mem hq
      · obtain ⟨q, hq⟩ := List.exists_mem_of_ne_nil _ hne
        obtain ⟨_, name, ch, hch, _, hmem⟩ := Server.mem_quitRecipients.mp hq
        exact ⟨q, hq, hs.allocated name ch hch q hmem⟩
    · rw [if_neg hreg]
      exact iff_of_true h fun h => absurd h hreg
  rw [← hannounced, Server.disconnectClient, hfd]
  constructor
  · intro hafter q x hx
    by_cases hq : q = p
    · -- the client that goes is told nothing
      have hself : (s.announceQuit p).heap q = s.heap q := by
        unfold Server.announceQuit
        split_ifs
        · exact Server.heap_sendAll_of_not_mem fun hmem => (Server.mem_quitRecipients.mp hmem).1 hq
        · rfl
      exact h q x (hself ▸ hx)
    · refine hafter q x ?_
      show Function.update (s.announceQuit p).heap p none q = some x
      rwa [Function.update_of_ne hq]
  · intro hbefore q x hx
    have hx' : Function.update (s.announceQuit p).heap p none q = some x := hx
    rw [Function.update_apply] at hx'
    split_ifs at hx'
    exact hbefore q x hx'

/-- A move offers valid messages only exactly if it meets the guard. -/
theorem Move.offersValid_iff (hreach : Reachable s) (h : Move s s') (hs : s.OffersValid) :
    s'.OffersValid ↔ answersFit.Met s s' := by
  have hline : ∀ {c line t}, DispatchOf c line s t s' →
      (s'.OffersValid ↔ t.MessageFits c (Parser.parse line)) := fun hdispatch => by
    rw [(hdispatch.answers hreach.tidy hreach.integrity).offersValid, and_iff_right hs]
  constructor
  · intro hafter
    refine ⟨fun c line t hdispatch => (hline hdispatch).mp hafter, ?_⟩
    rintro fd p hfd rfl
    exact (offersValid_disconnectClient hreach.tidy hfd hs).mp hafter
  · intro hmet
    cases h with
    | @connect fd ip p =>
      intro q x hx
      have hx' : Function.update s.heap p (some { fd, ip }) q = some x := hx
      rw [Function.update_apply] at hx'
      split_ifs at hx'
      · rw [← Option.some_inj.mp hx']
        exact fun _ htext => absurd htext List.not_mem_nil
      · exact hs q x hx'
    | io hx hio =>
      refine (Server.offersValid_modify fun y hy => ?_).mpr hs
      obtain rfl := Option.some_inj.mp (hx.symm.trans hy)
      exact hio.offered_eq
    | line hx live hextract =>
      have hdispatch : DispatchOf _ _ s _ _ := ⟨_, _, hx, live, hextract, rfl, rfl⟩
      exact (hline hdispatch).mpr (hmet.1 _ _ _ hdispatch)
    | disconnect hfd =>
      exact (offersValid_disconnectClient hreach.tidy hfd hs).mpr (hmet.2 _ _ hfd rfl)
    | poll h =>
      obtain ⟨_, rfl, _⟩ := Server.of_refreshPollEvents h
      exact hs

end Moves

/-- As long as all answers and announcements fit, every message that is built is valid, so none is
refused. A move ends this exactly if it breaks the condition. -/
theorem no_refused_messages (s : Server) :
    (GuardedReachable answersFit s → s.OffersValid)
    ∧ ∀ s', Reachable s → s.OffersValid → Move s s' →
        (s'.OffersValid ↔ answersFit.Met s s') := by
  refine ⟨fun h => ?_, fun s' hreach hs hmove => hmove.offersValid_iff hreach hs⟩
  exact h.induct (P := Server.OffersValid) (fun _ _ _ _ hx => absurd hx (Option.some_ne_none _).symm)
    fun u v hu hmove hmet hu' => (hmove.offersValid_iff hu.reachable hu').mpr hmet

theorem no_refused_messages_sample : sample.OffersValid :=
  (no_refused_messages _).1 (guardedReachable_run (by decide +kernel) (by decide +kernel))

/-- A line that a client may send, and its relay is too long. -/
def longLine : Str := lit "PRIVMSG #c :" ++ List.replicate 490 (ch 'a')

/-- The second client of the sample has sent it. -/
def unheard : Server := sample.run [.read 5 (.data (longLine ++ lit "\r\n"))]

/-- The first client is there and has room, and yet it does not get the message. -/
theorem long_message_refused :
    Reachable sample ∧ Reachable unheard ∧ (unheard.client 1).trace.dispatched.getLast? = some (longLine, false)
      ∧ (unheard.client 0).stopped = false
      ∧ (unheard.client 0).trace.offered.getLast?.map isValidOutboundMessage = some false
      ∧ (unheard.client 0).sendBuffer = (sample.client 0).sendBuffer ∧ ¬ unheard.OffersValid := by
  obtain ⟨hadm, hlast, hlive, hinvalid, hbuffer, hheap⟩ :
      sample.AdmitsAll [.read 5 (.data (longLine ++ lit "\r\n"))]
      ∧ (unheard.client 1).trace.dispatched.getLast? = some (longLine, false)
      ∧ (unheard.client 0).stopped = false
      ∧ (unheard.client 0).trace.offered.getLast?.map isValidOutboundMessage = some false
      ∧ (unheard.client 0).sendBuffer = (sample.client 0).sendBuffer
      ∧ (unheard.heap 0).isSome = true := by
    decide +kernel
  refine ⟨reachable_sample, reachable_sample.run hadm, hlast, hlive, hinvalid, hbuffer, fun h => ?_⟩
  obtain ⟨x, hx⟩ := Option.isSome_iff_exists.mp hheap
  rw [Server.client_of_heap hx] at hinvalid
  obtain ⟨text, htext, hfalse⟩ := Option.map_eq_some_iff.mp hinvalid
  exact absurd ((h 0 x hx text (List.mem_of_getLast? htext)).symm.trans hfalse) (by decide)

end FtIrc
