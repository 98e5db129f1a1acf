import FtIrc.Bot
import FtIrc.Chunks

/-!
# The bot's password

The bot sends the server's password behind `PASS :`, as a line that may be exactly as long as
the wire allows. The bot's outbound check, the server's framing and the parser agree on it for
every password both programs start with, so the first comparison on the connection succeeds.
-/

namespace FtIrc

open Bytes

/-- The bot's PASS line. -/
def passLine (password : Str) : Str := lit "PASS :" ++ password

/-- The two programs accept the same passwords. -/
theorem isValidBotPassword_eq (password : Str) :
    isValidBotPassword password = isValidPassword password := by
  unfold isValidBotPassword isValidPassword containsLineControl
  by_cases hempty : password.isEmpty = true
  · rw [if_pos hempty, hempty]
    rfl
  rw [if_neg hempty, Bool.eq_false_iff.mpr hempty]
  by_cases hlong : password.length > maxPasswordSize
  · rw [if_pos hlong, decide_eq_false (Nat.not_le.mpr hlong)]
    rfl
  · rw [if_neg hlong, decide_eq_true (Nat.not_lt.mp hlong)]
    rfl

/-- A password as `main` lets it through: a C string of at most 504 bytes without CR and LF. -/
structure IsPassword (password : Str) : Prop where
  ne_nil : password ≠ []
  length_le : password.length ≤ maxPasswordSize
  nul_not_mem : nul ∉ password
  cr_not_mem : cr ∉ password
  lf_not_mem : lf ∉ password

theorem isPassword_of_isValidPassword {password : Str} (hnul : nul ∉ password)
    (h : isValidPassword password = true) : IsPassword password := by
  simp only [isValidPassword, Bool.and_eq_true, Bool.not_eq_true', decide_eq_true_eq,
    Bool.or_eq_false_iff, decide_eq_false_iff_not, List.isEmpty_eq_false_iff] at h
  exact ⟨h.1.1, h.1.2, hnul, h.2.1, h.2.2⟩

namespace IsPassword

variable {password : Str} (h : IsPassword password)
include h

/-- No byte of the line is a control byte. -/
theorem not_mem_passLine {b : Byte} (hb : b = nul ∨ b = cr ∨ b = lf) : b ∉ passLine password := by
  intro hmem
  rcases List.mem_append.mp hmem with hmem | hmem
  · rcases hb with rfl | rfl | rfl <;> exact absurd hmem (by decide)
  · rcases hb with rfl | rfl | rfl
    · exact h.nul_not_mem hmem
    · exact h.cr_not_mem hmem
    · exact h.lf_not_mem hmem

/-- With its CRLF the line takes at most 512 bytes. -/
theorem length_passLine : (passLine password).length + 2 ≤ maxIrcMessageSize := by
  have hle := h.length_le
  have hpass : (lit "PASS :").length = 6 := by decide
  rw [passLine, List.length_append, hpass]
  simp only [maxPasswordSize, maxIrcMessageSize] at *
  omega

/-- The bot's own check accepts the line. -/
theorem sendLine_passLine (bot : Bot) :
    bot.sendLine (passLine password)
      = .ok { bot with sent := bot.sent ++ [passLine password ++ lit "\r\n"] } := by
  have hlen := h.length_passLine
  have hsize : ¬ ((passLine password).isEmpty
      || decide ((passLine password).length + 2 > maxIrcMessageSize)) = true := by
    rw [Bool.or_eq_true, decide_eq_true_eq, not_or]
    refine ⟨fun hempty => ?_, by omega⟩
    exact absurd (List.append_eq_nil_iff.mp (List.isEmpty_iff.mp hempty)).1 (by decide)
  have hclean : ¬ ((passLine password).any fun b => b == nul || b == cr || b == lf) = true := by
    rw [List.any_eq_true]
    rintro ⟨b, hb, hcontrol⟩
    simp only [Bool.or_eq_true, beq_iff_eq, or_assoc] at hcontrol
    exact h.not_mem_passLine hcontrol hb
  rw [Bot.sendLine, if_neg hsize, if_neg hclean]

/-- The line and its CRLF are one good record. -/
theorem framed_passLine (more : Str) :
    framed (passLine password ++ lit "\r\n" ++ more) = passLine password :: framed more := by
  have hlf : lf ∉ passLine password ++ [cr] := by
    intro hmem
    rcases List.mem_append.mp hmem with hmem | hmem
    · exact h.not_mem_passLine (.inr (.inr rfl)) hmem
    · exact absurd hmem (by decide)
  have hdrop : dropFinalCr (passLine password ++ [cr]) = passLine password := by
    rw [dropFinalCr, List.getLast?_concat, if_pos rfl, List.dropLast_concat]
  have hgood : isGoodRecord (passLine password ++ [cr] ++ [lf]) = true := by
    have hlen := h.length_passLine
    simp only [isGoodRecord, List.dropLast_concat, Bool.and_eq_true, decide_eq_true_eq, hdrop,
      List.all_eq_true, bne_iff_ne, ne_eq, List.length_append, List.length_singleton]
    refine ⟨hlen, fun b hb => ⟨fun heq => ?_, fun heq => ?_⟩⟩
    · exact h.not_mem_passLine (.inl heq) hb
    · exact h.not_mem_passLine (.inr (.inl heq)) hb
  have hstream : passLine password ++ lit "\r\n" ++ more = (passLine password ++ [cr]) ++ lf :: more := by
    rw [List.append_assoc, List.append_assoc]
    rfl
  rw [hstream, framed_good hlf hgood, hdrop]

/-- The parser finds the password, whatever spaces and colons it has. -/
theorem parse_passLine :
    Parser.parse (passLine password) = { command := lit "PASS", params := [password] } := by
  have hlast : dropFinalCr (passLine password) = passLine password := by
    refine if_neg fun hcr => ?_
    exact h.not_mem_passLine (.inr (.inl rfl)) (List.mem_of_getLast? hcr)
  have hcut : cut (lit " :") (passLine password) = some (lit "PASS", password) := by
    -- the first `" :"` is the bot's own
    have hsp : sp ∉ lit "PASS" := by decide
    exact cut_append_of_not_mem hsp [colon] password
  have hne : ¬ passLine password = [] := fun hnil =>
    absurd (List.append_eq_nil_iff.mp hnil).1 (by decide)
  rw [Parser.parse, hlast]
  dsimp only
  rw [if_neg hne, hcut]
  rfl

end IsPassword

/-! ## The history of a served client -/

namespace Server

variable {s : Server} {p : Ptr} {x : Client}

/-- More lines only add to the history. -/
theorem dispatched_serve (hx : s.heap p = some x) (lines : List Str) :
    ∃ y, (s.serve p lines).heap p = some y ∧ x.trace.dispatched <+: y.trace.dispatched := by
  induction lines generalizing s x with
  | nil => exact ⟨x, hx, List.prefix_rfl⟩
  | cons line lines ih =>
    obtain ⟨y, hy, hinput⟩ := input_handleLine hx line
    have hprefix : x.trace.dispatched <+: y.trace.dispatched :=
      ⟨[(line, y.stopped)], (congrArg (fun i => i.2.2) hinput).symm⟩
    cases hstopped : y.stopped with
    | true =>
      rw [serve_cons_of_stopped (by rw [client_of_heap hy, hstopped])]
      exact ⟨y, hy, hprefix⟩
    | false =>
      rw [serve_cons_of_live (by rw [client_of_heap hy, hstopped])]
      obtain ⟨z, hz, hyz⟩ := ih hy
      exact ⟨z, hz, hprefix.trans hyz⟩

/-- The first line of a new connection is the first one in its history. -/
theorem lines_serve_cons (hx : s.heap p = some x) (hfresh : x.trace.dispatched = []) (line : Str)
    (lines : List Str) :
    ∃ y rest, (s.serve p (line :: lines)).heap p = some y ∧ y.lines = line :: rest := by
  obtain ⟨y, hy, hinput⟩ := input_handleLine hx line
  have hdispatched : y.trace.dispatched = [(line, y.stopped)] := by
    have heq : y.trace.dispatched = x.trace.dispatched ++ [(line, y.stopped)] :=
      congrArg (fun i => i.2.2) hinput
    rw [heq, hfresh]
    rfl
  cases hstopped : y.stopped with
  | true =>
    rw [serve_cons_of_stopped (by rw [client_of_heap hy, hstopped])]
    exact ⟨y, [], hy, by rw [Client.lines, hdispatched]; rfl⟩
  | false =>
    rw [serve_cons_of_live (by rw [client_of_heap hy, hstopped])]
    obtain ⟨z, hz, rest, hrest⟩ := dispatched_serve hy lines
    refine ⟨z, rest.map Prod.fst, hz, ?_⟩
    rw [Client.lines, ← hrest, hdispatched]
    rfl

end Server

/-- A connection whose first line is the PASS line with the server's password has passed, and no
comparison on it has failed. -/
theorem Reachable.passed_of_lines {s : Server} (h : Reachable s) {password : Str}
    (hs : s.password = password) (hpassword : IsPassword password) {p : Ptr} {x : Client}
    (hx : s.heap p = some x) {rest : List Str} (hlines : x.lines = passLine password :: rest) :
    x.passOk = true ∧ x.failedPassAttempts = 0 := by
  subst hs
  have hfirst : comparePass s.password (false, 0) (passLine s.password) = (true, 0) := by
    unfold comparePass
    rw [hpassword.parse_passLine]
    dsimp only
    have hhandler : commands.lookup (lit "PASS") = some .pass := by decide
    rw [if_pos ⟨hhandler, rfl, hpassword.ne_nil⟩]
    exact if_pos rfl
  -- after a success nothing is compared any more
  have hkept : ∀ lines : List Str, lines.foldl (comparePass s.password) (true, 0) = (true, 0) := by
    intro lines
    induction lines with
    | nil => rfl
    | cons line lines ih =>
      have hone : comparePass s.password (true, 0) line = (true, 0) :=
        if_neg fun hpass => absurd hpass.2.1 (by decide)
      rw [List.foldl_cons, hone, ih]
  have houtcome := (h.accounted p x hx).comparisons_eq
  rw [hlines, comparisons, List.foldl_cons, hfirst, hkept] at houtcome
  exact ⟨(congrArg Prod.fst houtcome).symm, (congrArg Prod.snd houtcome).symm⟩

/-! ## Bot and server agree -/

/-- For every password the server starts with: the bot accepts it too and sends the PASS line,
the parser gets it back, and on every connection whose bytes begin with that line, however they
are cut and whatever else the server does, the line is the first one handled, the client has
passed, and no attempt has failed. A new connection that is sent the line gets that far. -/
theorem bot_authenticates {password : Str} (hnul : nul ∉ password)
    (hvalid : isValidPassword password = true) :
    (∀ argument, isValidBotPassword argument = isValidPassword argument)
    ∧ (∀ bot : Bot, bot.sendLine (passLine password)
        = .ok { bot with sent := bot.sent ++ [passLine password ++ lit "\r\n"] })
    ∧ Parser.parse (passLine password) = { command := lit "PASS", params := [password] }
    ∧ ∀ listenFd es, (Server.start password listenFd).AdmitsAll es →
      let s := (Server.start password listenFd).run es
      (∀ p x more, s.heap p = some x →
        x.trace.received = passLine password ++ lit "\r\n" ++ more →
        x.lines.head? = some (passLine password) ∧ x.passOk = true ∧ x.failedPassAttempts = 0)
      ∧ ∀ fd p ip, s.clients.find? fd = some p → s.heap p = some { fd, ip } →
        ∀ chunks more, (∀ c ∈ chunks, IsChunk c) →
          chunks.flatten = passLine password ++ lit "\r\n" ++ more →
          ∃ x, (s.run (Server.reads fd chunks)).heap p = some x
            ∧ x.lines.head? = some (passLine password) ∧ x.passOk = true
            ∧ x.failedPassAttempts = 0 := by
  have hpassword := isPassword_of_isValidPassword hnul hvalid
  refine ⟨isValidBotPassword_eq, hpassword.sendLine_passLine, hpassword.parse_passLine,
    fun listenFd es hadm => ?_⟩
  intro s
  have hreach : Reachable s := (Reachable.start password listenFd).run hadm
  have hs : s.password = password := ((Reachable.start password listenFd).moves_run hadm).password_eq
  have hframed := hpassword.framed_passLine
  refine ⟨fun p x more hx hreceived => ?_, fun fd p ip hfd hx chunks more hchunks hstream => ?_⟩
  · -- at least the first line of the stream has been handled
    have hlines : ∃ rest, x.lines = passLine password :: rest := by
      rcases (framed_run password listenFd hadm p x hx).conforms
        with ⟨_, heq⟩ | ⟨handled, last, hdispatched, _, hprefix⟩
      · rw [hreceived, hframed] at heq
        exact ⟨_, heq⟩
      · rw [hreceived, hframed] at hprefix
        cases hlines : x.lines with
        | nil =>
          rw [Client.lines, hdispatched, List.map_append] at hlines
          exact absurd (List.append_eq_nil_iff.mp hlines).2 (List.cons_ne_nil _ _)
        | cons line rest =>
          rw [hlines] at hprefix
          exact ⟨rest, by rw [(List.cons_prefix_cons.mp hprefix).1]⟩
    obtain ⟨rest, hrest⟩ := hlines
    exact ⟨by rw [hrest]; rfl, hreach.passed_of_lines hs hpassword hx hrest⟩
  -- a client that has just connected is served the stream as if it came in one piece
  · have hsettled := (framed_run password listenFd hadm p _ hx).settled rfl
    have hfollows := (Server.follows_self hx rfl hsettled).reads hfd hchunks
    obtain ⟨x, hx'⟩ := hfollows.exists_client
    obtain ⟨y, rest, hy, hlines⟩ := Server.lines_serve_cons hx rfl (passLine password) (framed more)
    have hsame := hfollows.dispatched_eq
    rw [List.nil_append, hstream, hframed, Server.client_of_heap hx', Server.client_of_heap hy] at hsame
    have hxlines : x.lines = passLine password :: rest := by
      rw [← hlines]
      exact congrArg (List.map Prod.fst) hsame
    have hreach' := hreach.run (s.admitsAll_reads fd hchunks)
    have hs' : (s.run (Server.reads fd chunks)).password = password :=
      (hreach.moves_run (s.admitsAll_reads fd hchunks)).password_eq.trans hs
    exact ⟨x, hx', by rw [hxlines]; rfl, hreach'.passed_of_lines hs' hpassword hx' hxlines⟩

/-- A password with a colon and blanks, and a NICK in the same chunk as the end of its line. -/
theorem bot_authenticates_sample :
    ∃ x, (((Server.start (lit ": a :b") 3).run
        [.accept (.connection 4 true (some (lit "127.0.0.1")) (some 0))]).run
          (Server.reads 4 [lit "PASS :: ", lit "a :b\r\nNICK ft_bot\r\n"])).heap 0 = some x
      ∧ x.lines.head? = some (passLine (lit ": a :b")) ∧ x.passOk = true
      ∧ x.failedPassAttempts = 0 := by
  have hvalid : isValidPassword (lit ": a :b") = true := by decide +kernel
  have hadm : (Server.start (lit ": a :b") 3).AdmitsAll
      [.accept (.connection 4 true (some (lit "127.0.0.1")) (some 0))] := by decide +kernel
  exact ((bot_authenticates (by decide +kernel) hvalid).2.2.2 3 _ hadm).2 4 0 (lit "127.0.0.1")
    (by decide +kernel) (by decide +kernel) _ (lit "NICK ft_bot\r\n") (by decide +kernel)
    (by decide +kernel)

end FtIrc
