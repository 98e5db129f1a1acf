import FtIrc.Terminal

/-!
# Whose words a message carries

Every line a client gets names its source, the server or a user, between the leading colon
and the first blank. What a client's line, or its disconnect, adds to any buffer comes in the
server's name or in that client's own, and the origin a client puts in front of a command is
read over.
-/

namespace FtIrc

open Bytes

/-! ## The source field -/

/-- The source field of a message: from the leading colon to the first blank. -/
def source (message : Str) : Option Str :=
  if message.head? = some colon then some (message.tail.takeWhile (· != sp)) else none

/-- The message names the server, or a user of this nickname, as its source, and the one does
not look like the other. -/
def SourcedBy (nickname message : Str) : Prop :=
  source message = some (lit "server")
    ∨ ∃ user rest, source message = some user ∧ cut [ch '!'] user = some (nickname, rest)
      ∧ user ≠ lit "server"

theorem source_of_server {message : Str} (h : lit ":server " <+: message) :
    source message = some (lit "server") := by
  obtain ⟨rest, rfl⟩ := h
  rfl

theorem ServerReply.sourcedBy {text : Str} (h : ServerReply text) (nickname : Str) :
    SourcedBy nickname text := Or.inl (source_of_server h.server)

/-- A nickname ends at the exclamation mark behind it, and the server's name has none. -/
theorem FromUser.sourcedBy {nickname text : Str} (h : FromUser nickname text)
    (hvalid : NickCommand.isValidNickname nickname = true) : SourcedBy nickname text := by
  obtain ⟨hsp, hbang⟩ := not_mem_of_isValidNickname hvalid
  obtain ⟨rest, rfl⟩ := h
  have hsource : source (lit ":" ++ nickname ++ lit "!" ++ rest)
      = some (nickname ++ ch '!' :: rest.takeWhile (· != sp)) := by
    show some (List.takeWhile _ (nickname ++ lit "!" ++ rest)) = _
    rw [List.append_assoc, List.takeWhile_append_of_pos]
    · rfl
    · intro b hb
      exact bne_iff_ne.mpr fun heq => hsp (heq ▸ hb)
  refine Or.inr ⟨_, _, hsource, cut_singleton_eq_some.mpr ⟨rfl, hbang⟩, fun heq => ?_⟩
  have hmem : ch '!' ∈ lit "server" := by
    rw [← heq]
    exact List.mem_append_right _ List.mem_cons_self
  exact absurd hmem (by decide)

/-! ## What is added to a buffer -/

/-- The output of a client has grown by messages that satisfy `S`. -/
def Client.Appends (S : Str → Prop) (x y : Client) : Prop :=
  ∃ added, y.sendBuffer = x.sendBuffer ++ added.flatten
    ∧ y.trace.accepted = x.trace.accepted ++ added ∧ ∀ message ∈ added, S message

namespace Client

variable {S : Str → Prop} {x y z : Client}

theorem Appends.of_eq (hbuffer : y.sendBuffer = x.sendBuffer)
    (haccepted : y.trace.accepted = x.trace.accepted) : Appends S x y :=
  ⟨[], by rw [hbuffer, List.flatten_nil, List.append_nil], by rw [haccepted, List.append_nil],
    fun _ h => absurd h List.not_mem_nil⟩

theorem Appends.refl (S : Str → Prop) (x : Client) : Appends S x x := .of_eq rfl rfl

theorem Appends.trans (hxy : Appends S x y) (hyz : Appends S y z) : Appends S x z := by
  obtain ⟨a, hbuffer, haccepted, ha⟩ := hxy
  obtain ⟨b, hbuffer', haccepted', hb⟩ := hyz
  refine ⟨a ++ b, ?_, ?_, fun message hm => ?_⟩
  · rw [hbuffer', hbuffer, List.flatten_append, List.append_assoc]
  · rw [haccepted', haccepted, List.append_assoc]
  · exact (List.mem_append.mp hm).elim (ha message) (hb message)

theorem sendBuffer_markDead (x : Client) (reason : Str) :
    (x.markDead reason).sendBuffer = x.sendBuffer := by
  unfold markDead
  split_ifs <;> rfl

theorem sendBuffer_markClosing (x : Client) (reason : Str) :
    (x.markClosing reason).sendBuffer = x.sendBuffer := by
  unfold markClosing
  split_ifs <;> rfl

theorem appends_markClosing (x : Client) (reason : Str) : Appends S x (x.markClosing reason) :=
  .of_eq (x.sendBuffer_markClosing reason) (by rw [trace_markClosing])

/-- A message is added whole or not at all. -/
theorem appends_sendMessage (x : Client) {message : Str} (h : S message) :
    Appends S x (x.sendMessage message) := by
  unfold sendMessage
  dsimp only
  split_ifs
  · exact .of_eq rfl rfl
  · exact .of_eq rfl rfl
  · exact .of_eq (sendBuffer_markDead ..) (by rw [trace_markDead])
  · refine ⟨[message], ?_, rfl, fun m hm => ?_⟩
    · rw [List.flatten_singleton]
    · rw [List.mem_singleton.mp hm]
      exact h

end Client

/-- What a client's own update adds to its output is in the server's name. -/
theorem OwnUpdate.appends {c : Ptr} {m : Message} {s : Server} {x x' : Client}
    (h : OwnUpdate c m s x x') (nickname : Str) : Client.Appends (SourcedBy nickname) x x' := by
  have hwelcome : ∀ n u, SourcedBy nickname (welcome n u) := by
    intro n u
    refine Or.inl (source_of_server ?_)
    unfold welcome
    simp only [List.append_assoc]
    exact List.IsPrefix.trans (by decide) (List.prefix_append (lit ":server 001 ") _)
  cases h with
  | authenticate => exact .of_eq rfl rfl
  | failPass =>
    have hcounted : Client.Appends (SourcedBy nickname) x x.recordFailedPassAttempt := by
      unfold Client.recordFailedPassAttempt
      split_ifs <;> exact .of_eq rfl rfl
    have hreply : ServerReply (lit ":server 464 " ++ displayName x ++ lit " :Password incorrect\r\n") := by
      repeat apply ServerReply.append
      decide
    have hsent := hcounted.trans
      (x.recordFailedPassAttempt.appends_sendMessage (hreply.sourcedBy nickname))
    unfold Client.failPass
    dsimp only
    split_ifs
    · exact hsent.trans (Client.appends_markClosing ..)
    · exact hsent
  | @takeNickname n =>
    have hset : Client.Appends (SourcedBy nickname) x { x with nickname := n, nickSet := true } :=
      .of_eq rfl rfl
    unfold Client.takeNickname
    dsimp only
    split_ifs
    · exact hset.trans (Client.appends_sendMessage _ (hwelcome _ _))
    · exact hset
  | @takeUsername u =>
    have hset : Client.Appends (SourcedBy nickname) x { x with username := u, userSet := true } :=
      .of_eq rfl rfl
    unfold Client.takeUsername
    dsimp only
    split_ifs
    · exact hset.trans (Client.appends_sendMessage _ (hwelcome _ _))
    · exact hset
  | quit => exact Client.appends_markClosing ..

namespace Server

/-- The output of every client of `s` has grown, in `t`, by messages that satisfy `S`. -/
def Appends (S : Str → Prop) (s t : Server) : Prop :=
  ∀ p x, s.heap p = some x → ∃ y, t.heap p = some y ∧ x.Appends S y

variable {S : Str → Prop} {s t u : Server}

theorem Appends.refl (S : Str → Prop) (s : Server) : Appends S s s :=
  fun _ x hx => ⟨x, hx, .refl S x⟩

theorem Appends.trans (hst : Appends S s t) (htu : Appends S t u) : Appends S s u := by
  intro p x hx
  obtain ⟨y, hy, hxy⟩ := hst p x hx
  obtain ⟨z, hz, hyz⟩ := htu p y hy
  exact ⟨z, hz, hxy.trans hyz⟩

theorem appends_modify {p : Ptr} {f : Client → Client}
    (hf : ∀ x, s.heap p = some x → x.Appends S (f x)) : Appends S s (s.modify p f) := by
  intro q x hx
  rw [heap_modify]
  split_ifs with hq
  · rw [← hq, hx]
    exact ⟨f x, rfl, hf x (hq ▸ hx)⟩
  · exact ⟨x, hx, .refl S x⟩

theorem appends_sendMessage (p : Ptr) {message : Str} (h : S message) :
    Appends S s (s.sendMessage p message) :=
  appends_modify fun x _ => x.appends_sendMessage h

theorem appends_sendAll (ps : List Ptr) {message : Str} (h : S message) :
    Appends S s (s.sendAll ps message) :=
  sendAll_induct s ps message (P := fun t => Appends S s t) (.refl S s)
    fun _ p ht => ht.trans (appends_sendMessage p h)

end Server

/-- A line adds only what comes from the server or from its own client. -/
theorem Effects.appends {c : Ptr} {m : Message} {s₀ s : Server} (h : Effects c m s₀ s)
    (hvalid : (s₀.client c).isRegistered = true →
      NickCommand.isValidNickname (s₀.nickname c) = true) :
    Server.Appends (SourcedBy (s₀.nickname c)) s₀ s := by
  apply h.induct (P := fun t => Server.Appends (SourcedBy (s₀.nickname c)) s₀ t) (.refl _ s₀)
  intro t t' _ heff ht
  refine ht.trans ?_
  cases heff with
  | reply htext => exact Server.appends_sendMessage c (htext.sourcedBy _)
  | relay q hreg htext => exact Server.appends_sendMessage q (htext.sourcedBy (hvalid hreg))
  | own hx hown =>
    refine Server.appends_modify fun y hy => ?_
    rw [Option.some_inj.mp (hy.symm.trans hx)]
    exact hown.appends _
  | found => exact .refl _ t
  | change => exact .refl _ t
  | part => exact .refl _ t
  | dissolve => exact .refl _ t

/-! ## The origin of a line -/

theorem dropFinalCr_append {s : Str} (hs : s.getLast? ≠ some cr) (l : Str) :
    dropFinalCr (s ++ l) = s ++ dropFinalCr l := by
  rcases List.eq_nil_or_concat' l with rfl | ⟨l, b, rfl⟩
  · rw [List.append_nil, dropFinalCr, if_neg hs, show dropFinalCr [] = [] from rfl, List.append_nil]
  · rw [← List.append_assoc, dropFinalCr, dropFinalCr, List.getLast?_concat, List.getLast?_concat,
      List.dropLast_concat, List.dropLast_concat]
    split_ifs
    · rfl
    · rw [List.append_assoc]

/-- The carriage return at the end belongs to no word. -/
theorem words_dropFinalCr (l : Str) : words (dropFinalCr l) = words l := by
  rcases List.eq_nil_or_concat' l with rfl | ⟨l, b, rfl⟩
  · rfl
  · rw [dropFinalCr, List.getLast?_concat, List.dropLast_concat]
    split_ifs with hb
    · rw [Option.some_inj.mp hb, words_append_cons (by decide), words_nil, List.append_nil]
    · rfl

/-- Without blanks in `p`, the first `" :"` behind it is the first one of `l`. -/
theorem cut_trailing_append {p l : Str} (hp : ∀ b ∈ p, isSpace b = false)
    (hl : l.head? ≠ some colon) :
    cut (lit " :") (p ++ sp :: l) = (cut (lit " :") l).map fun e => (p ++ sp :: e.1, e.2) := by
  induction p with
  | nil =>
    have hnot : ¬ lit " :" <+: sp :: l := by
      rintro ⟨rest, hrest⟩
      have hl' : colon :: rest = l := (List.cons.inj hrest).2
      exact hl (by rw [← hl']; rfl)
    rw [List.nil_append, cut_cons_of_not_isPrefix hnot]
    rfl
  | cons b p ih =>
    have hb := hp b List.mem_cons_self
    have hnot : ¬ lit " :" <+: b :: (p ++ sp :: l) := by
      rintro ⟨rest, hrest⟩
      exact ne_sp_of_not_isSpace hb (List.cons.inj hrest).1.symm
    rw [List.cons_append, cut_cons_of_not_isPrefix hnot, ih fun a ha => hp a (List.mem_cons_of_mem b ha),
      Option.map_map]
    rfl

/-- The first word of a line, if it has one, does not start with a colon. -/
def NoOrigin (l : Str) : Prop := ∀ word rest, words l = word :: rest → word.head? ≠ some colon

/-- A line that starts with a colon has that colon at the start of its first word. -/
theorem NoOrigin.head_ne {l : Str} (h : NoOrigin l) : l.head? ≠ some colon := by
  intro hhead
  cases l with
  | nil => cases hhead
  | cons b l =>
    obtain rfl := Option.some_inj.mp hhead
    have hcolon : isSpace colon = false := by decide
    rw [NoOrigin, words, List.splitOnP_cons_eq_if_modifyHead, hcolon] at h
    cases hsplit : l.splitOnP isSpace with
    | nil => exact List.splitOnP_ne_nil isSpace l hsplit
    | cons w ws =>
      rw [hsplit, if_neg Bool.false_ne_true, List.modifyHead_cons, List.filter_cons_of_pos rfl] at h
      exact h _ _ rfl rfl

/-- An origin of one word in front of a line is parsed off, and nothing else changes. -/
theorem Parser.parse_origin {p l : Str} (hp : ∀ b ∈ p, isSpace b = false) (hl : NoOrigin l) :
    parse (lit ":" ++ p ++ lit " " ++ l) = { parse l with origin := p } := by
  have hshape : lit ":" ++ p ++ lit " " ++ l = (colon :: p) ++ sp :: l := by
    show (colon :: p) ++ [sp] ++ l = _
    rw [List.append_assoc]
    rfl
  have hcolon : ∀ b ∈ colon :: p, isSpace b = false := by
    intro b hb
    rcases List.mem_cons.mp hb with rfl | hb
    · decide
    · exact hp b hb
  have hdrop : dropFinalCr ((colon :: p) ++ sp :: l) = (colon :: p) ++ sp :: dropFinalCr l := by
    have hlast : ((colon :: p) ++ [sp]).getLast? ≠ some cr := by
      rw [List.getLast?_concat]
      decide
    have hsplit := dropFinalCr_append hlast l
    rw [List.append_assoc, List.append_assoc] at hsplit
    exact hsplit
  have hl' : NoOrigin (dropFinalCr l) := by
    rw [NoOrigin, words_dropFinalCr]
    exact hl
  have hwords : ∀ base, words ((colon :: p) ++ sp :: base) = (colon :: p) :: words base :=
    fun base => words_append_space hcolon (List.cons_ne_nil _ _) isSpace_sp base
  rw [hshape]
  unfold parse
  dsimp only
  have hne : (colon :: p) ++ sp :: dropFinalCr l ≠ [] := List.cons_ne_nil _ _
  rw [hdrop, if_neg hne, cut_trailing_append hcolon hl'.head_ne]
  generalize dropFinalCr l = line at hl'
  cases hcut : cut (lit " :") line with
  | none =>
    rw [Option.map_none]
    dsimp only
    rw [hwords]
    dsimp only
    rw [if_pos (show (colon :: p).head? = some colon from rfl)]
    cases hline : words line with
    | nil =>
      -- a line of blanks is no command, with an origin or without
      split_ifs <;> rfl
    | cons word rest =>
      have hne : line ≠ [] := by
        rintro rfl
        cases hline
      rw [if_neg hne]
      dsimp only
      rw [if_neg (hl' word rest hline)]
      rfl
  | some e =>
    obtain ⟨base, trailing⟩ := e
    rw [Option.map_some]
    dsimp only
    rw [hwords]
    dsimp only
    rw [if_pos (show (colon :: p).head? = some colon from rfl)]
    have hline : line = base ++ sp :: colon :: trailing := by
      rw [eq_of_cut hcut, List.append_assoc]
      rfl
    have hne : line ≠ [] := by
      rw [hline]
      exact List.append_ne_nil_of_right_ne_nil _ (List.cons_ne_nil _ _)
    rw [if_neg hne]
    have hfirst := hl'
    rw [NoOrigin, hline, words_append_cons isSpace_sp] at hfirst
    cases hbase : words base with
    | nil =>
      -- then the first word of the line would be the trailing part, colon and all
      have hnone : NoOrigin (colon :: trailing) := by
        rw [hbase] at hfirst
        exact hfirst
      exact absurd rfl hnone.head_ne
    | cons word rest =>
      rw [hbase] at hfirst
      dsimp only
      rw [if_neg (hfirst word _ rfl)]
      rfl

/-! ## No identity spoofing -/

theorem Reachable.appends_processMessage {s t : Server} (h : Reachable s) {c : Ptr} {x y : Client}
    (hx : s.heap c = some x) (hy : t.heap c = some y) (hidentity : y.identity = x.identity)
    (m : Message) : Server.Appends (SourcedBy x.nickname) t (t.processMessage c m) := by
  have hnick : t.nickname c = x.nickname := by
    rw [Server.nickname, Server.client_of_heap hy]
    exact Client.nickname_of_identity hidentity
  rw [← hnick]
  refine (Server.processMessage_effects hy m).appends fun hreg => ?_
  rw [Server.client_of_heap hy, Client.isRegistered_of_identity hidentity] at hreg
  rw [hnick]
  exact h.isValidNickname hx hreg

theorem Client.sendBuffer_extractLine {x x' : Client} {line : Option Str}
    (h : x.extractLine = (x', line)) : x'.sendBuffer = x.sendBuffer := by
  have hx' : x' = x.extractLine.1 := by rw [h]
  rw [hx', extractLine]
  dsimp only
  split
  · rfl
  · split_ifs
    · rw [sendBuffer_markDead]
    · rw [sendBuffer_markDead]
    · rfl

/-- A disconnect adds nothing to the outputs of others but the QUIT line of a registered client. -/
theorem Server.appends_disconnectClient {S : Str → Prop} {s : Server} {fd : Fd} {c p : Ptr}
    {x y : Client} (hfd : s.clients.find? fd = some c) (hx : s.heap c = some x) (hpc : p ≠ c)
    (hy : s.heap p = some y) (hS : x.isRegistered = true → S (Server.quitMessage x)) :
    ∃ z, (s.disconnectClient fd).heap p = some z ∧ y.Appends S z := by
  have hannounce : Server.Appends S s (s.announceQuit c) := by
    unfold announceQuit
    rw [client_of_heap hx]
    split_ifs with hreg
    · exact appends_sendAll _ (hS hreg)
    · exact .refl S s
  obtain ⟨z, hz, hyz⟩ := hannounce p y hy
  refine ⟨z, ?_, hyz⟩
  rw [disconnectClient, hfd]
  show Function.update (s.announceQuit c).heap c none p = some z
  rw [Function.update_of_ne hpc, hz]

/-- All that a line of a client, or its disconnect, adds to any output names the server or that
client as its source, the client under the nickname it has in front of the line. An origin in
front of a line changes nothing of what the line does. -/
theorem no_identity_spoofing {s : Server} (h : Reachable s) :
    (∀ c x, s.heap c = some x →
      (∀ line, Server.Appends (SourcedBy x.nickname) s (s.processLine c line))
      ∧ ∀ line s', LineOf c line s s' → Server.Appends (SourcedBy x.nickname) s s')
    ∧ (∀ fd c x, s.clients.find? fd = some c → s.heap c = some x →
        ∀ p y, p ≠ c → s.heap p = some y →
          ∃ z, (s.disconnectClient fd).heap p = some z ∧ y.Appends (SourcedBy x.nickname) z)
    ∧ ∀ c p l, (∀ b ∈ p, isSpace b = false) → NoOrigin l →
        s.processLine c (lit ":" ++ p ++ lit " " ++ l) = s.processLine c l := by
  refine ⟨fun c x hx => ⟨fun line => ?_, fun line s' hline => ?_⟩,
    fun fd c x hfd hx p y hpc hy => ?_, fun c p l hp hl => ?_⟩
  · exact h.appends_processMessage hx hx rfl _
  · obtain ⟨z, x', hz, _, hextract, rfl⟩ := hline
    obtain rfl := Option.some_inj.mp (hx.symm.trans hz)
    -- the line is taken from the buffer, handled, and entered into the history
    have hextracted : Server.Appends (SourcedBy x.nickname) s (s.modify c fun _ => x') := by
      refine Server.appends_modify fun y hy => ?_
      rw [Option.some_inj.mp (hy.symm.trans hx)]
      exact .of_eq (Client.sendBuffer_extractLine hextract) (by rw [Client.extractLine_trace hextract])
    have hhandled := h.appends_processMessage hx (Server.heap_extracted hx x')
      (Client.extractLine_identity hextract) (Parser.parse line)
    exact (hextracted.trans hhandled).trans (Server.appends_modify fun y _ => .of_eq rfl rfl)
  · refine Server.appends_disconnectClient hfd hx hpc hy fun hreg => ?_
    exact (fromUser_quitMessage x).sourcedBy (h.isValidNickname hx hreg)
  · rw [Server.processLine, Server.processLine, Parser.parse_origin hp hl]
    rfl

/-- Ann writes to Bob, and pretends to be Bob in front of it. -/
theorem no_identity_spoofing_sample :
    Server.Appends (SourcedBy (lit "ann")) sample (sample.processLine 0 (lit "PRIVMSG bob :hi"))
      ∧ sample.processLine 0 (lit ":bob PRIVMSG bob :hi")
        = sample.processLine 0 (lit "PRIVMSG bob :hi")
      ∧ ((sample.processLine 0 (lit "PRIVMSG bob :hi")).heap 1).map
          (fun x => x.trace.accepted.getLast?)
        = some (some (lit ":ann!a@localhost PRIVMSG bob :hi\r\n")) := by
  have hann : (sample.heap 0).map Client.nickname = some (lit "ann") := by decide +kernel
  obtain ⟨x, hx, hname⟩ := Option.map_eq_some_iff.mp hann
  refine ⟨?_, ?_, by decide +kernel⟩
  · rw [← hname]
    exact ((no_identity_spoofing reachable_sample).1 0 x hx).1 _
  · refine (no_identity_spoofing reachable_sample).2.2 0 (lit "bob") (lit "PRIVMSG bob :hi")
      (not_isSpace_of_any (by decide)) fun word rest hwords => ?_
    have hfirst : (words (lit "PRIVMSG bob :hi")).head? = some (lit "PRIVMSG") := by decide
    rw [hwords] at hfirst
    rw [Option.some_inj.mp hfirst]
    decide

end FtIrc
