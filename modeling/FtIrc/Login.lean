import FtIrc.NickChange
import FtIrc.Surviving
import Mathlib.Data.List.GetD

/-!
# Logging in is a matter of one's own lines

Who a client is depends on the lines it has sent and, for each nickname it has asked for, on whether
somebody else had it; on nothing else that happens on the server. `Identity.login` is the automaton of
PASS, NICK and USER without a server, and every client is where the automaton is after its lines.
-/

namespace FtIrc

open Bytes Relation

namespace Client

/-- A client that has just been connected. -/
def Identity.stranger : Identity where
  nickname := []
  username := []
  passOk := false
  nickSet := false
  userSet := false
  failedPassAttempts := 0

/-- What a message of a client makes of it. `free` tells whether nobody else has the nickname that it
asks for. -/
def Identity.login (password : Str) (i : Identity) (m : Message) (free : Bool) : Identity :=
  match m.handler with
  | some .pass =>
    if i.passOk = true ∨ m.params.headD [] = [] then i
    else if m.params.headD [] = password then { i with passOk := true }
    else { i with failedPassAttempts := i.failedPassAttempts + 1 }
  | some .nick =>
    if i.passOk = true ∧ NickCommand.isValidNickname (m.params.headD []) = true ∧ free = true then
      { i with nickname := m.params.headD [], nickSet := true }
    else i
  | some .user =>
    if i.passOk = true ∧ i.userSet = false ∧ 4 ≤ m.params.length
        ∧ UserCommand.isValidUsername (m.params.headD []) = true then
      { i with username := m.params.headD [], userSet := true }
    else i
  | _ => i

/-- A message that is no PASS, NICK or USER leaves the automaton where it is. -/
theorem Identity.login_other {password : Str} {i : Identity} {m : Message} {free : Bool}
    (hpass : m.handler ≠ some .pass) (hnick : m.handler ≠ some .nick) (huser : m.handler ≠ some .user) :
    i.login password m free = i := by
  unfold login
  split
  · next h => exact absurd h hpass
  · next h => exact absurd h hnick
  · next h => exact absurd h huser
  · rfl

/-- The automaton over lines and the verdicts on them. -/
def Identity.loginAll (password : Str) (lines : List Str) (verdicts : List Bool) : Identity :=
  (lines.zip verdicts).foldl (fun i e => i.login password (Parser.parse e.1) e.2) .stranger

/-- The answer to somebody who asks for the nickname of somebody else. -/
def Identity.inUse (i : Identity) (m : Message) : Str :=
  lit ":server 433 " ++ (if i.nickname.isEmpty then lit "*" else i.nickname) ++ lit " " ++ m.params.headD []
    ++ lit " :Nickname is already in use\r\n"

end Client

/-! ## One message -/

namespace Server

variable {s : Server} {c : Ptr} {x : Client} {m : Message}

/-- The message does to its client what the automaton says, and a nickname is refused with a 433. -/
def LogsIn (s : Server) (c : Ptr) (m : Message) (t : Server) : Prop :=
  ∃ free, (t.client c).identity = (s.client c).identity.login s.password m free
    ∧ (free = false → (s.client c).identity.inUse m ∈ (t.client c).trace.offered)

theorem logsIn_of_kept {t : Server} (h : (t.client c).identity = (s.client c).identity)
    (hkept : (s.client c).identity.login s.password m true = (s.client c).identity) :
    s.LogsIn c m t :=
  ⟨true, h.trans hkept.symm, fun hfalse => absurd hfalse.symm Bool.false_ne_true⟩

/-- PASS. -/
theorem logsIn_pass (hx : s.heap c = some x)
    (hlimit : x.failedPassAttempts < PassCommand.maxFailedPassAttempts)
    (hm : m.handler = some .pass) : s.LogsIn c m (PassCommand.execute s c m.params) := by
  have hclient : s.client c = x := client_of_heap hx
  have hpassOk : x.identity.passOk = x.passOk := rfl
  refine ⟨true, ?_, fun h => absurd h.symm Bool.false_ne_true⟩
  unfold PassCommand.execute Client.Identity.login
  rw [hm]
  dsimp only
  rw [hclient]
  by_cases hok : x.passOk = true
  · rw [if_pos hok, if_pos (Or.inl (hpassOk.trans hok)), identity_sendMessage, hclient]
  by_cases hempty : m.params.headD [] = []
  · rw [if_neg hok, if_pos hempty, if_pos (Or.inr hempty), identity_sendMessage, hclient]
  rw [if_neg hok, if_neg hempty, if_neg (not_or.mpr ⟨fun h => hok (hpassOk.symm.trans h), hempty⟩)]
  by_cases hpassword : m.params.headD [] = s.password
  · rw [if_pos hpassword, if_pos hpassword, client_modify_self _ hx]
    rfl
  · rw [if_neg hpassword, if_neg hpassword, PassCommand.wrong_eq hx rfl, client_modify_self _ hx,
      Client.identity_failPass, Client.recordFailedPassAttempt, if_pos]
    · rfl
    · simp only [PassCommand.maxFailedPassAttempts] at hlimit
      omega

/-- NICK of a client that has given the password. -/
theorem logsIn_nick (hx : s.heap c = some x) (hok : x.passOk = true) (hm : m.handler = some .nick) :
    s.LogsIn c m (NickCommand.execute s c m.params) := by
  have hclient : s.client c = x := client_of_heap hx
  have hpassOk : x.identity.passOk = true := hok
  unfold NickCommand.execute
  dsimp only
  by_cases hempty : m.params.headD [] = []
  · rw [if_pos hempty]
    refine logsIn_of_kept (identity_sendMessage ..) ?_
    unfold Client.Identity.login
    rw [hm]
    exact if_neg fun h => by rw [hempty] at h; exact absurd h.2.1 (by decide)
  rw [if_neg hempty]
  by_cases hinvalid : (!NickCommand.isValidNickname (m.params.headD [])) = true
  · rw [if_pos hinvalid]
    refine logsIn_of_kept (identity_sendMessage ..) ?_
    unfold Client.Identity.login
    rw [hm]
    exact if_neg fun h => by rw [h.2.1] at hinvalid; cases hinvalid
  have hvalid : NickCommand.isValidNickname (m.params.headD []) = true := by simpa using hinvalid
  rw [if_neg hinvalid]
  by_cases htaken : s.findClientByNick (m.params.headD []) ≠ none
      ∧ s.findClientByNick (m.params.headD []) ≠ some c
  · -- somebody else has the nickname
    rw [if_pos htaken]
    refine ⟨false, ?_, fun _ => ?_⟩
    · unfold Client.Identity.login
      rw [hm, identity_sendMessage]
      exact (if_neg fun h => Bool.false_ne_true h.2.2).symm
    · rw [sendMessage, client_modify_self _ hx, Client.offered_sendMessage]
      exact List.mem_concat_self
  · rw [if_neg htaken]
    refine ⟨true, ?_, fun h => absurd h.symm Bool.false_ne_true⟩
    -- what follows only sends
    have htaken' : ((s.modify c fun x => { x with nickname := m.params.headD [], nickSet := true }).client
        c).identity = (s.client c).identity.login s.password m true := by
      unfold Client.Identity.login
      rw [hm, client_modify_self _ hx, hclient]
      exact (if_pos ⟨hpassOk, hvalid, rfl⟩).symm
    rw [← htaken']
    split_ifs
    · rw [identity_sendMessage]
      unfold broadcastNicknameChange
      split_ifs
      · rfl
      · exact identity_sendAll ..
    · unfold broadcastNicknameChange
      split_ifs
      · rfl
      · exact identity_sendAll ..
    · exact identity_sendMessage ..
    · rfl

/-- USER of a client that has given the password. -/
theorem logsIn_user (hx : s.heap c = some x) (hok : x.passOk = true) (hm : m.handler = some .user) :
    s.LogsIn c m (UserCommand.execute s c m.params) := by
  have hclient : s.client c = x := client_of_heap hx
  have hpassOk : x.identity.passOk = true := hok
  have hrefused : ∀ text, ¬ (x.userSet = false ∧ 4 ≤ m.params.length
      ∧ UserCommand.isValidUsername (m.params.headD []) = true) →
      s.LogsIn c m (s.sendMessage c text) := by
    intro text hnot
    refine logsIn_of_kept (identity_sendMessage ..) ?_
    unfold Client.Identity.login
    rw [hm, hclient]
    exact if_neg fun h => hnot h.2
  unfold UserCommand.execute
  dsimp only
  rw [hclient]
  by_cases hset : x.userSet = true
  · rw [if_pos hset]
    exact hrefused _ fun h => by rw [h.1] at hset; cases hset
  rw [if_neg hset]
  split
  · next username a b d rest hparams =>
    by_cases hinvalid : (!UserCommand.isValidUsername username) = true
    · rw [if_pos hinvalid]
      refine hrefused _ fun h => ?_
      rw [hparams, List.headD_cons] at h
      rw [h.2.2] at hinvalid
      cases hinvalid
    have hvalid : UserCommand.isValidUsername username = true := by simpa using hinvalid
    rw [if_neg hinvalid]
    refine ⟨true, ?_, fun h => absurd h.symm Bool.false_ne_true⟩
    have hset' : ((s.modify c fun x => { x with username, userSet := true }).client c).identity
        = (s.client c).identity.login s.password m true := by
      unfold Client.Identity.login
      rw [hm, client_modify_self _ hx, hclient, hparams]
      refine (if_pos ⟨hpassOk, Bool.eq_false_iff.mpr hset, ?_, hvalid⟩).symm
      simp only [List.length_cons]
      omega
    rw [← hset']
    split_ifs
    · exact identity_sendMessage ..
    · rfl
  · next hshort =>
    refine hrefused _ fun h => ?_
    obtain ⟨_, hlength, _⟩ := h
    generalize m.params = params at hshort hlength
    rcases params with _ | ⟨a, _ | ⟨b, _ | ⟨d, _ | ⟨e, rest⟩⟩⟩⟩
    · simp at hlength
    · simp at hlength
    · simp at hlength
    · simp at hlength
    · exact hshort a b d e rest rfl

/-- Commands that register nobody leave the client what it is. -/
theorem logsIn_other (hx : s.heap c = some x) (hpass : m.handler ≠ some .pass)
    (hnick : m.handler ≠ some .nick) (huser : m.handler ≠ some .user) :
    s.LogsIn c m (s.processMessage c m) := by
  refine logsIn_of_kept ?_ (Client.Identity.login_other hpass hnick huser)
  have hkept := (processMessage_effects hx m).map_heap (g := Client.identity) (p := c)
    (fun y text => y.identity_sendMessage text) fun _ y y' hown => by
      cases hown with
      | authenticate h => exact absurd h hpass
      | failPass h => exact absurd h hpass
      | takeNickname h => exact absurd h hnick
      | takeUsername h => exact absurd h huser
      | quit => exact y.identity_markClosing _
  rw [hx] at hkept
  obtain ⟨y, hy, hidentity⟩ := Option.map_eq_some_iff.mp hkept
  rw [client_of_heap hy, client_of_heap hx, hidentity]

/-- NICK and USER get to their handlers once the password has been given. -/
theorem processMessage_of_passOk {k : Command} (hok : (s.client c).passOk = true)
    (hm : m.handler = some k) (hk : k = .nick ∨ k = .user) :
    s.processMessage c m = k.execute s c m.params := by
  obtain ⟨h1, h2, h3, h4⟩ := Message.command_ne_of_handler hm
  have hm' : commands.lookup m.command = some k := hm
  unfold processMessage
  dsimp only
  rw [if_neg h1, if_neg h2, if_neg h3, if_neg h4, hm']
  dsimp only
  have hopen : ¬ (k ≠ .pass ∧ (s.client c).passOk = false) := by
    rw [hok]
    exact fun h => Bool.false_ne_true h.2.symm
  rw [if_neg hopen, if_neg]
  rintro ⟨_, hnick, huser, _⟩
  exact hk.elim hnick huser

/-- Without the password every other command is refused. -/
theorem processMessage_of_not_passOk {k : Command} (hok : (s.client c).passOk = false)
    (hm : m.handler = some k) (hk : k ≠ .pass) :
    s.processMessage c m = s.sendMessage c (lit ":server 451 * :You have not registered\r\n") := by
  obtain ⟨h1, h2, h3, h4⟩ := Message.command_ne_of_handler hm
  have hm' : commands.lookup m.command = some k := hm
  unfold processMessage
  dsimp only
  rw [if_neg h1, if_neg h2, if_neg h3, if_neg h4, hm']
  exact if_pos ⟨hk, hok⟩

/-- Whatever message a client sends, it does to the client what the automaton says. -/
theorem logsIn_processMessage (hx : s.heap c = some x)
    (hlimit : x.failedPassAttempts < PassCommand.maxFailedPassAttempts) (m : Message) :
    s.LogsIn c m (s.processMessage c m) := by
  have hclient : s.client c = x := client_of_heap hx
  by_cases hpass : m.handler = some .pass
  · rw [processMessage_pass hpass]
    exact logsIn_pass hx hlimit hpass
  have hrefused : ∀ {k : Command}, m.handler = some k → k = .nick ∨ k = .user → x.passOk = false →
      s.LogsIn c m (s.processMessage c m) := by
    intro k hm hk hok
    have hok' : (s.client c).identity.passOk = false := by
      rw [hclient]
      exact hok
    rw [processMessage_of_not_passOk hok' hm fun h => hpass (h ▸ hm)]
    refine logsIn_of_kept (identity_sendMessage ..) ?_
    unfold Client.Identity.login
    rw [hm]
    rcases hk with rfl | rfl
    · exact if_neg fun h => by rw [hok'] at h; cases h.1
    · exact if_neg fun h => by rw [hok'] at h; cases h.1
  by_cases hnick : m.handler = some .nick
  · cases hok : x.passOk with
    | false => exact hrefused hnick (Or.inl rfl) hok
    | true =>
      rw [processMessage_of_passOk (by rw [hclient, hok]) hnick (Or.inl rfl)]
      exact logsIn_nick hx hok hnick
  by_cases huser : m.handler = some .user
  · cases hok : x.passOk with
    | false => exact hrefused huser (Or.inr rfl) hok
    | true =>
      rw [processMessage_of_passOk (by rw [hclient, hok]) huser (Or.inr rfl)]
      exact logsIn_user hx hok huser
  exact logsIn_other hx hpass hnick huser

end Server

/-! ## A run -/

/-- The client is where the automaton is after its lines. -/
structure Client.Replayed (password : Str) (x : Client) (verdicts : List Bool) : Prop where
  length_eq : verdicts.length = x.lines.length
  identity_eq : Client.Identity.loginAll password x.lines verdicts = x.identity
  told : ∀ n, verdicts[n]? = some false →
    (Client.Identity.loginAll password (x.lines.take n) (verdicts.take n)).inUse
      (Parser.parse (x.lines.getD n [])) ∈ x.trace.offered

section

variable {password : Str} {x y : Client} {verdicts : List Bool}

theorem Client.Replayed.of_eq (hx : x.Replayed password verdicts) (hidentity : y.identity = x.identity)
    (hlines : y.lines = x.lines) (hoffered : x.trace.offered ⊆ y.trace.offered) :
    y.Replayed password verdicts where
  length_eq := by rw [hlines, hx.length_eq]
  identity_eq := by rw [hlines, hidentity, hx.identity_eq]
  told n hfalse := by
    rw [hlines]
    exact hoffered (hx.told n hfalse)

/-- One more line. -/
theorem Client.Replayed.line (hx : x.Replayed password verdicts) {line : Str} {free : Bool}
    (hidentity : y.identity = x.identity.login password (Parser.parse line) free)
    (hlines : y.lines = x.lines ++ [line]) (hoffered : x.trace.offered ⊆ y.trace.offered)
    (htold : free = false → x.identity.inUse (Parser.parse line) ∈ y.trace.offered) :
    y.Replayed password (verdicts ++ [free]) where
  length_eq := by rw [hlines, List.length_append, List.length_append, hx.length_eq]; rfl
  identity_eq := by
    have hfirst := hx.identity_eq
    unfold Client.Identity.loginAll at hfirst ⊢
    rw [hlines, hidentity, List.zip_append hx.length_eq.symm, List.foldl_append, hfirst]
    rfl
  told n hfalse := by
    have hlength := hx.length_eq
    rcases Nat.lt_trichotomy n verdicts.length with hn | hn | hn
    · -- an earlier line
      rw [List.getElem?_append_left hn] at hfalse
      rw [hlines, List.take_append_of_le_length (by omega), List.take_append_of_le_length hn.le,
        List.getD_append _ _ _ _ (by omega)]
      exact hoffered (hx.told n hfalse)
    · subst hn
      rw [List.getElem?_concat_length, Option.some_inj] at hfalse
      rw [hlines, List.take_left, hlength, List.take_left, List.getD_append_right _ _ _ _ le_rfl,
        Nat.sub_self, List.getD_cons_zero, hx.identity_eq]
      exact htold hfalse
    · rw [List.getElem?_eq_none (by rw [List.length_append, List.length_singleton]; omega)] at hfalse
      cases hfalse

end

theorem Client.lines_of_dispatched {x y : Client} (h : y.trace.dispatched = x.trace.dispatched) :
    y.lines = x.lines := congrArg (List.map Prod.fst) h

theorem Reachable.replayed {s : Server} (h : Reachable s) :
    ∀ p x, s.heap p = some x → ∃ verdicts, x.Replayed s.password verdicts := by
  induction h with
  | start => exact fun _ _ h => absurd h (Option.some_ne_none _).symm
  | @move s s' hreach hmove ih =>
  intro p y hy
  rw [hmove.password_eq]
  -- what is sent to clients, and what their sockets do, leaves identity and lines alone
  have hrest : Closed s s' fun q y => (¬ ∃ line, LineOf q line s s') →
      ∃ verdicts, y.Replayed s.password verdicts := by
    constructor
    · intro q fd ip _ _
      exact ⟨[], rfl, rfl, fun n h => absurd h (by simp)⟩
    · intro q z z' hz hio _
      obtain ⟨verdicts, hreplayed⟩ := ih q z hz
      exact ⟨verdicts, hreplayed.of_eq hio.identity_eq (Client.lines_of_dispatched hio.dispatched_eq)
        (by rw [hio.offered_eq]; exact List.Subset.refl _)⟩
    · intro q z z' line hz _ hextract _
      obtain ⟨verdicts, hreplayed⟩ := ih q z hz
      have htrace := Client.extractLine_trace hextract
      exact ⟨verdicts, hreplayed.of_eq (Client.extractLine_identity hextract)
        (Client.lines_of_dispatched (by rw [htrace])) (by rw [htrace]; exact List.Subset.refl _)⟩
    · intro q z text _ hz hline
      obtain ⟨verdicts, hreplayed⟩ := hz hline
      exact ⟨verdicts, hreplayed.of_eq (z.identity_sendMessage text)
        (Client.lines_of_dispatched (z.dispatched_sendMessage text))
        (by rw [z.offered_sendMessage]; exact List.subset_append_left _ _)⟩
    · intro q z z₁ z₂ line _ _ _ hline _ hnone
      exact absurd ⟨line, hline⟩ hnone
    · intro q z z₁ z₂ line _ _ _ hline _ hnone
      exact absurd ⟨line, hline⟩ hnone
  by_cases hline : ∃ line, LineOf p line s s'
  swap
  · exact hmove.forall_clients (Q := fun q z => (¬ ∃ line, LineOf q line s s') →
      ∃ verdicts, z.Replayed s.password verdicts) (fun q z hz _ => ih q z hz) hrest p y hy hline
  -- the client's own line is one step of the automaton
  obtain ⟨line, x, x', hx, live, hextract, rfl⟩ := hline
  have hx' := Server.heap_extracted hx x'
  have hidentity : x'.identity = x.identity := Client.extractLine_identity hextract
  have htrace : x'.trace = x.trace := Client.extractLine_trace hextract
  have hlimit : x'.failedPassAttempts < PassCommand.maxFailedPassAttempts := by
    rw [show x'.failedPassAttempts = x.failedPassAttempts from
      congrArg Client.Identity.failedPassAttempts hidentity]
    exact (hreach.limited p x hx).attempts_lt live
  have hlast := hy
  rw [Server.handleLine, Server.heap_modify_self] at hy
  obtain ⟨z, hz, rfl⟩ := Option.map_eq_some_iff.mp hy
  obtain ⟨free, hlogin, htold⟩ := Server.logsIn_processMessage hx' hlimit (Parser.parse line)
  have hz' : ((s.modify p fun _ => x').processMessage p (Parser.parse line)).heap p = some z := hz
  rw [Server.client_of_heap hz', Server.client_of_heap hx', hidentity] at hlogin htold
  obtain ⟨verdicts, hreplayed⟩ := ih p x hx
  have hdispatched := (Server.processMessage_effects hx' (Parser.parse line)).map_heap (p := p)
    (g := fun w => w.trace.dispatched) (fun w text => w.dispatched_sendMessage text)
    fun _ _ _ hown => hown.dispatched_eq
  rw [hz', hx', Option.map_some, Option.map_some, Option.some_inj, htrace] at hdispatched
  refine ⟨verdicts ++ [free], hreplayed.line hlogin ?_ ?_ htold⟩
  · show (z.trace.dispatched ++ [(line, z.stopped)]).map Prod.fst = _
    rw [List.map_append, hdispatched]
    rfl
  · exact (hmove.offered hx hlast).subset

/-- What a client is follows from its own lines and from which of the nicknames it has asked for were
free; each that was not has been answered with a 433. -/
theorem identity_replayed {s : Server} (h : Reachable s) {p : Ptr} {x : Client}
    (hx : s.heap p = some x) :
    ∃ verdicts : List Bool, verdicts.length = x.lines.length
      ∧ Client.Identity.loginAll s.password x.lines verdicts = x.identity
      ∧ ∀ n, verdicts[n]? = some false →
        (Client.Identity.loginAll s.password (x.lines.take n) (verdicts.take n)).inUse
          (Parser.parse (x.lines.getD n [])) ∈ x.trace.offered := by
  obtain ⟨verdicts, hreplayed⟩ := h.replayed p x hx
  exact ⟨verdicts, hreplayed.length_eq, hreplayed.identity_eq, hreplayed.told⟩

/-- Bob is where his lines have taken him. -/
theorem identity_replayed_sample :
    ∃ x verdicts, sample.heap 1 = some x ∧ x.lines = [lit "PASS pw", lit "NICK bob", lit "USER b 0 * :B",
        lit "JOIN #c"]
      ∧ Client.Identity.loginAll sample.password x.lines verdicts = x.identity
      ∧ x.nickname = lit "bob" := by
  have hbob : (sample.heap 1).map (fun x => (x.lines, x.nickname)) = some ([lit "PASS pw", lit "NICK bob",
      lit "USER b 0 * :B", lit "JOIN #c"], lit "bob") := by
    decide +kernel
  obtain ⟨x, hx, hbob⟩ := Option.map_eq_some_iff.mp hbob
  obtain ⟨verdicts, _, hreplayed, _⟩ := identity_replayed reachable_sample hx
  rw [Prod.mk.injEq] at hbob
  exact ⟨x, verdicts, hx, hbob.1, hreplayed, hbob.2⟩

end FtIrc
