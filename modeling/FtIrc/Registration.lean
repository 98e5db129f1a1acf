import FtIrc.Nicknames
import FtIrc.Membership

/-!
# The registration protocol

Three flags are set by three handlers, two of which send the welcome. Over every run the
number of welcomes a client has been offered is one once it is registered and zero before,
nothing is set in front of the password, and only registered clients get into channels.
-/

namespace FtIrc

open Bytes Relation

/-! ## The welcome -/

/-- A 001 line. -/
def isWelcome (text : Str) : Bool := decide (lit ":server 001 " <+: text)

/-- The number of welcomes a client has been offered. -/
def Client.welcomes (x : Client) : ℕ := x.trace.offered.countP isWelcome

theorem isWelcome_welcome (nickname username : Str) :
    isWelcome (welcome nickname username) = true := by
  unfold isWelcome welcome
  simp only [List.append_assoc]
  exact decide_eq_true (List.prefix_append _ _)

/-- What is said in the name of a user is not in the server's: the server's name has no
exclamation mark, and a nickname no blank. -/
theorem FromUser.not_server {n text : Str} (h : FromUser n text)
    (hn : NickCommand.isValidNickname n = true) : ¬ lit ":server " <+: text := by
  obtain ⟨hsp, hbang⟩ := not_mem_of_isValidNickname hn
  intro hhead
  rcases Nat.lt_or_ge n.length 7 with hlen | hlen
  · -- a short nickname has its exclamation mark inside the server's name
    have hprefix : lit ":" ++ n ++ lit "!" <+: lit ":server " := by
      refine List.prefix_of_prefix_length_le h hhead ?_
      have h1 : (lit ":" ++ n ++ lit "!").length = n.length + 2 := by
        simp only [List.length_append]
        show 1 + n.length + 1 = _
        omega
      have h2 : (lit ":server ").length = 8 := by decide
      omega
    have hmem : ch '!' ∈ lit ":server " := by
      apply hprefix.subset
      exact List.mem_append_right _ (by decide)
    exact absurd hmem (by decide)
  · have hprefix : lit ":server " <+: lit ":" ++ n := by
      refine List.prefix_of_prefix_length_le hhead ((List.prefix_append _ _).trans h) ?_
      have h1 : (lit ":" ++ n).length = n.length + 1 := by
        simp only [List.length_append]
        show 1 + n.length = _
        omega
      have h2 : (lit ":server ").length = 8 := by decide
      omega
    have hmem : sp ∈ lit ":" ++ n := hprefix.subset (by decide)
    rcases List.mem_append.mp hmem with hmem | hmem
    · exact absurd hmem (by decide)
    · exact hsp hmem

theorem FromUser.not_isWelcome {n text : Str} (h : FromUser n text)
    (hn : NickCommand.isValidNickname n = true) : isWelcome text = false :=
  decide_eq_false fun hw => h.not_server hn (List.IsPrefix.trans (by decide) hw)

@[simp] theorem welcomes_sendMessage (x : Client) (text : Str) :
    (x.sendMessage text).welcomes = x.welcomes + if isWelcome text then 1 else 0 := by
  rw [Client.welcomes, Client.offered_sendMessage, List.countP_append, List.countP_singleton]
  rfl

theorem ServerReply.not_isWelcome {text : Str} (h : ServerReply text) : isWelcome text = false :=
  decide_eq_false h.not_welcome

theorem welcomes_failPass (x : Client) : x.failPass.welcomes = x.welcomes := by
  have htext : ServerReply (lit ":server 464 " ++ displayName x ++ lit " :Password incorrect\r\n") := by
    repeat apply ServerReply.append
    decide
  have hsent : (x.recordFailedPassAttempt.sendMessage
      (lit ":server 464 " ++ displayName x ++ lit " :Password incorrect\r\n")).welcomes
      = x.welcomes := by
    rw [welcomes_sendMessage, htext.not_isWelcome, if_neg Bool.false_ne_true, Nat.add_zero]
    unfold Client.recordFailedPassAttempt
    split_ifs <;> rfl
  unfold Client.failPass
  dsimp only
  split_ifs
  · rw [← hsent, Client.welcomes, Client.trace_markClosing]
    rfl
  · exact hsent

/-- A client that is not registered has been offered no welcome, one that is exactly one. -/
structure Client.Welcomed (x : Client) : Prop where
  sound : x.identity.Sound
  count : x.welcomes = if x.isRegistered then 1 else 0

/-- No update of a client brings its registration and its welcomes apart. -/
theorem OwnUpdate.welcomed {c : Ptr} {m : Message} {s : Server} {x x' : Client}
    (h : OwnUpdate c m s x x') (hx : x.Welcomed) : x'.Welcomed := by
  refine ⟨h.identity_sound hx.sound, ?_⟩
  have hcount := hx.count
  cases h with
  | authenticate _ hpass =>
    -- in front of the password nothing else has been set
    have hunset : x.nickSet = false := by
      cases hset : x.nickSet with
      | false => rfl
      | true => exact absurd (hpass.symm.trans (hx.sound.gate (Or.inl hset))) (by decide)
    have hreg : x.isRegistered = false := by
      rw [Client.isRegistered, hpass]
      rfl
    show x.welcomes = if true && x.nickSet && x.userSet then 1 else 0
    rw [hcount, hreg, hunset]
    rfl
  | failPass _ hpass =>
    have hreg : ∀ y : Client, y.identity = x.recordFailedPassAttempt.identity →
        y.isRegistered = x.isRegistered := by
      intro y hy
      rw [Client.isRegistered_of_identity hy]
      unfold Client.recordFailedPassAttempt
      split_ifs <;> rfl
    rw [welcomes_failPass, hreg _ (x.identity_failPass), hcount]
  | @takeNickname n _ hpass _ hvalid =>
    rw [Client.isRegistered_of_identity (y := x.takeNickname n)
      (x := { x with nickname := n, nickSet := true }) (x.identity_takeNickname n)]
    unfold Client.takeNickname
    dsimp only
    cases hreg : x.isRegistered with
    | true =>
      -- already registered: the nickname changes, the registration stays
      have hstill : Client.isRegistered { x with nickname := n, nickSet := true } = true := by
        simp only [Client.isRegistered, Bool.and_eq_true] at hreg ⊢
        exact ⟨⟨hreg.1.1, trivial⟩, hreg.2⟩
      rw [hreg] at hcount
      rw [hstill]
      exact hcount
    | false =>
      rw [hreg] at hcount
      cases hnow : Client.isRegistered { x with nickname := n, nickSet := true } with
      | true =>
        show (Client.sendMessage _ _).welcomes = 1
        rw [welcomes_sendMessage, isWelcome_welcome]
        show x.welcomes + 1 = 1
        rw [hcount]
        rfl
      | false => exact hcount
  | @takeUsername u _ hpass hset hvalid =>
    have hreg : x.isRegistered = false := by
      rw [Client.isRegistered, hset, Bool.and_false]
    rw [hreg] at hcount
    rw [Client.isRegistered_of_identity (y := x.takeUsername u)
      (x := { x with username := u, userSet := true }) (x.identity_takeUsername u)]
    unfold Client.takeUsername
    dsimp only
    cases hnow : Client.isRegistered { x with username := u, userSet := true } with
    | true =>
      show (Client.sendMessage _ _).welcomes = 1
      rw [welcomes_sendMessage, isWelcome_welcome]
      show x.welcomes + 1 = 1
      rw [hcount]
      rfl
    | false => exact hcount
  | quit =>
    rw [Client.welcomes, Client.trace_markClosing,
      Client.isRegistered_of_identity (Client.identity_markClosing _ _)]
    exact hcount

/-- What the server says to its clients, other than in NICK and USER, is no welcome. -/
theorem Reachable.says_not_isWelcome {s : Server} (h : Reachable s) {text : Str}
    (hsaid : s.Says text) : isWelcome text = false := by
  rcases hsaid with hreply | ⟨p, x, hx, hreg, hfrom⟩
  · exact hreply.not_isWelcome
  · exact hfrom.not_isWelcome (h.isValidNickname hx hreg)

theorem Reachable.welcomed {s : Server} (h : Reachable s) :
    ∀ p x, s.heap p = some x → x.Welcomed := by
  apply h.forall_clients (Q := Client.Welcomed)
  intro s s' hreach hs
  -- everything but the updates of NICK and USER leaves registration and welcomes alone
  have hkeep : ∀ x x' : Client, x.Welcomed → x'.identity = x.identity →
      x'.trace.offered = x.trace.offered → x'.Welcomed := by
    intro x x' hx hidentity hoffered
    refine ⟨hidentity ▸ hx.sound, ?_⟩
    rw [Client.welcomes, hoffered, Client.isRegistered_of_identity hidentity]
    exact hx.count
  constructor
  · intro _ _ _ _
    exact ⟨⟨rfl, rfl, fun h => by simp [Client.identity] at h⟩, rfl⟩
  · intro p x x' hx h
    exact hkeep x x' (hs p x hx) h.identity_eq h.offered_eq
  · intro p x x' line hx _ h
    refine hkeep x x' (hs p x hx) (Client.extractLine_identity h) ?_
    rw [Client.extractLine_trace h]
  · intro p x text hsaid hx
    refine ⟨by rw [Client.identity_sendMessage]; exact hx.sound, ?_⟩
    rw [welcomes_sendMessage, hreach.says_not_isWelcome hsaid,
      Client.isRegistered_of_identity (x.identity_sendMessage text)]
    exact hx.count
  · intro p x x₁ x₂ line hx _ h _ hupdate
    refine hupdate.welcomed (hkeep x x₁ (hs p x hx) (Client.extractLine_identity h) ?_)
    rw [Client.extractLine_trace h]
  · intro p x x₁ y line _ _ _ _ hy
    exact hkeep y _ hy rfl rfl

/-! ## One client over a move -/

/-- How the identity of a client may go on. -/
structure Client.Identity.Follows (i j : Client.Identity) : Prop where
  registered : i.isRegistered = true → j.isRegistered = true
  username : i.userSet = true → j.userSet = true ∧ j.username = i.username
  named : j.nickname ≠ i.nickname ∨ j.username ≠ i.username → i.passOk = true

theorem Client.Identity.Follows.refl (i : Client.Identity) : i.Follows i :=
  ⟨id, fun h => ⟨h, rfl⟩, fun h => by simp at h⟩

theorem OwnUpdate.follows {c : Ptr} {m : Message} {s : Server} {x x' : Client}
    (h : OwnUpdate c m s x x') : x.identity.Follows x'.identity := by
  cases h with
  | authenticate =>
    refine ⟨fun h => ?_, fun h => ⟨h, rfl⟩, fun h => by simp [Client.identity] at h⟩
    simp only [Client.Identity.isRegistered, Bool.and_eq_true] at h ⊢
    exact ⟨⟨rfl, h.1.2⟩, h.2⟩
  | failPass =>
    rw [Client.identity_failPass]
    unfold Client.recordFailedPassAttempt
    split_ifs
    · exact ⟨id, fun h => ⟨h, rfl⟩, fun h => by simp [Client.identity] at h⟩
    · exact .refl _
  | takeNickname _ hpass =>
    rw [Client.identity_takeNickname]
    refine ⟨fun h => ?_, fun h => ⟨h, rfl⟩, fun _ => hpass⟩
    simp only [Client.Identity.isRegistered, Bool.and_eq_true] at h ⊢
    exact ⟨⟨h.1.1, trivial⟩, h.2⟩
  | takeUsername _ hpass hset =>
    rw [Client.identity_takeUsername]
    refine ⟨fun h => ?_, fun h => absurd (hset.symm.trans h) (by decide), fun _ => hpass⟩
    simp only [Client.Identity.isRegistered, Bool.and_eq_true] at h ⊢
    exact ⟨h.1, trivial⟩
  | quit =>
    rw [Client.identity_markClosing]
    exact .refl _

/-- The registration of a client only goes forward. -/
theorem Move.identity_follows {s s' : Server} (h : Move s s') {p : Ptr} {x x' : Client}
    (hx : s.heap p = some x) (hx' : s'.heap p = some x') : x.identity.Follows x'.identity := by
  have hclosed : Closed s s' fun q y => ∀ z, s.heap q = some z → z.identity.Follows y.identity := by
    apply closed_of_identity (P := fun q i => ∀ z, s.heap q = some z → z.identity.Follows i)
    · intro q y hy z hz
      rw [Option.some_inj.mp (hy.symm.trans hz)]
      exact .refl _
    · intro q fd ip hq z hz
      cases hq.symm.trans hz
    · intro q y y₁ y₂ line hy hidentity _ hupdate z hz
      rw [Option.some_inj.mp (hz.symm.trans hy), ← hidentity]
      exact hupdate.follows
  refine h.forall_clients (fun q y hy z hz => ?_) hclosed p x' hx' x hx
  rw [Option.some_inj.mp (hy.symm.trans hz)]
  exact .refl _

/-- A client becomes registered by its own NICK or USER. -/
theorem Move.registered_by {s s' : Server} (hreach : Reachable s) (h : Move s s') {p : Ptr}
    {x x' : Client} (hx : s.heap p = some x) (hx' : s'.heap p = some x')
    (hbefore : x.isRegistered = false) (hafter : x'.isRegistered = true) :
    ∃ line, LineOf p line s s' ∧ ((Parser.parse line).handler = some .nick
      ∨ (Parser.parse line).handler = some .user) := by
  have hclosed : Closed s s' fun q y => y.identity.isRegistered = true →
      (∃ z, s.heap q = some z ∧ z.isRegistered = true) ∨ ∃ line, LineOf q line s s'
        ∧ ((Parser.parse line).handler = some .nick ∨ (Parser.parse line).handler = some .user) := by
    apply closed_of_identity (P := fun q i => i.isRegistered = true →
      (∃ z, s.heap q = some z ∧ z.isRegistered = true) ∨ ∃ line, LineOf q line s s'
        ∧ ((Parser.parse line).handler = some .nick ∨ (Parser.parse line).handler = some .user))
    · intro q y hy hreg
      exact Or.inl ⟨y, hy, hreg⟩
    · intro q fd ip _ hreg
      exact absurd hreg Bool.false_ne_true
    · intro q y y₁ y₂ line hy hidentity hline hupdate hreg
      have hsound := hreach.identity_sound q y hy
      rw [← hidentity] at hsound
      have hsame : y₁.isRegistered = true → y.isRegistered = true := by
        intro h
        rwa [← Client.isRegistered_of_identity hidentity]
      cases hupdate with
      | authenticate _ hpass =>
        have hset : y₁.nickSet = true := by
          simp only [Client.Identity.isRegistered, Bool.and_eq_true] at hreg
          exact hreg.1.2
        exact absurd (hpass.symm.trans (hsound.gate (Or.inl hset))) (by decide)
      | failPass =>
        rw [Client.identity_failPass] at hreg
        refine Or.inl ⟨y, hy, hsame ?_⟩
        unfold Client.recordFailedPassAttempt at hreg
        split_ifs at hreg
        · exact hreg
        · exact hreg
      | takeNickname h => exact Or.inr ⟨line, hline, Or.inl h⟩
      | takeUsername h => exact Or.inr ⟨line, hline, Or.inr h⟩
      | quit =>
        rw [Client.identity_markClosing] at hreg
        exact Or.inl ⟨y, hy, hsame hreg⟩
  rcases h.forall_clients (fun q y hy hreg => Or.inl ⟨y, hy, hreg⟩) hclosed p x' hx' hafter with
    ⟨z, hz, hreg⟩ | hline
  · rw [Option.some_inj.mp (hx.symm.trans hz), hreg] at hbefore
    cases hbefore
  · exact hline

/-! ## The password comes first -/

/-- The line is a PASS whose first parameter is this password. -/
def IsPass (password line : Str) : Prop :=
  (Parser.parse line).handler = some .pass ∧ (Parser.parse line).params.head? = some password

/-- A line that has been handled is in the history of its client. -/
theorem LineOf.mem_dispatched {s s' : Server} {p : Ptr} {line : Str} {x' : Client}
    (h : LineOf p line s s') (hx' : s'.heap p = some x') :
    ∃ e ∈ x'.trace.dispatched, e.1 = line := by
  obtain ⟨_, _, _, _, _, rfl⟩ := h
  rw [Server.handleLine, Server.heap_modify_self] at hx'
  obtain ⟨y, _, rfl⟩ := Option.map_eq_some_iff.mp hx'
  exact ⟨(line, y.stopped), List.mem_append_right _ (List.mem_singleton_self _), rfl⟩

/-- A client that has passed has sent the password. -/
theorem Reachable.pass_dispatched {s : Server} (h : Reachable s) :
    ∀ p x, s.heap p = some x → x.passOk = true →
      ∃ e ∈ x.trace.dispatched, IsPass s.password e.1 := by
  induction h with
  | start => exact fun _ _ h => absurd h (Option.some_ne_none _).symm
  | @move s s' hreach hmove ih =>
    have hkeep : ∀ {y y' : Client}, y'.identity = y.identity →
        y'.trace.dispatched = y.trace.dispatched → ∀ {P : Prop},
        (y.passOk = true → (∃ e ∈ y.trace.dispatched, IsPass s.password e.1) ∨ P) →
        y'.passOk = true → (∃ e ∈ y'.trace.dispatched, IsPass s.password e.1) ∨ P := by
      intro y y' hidentity hdispatched P hy hpass
      rw [hdispatched]
      exact hy ((congrArg Client.Identity.passOk hidentity).symm.trans hpass)
    -- either the flag was set before, or this line is the PASS that has set it
    have hclosed : Closed s s' fun q y => y.passOk = true →
        (∃ e ∈ y.trace.dispatched, IsPass s.password e.1)
          ∨ ∃ line, LineOf q line s s' ∧ IsPass s.password line := by
      constructor
      · intro q fd ip _ hpass
        exact absurd hpass Bool.false_ne_true
      · intro q y y' hy hio
        exact hkeep hio.identity_eq hio.dispatched_eq fun hpass => Or.inl (ih q y hy hpass)
      · intro q y y' line hy _ h
        exact hkeep (Client.extractLine_identity h) (by rw [Client.extractLine_trace h])
          fun hpass => Or.inl (ih q y hy hpass)
      · intro q y text _ hy
        exact hkeep (y.identity_sendMessage text) (y.dispatched_sendMessage text) hy
      · intro q y y₁ y₂ line hy _ h hline hupdate hpass
        by_cases hbefore : y₁.passOk = true
        · rw [hupdate.dispatched_eq, Client.extractLine_trace h]
          refine Or.inl (ih q y hy ?_)
          rw [← hbefore]
          exact (congrArg Client.Identity.passOk (Client.extractLine_identity h)).symm
        · cases hupdate with
          | authenticate hm _ hpassword => exact Or.inr ⟨line, hline, hm, hpassword⟩
          -- a wrong password leaves the flag as it was
          | failPass =>
            have hsame : y₁.failPass.passOk = y₁.recordFailedPassAttempt.passOk :=
              congrArg Client.Identity.passOk y₁.identity_failPass
            rw [hsame] at hpass
            unfold Client.recordFailedPassAttempt at hpass
            split_ifs at hpass
            · exact absurd hpass hbefore
            · exact absurd hpass hbefore
          | takeNickname _ hok => exact absurd hok hbefore
          | takeUsername _ hok => exact absurd hok hbefore
          | quit =>
            exact absurd ((congrArg Client.Identity.passOk (y₁.identity_markClosing _)).symm.trans
              hpass) hbefore
      · intro q y y₁ z line _ _ _ _ hz hpass
        refine (hz hpass).imp_left fun ⟨e, he, hpw⟩ => ⟨e, List.mem_append_left _ he, hpw⟩
    intro p x' hx' hpass
    rw [hmove.password_eq]
    rcases hmove.forall_clients (fun q y hy hpass => Or.inl (ih q y hy hpass)) hclosed p x' hx' hpass
      with hbefore | ⟨line, hline, hpw⟩
    · exact hbefore
    · obtain ⟨e, he, rfl⟩ := hline.mem_dispatched hx'
      exact ⟨e, he, hpw⟩

/-! ## Members are registered -/

/-- A line of a client that is not registered changes no channel. -/
theorem Effects.channels_of_unregistered {c : Ptr} {m : Message} {s₀ s : Server}
    (h : Effects c m s₀ s) (hreg : (s₀.client c).isRegistered = false) :
    s.channels = s₀.channels := by
  have hgate : ∀ {P : Prop}, (s₀.client c).isRegistered = true → P := by
    intro P htrue
    exact absurd (hreg.symm.trans htrue) (by decide)
  apply h.induct (P := fun t => t.channels = s₀.channels) rfl
  intro t t' _ heff ht
  cases heff with
  | reply => exact ht
  | relay => exact ht
  | own => exact ht
  | found hreg => exact hgate hreg
  | change hreg => exact hgate hreg
  | part hreg => exact hgate hreg
  | dissolve hreg => exact hgate hreg

/-- The client of a line that gets it into a channel is registered. -/
theorem LineOf.registered_of_gained {s s' : Server} {p : Ptr} {line : Str} {x : Client}
    (h : LineOf p line s s') (hx : s.heap p = some x) {name : Str}
    (hbefore : ¬ s.IsMember p name) (hafter : s'.IsMember p name) : x.isRegistered = true := by
  obtain ⟨y, y', hy, _, hextract, rfl⟩ := h
  obtain rfl := Option.some_inj.mp (hx.symm.trans hy)
  by_contra hreg
  have hy' := Server.heap_extracted hy y'
  have hchannels := (Server.processMessage_effects hy' (Parser.parse line)).channels_of_unregistered (by
    rw [Server.client_of_heap hy', Client.isRegistered_of_identity (Client.extractLine_identity hextract)]
    exact Bool.eq_false_iff.mpr hreg)
  obtain ⟨ch, hch, hmem⟩ := hafter
  have hch' : ((s.modify p fun _ => y').processMessage p (Parser.parse line)).channels.find? name
      = some ch := hch
  rw [hchannels] at hch'
  exact hbefore ⟨ch, hch', hmem⟩

theorem Reachable.member_registered {s : Server} (h : Reachable s) {p : Ptr} {name : Str}
    (hmem : s.IsMember p name) : ∃ x, s.heap p = some x ∧ x.isRegistered = true := by
  induction h with
  | start =>
    obtain ⟨ch, hch, _⟩ := hmem
    exact absurd hch (Option.some_ne_none ch).symm
  | @move s s' hreach hmove ih =>
    have hs' := (hreach.move hmove).integrity
    obtain ⟨ch', hch', hp⟩ := hmem
    obtain ⟨x', hx'⟩ := Option.isSome_iff_exists.mp
      ((hs'.channel name ch' hch').allocated p (Or.inl hp))
    refine ⟨x', hx', ?_⟩
    -- the client was registered in front of the move, and registration is not lost
    have hbefore : ∃ x, s.heap p = some x ∧ x.isRegistered = true := by
      by_cases hmember : s.IsMember p name
      · exact ih hmember
      · obtain ⟨line, hline, _⟩ := hmove.member_gained hreach.integrity hmember ⟨ch', hch', hp⟩
        have hdispatched := hline
        obtain ⟨x, _, hx, _⟩ := hdispatched
        exact ⟨x, hx, hline.registered_of_gained hx hmember ⟨ch', hch', hp⟩⟩
    obtain ⟨x, hx, hreg⟩ := hbefore
    exact (hmove.identity_follows hx hx').registered hreg

/-! ## The protocol -/

/-- Registration is never lost, the username never changes, and names are set only after the
password. The welcome is offered exactly in the move that completes the registration, which is
a NICK or a USER of the client. Members and operators are registered. -/
theorem registration_protocol {s : Server} (h : Reachable s) :
    (∀ s', Move s s' → ∀ p x x', s.heap p = some x → s'.heap p = some x' →
      (x.isRegistered = true → x'.isRegistered = true)
      ∧ (x.userSet = true → x'.username = x.username)
      ∧ (x'.nickname ≠ x.nickname ∨ x'.username ≠ x.username →
          ∃ e ∈ x.trace.dispatched, IsPass s.password e.1)
      ∧ x'.welcomes = x.welcomes
          + (if x.isRegistered = false ∧ x'.isRegistered = true then 1 else 0)
      ∧ (x.isRegistered = false → x'.isRegistered = true →
          ∃ line, LineOf p line s s' ∧ ((Parser.parse line).handler = some .nick
            ∨ (Parser.parse line).handler = some .user)))
    ∧ (∀ p x, s.heap p = some x →
        x.welcomes = (if x.isRegistered then 1 else 0)
        ∧ (x.nickname ≠ [] ∨ x.username ≠ [] → ∃ e ∈ x.trace.dispatched, IsPass s.password e.1))
    ∧ ∀ name ch, s.findChannel name = some ch → ∀ p, p ∈ ch.members ∨ p ∈ ch.operators →
        ∃ x, s.heap p = some x ∧ x.isRegistered = true
          ∧ NickCommand.isValidNickname x.nickname = true
          ∧ UserCommand.isValidUsername x.username = true := by
  refine ⟨fun s' hmove p x x' hx hx' => ?_, fun p x hx => ⟨(h.welcomed p x hx).count, fun hset => ?_⟩,
    fun name ch hch p hp => ?_⟩
  · have hfollows := hmove.identity_follows hx hx'
    refine ⟨hfollows.registered, fun hset => (hfollows.username hset).2,
      fun hnamed => h.pass_dispatched p x hx (hfollows.named hnamed), ?_,
      hmove.registered_by h hx hx'⟩
    rw [(h.welcomed p x hx).count, ((h.move hmove).welcomed p x' hx').count]
    have hforward := hfollows.registered
    cases hreg : x.isRegistered with
    -- a registered client has had its welcome
    | true =>
      rw [show x'.isRegistered = true from hforward hreg]
      rfl
    | false => cases hreg' : x'.isRegistered <;> rfl
  -- a name that is set was set behind the password
  · have hsound := h.identity_sound p x hx
    refine h.pass_dispatched p x hx (hsound.gate ?_)
    rcases hset with hnick | huser
    · refine Or.inl ?_
      by_contra hunset
      have hnil := hsound.nickname
      rw [if_neg hunset] at hnil
      exact hnick hnil
    · refine Or.inr ?_
      by_contra hunset
      have hnil := hsound.username
      rw [if_neg hunset] at hnil
      exact huser hnil
  · have hmem : p ∈ ch.members :=
      hp.elim id fun hop => (h.integrity.channel name ch hch).wf.operators_sub p hop
    obtain ⟨x, hx, hreg⟩ := h.member_registered ⟨ch, hch, hmem⟩
    have hsound := h.identity_sound p x hx
    have hset : (x.passOk = true ∧ x.nickSet = true) ∧ x.userSet = true := by
      simpa only [Client.isRegistered, Bool.and_eq_true] using hreg
    have hnick := hsound.nickname
    have huser := hsound.username
    rw [if_pos (show x.identity.nickSet = true from hset.1.2)] at hnick
    rw [if_pos (show x.identity.userSet = true from hset.2)] at huser
    exact ⟨x, hx, hreg, hnick, huser⟩

/-- Both clients of the sample have been welcomed once, after the password. -/
theorem registration_protocol_sample :
    (sample.heap 1).map (fun x => (x.isRegistered, x.nickname)) = some (true, lit "bob")
      ∧ ∀ x, sample.heap 1 = some x → x.welcomes = 1
          ∧ ∃ e ∈ x.trace.dispatched, IsPass sample.password e.1 := by
  have hreg : (sample.heap 1).map (fun x => (x.isRegistered, x.nickname))
      = some (true, lit "bob") := by decide +kernel
  refine ⟨hreg, fun x hx => ?_⟩
  rw [hx, Option.map_some, Option.some_inj, Prod.mk.injEq] at hreg
  obtain ⟨hwelcomes, hpass⟩ := (registration_protocol reachable_sample).2.1 1 x hx
  rw [hreg.1] at hwelcomes
  exact ⟨hwelcomes, hpass (Or.inl (by rw [hreg.2]; decide))⟩

end FtIrc
