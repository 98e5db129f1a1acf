import FtIrc.ClientMoves

/-!
# Nicknames

A nickname belongs to one client at a time, up to the IRC casemapping. NICK asks for the
first client that has the wanted nickname and lets its own client pass: that is enough
because nobody else can have it as long as the nicknames are unique. The dead are skipped by
the lookup, and stay dead.
-/

namespace FtIrc

open Bytes

/-! ## Valid nicknames -/

/-- The bytes of a valid nickname. -/
theorem mem_of_isValidNickname {n : Str} (h : NickCommand.isValidNickname n = true) :
    ∀ b ∈ n, b ∈ NickCommand.validRemainingCharacters := by
  intro b hb
  cases n with
  | nil => exact absurd hb List.not_mem_nil
  | cons first rest =>
    simp only [NickCommand.isValidNickname, Bool.and_eq_true, decide_eq_true_eq,
      List.all_eq_true] at h
    rcases List.mem_cons.mp hb with rfl | hb
    · exact List.mem_append_left _ h.1.2
    · exact h.2 b hb

theorem ne_nil_of_isValidNickname {n : Str} (h : NickCommand.isValidNickname n = true) : n ≠ [] := by
  rintro rfl
  exact absurd h (by decide)

/-- A valid nickname has no blank and no exclamation mark, the bytes that delimit it in a
message. -/
theorem not_mem_of_isValidNickname {n : Str} (h : NickCommand.isValidNickname n = true) :
    sp ∉ n ∧ ch '!' ∉ n :=
  ⟨fun hb => absurd (mem_of_isValidNickname h sp hb) (by decide),
    fun hb => absurd (mem_of_isValidNickname h (ch '!') hb) (by decide)⟩

/-- The registration data of a client fits together: what has been set is valid, and nothing
has been set in front of the password. -/
structure Client.Identity.Sound (i : Client.Identity) : Prop where
  nickname : if i.nickSet then NickCommand.isValidNickname i.nickname = true else i.nickname = []
  username : if i.userSet then UserCommand.isValidUsername i.username = true else i.username = []
  gate : i.nickSet = true ∨ i.userSet = true → i.passOk = true

theorem OwnUpdate.identity_sound {c : Ptr} {m : Message} {s : Server} {x x' : Client}
    (h : OwnUpdate c m s x x') (hx : x.identity.Sound) : x'.identity.Sound := by
  cases h with
  | authenticate => exact ⟨hx.nickname, hx.username, fun _ => rfl⟩
  | failPass =>
    rw [Client.identity_failPass]
    unfold Client.recordFailedPassAttempt
    split_ifs
    · exact ⟨hx.nickname, hx.username, hx.gate⟩
    · exact hx
  | takeNickname _ hpass _ hvalid =>
    rw [Client.identity_takeNickname]
    exact ⟨hvalid, hx.username, fun _ => hpass⟩
  | takeUsername _ hpass _ hvalid =>
    rw [Client.identity_takeUsername]
    exact ⟨hx.nickname, hvalid, fun _ => hpass⟩
  | quit =>
    rw [Client.identity_markClosing]
    exact hx

/-- What depends on the identity of a client only has to be looked at in PASS, NICK and USER. -/
theorem closed_of_identity {s s' : Server} {P : Ptr → Client.Identity → Prop}
    (hP : ∀ p x, s.heap p = some x → P p x.identity)
    (hfresh : ∀ p fd ip, s.heap p = none → P p ({ fd, ip } : Client).identity)
    (hown : ∀ p x x₁ x₂ line, s.heap p = some x → x₁.identity = x.identity → LineOf p line s s' →
      OwnUpdate p (Parser.parse line) (s.modify p fun _ => x₁) x₁ x₂ → P p x₂.identity) :
    Closed s s' fun p x => P p x.identity where
  fresh := hfresh
  io p x x' hx h := by
    rw [h.identity_eq]
    exact hP p x hx
  extracted p x x' line hx _ h := by
    rw [Client.extractLine_identity h]
    exact hP p x hx
  sent p x text _ h := by
    rw [Client.identity_sendMessage]
    exact h
  own p x x₁ x₂ line hx _ h hline hupdate :=
    hown p x x₁ x₂ line hx (Client.extractLine_identity h) hline hupdate
  recorded _ _ _ _ _ _ _ _ _ h := h

/-- The registration data of every client fits together. -/
theorem Reachable.identity_sound {s : Server} (h : Reachable s) :
    ∀ p x, s.heap p = some x → x.identity.Sound := by
  apply h.forall_clients (Q := fun x => x.identity.Sound)
  intro s s' _ hs
  apply closed_of_identity (P := fun _ i => i.Sound) hs
  · intro _ _ _ _
    exact ⟨rfl, rfl, fun h => by simp [Client.identity] at h⟩
  · intro p x x₁ x₂ line hx hidentity _ hupdate
    exact hupdate.identity_sound (hidentity ▸ hs p x hx)

/-- The nickname of a registered client is valid. -/
theorem Reachable.isValidNickname {s : Server} (h : Reachable s) {p : Ptr} {x : Client}
    (hx : s.heap p = some x) (hreg : x.isRegistered = true) :
    NickCommand.isValidNickname x.nickname = true := by
  have hsound := (h.identity_sound p x hx).nickname
  simp only [Client.isRegistered, Bool.and_eq_true] at hreg
  rwa [if_pos (show x.identity.nickSet = true from hreg.1.2)] at hsound

/-! ## Unique nicknames -/

namespace Server

/-- Clients that are not dead have different nicknames. -/
def UniqueNicknames (s : Server) : Prop :=
  ∀ p q x y, s.heap p = some x → s.heap q = some y → x.dead = false → y.dead = false →
    x.nickname ≠ [] → toIrcLowerCase x.nickname = toIrcLowerCase y.nickname → p = q

/-- Every object of `t` is an object of `s` with its nickname, and not less dead, or it has no
nickname. -/
def NicknamesFrom (s t : Server) : Prop :=
  ∀ p y, t.heap p = some y → y.nickname = []
    ∨ ∃ x, s.heap p = some x ∧ y.nickname = x.nickname ∧ (y.dead = false → x.dead = false)

theorem UniqueNicknames.of_nicknamesFrom {s t : Server} (h : s.UniqueNicknames)
    (hst : s.NicknamesFrom t) : t.UniqueNicknames := by
  intro p q x y hx hy hxd hyd hne heq
  have hne' : y.nickname ≠ [] := by
    intro hnil
    rw [hnil] at heq
    exact hne (List.map_eq_nil_iff.mp heq)
  obtain ⟨x₀, hx₀, hxn, hxd₀⟩ := (hst p x hx).resolve_left hne
  obtain ⟨y₀, hy₀, hyn, hyd₀⟩ := (hst q y hy).resolve_left hne'
  rw [hxn] at hne heq
  rw [hyn] at heq
  exact h p q x₀ y₀ hx₀ hy₀ (hxd₀ hxd) (hyd₀ hyd) hne heq

theorem NicknamesFrom.refl (s : Server) : s.NicknamesFrom s :=
  fun _ y hy => Or.inr ⟨y, hy, rfl, id⟩

/-- A change of one object that keeps its nickname and does not revive it. -/
theorem nicknamesFrom_modify (s : Server) (p : Ptr) {f : Client → Client}
    (hf : ∀ x, s.heap p = some x →
      (f x).nickname = x.nickname ∧ (x.dead = true → (f x).dead = true)) :
    s.NicknamesFrom (s.modify p f) := by
  refine forall_modify (Q := fun q y => y.nickname = [] ∨ ∃ x, s.heap q = some x
    ∧ y.nickname = x.nickname ∧ (y.dead = false → x.dead = false)) (NicknamesFrom.refl s) ?_
  intro x hx
  obtain ⟨hnick, hdead⟩ := hf x hx
  refine Or.inr ⟨x, hx, hnick, fun hlive => ?_⟩
  by_contra hx'
  rw [hdead (by simpa using hx')] at hlive
  cases hlive

theorem UniqueNicknames.modify {s : Server} (h : s.UniqueNicknames) (p : Ptr)
    {f : Client → Client} (hf : ∀ x, s.heap p = some x →
      (f x).nickname = x.nickname ∧ (x.dead = true → (f x).dead = true)) :
    (s.modify p f).UniqueNicknames := h.of_nicknamesFrom (s.nicknamesFrom_modify p hf)

theorem UniqueNicknames.sendMessage {s : Server} (h : s.UniqueNicknames) (p : Ptr) (text : Str) :
    (s.sendMessage p text).UniqueNicknames :=
  h.modify p fun x _ => ⟨Client.nickname_of_identity (x.identity_sendMessage text),
    x.dead_sendMessage text⟩

theorem UniqueNicknames.sendAll {s : Server} (h : s.UniqueNicknames) (ps : List Ptr) (text : Str) :
    (s.sendAll ps text).UniqueNicknames :=
  sendAll_induct s ps text (P := UniqueNicknames) h fun _ p ht => ht.sendMessage p text

/-- Who else has a nickname that the lookup finds for nobody else is dead. -/
theorem UniqueNicknames.nobody_of_free {s : Server} (h : s.UniqueNicknames) (hs : s.Integrity)
    {c : Ptr} {n : Str} (hfree : ∀ q, s.findClientByNick n = some q → q = c) (hn : n ≠ []) :
    ∀ q y, s.heap q = some y → q ≠ c → y.dead = false →
      toIrcLowerCase y.nickname ≠ toIrcLowerCase n := by
  intro q y hy hqc hyd heq
  cases hfind : s.findClientByNick n with
  | none =>
    have hnone := (findClientByNick_eq_none hn).mp hfind y.fd q (hs.registered q y hy)
    rw [client_of_heap hy] at hnone
    exact hnone hyd heq
  | some r =>
    obtain rfl := hfree r hfind
    obtain ⟨_, hrd, hrn, fd, hfd⟩ := findClientByNick_eq_some hfind
    obtain ⟨x, hx⟩ := Option.isSome_iff_exists.mp (hs.allocated_of_find? hfd)
    rw [client_of_heap hx] at hrd hrn
    have hxn : x.nickname ≠ [] := by
      intro hnil
      rw [hnil] at hrn
      exact hn (List.map_eq_nil_iff.mp hrn.symm)
    exact hqc (h r q x y hx hy hrd hyd hxn (hrn.trans heq.symm)).symm

/-- A client takes a nickname that the lookup finds for nobody else. -/
theorem UniqueNicknames.takeNickname {s : Server} (h : s.UniqueNicknames) (hs : s.Integrity)
    {c : Ptr} {x : Client} (hx : s.heap c = some x) {n : Str}
    (hfree : ∀ q, s.findClientByNick n = some q → q = c) (hn : n ≠ []) :
    (s.modify c fun _ => x.takeNickname n).UniqueNicknames := by
  have hnick : (x.takeNickname n).nickname = n :=
    congrArg Client.Identity.nickname (x.identity_takeNickname n)
  have hnobody := h.nobody_of_free hs hfree hn
  intro p q y z hy hz hyd hzd hne heq
  rw [heap_modify] at hy hz
  split_ifs at hy hz with hp hq hq
  · rw [hp, hq]
  · rw [hx, Option.map_some, Option.some_inj] at hy
    rw [← hy, hnick] at heq
    exact absurd heq.symm (hnobody q z hz hq hzd)
  · rw [hx, Option.map_some, Option.some_inj] at hz
    rw [← hz, hnick] at heq
    exact absurd heq (hnobody p y hy hp hyd)
  · exact h p q y z hy hz hyd hzd hne heq

end Server

/-- One effect of a line keeps nicknames unique. -/
theorem Effect.uniqueNicknames {c : Ptr} {m : Message} {s₀ s s' : Server} (hs : s.Integrity)
    (hu : s.UniqueNicknames) (h : Effect c m s₀ s s') : s'.UniqueNicknames := by
  cases h with
  | reply => exact hu.sendMessage _ _
  | relay => exact hu.sendMessage _ _
  | own hx h =>
    by_cases hm : m.handler = some .nick
    · cases h with
      | takeNickname _ _ _ hvalid hfree =>
        refine hu.takeNickname hs hx hfree ?_
        rintro rfl
        exact absurd hvalid (by decide)
      | authenticate h | failPass h | takeUsername h => rw [hm] at h; cases h
      | quit _ h => exact absurd h (Message.command_ne_of_handler hm).2.2.2
    · refine hu.modify c fun y hy => ?_
      obtain rfl := Option.some_inj.mp (hx.symm.trans hy)
      exact ⟨h.nickname_eq hm, h.dead⟩
  | found => exact hu
  | change => exact hu
  | part => exact hu
  | dissolve => exact hu

theorem Move.uniqueNicknames {s s' : Server} (hs : s.Integrity) (hu : s.UniqueNicknames)
    (h : Move s s') : s'.UniqueNicknames := by
  cases h with
  | @connect fd ip p =>
    refine hu.of_nicknamesFrom fun q y hy => ?_
    have hy' : Function.update s.heap p (some { fd, ip }) q = some y := hy
    rw [Function.update_apply] at hy'
    split_ifs at hy'
    · exact Or.inl (by rw [← Option.some_inj.mp hy'])
    · exact Server.NicknamesFrom.refl s q y hy'
  | @io p x x' hx h =>
    refine hu.modify p fun y hy => ?_
    obtain rfl := Option.some_inj.mp (hx.symm.trans hy)
    exact ⟨Client.nickname_of_identity h.identity_eq, h.dead⟩
  | @line c x x' line hx live h =>
    have hx' := Server.heap_extracted hx x'
    have hs' := hs.extracted hx h
    have hc : (s.modify c fun _ => x').Allocated c := by
      rw [Server.Allocated, hx']
      rfl
    have hextracted : (s.modify c fun _ => x').UniqueNicknames := by
      refine hu.modify c fun y hy => ?_
      obtain rfl := Option.some_inj.mp (hx.symm.trans hy)
      refine ⟨Client.nickname_of_identity (Client.extractLine_identity h), fun hdead => ?_⟩
      simp [Client.stopped, hdead] at live
    have hprocessed : ((s.modify c fun _ => x').processLine c line).UniqueNicknames := by
      apply (Server.processMessage_effects hx' (Parser.parse line)).induct
        (P := Server.UniqueNicknames) hextracted
      intro t t' hpath heff ht
      exact heff.uniqueNicknames (hpath.integrity hs' hc) ht
    exact hprocessed.modify c fun _ _ => ⟨rfl, id⟩
  | @disconnect fd p x hfd =>
    have hannounce : (s.announceQuit p).UniqueNicknames := by
      unfold Server.announceQuit
      split_ifs
      · exact hu.sendAll _ _
      · exact hu
    rw [Server.disconnectClient, hfd]
    refine hannounce.of_nicknamesFrom fun q y hy => ?_
    have hy' : Function.update (s.announceQuit p).heap p none q = some y := hy
    rw [Function.update_apply] at hy'
    split_ifs at hy'
    exact Server.NicknamesFrom.refl _ q y hy'
  | poll h =>
    obtain ⟨_, rfl, _⟩ := Server.of_refreshPollEvents h
    exact hu

theorem Reachable.uniqueNicknames {s : Server} (h : Reachable s) : s.UniqueNicknames := by
  induction h with
  | start => exact fun _ _ _ _ hx => absurd hx (Option.some_ne_none _).symm
  | move h hmove ih => exact hmove.uniqueNicknames h.integrity ih

/-- In every reachable state the clients that are not dead have different nicknames up to the
casemapping, every nickname is valid, and the lookup finds the one client that has the
nickname, if there is one. -/
theorem nicknames_unique {s : Server} (h : Reachable s) :
    (∀ fd₁ fd₂ p q, s.clients.find? fd₁ = some p → s.clients.find? fd₂ = some q →
      (s.client p).dead = false → (s.client q).dead = false → s.nickname p ≠ [] →
      toIrcLowerCase (s.nickname p) = toIrcLowerCase (s.nickname q) → fd₁ = fd₂ ∧ p = q)
    ∧ (∀ fd p, s.clients.find? fd = some p → s.nickname p ≠ [] →
        NickCommand.isValidNickname (s.nickname p) = true)
    ∧ ∀ n, n ≠ [] →
        (∀ p, s.findClientByNick n = some p ↔ (∃ fd, s.clients.find? fd = some p)
          ∧ (s.client p).dead = false ∧ toIrcLowerCase (s.nickname p) = toIrcLowerCase n)
        ∧ (s.findClientByNick n = none ↔ ∀ fd p, s.clients.find? fd = some p →
          (s.client p).dead = false → toIrcLowerCase (s.nickname p) ≠ toIrcLowerCase n) := by
  have hunique : ∀ fd₁ fd₂ p q, s.clients.find? fd₁ = some p → s.clients.find? fd₂ = some q →
      (s.client p).dead = false → (s.client q).dead = false → s.nickname p ≠ [] →
      toIrcLowerCase (s.nickname p) = toIrcLowerCase (s.nickname q) → fd₁ = fd₂ ∧ p = q := by
    intro fd₁ fd₂ p q hp hq hpd hqd hne heq
    obtain ⟨x, hx, hxfd⟩ := h.exists_client hp
    obtain ⟨y, hy, hyfd⟩ := h.exists_client hq
    rw [Server.client_of_heap hx] at hpd
    rw [Server.client_of_heap hy] at hqd
    rw [Server.nickname, Server.client_of_heap hx] at hne heq
    rw [Server.nickname, Server.client_of_heap hy] at heq
    have hpq : p = q := h.uniqueNicknames p q x y hx hy hpd hqd hne heq
    subst hpq
    rw [← hxfd, ← hyfd, Option.some_inj.mp (hx.symm.trans hy)]
    exact ⟨rfl, rfl⟩
  refine ⟨hunique, fun fd p hp hne => ?_, fun n hn => ⟨fun p => ⟨fun hfind => ?_, ?_⟩,
    Server.findClientByNick_eq_none hn⟩⟩
  · obtain ⟨x, hx, _⟩ := h.exists_client hp
    rw [Server.nickname, Server.client_of_heap hx] at hne ⊢
    have hsound := (h.identity_sound p x hx).nickname
    split_ifs at hsound
    · exact hsound
    · exact absurd hsound hne
  · obtain ⟨_, hdead, hnick, hfd⟩ := Server.findClientByNick_eq_some hfind
    exact ⟨hfd, hdead, hnick⟩
  · rintro ⟨⟨fd, hfd⟩, hdead, hnick⟩
    cases hfind : s.findClientByNick n with
    | none => exact absurd hnick ((Server.findClientByNick_eq_none hn).mp hfind fd p hfd hdead)
    | some r =>
      obtain ⟨_, hrd, hrn, fd', hr⟩ := Server.findClientByNick_eq_some hfind
      have hrne : s.nickname r ≠ [] := by
        intro hnil
        rw [Server.nickname] at hnil
        rw [hnil] at hrn
        exact hn (List.map_eq_nil_iff.mp hrn.symm)
      rw [(hunique fd' fd r p hr hfd hrd hdead hrne (hrn.trans hnick.symm)).2]

/-- The lookup in the sample folds case. -/
theorem nicknames_unique_sample : sample.findClientByNick (lit "BoB") = some 1 :=
  (((nicknames_unique reachable_sample).2.2 (lit "BoB") (by decide)).1 1).mpr
    ⟨⟨5, by decide +kernel⟩, by decide +kernel, by decide +kernel⟩

end FtIrc
