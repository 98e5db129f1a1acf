import FtIrc.KeyPairing
import FtIrc.Speaking

/-!
# What a line shows

The commands with loops act once in each turn. The registration commands act when they complete a
registration or change the nickname of a registered client, and the rest of the dispatch does not.
-/

namespace FtIrc

open Bytes

namespace JoinCommand

theorem mem_paired {names keys : List Str} {e : Str × Str}
    (h : e ∈ paired names keys) : e.1 ∈ names ∧ (e.2 = [] ∨ e.2 ∈ keys) := by
  induction names generalizing keys with
  | nil => exact absurd h List.not_mem_nil
  | cons name names ih =>
    rw [paired] at h
    rcases List.mem_cons.mp h with rfl | h
    · refine ⟨List.mem_cons_self, ?_⟩
      cases keys with
      | nil => exact Or.inl rfl
      | cons key keys => exact Or.inr List.mem_cons_self
    · obtain ⟨hname, hkey⟩ := ih h
      exact ⟨List.mem_cons_of_mem name hname, hkey.imp_right List.mem_of_mem_tail⟩

end JoinCommand

/-! ## What NICK and USER come to -/

/-- USER answers, or the client takes a username. -/
theorem UserCommand.execute_cases {s : Server} {c : Ptr} {x : Client} (hx : s.heap c = some x)
    (params : List Str) :
    (∃ head rest, Neutral head ∧ UserCommand.execute s c params = s.sendMessage c (head ++ rest))
    ∨ ∃ username, x.userSet = false
      ∧ UserCommand.execute s c params = s.modify c fun _ => x.takeUsername username := by
  have hclient : s.client c = x := Server.client_of_heap hx
  have hnumerics : Neutral (lit ":server 462 ") ∧ Neutral (lit ":server 468 ")
      ∧ Neutral (lit ":server 461 ") :=
    ⟨.of_word (by decide) (by decide) (by decide), .of_word (by decide) (by decide) (by decide),
      .of_word (by decide) (by decide) (by decide)⟩
  unfold UserCommand.execute
  dsimp only
  rw [hclient]
  simp only [List.append_assoc]
  by_cases hset : x.userSet = true
  · rw [if_pos hset]
    exact Or.inl ⟨_, _, hnumerics.1, rfl⟩
  rw [if_neg hset]
  split
  · next username _ _ _ _ =>
    by_cases hvalid : (!UserCommand.isValidUsername username) = true
    · rw [if_pos hvalid]
      exact Or.inl ⟨_, _, hnumerics.2.1, rfl⟩
    rw [if_neg hvalid]
    refine Or.inr ⟨username, Bool.eq_false_iff.mpr hset, ?_⟩
    rw [Server.nickname, Server.username, Server.client_modify_self _ hx]
    unfold Client.takeUsername
    dsimp only
    split_ifs
    · show (s.modify c _).modify c _ = _
      rw [Server.modify_modify]
      exact Server.modify_eq _ hx
    · exact Server.modify_eq _ hx
  · exact Or.inl ⟨_, _, hnumerics.2.2, rfl⟩

/-- NICK answers, or the client takes a nickname, which is announced if it is registered and has had
another one. -/
theorem NickCommand.execute_cases {s : Server} {c : Ptr} {x : Client} (hx : s.heap c = some x)
    (hnick : x.isRegistered = true → x.nickname ≠ []) (params : List Str) :
    (∃ head rest, Neutral head ∧ NickCommand.execute s c params = s.sendMessage c (head ++ rest))
    ∨ ∃ n, NickCommand.isValidNickname n = true
      ∧ ((x.isRegistered = true ∧ NickCommand.execute s c params
            = (s.modify c fun _ => { x with nickname := n }).sendAll (s.nickRecipients c) (nickMessage x n))
        ∨ ((x.isRegistered = true → x.nickname = n)
          ∧ NickCommand.execute s c params = s.modify c fun _ => x.takeNickname n)) := by
  cases hrefusal : NickCommand.refusal s c params with
  | some text =>
    refine Or.inl ?_
    have hnumerics : Neutral (lit ":server 431 * :No nickname given\r\n") ∧ Neutral (lit ":server 432 ")
        ∧ Neutral (lit ":server 433 ") :=
      ⟨.of_word (by decide) (by decide) (by decide), .of_word (by decide) (by decide) (by decide),
        .of_word (by decide) (by decide) (by decide)⟩
    rw [NickCommand.execute_of_refusal hrefusal]
    unfold NickCommand.refusal at hrefusal
    simp only [List.append_assoc] at hrefusal
    split_ifs at hrefusal <;> rw [← Option.some_inj.mp hrefusal]
    · exact ⟨_, [], hnumerics.1, by rw [List.append_nil]⟩
    · exact ⟨_, _, hnumerics.2.1, rfl⟩
    · exact ⟨_, _, hnumerics.2.2, rfl⟩
  | none =>
    have hvalid := NickCommand.valid_of_refusal hrefusal
    refine Or.inr ⟨params.headD [], hvalid, ?_⟩
    by_cases hne : x.isRegistered = true ∧ x.nickname ≠ params.headD []
    · refine Or.inl ⟨hne.1, ?_⟩
      rw [NickCommand.execute_of_accepted hx hne.1 (hnick hne.1) hrefusal hne.2, Server.modify_eq _ hx]
    · have hsame : x.isRegistered = true → x.nickname = params.headD [] :=
        fun hreg => by_contra fun h => hne ⟨hreg, h⟩
      refine Or.inr ⟨hsame, ?_⟩
      have hclient : s.client c = x := Server.client_of_heap hx
      -- nothing is announced before the registration, or if the nickname is the one it was
      have hquiet : (x.isRegistered && x.nickname != params.headD []) = false := by
        cases hreg : x.isRegistered with
        | false => rfl
        | true => simp [hsame hreg]
      unfold NickCommand.refusal at hrefusal
      unfold NickCommand.execute
      dsimp only at hrefusal ⊢
      split_ifs at hrefusal with hempty hinvalid htaken
      rw [if_neg hempty, if_neg hinvalid, if_neg htaken, Server.nickname, hclient, hquiet,
        if_neg Bool.false_ne_true, Server.nickname, Server.username, Server.client_modify_self _ hx]
      unfold Client.takeNickname
      dsimp only
      split_ifs
      · show (s.modify c _).modify c _ = _
        rw [Server.modify_modify]
        exact Server.modify_eq _ hx
      · exact Server.modify_eq _ hx

namespace Server

/-! ## The commands of registered clients -/

/-- What the commands rely on. -/
structure Prepared (s : Server) (c : Ptr) : Prop where
  steady : s.Steady
  registered : (s.client c).isRegistered = true

section Commands

variable {s t : Server} {c : Ptr} {m : Message} {acts : List Act}

theorem Informs.prepared (h : Informs s t acts) (heffects : Effects c m s t) (hs : s.Prepared c) :
    t.Prepared c :=
  ⟨h.steady heffects hs.steady (allocated_of_isRegistered hs.registered), by
    rw [h.isRegistered, hs.registered]⟩

/-- A turn of a loop leaves everything ready for the next one. -/
theorem Prepared.turn (hs : s.Prepared c) (heffects : Effects c m s t) (h : ∃ acts, Informs s t acts) :
    (∃ acts, Informs s t acts) ∧ t.Prepared c := by
  obtain ⟨acts, hacts⟩ := h
  exact ⟨⟨acts, hacts⟩, hacts.prepared heffects hs⟩

theorem Prepared.informs_leaveAll (hs : s.Prepared c) (hm : m.LeavesAll) :
    ∃ acts, Informs s (JoinCommand.leaveAll s c) acts := by
  refine Informs.foldl (Q := fun t => t.Prepared c) s.channels.keys (fun t name _ ht => ?_) hs
  exact ht.turn (Effects.refl.leave ht.registered hm name) (ht.steady.informs_leave ht.registered name)

theorem Prepared.informs_join (hs : s.Prepared c) (hm : m.handler = some .join) :
    ∃ acts, Informs s (JoinCommand.execute s c m.params) acts := by
  by_cases hnone : m.params = []
  · unfold JoinCommand.execute
    rw [hnone]
    simp only [List.append_assoc]
    exact informs_reply s c (.of_word (by decide) (by decide) (by decide))
  by_cases hzero : m.LeavesAll
  · have hall : JoinCommand.execute s c m.params = JoinCommand.leaveAll s c := by
      cases hp : m.params with
      | nil => exact absurd hp hnone
      | cons target rest =>
        have htarget := hzero.2
        rw [hp, List.head?_cons, Option.some_inj] at htarget
        rw [htarget]
        unfold JoinCommand.execute
        exact if_pos rfl
    rw [hall]
    exact hs.informs_leaveAll hzero
  rw [JoinCommand.execute_eq hm hzero hnone, JoinCommand.joinLoop_eq_foldl]
  refine Informs.foldl (Q := fun t => t.Prepared c) _ (fun t e he ht => ?_) hs
  obtain ⟨hname, hkey⟩ := JoinCommand.mem_paired he
  exact ht.turn (Effects.refl.joinOne ht.registered hm (fun h => hzero ⟨hm, h⟩) hname hkey)
    (ht.steady.informs_joinOne ht.registered e.1 e.2)

theorem Prepared.informs_kick (hs : s.Prepared c) (hm : m.handler = some .kick) :
    ∃ acts, Informs s (KickCommand.execute s c m.params) acts := by
  have hrefused : ∃ acts, Informs s (s.sendMessage c
      (lit ":server 461 " ++ s.nickname c ++ lit " KICK :Not enough parameters\r\n")) acts := by
    simp only [List.append_assoc]
    exact informs_reply s c (.of_word (by decide) (by decide) (by decide))
  have hnames : m.channelNames = splitString (m.params.headD []) comma := by
    rw [Message.channelNames, hm]
  unfold KickCommand.execute
  dsimp only
  split
  swap
  · exact hrefused
  next channelList userList rest hp =>
  split_ifs
  · exact hrefused
  refine Informs.foldl (Q := fun t => t.Prepared c) _ (fun t e he ht => ?_) hs
  have hname : e.1 ∈ m.channelNames := by
    rw [hnames, hp]
    show e.1 ∈ splitString channelList comma
    unfold KickCommand.targets at he
    split at he
    · next name hlist =>
      obtain ⟨u, _, rfl⟩ := List.mem_map.mp he
      rw [hlist]
      exact List.mem_singleton_self name
    · exact (List.of_mem_zip he).1
  exact ht.turn (Effects.refl.kickOne ht.registered hm _ hname e.2)
    (ht.steady.informs_kickOne ht.registered _ e.1 e.2)

/-- A command other than PASS, NICK, USER and PRIVMSG. -/
theorem Prepared.informs_execute (hs : s.Prepared c) {k : Command} (hm : m.handler = some k)
    (hk : k ≠ .pass ∧ k ≠ .nick ∧ k ≠ .user) (hspeech : k ≠ .privmsg) :
    ∃ acts, Informs s (k.execute s c m.params) acts := by
  cases k with
  | pass => exact absurd rfl hk.1
  | nick => exact absurd rfl hk.2.1
  | user => exact absurd rfl hk.2.2
  | join => exact hs.informs_join hm
  | privmsg => exact absurd rfl hspeech
  | kick => exact hs.informs_kick hm
  | invite => exact hs.steady.informs_invite hs.registered m.params
  | topic => exact hs.steady.informs_topic hs.registered m.params
  | mode => exact hs.steady.informs_mode hs.registered m.params

end Commands

/-! ## Registration -/

section Registration

variable {s : Server} {c : Ptr} {x y : Client}

/-- A name that differs from all others is free. -/
theorem free_of_distinct {t : Server} (hdistinct : t.DistinctNicknames) (hy : t.heap c = some y)
    (hnick : y.nickname ≠ [])
    (hothers : ∀ q, q ≠ c → ∀ z, s.heap q = some z → ∃ z', t.heap q = some z' ∧ z'.nickname = z.nickname) :
    s.world.Free c (toIrcLowerCase y.nickname) := by
  intro q hq hqc heq
  have hreg : (s.client q).isRegistered = true := hq
  obtain ⟨z, hz⟩ := Option.isSome_iff_exists.mp (allocated_of_isRegistered hreg)
  obtain ⟨z', hz', hsame⟩ := hothers q hqc z hz
  rw [name_world hreg, nickname, client_of_heap hz, ← hsame] at heq
  exact hqc (hdistinct c q y z' hy hz' hnick heq.symm).symm

/-- A client alone changes, by its own PASS, NICK or USER, and is told if it is registered now. -/
theorem shows_own (hx : s.heap c = some x) (hreads : x.Reads y (x.registrationNews y))
    (hkept : x.isRegistered = true → y.isRegistered = true
      ∧ toIrcLowerCase y.nickname = toIrcLowerCase x.nickname)
    (hnick : y.isRegistered = true → y.nickname ≠ [])
    (hdistinct : (s.modify c fun _ => y).DistinctNicknames) :
    ShowsSilently s (s.modify c fun _ => y) := by
  by_cases hnew : x.isRegistered = false ∧ y.isRegistered = true
  · rw [Client.registrationNews, if_pos hnew] at hreads
    refine ⟨_, shows_arrive hx hnew.1 hnew.2 hreads ?_, rfl⟩
    have hy : (s.modify c fun _ => y).heap c = some y := by rw [heap_modify_self, hx, Option.map_some]
    refine free_of_distinct hdistinct hy (hnick hnew.2) fun q hq z hz => ⟨z, ?_, rfl⟩
    rw [heap_modify_ne _ _ hq, hz]
  · rw [Client.registrationNews, if_neg hnew] at hreads
    refine ⟨[], shows_modify hx ?_ (fun h => (hkept h).2) hreads, rfl⟩
    cases hreg : x.isRegistered with
    | true => exact (hkept hreg).1
    | false => exact Bool.eq_false_iff.mpr fun h => hnew ⟨hreg, h⟩

/-- An answer that announces nothing. -/
theorem shows_reply (s : Server) (c : Ptr) {head rest : Str} (h : Neutral head) :
    ShowsSilently s (s.sendMessage c (head ++ rest)) := by
  have hreply : ∃ acts, Informs s (s.sendMessage c (head ++ rest)) acts := informs_reply s c h
  obtain ⟨acts, hacts⟩ := hreply
  exact hacts.showsSilently

variable (hs : s.Steady) (hx : s.heap c = some x)
include hs hx

theorem Steady.shows_pass (params : List Str) : ShowsSilently s (PassCommand.execute s c params) := by
  have hclient : s.client c = x := client_of_heap hx
  unfold PassCommand.execute
  dsimp only
  rw [hclient]
  by_cases hok : x.passOk = true
  · rw [if_pos hok]
    simp only [List.append_assoc]
    exact shows_reply s c (.of_word (by decide) (by decide) (by decide))
  rw [if_neg hok]
  by_cases hnone : params.headD [] = []
  · rw [if_pos hnone]
    simp only [List.append_assoc]
    exact shows_reply s c (.of_word (by decide) (by decide) (by decide))
  rw [if_neg hnone]
  by_cases hpassword : params.headD [] = s.password
  · -- nothing has been set in front of the password, so nobody is registered by it
    have hsound := (hs.sound c).gate
    rw [hclient] at hsound
    have hunset : x.nickSet = false := by
      cases hset : x.nickSet with
      | false => rfl
      | true => exact absurd (hsound (Or.inl hset)) hok
    rw [if_pos hpassword, modify_eq _ hx]
    refine ⟨[], shows_modify hx ?_ (fun _ => rfl) (.of_silent rfl rfl id), rfl⟩
    simp [Client.isRegistered, hunset]
  · rw [if_neg hpassword, PassCommand.wrong_eq hx rfl]
    have hidentity : x.failPass.isRegistered = x.isRegistered ∧ x.failPass.nickname = x.nickname := by
      have hkept : x.recordFailedPassAttempt.isRegistered = x.isRegistered
          ∧ x.recordFailedPassAttempt.nickname = x.nickname := by
        unfold Client.recordFailedPassAttempt
        split_ifs <;> exact ⟨rfl, rfl⟩
      exact ⟨(Client.isRegistered_of_identity x.identity_failPass).trans hkept.1,
        (Client.nickname_of_identity x.identity_failPass).trans hkept.2⟩
    exact ⟨[], shows_modify hx hidentity.1 (fun _ => by rw [hidentity.2]) x.reads_failPass, rfl⟩

theorem Steady.shows_user (params : List Str)
    (hdistinct : (UserCommand.execute s c params).DistinctNicknames) :
    ShowsSilently s (UserCommand.execute s c params) := by
  rcases UserCommand.execute_cases hx params with ⟨head, rest, hneutral, heq⟩ | ⟨username, hset, heq⟩
  · rw [heq]
    exact shows_reply s c hneutral
  · rw [heq] at hdistinct ⊢
    have hidentity := x.identity_takeUsername username
    have hnick : (x.takeUsername username).nickname = x.nickname :=
      congrArg Client.Identity.nickname hidentity
    have hreg : x.isRegistered = false := by rw [Client.isRegistered, hset, Bool.and_false]
    have hblank := hs.blankFree c
    rw [nickname, client_of_heap hx] at hblank
    refine shows_own hx (x.reads_takeUsername username hset hblank)
      (fun h => absurd (hreg.symm.trans h) (by decide)) (fun h => ?_) hdistinct
    -- a nickname has been set
    have hsound := (hs.sound c).nickname
    rw [client_of_heap hx] at hsound
    have hidentity' : Client.Identity.isRegistered { x.identity with username, userSet := true } = true := by
      rw [← hidentity]
      exact h
    simp only [Client.Identity.isRegistered, Bool.and_eq_true] at hidentity'
    rw [if_pos hidentity'.1.2] at hsound
    rw [hnick]
    exact ne_nil_of_isValidNickname hsound

theorem Steady.shows_nick (params : List Str)
    (hdistinct : (NickCommand.execute s c params).DistinctNicknames) :
    ShowsSilently s (NickCommand.execute s c params) := by
  have hset : x.isRegistered = true → x.nickname ≠ [] := by
    intro hreg
    have hvalid := (hs.spoken c (by rw [client_of_heap hx, hreg])).1
    rw [nickname, client_of_heap hx] at hvalid
    exact ne_nil_of_isValidNickname hvalid
  rcases NickCommand.execute_cases hx hset params with ⟨head, rest, hneutral, heq⟩ | ⟨n, hvalid, hcases⟩
  · rw [heq]
    exact shows_reply s c hneutral
  have hn := ne_nil_of_isValidNickname hvalid
  rcases hcases with ⟨hreg, heq⟩ | ⟨hsame, heq⟩
  · have hspoken := (hs.spoken c (by rw [client_of_heap hx, hreg])).2
    rw [nickname, username, client_of_heap hx] at hspoken
    rw [heq] at hdistinct ⊢
    generalize hmodified : (s.modify c fun _ => { x with nickname := n }) = u at hdistinct
    have hsent : ∀ q z, u.heap q = some z → ∃ z',
        (u.sendAll (s.nickRecipients c) (nickMessage x n)).heap q = some z' ∧ z'.nickname = z.nickname := by
      intro q z hz
      obtain ⟨z', hz', hidentity, _⟩ :=
        (OnlySends.sendAll u (s.nickRecipients c) (nickMessage x n)).exists_client hz
      exact ⟨z', hz', Client.nickname_of_identity hidentity⟩
    have hself : u.heap c = some { x with nickname := n } := by
      rw [← hmodified, heap_modify_self, hx, Option.map_some]
    obtain ⟨y, hy, hnick⟩ := hsent c _ hself
    have hfree := free_of_distinct hdistinct hy (by rwa [hnick]) (s := s) fun q hq z hz => by
      refine hsent q z ?_
      rw [← hmodified, heap_modify_ne _ _ hq, hz]
    rw [hnick] at hfree
    rw [← hmodified]
    exact ⟨_, shows_rename hx hreg hspoken hfree, rfl⟩
  · rw [heq] at hdistinct ⊢
    have hidentity := x.identity_takeNickname n
    have hnick : (x.takeNickname n).nickname = n := congrArg Client.Identity.nickname hidentity
    refine shows_own hx (x.reads_takeNickname (not_mem_of_isValidNickname hvalid).1) (fun hreg => ?_)
      (fun _ => by rwa [hnick]) hdistinct
    refine ⟨?_, by rw [hnick, hsame hreg]⟩
    have hreg' : Client.Identity.isRegistered { x.identity with nickname := n, nickSet := true } = true := by
      simp only [Client.isRegistered, Bool.and_eq_true] at hreg
      simp [Client.Identity.isRegistered, Client.identity, hreg.1.1, hreg.2]
    rw [← hidentity] at hreg'
    exact hreg'

/-- Any line but a PRIVMSG of a registered client says nothing. -/
theorem Steady.showsSilently_processMessage {m : Message}
    (hspeech : ¬ ((s.client c).isRegistered = true ∧ m.handler = some .privmsg))
    (hdistinct : (s.processMessage c m).DistinctNicknames) :
    ShowsSilently s (s.processMessage c m) := by
  unfold processMessage at hdistinct ⊢
  dsimp only at hdistinct ⊢
  by_cases hempty : m.command = []
  · rw [if_pos hempty]
    exact (Informs.refl s).showsSilently
  rw [if_neg hempty] at hdistinct ⊢
  -- the commands that have no handler
  by_cases hcap : m.command = lit "CAP"
  · rw [if_pos hcap]
    split_ifs
    · have hneutral : Neutral (lit ":server CAP * LS :\r\n") :=
        .of_word (by decide) (by decide) (by decide)
      rw [← List.append_nil (lit ":server CAP * LS :\r\n")]
      exact shows_reply s c hneutral
    · exact (Informs.refl s).showsSilently
  rw [if_neg hcap] at hdistinct ⊢
  by_cases hping : m.command = lit "PING"
  · rw [if_pos hping]
    simp only [List.append_assoc]
    exact shows_reply s c (.of_word (by decide) (by decide) (by decide))
  rw [if_neg hping] at hdistinct ⊢
  by_cases hquit : m.command = lit "QUIT"
  · rw [if_pos hquit, modify_eq _ hx]
    exact ⟨[], shows_modify hx (Client.isRegistered_of_identity (Client.identity_markClosing ..))
      (fun _ => by rw [Client.nickname_of_identity (Client.identity_markClosing ..)])
      (x.reads_markClosing _), rfl⟩
  rw [if_neg hquit] at hdistinct ⊢
  cases hlookup : commands.lookup m.command with
  | none =>
    simp only [List.append_assoc]
    exact shows_reply s c (.of_word (by decide) (by decide) (by decide))
  | some k =>
    rw [hlookup] at hdistinct
    dsimp only at hdistinct ⊢
    -- the two gates in front of the handlers
    by_cases hpass : k ≠ .pass ∧ (s.client c).passOk = false
    · rw [if_pos hpass]
      have hneutral : Neutral (lit ":server 451 * :You have not registered\r\n") :=
        .of_word (by decide) (by decide) (by decide)
      rw [← List.append_nil (lit ":server 451 * :You have not registered\r\n")]
      exact shows_reply s c hneutral
    rw [if_neg hpass] at hdistinct ⊢
    by_cases hgate : k ≠ .pass ∧ k ≠ .nick ∧ k ≠ .user ∧ (s.client c).isRegistered = false
    · rw [if_pos hgate]
      simp only [List.append_assoc]
      exact shows_reply s c (.of_word (by decide) (by decide) (by decide))
    rw [if_neg hgate] at hdistinct ⊢
    by_cases hk : k ≠ .pass ∧ k ≠ .nick ∧ k ≠ .user
    · have hreg : (s.client c).isRegistered = true := by
        by_contra hnot
        exact hgate ⟨hk.1, hk.2.1, hk.2.2, Bool.eq_false_iff.mpr hnot⟩
      have hnot : k ≠ .privmsg := fun heq => hspeech ⟨hreg, by rw [Message.handler, hlookup, heq]⟩
      obtain ⟨acts, hacts⟩ := (Prepared.mk hs hreg).informs_execute hlookup hk hnot
      exact hacts.showsSilently
    · cases k with
      | pass => exact hs.shows_pass hx m.params
      -- these two may make the client registered
      | nick => exact hs.shows_nick hx m.params hdistinct
      | user => exact hs.shows_user hx m.params hdistinct
      | join | privmsg | kick | invite | topic | mode => exact absurd (by decide) hk

/-- A line says what it says, or acts in the world, and shows that it does. -/
theorem Steady.shows_processMessage (m : Message)
    (hdistinct : (s.processMessage c m).DistinctNicknames) :
    Shows s (s.processMessage c m) (s.spoken c m)
      ∨ ShowsSilently s (s.processMessage c m) ∧ s.spoken c m = [] := by
  by_cases hspeech : (s.client c).isRegistered = true ∧ m.handler = some .privmsg
  · rw [s.processMessage_of_registered hspeech.1 hspeech.2]
    exact Or.inl (hs.shows_privmsg hspeech.1 hspeech.2)
  · exact Or.inr ⟨hs.showsSilently_processMessage hx hspeech hdistinct, if_neg hspeech⟩

end Registration

end Server

end FtIrc
