import FtIrc.GuardedRuns
import FtIrc.Sources

/-!
# Who a QUIT line names

A client that is dead keeps its nickname until the end of the poll batch, but the nickname lookup
does not see it any more, so NICK gives the nickname away. Then the QUIT line of the one names the
other. If nobody takes the nickname of a dead client, all clients have different nicknames, the
dead ones included, and a QUIT line names nobody but the client that goes.
-/

namespace FtIrc

open Bytes Relation

namespace NickCommand

/-- The nickname that NICK would accept is not one of a dead client. -/
def NotOfDead (s : Server) (client : Ptr) (newNickname : Str) : Prop :=
  isValidNickname newNickname = true → (∀ q ∈ s.findClientByNick newNickname, q = client) →
    ∀ e ∈ s.clients.entries, e.2 ≠ client → (s.client e.2).dead = true →
      toIrcLowerCase (s.client e.2).nickname ≠ toIrcLowerCase newNickname

instance (s : Server) (client : Ptr) (newNickname : Str) :
    Decidable (NotOfDead s client newNickname) :=
  inferInstanceAs (Decidable (_ → (∀ q ∈ s.findClientByNick newNickname, _) → _))

end NickCommand

/-- Nobody takes the nickname of a client that is dead and not yet disconnected. -/
def deadKeepNicknames : Guard where
  line s c m := m.handler = some .nick → (s.client c).passOk = true →
    ∀ n ∈ m.params.head?, NickCommand.NotOfDead s c n

instance (s : Server) (c : Ptr) (m : Message) : Decidable (deadKeepNicknames.line s c m) :=
  inferInstanceAs (Decidable (_ → _ → ∀ n ∈ m.params.head?, NickCommand.NotOfDead s c n))

instance (s : Server) (p : Ptr) : Decidable (deadKeepNicknames.disconnect s p) := .isTrue trivial

namespace Server

/-- All clients have different nicknames, dead or not. -/
def DistinctNicknames (s : Server) : Prop :=
  ∀ p q x y, s.heap p = some x → s.heap q = some y → x.nickname ≠ [] →
    toIrcLowerCase x.nickname = toIrcLowerCase y.nickname → p = q

namespace DistinctNicknames

variable {s t : Server}

theorem of_nicknamesFrom (h : s.DistinctNicknames) (hst : s.NicknamesFrom t) :
    t.DistinctNicknames := by
  intro p q x y hx hy hne heq
  have hne' : y.nickname ≠ [] := by
    intro hnil
    rw [hnil] at heq
    exact hne (List.map_eq_nil_iff.mp heq)
  obtain ⟨x₀, hx₀, hxn, _⟩ := (hst p x hx).resolve_left hne
  obtain ⟨y₀, hy₀, hyn, _⟩ := (hst q y hy).resolve_left hne'
  rw [hxn] at hne heq
  rw [hyn] at heq
  exact h p q x₀ y₀ hx₀ hy₀ hne heq

theorem modify (h : s.DistinctNicknames) (p : Ptr) {f : Client → Client}
    (hf : ∀ x, s.heap p = some x →
      (f x).nickname = x.nickname ∧ (x.dead = true → (f x).dead = true)) :
    (s.modify p f).DistinctNicknames := h.of_nicknamesFrom (s.nicknamesFrom_modify p hf)

theorem sendMessage (h : s.DistinctNicknames) (p : Ptr) (text : Str) :
    (s.sendMessage p text).DistinctNicknames :=
  h.modify p fun x _ => ⟨Client.nickname_of_identity (x.identity_sendMessage text),
    x.dead_sendMessage text⟩

/-- A client takes a nickname that nobody else has, the dead included. -/
theorem takeNickname (h : s.DistinctNicknames) (hs : s.Integrity) (hu : s.UniqueNicknames)
    {c : Ptr} {x : Client} (hx : s.heap c = some x) {n : Str}
    (hvalid : NickCommand.isValidNickname n = true)
    (hfree : ∀ q, s.findClientByNick n = some q → q = c) (hdead : NickCommand.NotOfDead s c n) :
    (s.modify c fun _ => x.takeNickname n).DistinctNicknames := by
  have hnick : (x.takeNickname n).nickname = n :=
    congrArg Client.Identity.nickname (x.identity_takeNickname n)
  have hn : n ≠ [] := by
    rintro rfl
    exact absurd hvalid (by decide)
  have hnobody : ∀ q y, s.heap q = some y → q ≠ c →
      toIrcLowerCase y.nickname ≠ toIrcLowerCase n := by
    intro q y hy hqc
    cases hyd : y.dead with
    | false => exact hu.nobody_of_free hs hfree hn q y hy hqc hyd
    | true =>
      have hentry : (y.fd, q) ∈ s.clients.entries := OrdMap.find?_eq_some.mp (hs.registered q y hy)
      have hq := hdead hvalid hfree _ hentry hqc
      rw [client_of_heap hy] at hq
      exact hq hyd
  intro p q y z hy hz hne heq
  rw [heap_modify] at hy hz
  split_ifs at hy hz with hp hq hq
  · rw [hp, hq]
  · rw [hx, Option.map_some, Option.some_inj] at hy
    rw [← hy, hnick] at heq
    exact absurd heq.symm (hnobody q z hz hq)
  · rw [hx, Option.map_some, Option.some_inj] at hz
    rw [← hz, hnick] at heq
    exact absurd heq (hnobody p y hy hp)
  · exact h p q y z hy hz hne heq

end DistinctNicknames

end Server

/-- A line that takes no nickname of the dead leaves all nicknames different. -/
theorem Effects.distinctNicknames {c : Ptr} {m : Message} {s₀ s : Server} (h : Effects c m s₀ s)
    (hs : s₀.Integrity) (hu : s₀.UniqueNicknames) (h₀ : s₀.DistinctNicknames)
    (hkeep : deadKeepNicknames.line s₀ c m) : s.DistinctNicknames := by
  apply h.induct (P := Server.DistinctNicknames) h₀
  intro t t' _ heff ht
  cases heff with
  | reply => exact ht.sendMessage _ _
  | relay => exact ht.sendMessage _ _
  | own hx hown =>
    by_cases hm : m.handler = some .nick
    · cases hown with
      | takeNickname _ hpass hparam hvalid hfree =>
        refine ht.takeNickname hs hu hx hvalid hfree (hkeep hm ?_ _ hparam)
        rw [Server.client_of_heap hx, hpass]
      | authenticate h | failPass h | takeUsername h => rw [hm] at h; cases h
      | quit _ h => exact absurd h (Message.command_ne_of_handler hm).2.2.2
    · refine ht.modify c fun y hy => ?_
      obtain rfl := Option.some_inj.mp (hx.symm.trans hy)
      exact ⟨hown.nickname_eq hm, hown.dead⟩
  | found => exact ht
  | change => exact ht
  | part => exact ht
  | dissolve => exact ht

theorem GuardedReachable.distinctNicknames {s : Server} (h : GuardedReachable deadKeepNicknames s) :
    s.DistinctNicknames := by
  refine h.induct (P := Server.DistinctNicknames)
    (fun _ _ _ _ _ _ hx => absurd hx (Option.some_ne_none _).symm) fun u v hu hmove hmet hu' => ?_
  have hs := hu.reachable.integrity
  cases hmove with
  | @connect fd ip p =>
    refine hu'.of_nicknamesFrom fun q y hy => ?_
    have hy' : Function.update u.heap p (some { fd, ip }) q = some y := hy
    rw [Function.update_apply] at hy'
    split_ifs at hy'
    · exact Or.inl (by rw [← Option.some_inj.mp hy'])
    · exact Server.NicknamesFrom.refl u q y hy'
  | @io p x x' hx hio =>
    refine hu'.modify p fun y hy => ?_
    obtain rfl := Option.some_inj.mp (hx.symm.trans hy)
    exact ⟨Client.nickname_of_identity hio.identity_eq, hio.dead⟩
  | @line c x x' line hx live hextract =>
    have hdispatch : DispatchOf c line u _ _ := ⟨x, x', hx, live, hextract, rfl, rfl⟩
    have hkeeps : ∀ y, u.heap c = some y → x'.nickname = y.nickname ∧ (y.dead = true → x'.dead = true) := by
      intro y hy
      obtain rfl := Option.some_inj.mp (hx.symm.trans hy)
      refine ⟨Client.nickname_of_identity (Client.extractLine_identity hextract), fun hdead => ?_⟩
      simp [Client.stopped, hdead] at live
    have hprocessed := hdispatch.effects.distinctNicknames (hdispatch.integrity hs)
      (hu.reachable.uniqueNicknames.modify c hkeeps) (hu'.modify c hkeeps) (hmet.1 c line _ hdispatch)
    exact hprocessed.modify c fun _ _ => ⟨rfl, id⟩
  | @disconnect fd p x hfd =>
    have hannounce : (u.announceQuit p).DistinctNicknames := by
      unfold Server.announceQuit
      split_ifs
      · exact Server.sendAll_induct u _ _ (P := Server.DistinctNicknames) hu'
          fun _ q ht => ht.sendMessage q _
      · exact hu'
    rw [Server.disconnectClient, hfd]
    refine hannounce.of_nicknamesFrom fun q y hy => ?_
    have hy' : Function.update (u.announceQuit p).heap p none q = some y := hy
    rw [Function.update_apply] at hy'
    split_ifs at hy'
    exact Server.NicknamesFrom.refl _ q y hy'
  | poll h =>
    obtain ⟨_, rfl, _⟩ := Server.of_refreshPollEvents h
    exact hu'

/-- All that a disconnect sends is the QUIT line, and only for a registered client. -/
theorem Server.appends_announceQuit {s : Server} {p : Ptr} {x : Client} (hx : s.heap p = some x) :
    Server.Appends (fun text => text = quitMessage x ∧ x.isRegistered = true) s (s.announceQuit p) := by
  unfold announceQuit
  rw [client_of_heap hx]
  split_ifs with hreg
  · exact appends_sendAll _ ⟨rfl, hreg⟩
  · exact .refl _ s

/-- If nobody takes the nickname of a dead client, every line that a disconnect sends is a QUIT
line from a nickname that no other client has at that moment. -/
theorem quit_names_nobody_else {s : Server} (h : GuardedReachable deadKeepNicknames s) {fd : Fd}
    {p q : Ptr} {y : Client} (hfd : s.clients.find? fd = some p) (hqp : q ≠ p)
    (hy : s.heap q = some y) :
    ∃ y', (s.disconnectClient fd).heap q = some y' ∧ y.Appends (fun text =>
      text = Server.quitMessage (s.client p) ∧ FromUser (s.nickname p) text
        ∧ ∀ r z, s.heap r = some z → r ≠ p →
          toIrcLowerCase z.nickname ≠ toIrcLowerCase (s.nickname p)) y' := by
  obtain ⟨x, hx⟩ := Option.isSome_iff_exists.mp (h.reachable.integrity.allocated_of_find? hfd)
  obtain ⟨y', hy', added, hbuffer, haccepted, hadded⟩ := Server.appends_announceQuit hx q y hy
  have hclient := Server.client_of_heap hx
  refine ⟨y', ?_, added, hbuffer, haccepted, fun text htext => ?_⟩
  · rw [Server.disconnectClient, hfd]
    show Function.update (s.announceQuit p).heap p none q = some y'
    rw [Function.update_of_ne hqp, hy']
  · obtain ⟨rfl, hreg⟩ := hadded text htext
    rw [Server.nickname, hclient]
    refine ⟨rfl, fromUser_quitMessage x, fun r z hz hrp heq => hrp ?_⟩
    have hne := ne_nil_of_isValidNickname (h.reachable.isValidNickname hx hreg)
    exact (h.distinctNicknames p r x z hx hz hne heq.symm).symm

/-- The connection of the first client of the sample fails; the second one takes another
nickname. -/
def renamedEvents : List Event :=
  sampleEvents ++ [.pollError 4, .read 5 (.data (lit "NICK carl\r\n"))]

def renamed : Server := (Server.start (lit "pw") 3).run renamedEvents

theorem quit_names_nobody_else_sample :
    ∃ y y', renamed.heap 1 = some y ∧ (renamed.disconnectClient 4).heap 1 = some y'
      ∧ y.Appends (FromUser (lit "ann")) y' := by
  obtain ⟨hadm, hmeets, hfd, hclient, hnick⟩ : (Server.start (lit "pw") 3).AdmitsAll renamedEvents
      ∧ deadKeepNicknames.MeetsAll (Server.start (lit "pw") 3) renamedEvents
      ∧ renamed.clients.find? 4 = some 0 ∧ (renamed.heap 1).isSome = true
      ∧ renamed.nickname 0 = lit "ann" := by
    decide +kernel
  obtain ⟨y, hy⟩ := Option.isSome_iff_exists.mp hclient
  have hreach : GuardedReachable deadKeepNicknames renamed := guardedReachable_run hadm hmeets
  obtain ⟨y', hy', added, hbuffer, haccepted, hadded⟩ :=
    quit_names_nobody_else hreach hfd (show 1 ≠ 0 by decide) hy
  refine ⟨y, y', hy, hy', added, hbuffer, haccepted, fun text htext => ?_⟩
  rw [← hnick]
  exact (hadded text htext).2.1

/-- In one batch the connection of the first client of the sample fails and the second one takes
its nickname. -/
def usurped : Server := sample.run [.pollError 4, .read 5 (.data (lit "NICK ann\r\n"))]

theorem quit_names_usurper :
    Reachable usurped ∧ usurped.nickname 1 = lit "ann" ∧ usurped.clients.find? 5 = some 1
      ∧ (usurped.run [.reap]).clients.find? 5 = some 1 ∧ (usurped.run [.reap]).nickname 1 = lit "ann"
      ∧ ((usurped.run [.reap]).client 1).trace.accepted.getLast?
          = some (lit ":ann!a@localhost QUIT :socket error (POLLERR/POLLHUP)\r\n") :=
  ⟨reachable_sample.run (by decide +kernel), by decide +kernel⟩

end FtIrc
