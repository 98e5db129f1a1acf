import FtIrc.Events
import FtIrc.Lib.Runs

/-!
# One client over a move

What a move does to each client, taken apart once: `Closed` lists the ways an object changes,
and a property of clients that is closed under them is kept by every move
(`Move.forall_clients`). Taken as a property of the present object relative to the one in
front of the move, the same statement says how a client may have changed.
-/

namespace FtIrc

open Bytes Relation

theorem Client.extractLine_identity {x x' : Client} {line : Option Str}
    (h : x.extractLine = (x', line)) : x'.identity = x.identity := by
  have hidentity := x.identity_extractLine
  rwa [h] at hidentity

theorem Client.extractLine_trace {x x' : Client} {line : Option Str}
    (h : x.extractLine = (x', line)) : x'.trace = x.trace := by
  have htrace := x.trace_extractLine
  rwa [h] at htrace

/-- Taking a line leaves everything alone but the receive buffer. -/
theorem Client.extractLine_some {x x' : Client} {line : Str} (h : x.extractLine = (x', some line)) :
    ∃ after, x' = { x with recvBuffer := after } := by
  unfold extractLine at h
  split at h
  · cases h
  next before after hcut =>
  dsimp only at h
  split_ifs at h
  · cases h
  · cases h
  · exact ⟨after, (Prod.mk.inj h).1.symm⟩

/-- What the server may send in a state: a reply, or a line in the name of a registered
client. -/
def Server.Says (s : Server) (text : Str) : Prop :=
  ServerReply text
    ∨ ∃ p x, s.heap p = some x ∧ x.isRegistered = true ∧ FromUser x.nickname text

theorem fromUser_quitMessage (x : Client) : FromUser x.nickname (Server.quitMessage x) := by
  have hhead : FromUser x.nickname (lit ":" ++ x.nickname ++ lit "!") := List.prefix_rfl
  exact ((((hhead.append _).append _).append _).append _)

/-- A property of clients, by address, that each kind of change in a move from `s` to `s'`
keeps. -/
structure Closed (s s' : Server) (Q : Ptr → Client → Prop) : Prop where
  fresh : ∀ p fd ip, s.heap p = none → Q p { fd, ip }
  io : ∀ p x x', s.heap p = some x → x.Io x' → Q p x'
  extracted : ∀ p x x' line, s.heap p = some x → x.stopped = false →
    x.extractLine = (x', some line) → Q p x'
  sent : ∀ p x text, s.Says text → Q p x → Q p (x.sendMessage text)
  own : ∀ p x x₁ x₂ line, s.heap p = some x → x.stopped = false →
    x.extractLine = (x₁, some line) → LineOf p line s s' →
    OwnUpdate p (Parser.parse line) (s.modify p fun _ => x₁) x₁ x₂ → Q p x₂
  recorded : ∀ p x x₁ y line, s.heap p = some x → x.stopped = false →
    x.extractLine = (x₁, some line) → LineOf p line s s' → Q p y → Q p (y.recordLine line)

namespace Server

variable {s : Server} {p : Ptr} {Q : Ptr → Client → Prop}

/-- A change of one object touches no other. -/
theorem forall_modify {f : Client → Client} (h : ∀ q x, s.heap q = some x → Q q x)
    (hf : ∀ x, s.heap p = some x → Q p (f x)) :
    ∀ q x, (s.modify p f).heap q = some x → Q q x := by
  intro q x hx
  rw [heap_modify] at hx
  split_ifs at hx with hq
  · obtain ⟨y, hy, rfl⟩ := Option.map_eq_some_iff.mp hx
    rw [hq]
    exact hf y hy
  · exact h q x hx

theorem forall_sendMessage {text : Str} (h : ∀ q x, s.heap q = some x → Q q x)
    (hsent : ∀ x, Q p x → Q p (x.sendMessage text)) :
    ∀ q x, (s.sendMessage p text).heap q = some x → Q q x :=
  forall_modify h fun x hx => hsent x (h p x hx)

theorem forall_sendAll {ps : List Ptr} {text : Str} (h : ∀ q x, s.heap q = some x → Q q x)
    (hsent : ∀ p x, Q p x → Q p (x.sendMessage text)) :
    ∀ q x, (s.sendAll ps text).heap q = some x → Q q x :=
  sendAll_induct s ps text (P := fun t => ∀ q x, t.heap q = some x → Q q x) h
    fun _ p ht => forall_sendMessage ht (hsent p)

end Server

section

variable {s s' : Server} {Q : Ptr → Client → Prop} (hQ : ∀ p x, s.heap p = some x → Q p x)
  (hc : Closed s s' Q)
include hQ hc

theorem Closed.connect {fd : Fd} {ip : Str} {p : Ptr} (hp : s.heap p = none) :
    ∀ q y, (s.connect fd ip p).heap q = some y → Q q y := by
  intro q y hy
  have hy' : Function.update s.heap p (some { fd, ip }) q = some y := hy
  rw [Function.update_apply] at hy'
  split_ifs at hy' with hq
  · rw [← Option.some_inj.mp hy', hq]
    exact hc.fresh p fd ip hp
  · exact hQ q y hy'

/-- The effects of a line, one after the other. -/
theorem Closed.processLine {c : Ptr} {x x' : Client} {line : Str} (hx : s.heap c = some x)
    (live : x.stopped = false) (hextract : x.extractLine = (x', some line))
    (hline : LineOf c line s s') :
    ∀ q y, ((s.modify c fun _ => x').processLine c line).heap q = some y → Q q y := by
  have hx' := Server.heap_extracted hx x'
  have hidentity := Client.extractLine_identity hextract
  apply (Server.processMessage_effects hx' (Parser.parse line)).induct
    (P := fun t => ∀ q y, t.heap q = some y → Q q y)
    (Server.forall_modify hQ fun _ _ => hc.extracted c x x' line hx live hextract)
  intro t t' _ heff ht
  cases heff with
  | reply hreply => exact Server.forall_sendMessage ht fun y => hc.sent c y _ (Or.inl hreply)
  | relay q hreg hfrom =>
    rw [Server.client_of_heap hx'] at hreg
    rw [Server.nickname, Server.client_of_heap hx'] at hfrom
    rw [Client.isRegistered_of_identity hidentity] at hreg
    rw [Client.nickname_of_identity hidentity] at hfrom
    have hsaid : s.Says _ := Or.inr ⟨c, x, hx, hreg, hfrom⟩
    exact Server.forall_sendMessage ht fun y => hc.sent q y _ hsaid
  | @own y y' hy hown =>
    obtain rfl := Option.some_inj.mp (hx'.symm.trans hy)
    exact Server.forall_modify ht fun _ _ => hc.own c x x' y' line hx live hextract hline hown
  | found => exact ht
  | change => exact ht
  | part => exact ht
  | dissolve => exact ht

theorem Closed.disconnectClient {fd : Fd} {p : Ptr} {x : Client}
    (hfd : s.clients.find? fd = some p) (hx : s.heap p = some x) :
    ∀ q y, (s.disconnectClient fd).heap q = some y → Q q y := by
  have hannounce : ∀ q y, (s.announceQuit p).heap q = some y → Q q y := by
    unfold Server.announceQuit
    rw [Server.client_of_heap hx]
    split_ifs with hreg
    · have hsaid : s.Says (Server.quitMessage x) :=
        Or.inr ⟨p, x, hx, hreg, fromUser_quitMessage x⟩
      exact Server.forall_sendAll hQ fun q z => hc.sent q z _ hsaid
    · exact hQ
  intro q y hy
  rw [Server.disconnectClient, hfd] at hy
  have hy' : Function.update (s.announceQuit p).heap p none q = some y := hy
  rw [Function.update_apply] at hy'
  split_ifs at hy'
  exact hannounce q y hy'

/-- A property of clients that is closed under the changes of a move is kept by the move. -/
theorem Move.forall_clients (h : Move s s') : ∀ p x, s'.heap p = some x → Q p x := by
  cases h with
  | connect _ _ hp => exact hc.connect hQ hp
  | io hx hio => exact Server.forall_modify hQ fun _ _ => hc.io _ _ _ hx hio
  | line hx live hextract =>
    have hline : LineOf _ _ s _ := ⟨_, _, hx, live, hextract, rfl⟩
    have hprocessed := hc.processLine hQ hx live hextract hline
    exact Server.forall_modify hprocessed fun y hy =>
      hc.recorded _ _ _ y _ hx live hextract hline (hprocessed _ y hy)
  | disconnect hfd hx => exact hc.disconnectClient hQ hfd hx
  | poll h =>
    obtain ⟨_, rfl, _⟩ := Server.of_refreshPollEvents h
    exact hQ

end

/-- A property of clients that every move keeps holds of every client. -/
theorem Reachable.forall_clients {Q : Client → Prop}
    (hc : ∀ s s', Reachable s → (∀ p x, s.heap p = some x → Q x) → Closed s s' fun _ => Q)
    {s : Server} (h : Reachable s) : ∀ p x, s.heap p = some x → Q x := by
  induction h with
  | start => exact fun _ _ h => absurd h (Option.some_ne_none _).symm
  | move h hmove ih => exact hmove.forall_clients (Q := fun _ => Q) ih (hc _ _ h ih)

end FtIrc
