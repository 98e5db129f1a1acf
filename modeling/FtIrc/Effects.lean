import FtIrc.Dispatch
import Mathlib.Logic.Relation

/-!
# What a line may do

Every handler is a sequence of a few kinds of primitive effects: a reply to the client, a
line relayed in its name, an update of its own identity, a change of one channel.
`Effect` lists them with the conditions the handlers check first, and
`Server.processMessage_effects` says that a line does nothing else. What holds of every
line is proved by cases on `Effect`, not handler by handler.
-/

namespace FtIrc

open Bytes Relation

/-! ## The texts clients are sent -/

/-- A line in the server's own name, other than the welcome. -/
structure ServerReply (text : Str) : Prop where
  length_le : 12 ≤ text.length
  server : lit ":server " <+: text
  not_welcome : ¬ lit ":server 001 " <+: text

instance (text : Str) : Decidable (ServerReply text) :=
  decidable_of_iff (12 ≤ text.length ∧ lit ":server " <+: text ∧ ¬ lit ":server 001 " <+: text)
    ⟨fun ⟨h1, h2, h3⟩ => ⟨h1, h2, h3⟩, fun ⟨h1, h2, h3⟩ => ⟨h1, h2, h3⟩⟩

/-- The first twelve bytes decide what a reply is. -/
theorem ServerReply.append {head : Str} (h : ServerReply head) (rest : Str) :
    ServerReply (head ++ rest) := by
  refine ⟨?_, h.server.trans (List.prefix_append _ _), fun hw => h.not_welcome ?_⟩
  · have hlen := h.length_le
    rw [List.length_append]
    omega
  · exact List.prefix_of_prefix_length_le hw (List.prefix_append _ _) h.length_le

/-- A line in the name of the user with this nickname. -/
def FromUser (nickname text : Str) : Prop := lit ":" ++ nickname ++ lit "!" <+: text

theorem FromUser.append {nickname head : Str} (h : FromUser nickname head) (rest : Str) :
    FromUser nickname (head ++ rest) := List.IsPrefix.trans h (List.prefix_append _ _)

theorem fromUser_userPrefix (s : Server) (c : Ptr) :
    FromUser (s.nickname c) (userPrefix s c) := by
  unfold FromUser userPrefix
  simp only [List.append_assoc]
  rw [List.prefix_append_right_inj, List.prefix_append_right_inj]
  exact List.prefix_append _ _

/-! ## What a line is about -/

namespace Message

/-- The command object a line is for. -/
def handler (m : Message) : Option Command := commands.lookup m.command

/-- The names in the place where the command expects channels. -/
def channelNames (m : Message) : List Str :=
  match m.handler with
  | some .join | some .kick => splitString (m.params.headD []) comma
  | some .topic | some .mode => m.params.take 1
  | some .invite => (m.params.drop 1).take 1
  | _ => []

/-- The keys a JOIN offers. -/
def keys (m : Message) : List Str :=
  match m.params with
  | _ :: key :: _ => splitString key comma
  | _ => []

/-- The line is `JOIN 0`. -/
def LeavesAll (m : Message) : Prop := m.handler = some .join ∧ m.params.head? = some (lit "0")

end Message

/-! ## Updates of the client's own identity -/

namespace Client

/-- A wrong password: the attempt is counted and answered, the third one closes. -/
def failPass (x : Client) : Client :=
  let y := x.recordFailedPassAttempt.sendMessage
    (lit ":server 464 " ++ displayName x ++ lit " :Password incorrect\r\n")
  if y.failedPassAttempts ≥ PassCommand.maxFailedPassAttempts then
    y.markClosing (lit "too many invalid PASS attempts")
  else y

/-- An accepted NICK, with the welcome if it completes the registration. -/
def takeNickname (x : Client) (nickname : Str) : Client :=
  let y := { x with nickname, nickSet := true }
  if !x.isRegistered && y.isRegistered then y.sendMessage (welcome y.nickname y.username) else y

/-- An accepted USER, with the welcome if it completes the registration. -/
def takeUsername (x : Client) (username : Str) : Client :=
  let y := { x with username, userSet := true }
  if y.isRegistered then y.sendMessage (welcome y.nickname y.username) else y

theorem endpoint_failPass (x : Client) : x.failPass.endpoint = x.endpoint := by
  unfold failPass
  dsimp only
  split_ifs
  · rw [endpoint_markClosing, endpoint_sendMessage, endpoint_recordFailedPassAttempt]
  · rw [endpoint_sendMessage, endpoint_recordFailedPassAttempt]

theorem endpoint_takeNickname (x : Client) (n : Str) : (x.takeNickname n).endpoint = x.endpoint := by
  unfold takeNickname
  dsimp only
  split_ifs
  · rw [endpoint_sendMessage]
    rfl
  · rfl

theorem endpoint_takeUsername (x : Client) (u : Str) : (x.takeUsername u).endpoint = x.endpoint := by
  unfold takeUsername
  dsimp only
  split_ifs
  · rw [endpoint_sendMessage]
    rfl
  · rfl

theorem identity_failPass (x : Client) :
    x.failPass.identity = x.recordFailedPassAttempt.identity := by
  unfold failPass
  dsimp only
  split_ifs
  · rw [identity_markClosing, identity_sendMessage]
  · rw [identity_sendMessage]

theorem identity_takeNickname (x : Client) (n : Str) :
    (x.takeNickname n).identity = { x.identity with nickname := n, nickSet := true } := by
  unfold takeNickname
  dsimp only
  split_ifs
  · rw [identity_sendMessage]
    rfl
  · rfl

theorem identity_takeUsername (x : Client) (u : Str) :
    (x.takeUsername u).identity = { x.identity with username := u, userSet := true } := by
  unfold takeUsername
  dsimp only
  split_ifs
  · rw [identity_sendMessage]
    rfl
  · rfl

end Client

/-- What a line may do to the client it comes from, besides answering it. -/
inductive OwnUpdate (c : Ptr) (m : Message) (s : Server) (x : Client) : Client → Prop
  | authenticate (h : m.handler = some .pass) (hx : x.passOk = false)
      (hpassword : m.params.head? = some s.password) :
      OwnUpdate c m s x { x with passOk := true }
  | failPass (h : m.handler = some .pass) (hx : x.passOk = false)
      (hpassword : m.params.head? ≠ some s.password) :
      OwnUpdate c m s x x.failPass
  | takeNickname {nickname : Str} (h : m.handler = some .nick) (hx : x.passOk = true)
      (hparam : m.params.head? = some nickname)
      (hvalid : NickCommand.isValidNickname nickname = true)
      (hfree : ∀ q, s.findClientByNick nickname = some q → q = c) :
      OwnUpdate c m s x (x.takeNickname nickname)
  | takeUsername {username : Str} (h : m.handler = some .user) (hx : x.passOk = true)
      (hset : x.userSet = false) (hvalid : UserCommand.isValidUsername username = true) :
      OwnUpdate c m s x (x.takeUsername username)
  | quit (reason : Str) (h : m.command = lit "QUIT") :
      OwnUpdate c m s x (x.markClosing (lit "Quit: " ++ reason))

/-! ## Changes of a channel -/

/-- What one letter of a mode string may do to a channel. -/
inductive ModeChange (s : Server) (ch : Channel) : Channel → Prop
  | inviteOnly : ModeChange s ch { ch with inviteOnly := !ch.inviteOnly }
  | topicRestricted : ModeChange s ch { ch with topicRestricted := !ch.topicRestricted }
  | setPassword {key : Str} (hfree : ch.password = [])
      (hkey : ∀ b ∈ key, b ≠ sp ∧ b ≠ tab ∧ b ≠ comma) :
      ModeChange s ch { ch with password := key }
  | clearPassword : ModeChange s ch { ch with password := [] }
  | userLimit {n : ℕ} (hne : ch.userLimit ≠ n) : ModeChange s ch { ch with userLimit := n }
  | addOperator {nickname : Str} {q : Ptr} (hfind : s.findClientByNick nickname = some q)
      (hq : q ∈ ch.members) (hop : q ∉ ch.operators) : ModeChange s ch (ch.addOperator q)
  | removeOperator {nickname : Str} {q : Ptr} (hfind : s.findClientByNick nickname = some q)
      (hq : q ∈ ch.members) (hop : q ∈ ch.operators) : ModeChange s ch (ch.removeOperator q)

/-- What a line may do to a channel it names. `s₀` is the state the line was dispatched in,
`s` the one the change is made in. -/
inductive ChannelChange (c : Ptr) (m : Message) (s₀ s : Server) (name : Str) (ch : Channel) :
    Channel → Prop
  | join (h : m.handler = some .join) (hzero : m.params.head? ≠ some (lit "0"))
      (hout : c ∉ ch.members) (hkey : ch.password = [] ∨ ch.password ∈ m.keys)
      (hinvited : ch.inviteOnly = true → c ∈ ch.invitedClients)
      (hlimit : ch.userLimit = 0 ∨ ch.members.length < ch.userLimit) :
      ChannelChange c m s₀ s name ch ((ch.addMember c).removeInvited c)
  | kick {q : Ptr} (h : m.handler = some .kick) (hmem : c ∈ ch.members)
      (hop : c ∈ ch.operators) (hq : q ∈ ch.members) :
      ChannelChange c m s₀ s name ch (ch.removeMember q)
  | invite {nickname : Str} {q : Ptr} (h : m.handler = some .invite) (hmem : c ∈ ch.members)
      (hop : ch.inviteOnly = true → c ∈ ch.operators)
      (hfind : s.findClientByNick nickname = some q) (hq : q ∉ ch.members) :
      ChannelChange c m s₀ s name ch (ch.addInvited q)
  | topic (text : Str) (h : m.handler = some .topic) (hmem : c ∈ ch.members)
      (hop : ch.topicRestricted = true → c ∈ ch.operators) :
      ChannelChange c m s₀ s name ch { ch with topic := text }
  | mode {ch₀ ch' : Channel} (h : m.handler = some .mode) (h₀ : s₀.findChannel name = some ch₀)
      (hop : c ∈ ch₀.operators) (hchange : ModeChange s ch ch') :
      ChannelChange c m s₀ s name ch ch'

/-! ## Effects -/

/-- One primitive effect of a line `m` that client `c` sent in state `s₀`. -/
inductive Effect (c : Ptr) (m : Message) (s₀ : Server) : Server → Server → Prop
  | reply {s : Server} {text : Str} (h : ServerReply text) : Effect c m s₀ s (s.sendMessage c text)
  | relay {s : Server} (q : Ptr) {text : Str} (hreg : (s₀.client c).isRegistered = true)
      (h : FromUser (s₀.nickname c) text) : Effect c m s₀ s (s.sendMessage q text)
  /-- identity updates come first in a line -/
  | own {x x' : Client} (hx : s₀.heap c = some x) (h : OwnUpdate c m s₀ x x') :
      Effect c m s₀ s₀ (s₀.modify c fun _ => x')
  | found {s : Server} {name : Str} (hreg : (s₀.client c).isRegistered = true)
      (h : m.handler = some .join) (hzero : m.params.head? ≠ some (lit "0"))
      (hname : name ∈ m.channelNames) (hvalid : JoinCommand.isValidChannelName name = true)
      (hnew : s.findChannel name = none) :
      Effect c m s₀ s { s with channels := s.channels.insert name (Channel.founded name c) }
  | change {s : Server} {name : Str} {ch ch' : Channel}
      (hreg : (s₀.client c).isRegistered = true) (hname : name ∈ m.channelNames)
      (hch : s.findChannel name = some ch) (h : ChannelChange c m s₀ s name ch ch') :
      Effect c m s₀ s (s.modifyChannel name fun _ => ch')
  | part {s : Server} {name : Str} {ch : Channel} (hreg : (s₀.client c).isRegistered = true)
      (h : m.LeavesAll) (hch : s.findChannel name = some ch) (hmem : c ∈ ch.members)
      (hrest : (ch.removeMember c).members ≠ []) :
      Effect c m s₀ s (s.modifyChannel name fun _ => ch.removeMember c)
  | dissolve {s : Server} {name : Str} {ch : Channel} (hreg : (s₀.client c).isRegistered = true)
      (h : m.LeavesAll) (hch : s.findChannel name = some ch) (hmem : c ∈ ch.members)
      (hrest : (ch.removeMember c).members = []) :
      Effect c m s₀ s ((s.modifyChannel name fun _ => ch.removeMember c).removeChannel ch.name)

/-- A sequence of effects of a line, from the state it was dispatched in. -/
def Effects (c : Ptr) (m : Message) (s₀ s : Server) : Prop := ReflTransGen (Effect c m s₀) s₀ s

theorem OwnUpdate.endpoint_eq {c : Ptr} {m : Message} {s : Server} {x x' : Client}
    (h : OwnUpdate c m s x x') : x'.endpoint = x.endpoint := by
  cases h with
  | authenticate => rfl
  | failPass => exact Client.endpoint_failPass x
  | takeNickname => exact Client.endpoint_takeNickname x _
  | takeUsername => exact Client.endpoint_takeUsername x _
  | quit => exact Client.endpoint_markClosing ..

theorem OwnUpdate.dispatched_eq {c : Ptr} {m : Message} {s : Server} {x x' : Client}
    (h : OwnUpdate c m s x x') : x'.trace.dispatched = x.trace.dispatched := by
  cases h with
  | authenticate => rfl
  | failPass =>
    have hcounted : x.recordFailedPassAttempt.trace = x.trace := by
      unfold Client.recordFailedPassAttempt
      split_ifs <;> rfl
    unfold Client.failPass
    dsimp only
    split_ifs
    · rw [Client.trace_markClosing, Client.dispatched_sendMessage, hcounted]
    · rw [Client.dispatched_sendMessage, hcounted]
  | takeNickname =>
    unfold Client.takeNickname
    dsimp only
    split_ifs
    · rw [Client.dispatched_sendMessage]
    · rfl
  | takeUsername =>
    unfold Client.takeUsername
    dsimp only
    split_ifs
    · rw [Client.dispatched_sendMessage]
    · rfl
  | quit => rw [Client.trace_markClosing]

/-- An update of its identity does not bring a client back. -/
theorem OwnUpdate.dead {c : Ptr} {m : Message} {s : Server} {x x' : Client}
    (h : OwnUpdate c m s x x') (hdead : x.dead = true) : x'.dead = true := by
  cases h with
  | authenticate => exact hdead
  | failPass =>
    have hcounted : x.recordFailedPassAttempt.dead = true := by
      unfold Client.recordFailedPassAttempt
      split_ifs <;> exact hdead
    unfold Client.failPass
    dsimp only
    split_ifs
    · rw [Client.dead_markClosing]
      exact Client.dead_sendMessage _ _ hcounted
    · exact Client.dead_sendMessage _ _ hcounted
  | takeNickname =>
    unfold Client.takeNickname
    dsimp only
    split_ifs
    · exact Client.dead_sendMessage _ _ hdead
    · exact hdead
  | takeUsername =>
    unfold Client.takeUsername
    dsimp only
    split_ifs
    · exact Client.dead_sendMessage _ _ hdead
    · exact hdead
  | quit => rw [Client.dead_markClosing, hdead]

/-- Only a NICK changes the nickname its client is known by. -/
theorem OwnUpdate.nickname_eq {c : Ptr} {m : Message} {s : Server} {x x' : Client}
    (h : OwnUpdate c m s x x') (hm : m.handler ≠ some .nick) : x'.nickname = x.nickname := by
  have hnick : x'.identity.nickname = x.identity.nickname := by
    cases h with
    | authenticate => rfl
    | failPass =>
      rw [Client.identity_failPass]
      unfold Client.recordFailedPassAttempt
      split_ifs <;> rfl
    | takeNickname h => exact absurd h hm
    | takeUsername => rw [Client.identity_takeUsername]
    | quit => rw [Client.identity_markClosing]
  exact hnick

namespace Effects

variable {c : Ptr} {m : Message} {s₀ s s' : Server}

theorem refl : Effects c m s₀ s₀ := ReflTransGen.refl

theorem tail (hs : Effects c m s₀ s) (h : Effect c m s₀ s s') : Effects c m s₀ s' :=
  ReflTransGen.tail hs h

/-- A property that every effect preserves holds after all of them. -/
theorem induct {P : Server → Prop} (hs : Effects c m s₀ s) (h₀ : P s₀)
    (step : ∀ s s', Effects c m s₀ s → Effect c m s₀ s s' → P s → P s') : P s := by
  induction hs with
  | refl => exact h₀
  | tail hpath heff ih => exact step _ _ hpath heff ih

theorem reply (hs : Effects c m s₀ s) (text : Str) (h : ServerReply text) :
    Effects c m s₀ (s.sendMessage c text) := hs.tail (.reply h)

/-- A line relayed to a list of clients. -/
theorem relayAll (hs : Effects c m s₀ s) (hreg : (s₀.client c).isRegistered = true)
    (ps : List Ptr) {text : Str} (h : FromUser (s₀.nickname c) text) :
    Effects c m s₀ (s.sendAll ps text) := by
  apply Server.sendAll_induct s ps text (P := fun t => Effects c m s₀ t) hs
  intro t p ht
  exact ht.tail (.relay p hreg h)

/-- Within a line other than NICK its client keeps its nickname. -/
theorem nickname_eq (hs : Effects c m s₀ s) (hm : m.handler ≠ some .nick) :
    s.nickname c = s₀.nickname c := by
  apply hs.induct (P := fun t => t.nickname c = s₀.nickname c) rfl
  intro t t' _ heff ih
  rw [← ih]
  cases heff with
  | reply => exact Server.nickname_sendMessage ..
  | relay => exact Server.nickname_sendMessage ..
  | own hx h =>
    show (Server.client _ c).nickname = (Server.client _ c).nickname
    rw [Server.client_modify_self _ hx, Server.client_of_heap hx]
    exact h.nickname_eq hm
  | found => rfl
  | change => rfl
  | part => rfl
  | dissolve => rfl

/-- What sending keeps of a client, and what the updates of its own identity keep if the line is
its own, a line keeps. -/
theorem map_heap {β : Type} {g : Client → β} {p : Ptr} (hs : Effects c m s₀ s)
    (hsent : ∀ x text, g (Client.sendMessage x text) = g x)
    (hown : p = c → ∀ x x', OwnUpdate c m s₀ x x' → g x' = g x) :
    (s.heap p).map g = (s₀.heap p).map g := by
  have hmodify : ∀ (t : Server) (q : Ptr) (f : Client → Client),
      (q = p → ∀ x, t.heap p = some x → g (f x) = g x) →
      ((t.modify q f).heap p).map g = (t.heap p).map g := by
    intro t q f hf
    rw [Server.heap_modify]
    split_ifs with hq
    · rw [← hq]
      cases hx : t.heap p with
      | none => rfl
      | some x => exact congrArg some (hf hq.symm x hx)
    · rfl
  apply hs.induct (P := fun t => (t.heap p).map g = (s₀.heap p).map g) rfl
  intro t t' _ heff ht
  rw [← ht]
  cases heff with
  | reply => exact hmodify t c _ fun _ x _ => hsent x _
  | relay q => exact hmodify t q _ fun _ x _ => hsent x _
  | own hx h =>
    refine hmodify _ _ _ fun hcp y hy => ?_
    rw [← hcp, hx] at hy
    rw [← Option.some_inj.mp hy]
    exact hown hcp.symm _ _ h
  | found => rfl
  | change => rfl
  | part => rfl
  | dissolve => rfl

end Effects

end FtIrc
