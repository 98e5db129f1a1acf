import FtIrc.Channel
import FtIrc.Lib.OrdMap
import Mathlib.Logic.Function.Basic

/-!
# The server state

`Server` with the objects its pointers refer to. A `Client*` is an address into `heap`; the
map `clients` takes a descriptor to the address of its object, and the channel lists hold
addresses too, so a list that outlives its client is a dangling pointer here as it is in
the program. `heap` is `none` where no object lives: reading there gives the default
object, writing there changes nothing, and neither ever happens
(see `FtIrc.Integrity`). A `Channel*` is the key of its entry in `channels`.
-/

namespace FtIrc

open Bytes

/-- An entry of `_pollFds` with the events it asks for. -/
structure PollFd where
  fd : Fd
  pollin : Bool
  pollout : Bool
deriving DecidableEq, Repr

/-- The state of `Server`, and the heap of `Client` objects. -/
structure Server where
  password : Str
  listenFd : Fd
  pollFds : List PollFd
  clients : OrdMap Fd Ptr
  channels : OrdMap Str Channel
  heap : Ptr → Option Client

/-- The IRC casemapping of one byte. -/
def toIrcLower (b : Byte) : Byte :=
  if 65 ≤ b ∧ b ≤ 90 then b - 65 + 97
  else if b = ch '[' then ch '\x7b'
  else if b = ch ']' then ch '\x7d'
  else if b = ch '\\' then ch '|'
  else if b = ch '~' then ch '^'
  else b

/-- `toIrcLowerCase`. -/
def toIrcLowerCase (text : Str) : Str := text.map toIrcLower

namespace Server

/-! ## Objects behind pointers -/

/-- The object at an address. -/
def client (s : Server) (p : Ptr) : Client := (s.heap p).getD default

/-- Change the object at an address. -/
def modify (s : Server) (p : Ptr) (f : Client → Client) : Server :=
  { s with heap := Function.update s.heap p ((s.heap p).map f) }

/-- `getNickname` through a pointer. -/
def nickname (s : Server) (p : Ptr) : Str := (s.client p).nickname

/-- `getUsername` through a pointer. -/
def username (s : Server) (p : Ptr) : Str := (s.client p).username

/-- `sendMessage` through a pointer. -/
def sendMessage (s : Server) (p : Ptr) (message : Str) : Server :=
  s.modify p (·.sendMessage message)

/-- `sendMessage` to each of a list of recipients, in order. -/
def sendAll (s : Server) (recipients : List Ptr) (message : Str) : Server :=
  recipients.foldl (fun s p => s.sendMessage p message) s

/-- `Channel::broadcastMessage`. -/
def broadcastMessage (s : Server) (channel : Channel) (message : Str) (sender : Option Ptr) :
    Server :=
  s.sendAll (channel.members.filter fun p => some p != sender) message

/-! ## Lookups -/

/-- `getClientByFd`. -/
def getClientByFd (s : Server) (fd : Fd) : Option Ptr := s.clients.find? fd

/-- `countClientsFromIp`. -/
def countClientsFromIp (s : Server) (ip : Str) : ℕ :=
  if ip.isEmpty then 0
  else s.clients.entries.countP fun e => !(s.client e.2).dead && (s.client e.2).ip == ip

/-- `findClientByNick`: the first client that is not dead and has the nickname. -/
def findClientByNick (s : Server) (nickname : Str) : Option Ptr :=
  if nickname.isEmpty then none
  else
    (s.clients.entries.find? fun e =>
      !(s.client e.2).dead
        && toIrcLowerCase (s.client e.2).nickname == toIrcLowerCase nickname).map Prod.snd

/-- `findChannel`. -/
def findChannel (s : Server) (name : Str) : Option Channel := s.channels.find? name

/-- Change the channel stored under a name. -/
def modifyChannel (s : Server) (name : Str) (f : Channel → Channel) : Server :=
  { s with channels := s.channels.modify name f }

/-- `createChannel`. -/
def createChannel (s : Server) (name : Str) : Server :=
  match s.findChannel name with
  | some _ => s
  | none => { s with channels := s.channels.insert name { name } }

/-- `removeChannel`. -/
def removeChannel (s : Server) (name : Str) : Server :=
  { s with channels := s.channels.erase name }

/-! ## Recipients over all channels -/

/-- Append the members that are not yet among the recipients. -/
def collect (recipients members : List Ptr) : List Ptr :=
  members.foldl (fun rs p => if p ∈ rs then rs else rs ++ [p]) recipients

/-- The recipients `broadcastNicknameChange` computes: the client and everybody on one of
its channels. -/
def nickRecipients (s : Server) (p : Ptr) : List Ptr :=
  s.channels.entries.foldl
    (fun rs e => if e.2.isMember p then collect rs e.2.members else rs) [p]

/-- The recipients `disconnectClient` computes: everybody else on one of the client's
channels. -/
def quitRecipients (s : Server) (p : Ptr) : List Ptr :=
  s.channels.entries.foldl
    (fun rs e => if e.2.isMember p then collect rs (e.2.members.filter (· != p)) else rs) []

/-- `broadcastNicknameChange`. -/
def broadcastNicknameChange (s : Server) (p : Ptr) (oldNickname newNickname : Str) : Server :=
  if oldNickname.isEmpty || newNickname.isEmpty then s
  else
    s.sendAll (s.nickRecipients p)
      (lit ":" ++ oldNickname ++ lit "!" ++ s.username p ++ lit "@localhost NICK :"
        ++ newNickname ++ lit "\r\n")

/-- What the nickname lookup finds. -/
theorem findClientByNick_eq_some {s : Server} {n : Str} {p : Ptr}
    (h : s.findClientByNick n = some p) :
    n ≠ [] ∧ (s.client p).dead = false
      ∧ toIrcLowerCase (s.client p).nickname = toIrcLowerCase n
      ∧ ∃ fd, s.clients.find? fd = some p := by
  unfold findClientByNick at h
  split_ifs at h with hempty
  obtain ⟨⟨fd, q⟩, hfind, rfl⟩ := Option.map_eq_some_iff.mp h
  have hmem := List.mem_of_find?_eq_some hfind
  have htest := List.find?_some hfind
  simp only [Bool.and_eq_true, Bool.not_eq_eq_eq_not, Bool.not_true, beq_iff_eq] at htest
  exact ⟨fun hn => hempty (by rw [hn]; rfl), htest.1, htest.2, fd, OrdMap.find?_eq_some.mpr hmem⟩

/-- The nickname lookup fails when no client that is not dead has the nickname. -/
theorem findClientByNick_eq_none {s : Server} {n : Str} (hn : n ≠ []) :
    s.findClientByNick n = none ↔ ∀ fd p, s.clients.find? fd = some p →
      (s.client p).dead = false → toIrcLowerCase (s.client p).nickname ≠ toIrcLowerCase n := by
  have hempty : ¬ n.isEmpty = true := fun h => hn (List.isEmpty_iff.mp h)
  unfold findClientByNick
  rw [if_neg hempty, Option.map_eq_none_iff, List.find?_eq_none]
  simp only [OrdMap.find?_eq_some, Prod.forall, Bool.and_eq_true, Bool.not_eq_eq_eq_not,
    Bool.not_true, beq_iff_eq, not_and, ne_eq]

/-! ## Channels after a change -/

/-- One channel is replaced, the others stay. -/
theorem findChannel_modifyChannel {s : Server} {name : Str} {ch : Channel}
    (h : s.findChannel name = some ch) (ch' : Channel) (n : Str) :
    (s.modifyChannel name fun _ => ch').findChannel n
      = if n = name then some ch' else s.findChannel n := by
  rw [findChannel, modifyChannel, OrdMap.find?_modify]
  split_ifs with hn
  · rw [hn, ← findChannel, h, Option.map_some]
  · rfl

theorem findChannel_removeChannel (s : Server) (name n : Str) :
    (s.removeChannel name).findChannel n = if n = name then none else s.findChannel n := by
  rw [findChannel, removeChannel, OrdMap.find?_erase]
  split_ifs <;> rfl

/-! ## The heap under the operations -/

section Heap

variable (s : Server) (p q : Ptr) (f : Client → Client) (message : Str)

@[simp] theorem password_modify : (s.modify p f).password = s.password := rfl
@[simp] theorem listenFd_modify : (s.modify p f).listenFd = s.listenFd := rfl
@[simp] theorem pollFds_modify : (s.modify p f).pollFds = s.pollFds := rfl
@[simp] theorem clients_modify : (s.modify p f).clients = s.clients := rfl
@[simp] theorem channels_modify : (s.modify p f).channels = s.channels := rfl

theorem heap_modify :
    (s.modify p f).heap q = if q = p then (s.heap p).map f else s.heap q := by
  simp only [modify, Function.update_apply]

@[simp] theorem heap_modify_self : (s.modify p f).heap p = (s.heap p).map f := by
  rw [heap_modify, if_pos rfl]

variable {p q} in
theorem heap_modify_ne (h : q ≠ p) : (s.modify p f).heap q = s.heap q := by
  rw [heap_modify, if_neg h]

/-- A pointer is valid after a change exactly when it was before. -/
@[simp] theorem isSome_heap_modify : ((s.modify p f).heap q).isSome = (s.heap q).isSome := by
  rw [heap_modify]
  split_ifs with h
  · rw [Option.isSome_map, h]
  · rfl

variable {s p} in
theorem client_of_heap {x : Client} (h : s.heap p = some x) : s.client p = x := by
  rw [client, h]
  rfl

variable {s p} in
theorem client_modify_self {x : Client} (h : s.heap p = some x) :
    (s.modify p f).client p = f x := by
  rw [client, heap_modify_self, h]
  rfl

variable {p q} in
theorem client_modify_ne (h : q ≠ p) : (s.modify p f).client q = s.client q := by
  rw [client, heap_modify_ne s f h]
  rfl

/-- What a change keeps of every object, it keeps behind every pointer. -/
theorem client_modify_field {β : Type} (g : Client → β) (h : ∀ x, g (f x) = g x) :
    g ((s.modify p f).client q) = g (s.client q) := by
  rw [client, heap_modify]
  split_ifs with hq
  · subst hq
    cases hx : s.heap q with
    | none => simp [client, hx]
    | some x => simp [client, hx, h]
  · rfl

theorem modify_modify (g : Client → Client) :
    (s.modify p f).modify p g = s.modify p fun x => g (f x) := by
  simp only [modify, Function.update_self, Function.update_idem, Option.map_map]
  rfl

variable {s p f} in
theorem modify_congr {x : Client} {g : Client → Client} (h : s.heap p = some x)
    (hfg : f x = g x) : s.modify p f = s.modify p g := by
  simp only [modify, h, Option.map_some, hfg]

variable {s p} in
/-- A change depends on the object that is there. -/
theorem modify_eq {x : Client} (h : s.heap p = some x) : s.modify p f = s.modify p fun _ => f x :=
  modify_congr h rfl

variable {s p f} in
theorem modify_id {x : Client} (h : s.heap p = some x) (hf : f x = x) : s.modify p f = s := by
  have hheap : Function.update s.heap p ((s.heap p).map f) = s.heap := by
    rw [h, Option.map_some, hf, ← h, Function.update_eq_self]
  simp only [modify, hheap]

end Heap

/-! ## What sending leaves alone -/

section Sending

variable (s : Server) (p q : Ptr) (ps : List Ptr) (message : Str)

@[simp] theorem password_sendMessage : (s.sendMessage p message).password = s.password := rfl
@[simp] theorem listenFd_sendMessage : (s.sendMessage p message).listenFd = s.listenFd := rfl
@[simp] theorem pollFds_sendMessage : (s.sendMessage p message).pollFds = s.pollFds := rfl
@[simp] theorem clients_sendMessage : (s.sendMessage p message).clients = s.clients := rfl
@[simp] theorem channels_sendMessage : (s.sendMessage p message).channels = s.channels := rfl

@[simp] theorem isSome_heap_sendMessage :
    ((s.sendMessage p message).heap q).isSome = (s.heap q).isSome :=
  isSome_heap_modify ..

/-- A property of the server that every `sendMessage` preserves, `sendAll` preserves. -/
theorem sendAll_induct {P : Server → Prop} (hs : P s)
    (step : ∀ s p, P s → P (s.sendMessage p message)) : P (s.sendAll ps message) := by
  unfold sendAll
  induction ps generalizing s with
  | nil => exact hs
  | cons p ps ih => exact ih _ (step s p hs)

/-- Sending changes nobody's identity. -/
@[simp] theorem identity_sendMessage :
    ((s.sendMessage p message).client q).identity = (s.client q).identity :=
  client_modify_field s p q _ Client.identity fun x => Client.identity_sendMessage x message

@[simp] theorem nickname_sendMessage : (s.sendMessage p message).nickname q = s.nickname q :=
  congrArg Client.Identity.nickname (identity_sendMessage s p q message)

@[simp] theorem username_sendMessage : (s.sendMessage p message).username q = s.username q :=
  congrArg Client.Identity.username (identity_sendMessage s p q message)

variable {s p} in
/-- The dead stay dead. -/
theorem dead_sendMessage (h : (s.client p).dead = true) :
    ((s.sendMessage q message).client p).dead = true := by
  by_cases hp : p = q
  · subst hp
    cases hx : s.heap p with
    | none =>
      rw [client, hx] at h
      exact absurd h (by decide)
    | some x =>
      rw [client_of_heap hx] at h
      rw [sendMessage, client_modify_self _ hx]
      exact Client.dead_sendMessage x message h
  · rw [sendMessage, client_modify_ne _ _ hp, h]

@[simp] theorem password_sendAll : (s.sendAll ps message).password = s.password :=
  sendAll_induct s ps message (P := fun t => t.password = s.password) rfl fun _ _ h => h

@[simp] theorem pollFds_sendAll : (s.sendAll ps message).pollFds = s.pollFds :=
  sendAll_induct s ps message (P := fun t => t.pollFds = s.pollFds) rfl fun _ _ h => h

@[simp] theorem clients_sendAll : (s.sendAll ps message).clients = s.clients :=
  sendAll_induct s ps message (P := fun t => t.clients = s.clients) rfl fun _ _ h => h

@[simp] theorem channels_sendAll : (s.sendAll ps message).channels = s.channels :=
  sendAll_induct s ps message (P := fun t => t.channels = s.channels) rfl fun _ _ h => h

@[simp] theorem channels_broadcastMessage (channel : Channel) (sender : Option Ptr) :
    (s.broadcastMessage channel message sender).channels = s.channels := channels_sendAll ..

@[simp] theorem isSome_heap_sendAll :
    ((s.sendAll ps message).heap q).isSome = (s.heap q).isSome :=
  sendAll_induct s ps message (P := fun t => (t.heap q).isSome = (s.heap q).isSome) rfl
    fun t p h => (isSome_heap_sendMessage t p q message).trans h

@[simp] theorem identity_sendAll :
    ((s.sendAll ps message).client q).identity = (s.client q).identity :=
  sendAll_induct s ps message (P := fun t => (t.client q).identity = (s.client q).identity) rfl
    fun t p h => (identity_sendMessage t p q message).trans h

@[simp] theorem nickname_sendAll : (s.sendAll ps message).nickname q = s.nickname q :=
  congrArg Client.Identity.nickname (identity_sendAll s q ps message)

@[simp] theorem username_sendAll : (s.sendAll ps message).username q = s.username q :=
  congrArg Client.Identity.username (identity_sendAll s q ps message)

variable {s p} in
theorem dead_sendAll (h : (s.client p).dead = true) :
    ((s.sendAll ps message).client p).dead = true :=
  sendAll_induct s ps message (P := fun t => (t.client p).dead = true) h
    fun _ q ht => dead_sendMessage q message ht

end Sending

end Server

end FtIrc
