import FtIrc.Admission
import FtIrc.Delivery
import FtIrc.OutputStream

/-!
# The names a new member is told

JOIN answers with the names of the members, all in one 353 line. `namesOf` reads the names back from
a line, so that what the joiner has been told can be compared with the members whatever the number
of lines: a line that is too long is refused, and then nobody is named.
-/

namespace FtIrc

open Bytes

/-- The complete lines that have come to the send buffer between two states of a client. -/
def linesAppended (x y : Client) : List Str := records lf (y.sendBuffer.drop x.sendBuffer.length)

/-- The lines that have come are the valid messages. -/
theorem linesAppended_of_room {x y : Client} {messages : List Str}
    (h : y.sendBuffer = x.sendBuffer ++ (messages.filter isValidOutboundMessage).flatten) :
    linesAppended x y = messages.filter isValidOutboundMessage := by
  rw [linesAppended, h, List.drop_left]
  exact (records_flatten fun m hm =>
    Client.record_of_isValidOutboundMessage (List.mem_filter.mp hm).2).1

namespace JoinCommand

/-! ## The answers to a JOIN -/

/-- The channel as the joiner finds it. -/
def joined (s : Server) (client : Ptr) (name : Str) : Channel :=
  match s.findChannel name with
  | none => Channel.founded name client
  | some channel => (channel.addMember client).removeInvited client

/-- What a 353 line has in front of the names. -/
def namesHeader (s : Server) (client : Ptr) (name : Str) : Str :=
  lit ":server 353 " ++ s.nickname client ++ lit " = " ++ name ++ lit " :"

/-- The 366 line. -/
def endLine (s : Server) (client : Ptr) (name : Str) : Str :=
  lit ":server 366 " ++ s.nickname client ++ lit " " ++ name ++ lit " :End of /NAMES list\r\n"

/-- What the joiner is told in front of the names. -/
def greetings (s : Server) (client : Ptr) (channel : Channel) (name : Str) (isNewChannel : Bool) :
    List Str :=
  [userPrefix s client ++ lit " JOIN :" ++ name ++ lit "\r\n"]
  ++ (if isNewChannel then [lit ":server MODE " ++ name ++ lit " +t\r\n"] else [])
  ++ (if !channel.topic.isEmpty then
      [lit ":server 332 " ++ s.nickname client ++ lit " " ++ name ++ lit " :" ++ channel.topic
        ++ lit "\r\n"] else [])

/-- What the joiner is told, in this order. -/
def joinMessages (s : Server) (client : Ptr) (channel : Channel) (name : Str) (isNewChannel : Bool) :
    List Str :=
  greetings s client channel name isNewChannel
  ++ [namesHeader s client name ++ namesList s channel ++ lit "\r\n", endLine s client name]

/-- The entry of a member in the list of names. -/
def namesEntry (s : Server) (channel : Channel) (p : Ptr) : Str :=
  (if channel.isOperator p then lit "@" else []) ++ s.nickname p

/-- The names in a line, if it is a 353 line for this client and channel. -/
def namesOf (s : Server) (client : Ptr) (name text : Str) : List Str :=
  if namesHeader s client name <+: text then
    fields sp ((text.drop (namesHeader s client name).length).take
      (text.length - (namesHeader s client name).length - 2))
  else []

/-- The lines tell the client who is on the channel: each member once, operators marked, and the end
of the list behind. -/
structure TellsRoster (s : Server) (client : Ptr) (channel : Channel) (name : Str)
    (lines : List Str) : Prop where
  names : (lines.flatMap (namesOf s client name)).Perm (channel.members.map (namesEntry s channel))
  last : lines.getLast? = some (endLine s client name)

/-- The room the names take, each with what separates it from the next. -/
def rosterLength (s : Server) (channel : Channel) : ℕ :=
  (channel.members.map fun p =>
    (s.nickname p).length + (if p ∈ channel.operators then 1 else 0) + 1).sum

/-- All that the joiner is told comes one after the other. -/
theorem announce_eq (s : Server) (c : Ptr) (ch : Channel) (name : Str) (isNew : Bool) :
    announce s c ch name isNew = (joinMessages s c ch name isNew).foldl (·.sendMessage c)
      (s.broadcastMessage ch (userPrefix s c ++ lit " JOIN :" ++ name ++ lit "\r\n") (some c)) := by
  have hnames : ∀ t : Server, (∀ p, t.nickname p = s.nickname p) → namesList t ch = namesList s ch := by
    intro t ht
    simp only [namesList, ht]
  have hbroadcast : ∀ text p, (s.broadcastMessage ch text (some c)).nickname p = s.nickname p :=
    fun text p => Server.nickname_sendAll ..
  unfold announce joinMessages greetings namesHeader endLine
  dsimp only
  cases isNew <;> cases htopic : ch.topic.isEmpty <;>
    simp [hbroadcast, hnames]

/-- An announcement changes nothing. -/
theorem onlySends_announce (s : Server) (c : Ptr) (ch : Channel) (name : Str) (isNew : Bool) :
    s.OnlySends (announce s c ch name isNew) := by
  have hfold : ∀ (messages : List Str) (t : Server), s.OnlySends t →
      s.OnlySends (messages.foldl (·.sendMessage c) t) := by
    intro messages
    induction messages with
    | nil => exact fun _ ht => ht
    | cons message messages ih => exact fun t ht => ih _ (ht.trans (.sendMessage t c message))
  rw [announce_eq]
  exact hfold _ _ (.sendAll ..)

/-- What the announcement makes of the joiner. -/
theorem heap_announce {s : Server} {c : Ptr} {y : Client} (hy : s.heap c = some y) (ch : Channel)
    (name : Str) (isNew : Bool) :
    (announce s c ch name isNew).heap c
      = some ((joinMessages s c ch name isNew).foldl Client.sendMessage y) := by
  have hfold : ∀ (messages : List Str) (t : Server) (w : Client), t.heap c = some w →
      (messages.foldl (·.sendMessage c) t).heap c = some (messages.foldl Client.sendMessage w) := by
    intro messages
    induction messages with
    | nil => exact fun _ _ hw => hw
    | cons message messages ih =>
      intro t w hw
      apply ih
      show (t.sendMessage c message).heap c = _
      rw [Server.sendMessage, Server.heap_modify_self, hw, Option.map_some]
  rw [announce_eq]
  apply hfold
  rw [Server.broadcastMessage, Server.heap_sendAll_of_not_mem (by simp), hy]

/-! ## Reading the names back -/

section Reading

variable {s : Server} {c : Ptr} {ch : Channel} {name : Str}
  (hnicks : ∀ p ∈ ch.members, NickCommand.isValidNickname (s.nickname p) = true)
include hnicks

theorem namesEntry_of_mem {p : Ptr} (hp : p ∈ ch.members) :
    namesEntry s ch p ≠ [] ∧ sp ∉ namesEntry s ch p := by
  have hvalid := hnicks p hp
  obtain ⟨hsp, _⟩ := not_mem_of_isValidNickname hvalid
  have hne := ne_nil_of_isValidNickname hvalid
  unfold namesEntry
  split_ifs
  · refine ⟨List.append_ne_nil_of_right_ne_nil _ hne, fun hmem => ?_⟩
    exact (List.mem_append.mp hmem).elim (fun h => absurd h (by decide)) hsp
  · exact ⟨hne, hsp⟩

/-- The names are the words of the list. -/
theorem fields_namesList : fields sp (namesList s ch) = ch.members.map (namesEntry s ch) := by
  have hwords : ∀ word ∈ ch.members.map (namesEntry s ch), word ≠ [] ∧ sp ∉ word := by
    intro word hword
    obtain ⟨p, hp, rfl⟩ := List.mem_map.mp hword
    exact namesEntry_of_mem hnicks hp
  have hblank : lit " " = [sp] := rfl
  rw [namesList, hblank]
  refine (fields_intercalate fun word hword => (hwords word hword).2).trans ?_
  refine List.filter_eq_self.mpr fun word hword => ?_
  simpa using (hwords word hword).1

end Reading

theorem length_namesList (s : Server) {ch : Channel} (hmembers : ch.members ≠ []) :
    (namesList s ch).length + 1 = rosterLength s ch := by
  have hwords : ∀ words : List Str, words ≠ [] →
      (List.intercalate (lit " ") words).length + 1 = (words.map fun w => w.length + 1).sum := by
    intro words hne
    induction words with
    | nil => exact absurd rfl hne
    | cons w words ih =>
      cases words with
      | nil => simp
      | cons v words =>
        have htail := ih (by simp)
        have hblank : (lit " ").length = 1 := rfl
        rw [List.intercalate_cons_cons, List.length_append, List.length_append, List.map_cons,
          List.sum_cons, ← htail, hblank]
        omega
  rw [namesList, hwords _ (by simpa using hmembers), rosterLength, List.map_map]
  congr 1
  refine List.map_congr_left fun p _ => ?_
  have hat : (lit "@").length = 1 := rfl
  by_cases hop : p ∈ ch.operators
  · simp [Channel.isOperator, hop, hat]
    omega
  · simp [Channel.isOperator, hop]

section Lines

variable {s : Server} {c : Ptr} {name : Str}

theorem namesOf_of_not_names {text : Str} (h : ¬ lit ":server 353 " <+: text) :
    namesOf s c name text = [] := by
  refine if_neg fun hheader => h (List.IsPrefix.trans ?_ hheader)
  simp only [namesHeader, List.append_assoc]
  exact List.prefix_append _ _

theorem namesOf_reply (head : String) (hlen : 12 ≤ (lit head).length)
    (hhead : ¬ lit ":server 353 " <+: lit head) (rest : Str) :
    namesOf s c name (lit head ++ rest) = [] :=
  namesOf_of_not_names fun h =>
    hhead (List.prefix_of_prefix_length_le h (List.prefix_append _ _) (by exact hlen))

theorem namesOf_namesLine (list : Str) :
    namesOf s c name (namesHeader s c name ++ list ++ lit "\r\n") = fields sp list := by
  have hend : (lit "\r\n").length = 2 := rfl
  have hlen : (namesHeader s c name ++ list ++ lit "\r\n").length - (namesHeader s c name).length - 2
      = list.length := by
    simp only [List.length_append, hend]
    omega
  rw [namesOf, hlen, List.append_assoc, if_pos (List.prefix_append _ _), List.drop_left, List.take_left]

/-- What comes in front of the names is no list of names. -/
theorem namesOf_greetings (hvalid : NickCommand.isValidNickname (s.nickname c) = true) (ch : Channel)
    (isNew : Bool) : ∀ m ∈ greetings s c ch name isNew, namesOf s c name m = [] := by
  have hjoin : namesOf s c name (userPrefix s c ++ lit " JOIN :" ++ name ++ lit "\r\n") = [] := by
    refine namesOf_of_not_names fun h => ?_
    exact ((((fromUser_userPrefix s c).append _).append _).append _).not_server hvalid
      (List.IsPrefix.trans (by decide) h)
  have hmode : namesOf s c name (lit ":server MODE " ++ (name ++ lit " +t\r\n")) = [] :=
    namesOf_reply ":server MODE " (by decide) (by decide) _
  have htopic : namesOf s c name (lit ":server 332 "
      ++ (s.nickname c ++ lit " " ++ name ++ lit " :" ++ ch.topic ++ lit "\r\n")) = [] :=
    namesOf_reply ":server 332 " (by decide) (by decide) _
  intro m hm
  simp only [greetings, List.mem_append, List.mem_singleton] at hm
  rcases hm with (rfl | hm) | hm
  · exact hjoin
  · split_ifs at hm
    · rw [List.mem_singleton.mp hm, List.append_assoc]
      exact hmode
    · exact absurd hm List.not_mem_nil
  · split_ifs at hm
    · rw [List.mem_singleton.mp hm]
      simpa only [List.append_assoc] using htopic
    · exact absurd hm List.not_mem_nil

end Lines

theorem isValid_endLine {s : Server} {c : Ptr} {name : Str} (hnick : Short 9 (s.nickname c))
    (hname : Short 50 name) : isValidOutboundMessage (endLine s c name) = true := by
  have hlenNick := hnick.length_le
  have hlenName := hname.length_le
  have hlit : (lit ":server 366 ").length + (lit " ").length
      + (lit " :End of /NAMES list\r\n").length = 35 := by decide
  rw [endLine, isValidOutboundMessage_append (by simp +decide [hnick.clean, hname.clean]) (by decide)]
  simp only [List.length_append, maxIrcMessageSize]
  omega

/-- All the names go into one line, so its length is what decides. -/
theorem isValid_namesLine_iff {s : Server} {c : Ptr} {ch : Channel} {name : Str}
    (hname : Short 50 name) (hc : c ∈ ch.members)
    (hnicks : ∀ p ∈ ch.members, NickCommand.isValidNickname (s.nickname p) = true) :
    isValidOutboundMessage (namesHeader s c name ++ namesList s ch ++ lit "\r\n") = true
      ↔ (s.nickname c).length + name.length + rosterLength s ch + 18 ≤ 512 := by
  have hclean : Clean (namesHeader s c name ++ namesList s ch) := by
    have hnick := (short_of_isValidNickname (hnicks c hc)).clean
    have hlist := clean_namesList fun p hp => (short_of_isValidNickname (hnicks p hp)).clean
    simp +decide [namesHeader, hnick, hname.clean, hlist]
  have hlit : (lit ":server 353 ").length + (lit " = ").length + (lit " :").length
      + (lit "\r\n").length = 19 := by decide
  -- the roster counts a blank behind each name, the list has none behind the last
  have hlist := length_namesList s (List.ne_nil_of_mem hc)
  rw [isValidOutboundMessage_append hclean (by decide)]
  simp only [namesHeader, List.length_append, maxIrcMessageSize]
  omega

/-- What is read from the lines that come of an announcement. -/
theorem tellsRoster_iff {s : Server} {c : Ptr} {ch : Channel} {name : Str} (hname : Short 50 name)
    (hc : c ∈ ch.members)
    (hnicks : ∀ p ∈ ch.members, NickCommand.isValidNickname (s.nickname p) = true) (isNew : Bool) :
    TellsRoster s c ch name ((joinMessages s c ch name isNew).filter isValidOutboundMessage)
      ↔ (s.nickname c).length + name.length + rosterLength s ch + 18 ≤ 512 := by
  have hmembers : ch.members ≠ [] := List.ne_nil_of_mem hc
  have hend : isValidOutboundMessage (endLine s c name) = true :=
    isValid_endLine (short_of_isValidNickname (hnicks c hc)) hname
  have hgreetings : ((greetings s c ch name isNew).filter isValidOutboundMessage).flatMap
      (namesOf s c name) = [] := by
    refine List.flatMap_eq_nil_iff.mpr fun m hm => ?_
    exact namesOf_greetings (hnicks c hc) ch isNew m (List.mem_filter.mp hm).1
  have hnobody : namesOf s c name (endLine s c name) = [] := by
    simp only [endLine, List.append_assoc]
    exact namesOf_reply ":server 366 " (by decide) (by decide) _
  rw [← isValid_namesLine_iff hname hc hnicks, joinMessages, List.filter_append]
  cases hvalid : isValidOutboundMessage (namesHeader s c name ++ namesList s ch ++ lit "\r\n") with
  | true =>
    rw [List.filter_cons_of_pos hvalid, List.filter_cons_of_pos hend, List.filter_nil]
    refine iff_of_true ⟨?_, by simp⟩ rfl
    rw [List.flatMap_append, hgreetings, List.nil_append, List.flatMap_cons, List.flatMap_cons,
      List.flatMap_nil, namesOf_namesLine, fields_namesList hnicks, hnobody, List.append_nil,
      List.append_nil]
  | false =>
    rw [List.filter_cons_of_neg (by rw [hvalid]; decide), List.filter_cons_of_pos hend, List.filter_nil]
    -- without its line the joiner is told of nobody, and yet it is a member itself
    refine iff_of_false (fun htells => hmembers ?_) (by decide)
    have hnone := htells.names
    rw [List.flatMap_append, hgreetings, List.nil_append, List.flatMap_cons, List.flatMap_nil, hnobody,
      List.append_nil] at hnone
    simpa using hnone.symm.eq_nil

/-- Only the nicknames matter. -/
theorem tellsRoster_congr {s t : Server} (h : ∀ p, t.nickname p = s.nickname p) (c : Ptr)
    (ch : Channel) (name : Str) (lines : List Str) :
    TellsRoster t c ch name lines ↔ TellsRoster s c ch name lines := by
  have hheader : namesHeader t c name = namesHeader s c name := by simp only [namesHeader, h]
  have hend : endLine t c name = endLine s c name := by simp only [endLine, h]
  have hof : namesOf t c name = namesOf s c name := by
    funext text
    rw [namesOf, namesOf, hheader]
  have hentry : namesEntry t ch = namesEntry s ch := by
    funext p
    rw [namesEntry, namesEntry, h]
  constructor <;> rintro ⟨hnames, hlast⟩ <;> constructor
  · rwa [← hof, ← hentry]
  · rwa [← hend]
  · rwa [hof, hentry]
  · rwa [hend]

/-- The end of a turn that lets a client in. -/
theorem Outcome.announced {s t : Server} {c : Ptr} {name key : Str} (h : Outcome s c name key t)
    (hout : ¬ s.IsMember c name) (hin : t.IsMember c name) :
    isValidChannelName name = true ∧ c ∈ (joined s c name).members
    ∧ ∃ channels, channels.find? name = some (joined s c name)
      ∧ t = announce { s with channels := channels } c (joined s c name) name
          (s.findChannel name).isNone := by
  unfold joined
  cases h with
  | already hch hmem => exact absurd ⟨_, hch, hmem⟩ hout
  | refused => exact absurd hin hout
  | founded hvalid hnew =>
    rw [hnew]
    exact ⟨hvalid, List.mem_singleton_self c, s.channels.insert name (Channel.founded name c),
      OrdMap.find?_insert_self .., rfl⟩
  | @entered ch hvalid hch hnot hlets =>
    rw [hch]
    refine ⟨hvalid, ?_, s.channels.modify name fun _ => (ch.addMember c).removeInvited c, ?_, rfl⟩
    · show c ∈ (ch.addMember c).members
      rw [Channel.addMember_of_not_mem _ hnot]
      exact List.mem_append_right _ (List.mem_singleton_self c)
    · rw [OrdMap.find?_modify_self, ← Server.findChannel, hch, Option.map_some]

/-- Who is on the channel then was on it before, or is the joiner. -/
theorem mem_joined {s : Server} {c p : Ptr} {name : Str} (h : p ∈ (joined s c name).members) :
    p = c ∨ s.IsMember p name := by
  unfold joined at h
  cases hch : s.findChannel name with
  | none =>
    rw [hch] at h
    exact Or.inl (List.mem_singleton.mp h)
  | some ch =>
    rw [hch] at h
    have hadd : p ∈ (ch.addMember c).members := h
    by_cases hc : ch.isMember c = true
    · rw [Channel.addMember, if_neg (by simp [hc])] at hadd
      exact Or.inr ⟨ch, hch, hadd⟩
    · rw [Channel.addMember_of_not_mem _ (by simpa using hc)] at hadd
      rcases List.mem_append.mp hadd with hp | hp
      · exact Or.inr ⟨ch, hch, hp⟩
      · exact Or.inl (List.mem_singleton.mp hp)

end JoinCommand

/-- A client that JOIN lets in, and that is live and has room for what is sent to it, is told all the
members exactly if the names fit on one line. -/
theorem joiner_gets_roster {s : Server} {c : Ptr} {x : Client} (hx : s.heap c = some x)
    (hlive : x.stopped = false) {name key : Str} (hname : Clean name)
    (hnicks : ∀ p, p = c ∨ s.IsMember p name → NickCommand.isValidNickname (s.nickname p) = true)
    (hout : ¬ s.IsMember c name) (hin : (JoinCommand.joinOne s c name key).IsMember c name)
    (hroom : x.sendBuffer.length + ((JoinCommand.joinMessages s c (JoinCommand.joined s c name) name
      (s.findChannel name).isNone).filter isValidOutboundMessage).flatten.length ≤ 65536) :
    ∃ y ch, (JoinCommand.joinOne s c name key).heap c = some y
      ∧ (JoinCommand.joinOne s c name key).findChannel name = some ch
      ∧ (JoinCommand.TellsRoster (JoinCommand.joinOne s c name key) c ch name (linesAppended x y)
        ↔ (s.nickname c).length + name.length
            + JoinCommand.rosterLength s (JoinCommand.joined s c name) + 18 ≤ 512) := by
  have houtcome := JoinCommand.joinOne_outcome s c name key
  obtain ⟨hvalid, hc, channels, hch, hannounced⟩ := houtcome.announced hout hin
  have hshort : Short 50 name := ⟨hname, length_le_of_isValidChannelName hvalid⟩
  have hsends := JoinCommand.onlySends_announce { s with channels := channels } c
    (JoinCommand.joined s c name) name (s.findChannel name).isNone
  have hnicknames : ∀ p, (JoinCommand.joinOne s c name key).nickname p = s.nickname p := by
    intro p
    rw [hannounced]
    exact hsends.nickname p
  refine ⟨(JoinCommand.joinMessages s c (JoinCommand.joined s c name) name
    (s.findChannel name).isNone).foldl Client.sendMessage x, JoinCommand.joined s c name, ?_, ?_, ?_⟩
  · rw [hannounced]
    exact JoinCommand.heap_announce (s := { s with channels := channels }) hx _ name _
  · rw [hannounced, hsends.findChannel]
    exact hch
  · rw [JoinCommand.tellsRoster_congr hnicknames,
      linesAppended_of_room (Client.sendMessages_of_room hlive hroom).2]
    exact JoinCommand.tellsRoster_iff hshort hc (fun p hp => hnicks p (JoinCommand.mem_joined hp)) _

/-- The nicknames on a channel are valid in every reachable state. -/
theorem Reachable.nicknames_valid {s : Server} (h : Reachable s) {c : Ptr} {x : Client}
    (hx : s.heap c = some x) (hreg : x.isRegistered = true) (name : Str) :
    ∀ p, p = c ∨ s.IsMember p name → NickCommand.isValidNickname (s.nickname p) = true := by
  rintro p (rfl | hmem)
  · rw [Server.nickname, Server.client_of_heap hx]
    exact h.isValidNickname hx hreg
  · obtain ⟨y, hy, hreg'⟩ := h.member_registered hmem
    rw [Server.nickname, Server.client_of_heap hy]
    exact h.isValidNickname hy hreg'

/-- The third client of the locked sample joins. -/
theorem joiner_gets_roster_sample :
    ∃ y ch, (JoinCommand.joinOne locked 2 (lit "#c") (lit "k:1")).heap 2 = some y
      ∧ ch.members.map (JoinCommand.namesEntry locked ch) = [lit "@ann", lit "bob", lit "cal"]
      ∧ JoinCommand.TellsRoster (JoinCommand.joinOne locked 2 (lit "#c") (lit "k:1")) 2 ch (lit "#c")
        (linesAppended (locked.client 2) y) := by
  obtain ⟨hcal, hout, hin, hroom, hshort, hentries⟩ :
      (locked.heap 2).map (fun x => (x.isRegistered, x.stopped)) = some (true, false)
      ∧ ¬ locked.IsMember 2 (lit "#c")
      ∧ (JoinCommand.joinOne locked 2 (lit "#c") (lit "k:1")).IsMember 2 (lit "#c")
      ∧ (locked.client 2).sendBuffer.length + ((JoinCommand.joinMessages locked 2
          (JoinCommand.joined locked 2 (lit "#c")) (lit "#c")
          (locked.findChannel (lit "#c")).isNone).filter isValidOutboundMessage).flatten.length ≤ 65536
      ∧ (locked.nickname 2).length + (lit "#c").length
          + JoinCommand.rosterLength locked (JoinCommand.joined locked 2 (lit "#c")) + 18 ≤ 512
      ∧ ((JoinCommand.joinOne locked 2 (lit "#c") (lit "k:1")).findChannel (lit "#c")).map
          (fun ch => ch.members.map (JoinCommand.namesEntry locked ch))
        = some [lit "@ann", lit "bob", lit "cal"] := by
    decide +kernel
  obtain ⟨x, hx, hflags⟩ := Option.map_eq_some_iff.mp hcal
  obtain ⟨hreg, hlive⟩ := Prod.mk.inj hflags
  rw [Server.client_of_heap hx] at hroom ⊢
  obtain ⟨y, ch, hy, hch, htells⟩ := joiner_gets_roster hx hlive (show Clean (lit "#c") by decide)
    (reachable_locked.nicknames_valid hx hreg _) hout hin hroom
  refine ⟨y, ch, hy, ?_, htells.mpr hshort⟩
  rw [hch] at hentries
  exact Option.some_inj.mp hentries

/-! ## A full house -/

/-- One of up to a hundred guests, each with a nickname of nine letters. -/
def guest (i : ℕ) : Client :=
  { fd := 4 + i
    ip := lit "127.0.0.1"
    nickname := lit "guestno" ++ [UInt8.ofNat (97 + i / 10), UInt8.ofNat (97 + i % 10)]
    username := lit "g"
    passOk := true
    nickSet := true
    userSet := true }

/-- All guests but the last are on one channel. -/
def house (n : ℕ) : Channel := { name := lit "#c", members := List.range (n - 1), operators := [0] }

/-- A server with fifty guests. -/
def crowded : Server where
  password := lit "pw"
  listenFd := 3
  pollFds := { fd := 3, pollin := true, pollout := false }
    :: (List.range 50).map fun i => { fd := 4 + i, pollin := true, pollout := false }
  clients := ⟨(List.range 50).map fun i => (4 + i, i), by decide⟩
  channels := OrdMap.empty.insert (lit "#c") (house 50)
  heap p := if p < 50 then some (guest p) else none

theorem crowded_find? {fd : Fd} {p : Ptr} : crowded.clients.find? fd = some p ↔ p < 50 ∧ fd = 4 + p := by
  rw [OrdMap.find?_eq_some]
  show (fd, p) ∈ (List.range 50).map (fun i => (4 + i, i)) ↔ _
  simp only [List.mem_map, List.mem_range, Prod.mk.injEq]
  constructor
  · rintro ⟨i, hi, rfl, rfl⟩
    exact ⟨hi, rfl⟩
  · rintro ⟨hp, rfl⟩
    exact ⟨p, hp, rfl, rfl⟩

theorem crowded_findChannel {name : Str} {ch : Channel} :
    crowded.findChannel name = some ch ↔ name = lit "#c" ∧ ch = house 50 := by
  rw [Server.findChannel, crowded, OrdMap.find?_insert]
  split_ifs with hname
  · simp [hname, eq_comm]
  · simp [hname]

theorem integrity_crowded : crowded.Integrity where
  listening := by
    rw [OrdMap.find?_eq_none]
    intro p hp
    have hfd : (3 : ℕ) = (4 + p : ℕ) := (crowded_find?.mp (OrdMap.find?_eq_some.mpr hp)).2
    omega
  object fd p hfd := by
    obtain ⟨hp, rfl⟩ := crowded_find?.mp hfd
    rw [crowded]
    simp [hp, guest]
  registered p x hx := by
    have hp : p < 50 ∧ guest p = x := by simpa [crowded] using hx
    rw [← hp.2]
    exact crowded_find?.mpr ⟨hp.1, rfl⟩
  polled := by
    have heq : crowded.pollFds.map PollFd.fd = crowded.listenFd :: crowded.clients.keys := by decide
    rw [heq]
  channel name ch hch := by
    obtain ⟨rfl, rfl⟩ := crowded_findChannel.mp hch
    refine ⟨rfl, ⟨List.nodup_range, List.nodup_singleton 0, List.nodup_nil, ?_, ?_⟩, ?_⟩
    · simp [house]
    · simp [house]
    · rintro p (hp | hp | hp)
      · have hp' : p < 49 := by simpa [house] using hp
        simp [Server.Allocated, crowded, lt_trans hp' (show 49 < 50 by decide)]
      · have hp' : p = 0 := by simpa [house] using hp
        simp [Server.Allocated, crowded, hp']
      · exact absurd hp List.not_mem_nil

/-- The last guest joins, and is told of no member. -/
theorem roster_lost :
    crowded.Integrity ∧ crowded.heap 49 = some (guest 49)
      ∧ (∀ p, p = 49 ∨ crowded.IsMember p (lit "#c") →
          NickCommand.isValidNickname (crowded.nickname p) = true)
      ∧ ¬ crowded.IsMember 49 (lit "#c")
      ∧ (JoinCommand.joinOne crowded 49 (lit "#c") []).IsMember 49 (lit "#c")
      ∧ (guest 49).stopped = false ∧ (guest 49).sendBuffer = []
      ∧ ∃ y ch, (JoinCommand.joinOne crowded 49 (lit "#c") []).heap 49 = some y
        ∧ (JoinCommand.joinOne crowded 49 (lit "#c") []).findChannel (lit "#c") = some ch
        ∧ ¬ JoinCommand.TellsRoster (JoinCommand.joinOne crowded 49 (lit "#c") []) 49 ch (lit "#c")
          (linesAppended (guest 49) y) := by
  have hnames : ∀ p < 50, NickCommand.isValidNickname (guest p).nickname = true := by decide +kernel
  have hnicks : ∀ p, p = 49 ∨ crowded.IsMember p (lit "#c") →
      NickCommand.isValidNickname (crowded.nickname p) = true := by
    have hguest : ∀ p < 50, NickCommand.isValidNickname (crowded.nickname p) = true := by
      intro p hp
      rw [Server.nickname, Server.client_of_heap (show crowded.heap p = some (guest p) by simp [crowded, hp])]
      exact hnames p hp
    rintro p (rfl | ⟨ch, hch, hp⟩)
    · exact hguest 49 (by decide)
    · obtain ⟨-, rfl⟩ := crowded_findChannel.mp hch
      have hp' : p < 49 := by simpa [house] using hp
      exact hguest p (lt_trans hp' (by decide))
  have hout : ¬ crowded.IsMember 49 (lit "#c") := by
    rintro ⟨ch, hch, hmem⟩
    obtain ⟨-, rfl⟩ := crowded_findChannel.mp hch
    exact absurd hmem (by simp [house])
  -- the outcome of the turn is known without running it
  have hin : (JoinCommand.joinOne crowded 49 (lit "#c") []).IsMember 49 (lit "#c") := by
    refine (((JoinCommand.joinOne_outcome ..).refused_or_mayJoin hout).resolve_right fun h => h.1 ?_).2
    refine ⟨by decide, fun ch hch => ?_⟩
    obtain ⟨-, rfl⟩ := crowded_findChannel.mp hch
    exact ⟨Or.inl rfl, fun h => absurd h Bool.false_ne_true, Or.inl rfl⟩
  obtain ⟨hroom, hlong⟩ :
      (guest 49).sendBuffer.length + ((JoinCommand.joinMessages crowded 49
          (JoinCommand.joined crowded 49 (lit "#c")) (lit "#c")
          (crowded.findChannel (lit "#c")).isNone).filter isValidOutboundMessage).flatten.length ≤ 65536
      ∧ ¬ (crowded.nickname 49).length + (lit "#c").length
          + JoinCommand.rosterLength crowded (JoinCommand.joined crowded 49 (lit "#c")) + 18 ≤ 512 := by
    decide +kernel
  have hguest : crowded.heap 49 = some (guest 49) := rfl
  have hname : Clean (lit "#c") := by decide
  obtain ⟨y, ch, hy, hch, htells⟩ := joiner_gets_roster hguest rfl hname hnicks hout hin hroom
  exact ⟨integrity_crowded, rfl, hnicks, hout, hin, rfl, rfl, y, ch, hy, hch, fun h => hlong (htells.mp h)⟩

end FtIrc
