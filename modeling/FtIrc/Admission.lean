import FtIrc.Keys

/-!
# Admission to channels

The body of JOIN's loop has four ends: the client is on the channel already, it is refused, it
founds the channel, or it enters it. `Outcome` lists them with what the gates have found, and the
rest is read off there.
-/

namespace FtIrc

open Bytes

namespace JoinCommand

/-- A channel lets a client in that is not on it and offers this key. -/
structure Lets (ch : Channel) (c : Ptr) (key : Str) : Prop where
  key : ch.password = [] ∨ ch.password = key
  invited : ch.inviteOnly = true → c ∈ ch.invitedClients
  room : ch.userLimit = 0 ∨ ch.members.length < ch.userLimit

/-- A client may join: the name is valid, and the channel lets it in if there is one. -/
def MayJoin (s : Server) (c : Ptr) (name key : Str) : Prop :=
  isValidChannelName name = true ∧ ∀ ch, s.findChannel name = some ch → Lets ch c key

/-- The numerics of the gates, in their order, each with its text. -/
def refusals : List (String × String) :=
  [(":server 403 ", " :No such channel\r\n"),
    (":server 475 ", " :Cannot join channel (+k) - bad key\r\n"),
    (":server 473 ", " :Cannot join channel (+i) - you must be invited\r\n"),
    (":server 471 ", " :Cannot join channel (+l) - channel is full\r\n")]

/-- The answer of a gate. -/
def refusal (s : Server) (c : Ptr) (name : Str) (r : String × String) : Str :=
  lit r.1 ++ s.nickname c ++ lit " " ++ name ++ lit r.2

/-- What the body of the loop makes of a name and a key. -/
inductive Outcome (s : Server) (c : Ptr) (name key : Str) : Server → Prop
  | already {ch : Channel} (hch : s.findChannel name = some ch) (hmem : c ∈ ch.members) :
      Outcome s c name key s
  | refused {r : String × String} (hr : r ∈ refusals) (hnot : ¬ MayJoin s c name key) :
      Outcome s c name key (s.sendMessage c (refusal s c name r))
  | founded (hvalid : isValidChannelName name = true) (hnew : s.findChannel name = none) :
      Outcome s c name key
        (announce { s with channels := s.channels.insert name (Channel.founded name c) } c
          (Channel.founded name c) name true)
  | entered {ch : Channel} (hvalid : isValidChannelName name = true)
      (hch : s.findChannel name = some ch) (hout : c ∉ ch.members) (hlets : Lets ch c key) :
      Outcome s c name key
        (announce (s.modifyChannel name fun _ => (ch.addMember c).removeInvited c) c
          ((ch.addMember c).removeInvited c) name false)

theorem joinOne_outcome (s : Server) (c : Ptr) (name key : Str) :
    Outcome s c name key (joinOne s c name key) := by
  unfold joinOne
  dsimp only
  by_cases hvalid : isValidChannelName name = true
  swap
  · rw [if_pos (by simpa using hvalid)]
    exact .refused (r := (":server 403 ", _)) (by decide) fun hmay => hvalid hmay.1
  rw [if_neg (by simpa using hvalid)]
  split
  · next hnew =>
    have hfound : Server.findChannel
        { s with channels := s.channels.insert name (Channel.founded name c) } name
          = some (Channel.founded name c) := OrdMap.find?_insert_self ..
    rw [Effects.create_eq hnew, hfound]
    exact .founded hvalid hnew
  · next ch hch =>
    -- a gate that refuses does not let the client in
    have hrefused : ∀ r ∈ refusals, ¬ Lets ch c key →
        Outcome s c name key (s.sendMessage c (refusal s c name r)) := by
      intro r hr hlets
      exact .refused hr fun hmay => hlets (hmay.2 ch hch)
    by_cases hmem : ch.isMember c = true
    · rw [if_pos hmem]
      exact .already hch ((Channel.isMember_iff _ _).mp hmem)
    rw [if_neg hmem]
    by_cases hpassword : (!ch.password.isEmpty && ch.password != key) = true
    · rw [if_pos hpassword]
      simp only [Bool.and_eq_true, Bool.not_eq_eq_eq_not, Bool.not_true, List.isEmpty_eq_false_iff,
        bne_iff_ne] at hpassword
      apply hrefused (":server 475 ", _) (by decide)
      intro hlets
      exact hlets.key.elim hpassword.1 hpassword.2
    rw [if_neg hpassword]
    by_cases hinvite : (ch.inviteOnly && !ch.isInvited c) = true
    · rw [if_pos hinvite]
      simp only [Bool.and_eq_true, Bool.not_eq_eq_eq_not, Bool.not_true, Channel.isInvited_eq_false]
        at hinvite
      apply hrefused (":server 473 ", _) (by decide)
      intro hlets
      exact hinvite.2 (hlets.invited hinvite.1)
    rw [if_neg hinvite]
    by_cases hlimit : (decide (ch.userLimit > 0) && decide (ch.getMembersCount ≥ ch.userLimit)) = true
    · rw [if_pos hlimit]
      simp only [Channel.getMembersCount, ge_iff_le, gt_iff_lt, Bool.and_eq_true, decide_eq_true_eq]
        at hlimit
      apply hrefused (":server 471 ", _) (by decide)
      intro hlets
      have hroom := hlets.room
      omega
    rw [if_neg hlimit]
    have hentered : (s.modifyChannel name fun _ => (ch.addMember c).removeInvited c).findChannel name
        = some ((ch.addMember c).removeInvited c) := by
      rw [Server.findChannel_modifyChannel hch, if_pos rfl]
    rw [Effects.enter_eq hch, hentered]
    refine .entered hvalid hch (by simpa using hmem) ⟨?_, ?_, ?_⟩
    · by_cases hnil : ch.password = []
      · exact Or.inl hnil
      · exact Or.inr (by simpa [hnil] using hpassword)
    · simpa using hinvite
    · simp only [Channel.getMembersCount, ge_iff_le, gt_iff_lt, Bool.and_eq_true, decide_eq_true_eq]
        at hlimit
      omega

/-! ## What the ends mean -/

/-- A client has become a member. -/
structure Admitted (s t : Server) (c : Ptr) (name : Str) : Prop where
  entered : ∀ ch, s.findChannel name = some ch → ∃ ch', t.findChannel name = some ch'
    ∧ ch'.members = ch.members ++ [c]
    ∧ (ch'.userLimit ≠ 0 → ch'.members.length ≤ ch'.userLimit)
    ∧ c ∉ ch'.invitedClients ∧ c ∉ ch'.operators
  founded : s.findChannel name = none → ∃ ch', t.findChannel name = some ch'
    ∧ ch'.members = [c] ∧ ch'.operators = [c]

/-- A client has been refused. -/
structure Refused (s t : Server) (c : Ptr) (name : Str) : Prop where
  channels : t.channels = s.channels
  others : ∀ q, q ≠ c → t.heap q = s.heap q
  reply : ∃ r ∈ refusals, t = s.sendMessage c (refusal s c name r)

section Turn

variable {s t : Server} {c : Ptr} {name key : Str} (h : Outcome s c name key t)
include h

/-- Who is refused stays outside. -/
theorem Outcome.refused_or_mayJoin (hout : ¬ s.IsMember c name) :
    (MayJoin s c name key ∧ t.IsMember c name) ∨ (¬ MayJoin s c name key ∧ Refused s t c name) := by
  cases h with
  | already hch hmem => exact absurd ⟨_, hch, hmem⟩ hout
  | refused hr hnot =>
    exact Or.inr ⟨hnot, rfl, fun q hq => Server.heap_modify_ne _ _ hq, _, hr, rfl⟩
  | founded hvalid hnew =>
    refine Or.inl ⟨⟨hvalid, fun ch hch => ?_⟩, Channel.founded name c, ?_, List.mem_singleton_self c⟩
    · cases hnew.symm.trans hch
    · rw [Server.findChannel, channels_announce]
      exact OrdMap.find?_insert_self ..
  | @entered ch hvalid hch hnot hlets =>
    refine Or.inl ⟨⟨hvalid, fun ch' hch' => ?_⟩, (ch.addMember c).removeInvited c, ?_, ?_⟩
    · rwa [← Option.some_inj.mp (hch.symm.trans hch')]
    · rw [Server.findChannel, channels_announce, ← Server.findChannel,
        Server.findChannel_modifyChannel hch, if_pos rfl]
    · rw [Channel.addMember_of_not_mem _ hnot]
      exact List.mem_append_right _ (List.mem_singleton_self c)

/-- Who is let in becomes an ordinary member, or the operator of a channel of its own. -/
theorem Outcome.admitted (hwf : ∀ ch, s.findChannel name = some ch → ch.Wf)
    (hout : ¬ s.IsMember c name) (hmem : t.IsMember c name) : Admitted s t c name := by
  cases h with
  | already hch hin => exact absurd ⟨_, hch, hin⟩ hout
  | refused => exact absurd hmem hout
  | founded hvalid hnew =>
    refine ⟨fun ch hch => ?_, fun _ => ⟨Channel.founded name c, ?_, rfl, rfl⟩⟩
    · cases hnew.symm.trans hch
    · rw [Server.findChannel, channels_announce]
      exact OrdMap.find?_insert_self ..
  | @entered ch hvalid hch hnot hlets =>
    refine ⟨fun ch' hch' => ?_, fun hnew => ?_⟩
    swap
    · cases hnew.symm.trans hch
    obtain rfl := Option.some_inj.mp (hch.symm.trans hch')
    have hroom := hlets.room
    have hfound : (announce (s.modifyChannel name fun _ => (ch.addMember c).removeInvited c) c
        ((ch.addMember c).removeInvited c) name false).findChannel name
          = some ((ch.addMember c).removeInvited c) := by
      rw [Server.findChannel, channels_announce, ← Server.findChannel,
        Server.findChannel_modifyChannel hch, if_pos rfl]
    have hadd := Channel.addMember_of_not_mem ch hnot
    refine ⟨_, hfound, ?_, fun hne => ?_, ?_, ?_⟩
    · rw [hadd]
      rfl
    · rw [hadd] at hne ⊢
      show (ch.members ++ [c]).length ≤ ch.userLimit
      have hlimit : ch.userLimit ≠ 0 := hne
      rw [List.length_append, List.length_singleton]
      omega
    · rw [hadd]
      exact (hwf ch hch).nodup_invited.not_mem_erase
    · rw [hadd]
      exact fun hop => hnot ((hwf ch hch).operators_sub c hop)

/-- JOIN removes no channel, and a valid name is the name of one afterwards. -/
theorem Outcome.mem_keys {n : Str}
    (hn : n ∈ s.channels.keys ∨ (n = name ∧ isValidChannelName name = true)) :
    n ∈ t.channels.keys := by
  have hfound : ∀ ch, s.findChannel name = some ch → n ∈ s.channels.keys := by
    intro ch hch
    rcases hn with hn | ⟨rfl, _⟩
    · exact hn
    · exact OrdMap.mem_keys.mpr ⟨ch, hch⟩
  cases h with
  | already hch _ => exact hfound _ hch
  | refused _ hnot =>
    show n ∈ s.channels.keys
    rcases hn with hn | ⟨rfl, hvalid⟩
    · exact hn
    -- a valid name is refused by a channel
    by_contra hnew
    refine hnot ⟨hvalid, fun ch hch => ?_⟩
    exact absurd (OrdMap.mem_keys.mpr ⟨ch, hch⟩) hnew
  | founded =>
    rw [channels_announce]
    refine OrdMap.mem_keys.mpr ?_
    rw [OrdMap.find?_insert]
    split_ifs with heq
    · exact ⟨_, rfl⟩
    · rcases hn with hn | ⟨rfl, _⟩
      · exact OrdMap.mem_keys.mp hn
      · exact absurd rfl heq
  | entered _ hch =>
    rw [channels_announce, Server.modifyChannel, OrdMap.keys_modify]
    exact hfound _ hch

end Turn

/-- A member stays what it is. -/
theorem joinOne_of_isMember {s : Server} {c : Ptr} {name : Str} (key : Str)
    (hvalid : isValidChannelName name = true) (hmem : s.IsMember c name) :
    joinOne s c name key = s := by
  obtain ⟨ch, hch, hc⟩ := hmem
  unfold joinOne
  dsimp only
  rw [if_neg (by simpa using hvalid), hch]
  dsimp only
  rw [if_pos ((Channel.isMember_iff _ _).mpr hc)]

/-! ## The loop -/

theorem joinLoop_append (s : Server) (c : Ptr) (front back keys : List Str) :
    joinLoop s c (front ++ back) keys
      = joinLoop (joinLoop s c front keys) c back (keys.drop front.length) := by
  induction front generalizing s keys with
  | nil => rfl
  | cons name front ih =>
    rw [List.cons_append, joinLoop, joinLoop, ih, List.length_cons, List.drop_tail]

/-- Every valid name a JOIN gives is the name of a channel afterwards. -/
theorem mem_keys_joinLoop {s : Server} {c : Ptr} {names keys : List Str} {n : Str}
    (hn : n ∈ s.channels.keys ∨ (n ∈ names ∧ isValidChannelName n = true)) :
    n ∈ (joinLoop s c names keys).channels.keys := by
  induction names generalizing s keys with
  | nil => exact hn.elim id fun h => absurd h.1 List.not_mem_nil
  | cons name names ih =>
    have houtcome := joinOne_outcome s c name (keys.headD [])
    rw [joinLoop]
    apply ih
    rcases hn with hn | ⟨hn, hvalid⟩
    · exact Or.inl (houtcome.mem_keys (Or.inl hn))
    · rcases List.mem_cons.mp hn with rfl | hn
      · exact Or.inl (houtcome.mem_keys (Or.inr ⟨rfl, hvalid⟩))
      · exact Or.inr ⟨hn, hvalid⟩

/-- JOIN handles the names it is given one after the other, each with its key. -/
theorem execute_eq {s : Server} {c : Ptr} {m : Message} (hm : m.handler = some .join)
    (hzero : ¬ m.LeavesAll) (hp : m.params ≠ []) :
    execute s c m.params = joinLoop s c m.channelNames m.keys := by
  have hnames : m.channelNames = splitString (m.params.headD []) comma := by
    rw [Message.channelNames, hm]
  rw [hnames, Message.keys]
  cases hparams : m.params with
  | nil => exact absurd hparams hp
  | cons target rest =>
    have hne : target ≠ lit "0" := by
      rintro rfl
      exact hzero ⟨hm, by rw [hparams]; rfl⟩
    unfold execute
    dsimp only
    rw [if_neg hne]
    cases rest <;> rfl

end JoinCommand

/-- In every state JOIN's loop goes through, the name and the key that are next decide alone what
happens: who is let in becomes an ordinary member, or the operator of a new channel, who is
refused is answered once, and nothing else changes. -/
theorem join_admission {s : Server} (h : Reachable s) {c : Ptr} {x : Client} (hx : s.heap c = some x)
    (hreg : x.isRegistered = true) {m : Message} (hm : m.handler = some .join)
    (hzero : ¬ m.LeavesAll) :
    (m.params ≠ [] → s.processMessage c m = JoinCommand.joinLoop s c m.channelNames m.keys)
    ∧ ∀ front name back, m.channelNames = front ++ name :: back →
        let t := JoinCommand.joinLoop s c front m.keys
        let key := m.keys.getD front.length []
        let u := JoinCommand.joinOne t c name key
        JoinCommand.joinLoop s c m.channelNames m.keys
            = JoinCommand.joinLoop u c back (m.keys.drop (front.length + 1))
          ∧ (t.IsMember c name → u = t)
          ∧ (¬ t.IsMember c name →
              (u.IsMember c name ↔ JoinCommand.MayJoin t c name key)
              ∧ (u.IsMember c name → JoinCommand.Admitted t u c name)
              ∧ (¬ u.IsMember c name → JoinCommand.Refused t u c name)) := by
  have hclient : (s.client c).isRegistered = true := by rw [Server.client_of_heap hx, hreg]
  refine ⟨fun hp => ?_, fun front name back hsplit => ?_⟩
  · rw [s.processMessage_of_registered hclient hm]
    exact JoinCommand.execute_eq hm hzero hp
  dsimp only
  -- the state in front of the turn is one the line goes through
  have heffects : Effects c m s (JoinCommand.joinLoop s c front m.keys) := by
    apply Effects.refl.joinLoop hclient hm fun hhead => hzero ⟨hm, hhead⟩
    · intro n hn
      rw [hsplit]
      exact List.mem_append_left _ hn
    · exact fun k hk => hk
  have hint := heffects.integrity h.integrity (by rw [Server.Allocated, hx]; rfl)
  have hkeyed := heffects.keyed (by rw [hm]; decide) h.keyed
  have hloop : JoinCommand.joinLoop s c m.channelNames m.keys
      = JoinCommand.joinLoop (JoinCommand.joinOne (JoinCommand.joinLoop s c front m.keys) c name
          (m.keys.getD front.length [])) c back (m.keys.drop (front.length + 1)) := by
    rw [hsplit, JoinCommand.joinLoop_append, JoinCommand.joinLoop, List.headD_eq_head?_getD,
      List.head?_drop, ← List.getD_eq_getElem?_getD, List.tail_drop]
  refine ⟨hloop, fun hmem => ?_, fun hout => ?_⟩
  · obtain ⟨ch, hch, hc⟩ := hmem
    exact JoinCommand.joinOne_of_isMember _ (hkeyed name ch hch).1 ⟨ch, hch, hc⟩
  have houtcome := JoinCommand.joinOne_outcome (JoinCommand.joinLoop s c front m.keys) c name
    (m.keys.getD front.length [])
  have hadmitted := houtcome.admitted (fun ch hch => (hint.channel name ch hch).wf) hout
  rcases houtcome.refused_or_mayJoin hout with ⟨hmay, hmem⟩ | ⟨hnot, hrefused⟩
  · exact ⟨iff_of_true hmem hmay, hadmitted, fun hnotIn => absurd hmem hnotIn⟩
  · have hnotIn : ¬ (JoinCommand.joinOne (JoinCommand.joinLoop s c front m.keys) c name
        (m.keys.getD front.length [])).IsMember c name := by
      rintro ⟨ch, hch, hc⟩
      rw [Server.findChannel, hrefused.channels] at hch
      exact hout ⟨ch, hch, hc⟩
    exact ⟨iff_of_false hnotIn hnot, hadmitted, fun _ => hrefused⟩

/-- The third client of the locked sample offers the key of `#c`. -/
theorem join_admission_sample :
    ¬ locked.IsMember 2 (lit "#c")
      ∧ (JoinCommand.joinOne locked 2 (lit "#c") (lit "k:1")).IsMember 2 (lit "#c")
      ∧ JoinCommand.MayJoin locked 2 (lit "#c") (lit "k:1")
      ∧ JoinCommand.Admitted locked (JoinCommand.joinOne locked 2 (lit "#c") (lit "k:1")) 2
          (lit "#c") := by
  obtain ⟨hreg, hhandler, hzero, hout, hin⟩ :
      (locked.heap 2).map Client.isRegistered = some true
      ∧ (Parser.parse (lit "JOIN #c,#d k:1")).handler = some .join
      ∧ (Parser.parse (lit "JOIN #c,#d k:1")).params.head? ≠ some (lit "0")
      ∧ ¬ locked.IsMember 2 (lit "#c")
      ∧ (JoinCommand.joinOne locked 2 (lit "#c") (lit "k:1")).IsMember 2 (lit "#c") := by
    decide +kernel
  have hnames : (Parser.parse (lit "JOIN #c,#d k:1")).channelNames = [] ++ lit "#c" :: [lit "#d"] := by
    decide +kernel
  obtain ⟨x, hx, hreg⟩ := Option.map_eq_some_iff.mp hreg
  obtain ⟨-, -, hturn⟩ := (join_admission reachable_locked hx hreg hhandler
    fun hleaves => hzero hleaves.2).2 [] (lit "#c") [lit "#d"] hnames
  obtain ⟨hmay, hadmitted, -⟩ := hturn hout
  exact ⟨hout, hin, hmay.mp hin, hadmitted hin⟩

end FtIrc
