import FtIrc.Outbound

/-!
# Which lines are answered in full

For each command, `Fits` is the condition that everything it sends is valid. It is a condition on
the lengths of what the line says and of what the server has stored, and where a command is a
loop, one on each turn in the state the turn begins in. Most replies fit anyway; those that do not
repeat a parameter that has not been checked, a topic, a key, a text, a reason or a list of names.
-/

namespace FtIrc

open Bytes Server

variable {s : Server} {c : Ptr}

/-! ## PASS, NICK and USER -/

/-- The answers to PASS are short. -/
theorem PassCommand.answers (hs : s.Tidy) (hc : s.Allocated c) (params : List Str) :
    s.Answers (execute s c params) True := by
  have hname := hs.short_displayName c
  have hlen := hname.length_le
  unfold execute
  dsimp only
  by_cases hok : (s.client c).passOk = true
  · rw [if_pos hok]
    exact (hs.tell (n := 12 + (displayName (s.client c)).length + 26) hc
      (by simp +decide [hname.clean]) (by decide) (by simp only [List.length_append]; rfl)).silent (by omega)
  rw [if_neg hok]
  by_cases hempty : params.headD [] = []
  · rw [if_pos hempty]
    exact (hs.tell (n := 12 + (displayName (s.client c)).length + 30) hc
      (by simp +decide [hname.clean]) (by decide) (by simp only [List.length_append]; rfl)).silent (by omega)
  rw [if_neg hempty]
  by_cases hright : params.headD [] = s.password
  · rw [if_pos hright]
    exact hs.modify_of_identity (fun _ => rfl) fun _ => ⟨rfl, rfl⟩
  rw [if_neg hright]
  have hcounted : s.Answers (s.modify c (·.recordFailedPassAttempt)) True := by
    refine hs.modify_of_identity (fun x => ?_) fun x => ?_
    · unfold Client.recordFailedPassAttempt
      split_ifs <;> rfl
    · unfold Client.recordFailedPassAttempt
      split_ifs <;> exact ⟨rfl, rfl⟩
  have hclean : Clean (lit ":server 464 " ++ displayName (s.client c)) := by
    simp +decide [hname.clean]
  have hend : isValidOutboundMessage (lit " :Password incorrect\r\n") = true := by decide
  have hwrong := hcounted.andThen ((hcounted.tidy.tell
    (n := 12 + (displayName (s.client c)).length + 22) (hcounted.allocated c hc) hclean hend
    (by simp only [List.length_append]; rfl)).silent (by omega))
  split_ifs
  · refine hwrong.andThen (hwrong.tidy.modify_of_identity (fun x => ?_) fun x => ?_)
    · rw [Client.trace_markClosing]
    · have hidentity := x.identity_markClosing (lit "too many invalid PASS attempts")
      exact ⟨congrArg Client.Identity.nickname hidentity, congrArg Client.Identity.username hidentity⟩
  · exact hwrong

/-- The welcome fits. -/
theorem answers_welcome (hs : s.Tidy) (hc : s.Allocated c) :
    s.Answers (s.sendMessage c (welcome (s.nickname c) (s.username c))) True := by
  have hnick := hs.nickname c
  have huser := hs.username c
  have hlenNick := hnick.length_le
  have hlenUser := huser.length_le
  exact (hs.tell
    (n := 12 + (s.nickname c).length + 33 + (s.nickname c).length + 1 + (s.username c).length + 12)
    hc (by simp +decide [hnick.clean, huser.clean]) (by decide)
    (by simp only [List.length_append]; rfl)).silent (by omega)

/-- The announcement of a nickname has two nicknames in it, of at most nine bytes each. -/
theorem answers_broadcastNicknameChange (hs : s.Tidy) {old new : Str} (hold : Short 9 old)
    (hnew : Short 9 new) : s.Answers (s.broadcastNicknameChange c old new) True := by
  have huser := hs.username c
  have hlenOld := hold.length_le
  have hlenNew := hnew.length_le
  have hlenUser := huser.length_le
  unfold broadcastNicknameChange
  split_ifs
  · exact .refl hs
  · exact (hs.tellAll (n := 1 + old.length + 1 + (s.username c).length + 17 + new.length + 2)
      (by simp +decide [hold.clean, hnew.clean, huser.clean]) (by decide)
      (by simp only [List.length_append]; rfl)).silent fun _ => by omega

/-- The reply to a nickname that is not valid repeats it. -/
def NickCommand.Fits (s : Server) (client : Ptr) (params : List Str) : Prop :=
  params.headD [] ≠ [] → isValidNickname (params.headD []) = false →
    12 + (displayName (s.client client)).length + 1 + (params.headD []).length + 22 ≤ 512

instance (s : Server) (client : Ptr) (params : List Str) :
    Decidable (NickCommand.Fits s client params) :=
  inferInstanceAs (Decidable (_ → _ → _))

/-- The nickname that was asked for is repeated in the refusals, so it must be short. -/
theorem NickCommand.answers (hs : s.Tidy) (hc : s.Allocated c) {params : List Str}
    (hparams : ∀ p ∈ params, Clean p) : s.Answers (execute s c params) (Fits s c params) := by
  have hname := hs.short_displayName c
  have hlen := hname.length_le
  have hnew : Clean (params.headD []) := by
    cases params with
    | nil => exact clean_nil
    | cons p _ => exact hparams p List.mem_cons_self
  unfold execute
  dsimp only
  by_cases hempty : params.headD [] = []
  · rw [if_pos hempty]
    exact (hs.tell hc clean_nil (by decide) rfl).congr
      ⟨fun _ hne => absurd hempty hne, fun _ => by decide⟩
  rw [if_neg hempty]
  by_cases hvalid : (!isValidNickname (params.headD [])) = true
  · rw [if_pos hvalid]
    refine (hs.tell (n := 12 + (displayName (s.client c)).length + 1 + (params.headD []).length + 22) hc
      (by simp +decide only [clean_append, hname.clean, hnew, and_self]) (by decide)
      (by simp only [List.length_append]; rfl)).congr ?_
    exact ⟨fun h _ _ => h, fun h => h hempty (by simpa using hvalid)⟩
  rw [if_neg hvalid]
  have hvalid' : isValidNickname (params.headD []) = true := by simpa using hvalid
  have hshort := short_of_isValidNickname hvalid'
  have hlenNew := hshort.length_le
  have hfits : True ↔ Fits s c params :=
    iff_of_true trivial fun _ hnot => absurd (hvalid'.symm.trans hnot) (by decide)
  refine Answers.congr ?_ hfits
  split_ifs with howner hchange hnow hnow
  · exact (hs.tell (n := 12 + (displayName (s.client c)).length + 1 + (params.headD []).length + 30) hc
      (by simp +decide only [clean_append, hname.clean, hshort.clean, and_self]) (by decide)
      (by simp only [List.length_append]; rfl)).silent (by omega)
  all_goals
    have hset : s.Answers (s.modify c fun x => { x with nickname := params.headD [], nickSet := true })
        True := by
      refine hs.modify fun x hx => ⟨rfl, hshort, ?_⟩
      have huser := hs.username c
      rwa [Server.username, client_of_heap hx] at huser
  · have htold := hset.andThen
      (answers_broadcastNicknameChange (c := c) hset.tidy (hs.nickname c) hshort)
    exact htold.andThen (answers_welcome htold.tidy (htold.allocated c hc))
  · exact hset.andThen (answers_broadcastNicknameChange hset.tidy (hs.nickname c) hshort)
  · exact hset.andThen (answers_welcome hset.tidy (hset.allocated c hc))
  · exact hset

/-- The reply to a username that is not valid repeats it. -/
def UserCommand.Fits (s : Server) (client : Ptr) (params : List Str) : Prop :=
  (s.client client).userSet = false → 4 ≤ params.length →
    isValidUsername (params.headD []) = false →
      12 + (displayName (s.client client)).length + 1 + (params.headD []).length + 20 ≤ 512

instance (s : Server) (client : Ptr) (params : List Str) :
    Decidable (UserCommand.Fits s client params) :=
  inferInstanceAs (Decidable (_ → _ → _ → _))

/-- The welcome repeats the username. -/
theorem UserCommand.answers (hs : s.Tidy) (hc : s.Allocated c) {params : List Str}
    (hparams : ∀ p ∈ params, Clean p) : s.Answers (execute s c params) (Fits s c params) := by
  have hname := hs.short_displayName c
  have hlen := hname.length_le
  unfold execute
  dsimp only
  by_cases hset : (s.client c).userSet = true
  · rw [if_pos hset]
    refine (hs.tell (n := 12 + (displayName (s.client c)).length + 26) hc
      (by simp +decide [hname.clean]) (by decide) (by simp only [List.length_append]; rfl)).congr ?_
    exact iff_of_true (by omega) fun hnot => absurd (hset.symm.trans hnot) (by decide)
  rw [if_neg hset]
  split
  · next username u₁ u₂ u₃ rest =>
    have huser : Clean username := hparams username List.mem_cons_self
    by_cases hvalid : (!isValidUsername username) = true
    · rw [if_pos hvalid]
      refine (hs.tell (n := 12 + (displayName (s.client c)).length + 1 + username.length + 20) hc
        (by simp +decide [hname.clean, huser]) (by decide)
        (by simp only [List.length_append]; rfl)).congr ?_
      exact ⟨fun h _ _ _ => h, fun h => h (by simpa using hset) (by simp) (by simpa using hvalid)⟩
    rw [if_neg hvalid]
    have hvalid' : isValidUsername username = true := by simpa using hvalid
    have htaken : s.Answers (s.modify c fun x => { x with username, userSet := true }) True := by
      refine hs.modify fun x hx => ⟨rfl, ?_, short_of_isValidUsername hvalid'⟩
      have hnick := hs.nickname c
      rwa [Server.nickname, client_of_heap hx] at hnick
    have hfits : True ↔ Fits s c (username :: u₁ :: u₂ :: u₃ :: rest) :=
      iff_of_true trivial fun _ _ hnot => absurd (hvalid'.symm.trans hnot) (by decide)
    refine Answers.congr ?_ hfits
    split_ifs
    · exact htaken.andThen (answers_welcome htaken.tidy (htaken.allocated c hc))
    · exact htaken
  · next hfew =>
    refine (hs.tell (n := 12 + (displayName (s.client c)).length + 30) hc
      (by simp +decide [hname.clean]) (by decide) (by simp only [List.length_append]; rfl)).congr ?_
    refine iff_of_true (by omega) fun _ hmany => ?_
    rcases params with _ | ⟨u, _ | ⟨u₁, _ | ⟨u₂, _ | ⟨u₃, rest⟩⟩⟩⟩
    case cons.cons.cons.cons => exact absurd rfl (hfew u u₁ u₂ u₃ rest)
    all_goals simp at hmany

/-! ## JOIN -/

/-- The pieces of a parameter have no bytes it does not have. -/
theorem clean_of_mem_splitString {text piece : Str} {d : Byte} (h : Clean text)
    (hpiece : piece ∈ splitString text d) : Clean piece :=
  h.of_mem fun b hb => ((of_mem_fields hpiece).2 b hb).2

namespace JoinCommand

/-- The conditions under which a channel that exists lets a client in. -/
def LetsIn (ch : Channel) (client : Ptr) (providedKey : Str) : Prop :=
  client ∉ ch.members ∧ (ch.password = [] ∨ ch.password = providedKey)
    ∧ (ch.inviteOnly = true → client ∈ ch.invitedClients)
    ∧ (ch.userLimit = 0 ∨ ch.members.length < ch.userLimit)

/-- The conditions of this module are decidable, so that a run can be checked for them. -/
instance (ch : Channel) (client : Ptr) (providedKey : Str) :
    Decidable (LetsIn ch client providedKey) :=
  inferInstanceAs (Decidable (_ ∧ _ ∧ _ ∧ _))

/-- The topic and the names of a channel, as its new member is told them. -/
def TellsFit (s : Server) (client : Ptr) (channelName : Str) (ch : Channel) : Prop :=
  (ch.topic ≠ [] →
    12 + (s.nickname client).length + 1 + channelName.length + 2 + ch.topic.length + 2 ≤ 512)
  ∧ 12 + (s.nickname client).length + 3 + channelName.length + 2 + (namesList s ch).length + 2 ≤ 512

instance (s : Server) (client : Ptr) (channelName : Str) (ch : Channel) :
    Decidable (TellsFit s client channelName ch) :=
  inferInstanceAs (Decidable (_ ∧ _))

/-- One turn of the loop over the channel list: a name that is not valid is repeated, and a
channel that lets the client in tells it its topic and its names. -/
def FitsOne (s : Server) (client : Ptr) (channelName providedKey : Str) : Prop :=
  (isValidChannelName channelName = false →
    12 + (s.nickname client).length + 1 + channelName.length + 19 ≤ 512)
  ∧ (isValidChannelName channelName = true → ∀ ch ∈ s.findChannel channelName,
      LetsIn ch client providedKey → TellsFit s client channelName (ch.addMember client))

instance (s : Server) (client : Ptr) (channelName providedKey : Str) :
    Decidable (FitsOne s client channelName providedKey) :=
  inferInstanceAs (Decidable ((_ → _) ∧ (_ → ∀ ch ∈ s.findChannel channelName, _)))

/-- Every turn of the loop, in the state it begins in. -/
def FitsLoop (s : Server) (client : Ptr) : List Str → List Str → Prop
  | [], _ => True
  | channelName :: channels, keys =>
    FitsOne s client channelName (keys.headD [])
      ∧ FitsLoop (joinOne s client channelName (keys.headD [])) client channels keys.tail

instance decidableFitsLoop : (s : Server) → (client : Ptr) → (channels keys : List Str) →
    Decidable (FitsLoop s client channels keys)
  | _, _, [], _ => .isTrue trivial
  | s, client, channelName :: channels, keys =>
    have := decidableFitsLoop (joinOne s client channelName (keys.headD [])) client channels keys.tail
    inferInstanceAs (Decidable (_ ∧ _))

/-- The answers to the whole command fit. -/
def Fits (s : Server) (client : Ptr) (params : List Str) : Prop :=
  params.head? ≠ some (lit "0") →
    FitsLoop s client (splitString (params.headD []) comma)
      (splitString (params.tail.headD []) comma)

instance (s : Server) (client : Ptr) (params : List Str) : Decidable (Fits s client params) :=
  inferInstanceAs (Decidable (_ → _))

/-- The list of names is made of nicknames, marks and spaces. -/
theorem clean_namesList {ch : Channel} (hnicks : ∀ p ∈ ch.members, Clean (s.nickname p)) :
    Clean (namesList s ch) := by
  have hname : ∀ p ∈ ch.members, Clean ((if ch.isOperator p then lit "@" else []) ++ s.nickname p) := by
    intro p hp
    split_ifs <;> simp +decide [hnicks p hp]
  clear hnicks
  unfold namesList
  generalize ch.members = members at hname ⊢
  induction members with
  | nil => exact clean_nil
  | cons p ps ih =>
    have hfirst := hname p List.mem_cons_self
    have hrest := ih fun q hq => hname q (List.mem_cons_of_mem p hq)
    cases ps with
    | nil =>
      rw [List.map_cons, List.map_nil, List.intercalate_singleton]
      exact hfirst
    | cons q ps =>
      rw [List.map_cons, List.map_cons, List.intercalate_cons_cons]
      rw [List.map_cons] at hrest
      exact clean_append.mpr ⟨clean_append.mpr ⟨hfirst, by decide⟩, hrest⟩

/-- What everybody is told of a new member. -/
theorem answers_announce (hs : s.Tidy) (hc : s.Allocated c) {ch : Channel} {name : Str}
    (hname : Short 50 name) (htopic : Clean ch.topic) (isNew : Bool) :
    s.Answers (announce s c ch name isNew) (TellsFit s c name ch) := by
  have hnick := hs.nickname c
  have hlenName := hname.length_le
  have hlenNick := hnick.length_le
  have hlenUser := (hs.username c).length_le
  have hsender := hs.clean_userPrefix c
  have hlenPrefix := Tidy.length_userPrefix s c
  -- each stage finds the nicknames of the stage in front of it
  have hsame : ∀ (t : Server) (b : Bool) (text : Str) (p : Ptr),
      (if b then t.sendMessage c text else t).nickname p = t.nickname p := by
    intro t b text p
    split_ifs
    · exact nickname_sendMessage ..
    · rfl
  have hnames : ∀ t : Server, (∀ p, t.nickname p = s.nickname p) → namesList t ch = namesList s ch := by
    intro t ht
    simp only [namesList, ht]
  unfold announce
  dsimp only
  -- the JOIN line, the modes of a new channel, the topic, the names, and the end of the names
  have htold := (hs.tellChannel (n := (userPrefix s c).length + 7 + name.length + 2) ch hc
    (show Clean (userPrefix s c ++ lit " JOIN :" ++ name) by simp +decide [hsender, hname.clean])
    (show isValidOutboundMessage (lit "\r\n") = true by decide)
    (by simp only [List.length_append]; rfl)).silent (by omega)
  have hnickTold : ∀ p, ((s.broadcastMessage ch (userPrefix s c ++ lit " JOIN :" ++ name ++ lit "\r\n")
      (some c)).sendMessage c (userPrefix s c ++ lit " JOIN :" ++ name ++ lit "\r\n")).nickname p
      = s.nickname p := fun p => by
    rw [nickname_sendMessage, broadcastMessage, nickname_sendAll]
  generalize (s.broadcastMessage ch (userPrefix s c ++ lit " JOIN :" ++ name ++ lit "\r\n")
    (some c)).sendMessage c (userPrefix s c ++ lit " JOIN :" ++ name ++ lit "\r\n") = t₁
    at htold hnickTold ⊢
  have hmode := htold.andThen ((htold.tidy.tellIf (n := 13 + name.length + 5) isNew
    (htold.allocated c hc) (show Clean (lit ":server MODE " ++ name) by simp +decide [hname.clean])
    (show isValidOutboundMessage (lit " +t\r\n") = true by decide)
    (by simp only [List.length_append]; rfl)).silent fun _ => by omega)
  have hnickMode := fun p => (hsame t₁ isNew (lit ":server MODE " ++ name ++ lit " +t\r\n") p).trans
    (hnickTold p)
  generalize (if isNew = true then t₁.sendMessage c (lit ":server MODE " ++ name ++ lit " +t\r\n")
    else t₁) = t₂ at hmode hnickMode ⊢
  rw [hnickMode c]
  have htopic' := hmode.andThen (hmode.tidy.tellIf
    (n := 12 + (s.nickname c).length + 1 + name.length + 2 + ch.topic.length + 2) (!ch.topic.isEmpty)
    (hmode.allocated c hc)
    (show Clean (lit ":server 332 " ++ s.nickname c ++ lit " " ++ name ++ lit " :" ++ ch.topic) by
      simp +decide [hname.clean, hnick.clean, htopic])
    (show isValidOutboundMessage (lit "\r\n") = true by decide)
    (by simp only [List.length_append]; rfl))
  have hnickTopic := fun p => (hsame t₂ (!ch.topic.isEmpty) (lit ":server 332 " ++ s.nickname c
    ++ lit " " ++ name ++ lit " :" ++ ch.topic ++ lit "\r\n") p).trans (hnickMode p)
  generalize (if (!ch.topic.isEmpty) = true then t₂.sendMessage c (lit ":server 332 " ++ s.nickname c
    ++ lit " " ++ name ++ lit " :" ++ ch.topic ++ lit "\r\n") else t₂) = t₃ at htopic' hnickTopic ⊢
  rw [hnickTopic c, hnames t₃ hnickTopic]
  have hlist := htopic'.tidy.tell
    (n := 12 + (s.nickname c).length + 3 + name.length + 2 + (namesList s ch).length + 2)
    (htopic'.allocated c hc)
    (show Clean (lit ":server 353 " ++ s.nickname c ++ lit " = " ++ name ++ lit " :"
      ++ namesList s ch) by
        simp +decide [hname.clean, hnick.clean, clean_namesList fun p _ => (hs.nickname p).clean])
    (show isValidOutboundMessage (lit "\r\n") = true by decide)
    (by simp only [List.length_append]; rfl)
  have hend := hlist.tidy.numeric (hlist.allocated c (htopic'.allocated c hc))
    (show Clean (lit ":server 366 ") by decide)
    (show isValidOutboundMessage (lit " :End of /NAMES list\r\n") = true by decide) hname.clean rfl (j := 22) rfl
  rw [nickname_sendMessage, hnickTopic c] at hend ⊢
  -- only the topic and the names can be too long
  refine ((htopic'.trans hlist).trans (hend.silent (by omega))).congr ?_
  rw [and_iff_left trivial, TellsFit]
  refine and_congr_left fun _ => ?_
  rw [Bool.not_eq_true', Bool.eq_false_iff, Ne, List.isEmpty_iff]

/-- One turn of JOIN. -/
theorem answers_joinOne (hs : s.Tidy) (hc : s.Allocated c) {name : Str} (hname : Clean name)
    (key : Str) : s.Answers (joinOne s c name key) (FitsOne s c name key) := by
  have hlenNick := (hs.nickname c).length_le
  unfold joinOne
  dsimp only
  by_cases hvalid : isValidChannelName name = true
  swap
  · rw [if_pos (by simpa using hvalid)]
    refine (hs.numeric hc (by decide) (by decide) hname rfl (j := 19) rfl).congr ?_
    exact ⟨fun h => ⟨fun _ => h, fun htrue => absurd htrue hvalid⟩,
      fun h => h.1 (Bool.eq_false_iff.mpr hvalid)⟩
  rw [if_neg (by simpa using hvalid)]
  have hlenName := length_le_of_isValidChannelName hvalid
  have hshort : Short 50 name := ⟨hname, hlenName⟩
  have hone : FitsOne s c name key ↔ ∀ ch ∈ s.findChannel name,
      LetsIn ch c key → TellsFit s c name (ch.addMember c) :=
    ⟨fun h => h.2 hvalid, fun h => ⟨fun hfalse => absurd (hvalid.symm.trans hfalse) (by decide), fun _ => h⟩⟩
  refine Answers.congr ?_ hone.symm
  cases hch : s.findChannel name with
  | none =>
    -- the list of names of a new channel has its founder alone
    have hfounded : s.Answers (create s c name) True := by
      rw [Effects.create_eq hch]
      refine hs.withChannels fun n ch hn => ?_
      rw [OrdMap.find?_insert] at hn
      split_ifs at hn with heq
      · rw [← Option.some_inj.mp hn, heq]
        exact ⟨⟨rfl, hshort, clean_nil, clean_nil, show 0 < 2 ^ 32 by decide⟩, fun p hp => by
          rwa [List.mem_singleton.mp hp]⟩
      · exact ⟨hs.texts n ch hn, hs.allocated n ch hn⟩
    have hfind : (create s c name).findChannel name = some (Channel.founded name c) := by
      rw [Effects.create_eq hch, findChannel, OrdMap.find?_insert_self]
    dsimp only
    rw [hfind]
    dsimp only
    have hnick : ∀ p, (create s c name).nickname p = s.nickname p := fun p => by
      rw [Effects.create_eq hch]
      rfl
    have hlist : namesList (create s c name) (Channel.founded name c) = lit "@" ++ s.nickname c := by
      simp [namesList, Channel.founded, Channel.isOperator, hnick]
    refine (hfounded.andThen (answers_announce hfounded.tidy (hfounded.allocated c hc) hshort clean_nil
      true)).congr ?_
    refine iff_of_true ⟨fun hne => absurd rfl hne, ?_⟩ fun _ h => by cases h
    rw [hlist, hnick, List.length_append]
    have hat : (lit "@").length = 1 := rfl
    omega
  | some ch =>
    have htexts := hs.texts name ch hch
    have hrefused : ¬ LetsIn ch c key →
        (True ↔ ∀ ch' ∈ some ch, LetsIn ch' c key → TellsFit s c name (ch'.addMember c)) := by
      refine fun hnot => iff_of_true trivial fun ch' hch' hin => absurd hin ?_
      rwa [← Option.some_inj.mp (Option.mem_def.mp hch')]
    dsimp only
    by_cases hmem : ch.isMember c = true
    · rw [if_pos hmem]
      exact (Answers.refl hs).congr (hrefused fun h => h.1 ((Channel.isMember_iff _ _).mp hmem))
    rw [if_neg hmem]
    -- a refusal has the name once and always fits
    by_cases hpassword : (!ch.password.isEmpty && ch.password != key) = true
    · rw [if_pos hpassword]
      refine ((hs.numeric hc (by decide) (by decide) hname rfl (j := 38) rfl).silent
        (by omega)).congr (hrefused fun h => ?_)
      simp only [Bool.and_eq_true, Bool.not_eq_true', Bool.eq_false_iff, Ne, List.isEmpty_iff,
        bne_iff_ne] at hpassword
      exact h.2.1.elim hpassword.1 hpassword.2
    rw [if_neg hpassword]
    by_cases hinvite : (ch.inviteOnly && !ch.isInvited c) = true
    · rw [if_pos hinvite]
      refine ((hs.numeric hc (by decide) (by decide) hname rfl (j := 50) rfl).silent
        (by omega)).congr (hrefused fun h => ?_)
      simp only [Bool.and_eq_true, Bool.not_eq_true', Bool.eq_false_iff, Ne, Channel.isInvited_iff]
        at hinvite
      exact hinvite.2 (h.2.2.1 hinvite.1)
    rw [if_neg hinvite]
    by_cases hlimit : (decide (ch.userLimit > 0) && decide (ch.getMembersCount ≥ ch.userLimit)) = true
    · rw [if_pos hlimit]
      refine ((hs.numeric hc (by decide) (by decide) hname rfl (j := 46) rfl).silent
        (by omega)).congr (hrefused fun h => ?_)
      have hroom := h.2.2.2
      simp only [Channel.getMembersCount, ge_iff_le, Bool.and_eq_true, decide_eq_true_eq] at hlimit
      omega
    rw [if_neg hlimit]
    -- what the refusals leave
    have hin : LetsIn ch c key := by
      refine ⟨by simpa using hmem, ?_, by simpa using hinvite, ?_⟩
      · by_cases hp : ch.password = []
        · exact Or.inl hp
        · exact Or.inr (by simpa [hp] using hpassword)
      · simp only [Channel.getMembersCount, ge_iff_le, Bool.and_eq_true, decide_eq_true_eq] at hlimit
        omega
    have hentered : s.Answers (enter s c name) True := by
      rw [Effects.enter_eq hch]
      refine hs.modifyChannel fun ch' hch' _ => ⟨(htexts.addMember c).removeInvited c, fun p hp => ?_⟩
      rw [← Option.some_inj.mp (hch.symm.trans hch')]
      have hp' : p ∈ (ch.addMember c).members := hp
      rw [Channel.addMember_of_not_mem _ hin.1] at hp'
      rcases List.mem_append.mp hp' with hp' | hp'
      · exact Or.inl hp'
      · exact Or.inr (List.mem_singleton.mp hp' ▸ hc)
    have hfind : (enter s c name).findChannel name = some ((ch.addMember c).removeInvited c) := by
      rw [Effects.enter_eq hch, findChannel_modifyChannel hch, if_pos rfl]
    rw [hfind]
    dsimp only
    refine (hentered.andThen (answers_announce hentered.tidy (hentered.allocated c hc) hshort
      (htexts.addMember c).topic false)).congr ?_
    -- an invitation that is used up is in none of the two replies
    have hsame : TellsFit (enter s c name) c name (ch.addMember c)
        ↔ TellsFit s c name (ch.addMember c) := Iff.rfl
    rw [hsame]
    exact ⟨fun h ch' hch' _ => by rwa [← Option.some_inj.mp (Option.mem_def.mp hch')],
      fun h => h ch rfl hin⟩

/-- The loop of JOIN, each turn in the state it begins in. -/
theorem answers_joinLoop (hs : s.Tidy) (hc : s.Allocated c) {names : List Str} (keys : List Str)
    (hnames : ∀ n ∈ names, Clean n) :
    s.Answers (joinLoop s c names keys) (FitsLoop s c names keys) := by
  induction names generalizing s keys with
  | nil => exact .refl hs
  | cons name names ih =>
    have hone := answers_joinOne hs hc (hnames name List.mem_cons_self) (keys.headD [])
    exact hone.trans (ih hone.tidy (hone.allocated c hc) keys.tail
      fun n hn => hnames n (List.mem_cons_of_mem name hn))

/-- A PART line always fits: the reason is fixed. -/
theorem answers_leave (hs : s.Tidy) (hc : s.Allocated c) (name : Str) :
    s.Answers (leave s c name) True := by
  unfold leave
  split
  · exact .refl hs
  next ch hch =>
  by_cases hmem : ch.isMember c = true
  swap
  · rw [if_neg hmem]
    exact .refl hs
  rw [if_pos hmem]
  have htexts := hs.texts name ch hch
  have hlenName := htexts.name.length_le
  have hlenNick := (hs.nickname c).length_le
  have hlenUser := (hs.username c).length_le
  have hlenPrefix := Tidy.length_userPrefix s c
  rw [← htexts.name_eq] at hlenName
  have hclean : Clean ch.name := htexts.name_eq ▸ htexts.name.clean
  dsimp only
  have htold := (hs.tellChannel (n := (userPrefix s c).length + 6 + ch.name.length + 21) ch hc
    (show Clean (userPrefix s c ++ lit " PART " ++ ch.name) by
      simp +decide [hs.clean_userPrefix c, hclean])
    (show isValidOutboundMessage (lit " :Left all channels\r\n") = true by decide)
    (by simp only [List.length_append]; rfl)).silent (by omega)
  have hleft := htold.andThen (htold.tidy.modifyChannel (n := name) (f := (·.removeMember c))
    fun ch' _ htexts' => ⟨htexts'.removeMember c, fun p hp => ?_⟩)
  · split_ifs
    · exact hleft.andThen (hleft.tidy.removeChannel _)
    · exact hleft
  · rw [Channel.removeMember_eq] at hp
    exact Or.inl (List.mem_of_mem_erase hp)

/-- So do all those of `JOIN 0`. -/
theorem answers_leaveAll (hs : s.Tidy) (hc : s.Allocated c) : s.Answers (leaveAll s c) True := by
  unfold leaveAll
  generalize s.channels.keys = names
  induction names generalizing s with
  | nil => exact .refl hs
  | cons name names ih =>
    have hone := answers_leave hs hc name
    exact hone.andThen (ih hone.tidy (hone.allocated c hc))

theorem answers (hs : s.Tidy) (hc : s.Allocated c) {params : List Str}
    (hparams : ∀ p ∈ params, Clean p) : s.Answers (execute s c params) (Fits s c params) := by
  have hlenNick := (hs.nickname c).length_le
  unfold execute
  split
  · refine (hs.tell (n := 12 + (s.nickname c).length + 30) hc
      (by simp +decide [(hs.nickname c).clean]) (by decide)
      (by simp only [List.length_append]; rfl)).congr ?_
    exact iff_of_true (by omega) fun _ => trivial
  next target rest =>
  by_cases hzero : target = lit "0"
  · rw [if_pos hzero]
    exact (answers_leaveAll hs hc).congr (iff_of_true trivial fun h => absurd (congrArg some hzero) h)
  rw [if_neg hzero]
  dsimp only
  refine (answers_joinLoop hs hc _ fun n hn =>
    clean_of_mem_splitString (hparams target List.mem_cons_self) hn).congr ?_
  cases rest <;> exact ⟨fun h _ => h, fun h => h fun heq => hzero (Option.some_inj.mp heq)⟩

end JoinCommand

/-! ## KICK -/

namespace KickCommand

/-- The length of a KICK line. -/
def kickLength (s : Server) (client : Ptr) (channelName targetNick reason : Str) : ℕ :=
  1 + (s.nickname client).length + 1 + (s.username client).length + 10 + 6 + channelName.length + 1
    + targetNick.length + 2 + reason.length + 2

/-- One turn of the loop over the user list: a name that is not a channel's is repeated, the
nickname of somebody who is not there too, and a KICK line has the reason in it. -/
def FitsOne (reason : Str) (client : Ptr) (s : Server) (channelName targetNick : Str) : Prop :=
  (s.findChannel channelName = none →
    12 + (s.nickname client).length + 1 + channelName.length + 19 ≤ 512)
  ∧ ∀ ch ∈ s.findChannel channelName, client ∈ ch.members → client ∈ ch.operators →
    if ∃ q ∈ s.findClientByNick targetNick, q ∈ ch.members then
      kickLength s client channelName targetNick reason ≤ 512
    else
      12 + (s.nickname client).length + 1 + (targetNick.length + 1) + channelName.length + 31 ≤ 512

instance (reason : Str) (client : Ptr) (s : Server) (channelName targetNick : Str) :
    Decidable (FitsOne reason client s channelName targetNick) :=
  inferInstanceAs (Decidable ((_ → _) ∧ ∀ ch ∈ s.findChannel channelName, _))

/-- Every turn of the loop, in the state it begins in. -/
def FitsLoop (reason : Str) (client : Ptr) : List (Str × Str) → Server → Prop
  | [], _ => True
  | e :: es, s =>
    FitsOne reason client s e.1 e.2 ∧ FitsLoop reason client es (kickOne reason client s e.1 e.2)

instance decidableFitsLoop (reason : Str) (client : Ptr) : (l : List (Str × Str)) → (s : Server) →
    Decidable (FitsLoop reason client l s)
  | [], _ => .isTrue trivial
  | e :: es, s =>
    have := decidableFitsLoop reason client es (kickOne reason client s e.1 e.2)
    inferInstanceAs (Decidable (_ ∧ _))

/-- The answers to the whole command fit. -/
def Fits (s : Server) (client : Ptr) (params : List Str) : Prop :=
  let channels := splitString (params.headD []) comma
  let users := splitString (params.tail.headD []) comma
  2 ≤ params.length → (channels.length = 1 ∨ channels.length = users.length) →
    FitsLoop ((params.drop 2).headD (lit "No reason given")) client (targets channels users) s

instance (s : Server) (client : Ptr) (params : List Str) : Decidable (Fits s client params) :=
  inferInstanceAs (Decidable (_ → _ → _))

/-- One turn of KICK. -/
theorem answers_kickOne (hs : s.Tidy) (hc : s.Allocated c) {name nick reason : Str}
    (hname : Clean name) (hnick : Clean nick) (hreason : Clean reason) :
    s.Answers (kickOne reason c s name nick) (FitsOne reason c s name nick) := by
  have hclient := hs.nickname c
  have hlenNick := hclient.length_le
  unfold kickOne FitsOne
  dsimp only
  cases hch : s.findChannel name with
  | none =>
    exact (hs.tell (n := 12 + (s.nickname c).length + 1 + name.length + 19) hc
      (by simp +decide [hclient.clean, hname]) (by decide)
      (by simp only [List.length_append]; rfl)).congr missing_iff.symm
  | some ch =>
    have hlenName := (hs.texts name ch hch).name.length_le
    refine Answers.congr ?_ found_iff.symm
    dsimp only
    by_cases hmem : ch.isMember c = true
    swap
    · rw [if_pos (by simpa using hmem)]
      refine (hs.tell (n := 12 + (s.nickname c).length + 1 + name.length + 30) hc
        (by simp +decide [hclient.clean, hname]) (by decide)
        (by simp only [List.length_append]; rfl)).congr ?_
      exact iff_of_true (by omega) fun hin => absurd ((Channel.isMember_iff _ _).mpr hin) hmem
    rw [if_neg (by simpa using hmem)]
    by_cases hop : ch.isOperator c = true
    swap
    · rw [if_pos (by simpa using hop)]
      refine (hs.tell (n := 12 + (s.nickname c).length + 1 + name.length + 31) hc
        (by simp +decide [hclient.clean, hname]) (by decide)
        (by simp only [List.length_append]; rfl)).congr ?_
      exact iff_of_true (by omega) fun _ hin => absurd ((Channel.isOperator_iff _ _).mpr hin) hop
    rw [if_neg (by simpa using hop)]
    rw [Channel.isMember_iff] at hmem
    rw [Channel.isOperator_iff] at hop
    refine Answers.congr ?_ (imp_iff_right hmem).symm
    refine Answers.congr ?_ (imp_iff_right hop).symm
    -- nobody is kicked
    have hmissing : s.Answers (s.sendMessage c (lit ":server 441 " ++ s.nickname c ++ lit " "
          ++ (nick ++ lit " ") ++ name ++ lit " :They aren't on that channel\r\n"))
        (12 + (s.nickname c).length + 1 + (nick.length + 1) + name.length + 31 ≤ 512) :=
      hs.tell hc (by simp +decide [hclient.clean, hname, hnick]) (by decide)
        (by simp only [List.length_append]; rfl)
    cases hfind : s.findClientByNick nick with
    | none =>
      refine hmissing.congr ?_
      rw [if_neg (by rintro ⟨q, hq, _⟩; exact absurd hq (Option.not_mem_none q))]
    | some q =>
      dsimp only
      have hexists : (∃ q' ∈ some q, q' ∈ ch.members) ↔ q ∈ ch.members :=
        ⟨fun ⟨q', hq', h⟩ => by rwa [Option.some_inj.mp (Option.mem_def.mp hq')], fun h => ⟨q, rfl, h⟩⟩
      by_cases hq : ch.isMember q = true
      swap
      · rw [if_pos (by simpa using hq)]
        refine hmissing.congr ?_
        rw [if_neg fun h => hq ((Channel.isMember_iff _ _).mpr (hexists.mp h))]
      rw [if_neg (by simpa using hq)]
      -- the KICK line goes out first, and the target is removed whether or not it was refused
      have htold := hs.tellChannel (n := kickLength s c name nick reason) ch hc
        (show Clean (userPrefix s c ++ lit " KICK " ++ name ++ lit " " ++ nick ++ lit " :" ++ reason) by
          simp +decide [hs.clean_userPrefix c, hname, hnick, hreason])
        (show isValidOutboundMessage (lit "\r\n") = true by decide)
        (by simp only [List.length_append, Tidy.length_userPrefix]; rfl)
      have hkicked := htold.trans (htold.tidy.modifyChannel (n := name) (f := (·.removeMember q))
        fun ch' _ htexts' => ⟨htexts'.removeMember q, fun p hp => ?_⟩)
      · refine hkicked.congr ?_
        rw [if_pos (hexists.mpr ((Channel.isMember_iff _ _).mp hq)), and_iff_left trivial]
      · rw [Channel.removeMember_eq] at hp
        exact Or.inl (List.mem_of_mem_erase hp)

/-- The loop of KICK. -/
theorem answers_loop (hs : s.Tidy) (hc : s.Allocated c) {reason : Str} (hreason : Clean reason)
    {l : List (Str × Str)} (hl : ∀ e ∈ l, Clean e.1 ∧ Clean e.2) :
    s.Answers (l.foldl (fun s e => kickOne reason c s e.1 e.2) s) (FitsLoop reason c l s) := by
  induction l generalizing s with
  | nil => exact .refl hs
  | cons e l ih =>
    obtain ⟨hname, hnick⟩ := hl e List.mem_cons_self
    have hone := answers_kickOne hs hc hname hnick hreason
    exact hone.trans (ih hone.tidy (hone.allocated c hc) fun e' he' => hl e' (List.mem_cons_of_mem e he'))

/-- The pairs the loop visits are made of the elements of the two lists. -/
theorem mem_targets {channels users : List Str} {e : Str × Str} (h : e ∈ targets channels users) :
    e.1 ∈ channels ∧ e.2 ∈ users := by
  unfold targets at h
  split at h
  · obtain ⟨u, hu, rfl⟩ := List.mem_map.mp h
    exact ⟨List.mem_singleton_self _, hu⟩
  · exact ⟨(List.of_mem_zip h).1, (List.of_mem_zip h).2⟩

theorem answers (hs : s.Tidy) (hc : s.Allocated c) {params : List Str}
    (hparams : ∀ p ∈ params, Clean p) : s.Answers (execute s c params) (Fits s c params) := by
  have hlenNick := (hs.nickname c).length_le
  have hfew : s.Answers (s.sendMessage c
      (lit ":server 461 " ++ s.nickname c ++ lit " KICK :Not enough parameters\r\n")) True :=
    (hs.tell (n := 12 + (s.nickname c).length + 30) hc (by simp +decide [(hs.nickname c).clean])
      (by decide) (by simp only [List.length_append]; rfl)).silent (by omega)
  unfold execute
  dsimp only
  split
  · next channelList userList rest =>
    have hclean : Clean (rest.headD (lit "No reason given")) := by
      cases rest with
      | nil => decide
      | cons reason rest => exact hparams reason (by simp)
    split_ifs with hcount
    · refine hfew.congr (iff_of_true trivial fun _ hok => ?_)
      rcases hok with hone | hequal
      · exact absurd hone hcount.1
      · exact absurd hequal hcount.2
    · refine (answers_loop hs hc hclean fun e he => ?_).congr ?_
      · obtain ⟨hchannel, huser⟩ := mem_targets he
        exact ⟨clean_of_mem_splitString (hparams channelList (by simp)) hchannel,
          clean_of_mem_splitString (hparams userList (by simp)) huser⟩
      · exact ⟨fun h _ _ => h, fun h => h (by simp) (by
          by_contra hnot
          rw [not_or] at hnot
          exact hcount hnot)⟩
  · next hshape =>
    refine hfew.congr (iff_of_true trivial fun htwo => ?_)
    match params, htwo with
    | channelList :: userList :: rest, _ => exact absurd rfl (hshape channelList userList rest)

end KickCommand

/-! ## INVITE and TOPIC -/

namespace InviteCommand

/-- A nickname that is not found is repeated, and a name that is not a channel's. -/
def Fits (s : Server) (client : Ptr) (params : List Str) : Prop :=
  2 ≤ params.length →
    (s.findClientByNick (params.headD []) = none →
      12 + (s.nickname client).length + 1 + (params.headD []).length + 24 ≤ 512)
    ∧ (s.findClientByNick (params.headD []) ≠ none → s.findChannel (params.tail.headD []) = none →
      12 + (s.nickname client).length + 1 + (params.tail.headD []).length + 19 ≤ 512)

instance (s : Server) (client : Ptr) (params : List Str) : Decidable (Fits s client params) :=
  inferInstanceAs (Decidable (_ → (_ → _) ∧ (_ → _ → _)))

theorem answers (hs : s.Tidy) (hc : s.Allocated c) {params : List Str}
    (hparams : ∀ p ∈ params, Clean p) : s.Answers (execute s c params) (Fits s c params) := by
  have hclient := hs.nickname c
  have hlenNick := hclient.length_le
  unfold execute
  dsimp only
  split
  swap
  · next hshape =>
    refine (hs.tell (n := 12 + (s.nickname c).length + 32) hc (by simp +decide [hclient.clean])
      (by decide) (by simp only [List.length_append]; rfl)).congr ?_
    refine iff_of_true (by omega) fun htwo => ?_
    match params, htwo with
    | nick :: name :: rest, _ => exact absurd rfl (hshape nick name rest)
  next nick name rest =>
  have hnick : Clean nick := hparams nick (by simp)
  have hname : Clean name := hparams name (by simp)
  have hfits : Fits s c (nick :: name :: rest) ↔
      (s.findClientByNick nick = none →
        12 + (s.nickname c).length + 1 + nick.length + 24 ≤ 512)
      ∧ (s.findClientByNick nick ≠ none → s.findChannel name = none →
        12 + (s.nickname c).length + 1 + name.length + 19 ≤ 512) :=
    ⟨fun h => h (by simp), fun h _ => h⟩
  refine Answers.congr ?_ hfits.symm
  cases hfind : s.findClientByNick nick with
  | none =>
    refine (hs.numeric hc (by decide) (by decide) hnick rfl (j := 24) rfl).congr ?_
    exact ⟨fun h => ⟨fun _ => h, fun hne => absurd rfl hne⟩, fun h => h.1 rfl⟩
  | some q =>
    obtain ⟨hlenTarget, hq⟩ := hs.length_le_of_found hfind
    dsimp only
    cases hch : s.findChannel name with
    | none =>
      refine (hs.numeric hc (by decide) (by decide) hname rfl (j := 19) rfl).congr ?_
      exact ⟨fun h => ⟨fun hnone => absurd hnone (Option.some_ne_none q), fun _ _ => h⟩,
        fun h => h.2 (Option.some_ne_none q) rfl⟩
    | some ch =>
      have hlenName := (hs.texts name ch hch).name.length_le
      have hlenUser := (hs.username c).length_le
      have hlenPrefix := Tidy.length_userPrefix s c
      have hboth : True ↔ (some q = none → 12 + (s.nickname c).length + 1 + nick.length + 24 ≤ 512)
          ∧ (some q ≠ none → some ch = none →
            12 + (s.nickname c).length + 1 + name.length + 19 ≤ 512) :=
        iff_of_true trivial ⟨fun h => absurd h (Option.some_ne_none q),
          fun _ h => absurd h (Option.some_ne_none ch)⟩
      refine Answers.congr ?_ hboth
      dsimp only
      split_ifs
      · exact (hs.numeric hc (by decide) (by decide) hname rfl (j := 30) rfl).silent (by omega)
      · have hlen : (nick ++ lit " " ++ name).length = nick.length + 1 + name.length := by
          simp only [List.length_append]
          rfl
        exact (hs.numeric hc (by decide) (by decide) (by simp +decide [hnick, hname]) rfl (j := 25)
          rfl).silent (by omega)
      · exact (hs.numeric hc (by decide) (by decide) hname rfl (j := 31) rfl).silent (by omega)
      · have hinvited := hs.modifyChannel (n := name) (f := (·.addInvited q)) fun ch' _ htexts' => by
          refine ⟨htexts'.addInvited q, fun p hp => Or.inl ?_⟩
          unfold Channel.addInvited at hp
          split_ifs at hp <;> exact hp
        have hanswered := hinvited.andThen ((hinvited.tidy.tell
          (n := 12 + (s.nickname c).length + 1 + nick.length + 1 + name.length + 2)
          (hinvited.allocated c hc)
          (show Clean (lit ":server 341 " ++ (s.modifyChannel name (·.addInvited q)).nickname c
            ++ lit " " ++ nick ++ lit " " ++ name) by
              simp +decide [hnick, hname, (hinvited.tidy.nickname c).clean])
          (show isValidOutboundMessage (lit "\r\n") = true by decide)
          (by simp only [List.length_append]; rfl)).silent (by omega))
        have hsender := hanswered.tidy.clean_userPrefix c
        refine hanswered.andThen ((hanswered.tidy.tell
          (n := 12 + (s.nickname c).length + (s.username c).length + 8 + nick.length + 2 + name.length + 2)
          (hanswered.allocated q hq)
          (by simp +decide only [clean_append, hsender, hnick, hname, and_self]) (by decide) ?_).silent
            (by omega))
        simp only [List.length_append, Tidy.length_userPrefix, nickname_sendMessage,
          username_sendMessage]
        have hsame : (s.modifyChannel name (·.addInvited q)).nickname c = s.nickname c := rfl
        have hsame' : (s.modifyChannel name (·.addInvited q)).username c = s.username c := rfl
        have h8 : (lit " INVITE ").length = 8 := rfl
        have h2 : (lit " :").length = 2 := rfl
        have h2' : (lit "\r\n").length = 2 := rfl
        rw [hsame, hsame', h8, h2, h2']
        omega

end InviteCommand

namespace TopicCommand

/-- A name that is not a channel's is repeated, the topic is told, and a new one announced. -/
def Fits (s : Server) (client : Ptr) (params : List Str) : Prop :=
  params ≠ [] →
    (s.findChannel (params.headD []) = none →
      12 + (s.nickname client).length + 1 + (params.headD []).length + 17 + 2 ≤ 512)
    ∧ ∀ ch ∈ s.findChannel (params.headD []), client ∈ ch.members →
      (params.tail = [] → ch.topic ≠ [] →
        12 + (s.nickname client).length + 1 + (params.headD []).length + (2 + ch.topic.length) + 2 ≤ 512)
      ∧ ∀ newTopic ∈ params.tail.head?, (ch.topicRestricted = true → client ∈ ch.operators) →
        1 + (s.nickname client).length + 1 + (s.username client).length + 10 + 7
          + (params.headD []).length + 2 + newTopic.length + 2 ≤ 512

instance (s : Server) (client : Ptr) (params : List Str) : Decidable (Fits s client params) :=
  inferInstanceAs (Decidable (_ → (_ → _)
    ∧ ∀ ch ∈ s.findChannel (params.headD []), _ → (_ → _ → _) ∧ ∀ t ∈ params.tail.head?, _))

theorem answers (hs : s.Tidy) (hc : s.Allocated c) {params : List Str}
    (hparams : ∀ p ∈ params, Clean p) : s.Answers (execute s c params) (Fits s c params) := by
  have hclient := hs.nickname c
  have hlenNick := hclient.length_le
  unfold execute
  dsimp only
  split
  · refine (hs.tell (n := 12 + (s.nickname c).length + 31) hc (by simp +decide [hclient.clean])
      (by decide) (by simp only [List.length_append]; rfl)).congr ?_
    exact iff_of_true (by omega) fun hne => absurd rfl hne
  next name rest =>
  have hname : Clean name := hparams name (by simp)
  -- every reply names the client and the channel
  have hreply : ∀ {a : String} {reason : Str} {i : ℕ}, Clean (lit a) → (lit a).length = 12 →
      Clean reason → reason.length = i →
      s.Answers (s.sendMessage c (lit a ++ s.nickname c ++ lit " " ++ name ++ reason ++ lit "\r\n"))
        (12 + (s.nickname c).length + 1 + name.length + i + 2 ≤ 512) := by
    intro a reason i ha h12 hreason hi
    refine hs.tell hc (by simp +decide only [clean_append, ha, hclient.clean, hname, hreason, and_self])
      (by decide) ?_
    simp only [List.length_append, h12, hi]
    rfl
  have hbare : Fits s c (name :: rest) ↔ _ := ⟨fun h => h (List.cons_ne_nil _ _), fun h _ => h⟩
  refine Answers.congr ?_ hbare.symm
  simp only [List.headD_cons, List.tail_cons]
  cases hch : s.findChannel name with
  | none =>
    exact (hreply (by decide) rfl (by decide) (i := 17) rfl).congr missing_iff.symm
  | some ch =>
    have htexts := hs.texts name ch hch
    have hlenName := htexts.name.length_le
    refine Answers.congr ?_ found_iff.symm
    dsimp only
    by_cases hmem : ch.isMember c = true
    swap
    · rw [if_pos (by simpa using hmem)]
      refine (hreply (by decide) rfl (by decide) (i := 28) rfl).congr ?_
      exact iff_of_true (by omega) fun hin => absurd ((Channel.isMember_iff _ _).mpr hin) hmem
    rw [if_neg (by simpa using hmem)]
    rw [Channel.isMember_iff] at hmem
    refine Answers.congr ?_ (imp_iff_right hmem).symm
    cases rest with
    | nil =>
      dsimp only
      by_cases hempty : ch.topic.isEmpty = true
      · rw [if_pos hempty]
        refine (hreply (by decide) rfl (by decide) (i := 17) rfl).congr ?_
        exact iff_of_true (by omega)
          ⟨fun _ hne => absurd (List.isEmpty_iff.mp hempty) hne, fun _ h => by cases h⟩
      · rw [if_neg hempty]
        refine (hreply (by decide) rfl (by simp +decide [htexts.topic]) (i := 2 + ch.topic.length)
          (by rw [List.length_append]; rfl)).congr ?_
        exact ⟨fun h => ⟨fun _ _ => h, fun _ h => by cases h⟩,
          fun h => h.1 rfl fun hnil => hempty (List.isEmpty_iff.mpr hnil)⟩
    | cons newTopic rest =>
      have hnew : Clean newTopic := hparams newTopic (by simp)
      have hcons : ((ch.topicRestricted = true → c ∈ ch.operators) →
            1 + (s.nickname c).length + 1 + (s.username c).length + 10 + 7 + name.length + 2
              + newTopic.length + 2 ≤ 512)
          ↔ (newTopic :: rest = [] → ch.topic ≠ [] →
            12 + (s.nickname c).length + 1 + name.length + (2 + ch.topic.length) + 2 ≤ 512)
          ∧ ∀ t ∈ (newTopic :: rest).head?, (ch.topicRestricted = true → c ∈ ch.operators) →
            1 + (s.nickname c).length + 1 + (s.username c).length + 10 + 7 + name.length + 2
              + t.length + 2 ≤ 512 :=
        ⟨fun h => ⟨fun hnil => absurd hnil (List.cons_ne_nil _ _), fun t ht => by
          rwa [← Option.some_inj.mp (Option.mem_def.mp ht)]⟩, fun h => h.2 newTopic rfl⟩
      refine Answers.congr ?_ hcons
      dsimp only
      by_cases hrefused : (ch.topicRestricted && !ch.isOperator c) = true
      · rw [if_pos hrefused]
        refine (hreply (by decide) rfl (by decide) (i := 29) rfl).congr ?_
        simp only [Bool.and_eq_true, Bool.not_eq_true', Bool.eq_false_iff, Ne, Channel.isOperator_iff]
          at hrefused
        exact iff_of_true (by omega) fun hop => absurd (hop hrefused.1) hrefused.2
      rw [if_neg hrefused]
      have hallowed : ch.topicRestricted = true → c ∈ ch.operators := by simpa using hrefused
      have hset := hs.modifyChannel (n := name) (f := fun ch => { ch with topic := newTopic })
        fun ch' _ h => ⟨⟨h.name_eq, h.name, hnew, h.password, h.userLimit⟩, fun p hp => Or.inl hp⟩
      have htold := hset.tidy.tellChannel ch (hset.allocated c hc)
        (n := 1 + (s.nickname c).length + 1 + (s.username c).length + 10 + 7 + name.length + 2
              + newTopic.length + 2)
        (show Clean (userPrefix (s.modifyChannel name fun ch => { ch with topic := newTopic }) c
            ++ lit " TOPIC " ++ name ++ lit " :" ++ newTopic) by
          simp +decide [hset.tidy.clean_userPrefix c, hname, hnew])
        (show isValidOutboundMessage (lit "\r\n") = true by decide)
        (by simp only [List.length_append, Tidy.length_userPrefix]; rfl)
      exact (hset.andThen htold).congr (imp_iff_right hallowed).symm

end TopicCommand

/-! ## PRIVMSG -/

namespace PrivmsgCommand

/-- One turn of the loop over the targets: a target that is not there is repeated, and a message
has the text in it, if there is somebody to get it. -/
def FitsOne (prefixLength : ℕ) (messageText : Str) (client : Ptr) (s : Server)
    (currentTarget : Str) : Prop :=
  let missing := 12 + (s.nickname client).length + 1 + currentTarget.length + 24 ≤ 512
  let relayed := prefixLength + 9 + currentTarget.length + 2 + messageText.length + 2 ≤ 512
  if isChannel currentTarget = true then
    (s.findChannel currentTarget = none → missing)
    ∧ ∀ ch ∈ s.findChannel currentTarget, client ∈ ch.members →
        (∃ p ∈ ch.members, p ≠ client) → relayed
  else (s.findClientByNick currentTarget = none → missing)
    ∧ ∀ _q ∈ s.findClientByNick currentTarget, relayed

instance (prefixLength : ℕ) (messageText : Str) (client : Ptr) (s : Server) (currentTarget : Str) :
    Decidable (FitsOne prefixLength messageText client s currentTarget) :=
  inferInstanceAs (Decidable (if isChannel currentTarget = true then
      (_ → _) ∧ ∀ ch ∈ s.findChannel currentTarget, _ → (∃ p ∈ ch.members, p ≠ client) → _
    else (_ → _) ∧ ∀ q ∈ s.findClientByNick currentTarget, _))

/-- Every turn of the loop, in the state it begins in. -/
def FitsLoop (senderPrefix messageText : Str) (client : Ptr) : List Str → Server → Prop
  | [], _ => True
  | target :: targets, s =>
    FitsOne senderPrefix.length messageText client s target
      ∧ FitsLoop senderPrefix messageText client targets
        (sendOne senderPrefix messageText client s target)

instance decidableFitsLoop (senderPrefix messageText : Str) (client : Ptr) : (l : List Str) →
    (s : Server) → Decidable (FitsLoop senderPrefix messageText client l s)
  | [], _ => .isTrue trivial
  | target :: targets, s =>
    have := decidableFitsLoop senderPrefix messageText client targets
      (sendOne senderPrefix messageText client s target)
    inferInstanceAs (Decidable (_ ∧ _))

def Fits (s : Server) (client : Ptr) (params : List Str) : Prop :=
  ∀ messageText ∈ params.tail.head?,
    FitsLoop (userPrefix s client) messageText client (splitString (params.headD []) comma) s

instance (s : Server) (client : Ptr) (params : List Str) : Decidable (Fits s client params) :=
  inferInstanceAs (Decidable (∀ t ∈ params.tail.head?, _))

/-- One turn of PRIVMSG. -/
theorem answers_sendOne (hs : s.Tidy) (hc : s.Allocated c) {senderPrefix text target : Str}
    (hsender : Clean senderPrefix) (htext : Clean text) (htarget : Clean target) :
    s.Answers (sendOne senderPrefix text c s target)
      (FitsOne senderPrefix.length text c s target) := by
  have hlenNick := (hs.nickname c).length_le
  have hclean : Clean (senderPrefix ++ lit " PRIVMSG " ++ target ++ lit " :" ++ text) := by
    simp +decide [hsender, htext, htarget]
  have hlen : (senderPrefix ++ lit " PRIVMSG " ++ target ++ lit " :" ++ text).length
      + (lit "\r\n").length
      = senderPrefix.length + 9 + target.length + 2 + text.length + 2 := by
    simp only [List.length_append]
    rfl
  have hend : isValidOutboundMessage (lit "\r\n") = true := by decide
  have hmissing := hs.numeric hc (show Clean (lit ":server 401 ") by decide)
    (show isValidOutboundMessage (lit " :No such nick/channel\r\n") = true by decide) htarget rfl
    (j := 24) rfl
  unfold sendOne FitsOne
  dsimp only
  by_cases hchannel : isChannel target = true
  · rw [if_pos hchannel, if_pos hchannel]
    cases hch : s.findChannel target with
    | none => exact hmissing.congr missing_iff.symm
    | some ch =>
      have hlenName := (hs.texts target ch hch).name.length_le
      refine Answers.congr ?_ found_iff.symm
      dsimp only
      by_cases hmem : ch.isMember c = true
      swap
      · rw [if_pos (by simpa using hmem)]
        refine ((hs.numeric hc (by decide) (by decide) htarget rfl (j := 26) rfl).silent
          (by omega)).congr ?_
        exact iff_of_true trivial fun hin => absurd ((Channel.isMember_iff _ _).mpr hin) hmem
      rw [if_neg (by simpa using hmem)]
      rw [Channel.isMember_iff] at hmem
      refine Answers.congr ?_ (imp_iff_right hmem).symm
      refine (hs.tellAll hclean hend hlen).congr (imp_congr_left ⟨?_, ?_⟩)
      · rintro ⟨p, hp, _⟩
        obtain ⟨hp, hne⟩ := List.mem_filter.mp hp
        exact ⟨p, hp, by simpa using hne⟩
      · rintro ⟨p, hp, hne⟩
        exact ⟨p, List.mem_filter.mpr ⟨hp, by simpa using hne⟩, hs.allocated target ch hch p hp⟩
  · rw [if_neg hchannel, if_neg hchannel]
    cases hfind : s.findClientByNick target with
    | none => exact hmissing.congr missing_iff.symm
    | some q =>
      refine Answers.congr ?_ found_iff.symm
      exact hs.tell (hs.length_le_of_found hfind).2 hclean hend hlen

/-- The loop of PRIVMSG. -/
theorem answers_loop (hs : s.Tidy) (hc : s.Allocated c) {senderPrefix text : Str}
    (hsender : Clean senderPrefix) (htext : Clean text) {targets : List Str}
    (htargets : ∀ t ∈ targets, Clean t) :
    s.Answers (targets.foldl (sendOne senderPrefix text c) s)
      (FitsLoop senderPrefix text c targets s) := by
  induction targets generalizing s with
  | nil => exact .refl hs
  | cons target targets ih =>
    have hone := answers_sendOne hs hc hsender htext (htargets target List.mem_cons_self)
    exact hone.trans (ih hone.tidy (hone.allocated c hc)
      fun t ht => htargets t (List.mem_cons_of_mem target ht))

theorem answers (hs : s.Tidy) (hc : s.Allocated c) {params : List Str}
    (hparams : ∀ p ∈ params, Clean p) : s.Answers (execute s c params) (Fits s c params) := by
  have hclient := hs.nickname c
  have hlenNick := hclient.length_le
  unfold execute
  split
  · refine (hs.tell (n := 12 + (s.nickname c).length + 32) hc (by simp +decide [hclient.clean])
      (by decide) (by simp only [List.length_append]; rfl)).congr ?_
    exact iff_of_true (by omega) fun _ h => by cases h
  · refine (hs.tell (n := 12 + (s.nickname c).length + 19) hc (by simp +decide [hclient.clean])
      (by decide) (by simp only [List.length_append]; rfl)).congr ?_
    exact iff_of_true (by omega) fun _ h => by cases h
  · next targetString text rest =>
    refine (answers_loop hs hc (hs.clean_userPrefix c) (hparams text (by simp)) fun t ht =>
      clean_of_mem_splitString (hparams targetString (by simp)) ht).congr ?_
    exact ⟨fun h t ht => by rwa [← Option.some_inj.mp (Option.mem_def.mp ht)], fun h => h text rfl⟩

end PrivmsgCommand

end FtIrc
