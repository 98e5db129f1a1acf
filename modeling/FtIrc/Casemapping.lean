import FtIrc.NameTurns

/-!
# Channel names and the IRC casemapping

Channels are stored and looked up under their names as they are spelled, nicknames under the
casemapping. As long as everybody spells a channel the way it was founded the two notions of a
name agree; a client that spells it otherwise is told that there is no such channel, or founds a
second one beside it.
-/

namespace FtIrc

open Bytes Relation

/-! ## The casemapping keeps names valid -/

/-- The bytes that have a meaning in a channel name are not letters. -/
theorem toIrcLower_eq_iff {b x : Byte} (hx : x = 7 ∨ x = sp ∨ x = comma ∨ x = ch '#' ∨ x = ch '&') :
    toIrcLower b = x ↔ b = x := by
  have hsmall : x.toNat ≤ 44 := by
    rcases hx with rfl | rfl | rfl | rfl | rfl <;> decide
  have hlarge : ∀ {y : Byte}, 45 ≤ y.toNat → y ≠ x := by
    rintro y hy rfl
    omega
  unfold toIrcLower
  split_ifs with hletter hopen hclose hslash htilde
  · obtain ⟨hle, hge⟩ := hletter
    rw [UInt8.le_iff_toNat_le] at hle hge
    have h65 : (65 : Byte).toNat = 65 := rfl
    have h90 : (90 : Byte).toNat = 90 := rfl
    have h97 : (97 : Byte).toNat = 97 := rfl
    have hlower : (b - 65 + 97).toNat = b.toNat + 32 := by
      rw [UInt8.toNat_add, UInt8.toNat_sub, h65, h97]
      omega
    exact iff_of_false (hlarge (by omega)) (hlarge (by omega))
  · exact iff_of_false (hlarge (by decide)) (hlarge (by rw [hopen]; decide))
  · exact iff_of_false (hlarge (by decide)) (hlarge (by rw [hclose]; decide))
  · exact iff_of_false (hlarge (by decide)) (hlarge (by rw [hslash]; decide))
  · exact iff_of_false (hlarge (by decide)) (hlarge (by rw [htilde]; decide))
  · exact Iff.rfl

theorem isValidChannelName_toIrcLowerCase (n : Str) :
    JoinCommand.isValidChannelName (toIrcLowerCase n) = JoinCommand.isValidChannelName n := by
  have hbyte : ∀ {x : Byte}, (x = 7 ∨ x = sp ∨ x = comma ∨ x = ch '#' ∨ x = ch '&') →
      ∀ b, (toIrcLower b == x) = (b == x) := fun hx b => by
    rw [Bool.eq_iff_iff, beq_iff_eq, beq_iff_eq, toIrcLower_eq_iff hx]
  cases n with
  | nil => rfl
  | cons first rest =>
    have hlength : (toIrcLowerCase (first :: rest)).length = (first :: rest).length := List.length_map ..
    have hall : (toIrcLowerCase (first :: rest)).all (fun b => b != sp && b != comma && b != 7)
        = (first :: rest).all fun b => b != sp && b != comma && b != 7 := by
      rw [toIrcLowerCase, List.all_map]
      refine congrArg (List.all _) (funext fun b => ?_)
      show (!(toIrcLower b == sp) && !(toIrcLower b == comma) && !(toIrcLower b == 7)) = _
      rw [hbyte (by simp), hbyte (by simp), hbyte (by simp)]
      rfl
    show (decide ((toIrcLowerCase (first :: rest)).length ≤ 50)
      && (toIrcLower first == ch '#' || toIrcLower first == ch '&')
      && (toIrcLowerCase (first :: rest)).all fun b => b != sp && b != comma && b != 7) = _
    rw [hlength, hall, hbyte (by simp), hbyte (by simp)]
    rfl

theorem isValidChannelName_of_toIrcLowerCase {n n' : Str} (heq : toIrcLowerCase n = toIrcLowerCase n')
    (h : JoinCommand.isValidChannelName n = true) : JoinCommand.isValidChannelName n' = true := by
  rwa [← isValidChannelName_toIrcLowerCase, ← heq, isValidChannelName_toIrcLowerCase]

/-! ## Acting on a channel -/

/-- The same channels, and the same texts up to the casemapping. -/
structure Server.SameUpToCase (v w : Server) : Prop where
  channels : v.channels = w.channels
  offered : ∀ p, (v.client p).trace.offered.map toIrcLowerCase
    = (w.client p).trace.offered.map toIrcLowerCase

theorem Server.SameUpToCase.refl (v : Server) : v.SameUpToCase v := ⟨rfl, fun _ => rfl⟩

/-- A turn acts on one channel: it does what it does for the name the channel is stored under,
leaves the other channels alone, and nobody hears that there is no such channel. -/
structure NameTurn.ActsOn (t : NameTurn) (u : Server) (name : Str) : Prop where
  same : (t.run t.name u).SameUpToCase (t.run name u)
  frame : ∀ n, n ≠ name → (t.run t.name u).findChannel n = u.findChannel n
  found : u.Offers (fun text => ¬ t.missing <+: text) (t.run t.name u)

/-- A turn acts on a channel that has its name up to the casemapping, if there is one. -/
def NameTurn.ActsByCase (u : Server) (t : NameTurn) : Prop :=
  (∃ name ∈ u.channels.keys, toIrcLowerCase name = toIrcLowerCase t.name) →
    ∃ name ∈ u.channels.keys, toIrcLowerCase name = toIrcLowerCase t.name ∧ t.ActsOn u name

/-! ## Spelling -/

/-- Names that are looked up one after the other are spelled as the channels are stored, those that
JOIN founds on the way among them. -/
def SpelledAsStored (founds : Bool) : List Str → List Str → Prop
  | _, [] => True
  | known, n :: names =>
    ((∃ name ∈ known, toIrcLowerCase name = toIrcLowerCase n) → n ∈ known)
      ∧ SpelledAsStored founds
        (if founds && JoinCommand.isValidChannelName n then n :: known else known) names

instance decidableSpelledAsStored (founds : Bool) :
    (known names : List Str) → Decidable (SpelledAsStored founds known names)
  | _, [] => .isTrue trivial
  | known, n :: names =>
    have := decidableSpelledAsStored founds
      (if founds && JoinCommand.isValidChannelName n then n :: known else known) names
    inferInstanceAs (Decidable (_ ∧ _))

/-- The names of channels a line looks up. INVITE looks for the client first. -/
def Server.lookedUp (s : Server) (c : Ptr) (m : Message) : List Str :=
  if m.handler = some .invite ∧ s.findClientByNick (m.params.headD []) = none then []
  else (s.turns c m).map NameTurn.name

/-- A line spells the channels that exist as they are stored, and a JOIN does not spell a new one
in two ways. -/
def canonicalSpelling : Guard where
  line s c m := SpelledAsStored (m.handler = some .join) s.channels.keys (s.lookedUp c m)

instance (s : Server) (c : Ptr) (m : Message) : Decidable (canonicalSpelling.line s c m) :=
  inferInstanceAs (Decidable (SpelledAsStored _ _ _))

instance (s : Server) (p : Ptr) : Decidable (canonicalSpelling.disconnect s p) := .isTrue trivial

/-- No two names are equal up to the casemapping. -/
def DistinctNames (names : List Str) : Prop :=
  ∀ n ∈ names, ∀ n' ∈ names, toIrcLowerCase n = toIrcLowerCase n' → n = n'

/-- Names that are spelled as they are stored leave the names distinct. -/
theorem SpelledAsStored.distinct {known names : List Str} (h : SpelledAsStored true known names)
    (hknown : DistinctNames known) :
    DistinctNames (known ++ names.filter JoinCommand.isValidChannelName) := by
  induction names generalizing known with
  | nil => rwa [List.filter_nil, List.append_nil]
  | cons n names ih =>
    obtain ⟨hn, hrest⟩ := h
    rw [Bool.true_and] at hrest
    by_cases hvalid : JoinCommand.isValidChannelName n = true
    · rw [if_pos hvalid] at hrest
      have hadded : DistinctNames (n :: known) := by
        intro a ha b hb heq
        rcases List.mem_cons.mp ha with rfl | hold
        · rcases List.mem_cons.mp hb with rfl | hb
          · rfl
          · exact hknown a (hn ⟨b, hb, heq.symm⟩) b hb heq
        · rcases List.mem_cons.mp hb with rfl | hb
          · exact hknown a hold b (hn ⟨a, hold, heq⟩) heq
          · exact hknown a hold b hb heq
      have hsub : ∀ a ∈ known ++ (n :: names).filter JoinCommand.isValidChannelName,
          a ∈ n :: known ++ names.filter JoinCommand.isValidChannelName := by
        intro a ha
        rw [List.filter_cons_of_pos hvalid] at ha
        simp only [List.cons_append, List.mem_cons, List.mem_append] at ha ⊢
        tauto
      exact fun a ha b hb => ih hrest hadded a (hsub a ha) b (hsub b hb)
    · rw [if_neg hvalid] at hrest
      rw [List.filter_cons_of_neg hvalid]
      exact ih hrest hknown

/-! ## One turn -/

/-- What is needed of the states a line goes through. -/
structure Server.Settled (u : Server) (c : Ptr) (nickname : Str) : Prop where
  allocated : u.Allocated c
  nickname_eq : u.nickname c = nickname
  named : ∀ n ∈ u.channels.keys, JoinCommand.isValidChannelName n = true

/-- A turn founds its channel or no channel, acts on it if it is there, and on no other. -/
structure NameTurn.Sound (founds : Bool) (u : Server) (t : NameTurn) : Prop where
  keys : ∀ n, n ∈ (step u t).channels.keys ↔ n ∈ u.channels.keys
    ∨ (founds && JoinCommand.isValidChannelName n) = true ∧ n = t.name
  acts : t.name ∈ u.channels.keys → t.ActsOn u t.name
  misses : t.name ∉ u.channels.keys → ∀ name ∈ u.channels.keys,
    toIrcLowerCase name = toIrcLowerCase t.name → ¬ t.ActsOn u name

theorem NameTurn.Sound.actsByCase_iff {founds : Bool} {u : Server} {t : NameTurn} (h : t.Sound founds u) :
    t.ActsByCase u ↔ ((∃ name ∈ u.channels.keys, toIrcLowerCase name = toIrcLowerCase t.name) →
      t.name ∈ u.channels.keys) := by
  refine imp_congr_right fun _ => ⟨fun hacts => ?_, fun hmem => ⟨t.name, hmem, rfl, h.acts hmem⟩⟩
  obtain ⟨name, hname, heq, hon⟩ := hacts
  by_contra hmissing
  exact h.misses hmissing name hname heq hon

/-- Something holds of the turns of a list, each in the state it begins in. -/
def NameTurn.Throughout (P : Server → NameTurn → Prop) (s : Server) (ts : List NameTurn) : Prop :=
  ∀ front t back, ts = front ++ t :: back → P (front.foldl step s) t

theorem NameTurn.throughout_nil {P : Server → NameTurn → Prop} {s : Server} : Throughout P s [] :=
  fun _ _ _ hts => absurd hts.symm (List.append_ne_nil_of_right_ne_nil _ (List.cons_ne_nil _ _))

theorem NameTurn.throughout_cons {P : Server → NameTurn → Prop} {s : Server} {t : NameTurn}
    {ts : List NameTurn} : Throughout P s (t :: ts) ↔ P s t ∧ Throughout P (step s t) ts := by
  constructor
  · intro h
    exact ⟨h [] t ts rfl, fun front t' back hts => h (t :: front) t' back (congrArg (t :: ·) hts)⟩
  · intro h front t' back hts
    cases front with
    | nil =>
      obtain ⟨rfl, -⟩ := List.cons.inj hts
      exact h.1
    | cons _ front =>
      obtain ⟨rfl, hts'⟩ := List.cons.inj hts
      exact h.2 front t' back hts'

/-- The names that are looked up are spelled as they are stored exactly if every turn acts by case. -/
theorem spelledAsStored_iff {founds : Bool} {s : Server} {ts : List NameTurn} {known : List Str}
    (hknown : ∀ n, n ∈ known ↔ n ∈ s.channels.keys)
    (hsound : NameTurn.Throughout (fun u t => t.Sound founds u) s ts) :
    SpelledAsStored founds known (ts.map NameTurn.name) ↔ NameTurn.Throughout NameTurn.ActsByCase s ts := by
  induction ts generalizing s known with
  | nil => exact iff_of_true trivial NameTurn.throughout_nil
  | cons t ts ih =>
    obtain ⟨ht, hts⟩ := NameTurn.throughout_cons.mp hsound
    rw [NameTurn.throughout_cons, ht.actsByCase_iff, List.map_cons, SpelledAsStored]
    refine and_congr (by simp only [hknown]) (ih (fun n => ?_) hts)
    rw [ht.keys n, ← hknown n]
    split_ifs with hfounds
    · rw [List.mem_cons]
      constructor
      · rintro (rfl | hn)
        · exact Or.inr ⟨hfounds, rfl⟩
        · exact Or.inl hn
      · exact fun hn => hn.elim Or.inr fun h => Or.inl h.2
    · exact ⟨Or.inl, fun hn => hn.elim id fun h => absurd (h.2 ▸ h.1) hfounds⟩

section Settled

variable {R : Str → Prop} {c : Ptr} {nickname name : Str} {u v : Server}

theorem Server.Within.settled (h : u.Within R name v) (hu : u.Settled c nickname) :
    v.Settled c nickname where
  allocated := by
    obtain ⟨x, hx⟩ := Option.isSome_iff_exists.mp hu.allocated
    obtain ⟨y, _, hy, _⟩ := h.offers c x hx
    rw [Server.Allocated, hy]
    rfl
  nickname_eq := (h.nickname c).trans hu.nickname_eq
  named n hn := hu.named n (h.mem_keys.mp hn)

/-- What holds of every turn in settled states holds throughout, if the turns keep states settled. -/
theorem NameTurn.throughout_of_settled {P : Server → NameTurn → Prop} {ts : List NameTurn}
    (h : ∀ t ∈ ts, ∀ u : Server, u.Settled c nickname → P u t ∧ (step u t).Settled c nickname)
    (hu : u.Settled c nickname) : Throughout P u ts := by
  induction ts generalizing u with
  | nil => exact throughout_nil
  | cons t ts ih =>
    obtain ⟨ht, hrest⟩ := List.forall_mem_cons.mp h
    exact throughout_cons.mpr ⟨(ht u hu).1, ih hrest (ht u hu).2⟩

/-- A turn that stays within its channel, and answers that there is none, is sound. -/
theorem NameTurn.sound_of_within {t : NameTurn} (hvalid : NickCommand.isValidNickname nickname = true)
    (hnumeric : lit ":server " <+: t.missing ∧ t.missing.length = 12) (hu : u.Settled c nickname)
    (hwithin : ∀ R, Allows R nickname t.missing →
      (u.findChannel t.name = none → ∀ rest, R (t.missing ++ rest)) → u.Within R t.name (step u t))
    (hmissing : u.findChannel t.name = none → JoinCommand.isValidChannelName t.name = true →
      ∃ rest, step u t = u.sendMessage c (t.missing ++ rest)) :
    t.Sound false u ∧ (step u t).Settled c nickname := by
  have hany := hwithin (fun _ => True) (allows_true _ _) fun _ _ => trivial
  refine ⟨⟨fun n => ?_, fun hmem => ?_, fun hnot name hname heq hon => ?_⟩, hany.settled hu⟩
  · rw [hany.mem_keys]
    exact ⟨Or.inl, fun hn => hn.elim id fun h => absurd h.1 Bool.false_ne_true⟩
  · obtain ⟨ch, hch⟩ := OrdMap.mem_keys.mp hmem
    have hfound := hwithin _ (allows_found hvalid hnumeric.1 hnumeric.2) fun hnone =>
      absurd (hnone.symm.trans hch) (Option.some_ne_none ch).symm
    exact ⟨.refl _, hfound.frame, hfound.offers⟩
  · have hnone : u.findChannel t.name = none :=
      Option.eq_none_iff_forall_ne_some.mpr fun ch hch => hnot (OrdMap.mem_keys.mpr ⟨ch, hch⟩)
    obtain ⟨rest, hstep⟩ := hmissing hnone (isValidChannelName_of_toIrcLowerCase heq (hu.named name hname))
    -- the client has been told
    obtain ⟨x, hx⟩ := Option.isSome_iff_exists.mp hu.allocated
    obtain ⟨y, texts, hy, hoffered, htexts⟩ := hon.found c x hx
    have hsent : y = x.sendMessage (t.missing ++ rest) := by
      rw [← step, hstep, Server.sendMessage, Server.heap_modify, if_pos rfl, hx] at hy
      exact (Option.some_inj.mp hy).symm
    rw [hsent, Client.offered_sendMessage] at hoffered
    have htext : t.missing ++ rest ∈ texts := List.append_cancel_left hoffered ▸ List.mem_singleton_self _
    exact htexts _ htext (List.prefix_append _ _)

/-- The turns of JOIN. -/
theorem JoinCommand.sound_joinOne {t : NameTurn} (hvalid : NickCommand.isValidNickname nickname = true)
    (hmissing : t.missing = lit ":server 403 ") {key : Str}
    (hrun : ∀ name s, t.run name s = joinOne s c name key) (hu : u.Settled c nickname) :
    t.Sound true u ∧ (NameTurn.step u t).Settled c nickname := by
  have hstep : NameTurn.step u t = joinOne u c t.name key := hrun _ _
  cases hch : u.findChannel t.name with
  | some ch =>
    have hmem : t.name ∈ u.channels.keys := OrdMap.mem_keys.mpr ⟨ch, hch⟩
    have hwithin : ∀ R, Allows R nickname t.missing → u.Within R t.name (NameTurn.step u t) := by
      intro R hR
      rw [hstep]
      rw [hmissing, ← hu.nickname_eq] at hR
      exact within_joinOne hR hch (hu.named _ hmem) key
    have hany := hwithin _ (allows_true _ _)
    have hfound := hwithin _ (allows_found hvalid (by rw [hmissing]; decide) (by rw [hmissing]; decide))
    refine ⟨⟨fun n => ?_, fun _ => ⟨.refl _, hfound.frame, hfound.offers⟩, fun h => absurd hmem h⟩,
      hany.settled hu⟩
    rw [hany.mem_keys]
    exact ⟨Or.inl, fun hn => hn.elim id fun h => h.2 ▸ hmem⟩
  | none =>
    have hnot : t.name ∉ u.channels.keys := by
      intro hmem
      obtain ⟨ch, hch'⟩ := OrdMap.mem_keys.mp hmem
      exact absurd (hch.symm.trans hch') (Option.some_ne_none ch).symm
    rw [joinOne_of_none hch] at hstep
    by_cases hname : isValidChannelName t.name = true
    · rw [if_pos hname] at hstep
      have hkeys : ∀ n, n ∈ (NameTurn.step u t).channels.keys ↔ n ∈ u.channels.keys ∨ n = t.name := by
        intro n
        rw [hstep, channels_announce, OrdMap.mem_keys, OrdMap.find?_insert]
        split_ifs with heq
        · exact iff_of_true ⟨_, rfl⟩ (Or.inr heq)
        · rw [← OrdMap.mem_keys]
          exact ⟨Or.inl, fun h => h.resolve_right heq⟩
      refine ⟨⟨fun n => ?_, fun h => absurd h hnot, fun _ name hmem _ hon => ?_⟩, ?_⟩
      · rw [hkeys]
        refine or_congr_right ⟨fun h => ⟨?_, h⟩, fun h => h.2⟩
        rw [h, hname]
        rfl
      · -- JOIN has founded a channel that is not the one it was to act on
        have hne : t.name ≠ name := fun heq => hnot (heq ▸ hmem)
        have hframe := hon.frame t.name hne
        obtain ⟨ch, hch'⟩ := OrdMap.mem_keys.mp ((hkeys t.name).mpr (Or.inr rfl))
        exact absurd (hch'.symm.trans (hframe.trans hch)) (Option.some_ne_none ch)
      · -- everything is announced in the state with the new channel
        have hfounded : Server.Settled
            { u with channels := u.channels.insert t.name (Channel.founded t.name c) } c nickname := by
          refine ⟨hu.allocated, hu.nickname_eq, fun n hn => ?_⟩
          obtain ⟨ch, hch'⟩ := OrdMap.mem_keys.mp hn
          rw [OrdMap.find?_insert] at hch'
          split_ifs at hch' with heq
          · exact heq ▸ hname
          · exact hu.named n (OrdMap.mem_keys.mpr ⟨ch, hch'⟩)
        rw [hstep]
        exact (within_announce (allows_true _ _) _ true).settled hfounded
    · rw [if_neg hname] at hstep
      have hany : u.Within (fun _ => True) t.name (NameTurn.step u t) := hstep ▸ .sendMessage c trivial
      refine ⟨⟨fun n => ?_, fun h => absurd h hnot, fun _ name hmem heq _ => ?_⟩, hany.settled hu⟩
      · rw [hany.mem_keys]
        refine ⟨Or.inl, fun hn => hn.elim id fun h => absurd h.1 ?_⟩
        rw [h.2, Bool.eq_false_iff.mpr hname]
        decide
      · exact absurd (isValidChannelName_of_toIrcLowerCase heq (hu.named name hmem)) hname

end Settled

/-! ## The turns of a command -/

theorem missing_403 : lit ":server " <+: lit ":server 403 " ∧ (lit ":server 403 ").length = 12 := by
  decide

theorem missing_401 : lit ":server " <+: lit ":server 401 " ∧ (lit ":server 401 ").length = 12 := by
  decide

section Turns

variable {s : Server} {c : Ptr} {params : List Str} (hs : s.Settled c (s.nickname c))
  (hvalid : NickCommand.isValidNickname (s.nickname c) = true)
include hs hvalid

/-- A JOIN founds what it does not find. -/
theorem JoinCommand.sound_turns (names keys : List Str) :
    NameTurn.Throughout (fun u t => t.Sound true u) s (JoinCommand.turns c names keys) := by
  refine NameTurn.throughout_of_settled (fun t ht u hu => ?_) hs
  obtain ⟨hmissing, key, hrun⟩ := JoinCommand.of_mem_turns ht
  exact JoinCommand.sound_joinOne hvalid hmissing (fun _ _ => by rw [hrun]) hu

theorem KickCommand.sound_turns :
    NameTurn.Throughout (fun u t => t.Sound false u) s (KickCommand.turns c params) := by
  unfold KickCommand.turns
  split
  · exact NameTurn.throughout_nil
  next reason l _ =>
  refine NameTurn.throughout_of_settled (fun t ht u hu => ?_) hs
  obtain ⟨e, -, rfl⟩ := List.mem_map.mp ht
  refine NameTurn.sound_of_within hvalid missing_403 hu (fun R hR hnone => ?_) fun hnone _ => ?_
  · exact KickCommand.within_kickOne (hu.nickname_eq.symm ▸ hR) hnone reason e.2
  · exact KickCommand.kickOne_of_none hnone reason e.2

/-- The prefix is made once, in front of the loop, and the nickname in it stays. -/
theorem PrivmsgCommand.sound_turns : NameTurn.Throughout (fun u t => t.Sound false u) s
    (PrivmsgCommand.turns (userPrefix s c) c params) := by
  rcases params with _ | ⟨targets, _ | ⟨text, rest⟩⟩
  · exact NameTurn.throughout_nil
  · exact NameTurn.throughout_nil
  refine NameTurn.throughout_of_settled (fun t ht u hu => ?_) hs
  obtain ⟨target, -, rfl⟩ := List.mem_map.mp ht
  refine NameTurn.sound_of_within hvalid missing_401 hu (fun R hR hnone => ?_) fun hnone hname => ?_
  · have hfrom := fromUser_userPrefix s c
    rw [← hu.nickname_eq] at hfrom hR
    exact PrivmsgCommand.within_sendOne hR hnone hu.named hfrom text
  · exact PrivmsgCommand.sendOne_of_none (PrivmsgCommand.isChannel_of_isValidChannelName hname)
      hnone _ text

theorem TopicCommand.sound_turns :
    NameTurn.Throughout (fun u t => t.Sound false u) s (TopicCommand.turns c params) := by
  cases params with
  | nil => exact NameTurn.throughout_nil
  | cons name rest =>
    refine NameTurn.throughout_of_settled (fun t ht u hu => ?_) hs
    obtain rfl := List.mem_singleton.mp ht
    refine NameTurn.sound_of_within hvalid missing_403 hu (fun R hR hnone => ?_) fun hnone _ => ?_
    · exact TopicCommand.within_execute (hu.nickname_eq.symm ▸ hR) hnone rest
    · exact TopicCommand.execute_of_none hnone rest

theorem ModeCommand.sound_turns :
    NameTurn.Throughout (fun u t => t.Sound false u) s (ModeCommand.turns c params) := by
  cases params with
  | nil => exact NameTurn.throughout_nil
  | cons name rest =>
    refine NameTurn.throughout_of_settled (fun t ht u hu => ?_) hs
    obtain rfl := List.mem_singleton.mp ht
    refine NameTurn.sound_of_within hvalid missing_403 hu (fun R hR hnone => ?_) fun hnone hname => ?_
    · exact ModeCommand.within_execute (hu.nickname_eq.symm ▸ hR) hnone rest
    · exact ModeCommand.execute_of_none hname hnone rest

/-- INVITE gets to the channel only if it finds the client. -/
theorem InviteCommand.sound_turns (hthere : s.findClientByNick (params.headD []) ≠ none) :
    NameTurn.Throughout (fun u t => t.Sound false u) s (InviteCommand.turns c params) := by
  rcases params with _ | ⟨nick, _ | ⟨name, rest⟩⟩
  · exact NameTurn.throughout_nil
  · exact NameTurn.throughout_nil
  have hsound := NameTurn.sound_of_within (t := ⟨name, lit ":server 403 ", fun name s =>
      InviteCommand.execute s c (nick :: name :: rest)⟩) hvalid missing_403 hs
    (fun R hR hnone => InviteCommand.within_execute hR hnone nick rest)
    fun hnone _ => InviteCommand.execute_of_none hthere hnone rest
  exact NameTurn.throughout_cons.mpr ⟨hsound.1, NameTurn.throughout_nil⟩

end Turns

/-! ## The turns of a line -/

namespace Server

variable {s : Server} {c : Ptr} {m : Message}

/-- The turns of a line are sound, if it does not invite somebody who is not there. -/
theorem sound_turns (hs : s.Settled c (s.nickname c))
    (hvalid : (s.client c).isRegistered = true → NickCommand.isValidNickname (s.nickname c) = true)
    (hthere : m.handler = some .invite → s.findClientByNick (m.params.headD []) ≠ none) :
    NameTurn.Throughout (fun u t => t.Sound (m.handler = some .join) u) s (s.turns c m) := by
  unfold turns
  by_cases hreg : (s.client c).isRegistered = true
  swap
  · rw [if_neg hreg]
    exact NameTurn.throughout_nil
  rw [if_pos hreg]
  have hvalid := hvalid hreg
  cases hm : m.handler with
  | none => exact NameTurn.throughout_nil
  | some command =>
    cases command with
    | join =>
      dsimp only
      split_ifs
      · exact NameTurn.throughout_nil
      · exact JoinCommand.sound_turns hs hvalid m.channelNames m.keys
    | kick => exact KickCommand.sound_turns hs hvalid
    | privmsg => exact PrivmsgCommand.sound_turns hs hvalid
    | topic => exact TopicCommand.sound_turns hs hvalid
    | mode => exact ModeCommand.sound_turns hs hvalid
    | invite => exact InviteCommand.sound_turns hs hvalid (hthere hm)
    | pass | nick | user => exact NameTurn.throughout_nil

/-- Who invites somebody who is not there hears that first, whatever the channel. -/
theorem actsByCase_of_nobody
    (hvalid : (s.client c).isRegistered = true → NickCommand.isValidNickname (s.nickname c) = true)
    (hm : m.handler = some .invite) (hnobody : s.findClientByNick (m.params.headD []) = none) :
    NameTurn.Throughout NameTurn.ActsByCase s (s.turns c m) := by
  unfold turns
  by_cases hreg : (s.client c).isRegistered = true
  swap
  · rw [if_neg hreg]
    exact NameTurn.throughout_nil
  rw [if_pos hreg, hm]
  dsimp only
  unfold InviteCommand.turns
  split
  swap
  · exact NameTurn.throughout_nil
  next nick name rest hparams =>
  refine NameTurn.throughout_cons.mpr ⟨fun hex => ?_, NameTurn.throughout_nil⟩
  obtain ⟨stored, hstored, heq⟩ := hex
  rw [hparams] at hnobody
  have hrun : ∀ n, InviteCommand.execute s c (nick :: n :: rest) = s.sendMessage c
      (lit ":server 401 " ++ s.nickname c ++ lit " " ++ nick ++ lit " :No such nick/channel\r\n") := by
    intro n
    rw [InviteCommand.execute]
    dsimp only
    rw [show s.findClientByNick nick = none from hnobody]
  have hwithin : s.Within (fun text => ¬ lit ":server 403 " <+: text) stored
      (InviteCommand.execute s c (nick :: name :: rest)) := by
    rw [hrun]
    simp only [List.append_assoc]
    refine .sendMessage c ?_
    exact (allows_found (hvalid hreg) (by decide) (by decide)).reply _ (by decide) (by decide)
  refine ⟨stored, hstored, heq, ?_, hwithin.frame, hwithin.offers⟩
  show (InviteCommand.execute s c (nick :: name :: rest)).SameUpToCase
    (InviteCommand.execute s c (nick :: stored :: rest))
  rw [hrun, hrun]
  exact .refl _

/-- A line spells the channels as they are stored exactly if all of its turns act by case. -/
theorem canonicalSpelling_iff (hs : s.Settled c (s.nickname c))
    (hvalid : (s.client c).isRegistered = true → NickCommand.isValidNickname (s.nickname c) = true) :
    canonicalSpelling.line s c m ↔ NameTurn.Throughout NameTurn.ActsByCase s (s.turns c m) := by
  show SpelledAsStored _ _ (s.lookedUp c m) ↔ _
  unfold lookedUp
  split_ifs with hnobody
  · exact iff_of_true trivial (actsByCase_of_nobody hvalid hnobody.1 hnobody.2)
  · refine spelledAsStored_iff (fun _ => Iff.rfl) (sound_turns hs hvalid fun hm hfind => ?_)
    exact hnobody ⟨hm, hfind⟩

end Server

section Lines

variable {c : Ptr} {m : Message} {s₀ s : Server}

/-- The channels there are while a line is handled. -/
theorem Effects.mem_keys (h : Effects c m s₀ s) {name : Str} (hname : name ∈ s.channels.keys) :
    name ∈ s₀.channels.keys ∨ ((s₀.client c).isRegistered = true ∧ m.handler = some .join
      ∧ ¬ m.LeavesAll ∧ name ∈ m.channelNames ∧ JoinCommand.isValidChannelName name = true) := by
  revert name
  apply h.induct (P := fun t => ∀ {name}, name ∈ t.channels.keys → name ∈ s₀.channels.keys
    ∨ ((s₀.client c).isRegistered = true ∧ m.handler = some .join ∧ ¬ m.LeavesAll
      ∧ name ∈ m.channelNames ∧ JoinCommand.isValidChannelName name = true)) Or.inl
  intro t t' _ heff ht n hn
  cases heff with
  | reply => exact ht hn
  | relay => exact ht hn
  | own => exact ht hn
  | @found _ name hreg hm hzero hname hvalid =>
    obtain ⟨ch, hch⟩ := OrdMap.mem_keys.mp hn
    rw [OrdMap.find?_insert] at hch
    split_ifs at hch with heq
    · subst heq
      exact Or.inr ⟨hreg, hm, fun hleaves => hzero hleaves.2, hname, hvalid⟩
    · exact ht (OrdMap.mem_keys.mpr ⟨ch, hch⟩)
  | change =>
    refine ht ?_
    rwa [Server.modifyChannel, OrdMap.keys_modify] at hn
  | part =>
    refine ht ?_
    rwa [Server.modifyChannel, OrdMap.keys_modify] at hn
  | @dissolve _ name ch _ _ hch =>
    obtain ⟨ch', hch'⟩ := OrdMap.mem_keys.mp hn
    rw [← Server.findChannel, Server.findChannel_removeChannel, Server.findChannel_modifyChannel hch]
      at hch'
    split_ifs at hch' with _ heq
    · exact ht (heq ▸ OrdMap.mem_keys.mpr ⟨ch, hch⟩)
    · exact ht (OrdMap.mem_keys.mpr ⟨ch', hch'⟩)

theorem Effects.distinctNames (h : Effects c m s₀ s) (h₀ : DistinctNames s₀.channels.keys)
    (hspelled : canonicalSpelling.line s₀ c m) : DistinctNames s.channels.keys := by
  by_cases hjoin : (s₀.client c).isRegistered = true ∧ m.handler = some .join ∧ ¬ m.LeavesAll
  · obtain ⟨hreg, hm, hzero⟩ := hjoin
    have hlookedUp : s₀.lookedUp c m = m.channelNames := by
      unfold Server.lookedUp Server.turns
      rw [if_pos hreg, hm, if_neg (fun h => absurd h.1 (by decide))]
      dsimp only
      rw [if_neg (fun hhead => hzero ⟨hm, hhead⟩), JoinCommand.map_name_turns]
    have hdistinct : DistinctNames
        (s₀.channels.keys ++ m.channelNames.filter JoinCommand.isValidChannelName) := by
      have hspelled' : SpelledAsStored (m.handler = some .join) s₀.channels.keys (s₀.lookedUp c m) :=
        hspelled
      rw [hlookedUp] at hspelled'
      simp only [hm, decide_true] at hspelled'
      exact hspelled'.distinct h₀
    have hsub : ∀ n ∈ s.channels.keys,
        n ∈ s₀.channels.keys ++ m.channelNames.filter JoinCommand.isValidChannelName := by
      intro n hn
      rw [List.mem_append, List.mem_filter]
      exact (h.mem_keys hn).imp id fun hnew => hnew.2.2.2
    exact fun n hn n' hn' => hdistinct n (hsub n hn) n' (hsub n' hn')
  · have hsub : ∀ n ∈ s.channels.keys, n ∈ s₀.channels.keys := by
      intro n hn
      exact (h.mem_keys hn).resolve_right fun hnew => hjoin ⟨hnew.1, hnew.2.1, hnew.2.2.1⟩
    exact fun n hn n' hn' => h₀ n (hsub n hn) n' (hsub n' hn')

/-- A line that names no channel leaves the channels alone, `JOIN 0` apart. -/
theorem Effects.channels_of_unnamed (h : Effects c m s₀ s) (hnames : m.channelNames = [])
    (hleaves : ¬ m.LeavesAll) : s.channels = s₀.channels := by
  have hnone : ∀ {name}, name ∉ m.channelNames := fun {name} => hnames ▸ List.not_mem_nil
  apply h.induct (P := fun t => t.channels = s₀.channels) rfl
  intro t t' _ heff ht
  cases heff with
  | reply => exact ht
  | relay => exact ht
  | own => exact ht
  | found _ _ _ hname => exact absurd hname hnone
  | change _ hname => exact absurd hname hnone
  | part _ h => exact absurd h hleaves
  | dissolve _ h => exact absurd h hleaves

/-- Only KICK can name channels and have no turns, if it has no user to kick. -/
theorem Server.channelNames_of_no_turns (hreg : (s.client c).isRegistered = true)
    (hturns : s.turns c m = []) (hleaves : ¬ m.LeavesAll) (hkick : m.handler ≠ some .kick) :
    m.channelNames = [] := by
  rw [turns, if_pos hreg] at hturns
  cases hm : m.handler with
  | none => rw [Message.channelNames, hm]
  | some command =>
    rw [hm] at hturns
    cases command with
    | join =>
      dsimp only at hturns
      rw [if_neg (fun hhead => hleaves ⟨hm, hhead⟩)] at hturns
      rw [← JoinCommand.map_name_turns c m.channelNames m.keys, hturns]
      rfl
    | kick => exact absurd hm hkick
    | topic | mode =>
      rw [Message.channelNames, hm]
      cases hparams : m.params with
      | nil => rfl
      | cons =>
        rw [hparams] at hturns
        exact absurd hturns (List.cons_ne_nil _ _)
    | invite =>
      rw [Message.channelNames, hm]
      rcases hparams : m.params with _ | ⟨nick, _ | ⟨name, rest⟩⟩
      · rfl
      · rfl
      · rw [hparams] at hturns
        exact absurd hturns (List.cons_ne_nil _ _)
    | privmsg | pass | nick | user => rw [Message.channelNames, hm]

/-- Its loop is empty then. -/
theorem KickCommand.channels_of_no_turns {params : List Str} (hturns : turns c params = []) :
    (execute s c params).channels = s.channels := by
  unfold turns at hturns
  rw [execute_eq]
  cases hloop : loopOf params with
  | none => rfl
  | some loop =>
    rw [hloop] at hturns
    have hnil : loop.2 = [] := List.map_eq_nil_iff.mp hturns
    show (loop.2.foldl _ s).channels = s.channels
    rw [hnil]
    rfl

/-- What has no turns leaves the channels alone. -/
theorem Server.channels_of_no_turns (hc : s.Allocated c) (hturns : s.turns c m = [])
    (hleaves : ¬ m.LeavesAll) : (s.processMessage c m).channels = s.channels := by
  obtain ⟨x, hx⟩ := Option.isSome_iff_exists.mp hc
  have heffects := s.processMessage_effects hx m
  by_cases hreg : (s.client c).isRegistered = true
  swap
  · exact heffects.channels_of_unregistered (Bool.eq_false_iff.mpr hreg)
  by_cases hkick : m.handler = some .kick
  · rw [turns, if_pos hreg, hkick] at hturns
    rw [processMessage_of_registered hreg hkick]
    exact KickCommand.channels_of_no_turns hturns
  · exact heffects.channels_of_unnamed (channelNames_of_no_turns hreg hturns hleaves hkick) hleaves

end Lines

/-- The states of a run are settled for whoever sends a line. -/
theorem DispatchOf.settled {c : Ptr} {line : Str} {s t s' : Server} (h : DispatchOf c line s t s')
    (hreach : Reachable s) : t.Settled c (t.nickname c) where
  allocated := h.allocated
  nickname_eq := rfl
  named n hn := by
    obtain ⟨ch, hch⟩ := OrdMap.mem_keys.mp hn
    rw [← Server.findChannel, h.findChannel_eq] at hch
    exact (hreach.keyed n ch hch).1

/-- As long as channels are spelled as they were founded, no two channels are equal up to the
casemapping. A line is its turns, each about one name, and leaves the channels alone if it has none
and is not `JOIN 0`; it keeps to the spelling exactly if every turn acts on the channel that has
its name up to the casemapping, where there is one. -/
theorem channels_casemapped (s : Server) :
    (GuardedReachable canonicalSpelling s →
      ∀ name name' ch ch', s.findChannel name = some ch → s.findChannel name' = some ch' →
        toIrcLowerCase ch.name = toIrcLowerCase ch'.name → name = name')
    ∧ ∀ c line t s', Reachable s → DispatchOf c line s t s' →
        let m := Parser.parse line
        (t.turns c m ≠ [] → t.processLine c line = (t.turns c m).foldl NameTurn.step t)
        ∧ (t.turns c m = [] → ¬ m.LeavesAll → (t.processLine c line).channels = t.channels)
        ∧ (canonicalSpelling.line t c m ↔ ∀ front turn back, t.turns c m = front ++ turn :: back →
            turn.ActsByCase (front.foldl NameTurn.step t)) := by
  constructor
  · intro h name name' ch ch' hch hch' heq
    have hdistinct : DistinctNames s.channels.keys := by
      refine h.induct (P := fun t => DistinctNames t.channels.keys) (fun _ _ n hn => ?_)
        fun u v hu hmove hmet hu' => ?_
      · exact absurd hn List.not_mem_nil
      cases hmove with
      | connect => exact hu'
      | io => exact hu'
      | @line c x x' line hx live hextract =>
        have hdispatch : DispatchOf c line u _ _ := ⟨x, x', hx, live, hextract, rfl, rfl⟩
        exact hdispatch.effects.distinctNames hu' (hmet.1 c line _ hdispatch)
      | @disconnect fd _ _ hfd =>
        have hkeys : ∀ n, n ∈ (u.disconnectClient fd).channels.keys → n ∈ u.channels.keys := by
          intro n hn
          obtain ⟨ch, hch⟩ := OrdMap.mem_keys.mp hn
          rw [← Server.findChannel, u.findChannel_disconnectClient hfd] at hch
          obtain ⟨ch₀, hch₀, _⟩ := Option.map_eq_some_iff.mp hch
          exact OrdMap.mem_keys.mpr ⟨ch₀, hch₀⟩
        exact fun n hn n' hn' => hu' n (hkeys n hn) n' (hkeys n' hn')
      | poll h =>
        obtain ⟨_, rfl, _⟩ := Server.of_refreshPollEvents h
        exact hu'
    have hint := h.reachable.integrity
    rw [(hint.channel name ch hch).name_eq, (hint.channel name' ch' hch').name_eq] at heq
    exact hdistinct name (OrdMap.mem_keys.mpr ⟨ch, hch⟩) name' (OrdMap.mem_keys.mpr ⟨ch', hch'⟩) heq
  · intro c line t s' hreach hdispatch
    refine ⟨Server.processMessage_eq_turns, Server.channels_of_no_turns hdispatch.allocated, ?_⟩
    exact Server.canonicalSpelling_iff (hdispatch.settled hreach) fun hreg =>
      hdispatch.isValidNickname hreach hreg

/-- The second client of the sample spells the channel in capitals. -/
def shadowed : Server := sample.run [.read 5 (.data (lit "JOIN #C
MODE #C +k secret
"))]

theorem shadowed_channels :
    Reachable shadowed ∧ toIrcLowerCase (lit "#c") = toIrcLowerCase (lit "#C")
      ∧ (shadowed.findChannel (lit "#c")).map (fun ch => (ch.members, ch.operators, ch.password))
          = some ([0, 1], [0], [])
      ∧ (shadowed.findChannel (lit "#C")).map (fun ch => (ch.members, ch.operators, ch.password))
          = some ([1], [1], lit "secret") :=
  ⟨reachable_sample.run (by decide +kernel), by decide, by decide +kernel, by decide +kernel⟩

/-- The second client of the sample, about to spell the channel in capitals. -/
def misspeller : Client := ((sample.client 1).appendToRecvBuffer (lit "JOIN #C\r\n")).1

def misspelling : Server := sample.modify 1 fun _ => misspeller

/-- In the run of the sample both clients spell the channel in the same way, and the JOIN behind it
does not act on the channel that there is. -/
theorem channels_casemapped_sample :
    (∀ name ch, sample.findChannel name = some ch →
      toIrcLowerCase ch.name = toIrcLowerCase (lit "#c") → name = lit "#c")
    ∧ ∃ t s', Reachable misspelling ∧ DispatchOf 1 (lit "JOIN #C") misspelling t s'
      ∧ ∃ front turn back, t.turns 1 (Parser.parse (lit "JOIN #C")) = front ++ turn :: back
        ∧ ¬ turn.ActsByCase (front.foldl NameTurn.step t) := by
  obtain ⟨⟨hadm, hmeets, hchannel⟩, hsome, hlive, hchunk, happended, hlive', hline, hspelled⟩ :
      ((Server.start (lit "pw") 3).AdmitsAll sampleEvents
        ∧ canonicalSpelling.MeetsAll (Server.start (lit "pw") 3) sampleEvents
        ∧ (sample.findChannel (lit "#c")).map Channel.name = some (lit "#c"))
      ∧ (sample.heap 1).isSome = true ∧ (sample.client 1).stopped = false ∧ IsChunk (lit "JOIN #C\r\n")
      ∧ ((sample.client 1).appendToRecvBuffer (lit "JOIN #C\r\n")).2 = true
      ∧ misspeller.stopped = false ∧ misspeller.extractLine.2 = some (lit "JOIN #C")
      ∧ ¬ canonicalSpelling.line (misspelling.modify 1 fun _ => misspeller.extractLine.1) 1
        (Parser.parse (lit "JOIN #C")) := by
    decide +kernel
  constructor
  · intro name ch hch heq
    obtain ⟨ch', hch', hname⟩ := Option.map_eq_some_iff.mp hchannel
    rw [← hname] at heq
    exact (channels_casemapped sample).1 (guardedReachable_run hadm hmeets) name _ ch ch' hch hch' heq
  · obtain ⟨x, hx⟩ := Option.isSome_iff_exists.mp hsome
    rw [Server.client_of_heap hx] at hlive happended
    have hmove : Move sample misspelling := by
      rw [misspelling, misspeller, Server.client_of_heap hx]
      exact .io hx (.received hlive hchunk happended)
    have hreach : Reachable misspelling := reachable_sample.move hmove
    have hheap : misspelling.heap 1 = some misspeller := by
      rw [misspelling, Server.heap_extracted hx]
    have hextract : misspeller.extractLine = (misspeller.extractLine.1, some (lit "JOIN #C")) := by
      rw [← hline]
    have hdispatch : DispatchOf 1 (lit "JOIN #C") misspelling
        (misspelling.modify 1 fun _ => misspeller.extractLine.1) _ :=
      ⟨misspeller, misspeller.extractLine.1, hheap, hlive', hextract, rfl, rfl⟩
    obtain ⟨-, -, hexact⟩ := (channels_casemapped misspelling).2 1 _ _ _ hreach hdispatch
    refine ⟨_, _, hreach, hdispatch, ?_⟩
    by_contra hnone
    rw [hexact] at hspelled
    apply hspelled
    intro front turn back hturns
    by_contra hacts
    exact hnone ⟨front, turn, back, hturns, hacts⟩

end FtIrc
