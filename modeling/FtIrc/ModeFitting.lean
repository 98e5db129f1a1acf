import FtIrc.Fitting
import FtIrc.ModeLetters

/-!
# Which MODE lines are answered in full

The letters of a mode string that take effect are collected, each with its argument, and announced
in one message behind the loop. `announcedBytes` counts, letter by letter in the state before it,
what the announcement grows by; the loop adds up to exactly that.
-/

namespace FtIrc

open Bytes Server

namespace ModeCommand

/-- A letter is announced behind its sign unless the last announced one had the same. -/
def signBytes (m : ModeLoop) : ℕ := if m.lastSign = some (sign m.isPlus) then 0 else 1

/-- The length of a letter's announcement without the sign, 0 if the letter changes nothing. -/
def letterBytes (channel : Channel) (m : ModeLoop) (c : Byte) : ℕ :=
  if c = ch 'i' then if channel.inviteOnly != m.isPlus then 1 else 0
  else if c = ch 't' then if channel.topicRestricted != m.isPlus then 1 else 0
  else if c = ch 'k' then
    match m.params with
    | [] => 0
    | key :: _ =>
      if m.isPlus = true then
        if badKey key = false ∧ channel.password = [] then 1 + (1 + key.length) else 0
      else if channel.password = key then 1 + 2 else 0
  else if c = ch 'l' then
    if m.isPlus = true then
      match m.params with
      | [] => 0
      | limitStr :: _ =>
        let limit := atoi limitStr
        if badLimit limitStr = false ∧ limit > 0 ∧ channel.userLimit ≠ limit.toNat then
          1 + (1 + (decimal limit.toNat).length)
        else 0
    else if channel.userLimit > 0 then 1 else 0
  else if c = ch 'o' then
    match m.params with
    | [] => 0
    | targetNick :: _ =>
      if ∃ q ∈ m.server.findClientByNick targetNick,
          q ∈ channel.members ∧ channel.isOperator q ≠ m.isPlus then 1 + (1 + targetNick.length)
      else 0
  else 0

/-- The length of a letter's announcement. -/
def turnBytes (channel : Channel) (m : ModeLoop) (c : Byte) : ℕ :=
  if letterBytes channel m c = 0 then 0 else signBytes m + letterBytes channel m c

/-- What the mode string adds to the announcement. -/
def announcedBytes (client : Ptr) (target : Str) : Str → ModeLoop → ℕ
  | [], _ => 0
  | c :: cs, m =>
    (match m.server.findChannel target with
      | none => 0
      | some channel => turnBytes channel m c)
    + announcedBytes client target cs (modeLetter client target m c)

/-- A letter repeats the argument it cannot use. -/
def LetterFits (client : Ptr) (target : Str) (channel : Channel) (m : ModeLoop) (c : Byte) : Prop :=
  let told := 12 + (m.server.nickname client).length + 1
  ∀ argument ∈ m.params.head?,
    (c = ch 'k' → m.isPlus = true → badKey argument = true →
      told + target.length + 3 + argument.length + 47 ≤ 512)
    ∧ (c = ch 'l' → m.isPlus = true → badLimit argument = true →
      told + target.length + 3 + argument.length + 50 ≤ 512)
    ∧ (c = ch 'o' → (∀ q ∈ m.server.findClientByNick argument, q ∉ channel.members) →
      told + argument.length + 1 + target.length + 31 ≤ 512)

instance (client : Ptr) (target : Str) (channel : Channel) (m : ModeLoop) (c : Byte) :
    Decidable (LetterFits client target channel m c) :=
  inferInstanceAs (Decidable (∀ a ∈ m.params.head?, (_ → _ → _ → _) ∧ (_ → _ → _ → _)
    ∧ (_ → (∀ q ∈ m.server.findClientByNick a, _) → _)))

/-- Every letter of the mode string, in the state its turn begins in. -/
def FitsLoop (client : Ptr) (target : Str) : Str → ModeLoop → Prop
  | [], _ => True
  | c :: cs, m =>
    (∀ channel ∈ m.server.findChannel target, LetterFits client target channel m c)
      ∧ FitsLoop client target cs (modeLetter client target m c)

instance decidableFitsLoop (client : Ptr) (target : Str) : (l : Str) → (m : ModeLoop) →
    Decidable (FitsLoop client target l m)
  | [], _ => .isTrue trivial
  | c :: cs, m =>
    have := decidableFitsLoop client target cs (modeLetter client target m c)
    inferInstanceAs (Decidable ((∀ channel ∈ m.server.findChannel target, _) ∧ _))

/-- The modes that are told, and the modes that are set. -/
def FitsChannel (s : Server) (client : Ptr) (target : Str) (channel : Channel) :
    List Str → Prop
  | [] =>
    12 + (s.nickname client).length + 1 + target.length + 1 + (activeModes channel).length + 2 ≤ 512
  | modeString :: arguments =>
    let start : ModeLoop := { server := s, params := arguments }
    client ∈ channel.operators → unknownLetter modeString = none →
      FitsLoop client target modeString start
      ∧ (0 < announcedBytes client target modeString start →
          1 + (s.nickname client).length + 2 + (s.username client).length + 16 + target.length + 1
            + announcedBytes client target modeString start + 2 ≤ 512)

instance (s : Server) (client : Ptr) (target : Str) (channel : Channel) : (rest : List Str) →
    Decidable (FitsChannel s client target channel rest)
  | [] => inferInstanceAs (Decidable (_ ≤ _))
  | _ :: _ => inferInstanceAs (Decidable (_ → _ → _ ∧ (_ → _)))

/-- A name that is not a channel's is repeated. -/
def Fits (s : Server) (client : Ptr) (params : List Str) : Prop :=
  (params.headD []).head? = some (ch '#') ∨ (params.headD []).head? = some (ch '&') →
    (s.findChannel (params.headD []) = none →
      12 + (s.nickname client).length + 1 + (params.headD []).length + 19 ≤ 512)
    ∧ ∀ channel ∈ s.findChannel (params.headD []),
        FitsChannel s client (params.headD []) channel params.tail

instance (s : Server) (client : Ptr) (params : List Str) : Decidable (Fits s client params) :=
  inferInstanceAs (Decidable (_ → (_ → _) ∧ ∀ channel ∈ s.findChannel (params.headD []), _))

/-! ## One letter -/

variable {c : Ptr} {target : Str} {channel : Channel} {m m' : ModeLoop}

/-- What holds of the loop over a mode string before each letter. -/
structure Announcing (c : Ptr) (target : Str) (m : ModeLoop) : Prop where
  tidy : m.server.Tidy
  allocated : m.server.Allocated c
  member : ∃ ch, m.server.findChannel target = some ch ∧ c ∈ ch.members
  params : ∀ p ∈ m.params, Clean p
  appliedModes : Clean m.appliedModes
  appliedParams : Clean m.appliedParams
  blank : m.appliedModes = [] → m.appliedParams = []

/-- One turn of the loop: what it has answered, and what it has added to the announcement. -/
structure Turn (c : Ptr) (target : Str) (m m' : ModeLoop) (fits : Prop) (bytes : ℕ) : Prop where
  announcing : Announcing c target m'
  answers : m.server.Answers m'.server fits
  length : m'.appliedModes.length + m'.appliedParams.length
    = m.appliedModes.length + m.appliedParams.length + bytes
  client : m'.server.nickname c = m.server.nickname c ∧ m'.server.username c = m.server.username c

namespace Turn

variable (hm : Announcing c target m)
include hm

theorem keep {rest : List Str} (hrest : ∀ p ∈ rest, p ∈ m.params) (isPlus : Bool) :
    Turn c target m { m with params := rest, isPlus } True 0 where
  announcing := ⟨hm.tidy, hm.allocated, hm.member, fun p hp => hm.params p (hrest p hp),
    hm.appliedModes, hm.appliedParams, hm.blank⟩
  answers := .refl hm.tidy
  length := rfl
  client := ⟨rfl, rfl⟩

theorem reply {rest : List Str} (hrest : ∀ p ∈ rest, p ∈ m.params) {head tail : Str}
    (hhead : Clean head) (htail : isValidOutboundMessage tail = true) {n : ℕ}
    (hn : head.length + tail.length = n) :
    Turn c target m (ModeLoop.reply { m with params := rest } c (head ++ tail)) (n ≤ 512) 0 := by
  have htold := hm.tidy.tell hm.allocated hhead htail hn
  refine ⟨⟨htold.tidy, htold.allocated c hm.allocated, hm.member, fun p hp => hm.params p (hrest p hp),
    hm.appliedModes, hm.appliedParams, hm.blank⟩, htold, rfl, ?_, ?_⟩
  · exact nickname_sendMessage ..
  · exact username_sendMessage ..

theorem change {r : List Str} (hrest : ∀ p ∈ r, p ∈ m.params) {f : Channel → Channel}
    (hf : ∀ ch, ChannelTexts target ch → ChannelTexts target (f ch) ∧ (f ch).members = ch.members)
    {isPlus : Bool} (hsign : isPlus = m.isPlus) {letter : Byte} {piece : Str}
    (hletter : Clean [letter]) (hpiece : Clean piece) :
    Turn c target m ((ModeLoop.change { m with params := r } target f).applied isPlus letter piece)
      True (signBytes m + (1 + piece.length)) := by
  subst hsign
  have hchanged := hm.tidy.modifyChannel (n := target) (f := f) fun ch _ htexts =>
    ⟨(hf ch htexts).1, fun p hp => Or.inl ((hf ch htexts).2 ▸ hp)⟩
  have hmember : ∃ ch, (m.server.modifyChannel target f).findChannel target = some ch
      ∧ c ∈ ch.members := by
    obtain ⟨ch, hch, hin⟩ := hm.member
    refine ⟨f ch, ?_, ?_⟩
    · rw [modifyChannel_eq _ hch, findChannel_modifyChannel hch, if_pos rfl]
    · rwa [(hf ch (hm.tidy.texts target ch hch)).2]
  have hsignClean : Clean [sign m.isPlus] := by
    cases m.isPlus <;> decide
  unfold ModeLoop.applied ModeLoop.change signBytes
  dsimp only
  by_cases hsame : m.lastSign = some (sign m.isPlus)
  · rw [if_neg (not_not_intro hsame), if_pos hsame]
    refine ⟨⟨hchanged.tidy, hchanged.allocated c hm.allocated, hmember,
      fun p hp => hm.params p (hrest p hp), clean_append.mpr ⟨hm.appliedModes, hletter⟩,
      clean_append.mpr ⟨hm.appliedParams, hpiece⟩, fun h => ?_⟩, hchanged, ?_, rfl, rfl⟩
    · exact absurd h (List.append_ne_nil_of_right_ne_nil _ (List.cons_ne_nil _ _))
    · simp only [List.length_append, List.length_singleton]
      omega
  · rw [if_pos hsame, if_neg hsame]
    refine ⟨⟨hchanged.tidy, hchanged.allocated c hm.allocated, hmember,
      fun p hp => hm.params p (hrest p hp),
      clean_append.mpr ⟨clean_append.mpr ⟨hm.appliedModes, hsignClean⟩, hletter⟩,
      clean_append.mpr ⟨hm.appliedParams, hpiece⟩, fun h => ?_⟩, hchanged, ?_, rfl, rfl⟩
    · exact absurd h (List.append_ne_nil_of_right_ne_nil _ (List.cons_ne_nil _ _))
    · simp only [List.length_append, List.length_singleton]
      omega

omit hm in
theorem congr {f g : Prop} {i j : ℕ} (h : Turn c target m m' f i) (hfg : f ↔ g) (hij : i = j) :
    Turn c target m m' g j :=
  ⟨h.announcing, h.answers.congr hfg, hij ▸ h.length, h.client⟩

end Turn

section Letters

variable (hm : Announcing c target m)
include hm

/-- The channel's name is not long. -/
theorem Announcing.short_target : Short 50 target := by
  obtain ⟨ch, hch, _⟩ := hm.member
  exact (hm.tidy.texts target ch hch).name

omit hm in
/-- Letters that do not repeat arguments. -/
theorem letterFits_of_ne {letter : Byte} (hk : letter ≠ ch 'k') (hl : letter ≠ ch 'l')
    (ho : letter ≠ ch 'o') : True ↔ LetterFits c target channel m letter :=
  iff_of_true trivial fun _ _ => ⟨fun h => absurd h hk, fun h => absurd h hl, fun h => absurd h ho⟩

omit hm in
theorem turnBytes_zero {letter : Byte} (h : letterBytes channel m letter = 0) :
    0 = turnBytes channel m letter := by
  rw [turnBytes, if_pos h]

omit hm in
theorem turnBytes_succ {letter : Byte} {n : ℕ} (h : letterBytes channel m letter = 1 + n) :
    signBytes m + (1 + n) = turnBytes channel m letter := by
  rw [turnBytes, if_neg (by omega), h]

theorem turn_inviteOnlyLetter : Turn c target m (inviteOnlyLetter target channel m)
    (LetterFits c target channel m (ch 'i')) (turnBytes channel m (ch 'i')) := by
  have hfits : True ↔ LetterFits c target channel m (ch 'i') :=
    letterFits_of_ne (by decide) (by decide) (by decide)
  have hbytes : letterBytes channel m (ch 'i') = if channel.inviteOnly != m.isPlus then 1 else 0 :=
    if_pos rfl
  unfold inviteOnlyLetter
  by_cases hchange : (channel.inviteOnly != m.isPlus) = true
  · rw [if_pos hchange] at hbytes ⊢
    refine (Turn.change hm (r := m.params) (fun _ h => h) (fun ch h => ?_) rfl (by decide)
      clean_nil).congr hfits (turnBytes_succ hbytes)
    exact ⟨⟨h.name_eq, h.name, h.topic, h.password, h.userLimit⟩, rfl⟩
  · rw [if_neg hchange] at hbytes ⊢
    exact (Turn.keep hm (fun _ h => h) m.isPlus).congr hfits (turnBytes_zero hbytes)

theorem turn_topicLetter : Turn c target m (topicLetter target channel m)
    (LetterFits c target channel m (ch 't')) (turnBytes channel m (ch 't')) := by
  have hfits : True ↔ LetterFits c target channel m (ch 't') :=
    letterFits_of_ne (by decide) (by decide) (by decide)
  have hbytes : letterBytes channel m (ch 't') = if channel.topicRestricted != m.isPlus then 1 else 0 :=
    rfl
  unfold topicLetter
  by_cases hchange : (channel.topicRestricted != m.isPlus) = true
  · rw [if_pos hchange] at hbytes ⊢
    refine (Turn.change hm (r := m.params) (fun _ h => h) (fun ch h => ?_) rfl (by decide)
      clean_nil).congr hfits (turnBytes_succ hbytes)
    exact ⟨⟨h.name_eq, h.name, h.topic, h.password, h.userLimit⟩, rfl⟩
  · rw [if_neg hchange] at hbytes ⊢
    exact (Turn.keep hm (fun _ h => h) m.isPlus).congr hfits (turnBytes_zero hbytes)

theorem turn_keyLetter : Turn c target m (keyLetter c target channel m)
    (LetterFits c target channel m (ch 'k')) (turnBytes channel m (ch 'k')) := by
  have hclient := hm.tidy.nickname c
  have hlenNick := hclient.length_le
  have htarget := hm.short_target
  have hlenTarget := htarget.length_le
  unfold keyLetter
  cases hparams : m.params with
  | nil =>
    have hbytes : letterBytes channel m (ch 'k') = 0 := by
      simp +decide [letterBytes, hparams]
    refine (Turn.keep hm (fun _ h => h) m.isPlus).congr (iff_of_true trivial fun a ha => ?_)
      (turnBytes_zero hbytes)
    rw [hparams] at ha
    exact absurd ha (Option.not_mem_none a)
  | cons key rest =>
    have hkey : Clean key := hm.params key (hparams ▸ List.mem_cons_self)
    have hrest : ∀ p ∈ rest, p ∈ m.params := fun p hp => hparams ▸ List.mem_cons_of_mem key hp
    have hbytes : letterBytes channel m (ch 'k') = if m.isPlus = true then
        if badKey key = false ∧ channel.password = [] then 1 + (1 + key.length) else 0
        else if channel.password = key then 1 + 2 else 0 := by
      simp +decide [letterBytes, hparams]
    have hfits : LetterFits c target channel m (ch 'k') ↔ (m.isPlus = true → badKey key = true →
        12 + (m.server.nickname c).length + 1 + target.length + 3 + key.length + 47 ≤ 512) := by
      simp +decide [LetterFits, hparams]
    dsimp only
    by_cases hplus : m.isPlus = true
    · rw [if_pos hplus] at hbytes ⊢
      -- a key with a blank or a comma is answered, and is in the answer
      by_cases hbad : badKey key = true
      · rw [if_neg fun h => absurd (hbad.symm.trans h.1) (by decide)] at hbytes
        rw [if_pos (show (key.any fun b => b == sp || b == tab || b == comma) = true from hbad)]
        refine (Turn.reply hm
          (n := 12 + (m.server.nickname c).length + 1 + target.length + 3 + key.length + 47) hrest
          (by simp +decide [hclient.clean, htarget.clean, hkey]) (by decide)
          (by simp only [List.length_append]; rfl)).congr ?_ (turnBytes_zero hbytes)
        exact ⟨fun h => hfits.mpr fun _ _ => h, fun h => hfits.mp h hplus hbad⟩
      · have hgood : True ↔ LetterFits c target channel m (ch 'k') :=
          iff_of_true trivial (hfits.mpr fun _ h => absurd h hbad)
        rw [if_neg (show ¬ (key.any fun b => b == sp || b == tab || b == comma) = true from hbad)]
        -- a second key is refused, and the answer does not have it
        by_cases hfree : channel.password.isEmpty = true
        · rw [if_pos ⟨Bool.eq_false_iff.mpr hbad, List.isEmpty_iff.mp hfree⟩] at hbytes
          rw [if_pos hfree]
          refine (Turn.change hm hrest (fun ch h => ?_) hplus.symm (by decide)
            (by simp +decide [hkey])).congr hgood ((turnBytes_succ hbytes).symm ▸ ?_)
          · exact ⟨⟨h.name_eq, h.name, h.topic, hkey, h.userLimit⟩, rfl⟩
          · rw [List.length_append]
            rfl
        · rw [if_neg fun h => hfree (List.isEmpty_iff.mpr h.2)] at hbytes
          rw [if_neg hfree]
          refine ((Turn.reply hm (n := 12 + (m.server.nickname c).length + 1 + target.length + 27) hrest
            (by simp +decide [hclient.clean, htarget.clean]) (by decide)
            (by simp only [List.length_append]; rfl)).congr ?_ (turnBytes_zero hbytes))
          exact iff_of_true (by omega) (hgood.mp trivial)
    · have hgood : True ↔ LetterFits c target channel m (ch 'k') :=
        iff_of_true trivial (hfits.mpr fun h => absurd h hplus)
      rw [if_neg hplus] at hbytes ⊢
      -- the key is taken off by whoever names it, and announced as `*`
      by_cases hright : channel.password = key
      · rw [if_pos hright] at hbytes ⊢
        refine (Turn.change hm hrest (fun ch h => ?_) (Bool.eq_false_iff.mpr hplus).symm (by decide)
          (by decide)).congr hgood (turnBytes_succ hbytes)
        exact ⟨⟨h.name_eq, h.name, h.topic, clean_nil, h.userLimit⟩, rfl⟩
      · rw [if_neg hright] at hbytes ⊢
        exact (Turn.keep hm hrest m.isPlus).congr hgood (turnBytes_zero hbytes)

omit hm in
/-- `atoi` returns an `int`. -/
theorem toNat_atoi_lt (digits : Str) : (atoi digits).toNat < 2 ^ 32 := by
  unfold atoi
  have hlt := Int.bmod_lt (x := ((min (numeral digits) (2 ^ 63 - 1) : ℕ) : ℤ)) (m := 2 ^ 32)
    (by decide)
  omega

theorem turn_limitLetter : Turn c target m (limitLetter c target channel m)
    (LetterFits c target channel m (ch 'l')) (turnBytes channel m (ch 'l')) := by
  have hclient := hm.tidy.nickname c
  have htarget := hm.short_target
  unfold limitLetter
  by_cases hplus : m.isPlus = true
  · rw [if_pos hplus]
    cases hparams : m.params with
    | nil =>
      have hbytes : letterBytes channel m (ch 'l') = 0 := by
        simp +decide [letterBytes, hparams, hplus]
      refine (Turn.keep hm (fun _ h => h) m.isPlus).congr (iff_of_true trivial fun a ha => ?_)
        (turnBytes_zero hbytes)
      rw [hparams] at ha
      exact absurd ha (Option.not_mem_none a)
    | cons limitStr rest =>
      have hlimit : Clean limitStr := hm.params limitStr (hparams ▸ List.mem_cons_self)
      have hrest : ∀ p ∈ rest, p ∈ m.params := fun p hp => hparams ▸ List.mem_cons_of_mem limitStr hp
      have hbytes : letterBytes channel m (ch 'l') = if badLimit limitStr = false
          ∧ atoi limitStr > 0 ∧ channel.userLimit ≠ (atoi limitStr).toNat then
            1 + (1 + (decimal (atoi limitStr).toNat).length) else 0 := by
        simp +decide [letterBytes, hparams, hplus]
      have hfits : LetterFits c target channel m (ch 'l') ↔ (badLimit limitStr = true →
          12 + (m.server.nickname c).length + 1 + target.length + 3 + limitStr.length + 50 ≤ 512) := by
        simp +decide [LetterFits, hparams, hplus]
      dsimp only
      -- a text that is no number is answered, and is in the answer
      by_cases hbad : badLimit limitStr = true
      · rw [if_neg fun h => absurd (hbad.symm.trans h.1) (by decide)] at hbytes
        rw [if_pos (show (!limitStr.all isDigit || limitStr.isEmpty) = true from hbad)]
        refine (Turn.reply hm
          (n := 12 + (m.server.nickname c).length + 1 + target.length + 3 + limitStr.length + 50) hrest
          (by simp +decide [hclient.clean, htarget.clean, hlimit]) (by decide)
          (by simp only [List.length_append]; rfl)).congr ?_ (turnBytes_zero hbytes)
        exact ⟨fun h => hfits.mpr fun _ => h, fun h => hfits.mp h hbad⟩
      · have hgood : True ↔ LetterFits c target channel m (ch 'l') :=
          iff_of_true trivial (hfits.mpr fun h => absurd h hbad)
        rw [if_neg (show ¬ (!limitStr.all isDigit || limitStr.isEmpty) = true from hbad)]
        -- 0 and the limit there is are passed over without an answer
        by_cases hnew : atoi limitStr > 0 ∧ channel.userLimit ≠ (atoi limitStr).toNat
        · rw [if_pos ⟨Bool.eq_false_iff.mpr hbad, hnew⟩] at hbytes
          rw [if_pos hnew]
          refine (Turn.change hm hrest (fun ch h => ?_) hplus.symm (by decide)
            (by simp +decide [clean_decimal])).congr hgood ((turnBytes_succ hbytes).symm ▸ ?_)
          · refine ⟨⟨h.name_eq, h.name, h.topic, h.password, ?_⟩, rfl⟩
            dsimp only
            exact toNat_atoi_lt limitStr
          · rw [List.length_append]
            rfl
        · rw [if_neg fun h => hnew h.2] at hbytes
          rw [if_neg hnew]
          exact (Turn.keep hm hrest m.isPlus).congr hgood (turnBytes_zero hbytes)
  · have hgood : True ↔ LetterFits c target channel m (ch 'l') :=
      iff_of_true trivial fun _ _ => ⟨fun h => absurd h (by decide), fun _ h => absurd h hplus,
        fun h => absurd h (by decide)⟩
    have hbytes : letterBytes channel m (ch 'l') = if channel.userLimit > 0 then 1 else 0 := by
      simp +decide [letterBytes, hplus]
    rw [if_neg hplus]
    by_cases hset : channel.userLimit > 0
    · rw [if_pos hset] at hbytes ⊢
      refine (Turn.change hm (r := m.params) (fun _ h => h) (fun ch h => ?_)
        (Bool.eq_false_iff.mpr hplus).symm (by decide) clean_nil).congr hgood (turnBytes_succ hbytes)
      refine ⟨⟨h.name_eq, h.name, h.topic, h.password, ?_⟩, rfl⟩
      show 0 < 2 ^ 32
      omega
    · rw [if_neg hset] at hbytes ⊢
      exact (Turn.keep hm (fun _ h => h) m.isPlus).congr hgood (turnBytes_zero hbytes)

theorem turn_operatorLetter : Turn c target m (operatorLetter c target channel m)
    (LetterFits c target channel m (ch 'o')) (turnBytes channel m (ch 'o')) := by
  have hclient := hm.tidy.nickname c
  have htarget := hm.short_target
  unfold operatorLetter
  cases hparams : m.params with
  | nil =>
    have hbytes : letterBytes channel m (ch 'o') = 0 := by
      simp +decide [letterBytes, hparams]
    refine (Turn.keep hm (fun _ h => h) m.isPlus).congr (iff_of_true trivial fun a ha => ?_)
      (turnBytes_zero hbytes)
    rw [hparams] at ha
    exact absurd ha (Option.not_mem_none a)
  | cons nick rest =>
    have hnick : Clean nick := hm.params nick (hparams ▸ List.mem_cons_self)
    have hrest : ∀ p ∈ rest, p ∈ m.params := fun p hp => hparams ▸ List.mem_cons_of_mem nick hp
    have hbytes : letterBytes channel m (ch 'o') = if ∃ q ∈ m.server.findClientByNick nick,
          q ∈ channel.members ∧ channel.isOperator q ≠ m.isPlus then 1 + (1 + nick.length) else 0 := by
      simp +decide [letterBytes, hparams]
    have hfits : LetterFits c target channel m (ch 'o') ↔
        ((∀ q ∈ m.server.findClientByNick nick, q ∉ channel.members) →
          12 + (m.server.nickname c).length + 1 + nick.length + 1 + target.length + 31 ≤ 512) := by
      simp +decide [LetterFits, hparams]
    -- the reply to a nickname of nobody in the channel
    have hmissing := Turn.reply hm
      (n := 12 + (m.server.nickname c).length + 1 + nick.length + 1 + target.length + 31) hrest
      (show Clean (lit ":server 441 " ++ m.server.nickname c ++ lit " " ++ nick ++ lit " " ++ target) by
        simp +decide [hclient.clean, htarget.clean, hnick])
      (show isValidOutboundMessage (lit " :They aren't on that channel\r\n") = true by decide)
      (by simp only [List.length_append]; rfl)
    dsimp only
    cases hfind : m.server.findClientByNick nick with
    | none =>
      rw [hfind] at hbytes hfits
      rw [if_neg (by rintro ⟨q, hq, _⟩; exact absurd hq (Option.not_mem_none q))] at hbytes
      refine hmissing.congr ?_ (turnBytes_zero hbytes)
      exact ⟨fun h => hfits.mpr fun _ => h,
        fun h => hfits.mp h fun q hq => absurd hq (Option.not_mem_none q)⟩
    | some q =>
      rw [hfind] at hbytes hfits
      simp only [Option.mem_def, Option.some.injEq, exists_eq_left', forall_eq'] at hbytes hfits
      dsimp only
      by_cases hq : q ∈ channel.members
      swap
      · rw [if_neg fun h => hq h.1] at hbytes
        rw [if_neg (by simpa using hq)]
        exact hmissing.congr ⟨fun h => hfits.mpr fun _ => h, fun h => hfits.mp h hq⟩ (turnBytes_zero hbytes)
      have hgood : True ↔ LetterFits c target channel m (ch 'o') :=
        iff_of_true trivial (hfits.mpr fun h => absurd hq h)
      rw [if_pos (by simpa using hq)]
      have hchanges : ((m.isPlus && !channel.isOperator q) || (!m.isPlus && channel.isOperator q)) = true
          ↔ channel.isOperator q ≠ m.isPlus := by
        cases m.isPlus <;> cases channel.isOperator q <;> decide
      by_cases hchange : channel.isOperator q ≠ m.isPlus
      · rw [if_pos ⟨hq, hchange⟩] at hbytes
        rw [if_pos (hchanges.mpr hchange)]
        refine (Turn.change hm hrest (fun ch h => ?_) rfl (by decide)
          (by simp +decide [hnick])).congr hgood ((turnBytes_succ hbytes).symm ▸ ?_)
        · split_ifs
          · refine ⟨h.addOperator q, ?_⟩
            unfold Channel.addOperator
            split_ifs <;> rfl
          · exact ⟨h.removeOperator q, rfl⟩
        · rw [List.length_append]
          rfl
      · rw [if_neg fun h => hchange h.2] at hbytes
        rw [if_neg fun h => hchange (hchanges.mp h)]
        exact (Turn.keep hm hrest m.isPlus).congr hgood (turnBytes_zero hbytes)

theorem turn_modeLetter (hch : m.server.findChannel target = some channel) (letter : Byte) :
    Turn c target m (modeLetter c target m letter) (LetterFits c target channel m letter)
      (turnBytes channel m letter) := by
  have hother : letter ≠ ch 'i' → letter ≠ ch 't' → letter ≠ ch 'k' → letter ≠ ch 'l' →
      letter ≠ ch 'o' → ∀ isPlus, Turn c target m { m with isPlus }
        (LetterFits c target channel m letter) (turnBytes channel m letter) := by
    intro hi ht hk hl ho isPlus
    refine (Turn.keep hm (fun _ h => h) isPlus).congr (letterFits_of_ne hk hl ho) (turnBytes_zero ?_)
    rw [letterBytes, if_neg hi, if_neg ht, if_neg hk, if_neg hl, if_neg ho]
  unfold modeLetter
  rw [hch]
  dsimp only
  split_ifs with hplus hminus hi ht hk hl ho
  · subst hplus
    exact hother (by decide) (by decide) (by decide) (by decide) (by decide) true
  · subst hminus
    exact hother (by decide) (by decide) (by decide) (by decide) (by decide) false
  · exact hi ▸ turn_inviteOnlyLetter hm
  · exact ht ▸ turn_topicLetter hm
  · exact hk ▸ turn_keyLetter hm
  · exact hl ▸ turn_limitLetter hm
  · exact ho ▸ turn_operatorLetter hm
  · exact hother hi ht hk hl ho m.isPlus

end Letters

/-! ## The loop and the broadcast -/

theorem turn_modeLoop (hm : Announcing c target m) (modeString : Str) :
    Turn c target m (modeLoop c target modeString m) (FitsLoop c target modeString m)
      (announcedBytes c target modeString m) := by
  unfold modeLoop
  induction modeString generalizing m with
  | nil => exact Turn.keep hm (fun _ h => h) m.isPlus
  | cons letter letters ih =>
    obtain ⟨channel, hch, _⟩ := hm.member
    have hone := turn_modeLetter hm hch letter
    have hrest := ih hone.announcing
    refine ⟨hrest.announcing, (hone.answers.trans hrest.answers).congr ?_, ?_, ?_, ?_⟩
    · rw [FitsLoop, hch]
      simp only [Option.mem_def, Option.some.injEq, forall_eq']
    · rw [List.foldl_cons, hrest.length, hone.length, announcedBytes, hch]
      dsimp only
      omega
    · exact hrest.client.1.trans hone.client.1
    · exact hrest.client.2.trans hone.client.2

theorem answers_broadcastModes (hm : Announcing c target m) :
    m.server.Answers (broadcastModes c target m)
      (0 < m.appliedModes.length + m.appliedParams.length →
        1 + (m.server.nickname c).length + 2 + (m.server.username c).length + 16 + target.length + 1
          + (m.appliedModes.length + m.appliedParams.length) + 2 ≤ 512) := by
  unfold broadcastModes
  by_cases hempty : m.appliedModes.isEmpty = true
  · rw [if_pos hempty]
    have hnil := List.isEmpty_iff.mp hempty
    refine (Answers.refl hm.tidy).congr (iff_of_true trivial fun hpos => ?_)
    rw [hnil, hm.blank hnil] at hpos
    exact absurd hpos (by decide)
  rw [if_neg hempty]
  obtain ⟨channel, hch, hmem⟩ := hm.member
  rw [hch]
  dsimp only
  have hsome : 0 < m.appliedModes.length + m.appliedParams.length := by
    have hpos := List.length_pos_iff.mpr fun hnil => hempty (List.isEmpty_iff.mpr hnil)
    omega
  refine Answers.congr ?_ (imp_iff_right hsome).symm
  refine (hm.tidy.tellAll (n := 1 + (m.server.nickname c).length + 2 + (m.server.username c).length + 16
      + target.length + 1 + (m.appliedModes.length + m.appliedParams.length) + 2) ?_ (by decide)
    ?_).congr (imp_iff_right ⟨c, ?_, hm.allocated⟩)
  · simp +decide [(hm.tidy.nickname c).clean, (hm.tidy.username c).clean, hm.short_target.clean,
      hm.appliedModes, hm.appliedParams]
  · simp only [List.length_append, ← Nat.add_assoc]
    rfl
  · exact List.mem_filter.mpr ⟨hmem, by simp⟩

theorem answers {s : Server} (hs : s.Tidy) (hc : s.Allocated c)
    (hops : ∀ name ch, s.findChannel name = some ch → ∀ p ∈ ch.operators, p ∈ ch.members)
    {params : List Str} (hparams : ∀ p ∈ params, Clean p) :
    s.Answers (execute s c params) (Fits s c params) := by
  have hclient := hs.nickname c
  have hlenNick := hclient.length_le
  unfold execute
  split
  · refine (hs.tell (n := 12 + (s.nickname c).length + 30) hc (by simp +decide [hclient.clean])
      (by decide) (by simp only [List.length_append]; rfl)).congr ?_
    exact iff_of_true (by omega) fun hname => by
      rcases hname with hname | hname <;> exact absurd hname.symm (Option.some_ne_none _)
  next target rest =>
  have htarget : Clean target := hparams target List.mem_cons_self
  -- MODE of a nickname is dropped without an answer
  by_cases hname : target.head? ≠ some (ch '#') ∧ target.head? ≠ some (ch '&')
  · rw [if_pos hname]
    refine (Answers.refl hs).congr (iff_of_true trivial fun h => ?_)
    exact (h.elim hname.1 hname.2).elim
  rw [if_neg hname]
  rw [not_and_or, not_not, not_not] at hname
  have hbare : Fits s c (target :: rest) ↔ _ := imp_iff_right hname
  refine Answers.congr ?_ hbare.symm
  simp only [List.headD_cons, List.tail_cons]
  cases hch : s.findChannel target with
  | none =>
    exact (hs.numeric hc (by decide) (by decide) htarget rfl (j := 19) rfl).congr missing_iff.symm
  | some channel =>
    have htexts := hs.texts target channel hch
    have hlenName := htexts.name.length_le
    refine Answers.congr ?_ found_iff.symm
    dsimp only
    cases rest with
    | nil =>
      have hmodes := htexts.clean_activeModes
      exact hs.tell hc (by simp +decide [hclient.clean, htarget, hmodes]) (by decide)
        (by simp only [List.length_append]; rfl)
    | cons modeString arguments =>
      dsimp only
      -- everybody may ask for the modes, operators may change them
      by_cases hop : channel.isOperator c = true
      swap
      · rw [if_pos (by simpa using hop)]
        refine ((hs.numeric hc (by decide) (by decide) htarget rfl (j := 31) rfl).silent
          (by omega)).congr ?_
        exact iff_of_true trivial fun hin => absurd ((Channel.isOperator_iff _ _).mpr hin) hop
      rw [if_neg (by simpa using hop)]
      rw [Channel.isOperator_iff] at hop
      have hgate : FitsChannel s c target channel (modeString :: arguments) ↔ _ := imp_iff_right hop
      refine Answers.congr ?_ hgate.symm
      -- one unknown letter refuses the whole string
      cases hunknown : unknownLetter modeString with
      | some letter =>
        have hletter : Clean [letter] := by
          have halpha := List.find?_some hunknown
          simp only [Bool.and_eq_true, isAlpha, Bool.or_eq_true, decide_eq_true_eq] at halpha
          refine clean_cons.mpr ⟨⟨?_, ?_, ?_⟩, clean_nil⟩ <;> rintro rfl <;>
            exact absurd halpha.2 (by decide)
        refine ((hs.numeric hc (by decide) (by decide) hletter rfl (j := 37) rfl).silent ?_).congr
          (iff_of_true trivial fun h => absurd h (Option.some_ne_none letter))
        rw [List.length_singleton]
        omega
      | none =>
        refine Answers.congr ?_ (imp_iff_right rfl).symm
        -- the loop starts in front of the first letter, with nothing to announce
        have hstart : Announcing c target { server := s, params := arguments } :=
          ⟨hs, hc, ⟨channel, hch, hops target channel hch c hop⟩, fun p hp => hparams p (by simp [hp]),
            clean_nil, clean_nil, fun _ => rfl⟩
        have hloop := turn_modeLoop hstart modeString
        have hlen := hloop.length
        simp only [List.length_nil, Nat.add_zero, Nat.zero_add] at hlen
        have hbroadcast := answers_broadcastModes hloop.announcing
        rw [hlen, hloop.client.1, hloop.client.2] at hbroadcast
        exact hloop.answers.trans hbroadcast

end ModeCommand

end FtIrc
