import FtIrc.Events
import FtIrc.ModeLetters
import FtIrc.Outbound

/-!
# What MODE announces

Two questions about single letters of a mode string. Does a letter that is announced change the
channel? It does unless it is a `k` whose parameter is empty while the channel has no key: both
`+k` and `-k` take that for a change. Is the limit that `+l` sets the number that was written?
It is for numbers an `int` can hold; of larger ones the low 32 bits may be left, which `atoi`
returns as if they were the number.
-/

namespace FtIrc

open Bytes

namespace ModeCommand

/-! ## Phantom changes -/

/-- The change that an announced letter tells of. -/
def Changes (letter : Byte) (isPlus : Bool) (before after : Channel) : Prop :=
  if letter = ch 'i' then before.inviteOnly ≠ isPlus ∧ after.inviteOnly = isPlus
  else if letter = ch 't' then before.topicRestricted ≠ isPlus ∧ after.topicRestricted = isPlus
  else if letter = ch 'k' then
    if isPlus = true then before.password = [] ∧ after.password ≠ []
    else before.password ≠ [] ∧ after.password = []
  else if letter = ch 'l' then after.userLimit ≠ before.userLimit
  else after.operators ≠ before.operators

/-- If a letter is announced, it changes the channel it is processed on. -/
structure AnnouncedTruly (client : Ptr) (target : Str) (m : ModeLoop) (letter : Byte) : Prop where
  changes : (modeLetter client target m letter).appliedModes ≠ m.appliedModes →
    ∀ before ∈ m.server.findChannel target,
      ∀ after ∈ (modeLetter client target m letter).server.findChannel target,
        Changes letter m.isPlus before after

/-- A key letter meets an empty parameter and a channel without a key. -/
def EmptyKey (target : Str) (m : ModeLoop) : Prop :=
  m.params.head? = some [] ∧ ∀ channel ∈ m.server.findChannel target, channel.password = []

/-- The change a letter makes is one, but for empty keys. -/
theorem changes_iff {channel : Channel} {m : ModeLoop} {letter : Byte} {d : Change}
    {rest : List Str} (h : Makes channel m letter d rest) :
    Changes letter m.isPlus channel (d.apply channel)
      ↔ ¬ (letter = ch 'k' ∧ m.params.head? = some [] ∧ channel.password = []) := by
  have hother : ∀ {P : Prop} {letter : Byte}, P → letter ≠ ch 'k' →
      (P ↔ ¬ (letter = ch 'k' ∧ m.params.head? = some [] ∧ channel.password = [])) :=
    fun hP hne => iff_of_true hP fun h => hne h.1
  cases h with
  | inviteOnly hnew => exact hother ⟨hnew, rfl⟩ (by decide)
  | topicRestricted hnew => exact hother ⟨hnew, rfl⟩ (by decide)
  | @setKey key rest hplus hparams hkey hnone =>
    have hchanges : Changes (ch 'k') m.isPlus channel (Change.apply (.setKey key) channel)
        ↔ channel.password = [] ∧ key ≠ [] := by
      rw [hplus]
      exact Iff.rfl
    rw [hchanges, hparams, List.head?_cons, Option.some_inj]
    exact ⟨fun h h' => h.2 h'.2.1, fun h => ⟨hnone, fun hnil => h ⟨rfl, hnil, hnone⟩⟩⟩
  | clearKey hminus hparams =>
    have hchanges : Changes (ch 'k') m.isPlus channel (Change.apply .clearKey channel)
        ↔ channel.password ≠ [] ∧ ([] : Str) = [] := by
      rw [hminus]
      exact Iff.rfl
    rw [hchanges, hparams, List.head?_cons, Option.some_inj]
    exact ⟨fun h h' => h.1 h'.2.1, fun h => ⟨fun hnil => h ⟨rfl, hnil, hnil⟩, rfl⟩⟩
  | @setLimit limitStr _ hplus hparams hdigits hpos hnew =>
    generalize (atoi limitStr).toNat = limit at hnew ⊢
    exact hother (Ne.symm hnew) (by decide)
  | clearLimit hminus hpos => exact hother (Nat.ne_of_lt hpos) (by decide)
  | @operator nick _ q hparams hfind hmember hnew =>
    refine hother (?_ : (Change.apply (.operator m.isPlus nick q) channel).operators
      ≠ channel.operators) (by decide)
    cases hplus : m.isPlus with
    | true =>
      have hnot : q ∉ channel.operators := by
        rwa [hplus, ne_eq, Bool.not_eq_true, Channel.isOperator_eq_false] at hnew
      show (channel.addOperator q).operators ≠ _
      rw [Channel.addOperator_of_not_mem _ hnot]
      exact fun heq => List.cons_ne_nil _ _ (List.append_right_eq_self.mp heq)
    | false =>
      have hin : q ∈ channel.operators := by
        rwa [hplus, ne_eq, Bool.not_eq_false, Channel.isOperator_iff] at hnew
      show channel.operators.erase q ≠ _
      intro heq
      have hlength := List.length_erase_of_mem hin
      have hpos := List.length_pos_of_mem hin
      rw [heq] at hlength
      omega

/-- A letter is announced truly exactly if it is no empty key. -/
theorem announcedTruly_iff {client : Ptr} {target : Str} {m : ModeLoop} {channel : Channel}
    (hch : m.server.findChannel target = some channel) (letter : Byte) :
    AnnouncedTruly client target m letter ↔ ¬ (letter = ch 'k' ∧ EmptyKey target m) := by
  have hempty : EmptyKey target m ↔ m.params.head? = some [] ∧ channel.password = [] := by
    rw [EmptyKey, hch]
    simp only [Option.mem_some_iff, forall_eq']
  rw [hempty]
  cases turned_modeLetter client hch letter with
  | @made d rest hmakes hm' =>
    rw [← changes_iff hmakes]
    have hafter := m.findChannel_make target d rest hch
    rw [← hm'] at hafter
    constructor
    · rintro ⟨h⟩
      refine h ?_ channel hch _ hafter
      rw [hm']
      exact m.appliedModes_make_ne target d rest
    · refine fun h => ⟨fun _ before hbefore after hin => ?_⟩
      rwa [← Option.some_inj.mp (hch.symm.trans hbefore), ← Option.some_inj.mp (hafter.symm.trans hin)]
  | quiet hno hquiet =>
    refine iff_of_true ⟨fun hne => absurd hquiet.appliedModes hne⟩ ?_
    -- an empty parameter of a `k` would have been taken
    rintro ⟨rfl, hhead, hnone⟩
    obtain ⟨rest, hparams⟩ := List.head?_eq_some_iff.mp hhead
    cases hplus : m.isPlus with
    | true => exact hno _ _ (.setKey hplus hparams rfl hnone)
    | false => exact hno _ _ (.clearKey hplus (hnone ▸ hparams))

theorem not_announcedTruly {client : Ptr} {target : Str} {m : ModeLoop} {channel : Channel}
    (hch : m.server.findChannel target = some channel) (hhead : m.params.head? = some [])
    (hnone : channel.password = []) : ¬ AnnouncedTruly client target m (ch 'k') := by
  rw [announcedTruly_iff hch, not_not]
  refine ⟨rfl, hhead, fun channel' hch' => ?_⟩
  rw [← Option.some_inj.mp (hch.symm.trans hch'), hnone]

/-- Over a whole MODE command, every letter that is announced has changed the channel it was
processed on, unless a `k` took an empty parameter while there was no key. -/
theorem phantom_changes {s : Server} {client : Ptr} {target : Str} {channel : Channel}
    (hname : target.head? = some (ch '#') ∨ target.head? = some (ch '&'))
    (hch : s.findChannel target = some channel) (hop : client ∈ channel.operators) {modeString : Str}
    (hknown : unknownLetter modeString = none) (arguments : List Str) :
    let start : ModeLoop := { server := s, params := arguments }
    execute s client (target :: modeString :: arguments)
        = broadcastModes client target (modeLoop client target modeString start)
      ∧ ((∀ before letter after, modeString = before ++ letter :: after →
          AnnouncedTruly client target (modeLoop client target before start) letter)
        ↔ ∀ before after, modeString = before ++ ch 'k' :: after →
          ¬ EmptyKey target (modeLoop client target before start)) := by
  intro start
  refine ⟨execute_modes hname hch hop hknown arguments, ?_⟩
  have hturn : ∀ before letter,
      AnnouncedTruly client target (modeLoop client target before start) letter
        ↔ ¬ (letter = ch 'k' ∧ EmptyKey target (modeLoop client target before start)) := by
    intro before letter
    obtain ⟨_, hch'⟩ := exists_channel_modeLoop client (m := start) ⟨channel, hch⟩ before
    exact announcedTruly_iff hch' letter
  constructor
  · intro h before after hsplit hempty
    exact (hturn before _).mp (h before _ after hsplit) ⟨rfl, hempty⟩
  · intro h before letter after hsplit
    refine (hturn before letter).mpr ?_
    rintro ⟨rfl, hempty⟩
    exact h before after hsplit hempty

theorem phantom_changes_sample :
    AnnouncedTruly 0 (lit "#c")
      (modeLoop 0 (lit "#c") [ch '+'] { server := sample, params := [lit "s3"] }) (ch 'k') := by
  obtain ⟨hmode, hoperators, hhead⟩ : ((lit "#c").head? = some (ch '#')
        ∧ unknownLetter [ch '+', ch 'k'] = none)
      ∧ (sample.findChannel (lit "#c")).map Channel.operators = some [0]
      ∧ (modeLoop 0 (lit "#c") [ch '+'] { server := sample, params := [lit "s3"] }).params.head?
        = some (lit "s3") := by
    decide +kernel
  obtain ⟨channel, hch, hchannel⟩ := Option.map_eq_some_iff.mp hoperators
  have hop : 0 ∈ channel.operators := hchannel ▸ List.mem_singleton_self 0
  obtain ⟨_, hall⟩ := phantom_changes (Or.inl hmode.1) hch hop hmode.2 [lit "s3"]
  refine hall.mpr ?_ [ch '+'] (ch 'k') [] rfl
  intro before after hsplit hempty
  -- the only `k` is the one behind the sign
  have hbefore : before = [ch '+'] := by
    obtain _ | ⟨b, before⟩ := before
    · exact absurd (List.cons.inj hsplit).1 (by decide)
    obtain ⟨hb, hrest⟩ := List.cons.inj hsplit
    obtain _ | ⟨b', before⟩ := before
    · rw [← hb]
    · exact absurd (congrArg List.length (List.cons.inj hrest).2) (by simp)
  rw [hbefore] at hempty
  exact absurd (hhead.symm.trans hempty.1) (by decide)

/-- An operator sets an empty key on a channel without one. The channel stays as it is, and the
other member is told of a key. -/
theorem phantom_key :
    (¬ ∀ before letter after, [ch '+', ch 'k'] = before ++ letter :: after →
        AnnouncedTruly 0 (lit "#c")
          (modeLoop 0 (lit "#c") before { server := sample, params := [[]] }) letter)
      ∧ (Parser.parse (lit "MODE #c +k :")).params = [lit "#c", [ch '+', ch 'k'], []]
      ∧ (sample.processLine 0 (lit "MODE #c +k :")).findChannel (lit "#c")
        = sample.findChannel (lit "#c")
      ∧ ((sample.processLine 0 (lit "MODE #c +k :")).client 1).trace.offered.getLast?
        = some (lit ":ann!~a@localhost MODE #c +k \r\n")
      ∧ ((sample.processLine 0 (lit "MODE #c -k :")).client 1).trace.offered.getLast?
        = some (lit ":ann!~a@localhost MODE #c -k *\r\n") := by
  obtain ⟨hchannel, hhead, hrun⟩ :
      ((modeLoop 0 (lit "#c") [ch '+'] { server := sample, params := [[]] }).server.findChannel
        (lit "#c")).map Channel.password = some []
      ∧ (modeLoop 0 (lit "#c") [ch '+'] { server := sample, params := [[]] }).params.head? = some []
      ∧ (Parser.parse (lit "MODE #c +k :")).params = [lit "#c", [ch '+', ch 'k'], []]
      ∧ (sample.processLine 0 (lit "MODE #c +k :")).findChannel (lit "#c")
        = sample.findChannel (lit "#c")
      ∧ ((sample.processLine 0 (lit "MODE #c +k :")).client 1).trace.offered.getLast?
        = some (lit ":ann!~a@localhost MODE #c +k \r\n")
      ∧ ((sample.processLine 0 (lit "MODE #c -k :")).client 1).trace.offered.getLast?
        = some (lit ":ann!~a@localhost MODE #c -k *\r\n") := by
    decide +kernel
  refine ⟨fun hall => ?_, hrun⟩
  obtain ⟨channel, hch, hnone⟩ := Option.map_eq_some_iff.mp hchannel
  exact not_announcedTruly hch hhead hnone (hall [ch '+'] (ch 'k') [] rfl)

/-! ## Limits -/

/-- A number that `+l` does not set wrongly: an `int` can hold it, or it is cut to one that is not
positive or not new. -/
def SetsNoOther (n limit : ℕ) : Prop :=
  n < 2 ^ 31 ∨ 2 ^ 63 ≤ n ∨ n % 2 ^ 32 = 0 ∨ 2 ^ 31 ≤ n % 2 ^ 32 ∨ n % 2 ^ 32 = limit

/-- The limit behind a `+l`. -/
def nextLimit (digits : Str) (limit : ℕ) : ℕ :=
  if atoi digits > 0 ∧ limit ≠ (atoi digits).toNat then (atoi digits).toNat else limit

theorem nextLimit_of_set {digits : Str} {limit : ℕ}
    (h : atoi digits > 0 ∧ limit ≠ (atoi digits).toNat) :
    nextLimit digits limit = (atoi digits).toNat := by
  rw [nextLimit, if_pos h]

theorem nextLimit_of_kept {digits : Str} {limit : ℕ}
    (h : ¬ (atoi digits > 0 ∧ limit ≠ (atoi digits).toNat)) : nextLimit digits limit = limit := by
  rw [nextLimit, if_neg h]

/-- What `atoi` makes of the number, below the saturation and above it. -/
theorem atoi_cases (digits : Str) :
    (numeral digits < 2 ^ 63
      ∧ (numeral digits % 2 ^ 32 < 2 ^ 31 ∧ atoi digits = (numeral digits % 2 ^ 32 : ℕ)
        ∨ 2 ^ 31 ≤ numeral digits % 2 ^ 32 ∧ atoi digits ≤ 0))
    ∨ 2 ^ 63 ≤ numeral digits ∧ atoi digits ≤ 0 := by
  have hatoi : atoi digits = Int.bmod (min (numeral digits) (2 ^ 63 - 1) : ℕ) (2 ^ 32) := rfl
  generalize numeral digits = n at hatoi ⊢
  rw [hatoi, Int.bmod_def]
  split_ifs <;> omega

theorem nextLimit_iff (digits : Str) (limit : ℕ) :
    nextLimit digits limit = numeral digits ∨ nextLimit digits limit = limit
      ↔ SetsNoOther (numeral digits) limit := by
  have hcases := atoi_cases digits
  unfold nextLimit SetsNoOther
  generalize numeral digits = n at hcases ⊢
  generalize atoi digits = a at hcases ⊢
  split_ifs with hnew <;> omega

variable {client : Ptr} {target : Str} {channel : Channel} {m : ModeLoop}

/-- Letters other than `l` leave the limit alone. -/
theorem Makes.userLimit_eq {letter : Byte} {d : Change} {rest : List Str}
    (h : Makes channel m letter d rest) (hne : letter ≠ ch 'l') :
    (d.apply channel).userLimit = channel.userLimit := by
  cases h with
  | inviteOnly => rfl
  | topicRestricted => rfl
  | setKey => rfl
  | clearKey => rfl
  | setLimit => exact absurd rfl hne
  | clearLimit => exact absurd rfl hne
  | @operator nick _ q =>
    show (if m.isPlus then channel.addOperator q else channel.removeOperator q).userLimit = _
    unfold Channel.addOperator Channel.removeOperator
    split_ifs <;> rfl

variable (client) in
theorem userLimit_modeLoop (hch : m.server.findChannel target = some channel) {letters : Str}
    (hl : ch 'l' ∉ letters) :
    ∃ after, (modeLoop client target letters m).server.findChannel target = some after
      ∧ after.userLimit = channel.userLimit := by
  unfold modeLoop
  induction letters generalizing m channel with
  | nil => exact ⟨channel, hch, rfl⟩
  | cons letter letters ih =>
    obtain ⟨hletter, hletters⟩ := not_or.mp (List.mem_cons.not.mp hl)
    rw [List.foldl_cons]
    cases turned_modeLetter client hch letter with
    | @made d rest hmakes hm' =>
      rw [hm']
      obtain ⟨after, hafter, hlimit⟩ := ih (m.findChannel_make target d rest hch) hletters
      exact ⟨after, hafter, hlimit.trans (hmakes.userLimit_eq (Ne.symm hletter))⟩
    | quiet _ hquiet => exact ih ((hquiet.findChannel target).trans hch) hletters

variable (client) in
/-- The announcement only grows. -/
theorem applied_modeLoop (hch : m.server.findChannel target = some channel) (letters : Str) :
    m.appliedModes <+: (modeLoop client target letters m).appliedModes
      ∧ m.appliedParams <+: (modeLoop client target letters m).appliedParams := by
  unfold modeLoop
  induction letters generalizing m channel with
  | nil => exact ⟨List.prefix_rfl, List.prefix_rfl⟩
  | cons letter letters ih =>
    rw [List.foldl_cons]
    cases turned_modeLetter client hch letter with
    | @made d rest hmakes hm' =>
      rw [hm']
      obtain ⟨hmodes, hparams⟩ := ih (m.findChannel_make target d rest hch)
      rw [ModeLoop.appliedModes_make] at hmodes
      rw [ModeLoop.appliedParams_make] at hparams
      exact ⟨(List.prefix_append ..).trans hmodes, (List.prefix_append ..).trans hparams⟩
    | quiet _ hquiet =>
      rw [← hquiet.appliedModes, ← hquiet.appliedParams]
      exact ih ((hquiet.findChannel target).trans hch)

/-- What a `+l` adds to the letters of the announcement. -/
def limitLetters (m : ModeLoop) : Str :=
  (if m.lastSign = some (ch '+') then [] else [ch '+']) ++ [ch 'l']

variable (client) in
/-- The turn of a `+l` that is given a number: the next limit is set, and announced if it is
another one. -/
theorem turn_limit (hch : m.server.findChannel target = some channel) {digits : Str}
    {rest : List Str} (hplus : m.isPlus = true) (hparams : m.params = digits :: rest)
    (hdigits : digits.all isDigit = true) (hne : digits ≠ []) :
    ∃ next : Channel, (modeLetter client target m (ch 'l')).server.findChannel target = some next
      ∧ next.userLimit = nextLimit digits channel.userLimit
      ∧ (modeLetter client target m (ch 'l')).appliedModes = m.appliedModes
        ++ (if next.userLimit = channel.userLimit then [] else limitLetters m)
      ∧ (modeLetter client target m (ch 'l')).appliedParams = m.appliedParams
        ++ (if next.userLimit = channel.userLimit then [] else sp :: decimal next.userLimit) := by
  have hgood : badLimit digits = false := by
    rw [badLimit, hdigits]
    simpa using hne
  cases turned_modeLetter client hch (ch 'l') with
  | made hmakes hm' =>
    cases hmakes with
    | @setLimit limitStr _ _ hl _ hpos hnew =>
      obtain rfl := (List.cons.inj (hl.symm.trans hparams)).1
      have hnext := nextLimit_of_set ⟨hpos, hnew⟩
      generalize (atoi limitStr).toNat = limit at hnew hnext hm'
      rw [hm']
      refine ⟨Change.apply (.setLimit limit) channel, m.findChannel_make target _ _ hch,
        hnext.symm, ?_⟩
      have hother : (Change.apply (.setLimit limit) channel).userLimit ≠ channel.userLimit :=
        Ne.symm hnew
      rw [ModeLoop.appliedModes_make, ModeLoop.appliedParams_make, if_neg hother, if_neg hother]
      exact ⟨rfl, rfl⟩
    | clearLimit hminus => exact absurd (hminus.symm.trans hplus) (by decide)
  | quiet hno hquiet =>
    have hkept : ¬ (atoi digits > 0 ∧ channel.userLimit ≠ (atoi digits).toNat) :=
      fun h => hno _ _ (.setLimit hplus hparams hgood h.1 h.2)
    refine ⟨channel, (hquiet.findChannel target).trans hch, (nextLimit_of_kept hkept).symm, ?_⟩
    rw [hquiet.appliedModes, hquiet.appliedParams, if_pos rfl, if_pos rfl, List.append_nil,
      List.append_nil]
    exact ⟨rfl, rfl⟩

/-- A number given to `+l` in a MODE command becomes the limit, or the limit stays, exactly unless
the number is 2^31 or more and its low 32 bits are another positive limit below 2^31. The `l` is
announced if and only if the limit is another one, with the new limit as its argument, and the
members are sent the whole announcement. -/
theorem limit_written {s : Server} (hname : target.head? = some (ch '#') ∨ target.head? = some (ch '&'))
    (hch : s.findChannel target = some channel) (hop : client ∈ channel.operators)
    {before after : Str} (hknown : unknownLetter (before ++ ch 'l' :: after) = none)
    (hlast : ch 'l' ∉ after) {arguments rest : List Str} {digits : Str}
    (hplus : (modeLoop client target before { server := s, params := arguments }).isPlus = true)
    (hparams : (modeLoop client target before { server := s, params := arguments }).params
      = digits :: rest)
    (hdigits : digits.all isDigit = true) (hne : digits ≠ []) :
    ∃ m mid m' : ModeLoop, ∃ old new : Channel,
      m = modeLoop client target before { server := s, params := arguments }
        ∧ m.server.findChannel target = some old
        ∧ mid = modeLetter client target m (ch 'l')
        ∧ m' = modeLoop client target after mid
        ∧ m' = modeLoop client target (before ++ ch 'l' :: after) { server := s, params := arguments }
        ∧ execute s client (target :: (before ++ ch 'l' :: after) :: arguments)
          = broadcastModes client target m'
        ∧ (broadcastModes client target m').findChannel target = some new
        ∧ mid.appliedModes
          = m.appliedModes ++ (if new.userLimit = old.userLimit then [] else limitLetters m)
        ∧ mid.appliedParams
          = m.appliedParams ++ (if new.userLimit = old.userLimit then [] else sp :: decimal new.userLimit)
        ∧ numeral (decimal new.userLimit) = new.userLimit
        ∧ mid.appliedModes <+: m'.appliedModes ∧ mid.appliedParams <+: m'.appliedParams
        ∧ broadcastModes client target m'
          = (if m'.appliedModes = [] then m'.server
            else m'.server.broadcastMessage new (announcement client target m') none)
        ∧ (new.userLimit = numeral digits ∨ new.userLimit = old.userLimit
          ↔ SetsNoOther (numeral digits) old.userLimit) := by
  obtain ⟨old, hold⟩ := exists_channel_modeLoop client
    (m := { server := s, params := arguments }) ⟨channel, hch⟩ before
  generalize hm : modeLoop client target before { server := s, params := arguments } = m at *
  obtain ⟨next, hnext, hlimit, hmodes, hpieces⟩ := turn_limit client hold hplus hparams hdigits hne
  obtain ⟨new, hnew, hsame⟩ := userLimit_modeLoop client hnext hlast
  have hgrows := applied_modeLoop client hnext after
  -- the letters behind the limit change it no more, and what is announced only grows
  have hwhole : modeLoop client target (before ++ ch 'l' :: after) { server := s, params := arguments }
      = modeLoop client target after (modeLetter client target m (ch 'l')) := by
    rw [modeLoop_append, hm]
    rfl
  rw [← hsame] at hmodes hpieces
  refine ⟨m, _, _, old, new, rfl, hold, rfl, rfl, hwhole.symm, ?_, ?_, hmodes, hpieces,
    numeral_decimal _, hgrows.1, hgrows.2, ?_, ?_⟩
  · rw [← hwhole]
    exact execute_modes hname hch hop hknown arguments
  · rw [findChannel_broadcastModes]
    exact hnew
  · exact broadcastModes_eq hnew
  · rw [hsame, hlimit]
    exact nextLimit_iff digits old.userLimit

theorem limit_written_sample :
    ∃ m' : ModeLoop, ∃ new : Channel,
      execute sample 0 [lit "#c", [ch '+', ch 'l'], lit "12"] = broadcastModes 0 (lit "#c") m'
        ∧ (broadcastModes 0 (lit "#c") m').findChannel (lit "#c") = some new
        ∧ (new.userLimit = 12 ∨ new.userLimit = 0)
        ∧ (new.userLimit = 12 → sp :: decimal 12 <+: m'.appliedParams) := by
  obtain ⟨⟨hname, hknown, hdigits, hne, hnumeral⟩, hoperators, hlimit, hparams, hplus, hnothing⟩ :
      ((lit "#c").head? = some (ch '#') ∧ unknownLetter ([ch '+'] ++ ch 'l' :: []) = none
        ∧ (lit "12").all isDigit = true ∧ lit "12" ≠ [] ∧ numeral (lit "12") = 12)
      ∧ (sample.findChannel (lit "#c")).map Channel.operators = some [0]
      ∧ ((modeLoop 0 (lit "#c") [ch '+'] { server := sample, params := [lit "12"] }).server.findChannel
        (lit "#c")).map Channel.userLimit = some 0
      ∧ (modeLoop 0 (lit "#c") [ch '+'] { server := sample, params := [lit "12"] }).params = [lit "12"]
      ∧ (modeLoop 0 (lit "#c") [ch '+'] { server := sample, params := [lit "12"] }).isPlus = true
      ∧ (modeLoop 0 (lit "#c") [ch '+'] { server := sample, params := [lit "12"] }).appliedParams = [] := by
    decide +kernel
  obtain ⟨channel, hch, hchannel⟩ := Option.map_eq_some_iff.mp hoperators
  have hop : 0 ∈ channel.operators := hchannel ▸ List.mem_singleton_self 0
  obtain ⟨m, mid, m', old, new, hm, hold, _, _, _, hexecute, hnew, _, hpieces, _, _, hgrows, _, hiff⟩ :=
    limit_written (Or.inl hname) hch hop hknown List.not_mem_nil hplus hparams hdigits hne
  rw [← hm, hold, Option.map_some, Option.some_inj] at hlimit
  rw [hlimit, hnumeral] at hiff
  refine ⟨m', new, hexecute, hnew, hiff.mpr (Or.inl (by decide)), fun htwelve => ?_⟩
  rw [hlimit, htwelve, if_neg (by decide), hm, hnothing, List.nil_append] at hpieces
  exact hpieces ▸ hgrows

/-- A number above 2^32 becomes a limit of one, and the members are told of one. -/
theorem wrapped_limit :
    ((lit "4294967297").all isDigit = true ∧ numeral (lit "4294967297") = 4294967297)
      ∧ (sample.findChannel (lit "#c")).map Channel.userLimit = some 0
      ∧ ((sample.processLine 0 (lit "MODE #c +l 4294967297")).findChannel (lit "#c")).map
        Channel.userLimit = some 1
      ∧ ((sample.processLine 0 (lit "MODE #c +l 4294967297")).client 1).trace.offered.getLast?
        = some (lit ":ann!~a@localhost MODE #c +l 1\r\n")
      ∧ ¬ (1 = numeral (lit "4294967297") ∨ 1 = 0) := by
  decide +kernel

end ModeCommand

end FtIrc
