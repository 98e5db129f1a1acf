import FtIrc.Commands.Mode

/-!
# What a mode letter does

The changes of a channel that MODE announces, as data (`Change`), and the turns of the loop
over a mode string taken apart once: a letter makes the change its branch has tested for
(`Makes`), which is announced behind its sign, or it changes nothing and announces nothing.
What holds of the announcement, of a single change or of the limit that is set follows from
these two cases.
-/

namespace FtIrc

open Bytes

namespace ModeCommand

/-- A key that MODE does not set. -/
def badKey (key : Str) : Bool := key.any fun b => b == sp || b == tab || b == comma

/-- A limit that MODE does not read. -/
def badLimit (limitStr : Str) : Bool := !limitStr.all isDigit || limitStr.isEmpty

/-- A change of a channel by a mode letter. -/
inductive Change where
  | inviteOnly (on : Bool)
  | topicRestricted (on : Bool)
  | setKey (key : Str)
  | clearKey
  | setLimit (limit : ℕ)
  | clearLimit
  | operator (on : Bool) (nick : Str) (client : Ptr)
deriving DecidableEq, Repr

namespace Change

/-- The direction of a change. -/
def isPlus : Change → Bool
  | inviteOnly on => on
  | topicRestricted on => on
  | setKey _ => true
  | clearKey => false
  | setLimit _ => true
  | clearLimit => false
  | operator on _ _ => on

/-- The letter that stands for a change. -/
def letter : Change → Byte
  | inviteOnly _ => ch 'i'
  | topicRestricted _ => ch 't'
  | setKey _ => ch 'k'
  | clearKey => ch 'k'
  | setLimit _ => ch 'l'
  | clearLimit => ch 'l'
  | operator _ _ _ => ch 'o'

/-- The argument a change is announced with. -/
def piece : Change → Option Str
  | setKey key => some key
  | clearKey => some (lit "*")
  | setLimit limit => some (decimal limit)
  | operator _ nick _ => some nick
  | _ => none

/-- The client a change is about. -/
def client : Change → Option Ptr
  | operator _ _ q => some q
  | _ => none

/-- The change itself. -/
def apply (d : Change) (channel : Channel) : Channel :=
  match d with
  | inviteOnly on => { channel with inviteOnly := on }
  | topicRestricted on => { channel with topicRestricted := on }
  | setKey key => { channel with password := key }
  | clearKey => { channel with password := [] }
  | setLimit limit => { channel with userLimit := limit }
  | clearLimit => { channel with userLimit := 0 }
  | operator on _ q => if on then channel.addOperator q else channel.removeOperator q

/-- The argument as it is appended to the announcement. -/
def pieceText (d : Change) : Str :=
  match d.piece with
  | none => []
  | some p => sp :: p

end Change

/-- When a letter makes a change, and which parameters are left then. -/
inductive Makes (channel : Channel) (m : ModeLoop) : Byte → Change → List Str → Prop
  | inviteOnly (hnew : channel.inviteOnly ≠ m.isPlus) :
      Makes channel m (ch 'i') (.inviteOnly m.isPlus) m.params
  | topicRestricted (hnew : channel.topicRestricted ≠ m.isPlus) :
      Makes channel m (ch 't') (.topicRestricted m.isPlus) m.params
  | setKey {key : Str} {rest : List Str} (hplus : m.isPlus = true) (hparams : m.params = key :: rest)
      (hkey : badKey key = false) (hnone : channel.password = []) :
      Makes channel m (ch 'k') (.setKey key) rest
  | clearKey {rest : List Str} (hplus : m.isPlus = false)
      (hparams : m.params = channel.password :: rest) : Makes channel m (ch 'k') .clearKey rest
  | setLimit {limitStr : Str} {rest : List Str} (hplus : m.isPlus = true)
      (hparams : m.params = limitStr :: rest) (hdigits : badLimit limitStr = false)
      (hpos : atoi limitStr > 0) (hnew : channel.userLimit ≠ (atoi limitStr).toNat) :
      Makes channel m (ch 'l') (.setLimit (atoi limitStr).toNat) rest
  | clearLimit (hplus : m.isPlus = false) (hpos : channel.userLimit > 0) :
      Makes channel m (ch 'l') .clearLimit m.params
  | operator {nick : Str} {rest : List Str} {q : Ptr} (hparams : m.params = nick :: rest)
      (hfind : m.server.findClientByNick nick = some q) (hmember : q ∈ channel.members)
      (hnew : channel.isOperator q ≠ m.isPlus) :
      Makes channel m (ch 'o') (.operator m.isPlus nick q) rest

theorem Makes.suffix {channel : Channel} {m : ModeLoop} {letter : Byte} {d : Change}
    {rest : List Str} (h : Makes channel m letter d rest) : rest <:+ m.params := by
  cases h with
  | inviteOnly => exact List.suffix_rfl
  | topicRestricted => exact List.suffix_rfl
  | setKey _ hparams => exact hparams ▸ List.suffix_cons _ _
  | clearKey _ hparams => exact hparams ▸ List.suffix_cons _ _
  | setLimit _ hparams => exact hparams ▸ List.suffix_cons _ _
  | clearLimit => exact List.suffix_rfl
  | operator hparams => exact hparams ▸ List.suffix_cons _ _

/-- The loop after a change. -/
def ModeLoop.make (m : ModeLoop) (target : Str) (d : Change) (rest : List Str) : ModeLoop :=
  (ModeLoop.change { m with params := rest } target d.apply).applied d.isPlus d.letter d.pieceText

/-- A letter without a change: a sign, an argument that is skipped, an answer to the client. -/
structure Quiet (client : Ptr) (m m' : ModeLoop) : Prop where
  server : m'.server = m.server ∨ ∃ text, m'.server = m.server.sendMessage client text
  params : m'.params <:+ m.params
  appliedModes : m'.appliedModes = m.appliedModes
  appliedParams : m'.appliedParams = m.appliedParams
  lastSign : m'.lastSign = m.lastSign

/-- What a turn of the loop does. -/
inductive Turned (client : Ptr) (target : Str) (channel : Channel) (m : ModeLoop) (letter : Byte)
    (m' : ModeLoop) : Prop
  | made {d : Change} {rest : List Str} (h : Makes channel m letter d rest)
      (hm' : m' = m.make target d rest)
  | quiet (h : ∀ d rest, ¬ Makes channel m letter d rest) (hquiet : Quiet client m m')

section Letters

variable {client : Ptr} {target : Str} {channel : Channel} {m : ModeLoop}

theorem turned_inviteOnlyLetter :
    Turned client target channel m (ch 'i') (inviteOnlyLetter target channel m) := by
  unfold inviteOnlyLetter
  by_cases hnew : channel.inviteOnly = m.isPlus
  · rw [if_neg (by simpa using hnew)]
    refine .quiet (fun d rest h => ?_) ⟨Or.inl rfl, List.suffix_rfl, rfl, rfl, rfl⟩
    cases h with
    | inviteOnly hne => exact hne hnew
  · rw [if_pos (by simpa using hnew)]
    exact .made (.inviteOnly hnew) rfl

theorem turned_topicLetter :
    Turned client target channel m (ch 't') (topicLetter target channel m) := by
  unfold topicLetter
  by_cases hnew : channel.topicRestricted = m.isPlus
  · rw [if_neg (by simpa using hnew)]
    refine .quiet (fun d rest h => ?_) ⟨Or.inl rfl, List.suffix_rfl, rfl, rfl, rfl⟩
    cases h with
    | topicRestricted hne => exact hne hnew
  · rw [if_pos (by simpa using hnew)]
    exact .made (.topicRestricted hnew) rfl

theorem turned_keyLetter :
    Turned client target channel m (ch 'k') (keyLetter client target channel m) := by
  unfold keyLetter
  split
  next hnil =>
    refine .quiet (fun d rest h => ?_) ⟨Or.inl rfl, List.suffix_rfl, rfl, rfl, rfl⟩
    cases h with
    | setKey _ hparams => exact absurd (hnil.symm.trans hparams) (List.cons_ne_nil _ _).symm
    | clearKey _ hparams => exact absurd (hnil.symm.trans hparams) (List.cons_ne_nil _ _).symm
  next key rest hparams =>
  have hrest : rest <:+ m.params := hparams ▸ List.suffix_cons key rest
  -- the parameter of a change is the one that is there
  have hhead : ∀ {k ks}, m.params = k :: ks → k = key := by
    intro k ks hk
    exact (List.cons.inj (hk.symm.trans hparams)).1
  dsimp only
  split_ifs with hplus hbad hfree hkey
  · refine .quiet (fun d rest h => ?_) ⟨Or.inr ⟨_, rfl⟩, hrest, rfl, rfl, rfl⟩
    cases h with
    | setKey _ hk hgood =>
      rw [hhead hk] at hgood
      exact absurd (hgood.symm.trans hbad) (by decide)
    | clearKey hminus => exact absurd (hminus.symm.trans hplus) (by decide)
  · exact .made (.setKey hplus hparams (Bool.eq_false_iff.mpr hbad) (List.isEmpty_iff.mp hfree)) rfl
  · refine .quiet (fun d rest h => ?_) ⟨Or.inr ⟨_, rfl⟩, hrest, rfl, rfl, rfl⟩
    cases h with
    | setKey _ _ _ hnone => exact hfree (List.isEmpty_iff.mpr hnone)
    | clearKey hminus => exact absurd (hminus.symm.trans hplus) (by decide)
  · exact .made (.clearKey (Bool.eq_false_iff.mpr hplus) (hkey ▸ hparams)) rfl
  · refine .quiet (fun d rest h => ?_) ⟨Or.inl rfl, hrest, rfl, rfl, rfl⟩
    cases h with
    | setKey hplus' => exact hplus hplus'
    | clearKey _ hk => exact hkey (hhead hk)

theorem turned_limitLetter :
    Turned client target channel m (ch 'l') (limitLetter client target channel m) := by
  unfold limitLetter
  split_ifs with hplus hset
  · split
    next hnil =>
      refine .quiet (fun d rest h => ?_) ⟨Or.inl rfl, List.suffix_rfl, rfl, rfl, rfl⟩
      cases h with
      | setLimit _ hparams => exact absurd (hnil.symm.trans hparams) (List.cons_ne_nil _ _).symm
      | clearLimit hminus => exact absurd (hminus.symm.trans hplus) (by decide)
    next limitStr rest hparams =>
    have hrest : rest <:+ m.params := hparams ▸ List.suffix_cons limitStr rest
    have hhead : ∀ {l ls}, m.params = l :: ls → l = limitStr := by
      intro l ls hl
      exact (List.cons.inj (hl.symm.trans hparams)).1
    dsimp only
    split_ifs with hbad hlimit
    · refine .quiet (fun d rest h => ?_) ⟨Or.inr ⟨_, rfl⟩, hrest, rfl, rfl, rfl⟩
      cases h with
      | setLimit _ hl hgood =>
        rw [hhead hl] at hgood
        exact absurd (hgood.symm.trans hbad) (by decide)
      | clearLimit hminus => exact absurd (hminus.symm.trans hplus) (by decide)
    · exact .made (.setLimit hplus hparams (Bool.eq_false_iff.mpr hbad) hlimit.1 hlimit.2) rfl
    · refine .quiet (fun d rest h => ?_) ⟨Or.inl rfl, hrest, rfl, rfl, rfl⟩
      cases h with
      | setLimit _ hl _ hpos hnew =>
        rw [hhead hl] at hpos hnew
        exact hlimit ⟨hpos, hnew⟩
      | clearLimit hminus => exact absurd (hminus.symm.trans hplus) (by decide)
  · exact .made (.clearLimit (Bool.eq_false_iff.mpr hplus) hset) rfl
  · refine .quiet (fun d rest h => ?_) ⟨Or.inl rfl, List.suffix_rfl, rfl, rfl, rfl⟩
    cases h with
    | setLimit hplus' => exact hplus hplus'
    | clearLimit _ hpos => exact hset hpos

theorem turned_operatorLetter :
    Turned client target channel m (ch 'o') (operatorLetter client target channel m) := by
  unfold operatorLetter
  split
  next hnil =>
    refine .quiet (fun d rest h => ?_) ⟨Or.inl rfl, List.suffix_rfl, rfl, rfl, rfl⟩
    cases h with
    | operator hparams => exact absurd (hnil.symm.trans hparams) (List.cons_ne_nil _ _).symm
  next nick rest hparams =>
  have hrest : rest <:+ m.params := hparams ▸ List.suffix_cons nick rest
  -- whom a change would be about
  have hfound : ∀ {d rest}, Makes channel m (ch 'o') d rest →
      ∃ q, m.server.findClientByNick nick = some q ∧ q ∈ channel.members
        ∧ channel.isOperator q ≠ m.isPlus := by
    intro d rest h
    cases h with
    | operator hn hfind hmember hnew =>
      obtain rfl := (List.cons.inj (hn.symm.trans hparams)).1
      exact ⟨_, hfind, hmember, hnew⟩
  dsimp only
  split
  next hnone =>
    refine .quiet (fun d rest h => ?_) ⟨Or.inr ⟨_, rfl⟩, hrest, rfl, rfl, rfl⟩
    obtain ⟨q, hfind, _⟩ := hfound h
    exact absurd (hnone.symm.trans hfind) (Option.some_ne_none q).symm
  next q hq =>
  have hsame : ∀ {q'}, m.server.findClientByNick nick = some q' → q' = q :=
    fun hq' => Option.some_inj.mp (hq'.symm.trans hq)
  by_cases hmember : channel.isMember q = true
  swap
  · rw [if_neg hmember]
    refine .quiet (fun d rest h => ?_) ⟨Or.inr ⟨_, rfl⟩, hrest, rfl, rfl, rfl⟩
    obtain ⟨q', hfind, hin, _⟩ := hfound h
    rw [hsame hfind] at hin
    exact hmember ((channel.isMember_iff q).mpr hin)
  rw [if_pos hmember]
  by_cases hnew : channel.isOperator q = m.isPlus
  · have hstays : ¬ (m.isPlus && !channel.isOperator q || !m.isPlus && channel.isOperator q) = true := by
      rw [hnew]
      cases m.isPlus <;> decide
    rw [if_neg hstays]
    refine .quiet (fun d rest h => ?_) ⟨Or.inl rfl, hrest, rfl, rfl, rfl⟩
    obtain ⟨q', hfind, _, hne⟩ := hfound h
    rw [hsame hfind] at hne
    exact hne hnew
  · have hturns : (m.isPlus && !channel.isOperator q || !m.isPlus && channel.isOperator q) = true := by
      revert hnew
      cases m.isPlus <;> cases channel.isOperator q <;> decide
    rw [if_pos hturns]
    exact .made (.operator hparams hq ((channel.isMember_iff q).mp hmember) hnew) rfl

variable (client) in
/-- A turn makes the change its letter stands for, if it stands for one. -/
theorem turned_modeLetter (hch : m.server.findChannel target = some channel) (letter : Byte) :
    Turned client target channel m letter (modeLetter client target m letter) := by
  have hquiet : ∀ isPlus, (∀ d rest, ¬ Makes channel m letter d rest) →
      Turned client target channel m letter { m with isPlus } :=
    fun _ h => .quiet h ⟨Or.inl rfl, List.suffix_rfl, rfl, rfl, rfl⟩
  unfold modeLetter
  rw [hch]
  dsimp only
  split_ifs with hp hm hi ht hk hl ho
  · refine hquiet true fun d rest h => ?_
    cases h <;> exact absurd hp (by decide)
  · refine hquiet false fun d rest h => ?_
    cases h <;> exact absurd hm (by decide)
  · exact hi ▸ turned_inviteOnlyLetter
  · exact ht ▸ turned_topicLetter
  · exact hk ▸ turned_keyLetter
  · exact hl ▸ turned_limitLetter
  · exact ho ▸ turned_operatorLetter
  · refine hquiet m.isPlus fun d rest h => ?_
    cases h with
    | inviteOnly => exact hi rfl
    | topicRestricted => exact ht rfl
    | setKey => exact hk rfl
    | clearKey => exact hk rfl
    | setLimit => exact hl rfl
    | clearLimit => exact hl rfl
    | operator => exact ho rfl

end Letters

/-! ## The loop after a turn -/

namespace ModeLoop

variable (m : ModeLoop) (target : Str) (d : Change) (rest : List Str)

theorem server_make : (m.make target d rest).server = m.server.modifyChannel target d.apply := by
  rw [make, server_applied, server_change]

/-- The sign goes in front of the letter unless it is the last one that did. -/
theorem appliedModes_applied (isPlus : Bool) (letter : Byte) (piece : Str) :
    (m.applied isPlus letter piece).appliedModes
      = m.appliedModes ++ ((if m.lastSign = some (sign isPlus) then [] else [sign isPlus])
        ++ [letter]) := by
  unfold applied
  dsimp only
  by_cases hsame : m.lastSign = some (sign isPlus)
  · rw [if_neg (not_not_intro hsame), if_pos hsame]
    rfl
  · rw [if_pos hsame, if_neg hsame, List.append_assoc]

theorem lastSign_applied (isPlus : Bool) (letter : Byte) (piece : Str) :
    (m.applied isPlus letter piece).lastSign = some (sign isPlus) := by
  unfold applied
  dsimp only
  by_cases hsame : m.lastSign = some (sign isPlus)
  · rw [if_neg (not_not_intro hsame)]
    exact hsame
  · rw [if_pos hsame]

theorem appliedModes_make : (m.make target d rest).appliedModes
    = m.appliedModes ++ ((if m.lastSign = some (sign d.isPlus) then [] else [sign d.isPlus])
      ++ [d.letter]) :=
  appliedModes_applied ..

theorem appliedParams_make :
    (m.make target d rest).appliedParams = m.appliedParams ++ d.pieceText := by
  unfold make applied
  dsimp only
  split_ifs <;> rfl

theorem params_make : (m.make target d rest).params = rest := by
  unfold make applied
  dsimp only
  split_ifs <;> rfl

theorem lastSign_make : (m.make target d rest).lastSign = some (sign d.isPlus) :=
  lastSign_applied ..

theorem findChannel_make {channel : Channel} (hch : m.server.findChannel target = some channel) :
    (m.make target d rest).server.findChannel target = some (d.apply channel) := by
  rw [server_make, Server.findChannel, Server.modifyChannel, OrdMap.find?_modify_self]
  exact congrArg (Option.map d.apply) hch

/-- A change is announced. -/
theorem appliedModes_make_ne : (m.make target d rest).appliedModes ≠ m.appliedModes := by
  rw [appliedModes_make]
  intro h
  have hnil := List.append_right_eq_self.mp h
  exact List.append_ne_nil_of_right_ne_nil _ (List.cons_ne_nil _ _) hnil

end ModeLoop

variable {client : Ptr} {target : Str} {channel : Channel} {m m' : ModeLoop}

/-- A letter without a change leaves the channel alone. -/
theorem Quiet.findChannel (h : Quiet client m m') (name : Str) :
    m'.server.findChannel name = m.server.findChannel name := by
  rcases h.server with hserver | ⟨text, hserver⟩
  · rw [hserver]
  · rw [hserver]
    rfl

theorem Turned.exists_channel {letter : Byte} (h : Turned client target channel m letter m')
    (hch : m.server.findChannel target = some channel) :
    ∃ after, m'.server.findChannel target = some after := by
  cases h with
  | @made d rest _ hm' => exact ⟨d.apply channel, by rw [hm', m.findChannel_make target d rest hch]⟩
  | quiet _ hquiet => exact ⟨channel, by rw [hquiet.findChannel, hch]⟩

variable (client) in
/-- The channel is there over the whole mode string. -/
theorem exists_channel_modeLoop (hch : ∃ channel, m.server.findChannel target = some channel)
    (letters : Str) :
    ∃ channel, (modeLoop client target letters m).server.findChannel target = some channel := by
  unfold modeLoop
  induction letters generalizing m with
  | nil => exact hch
  | cons letter letters ih =>
    obtain ⟨channel, hch⟩ := hch
    exact ih ((turned_modeLetter client hch letter).exists_channel hch)

/-! ## The command around the loop -/

theorem modeLoop_append (before after : Str) :
    modeLoop client target (before ++ after) m
      = modeLoop client target after (modeLoop client target before m) :=
  List.foldl_append

/-- The modes of a channel are set by its operators. -/
theorem execute_modes {s : Server} (hname : target.head? = some (ch '#') ∨ target.head? = some (ch '&'))
    (hch : s.findChannel target = some channel) (hop : client ∈ channel.operators) {modeString : Str}
    (hknown : unknownLetter modeString = none) (arguments : List Str) :
    execute s client (target :: modeString :: arguments)
      = broadcastModes client target
        (modeLoop client target modeString { server := s, params := arguments }) := by
  have hvalid : ¬ (target.head? ≠ some (ch '#') ∧ target.head? ≠ some (ch '&')) :=
    fun h => hname.elim h.1 h.2
  rw [execute]
  dsimp only
  rw [if_neg hvalid, hch]
  dsimp only
  rw [if_neg (by simpa [Channel.isOperator_iff] using hop), hknown]

/-- A MODE command leaves all channels alone or runs the loop. -/
theorem execute_cases (s : Server) (client : Ptr) (params : List Str) :
    (execute s client params).channels = s.channels
    ∨ ∃ target modeString arguments channel, params = target :: modeString :: arguments
      ∧ s.findChannel target = some channel ∧ client ∈ channel.operators
      ∧ unknownLetter modeString = none
      ∧ execute s client params = broadcastModes client target
        (modeLoop client target modeString { server := s, params := arguments }) := by
  -- all answers but the announcement go to the client alone
  have htold : ∀ text, (s.sendMessage client text).channels = s.channels := fun _ => rfl
  cases params with
  | nil => exact Or.inl (htold _)
  | cons target rest =>
    by_cases hname : target.head? ≠ some (ch '#') ∧ target.head? ≠ some (ch '&')
    · rw [execute]
      rw [if_pos hname]
      exact Or.inl rfl
    have hname' : target.head? = some (ch '#') ∨ target.head? = some (ch '&') := by
      by_contra h
      exact hname (not_or.mp h)
    cases hch : s.findChannel target with
    | none =>
      rw [execute]
      rw [if_neg hname, hch]
      exact Or.inl (htold _)
    | some channel =>
      cases rest with
      | nil =>
        rw [execute]
        dsimp only
        rw [if_neg hname, hch]
        exact Or.inl (htold _)
      | cons modeString arguments =>
        by_cases hop : client ∈ channel.operators
        · cases hknown : unknownLetter modeString with
          | none =>
            exact Or.inr ⟨target, modeString, arguments, channel, rfl, hch, hop, hknown,
              execute_modes hname' hch hop hknown arguments⟩
          | some c =>
            rw [execute]
            dsimp only
            rw [if_neg hname, hch]
            dsimp only
            rw [if_neg (by simpa [Channel.isOperator_iff] using hop), hknown]
            exact Or.inl (htold _)
        · rw [execute]
          dsimp only
          rw [if_neg hname, hch]
          dsimp only
          rw [if_pos (by simpa [Channel.isOperator_iff] using hop)]
          exact Or.inl (htold _)

variable (client target m) in
/-- What the members are sent behind the loop. -/
def announcement : Str :=
  lit ":" ++ m.server.nickname client ++ lit "!~" ++ m.server.username client
    ++ lit "@localhost MODE " ++ target ++ lit " " ++ m.appliedModes ++ m.appliedParams ++ lit "\r\n"

/-- Every member of the channel is sent the announcement, the operator included, unless it is empty. -/
theorem broadcastModes_eq (hch : m.server.findChannel target = some channel) :
    broadcastModes client target m
      = (if m.appliedModes = [] then m.server
        else m.server.broadcastMessage channel (announcement client target m) none) := by
  unfold broadcastModes
  rw [hch]
  by_cases h : m.appliedModes = []
  · rw [if_pos h, if_pos (List.isEmpty_iff.mpr h)]
  · rw [if_neg h, if_neg (mt List.isEmpty_iff.mp h)]
    rfl

theorem channels_broadcastModes : (broadcastModes client target m).channels = m.server.channels := by
  unfold broadcastModes
  split_ifs
  · rfl
  split
  · rfl
  · exact Server.channels_broadcastMessage ..

theorem findChannel_broadcastModes (name : Str) :
    (broadcastModes client target m).findChannel name = m.server.findChannel name := by
  rw [Server.findChannel, channels_broadcastModes]
  rfl

end ModeCommand

end FtIrc
