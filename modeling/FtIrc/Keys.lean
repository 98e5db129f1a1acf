import FtIrc.GuardedRuns
import FtIrc.ModeLetters
import FtIrc.ComposedLine

/-!
# Channel keys

A key is filtered by MODE, read by the parser, and split at commas by JOIN. What MODE lets
through on a line that `extractLine` accepts, JOIN can offer on such a line: `Usable` holds of
the key of every channel, so no operator locks a channel for good.
-/

namespace FtIrc

open Bytes

/-- The line that offers a key to a channel. -/
def joinLine (name key : Str) : Str := lit "JOIN " ++ name ++ lit " :" ++ key

/-- A key of a channel that fits on a JOIN line, and is one key there. -/
structure Usable (name key : Str) : Prop where
  unspaced : ∀ b ∈ name, isSpace b = false
  length_le : name.length + key.length ≤ 503
  clean : ∀ b ∈ key, b ≠ comma ∧ b ≠ cr

/-- What a valid channel name starts with. -/
theorem head_of_isValidChannelName {name : Str} (h : JoinCommand.isValidChannelName name = true) :
    ∃ first rest, name = first :: rest ∧ (first = ch '#' ∨ first = ch '&') ∧ comma ∉ name := by
  cases name with
  | nil => exact absurd h Bool.false_ne_true
  | cons first rest =>
    simp only [JoinCommand.isValidChannelName, Bool.and_eq_true, Bool.or_eq_true, beq_iff_eq,
      List.all_eq_true, bne_iff_ne] at h
    exact ⟨first, rest, rfl, h.1.2, fun hmem => (h.2 comma hmem).1.2 rfl⟩

section Name

variable {name : Str} (hvalid : JoinCommand.isValidChannelName name = true)
include hvalid

theorem ne_nil_of_isValidChannelName : name ≠ [] := by
  rintro rfl
  exact absurd hvalid (by decide)

theorem ne_zero_of_isValidChannelName : name ≠ lit "0" := by
  rintro rfl
  exact absurd hvalid (by decide)

theorem middle_of_isValidChannelName : Middle name := by
  obtain ⟨first, rest, rfl, hfirst, -⟩ := head_of_isValidChannelName hvalid
  simp only [JoinCommand.isValidChannelName, Bool.and_eq_true, List.all_eq_true, bne_iff_ne] at hvalid
  constructor
  · intro hmem
    exact (hvalid.2 sp hmem).1.1 rfl
  · show some first ≠ some colon
    rcases hfirst with rfl | rfl <;> decide

theorem splitString_of_isValidChannelName : splitString name comma = [name] := by
  obtain ⟨first, rest, -, -, hcomma⟩ := head_of_isValidChannelName hvalid
  exact fields_of_not_mem (ne_nil_of_isValidChannelName hvalid) hcomma

/-- A line with a command, the name and a trailing part has the words of the name as parameters. -/
theorem parse_named {command : Str} (hcommand : Whole command) (hcr : cr ∉ name) {text : Str}
    (htext : cr ∉ text) :
    Parser.parse (command ++ lit " " ++ name ++ lit " :" ++ text)
      = { command := command.map toUpper, params := words name ++ [text] } := by
  have hline : command ++ lit " " ++ name ++ lit " :" ++ text
      = command ++ spaced [name] ++ lit " :" ++ text := by
    rw [List.append_assoc command]
    show command ++ (sp :: name) ++ _ ++ _ = command ++ (sp :: name ++ []) ++ _ ++ _
    rw [List.append_nil]
  have hmiddle : ∀ w ∈ [name], Middle w := by
    intro w hw
    rw [List.mem_singleton.mp hw]
    exact middle_of_isValidChannelName hvalid
  rw [hline, Parser.parse_spaced_trailing hcommand.middle.sp_not_mem hmiddle, hcommand.words_eq]
  · show Parser.assemble (command :: (words name ++ [])) [text] = _
    rw [List.append_nil, Parser.assemble, if_neg hcommand.head_ne]
  · intro hmem
    rw [List.mem_append, List.mem_append, List.mem_append, spaced_cons, spaced_nil, List.append_nil,
      List.mem_cons] at hmem
    rcases hmem with ((hmem | hmem | hmem) | hmem) | hmem
    · exact ne_cr_of_not_isSpace (hcommand.unspaced cr hmem) rfl
    · exact absurd hmem (by decide)
    · exact hcr hmem
    · exact absurd hmem (by decide)
    · exact htext hmem

/-- JOIN with the name and one key is a single turn. -/
theorem JoinCommand.execute_single (s : Server) (c : Ptr) {key : Str} (hkey : key ≠ [])
    (hcomma : comma ∉ key) : execute s c [name, key] = joinOne s c name key := by
  have hkeys : splitString key comma = [key] := fields_of_not_mem hkey hcomma
  unfold execute
  dsimp only
  rw [if_neg (ne_zero_of_isValidChannelName hvalid), splitString_of_isValidChannelName hvalid, hkeys]
  rfl

end Name

namespace Usable

variable {name key : Str} (h : Usable name key)
include h

theorem length_joinLine : (joinLine name key).length ≤ 510 := by
  have hjoin : (lit "JOIN ").length = 5 := by decide
  have hcolon : (lit " :").length = 2 := by decide
  have hle := h.length_le
  simp only [joinLine, List.length_append, hjoin, hcolon]
  omega

/-- The parser finds the name and the key, whatever else they are made of. -/
theorem parse_joinLine (hvalid : JoinCommand.isValidChannelName name = true) :
    Parser.parse (joinLine name key) = { command := lit "JOIN", params := [name, key] } := by
  have hlit : lit "JOIN " = lit "JOIN" ++ lit " " := by decide
  have hjoin : Whole (lit "JOIN") := ⟨by decide, by decide, by decide⟩
  have hname : cr ∉ name := fun hmem => ne_cr_of_not_isSpace (h.unspaced cr hmem) rfl
  have hkey : cr ∉ key := fun hmem => (h.clean cr hmem).2 rfl
  rw [joinLine, hlit, parse_named hvalid hjoin hname hkey,
    words_of_not_isSpace h.unspaced (ne_nil_of_isValidChannelName hvalid)]
  rfl

end Usable

/-! ## Keys over a run -/

/-- Every channel has a name and a key, which may be empty, that satisfy `P`. -/
def Server.KeysAre (P : Str → Str → Prop) (s : Server) : Prop :=
  ∀ name ch, s.findChannel name = some ch → P name ch.password

/-- Every channel has a valid name, and a key that can be used if it has one. -/
def Server.Keyed (s : Server) : Prop :=
  ∀ name ch, s.findChannel name = some ch → JoinCommand.isValidChannelName name = true
    ∧ (ch.password ≠ [] → Usable name ch.password)

namespace Server.KeysAre

variable {P : Str → Str → Prop} {s t : Server}

theorem of_channels (h : s.KeysAre P) (heq : t.channels = s.channels) : t.KeysAre P := by
  intro name ch hch
  rw [findChannel, heq] at hch
  exact h name ch hch

/-- A change of one channel. -/
theorem modifyChannel (h : s.KeysAre P) {name : Str} {f : Channel → Channel}
    (hf : ∀ ch, s.findChannel name = some ch → P name (f ch).password) :
    (s.modifyChannel name f).KeysAre P := by
  intro n ch' hch'
  rw [findChannel, Server.modifyChannel, OrdMap.find?_modify] at hch'
  split_ifs at hch' with hn
  · rw [hn] at hch' ⊢
    obtain ⟨ch, hch, rfl⟩ := Option.map_eq_some_iff.mp hch'
    exact hf ch hch
  · exact h n ch' hch'

end Server.KeysAre

namespace Channel

variable (ch : Channel) (p : Ptr)

@[simp] theorem password_addMember : (ch.addMember p).password = ch.password := by
  unfold addMember
  split_ifs <;> rfl

@[simp] theorem password_addOperator : (ch.addOperator p).password = ch.password := by
  unfold addOperator
  split_ifs <;> rfl

@[simp] theorem password_addInvited : (ch.addInvited p).password = ch.password := by
  unfold addInvited
  split_ifs <;> rfl

@[simp] theorem password_removeMember : (ch.removeMember p).password = ch.password := by
  rw [removeMember_eq]

end Channel

/-- Only MODE sets keys. -/
theorem ChannelChange.password_eq {c : Ptr} {m : Message} {s₀ s : Server} {name : Str}
    {ch ch' : Channel} (h : ChannelChange c m s₀ s name ch ch') (hm : m.handler ≠ some .mode) :
    ch'.password = ch.password := by
  cases h with
  | join => exact ch.password_addMember c
  | kick => exact ch.password_removeMember _
  | invite => exact ch.password_addInvited _
  | topic => rfl
  | mode h => exact absurd h hm

/-- Only MODE sets keys: the other commands leave them as they are, and found channels without. -/
theorem Effects.keysAre {P : Str → Str → Prop} {c : Ptr} {m : Message} {s₀ s : Server}
    (h : Effects c m s₀ s) (hm : m.handler ≠ some .mode)
    (hfound : ∀ name, JoinCommand.isValidChannelName name = true → P name []) (h₀ : s₀.KeysAre P) :
    s.KeysAre P := by
  apply h.induct (P := Server.KeysAre P) h₀
  intro t t' _ heff ht
  cases heff with
  | reply => exact ht
  | relay => exact ht
  | own => exact ht
  | @found _ name _ _ _ _ hvalid =>
    intro n ch hch
    rw [Server.findChannel, OrdMap.find?_insert] at hch
    split_ifs at hch with hn
    · rw [← Option.some_inj.mp hch, hn]
      exact hfound name hvalid
    · exact ht n ch hch
  | @change _ name ch ch' _ _ hch hchange =>
    refine ht.modifyChannel fun _ _ => ?_
    rw [hchange.password_eq hm]
    exact ht name ch hch
  | @part _ name ch _ _ hch =>
    refine ht.modifyChannel fun _ _ => ?_
    rw [ch.password_removeMember c]
    exact ht name ch hch
  | @dissolve _ name ch _ _ hch =>
    intro n ch₁ hch₁
    rw [Server.findChannel_removeChannel, Server.findChannel_modifyChannel hch] at hch₁
    split_ifs at hch₁ with _ hn
    · rw [← Option.some_inj.mp hch₁, hn, Channel.password_removeMember]
      exact ht name ch hch
    · exact ht n ch₁ hch₁

/-- A client that leaves takes no key with it. -/
theorem Server.KeysAre.disconnectClient {P : Str → Str → Prop} {s : Server} (h : s.KeysAre P)
    {fd : Fd} {p : Ptr} (hfd : s.clients.find? fd = some p) : (s.disconnectClient fd).KeysAre P := by
  intro name ch hch
  rw [s.findChannel_disconnectClient hfd] at hch
  obtain ⟨ch₀, hch₀, rfl⟩ := Option.map_eq_some_iff.mp hch
  rw [Channel.removeInvited, Channel.password_removeMember]
  exact h name ch₀ hch₀

/-! ## MODE -/

namespace ModeCommand

variable {P : Str → Prop} {c : Ptr} {target : Str} {m : ModeLoop}

/-- Every key that the loop over a mode string sets satisfies `P`. -/
def SetsKeys (P : Str → Prop) (client : Ptr) (target : Str) : Str → ModeLoop → Prop
  | [], _ => True
  | letter :: letters, m =>
    (letter = ch 'k' → m.isPlus = true →
      ∀ channel ∈ m.server.findChannel target, channel.password = [] →
        ∀ key ∈ m.params.head?, badKey key = false → P key)
      ∧ SetsKeys P client target letters (modeLetter client target m letter)

instance SetsKeys.decidable [DecidablePred P] : (letters : Str) → (m : ModeLoop) →
    Decidable (SetsKeys P c target letters m)
  | [], _ => .isTrue trivial
  | letter :: letters, m =>
    have := SetsKeys.decidable letters (modeLetter c target m letter)
    inferInstanceAs (Decidable (_ ∧ _))

end ModeCommand

namespace Message

/-- Every key that an operator sets with these parameters satisfies `P` under the name of the
channel. -/
def ArgumentsSetKeys (P : Str → Str → Prop) (s : Server) (client : Ptr) (params : List Str) : Prop :=
  match params with
  | target :: modeString :: arguments =>
    ∀ channel ∈ s.findChannel target, client ∈ channel.operators →
      ModeCommand.unknownLetter modeString = none →
        ModeCommand.SetsKeys (P target) client target modeString { server := s, params := arguments }
  | _ => True

/-- Every key that a message sets satisfies `P`. -/
def SetsKeys (P : Str → Str → Prop) (s : Server) (client : Ptr) (m : Message) : Prop :=
  (s.client client).isRegistered = true → m.handler = some .mode →
    ArgumentsSetKeys P s client m.params

variable {P : Str → Str → Prop} [∀ name, DecidablePred (P name)]

instance (s : Server) (client : Ptr) (params : List Str) :
    Decidable (ArgumentsSetKeys P s client params) :=
  match params with
  | [] => .isTrue trivial
  | [_] => .isTrue trivial
  | _ :: _ :: _ => inferInstanceAs (Decidable (∀ _ ∈ _, _))

instance (s : Server) (client : Ptr) (m : Message) : Decidable (m.SetsKeys P s client) :=
  inferInstanceAs (Decidable (_ → _ → _))

end Message

namespace ModeCommand

variable {P : Str → Prop} {c : Ptr} {target : Str} {m : ModeLoop}

/-- All keys are good if all arguments that can become keys are. -/
theorem SetsKeys.of_params (hch : ∃ channel, m.server.findChannel target = some channel)
    (h : ∀ key ∈ m.params, badKey key = false → P key) (letters : Str) :
    SetsKeys P c target letters m := by
  induction letters generalizing m with
  | nil => trivial
  | cons letter letters ih =>
    obtain ⟨channel, hch⟩ := hch
    have hturn := turned_modeLetter c hch letter
    have hsuffix : (modeLetter c target m letter).params <:+ m.params := by
      cases hturn with
      | @made d rest hmakes hm' =>
        rw [hm', m.params_make target d rest]
        exact hmakes.suffix
      | quiet _ hquiet => exact hquiet.params
    refine ⟨fun _ _ _ _ _ key hkey => h key (List.mem_of_mem_head? hkey), ?_⟩
    exact ih (hturn.exists_channel hch) fun key hkey => h key (hsuffix.subset hkey)

theorem Change.password_apply (d : Change) (channel : Channel) :
    (d.apply channel).password
      = match d with
        | setKey key => key
        | clearKey => []
        | _ => channel.password := by
  cases d with
  | operator on nick q =>
    show (if on then channel.addOperator q else channel.removeOperator q).password = _
    split_ifs
    · exact channel.password_addOperator q
    · rfl
  | inviteOnly => rfl
  | topicRestricted => rfl
  | setKey => rfl
  | clearKey => rfl
  | setLimit => rfl
  | clearLimit => rfl

section Loop

variable {P : Str → Str → Prop} (hclear : ∀ name key, P name key → P name [])
include hclear

/-- A turn sets a key that it has taken from the parameters, or takes the key off. -/
theorem keysAre_modeLetter (h : m.server.KeysAre P) {channel : Channel}
    (hch : m.server.findChannel target = some channel) {letter : Byte}
    (hset : letter = ch 'k' → m.isPlus = true → channel.password = [] →
      ∀ key ∈ m.params.head?, badKey key = false → P target key) :
    (modeLetter c target m letter).server.KeysAre P := by
  have hbefore : P target channel.password := h target channel hch
  cases turned_modeLetter c hch letter with
  | @made d rest hmakes hm' =>
    rw [hm', m.server_make target d rest]
    refine h.modifyChannel fun channel' hch' => ?_
    obtain rfl := Option.some_inj.mp (hch.symm.trans hch')
    rw [Change.password_apply]
    cases hmakes with
    | inviteOnly => exact hbefore
    | topicRestricted => exact hbefore
    | setKey hplus hparams hkey hnone =>
      refine hset rfl hplus hnone _ ?_ hkey
      rw [hparams]
      rfl
    | clearKey => exact hclear target _ hbefore
    | setLimit => exact hbefore
    | clearLimit => exact hbefore
    | operator => exact hbefore
  | quiet _ hquiet =>
    intro name ch' hch'
    rw [hquiet.findChannel] at hch'
    exact h name ch' hch'

theorem keysAre_modeLoop (h : m.server.KeysAre P)
    (hch : ∃ channel, m.server.findChannel target = some channel) {letters : Str}
    (hset : SetsKeys (P target) c target letters m) :
    (modeLoop c target letters m).server.KeysAre P := by
  unfold modeLoop
  induction letters generalizing m with
  | nil => exact h
  | cons letter letters ih =>
    obtain ⟨channel, hch⟩ := hch
    obtain ⟨hfirst, hrest⟩ := hset
    refine ih ?_ ((turned_modeLetter c hch letter).exists_channel hch) hrest
    exact keysAre_modeLetter hclear h hch fun hk hplus hnone => hfirst hk hplus channel hch hnone

/-- MODE sets no other keys than the loop does. -/
theorem keysAre_execute {s : Server} (h : s.KeysAre P) {params : List Str}
    (hset : Message.ArgumentsSetKeys P s c params) : (execute s c params).KeysAre P := by
  rcases execute_cases s c params with
    hsame | ⟨target, modeString, arguments, channel, rfl, hch, hop, hknown, hexecute⟩
  · exact h.of_channels hsame
  · have hloop : Server.KeysAre P
        (modeLoop c target modeString { server := s, params := arguments }).server :=
      keysAre_modeLoop hclear h ⟨channel, hch⟩ (hset channel hch hop hknown)
    rw [hexecute]
    exact hloop.of_channels channels_broadcastModes

end Loop

end ModeCommand

/-- The commands of the table are told apart by their names. -/
theorem Message.command_of_handler {m : Message} {k : Command} (h : m.handler = some k) :
    (m.command, k) ∈ commands := by
  obtain ⟨front, back, hcommands, _⟩ := List.lookup_eq_some_iff.mp h
  rw [hcommands]
  exact List.mem_append_right _ List.mem_cons_self

/-- The parameters of a MODE line that was accepted can become keys. -/
theorem usable_of_mode {line target modeString : Str} {arguments : List Str}
    (hline : AcceptedLine line) (hm : (Parser.parse line).handler = some .mode)
    (hp : (Parser.parse line).params = target :: modeString :: arguments) {key : Str}
    (hkey : key ∈ arguments) (hcomma : ∀ b ∈ key, b ≠ comma) : Usable target key := by
  have hpieces := Parser.piecesOf_parse line
  have hcommand : (Parser.parse line).command.length = 4 := by
    have hentry := Message.command_of_handler hm
    generalize (Parser.parse line).command = name at hentry
    simp only [commands, List.mem_cons, Prod.mk.injEq, List.not_mem_nil, reduceCtorEq, and_false,
      and_true, or_false, false_or] at hentry
    rw [hentry]
    decide
  have hmiddle : ∀ p ∈ target :: modeString :: arguments.dropLast, p ≠ []
      ∧ ∀ b ∈ p, isSpace b = false := by
    have hne : arguments ≠ [] := List.ne_nil_of_mem hkey
    have hmiddle := hpieces.middle
    rwa [hp, List.dropLast_cons_of_ne_nil (List.cons_ne_nil _ _),
      List.dropLast_cons_of_ne_nil hne] at hmiddle
  refine ⟨(hmiddle target List.mem_cons_self).2, ?_, fun b hb => ⟨hcomma b hb, ?_⟩⟩
  · have hmode : 0 < modeString.length :=
      List.length_pos_iff.mpr (hmiddle modeString (List.mem_cons_of_mem _ List.mem_cons_self)).1
    have hone : key.length + 1 ≤ (arguments.map fun p => p.length + 1).sum :=
      List.single_le_sum (fun _ _ => Nat.zero_le _) _ (List.mem_map_of_mem hkey)
    have hle := hpieces.length_le.trans hline.length_le
    rw [hcommand, Message.paramsLength, hp, List.map_cons, List.map_cons, List.sum_cons,
      List.sum_cons] at hle
    omega
  · have hmem : key ∈ (Parser.parse line).params := by
      rw [hp]
      exact List.mem_cons_of_mem _ (List.mem_cons_of_mem _ hkey)
    exact (hline.clean b (hpieces.params_mem key hmem b hb)).2.1

/-- A line sets keys if it is a MODE line of a registered client. -/
theorem Server.KeysAre.processLine {P : Str → Str → Prop}
    (hfound : ∀ name, JoinCommand.isValidChannelName name = true → P name [])
    (hclear : ∀ name key, P name key → P name []) {s : Server} (hs : s.KeysAre P) {c : Ptr}
    {x : Client} (hx : s.heap c = some x) {line : Str} (hset : (Parser.parse line).SetsKeys P s c) :
    (s.processLine c line).KeysAre P := by
  have hpath := s.processMessage_effects hx (Parser.parse line)
  by_cases hm : (Parser.parse line).handler = some .mode
  swap
  · exact hpath.keysAre hm hfound hs
  cases hreg : (s.client c).isRegistered with
  | false => exact hs.of_channels (hpath.channels_of_unregistered hreg)
  | true =>
    rw [Server.processLine, s.processMessage_of_registered hreg hm]
    exact ModeCommand.keysAre_execute hclear hs (hset hreg hm)

/-- A move leaves good keys if its line, if it is one, sets good keys. -/
theorem Move.keysAre {P : Str → Str → Prop}
    (hfound : ∀ name, JoinCommand.isValidChannelName name = true → P name [])
    (hclear : ∀ name key, P name key → P name []) {s s' : Server} (h : Move s s')
    (hs : s.KeysAre P)
    (hset : ∀ c line t, DispatchOf c line s t s' → (Parser.parse line).SetsKeys P t c) :
    s'.KeysAre P := by
  cases h with
  | connect => exact hs
  | io => exact hs
  | @line p x x' line hx live hextract =>
    have hline := hset p line _ ⟨x, x', hx, live, hextract, rfl, rfl⟩
    have ht : (s.modify p fun _ => x').KeysAre P := hs
    exact (ht.processLine hfound hclear (Server.heap_extracted hx x') hline).of_channels rfl
  | disconnect hfd => exact hs.disconnectClient hfd
  | poll h =>
    obtain ⟨_, rfl, _⟩ := Server.of_refreshPollEvents h
    exact hs

/-! ## Keys that can be used -/

/-- A valid name, and a key that can be used if there is one. -/
def ValidKey (name key : Str) : Prop :=
  JoinCommand.isValidChannelName name = true ∧ (key ≠ [] → Usable name key)

theorem validKey_nil {name : Str} (h : JoinCommand.isValidChannelName name = true) :
    ValidKey name [] := ⟨h, fun hne => absurd rfl hne⟩

theorem Effects.keyed {c : Ptr} {m : Message} {s₀ s : Server} (h : Effects c m s₀ s)
    (hm : m.handler ≠ some .mode) (h₀ : s₀.Keyed) : s.Keyed :=
  h.keysAre hm (fun _ => validKey_nil) h₀

/-- What an operator sets on an accepted line can be used. -/
theorem setsKeys_of_accepted {s : Server} (hs : s.Keyed) {c : Ptr} {line : Str}
    (hline : AcceptedLine line) : (Parser.parse line).SetsKeys ValidKey s c := by
  intro _ hm
  unfold Message.ArgumentsSetKeys
  split
  next target modeString arguments hp =>
    intro channel hch _ _
    refine ModeCommand.SetsKeys.of_params ⟨channel, hch⟩ (fun key hkey hgood => ?_) modeString
    refine ⟨(hs target channel hch).1, fun _ => usable_of_mode hline hm hp hkey fun b hb heq => ?_⟩
    rw [ModeCommand.badKey, List.any_eq_false] at hgood
    exact hgood b hb (by rw [heq]; decide)
  next => trivial

/-- The keys of every channel can be used, in every reachable state. -/
theorem Reachable.keyed {s : Server} (h : Reachable s) : s.Keyed := by
  induction h with
  | start => exact fun _ ch h => absurd h (Option.some_ne_none ch).symm
  | @move s _ hreach hmove ih =>
    refine hmove.keysAre (P := ValidKey) (fun _ => validKey_nil) (fun _ _ h => validKey_nil h.1) ih ?_
    rintro c line t ⟨x, x', hx, _, hextract, rfl, _⟩
    exact setsKeys_of_accepted (s := s.modify c fun _ => x') ih (Client.acceptedLine hextract)

/-! ## Offering the key -/

/-- A head that is long enough decides what a text starts with. -/
theorem not_prefix_append {p head : Str} (hlen : p.length ≤ head.length) (h : ¬ p <+: head)
    (rest : Str) : ¬ p <+: head ++ rest := fun hp =>
  h (List.prefix_of_prefix_length_le hp (List.prefix_append _ _) hlen)

/-- A text is not the answer to a bad key. -/
def NotBadKey (text : Str) : Prop := ¬ lit ":server 475 " <+: text

instance (text : Str) : Decidable (NotBadKey text) := inferInstanceAs (Decidable (¬ _))

theorem NotBadKey.append {head : Str} (hlen : 12 ≤ head.length) (h : NotBadKey head) (rest : Str) :
    NotBadKey (head ++ rest) := by
  have hbad : (lit ":server 475 ").length = 12 := by decide
  exact not_prefix_append (hbad.trans_le hlen) h rest

@[simp] theorem JoinCommand.channels_announce (s : Server) (c : Ptr) (ch : Channel) (name : Str)
    (isNew : Bool) : (JoinCommand.announce s c ch name isNew).channels = s.channels := by
  unfold JoinCommand.announce
  dsimp only
  split_ifs <;> simp only [Server.channels_sendMessage, Server.channels_broadcastMessage]

/-- What JOIN sends after it has let a client in. -/
theorem JoinCommand.appends_announce {s : Server} {c : Ptr}
    (hvalid : NickCommand.isValidNickname (s.nickname c) = true) (ch : Channel) (name : Str) :
    Server.Appends NotBadKey s (JoinCommand.announce s c ch name false) := by
  have hjoin : NotBadKey (userPrefix s c ++ lit " JOIN :" ++ name ++ lit "\r\n") := fun hp =>
    ((((fromUser_userPrefix s c).append _).append _).append _).not_server hvalid
      (List.IsPrefix.trans (by decide) hp)
  have htold : Server.Appends NotBadKey s ((s.broadcastMessage ch _ (some c)).sendMessage c _) :=
    (Server.appends_sendAll _ hjoin).trans (Server.appends_sendMessage c hjoin)
  have hreply : ∀ {t : Server} (head : String) (rest : Str), Server.Appends NotBadKey s t →
      12 ≤ (lit head).length → NotBadKey (lit head) →
      Server.Appends NotBadKey s (t.sendMessage c (lit head ++ rest)) := fun head rest ht hlen hhead =>
    ht.trans (Server.appends_sendMessage c (hhead.append hlen rest))
  unfold JoinCommand.announce
  simp only [Bool.false_eq_true, if_false, List.append_assoc] at htold ⊢
  apply hreply ":server 366 "
  · apply hreply ":server 353 "
    · split_ifs
      · exact hreply ":server 332 " _ htold (by decide) (by decide)
      · exact htold
    · decide
    · decide
  · decide
  · decide

section Offer

variable {s : Server} {name : Str} {ch : Channel} {c : Ptr}

/-- JOIN with the key of a channel: no answer is about the key, and the client gets in unless
the channel is closed to it for another reason. -/
theorem JoinCommand.joinOne_of_key (hch : s.findChannel name = some ch)
    (hname : isValidChannelName name = true) (hout : c ∉ ch.members)
    (hvalid : NickCommand.isValidNickname (s.nickname c) = true) :
    Server.Appends NotBadKey s (joinOne s c name ch.password)
      ∧ ((joinOne s c name ch.password).IsMember c name
        ↔ (ch.inviteOnly = true → c ∈ ch.invitedClients)
          ∧ (ch.userLimit = 0 ∨ ch.members.length < ch.userLimit)) := by
  -- the other two refusals: their texts do not say that the key is bad
  have hrefused : ∀ (head : String) (rest : Str), 12 ≤ (lit head).length → NotBadKey (lit head) →
      Server.Appends NotBadKey s (s.sendMessage c (lit head ++ rest))
        ∧ ¬ (s.sendMessage c (lit head ++ rest)).IsMember c name := by
    intro head rest hlen hhead
    refine ⟨Server.appends_sendMessage c (hhead.append hlen rest), fun ⟨ch', hch', hmem⟩ => hout ?_⟩
    rwa [Option.some_inj.mp (hch.symm.trans hch')]
  unfold joinOne
  dsimp only
  rw [if_neg (by simpa using hname), hch]
  dsimp only
  rw [if_neg (by simpa using hout), if_neg (by simp)]
  simp only [List.append_assoc]
  by_cases hinvite : (ch.inviteOnly && !ch.isInvited c) = true
  · rw [if_pos hinvite]
    obtain ⟨happends, hnot⟩ := hrefused ":server 473 " _ (by decide) (by decide)
    refine ⟨happends, iff_of_false hnot fun ⟨hin, _⟩ => ?_⟩
    simp only [Bool.and_eq_true, Bool.not_eq_eq_eq_not, Bool.not_true, Channel.isInvited_eq_false]
      at hinvite
    exact hinvite.2 (hin hinvite.1)
  rw [if_neg hinvite]
  by_cases hlimit : (decide (ch.userLimit > 0) && decide (ch.getMembersCount ≥ ch.userLimit)) = true
  · rw [if_pos hlimit]
    obtain ⟨happends, hnot⟩ := hrefused ":server 471 " _ (by decide) (by decide)
    refine ⟨happends, iff_of_false hnot fun ⟨_, hroom⟩ => ?_⟩
    simp only [Channel.getMembersCount, ge_iff_le, Bool.and_eq_true, decide_eq_true_eq] at hlimit
    omega
  rw [if_neg hlimit, Effects.enter_eq hch]
  -- all three checks are passed
  have hentered : (s.modifyChannel name fun _ => (ch.addMember c).removeInvited c).findChannel name
      = some ((ch.addMember c).removeInvited c) := by
    rw [Server.findChannel_modifyChannel hch, if_pos rfl]
  have hsame : Server.Appends NotBadKey s
      (s.modifyChannel name fun _ => (ch.addMember c).removeInvited c) :=
    fun _ y hy => ⟨y, hy, .refl _ y⟩
  have hvalid' : NickCommand.isValidNickname
      ((s.modifyChannel name fun _ => (ch.addMember c).removeInvited c).nickname c) = true := hvalid
  generalize s.modifyChannel name (fun _ => (ch.addMember c).removeInvited c) = t at *
  rw [hentered]
  dsimp only
  refine ⟨hsame.trans (appends_announce hvalid' _ _), iff_of_true ?_ ⟨?_, ?_⟩⟩
  · refine ⟨_, (?_ : Server.findChannel _ _ = some ((ch.addMember c).removeInvited c)), ?_⟩
    · rw [Server.findChannel, channels_announce]
      exact hentered
    · rw [Channel.addMember_of_not_mem _ hout]
      exact List.mem_append_right _ (List.mem_singleton_self c)
  · simpa using hinvite
  · simp only [Channel.getMembersCount, ge_iff_le, Bool.and_eq_true, decide_eq_true_eq] at hlimit
    omega

end Offer

/-- In every reachable state the key of a channel fits on a JOIN line, the parser takes name and
key from that line as they are, and a client that offers it so is not told that the key is bad:
it gets in unless the channel is invite-only or full. -/
theorem keys_usable {s : Server} (h : Reachable s) {name : Str} {ch : Channel}
    (hch : s.findChannel name = some ch) (hkey : ch.password ≠ []) :
    (joinLine name ch.password).length ≤ 510
    ∧ Parser.parse (joinLine name ch.password)
        = { command := lit "JOIN", params := [name, ch.password] }
    ∧ ∀ c x, s.heap c = some x → x.isRegistered = true → c ∉ ch.members →
        s.processLine c (joinLine name ch.password)
            = JoinCommand.execute s c [name, ch.password]
        ∧ Server.Appends NotBadKey s (JoinCommand.execute s c [name, ch.password])
        ∧ ((JoinCommand.execute s c [name, ch.password]).IsMember c name
          ↔ (ch.inviteOnly = true → c ∈ ch.invitedClients)
            ∧ (ch.userLimit = 0 ∨ ch.members.length < ch.userLimit)) := by
  obtain ⟨hname, husable⟩ := h.keyed name ch hch
  have husable := husable hkey
  have hparse := husable.parse_joinLine hname
  refine ⟨husable.length_joinLine, hparse, fun c x hx hreg hout => ?_⟩
  have hclient : s.client c = x := Server.client_of_heap hx
  have hprocess : s.processLine c (joinLine name ch.password)
      = JoinCommand.execute s c [name, ch.password] := by
    rw [Server.processLine, hparse]
    exact Server.processMessage_of_registered (k := .join) (by rw [hclient, hreg])
      (show commands.lookup (lit "JOIN") = some .join by decide)
  have hone : JoinCommand.execute s c [name, ch.password]
      = JoinCommand.joinOne s c name ch.password :=
    JoinCommand.execute_single hname s c hkey fun hmem => (husable.clean comma hmem).1 rfl
  have hvalid : NickCommand.isValidNickname (s.nickname c) = true := by
    rw [Server.nickname, hclient]
    exact h.isValidNickname hx hreg
  rw [hone]
  exact ⟨hprocess.trans hone, JoinCommand.joinOne_of_key hch hname hout hvalid⟩

/-- The sample with a key on the channel, and a third client outside. -/
def locked : Server :=
  sample.run
    [.accept (.connection 6 true (some (lit "127.0.0.3")) (some 2)),
      .read 6 (.data (lit "PASS pw\r\nNICK cal\r\nUSER c 0 * :C\r\n")),
      .read 4 (.data (lit "MODE #c +k :k:1\r\n"))]

theorem reachable_locked : Reachable locked := reachable_sample.run (by decide +kernel)

theorem keys_usable_sample :
    ∃ ch x, locked.findChannel (lit "#c") = some ch ∧ locked.heap 2 = some x
      ∧ ch.password = lit "k:1"
      ∧ Parser.parse (joinLine (lit "#c") ch.password)
          = { command := lit "JOIN", params := [lit "#c", ch.password] }
      ∧ (JoinCommand.execute locked 2 [lit "#c", ch.password]).IsMember 2 (lit "#c") := by
  obtain ⟨hchannel, hclient⟩ : (locked.findChannel (lit "#c")).map
        (fun ch => (ch.password, ch.members, ch.inviteOnly, ch.userLimit))
          = some (lit "k:1", [0, 1], false, 0)
      ∧ (locked.heap 2).map Client.isRegistered = some true := by decide +kernel
  obtain ⟨ch, hch, hfields⟩ := Option.map_eq_some_iff.mp hchannel
  obtain ⟨x, hx, hreg⟩ := Option.map_eq_some_iff.mp hclient
  simp only [Prod.mk.injEq] at hfields
  obtain ⟨hpassword, hmembers, hinvite, hlimit⟩ := hfields
  have hkey : ch.password ≠ [] := by
    rw [hpassword]
    decide
  obtain ⟨-, hparse, hoffer⟩ := keys_usable reachable_locked hch hkey
  have hout : 2 ∉ ch.members := by
    rw [hmembers]
    decide
  refine ⟨ch, x, hch, hx, hpassword, hparse, (hoffer 2 x hx hreg hout).2.2.mpr ⟨fun h => ?_, .inl hlimit⟩⟩
  rw [hinvite] at h
  cases h

end FtIrc
