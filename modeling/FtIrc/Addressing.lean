import FtIrc.Admission
import FtIrc.Casemapping
import FtIrc.ComposedLine
import FtIrc.Refusals

/-!
# Addressing channels

JOIN takes its channel from any parameter, the trailing one too, and `isValidChannelName` excludes
the blank, the comma and BEL. TOPIC and MODE take theirs from the middle of the line, which
`Parser::parse` splits at every kind of whitespace. The names both agree on are those without any.
-/

namespace FtIrc

open Bytes

/-- The commands about a channel name it as it is stored: the parser returns the name, and the
topic or the mode string behind it. -/
structure Addressable (name : Str) : Prop where
  topic : ∀ text : Str, Clean text →
    Parser.parse (lit "TOPIC " ++ name ++ lit " :" ++ text)
      = { command := lit "TOPIC", params := [name, text] }
  mode : ∀ modeString : Str, modeString ≠ [] → Unspaced modeString →
    modeString.head? ≠ some colon →
    Parser.parse (lit "MODE " ++ name ++ lit " " ++ modeString)
      = { command := lit "MODE", params := [name, modeString] }

/-! ## What the parser returns -/

section Name

variable {name : Str} (hvalid : JoinCommand.isValidChannelName name = true)
include hvalid

/-- A TOPIC line gives the words of the name as parameters. -/
theorem parse_topic (hcr : cr ∉ name) {text : Str} (htext : cr ∉ text) :
    Parser.parse (lit "TOPIC " ++ name ++ lit " :" ++ text)
      = { command := lit "TOPIC", params := words name ++ [text] } := by
  have hlit : lit "TOPIC " = lit "TOPIC" ++ lit " " := by decide
  rw [hlit, parse_named hvalid ⟨by decide, by decide, by decide⟩ hcr htext]
  rfl

/-- A name is addressable when it has no whitespace, and only then. -/
theorem addressable_iff (hcr : cr ∉ name) : Addressable name ↔ Unspaced name := by
  have hne := ne_nil_of_isValidChannelName hvalid
  constructor
  · intro h
    -- a topic that is empty tells the names apart already
    have htopic := h.topic [] fun _ hb => absurd hb List.not_mem_nil
    rw [parse_topic hvalid hcr List.not_mem_nil, Message.mk.injEq] at htopic
    have hwords : words name = [name] := (List.append_left_inj [[]]).mp htopic.2.2
    exact (words_eq_singleton_iff.mp hwords).2
  · intro h
    have hwords : words name = [name] := words_of_not_isSpace h hne
    constructor
    · intro text htext
      have htextCr : cr ∉ text := fun hmem => (htext cr hmem).2.1 rfl
      rw [parse_topic hvalid hcr htextCr, hwords]
      rfl
    · intro modeString hmode hunspaced hhead
      have hlit : lit "MODE " = lit "MODE" ++ [sp] := by decide
      have hblank : lit " " = [sp] := by decide
      have hcommand : words (lit "MODE") = [lit "MODE"] := by decide
      have hline : lit "MODE " ++ name ++ lit " " ++ modeString
          = lit "MODE" ++ spaced [name, modeString] := by
        rw [hlit, hblank, List.append_assoc (lit "MODE"), List.append_assoc, List.append_assoc]
        show lit "MODE" ++ (sp :: name ++ (sp :: modeString))
          = lit "MODE" ++ (sp :: name ++ (sp :: modeString ++ []))
        rw [List.append_nil]
      have hsp : sp ∉ modeString := fun hmem => ne_sp_of_not_isSpace (hunspaced sp hmem) rfl
      have hmiddle : ∀ w ∈ [name, modeString], Middle w := by
        intro w hw
        rcases List.mem_cons.mp hw with rfl | hw
        · exact middle_of_isValidChannelName hvalid
        · rw [List.mem_singleton.mp hw]
          exact ⟨hsp, hhead⟩
      have hunspacedCr : cr ∉ modeString := fun hmem => ne_cr_of_not_isSpace (hunspaced cr hmem) rfl
      rw [hline, Parser.parse_spaced (by decide) (by decide) hmiddle, hcommand, flatMap_words]
      · rfl
      · intro w hw
        rcases List.mem_cons.mp hw with rfl | hw
        · exact ⟨hne, h⟩
        · rw [List.mem_singleton.mp hw]
          exact ⟨hmode, hunspaced⟩
      · intro hmem
        rcases List.mem_append.mp hmem with hmem | hmem
        · exact absurd hmem (by decide)
        rcases mem_spaced hmem with hblank | ⟨w, hw, hword⟩
        · exact absurd hblank (by decide)
        rcases List.mem_cons.mp hw with rfl | hw
        · exact hcr hword
        · rw [List.mem_singleton.mp hw] at hword
          exact hunspacedCr hword

end Name

/-! ## Names over a run -/

theorem Reachable.addressable_iff {s : Server} (h : Reachable s) {name : Str} {ch : Channel}
    (hch : s.findChannel name = some ch) : Addressable name ↔ Unspaced name := by
  apply FtIrc.addressable_iff (h.keyed name ch hch).1
  intro hmem
  exact ((h.tidy.texts name ch hch).name.clean cr hmem).2.1 rfl

/-- No JOIN gives a valid name with whitespace in it. -/
def readableNames : Guard where
  line s c m := (s.client c).isRegistered = true → m.handler = some .join →
    ∀ n ∈ m.channelNames, JoinCommand.isValidChannelName n = true → Unspaced n

instance (s : Server) (c : Ptr) (m : Message) : Decidable (readableNames.line s c m) :=
  have := List.decidableBAll (fun n => JoinCommand.isValidChannelName n = true → Unspaced n)
    m.channelNames
  inferInstanceAs (Decidable (_ → _ → _))

instance (s : Server) (p : Ptr) : Decidable (readableNames.disconnect s p) := .isTrue trivial

/-- Every channel can be addressed. -/
def Server.AllAddressable (s : Server) : Prop :=
  ∀ name ch, s.findChannel name = some ch → Addressable name

/-- The name of every channel is without whitespace. -/
def Server.UnspacedNames (s : Server) : Prop := ∀ name ∈ s.channels.keys, Unspaced name

theorem Reachable.allAddressable_iff {s : Server} (h : Reachable s) :
    s.AllAddressable ↔ s.UnspacedNames := by
  constructor
  · intro hs name hname
    obtain ⟨ch, hch⟩ := OrdMap.mem_keys.mp hname
    exact (h.addressable_iff hch).mp (hs name ch hch)
  · intro hs name ch hch
    exact (h.addressable_iff hch).mpr (hs name (OrdMap.mem_keys.mpr ⟨ch, hch⟩))

/-- A JOIN of valid names has them become the names of channels, when its client is registered. -/
theorem Server.mem_keys_of_join {s : Server} {c : Ptr} {m : Message} {n : Str}
    (hreg : (s.client c).isRegistered = true) (hm : m.handler = some .join)
    (hn : n ∈ m.channelNames) (hvalid : JoinCommand.isValidChannelName n = true) :
    n ∈ (s.processMessage c m).channels.keys := by
  have hnames : m.channelNames = splitString (m.params.headD []) comma := by
    rw [Message.channelNames, hm]
  have hp : m.params ≠ [] := by
    intro hnil
    have hnone : splitString (([] : List Str).headD []) comma = [] := by decide
    rw [hnames, hnil, hnone] at hn
    exact List.not_mem_nil hn
  have hzero : ¬ m.LeavesAll := by
    rintro ⟨_, hhead⟩
    rw [hnames, List.headD_eq_head?_getD, hhead] at hn
    have heq : n = lit "0" := List.mem_singleton.mp hn
    rw [heq] at hvalid
    exact absurd hvalid (by decide)
  rw [s.processMessage_of_registered hreg hm]
  show n ∈ (JoinCommand.execute s c m.params).channels.keys
  rw [JoinCommand.execute_eq hm hzero hp]
  exact JoinCommand.mem_keys_joinLoop (Or.inr ⟨hn, hvalid⟩)

/-- A line leaves all names without whitespace exactly if it meets the condition. -/
theorem DispatchOf.unspacedNames_iff {s t s' : Server} {c : Ptr} {line : Str}
    (h : DispatchOf c line s t s') (hs : s.UnspacedNames) :
    s'.UnspacedNames ↔ readableNames.line t c (Parser.parse line) := by
  have heffects := h.effects
  have hbefore : t.UnspacedNames := by
    obtain ⟨_, _, _, _, _, rfl, _⟩ := h
    exact hs
  have hafter : s'.channels = (t.processMessage c (Parser.parse line)).channels := by
    obtain ⟨_, _, _, _, _, _, rfl⟩ := h
    rfl
  rw [Server.UnspacedNames, hafter]
  constructor
  · intro hunspaced hreg hm n hn hvalid
    exact hunspaced n (Server.mem_keys_of_join hreg hm hn hvalid)
  · intro hguard name hname
    rcases heffects.mem_keys hname with hold | ⟨hreg, hm, -, hnamed, hvalid⟩
    · exact hbefore name hold
    · exact hguard hreg hm name hnamed hvalid

/-- A move leaves all names without whitespace exactly if it meets the condition. -/
theorem Move.unspacedNames_iff {s s' : Server} (h : Move s s') (hs : s.UnspacedNames) :
    s'.UnspacedNames ↔ readableNames.Met s s' := by
  constructor
  · intro hafter
    refine ⟨fun c line t hdispatch => (hdispatch.unspacedNames_iff hs).mp hafter, ?_⟩
    exact fun _ _ _ _ => trivial
  · intro hmet
    cases h with
    | connect => exact hs
    | io => exact hs
    | line hx live hextract =>
      have hdispatch : DispatchOf _ _ s _ _ := ⟨_, _, hx, live, hextract, rfl, rfl⟩
      exact (hdispatch.unspacedNames_iff hs).mpr (hmet.1 _ _ _ hdispatch)
    | disconnect hfd =>
      intro name hname
      obtain ⟨ch, hch⟩ := OrdMap.mem_keys.mp hname
      rw [← Server.findChannel, Server.findChannel_disconnectClient hfd] at hch
      obtain ⟨ch₀, hch₀, _⟩ := Option.map_eq_some_iff.mp hch
      exact hs name (OrdMap.mem_keys.mpr ⟨ch₀, hch₀⟩)
    | poll hpoll =>
      obtain ⟨_, rfl, _⟩ := Server.of_refreshPollEvents hpoll
      exact hs

theorem GuardedReachable.unspacedNames {s : Server} (h : GuardedReachable readableNames s) :
    s.UnspacedNames := by
  refine h.induct (P := Server.UnspacedNames) (fun _ _ _ hname => ?_) fun _ _ _ hmove hmet hs => ?_
  · exact absurd hname List.not_mem_nil
  · exact (hmove.unspacedNames_iff hs).mpr hmet

/-! ## Moderation -/

/-- An operator that gives a topic sets it. -/
theorem TopicCommand.findChannel_execute {s : Server} {c : Ptr} {name text : Str} {ch : Channel}
    (hch : s.findChannel name = some ch) (hmem : c ∈ ch.members) (hop : c ∈ ch.operators) :
    (execute s c [name, text]).findChannel name = some { ch with topic := text } := by
  have hoperator : ch.isOperator c = true := (Channel.isOperator_iff _ _).mpr hop
  have hmember : ch.isMember c = true := (Channel.isMember_iff _ _).mpr hmem
  unfold execute
  dsimp only
  rw [hch]
  dsimp only
  rw [hoperator, hmember, Bool.not_true, Bool.and_false, if_neg Bool.false_ne_true,
    if_neg Bool.false_ne_true, Server.findChannel_tell, Server.modifyChannel_eq _ hch,
    Server.findChannel_modifyChannel hch, if_pos rfl]

/-- The lines of an operator about an addressable channel reach it. -/
theorem Addressable.moderated {s : Server} (h : Reachable s) {name : Str} {ch : Channel}
    (hname : Addressable name) (hch : s.findChannel name = some ch) {c : Ptr}
    (hop : c ∈ ch.operators) :
    (∀ text : Str, Clean text →
      (s.processLine c (lit "TOPIC " ++ name ++ lit " :" ++ text)).findChannel name
        = some { ch with topic := text })
    ∧ ∀ modeString : Str, modeString ≠ [] → Unspaced modeString → modeString.head? ≠ some colon →
      s.processLine c (lit "MODE " ++ name ++ lit " " ++ modeString)
        = ModeCommand.execute s c [name, modeString] := by
  have hmem := (h.integrity.channel name ch hch).wf.operators_sub c hop
  obtain ⟨x, hx, hreg⟩ := h.member_registered ⟨ch, hch, hmem⟩
  have hclient : (s.client c).isRegistered = true := by rw [Server.client_of_heap hx, hreg]
  constructor
  · intro text htext
    have htopic : Message.handler { command := lit "TOPIC", params := [name, text] } = some .topic :=
      show commands.lookup (lit "TOPIC") = some .topic by decide
    rw [Server.processLine, hname.topic text htext, s.processMessage_of_registered hclient htopic]
    exact TopicCommand.findChannel_execute hch hmem hop
  · intro modeString hne hunspaced hhead
    have hmode : Message.handler { command := lit "MODE", params := [name, modeString] }
        = some .mode := show commands.lookup (lit "MODE") = some .mode by decide
    rw [Server.processLine, hname.mode modeString hne hunspaced hhead,
      s.processMessage_of_registered hclient hmode]
    rfl

/-- As long as no JOIN gives a valid name with whitespace in it, every channel can be addressed, and
so moderated by its operators. A channel can be addressed exactly if its name has no whitespace,
and a move makes one that cannot exactly if it breaks the condition. -/
theorem channels_addressable (s : Server) :
    (GuardedReachable readableNames s → ∀ name ch, s.findChannel name = some ch →
      Addressable name
      ∧ ∀ c ∈ ch.operators,
        (∀ text : Str, Clean text →
          (s.processLine c (lit "TOPIC " ++ name ++ lit " :" ++ text)).findChannel name
            = some { ch with topic := text })
        ∧ ∀ modeString : Str, modeString ≠ [] → Unspaced modeString →
          modeString.head? ≠ some colon →
          s.processLine c (lit "MODE " ++ name ++ lit " " ++ modeString)
            = ModeCommand.execute s c [name, modeString])
    ∧ (Reachable s → ∀ name ch, s.findChannel name = some ch →
        (Addressable name ↔ Unspaced name))
    ∧ ∀ s', Reachable s → s.AllAddressable → Move s s' →
        (s'.AllAddressable ↔ readableNames.Met s s') := by
  refine ⟨fun h name ch hch => ?_, fun h name ch => h.addressable_iff, fun s' h hs hmove => ?_⟩
  · have hname := h.reachable.allAddressable_iff.mpr h.unspacedNames name ch hch
    exact ⟨hname, fun c hop => hname.moderated h.reachable hch hop⟩
  · rw [(h.move hmove).allAddressable_iff]
    exact hmove.unspacedNames_iff (h.allAddressable_iff.mp hs)

/-- A channel founded under a name with a tab in it. -/
def tabbed : Server := sample.run [.read 4 (.data (lit "JOIN :#a\tb\r\nTOPIC #a\tb :hello\r\n"))]

/-- The founder's TOPIC line is about another channel, which does not exist. -/
theorem tabbed_channel_unaddressable :
    Reachable tabbed
      ∧ (tabbed.findChannel (lit "#a\tb")).map (fun ch => (ch.operators, ch.topic)) = some ([0], [])
      ∧ (Parser.parse (lit "TOPIC #a\tb :hello")).params = [lit "#a", lit "b", lit "hello"]
      ∧ (tabbed.client 0).trace.offered.getLast?
          = some (lit ":server 403 ann #a :No such channel\r\n")
      ∧ ¬ Addressable (lit "#a\tb") := by
  obtain ⟨hadm, hchannel, hparsed, hreply⟩ :
      sample.AdmitsAll [.read 4 (.data (lit "JOIN :#a\tb\r\nTOPIC #a\tb :hello\r\n"))]
      ∧ (tabbed.findChannel (lit "#a\tb")).map (fun ch => (ch.operators, ch.topic)) = some ([0], [])
      ∧ (Parser.parse (lit "TOPIC #a\tb :hello")).params = [lit "#a", lit "b", lit "hello"]
      ∧ (tabbed.client 0).trace.offered.getLast?
          = some (lit ":server 403 ann #a :No such channel\r\n") := by
    decide +kernel
  refine ⟨reachable_sample.run hadm, hchannel, hparsed, hreply, fun h => ?_⟩
  have htopic := h.topic (lit "hello") (by decide)
  have hline : lit "TOPIC " ++ lit "#a\tb" ++ lit " :" ++ lit "hello" = lit "TOPIC #a\tb :hello" := by
    decide
  rw [hline] at htopic
  rw [htopic] at hparsed
  exact absurd hparsed (by decide)

theorem channels_addressable_sample :
    (sample.findChannel (lit "#c")).map Channel.operators = some [0]
      ∧ (sample.processLine 0 (lit "TOPIC " ++ lit "#c" ++ lit " :" ++ lit "hello")).findChannel
          (lit "#c") ≠ none := by
  obtain ⟨hadm, hmeets, hoperators⟩ : (Server.start (lit "pw") 3).AdmitsAll sampleEvents
      ∧ readableNames.MeetsAll (Server.start (lit "pw") 3) sampleEvents
      ∧ (sample.findChannel (lit "#c")).map Channel.operators = some [0] := by
    decide +kernel
  obtain ⟨ch, hch, hop⟩ := Option.map_eq_some_iff.mp hoperators
  obtain ⟨-, hmoderated⟩ := (channels_addressable sample).1 (guardedReachable_run hadm hmeets) _ ch hch
  have hzero : 0 ∈ ch.operators := by
    rw [hop]
    exact List.mem_singleton_self 0
  refine ⟨hoperators, ?_⟩
  rw [(hmoderated 0 hzero).1 (lit "hello") (by decide)]
  exact Option.some_ne_none _

end FtIrc
