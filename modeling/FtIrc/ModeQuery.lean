import FtIrc.Addressing
import FtIrc.ModeReplay
import FtIrc.Secrecy

/-!
# Reading the answer to a MODE query

`MODE <channel>` is answered with a 324 line: behind the name of the channel come the letters of
the modes that are set, and the arguments of `k` and `l`. The key is one of the middle words there,
and MODE keeps blanks and commas out of keys, but neither the other whitespace nor a colon in
front. What can be read back from the line are the names and the keys without these.
-/

namespace FtIrc

open Bytes

namespace ModeCommand

/-! ## The line -/

/-- The answer to a query, without the end of the line. -/
def modesLine (s : Server) (client : Ptr) (target : Str) (channel : Channel) : Str :=
  lit ":server 324 " ++ s.nickname client ++ lit " " ++ target ++ lit " " ++ activeModes channel

/-- The modes of a channel, as changes of a channel without any. -/
def settings (channel : Channel) : List Change :=
  (if channel.inviteOnly then [.inviteOnly true] else [])
    ++ (if channel.topicRestricted then [.topicRestricted true] else [])
    ++ (if channel.password = [] then [] else [.setKey channel.password])
    ++ if channel.userLimit > 0 then [.setLimit channel.userLimit] else []

/-- The limit, as an argument. -/
def limitPieces (channel : Channel) : List Str :=
  if channel.userLimit > 0 then [decimal channel.userLimit] else []

/-- Two channels have the same modes. -/
structure SameModes (a b : Channel) : Prop where
  inviteOnly : a.inviteOnly = b.inviteOnly
  topicRestricted : a.topicRestricted = b.topicRestricted
  password : a.password = b.password
  userLimit : a.userLimit = b.userLimit

/-- With one sign for all changes, the letters are those of the changes. -/
theorem letters_of_isPlus {ds : List Change} (h : ∀ d ∈ ds, d.isPlus = true) :
    letters none ds = if ds = [] then [] else ch '+' :: ds.map Change.letter := by
  have hsame : ∀ ds : List Change, (∀ d ∈ ds, d.isPlus = true) →
      letters (some (ch '+')) ds = ds.map Change.letter := by
    intro ds hds
    induction ds with
    | nil => rfl
    | cons d ds ih =>
      rw [letters, hds d List.mem_cons_self]
      show [] ++ d.letter :: letters (some (ch '+')) ds = _
      rw [ih fun e he => hds e (List.mem_cons_of_mem d he)]
      rfl
  cases ds with
  | nil => rfl
  | cons d ds =>
    rw [letters, h d List.mem_cons_self]
    show [ch '+'] ++ d.letter :: letters (some (ch '+')) ds = ch '+' :: _
    rw [hsame ds fun e he => h e (List.mem_cons_of_mem d he)]
    rfl

section Settings

variable (channel : Channel)

theorem isPlus_of_mem_settings {d : Change} (hd : d ∈ settings channel) : d.isPlus = true := by
  unfold settings at hd
  simp only [List.mem_append, List.mem_ite_nil_right, List.mem_ite_nil_left,
    List.mem_singleton] at hd
  rcases hd with ((⟨_, rfl⟩ | ⟨_, rfl⟩) | ⟨_, rfl⟩) | ⟨_, rfl⟩ <;> rfl

theorem pieces_settings : (settings channel).filterMap Change.piece
    = (if channel.password = [] then [] else [channel.password]) ++ limitPieces channel := by
  unfold settings limitPieces
  split_ifs <;> rfl

theorem activeModes_eq : activeModes channel
    = letters none (settings channel) ++ spaced ((settings channel).filterMap Change.piece) := by
  have hkey : (!channel.password.isEmpty) = true ↔ ¬ channel.password = [] := by
    simp
  have hspaced : ∀ w, lit " " ++ w = spaced [w] := by
    intro w
    show sp :: w = sp :: w ++ []
    rw [List.append_nil]
  have hletters : (if channel.inviteOnly then lit "i" else [])
      ++ (if channel.topicRestricted then lit "t" else [])
      ++ (if channel.password = [] then [] else lit "k")
      ++ (if channel.userLimit > 0 then lit "l" else []) = (settings channel).map Change.letter := by
    unfold settings
    split_ifs <;> rfl
  have harguments : (if channel.password = [] then [] else spaced [channel.password])
      ++ (if channel.userLimit > 0 then spaced [decimal channel.userLimit] else [])
        = spaced ((settings channel).filterMap Change.piece) := by
    have happend : ∀ a b, spaced (a ++ b) = spaced a ++ spaced b := fun _ _ => List.flatMap_append
    rw [pieces_settings, limitPieces, happend]
    split_ifs <;> rfl
  rw [letters_of_isPlus fun d => isPlus_of_mem_settings channel]
  unfold activeModes
  simp only [hkey, ite_not, hspaced, hletters, harguments, List.map_eq_nil_iff]
  split_ifs <;> rfl

theorem clients_settings : (settings channel).filterMap Change.client = [] := by
  unfold settings
  split_ifs <;> rfl

theorem applyChanges_settings (name : Str) : applyChanges { name } (settings channel)
    = { name, inviteOnly := channel.inviteOnly, topicRestricted := channel.topicRestricted,
        password := channel.password, userLimit := channel.userLimit } := by
  have hlimit : ¬ channel.userLimit > 0 → channel.userLimit = 0 := fun h => by omega
  unfold settings
  split_ifs <;> simp [applyChanges, Change.apply, *]

theorem sameModes_settings (name : Str) :
    SameModes (applyChanges { name } (settings channel)) channel := by
  rw [applyChanges_settings]
  exact ⟨rfl, rfl, rfl, rfl⟩

end Settings

/-! ## Reading it -/

/-- What a 324 message tells its reader: whom it is for, the name of the channel and the modes, as
those of a channel that has no others. There are no letters if no mode is set. -/
def readModes (m : Message) : Option (Str × Str × Channel) :=
  match m.params with
  | nick :: name :: rest =>
    (readChanges none (rest.headD []) rest.tail []).map fun ds =>
      (nick, name, applyChanges { name } ds)
  | _ => none

/-- The answer to a query is read back. -/
structure Decodes (s : Server) (client : Ptr) (name : Str) (channel : Channel) : Prop where
  command : (Parser.parse (modesLine s client name channel)).command = lit "324"
  modes : ∃ view, readModes (Parser.parse (modesLine s client name channel))
      = some (s.nickname client, name, view)
    ∧ SameModes view channel

/-- A key that is read back from the middle of a line, if it is there at all. -/
structure ReadableKey (key : Str) : Prop where
  unspaced : Unspaced key
  head_ne : key.head? ≠ some colon

instance (key : Str) : Decidable (ReadableKey key) :=
  decidable_of_iff (Unspaced key ∧ key.head? ≠ some colon) ⟨fun h => ⟨h.1, h.2⟩, fun h => ⟨h.1, h.2⟩⟩

/-- A key that is read is one of the arguments. -/
theorem mem_of_readChange {on : Bool} {letter : Byte} {pieces ps : List Str} {clients qs : List Ptr}
    {d : Change} (h : readChange on letter pieces clients = some (d, ps, qs)) :
    ps <:+ pieces ∧ ∀ key, d = .setKey key → key ∈ pieces := by
  have hno : ∀ {e : Change}, (∀ key, e ≠ .setKey key) → ∀ key, e = .setKey key → key ∈ pieces :=
    fun hne key heq => absurd heq (hne key)
  unfold readChange at h
  split_ifs at h
  · cases h
    exact ⟨List.suffix_rfl, hno fun _ => Change.noConfusion⟩
  · cases h
    exact ⟨List.suffix_rfl, hno fun _ => Change.noConfusion⟩
  · split at h
    · cases h
    · cases h
      refine ⟨List.suffix_cons _ _, fun key hkey => ?_⟩
      cases hkey
      exact List.mem_cons_self
  · split at h
    · cases h
    · cases h
      exact ⟨List.suffix_cons _ _, hno fun _ => Change.noConfusion⟩
  · split at h
    · cases h
      exact ⟨List.suffix_rfl, hno fun _ => Change.noConfusion⟩
    · cases h
    · cases h
      exact ⟨List.suffix_cons _ _, hno fun _ => Change.noConfusion⟩
  · split at h
    · cases h
      exact ⟨List.suffix_cons _ _, hno fun _ => Change.noConfusion⟩
    · cases h

theorem mem_of_readChanges {on : Option Bool} {cs : Str} {pieces : List Str} {clients : List Ptr}
    {ds : List Change} (h : readChanges on cs pieces clients = some ds) {key : Str}
    (hkey : .setKey key ∈ ds) : key ∈ pieces := by
  induction cs generalizing on pieces clients ds with
  | nil =>
    rw [readChanges] at h
    split_ifs at h
    rw [← Option.some_inj.mp h] at hkey
    exact absurd hkey List.not_mem_nil
  | cons c cs ih =>
    rw [readChanges] at h
    split_ifs at h
    · exact ih h hkey
    · exact ih h hkey
    · obtain ⟨on', -, hfirst⟩ := Option.bind_eq_some_iff.mp h
      obtain ⟨⟨d, ps, qs⟩, hread, hothers⟩ := Option.bind_eq_some_iff.mp hfirst
      obtain ⟨rest, hrest, rfl⟩ := Option.map_eq_some_iff.mp hothers
      obtain ⟨hsuffix, hmem⟩ := mem_of_readChange hread
      rcases List.mem_cons.mp hkey with heq | hkey
      · exact hmem key heq.symm
      · exact hsuffix.subset (ih hrest hkey)

/-- The key of a channel after changes is one that they set, unless it had it before. -/
theorem password_applyChanges (channel : Channel) (ds : List Change) :
    (applyChanges channel ds).password = channel.password
    ∨ (applyChanges channel ds).password = []
    ∨ .setKey (applyChanges channel ds).password ∈ ds := by
  unfold applyChanges
  induction ds generalizing channel with
  | nil => exact Or.inl rfl
  | cons d ds ih =>
    rw [List.foldl_cons]
    rcases ih (d.apply channel) with hsame | hnone | hset
    · rw [hsame, Change.password_apply]
      cases d with
      | setKey key => exact Or.inr (Or.inr List.mem_cons_self)
      | clearKey => exact Or.inr (Or.inl rfl)
      | inviteOnly => exact Or.inl rfl
      | topicRestricted => exact Or.inl rfl
      | setLimit => exact Or.inl rfl
      | clearLimit => exact Or.inl rfl
      | operator => exact Or.inl rfl
    · exact Or.inr (Or.inl hnone)
    · exact Or.inr (Or.inr (List.mem_cons_of_mem d hset))

/-- A name that is read back is a word of the line, and the key is a word behind the letters. -/
theorem of_readModes {m : Message} {nick nick' name : Str} {more : List Str} {view : Channel}
    (hparams : m.params = nick :: (words name ++ more)) (hname : words name ≠ [])
    (h : readModes m = some (nick', name, view)) :
    Unspaced name ∧ (view.password ≠ [] → view.password ∈ more.tail) := by
  obtain ⟨w, ws, hws⟩ := List.exists_cons_of_ne_nil hname
  rw [hws] at hparams
  have hread : (readChanges none ((ws ++ more).headD []) (ws ++ more).tail []).map
      (fun ds => (nick, w, applyChanges { name := w } ds)) = some (nick', name, view) := by
    rw [readModes, hparams] at h
    exact h
  obtain ⟨ds, hds, heq⟩ := Option.map_eq_some_iff.mp hread
  obtain ⟨-, rfl, rfl⟩ : nick = nick' ∧ w = name ∧ applyChanges { name := w } ds = view := by
    simpa using heq
  have hunspaced : Unspaced w := by
    have hmem : w ∈ words w := hws ▸ List.mem_cons_self
    exact fun b hb => ((of_mem_words hmem).2 b hb).1
  have hnil : ws = [] := by
    rw [words_of_not_isSpace hunspaced fun hnil => hname (by rw [hnil]; rfl)] at hws
    exact (List.cons.inj hws).2.symm
  refine ⟨hunspaced, fun hne => ?_⟩
  rw [hnil] at hds
  rcases password_applyChanges { name := w } ds with hnone | hnone | hset
  · exact absurd hnone hne
  · exact absurd hnone hne
  · exact mem_of_readChanges hds hset

/-! ## What the parser makes of it -/

/-- Words of bytes that are neither whitespace nor colons are whole. -/
theorem whole_of_bytes {w : Str} (hne : w ≠ []) (h : ∀ b ∈ w, isSpace b = false ∧ b ≠ colon) :
    Whole w :=
  ⟨hne, fun b hb => (h b hb).1, fun hhead => (h colon (List.mem_of_mem_head? hhead)).2 rfl⟩

theorem whole_of_isValidNickname {n : Str} (h : NickCommand.isValidNickname n = true) : Whole n := by
  have hbytes : NickCommand.validRemainingCharacters.all
      (fun b => !isSpace b && b != colon) = true := by decide
  refine whole_of_bytes ?_ fun b hb => ?_
  · rintro rfl
    exact absurd h (by decide)
  · have hb := List.all_eq_true.mp hbytes b (mem_of_isValidNickname h b hb)
    simpa using hb

theorem whole_decimal (n : ℕ) : Whole (decimal n) := by
  refine whole_of_bytes ?_ fun b hb => ?_
  · intro hnil
    exact Nat.toDigits_ne_nil (List.map_eq_nil_iff.mp hnil)
  · have hdigit := digit_of_mem_decimal hb
    constructor
    · cases hspace : isSpace b with
      | false => rfl
      | true =>
        simp only [isSpace, Bool.or_eq_true, Bool.and_eq_true, beq_iff_eq, decide_eq_true_eq] at hspace
        rcases hspace with rfl | ⟨-, hle⟩
        · exact absurd hdigit (by decide)
        · have hle : b.toNat ≤ 13 := hle
          omega
    · rintro rfl
      exact absurd hdigit (by decide)

theorem bytes_letters {last : Option Byte} {ds : List Change} :
    ∀ b ∈ letters last ds, isSpace b = false ∧ b ≠ colon := by
  have hsign : ∀ on, isSpace (sign on) = false ∧ sign on ≠ colon := by decide
  have hletter : ∀ d : Change, isSpace d.letter = false ∧ d.letter ≠ colon := by
    intro d
    cases d <;> simp only [Change.letter] <;> decide
  induction ds generalizing last with
  | nil => exact fun b hb => absurd hb List.not_mem_nil
  | cons d ds ih =>
    intro b hb
    rw [letters] at hb
    rcases List.mem_append.mp hb with hb | hb
    · split_ifs at hb
      · exact absurd hb List.not_mem_nil
      · rw [List.mem_singleton.mp hb]
        exact hsign d.isPlus
    · rcases List.mem_cons.mp hb with rfl | hb
      · exact hletter d
      · exact ih b hb

theorem letters_ne_nil {ds : List Change} (h : ds ≠ []) : letters none ds ≠ [] := by
  cases ds with
  | nil => exact absurd rfl h
  | cons d ds =>
    rw [letters]
    exact List.append_ne_nil_of_right_ne_nil _ (List.cons_ne_nil _ _)

section Line

variable {s : Server} {c : Ptr} {name : Str} {channel : Channel} (hs : s.Tidy)
  (hch : s.findChannel name = some channel)
  (hvalid : JoinCommand.isValidChannelName name = true)
  (hnick : NickCommand.isValidNickname (s.nickname c) = true)

/-- The words in front of the arguments. -/
def headWords (s : Server) (client : Ptr) (name : Str) (channel : Channel) : List Str :=
  [lit "324", s.nickname client, name, letters none (settings channel)]

include hvalid hnick in
theorem middle_headWords : ∀ w ∈ headWords s c name channel, Middle w := by
  have hletters : Middle (letters none (settings channel)) := by
    refine ⟨fun hmem => ?_, fun hhead => ?_⟩
    · exact absurd (bytes_letters sp hmem).1 (by decide)
    · exact (bytes_letters colon (List.mem_of_mem_head? hhead)).2 rfl
  intro w hw
  rw [headWords] at hw
  rcases List.mem_cons.mp hw with rfl | hw
  · exact ⟨by decide, by decide⟩
  rcases List.mem_cons.mp hw with rfl | hw
  · exact (whole_of_isValidNickname hnick).middle
  rcases List.mem_cons.mp hw with rfl | hw
  · exact middle_of_isValidChannelName hvalid
  · rw [List.mem_singleton.mp hw]
    exact hletters

include hnick in
theorem words_headWords (more : List Str) :
    words (lit ":server") ++ (headWords s c name channel).flatMap words ++ more
      = lit ":server" :: lit "324" :: s.nickname c
        :: (words name ++ (words (letters none (settings channel)) ++ more)) := by
  have hfirst : words (lit ":server") = [lit ":server"] := by decide
  have hcommand : words (lit "324") = [lit "324"] := by decide
  rw [headWords, List.flatMap_cons, List.flatMap_cons, List.flatMap_cons, List.flatMap_cons,
    List.flatMap_nil, List.append_nil, hfirst, hcommand, (whole_of_isValidNickname hnick).words_eq]
  simp only [List.cons_append, List.nil_append, List.append_assoc]

theorem modesLine_eq : modesLine s c name channel
    = lit ":server" ++ spaced (headWords s c name channel ++ (settings channel).filterMap Change.piece) := by
  have hlit : lit ":server 324 " = lit ":server" ++ sp :: lit "324" ++ [sp] := by decide
  have hblank : lit " " = [sp] := by decide
  rw [modesLine, activeModes_eq, hlit, hblank, headWords]
  simp only [spaced_cons, List.cons_append, List.nil_append, List.append_assoc]

include hs hch in
theorem cr_not_mem_modesLine : cr ∉ modesLine s c name channel := by
  have htexts := hs.texts name channel hch
  have hclean : Clean (modesLine s c name channel) := by
    simp +decide [modesLine, (hs.nickname c).clean, htexts.name.clean, htexts.clean_activeModes]
  exact fun hmem => (hclean cr hmem).2.1 rfl

include hs hch hvalid hnick

/-- The line has no trailing part when the key does not start with a colon. -/
theorem parse_modesLine (hkey : Middle channel.password) :
    Parser.parse (modesLine s c name channel)
      = { origin := lit "server", command := lit "324",
          params := s.nickname c :: (words name ++ (words (letters none (settings channel))
            ++ ((settings channel).filterMap Change.piece).flatMap words)) } := by
  have hcr : cr ∉ modesLine s c name channel := cr_not_mem_modesLine hs hch
  have hpieces : ∀ w ∈ (settings channel).filterMap Change.piece, Middle w := by
    intro w hw
    rw [pieces_settings, limitPieces] at hw
    rcases List.mem_append.mp hw with hw | hw
    · split_ifs at hw
      · exact absurd hw List.not_mem_nil
      · rw [List.mem_singleton.mp hw]
        exact hkey
    · split_ifs at hw
      · rw [List.mem_singleton.mp hw]
        exact (whole_decimal _).middle
      · exact absurd hw List.not_mem_nil
  have hmiddle : ∀ w ∈ headWords s c name channel ++ (settings channel).filterMap Change.piece,
      Middle w := fun w hw =>
    (List.mem_append.mp hw).elim (middle_headWords hvalid hnick w) (hpieces w)
  rw [modesLine_eq] at hcr ⊢
  rw [Parser.parse_spaced (by decide) (by decide) hmiddle hcr, List.flatMap_append,
    ← List.append_assoc, words_headWords hnick, Parser.assemble, if_pos (by decide),
    List.append_nil]
  rfl

/-- Otherwise it has one: the key without the colon, and the limit behind it. -/
theorem parse_modesLine_colon {key : Str} (hkey : channel.password = colon :: key) :
    Parser.parse (modesLine s c name channel)
      = { origin := lit "server", command := lit "324",
          params := s.nickname c :: (words name ++ (words (letters none (settings channel))
            ++ [key ++ spaced (limitPieces channel)])) } := by
  have hcr : cr ∉ modesLine s c name channel := cr_not_mem_modesLine hs hch
  have hline : modesLine s c name channel = lit ":server" ++ spaced (headWords s c name channel)
      ++ lit " :" ++ (key ++ spaced (limitPieces channel)) := by
    have hlit : lit " :" = [sp, colon] := by decide
    have happend : ∀ a b, spaced (a ++ b) = spaced a ++ spaced b := fun _ _ => List.flatMap_append
    rw [modesLine_eq, pieces_settings, if_neg (by rw [hkey]; exact List.cons_ne_nil _ _), hkey,
      happend, happend, hlit]
    simp only [spaced_cons, spaced_nil, List.cons_append, List.nil_append, List.append_nil,
      List.append_assoc]
  rw [hline] at hcr ⊢
  rw [Parser.parse_spaced_trailing (by decide) (middle_headWords hvalid hnick) hcr, ← List.append_nil
    (words _ ++ _), words_headWords hnick, Parser.assemble, if_pos (by decide)]
  simp only [List.append_nil, List.headD_cons, List.tail_cons, List.cons_append, List.append_assoc]
  rfl

/-! ## What is read back -/

theorem decodes_of_readable (hname : Unspaced name) (hkey : ReadableKey channel.password) :
    Decodes s c name channel := by
  have hmiddle : Middle channel.password :=
    ⟨fun hmem => ne_sp_of_not_isSpace (hkey.unspaced sp hmem) rfl, hkey.head_ne⟩
  have hpieces : ((settings channel).filterMap Change.piece).flatMap words
      = (settings channel).filterMap Change.piece := by
    refine flatMap_words fun w hw => ?_
    rw [pieces_settings, limitPieces] at hw
    rcases List.mem_append.mp hw with hw | hw
    · split_ifs at hw with hnone
      · exact absurd hw List.not_mem_nil
      · rw [List.mem_singleton.mp hw]
        exact ⟨hnone, hkey.unspaced⟩
    · split_ifs at hw
      · rw [List.mem_singleton.mp hw]
        exact ⟨(whole_decimal _).ne_nil, (whole_decimal _).unspaced⟩
      · exact absurd hw List.not_mem_nil
  have hparse := parse_modesLine hs hch hvalid hnick hmiddle
  rw [hpieces, words_of_not_isSpace hname (ne_nil_of_isValidChannelName hvalid)] at hparse
  have hread : readChanges none (letters none (settings channel))
      ((settings channel).filterMap Change.piece) [] = some (settings channel) := by
    have hread := readChanges_letters none (settings channel)
    rwa [clients_settings] at hread
  refine ⟨by rw [hparse], applyChanges { name } (settings channel), ?_, sameModes_settings channel name⟩
  rw [hparse]
  by_cases hnone : settings channel = []
  · rw [hnone]
    rfl
  · have hletters : Whole (letters none (settings channel)) :=
      whole_of_bytes (letters_ne_nil hnone) bytes_letters
    rw [hletters.words_eq]
    show (readChanges none (letters none (settings channel))
      ((settings channel).filterMap Change.piece) []).map _ = _
    rw [hread]
    rfl

theorem readable_of_decodes (hsp : sp ∉ channel.password) (h : Decodes s c name channel) :
    Unspaced name ∧ ReadableKey channel.password := by
  obtain ⟨view, hread, hsame⟩ := h.modes
  have hname : words name ≠ [] := by
    obtain ⟨first, rest, rfl, hfirst, -⟩ := head_of_isValidChannelName hvalid
    rcases hfirst with rfl | rfl
    · exact words_ne_nil (by decide) rest
    · exact words_ne_nil (by decide) rest
  -- without a key only the name has to be read
  by_cases hnone : channel.password = []
  · have hmiddle : Middle channel.password := by
      rw [hnone]
      exact ⟨List.not_mem_nil, by decide⟩
    rw [parse_modesLine hs hch hvalid hnick hmiddle] at hread
    rw [hnone]
    exact ⟨(of_readModes rfl hname hread).1, fun _ hb => absurd hb List.not_mem_nil, by decide⟩
  have hview : view.password ≠ [] := by
    rw [hsame.password]
    exact hnone
  by_cases hhead : channel.password.head? = some colon
  · -- the key is not its own end, and it has no blank, as the limit in the trailing part does
    exfalso
    obtain ⟨key, hkey⟩ : ∃ key, channel.password = colon :: key := by
      cases hpassword : channel.password with
      | nil => exact absurd hpassword hnone
      | cons b key =>
        rw [hpassword] at hhead
        exact ⟨key, by rw [Option.some_inj.mp hhead]⟩
    rw [parse_modesLine_colon hs hch hvalid hnick hkey] at hread
    have hmem := (of_readModes rfl hname hread).2 hview
    have hset : settings channel ≠ [] := by
      intro hnil
      have hpieces := pieces_settings channel
      rw [hnil, if_neg hnone] at hpieces
      exact absurd hpieces (List.cons_ne_nil _ _).symm
    rw [(whole_of_bytes (letters_ne_nil hset) bytes_letters).words_eq] at hmem
    have heq : channel.password = key ++ spaced (limitPieces channel) :=
      hsame.password.symm.trans (List.mem_singleton.mp hmem)
    rw [limitPieces] at heq
    split_ifs at heq
    · rw [heq] at hsp
      exact hsp (List.mem_append_right key List.mem_cons_self)
    · rw [hkey, spaced_nil, List.append_nil] at heq
      exact List.cons_ne_self colon key heq
  -- the key is one of the words that were read, and a word has no white space
  · have hmiddle : Middle channel.password := ⟨hsp, hhead⟩
    rw [parse_modesLine hs hch hvalid hnick hmiddle] at hread
    obtain ⟨hunspaced, hmem⟩ := of_readModes rfl hname hread
    refine ⟨hunspaced, ?_, hhead⟩
    have hmem := List.mem_of_mem_tail (hmem hview)
    have hword : ∃ text, view.password ∈ words text := by
      rcases List.mem_append.mp hmem with hmem | hmem
      · exact ⟨_, hmem⟩
      · obtain ⟨text, -, hmem⟩ := List.mem_flatMap.mp hmem
        exact ⟨text, hmem⟩
    obtain ⟨text, hword⟩ := hword
    rw [hsame.password] at hword
    exact fun b hb => ((of_mem_words hword).2 b hb).1

end Line

end ModeCommand

/-! ## Over a run -/

/-- No key has a blank in it. -/
theorem Reachable.blankless_keys {s : Server} (h : Reachable s) : s.KeysAre fun _ key => sp ∉ key := by
  induction h with
  | start => exact fun _ ch h => absurd h (Option.some_ne_none ch).symm
  | move hreach hmove ih =>
    refine hmove.keysAre (P := fun _ key => sp ∉ key) (fun _ _ => List.not_mem_nil)
      (fun _ _ _ => List.not_mem_nil) ih fun c line t _ _ _ => ?_
    unfold Message.ArgumentsSetKeys
    split
    · intro channel hch _ _
      refine ModeCommand.SetsKeys.of_params ⟨channel, hch⟩ (fun key _ hgood hsp => ?_) _
      rw [ModeCommand.badKey, List.any_eq_false] at hgood
      exact hgood sp hsp (by decide)
    · trivial

/-- No JOIN gives a valid name with whitespace in it, and no MODE sets a key with whitespace in it or
a colon in front. -/
def readableModes : Guard where
  line s c m := readableNames.line s c m
    ∧ m.SetsKeys (fun _ key => ModeCommand.ReadableKey key) s c

instance (s : Server) (c : Ptr) (m : Message) : Decidable (readableModes.line s c m) :=
  inferInstanceAs (Decidable (_ ∧ _))

instance (s : Server) (p : Ptr) : Decidable (readableModes.disconnect s p) := .isTrue trivial

theorem GuardedReachable.readable {s : Server} (h : GuardedReachable readableModes s) :
    s.UnspacedNames ∧ s.KeysAre fun _ key => ModeCommand.ReadableKey key := by
  have hnone : ModeCommand.ReadableKey [] := by decide
  refine h.induct (P := fun s => s.UnspacedNames ∧ s.KeysAre fun _ key => ModeCommand.ReadableKey key)
    (fun _ _ => ⟨fun _ hname => ?_, fun _ ch h => ?_⟩) fun _ _ _ hmove hmet hs => ⟨?_, ?_⟩
  · exact absurd hname List.not_mem_nil
  · exact absurd h (Option.some_ne_none ch).symm
  · exact (hmove.unspacedNames_iff hs.1).mpr ⟨fun c line t h => (hmet.1 c line t h).1, fun _ _ _ _ => trivial⟩
  · exact hmove.keysAre (fun _ _ => hnone) (fun _ _ _ => hnone) hs.2 fun c line t h =>
      (hmet.1 c line t h).2

namespace ModeCommand

/-- As long as no JOIN gives a valid name with whitespace in it, and no MODE a key with whitespace in
it or a colon in front, the answer to a query of the modes can be read by every client that is
registered. In a reachable state it can be read exactly if name and key are so. -/
theorem modes_decode (s : Server) :
    (GuardedReachable readableModes s → ∀ c x name channel, s.heap c = some x →
      x.isRegistered = true → s.findChannel name = some channel → Decodes s c name channel)
    ∧ (Reachable s → ∀ c x name channel, s.heap c = some x → x.isRegistered = true →
      s.findChannel name = some channel →
        execute s c [name] = s.sendMessage c (modesLine s c name channel ++ lit "\r\n")
        ∧ (Decodes s c name channel ↔ Unspaced name ∧ ReadableKey channel.password)) := by
  have hiff : Reachable s → ∀ c x name channel, s.heap c = some x → x.isRegistered = true →
      s.findChannel name = some channel →
        (Decodes s c name channel ↔ Unspaced name ∧ ReadableKey channel.password) := by
    intro h c x name channel hx hreg hch
    have hvalid := (h.keyed name channel hch).1
    have hnick : NickCommand.isValidNickname (s.nickname c) = true := by
      rw [Server.nickname, Server.client_of_heap hx]
      exact h.isValidNickname hx hreg
    constructor
    · exact readable_of_decodes h.tidy hch hvalid hnick (h.blankless_keys name channel hch)
    · exact fun hreadable => decodes_of_readable h.tidy hch hvalid hnick hreadable.1 hreadable.2
  refine ⟨fun h c x name channel hx hreg hch => ?_, fun h c x name channel hx hreg hch => ?_⟩
  · obtain ⟨hnames, hkeys⟩ := h.readable
    refine (hiff h.reachable c x name channel hx hreg hch).mpr ⟨?_, hkeys name channel hch⟩
    exact hnames name (OrdMap.mem_keys.mpr ⟨channel, hch⟩)
  · refine ⟨?_, hiff h c x name channel hx hreg hch⟩
    exact execute_query (h.keyed name channel hch).1 hch

/-- The sample with a key and a limit on the channel. -/
def limitedEvents : List Event :=
  sampleEvents ++ [.read 4 (.data (lit "MODE #c +kl s3 5\r\n"))]

def limited : Server := (Server.start (lit "pw") 3).run limitedEvents

theorem modes_decode_sample :
    ∃ channel, limited.findChannel (lit "#c") = some channel
      ∧ (channel.password, channel.userLimit) = (lit "s3", 5)
      ∧ Decodes limited 1 (lit "#c") channel := by
  obtain ⟨hadm, hmeets, hchannel, hclient⟩ : (Server.start (lit "pw") 3).AdmitsAll limitedEvents
      ∧ readableModes.MeetsAll (Server.start (lit "pw") 3) limitedEvents
      ∧ (limited.findChannel (lit "#c")).map (fun channel => (channel.password, channel.userLimit))
        = some (lit "s3", 5)
      ∧ (limited.heap 1).map Client.isRegistered = some true := by
    decide +kernel
  obtain ⟨channel, hch, hmodes⟩ := Option.map_eq_some_iff.mp hchannel
  obtain ⟨x, hx, hreg⟩ := Option.map_eq_some_iff.mp hclient
  have hreachable : GuardedReachable readableModes limited := guardedReachable_run hadm hmeets
  exact ⟨channel, hch, hmodes, (modes_decode limited).1 hreachable 1 x _ channel hx hreg hch⟩

/-- A key with a colon in front, which MODE takes as the trailing part of its line. -/
def coloned : Server := sample.run [.read 4 (.data (lit "MODE #c +k ::abc\r\n"))]

/-- The answer says `:abc`, which its reader takes for the trailing part of the line and so for
the key `abc`. -/
theorem colon_key_misread :
    Reachable coloned ∧ (coloned.heap 1).map Client.isRegistered = some true
      ∧ ∃ channel, coloned.findChannel (lit "#c") = some channel ∧ channel.password = lit ":abc"
        ∧ modesLine coloned 1 (lit "#c") channel = lit ":server 324 bob #c +tk :abc"
        ∧ (Parser.parse (lit ":server 324 bob #c +tk :abc")).params
          = [lit "bob", lit "#c", lit "+tk", lit "abc"]
        ∧ ¬ Decodes coloned 1 (lit "#c") channel := by
  obtain ⟨hadm, hclient, hchannel, hparams⟩ :
      sample.AdmitsAll [.read 4 (.data (lit "MODE #c +k ::abc\r\n"))]
      ∧ (coloned.heap 1).map Client.isRegistered = some true
      ∧ (coloned.findChannel (lit "#c")).map (fun channel =>
          (channel.password, modesLine coloned 1 (lit "#c") channel))
        = some (lit ":abc", lit ":server 324 bob #c +tk :abc")
      ∧ (Parser.parse (lit ":server 324 bob #c +tk :abc")).params
        = [lit "bob", lit "#c", lit "+tk", lit "abc"] := by
    decide +kernel
  have hread : (readModes (Parser.parse (lit ":server 324 bob #c +tk :abc"))).map
      (fun view => view.2.2.password) = some (lit "abc") := by decide +kernel
  obtain ⟨channel, hch, hline⟩ := Option.map_eq_some_iff.mp hchannel
  obtain ⟨hpassword, hline⟩ := Prod.mk.inj hline
  refine ⟨reachable_sample.run hadm, hclient, channel, hch, hpassword, hline, hparams, fun h => ?_⟩
  obtain ⟨view, hview, hsame⟩ := h.modes
  rw [hline] at hview
  rw [hview, Option.map_some, hsame.password, hpassword] at hread
  exact absurd hread (by decide)

end ModeCommand

end FtIrc
