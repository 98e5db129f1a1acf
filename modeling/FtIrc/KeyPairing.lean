import FtIrc.Admission

/-!
# Names and keys of one JOIN

JOIN takes a list of names and a list of keys. A key matters only to a channel that exists, has a
key and would otherwise let the client in; there it does not matter at which of the positions of the
name the right key stands. Both lists are cut by the same routine, which drops empty pieces.
-/

namespace FtIrc

open Bytes

namespace JoinCommand

/-- The names with their keys, a missing key being empty. -/
def paired : List Str → List Str → List (Str × Str)
  | [], _ => []
  | name :: names, keys => (name, keys.headD []) :: paired names keys.tail

theorem paired_eq_zip {names keys : List Str} (hlen : names.length = keys.length) :
    paired names keys = names.zip keys := by
  induction names generalizing keys with
  | nil => rfl
  | cons name names ih =>
    cases keys with
    | nil => cases hlen
    | cons key keys =>
      rw [paired, List.tail_cons, ih (by simpa using hlen)]
      rfl

theorem map_fst_paired (names keys : List Str) : (paired names keys).map Prod.fst = names := by
  induction names generalizing keys with
  | nil => rfl
  | cons name names ih => rw [paired, List.map_cons, ih]

theorem joinLoop_eq_foldl (s : Server) (c : Ptr) (names keys : List Str) :
    joinLoop s c names keys = (paired names keys).foldl (fun s e => joinOne s c e.1 e.2) s := by
  induction names generalizing s keys with
  | nil => rfl
  | cons name names ih => exact ih ..

/-! ## One turn -/

/-- A channel lets a client in that is not on it, whatever key it offers. -/
structure OpenBut (ch : Channel) (c : Ptr) : Prop where
  outside : c ∉ ch.members
  invited : ch.inviteOnly = true → c ∈ ch.invitedClients
  room : ch.userLimit = 0 ∨ ch.members.length < ch.userLimit

instance (ch : Channel) (c : Ptr) : Decidable (OpenBut ch c) :=
  decidable_of_iff (c ∉ ch.members ∧ (ch.inviteOnly = true → c ∈ ch.invitedClients)
      ∧ (ch.userLimit = 0 ∨ ch.members.length < ch.userLimit))
    ⟨fun ⟨h₁, h₂, h₃⟩ => ⟨h₁, h₂, h₃⟩, fun ⟨h₁, h₂, h₃⟩ => ⟨h₁, h₂, h₃⟩⟩

/-- What a client with a key makes of a channel. -/
def letIn (c : Ptr) (key : Str) (ch : Channel) : Channel :=
  if OpenBut ch c ∧ (ch.password = [] ∨ ch.password = key) then (ch.addMember c).removeInvited c
  else ch

/-- What a turn makes of the channels. -/
theorem Outcome.findChannel {s t : Server} {c : Ptr} {name key : Str} (h : Outcome s c name key t)
    (hvalid : isValidChannelName name = true) (n : Str) :
    t.findChannel n
      = if n = name then some ((s.findChannel name).elim (Channel.founded name c) (letIn c key))
        else s.findChannel n := by
  split_ifs with hn
  · subst hn
    cases h with
    | already hch hmem =>
      rw [hch, Option.elim_some, letIn, if_neg fun hopen => hopen.1.outside hmem]
    | @refused r hr hnot =>
      have hsame : (s.sendMessage c (refusal s c n r)).findChannel n = s.findChannel n := rfl
      rw [hsame]
      cases hch : s.findChannel n with
      | none =>
        -- a valid name nobody has taken is never refused
        exact absurd ⟨hvalid, fun ch hch' => absurd (hch.symm.trans hch') (Option.some_ne_none ch).symm⟩ hnot
      | some ch =>
        rw [Option.elim_some, letIn, if_neg]
        rintro ⟨hopen, hkey⟩
        refine hnot ⟨hvalid, fun ch' hch' => ?_⟩
        rw [← Option.some_inj.mp (hch.symm.trans hch')]
        exact ⟨hkey, hopen.invited, hopen.room⟩
    | founded _ hnew =>
      rw [hnew, Option.elim_none, Server.findChannel, channels_announce]
      exact OrdMap.find?_insert_self ..
    | @entered ch _ hch hout hlets =>
      rw [hch, Option.elim_some, letIn, if_pos ⟨⟨hout, hlets.invited, hlets.room⟩, hlets.key⟩,
        Server.findChannel, channels_announce, ← Server.findChannel,
        Server.findChannel_modifyChannel hch, if_pos rfl]
  · cases h with
    | already => rfl
    | refused => rfl
    | founded _ hnew =>
      rw [Server.findChannel, channels_announce]
      exact OrdMap.find?_insert_ne _ _ hn
    | @entered ch _ hch _ _ =>
      rw [Server.findChannel, channels_announce, ← Server.findChannel,
        Server.findChannel_modifyChannel hch, if_neg hn]

/-! ## The loop -/

/-- What the pairs of a loop make of a channel that exists: the client is let in if one of them has
the key, wherever it stands. -/
def letInBy (c : Ptr) (pairs : List (Str × Str)) (name : Str) (ch : Channel) : Channel :=
  if OpenBut ch c ∧ ∃ e ∈ pairs, e.1 = name ∧ (ch.password = [] ∨ ch.password = e.2)
    then (ch.addMember c).removeInvited c else ch

theorem letInBy_of_mem {c : Ptr} (pairs : List (Str × Str)) (name : Str) {ch : Channel}
    (hin : c ∈ ch.members) : letInBy c pairs name ch = ch := if_neg fun h => h.1.outside hin

theorem OpenBut.mem_entered {ch : Channel} {c : Ptr} (h : OpenBut ch c) :
    c ∈ ((ch.addMember c).removeInvited c).members := by
  rw [Channel.addMember_of_not_mem _ h.outside]
  exact List.mem_append_right _ (List.mem_singleton_self c)

theorem letInBy_cons (c : Ptr) (e : Str × Str) (pairs : List (Str × Str)) (ch : Channel) :
    letInBy c (e :: pairs) e.1 ch = letInBy c pairs e.1 (letIn c e.2 ch) := by
  by_cases hfirst : OpenBut ch c ∧ (ch.password = [] ∨ ch.password = e.2)
  · -- the client is in, so what the other pairs offer does not matter any more
    rw [letIn, if_pos hfirst, letInBy_of_mem pairs e.1 hfirst.1.mem_entered, letInBy,
      if_pos ⟨hfirst.1, e, List.mem_cons_self, rfl, hfirst.2⟩]
  · rw [letIn, if_neg hfirst, letInBy, letInBy]
    refine if_congr (and_congr_right fun hopen => ?_) rfl rfl
    constructor
    · rintro ⟨f, hf, hname, hkey⟩
      rcases List.mem_cons.mp hf with rfl | hf
      · exact absurd ⟨hopen, hkey⟩ hfirst
      · exact ⟨f, hf, hname, hkey⟩
    · rintro ⟨f, hf, hname, hkey⟩
      exact ⟨f, List.mem_cons_of_mem e hf, hname, hkey⟩

theorem letInBy_cons_ne (c : Ptr) {e : Str × Str} (pairs : List (Str × Str)) {name : Str}
    (hne : name ≠ e.1) (ch : Channel) : letInBy c (e :: pairs) name ch = letInBy c pairs name ch := by
  refine if_congr (and_congr_right fun _ => ?_) rfl rfl
  constructor
  · rintro ⟨f, hf, hname, hkey⟩
    rcases List.mem_cons.mp hf with rfl | hf
    · exact absurd hname.symm hne
    · exact ⟨f, hf, hname, hkey⟩
  · rintro ⟨f, hf, hname, hkey⟩
    exact ⟨f, List.mem_cons_of_mem e hf, hname, hkey⟩

/-- What a loop makes of the channels: those it names are founded if they are new, and the others
let the client in if it has the key at one of their positions. -/
theorem findChannel_loop (s : Server) (c : Ptr) {pairs : List (Str × Str)}
    (hvalid : ∀ e ∈ pairs, isValidChannelName e.1 = true) (n : Str) :
    (pairs.foldl (fun s e => joinOne s c e.1 e.2) s).findChannel n
      = (s.findChannel n).elim (if n ∈ pairs.map Prod.fst then some (Channel.founded n c) else none)
        (fun ch => some (letInBy c pairs n ch)) := by
  induction pairs generalizing s with
  | nil =>
    cases hch : s.findChannel n with
    | none => exact hch
    | some ch =>
      rw [Option.elim_some, letInBy, if_neg fun h => ?_]
      · exact hch
      · obtain ⟨-, e, he, -⟩ := h
        exact absurd he List.not_mem_nil
  | cons e pairs ih =>
    have hturn := (joinOne_outcome s c e.1 e.2).findChannel (hvalid e List.mem_cons_self) n
    rw [List.foldl_cons, ih _ fun f hf => hvalid f (List.mem_cons_of_mem e hf), hturn]
    by_cases hn : n = e.1
    · subst hn
      rw [if_pos rfl, Option.elim_some]
      cases s.findChannel e.1 with
      | none =>
        -- the channel is founded here; later turns with this name find the founder on it
        have hfounder : c ∈ (Channel.founded e.1 c).members := List.mem_singleton_self c
        rw [Option.elim_none, Option.elim_none, if_pos (by simp), letInBy_of_mem _ _ hfounder]
      | some ch => rw [Option.elim_some, Option.elim_some, letInBy_cons]
    · rw [if_neg hn]
      cases s.findChannel n with
      | none =>
        rw [Option.elim_none, Option.elim_none]
        exact if_congr (by simp [hn]) rfl rfl
      | some ch => rw [Option.elim_some, Option.elim_some, letInBy_cons_ne c pairs hn]

/-! ## Lists of keys -/

/-- `JOIN name key`, or `JOIN name` if there is no key. -/
def joinSingly (s : Server) (client : Ptr) (name key : Str) : Server :=
  execute s client (if key = [] then [name] else [name, key])

/-- One JOIN for each name, from left to right. -/
def joinEach (s : Server) (client : Ptr) (pairs : List (Str × Str)) : Server :=
  pairs.foldl (fun s e => joinSingly s client e.1 e.2) s

theorem joinSingly_eq (s : Server) (c : Ptr) {name key : Str}
    (hvalid : isValidChannelName name = true) (hkey : comma ∉ key) :
    joinSingly s c name key = joinOne s c name key := by
  unfold joinSingly
  by_cases hnil : key = []
  · rw [if_pos hnil, hnil]
    unfold execute
    dsimp only
    rw [if_neg (ne_zero_of_isValidChannelName hvalid), splitString_of_isValidChannelName hvalid]
    rfl
  · rw [if_neg hnil, execute_single hvalid s c hnil hkey]

theorem joinEach_eq (s : Server) (c : Ptr) {pairs : List (Str × Str)}
    (hvalid : ∀ e ∈ pairs, isValidChannelName e.1 = true ∧ comma ∉ e.2) :
    joinEach s c pairs = pairs.foldl (fun s e => joinOne s c e.1 e.2) s := by
  unfold joinEach
  induction pairs generalizing s with
  | nil => rfl
  | cons e pairs ih =>
    obtain ⟨hname, hkey⟩ := hvalid e List.mem_cons_self
    rw [List.foldl_cons, List.foldl_cons, joinSingly_eq s c hname hkey]
    exact ih _ fun f hf => hvalid f (List.mem_cons_of_mem e hf)

/-- JOIN with a list of names and a list of keys hands out the keys that are not empty. -/
theorem execute_lists (s : Server) (c : Ptr) {names keys : List Str}
    (hvalid : ∀ n ∈ names, isValidChannelName n = true) (hkeys : ∀ k ∈ keys, comma ∉ k) :
    execute s c [List.intercalate [comma] names, List.intercalate [comma] keys]
      = (paired names (keys.filter fun k => !k.isEmpty)).foldl (fun s e => joinOne s c e.1 e.2) s := by
  have hcomma : ∀ n ∈ names, comma ∉ n := by
    intro n hn
    obtain ⟨_, _, -, -, hcomma⟩ := head_of_isValidChannelName (hvalid n hn)
    exact hcomma
  have hnames : splitString (List.intercalate [comma] names) comma = names := by
    rw [splitString, fields_intercalate hcomma, List.filter_eq_self.mpr]
    intro n hn
    simpa using ne_nil_of_isValidChannelName (hvalid n hn)
  have hzero : List.intercalate [comma] names ≠ lit "0" := by
    intro heq
    have hcut : splitString (lit "0") comma = names := by rw [← heq, hnames]
    have hmem : lit "0" ∈ names := by
      rw [← hcut]
      decide
    exact absurd (hvalid _ hmem) (by decide)
  unfold execute
  dsimp only
  rw [if_neg hzero, hnames, splitString, fields_intercalate hkeys, joinLoop_eq_foldl]

/-- Into a channel with a key only its key leads. -/
theorem offers_iff_of_locked {ch : Channel} (hkey : ch.password ≠ []) (name : Str)
    (pairs : List (Str × Str)) :
    (∃ e ∈ pairs, e.1 = name ∧ (ch.password = [] ∨ ch.password = e.2))
      ↔ (name, ch.password) ∈ pairs := by
  constructor
  · rintro ⟨e, he, hname, hoffered⟩
    have heq : (name, ch.password) = e := Prod.ext hname.symm (hoffered.resolve_left hkey)
    rwa [heq]
  · exact fun he => ⟨_, he, rfl, Or.inr rfl⟩

/-- Into a channel without a key its name leads. -/
theorem offers_iff_of_free {ch : Channel} (hkey : ch.password = []) (name : Str)
    (pairs : List (Str × Str)) :
    (∃ e ∈ pairs, e.1 = name ∧ (ch.password = [] ∨ ch.password = e.2))
      ↔ name ∈ pairs.map Prod.fst := by
  constructor
  · rintro ⟨e, he, hname, -⟩
    exact List.mem_map.mpr ⟨e, he, hname⟩
  · intro hname
    obtain ⟨e, he, hname⟩ := List.mem_map.mp hname
    exact ⟨e, he, hname, Or.inl hkey⟩

/-- Two loops over the same names treat a channel in the same way exactly if, where a key decides,
either both have it or neither. -/
theorem letInBy_eq_iff {c : Ptr} {pairs pairs' : List (Str × Str)}
    (hsame : pairs.map Prod.fst = pairs'.map Prod.fst) (name : Str) (ch : Channel) :
    letInBy c pairs name ch = letInBy c pairs' name ch
      ↔ (ch.password ≠ [] → OpenBut ch c →
          ((name, ch.password) ∈ pairs ↔ (name, ch.password) ∈ pairs')) := by
  unfold letInBy
  by_cases hopen : OpenBut ch c
  swap
  · rw [if_neg fun h => hopen h.1, if_neg fun h => hopen h.1]
    exact iff_of_true rfl fun _ h => absurd h hopen
  -- who is let in was not there before, so the two outcomes of a loop differ
  have hentered : (ch.addMember c).removeInvited c ≠ ch :=
    fun heq => hopen.outside (heq ▸ hopen.mem_entered)
  by_cases hkey : ch.password = []
  · have hboth : (∃ e ∈ pairs, e.1 = name ∧ (ch.password = [] ∨ ch.password = e.2))
        ↔ ∃ e ∈ pairs', e.1 = name ∧ (ch.password = [] ∨ ch.password = e.2) := by
      rw [offers_iff_of_free hkey, offers_iff_of_free hkey, hsame]
    exact iff_of_true (if_congr (and_congr_right fun _ => hboth) rfl rfl) fun hne => absurd hkey hne
  · rw [← offers_iff_of_locked hkey name pairs, ← offers_iff_of_locked hkey name pairs']
    constructor
    · intro heq _ _
      split_ifs at heq with hleft hright hright
      · exact iff_of_true hleft.2 hright.2
      · exact absurd heq hentered
      · exact absurd heq.symm hentered
      · exact iff_of_false (fun h => hleft ⟨hopen, h⟩) fun h => hright ⟨hopen, h⟩
    · intro hiff
      exact if_congr (and_congr_right fun _ => hiff hkey hopen) rfl rfl

/-- Two loops over the same names end with the same channels exactly if they treat every channel in
the same way. -/
theorem channels_loop_eq_iff (s : Server) (c : Ptr) {pairs pairs' : List (Str × Str)}
    (hsame : pairs.map Prod.fst = pairs'.map Prod.fst)
    (hvalid : ∀ e ∈ pairs, isValidChannelName e.1 = true)
    (hvalid' : ∀ e ∈ pairs', isValidChannelName e.1 = true) :
    (pairs.foldl (fun s e => joinOne s c e.1 e.2) s).channels
      = (pairs'.foldl (fun s e => joinOne s c e.1 e.2) s).channels
    ↔ ∀ name ch, s.findChannel name = some ch →
        letInBy c pairs name ch = letInBy c pairs' name ch := by
  have hfind := findChannel_loop s c hvalid
  have hfind' := findChannel_loop s c hvalid'
  constructor
  · intro heq name ch hch
    have hboth : (pairs.foldl (fun s e => joinOne s c e.1 e.2) s).findChannel name
        = (pairs'.foldl (fun s e => joinOne s c e.1 e.2) s).findChannel name := by
      rw [Server.findChannel, Server.findChannel, heq]
    rw [hfind, hfind', hch, Option.elim_some, Option.elim_some] at hboth
    exact Option.some_inj.mp hboth
  · intro htreated
    refine OrdMap.ext_find? fun n => (hfind n).trans (Eq.trans ?_ (hfind' n).symm)
    cases hch : s.findChannel n with
    | none => rw [Option.elim_none, Option.elim_none, hsame]
    | some ch => rw [Option.elim_some, Option.elim_some, htreated n ch hch]

end JoinCommand

/-- JOIN with a list of names and a list of keys does to the channels what one JOIN for each name
does exactly if each channel that has a key, and would otherwise let the client in, is offered it in
both ways or in neither. The list of keys has lost its empty fields. -/
theorem keys_paired_by_position (s : Server) (c : Ptr) {names keys : List Str}
    (hvalid : ∀ n ∈ names, JoinCommand.isValidChannelName n = true) (hkeys : ∀ k ∈ keys, comma ∉ k)
    (hlen : names.length = keys.length) :
    (JoinCommand.execute s c
        [List.intercalate [comma] names, List.intercalate [comma] keys]).channels
      = (JoinCommand.joinEach s c (names.zip keys)).channels
    ↔ ∀ name ch, s.findChannel name = some ch → ch.password ≠ [] → JoinCommand.OpenBut ch c →
        ((name, ch.password) ∈ JoinCommand.paired names (keys.filter fun k => !k.isEmpty)
          ↔ (name, ch.password) ∈ names.zip keys) := by
  have heach : JoinCommand.joinEach s c (names.zip keys)
      = (names.zip keys).foldl (fun s e => JoinCommand.joinOne s c e.1 e.2) s := by
    refine JoinCommand.joinEach_eq s c fun e he => ?_
    obtain ⟨hname, hkey⟩ := List.of_mem_zip he
    exact ⟨hvalid _ hname, hkeys _ hkey⟩
  have hvalidPairs : ∀ keys, ∀ e ∈ JoinCommand.paired names keys,
      JoinCommand.isValidChannelName e.1 = true := by
    intro keys e he
    exact hvalid _ (JoinCommand.map_fst_paired names keys ▸ List.mem_map_of_mem he)
  have hsame : (JoinCommand.paired names (keys.filter fun k => !k.isEmpty)).map Prod.fst
      = (JoinCommand.paired names keys).map Prod.fst := by
    rw [JoinCommand.map_fst_paired, JoinCommand.map_fst_paired]
  rw [JoinCommand.execute_lists s c hvalid hkeys, heach, ← JoinCommand.paired_eq_zip hlen,
    JoinCommand.channels_loop_eq_iff s c hsame (hvalidPairs _) (hvalidPairs _)]
  exact forall_congr' fun name => forall_congr' fun ch => forall_congr' fun _ =>
    JoinCommand.letInBy_eq_iff hsame name ch

/-- The key of `#c` stands in front. -/
theorem keys_paired_by_position_sample :
    (JoinCommand.execute locked 2
        [List.intercalate [comma] [lit "#c", lit "#d"], List.intercalate [comma] [lit "k:1", []]]).channels
      = (JoinCommand.joinEach locked 2 ([lit "#c", lit "#d"].zip [lit "k:1", []])).channels := by
  have hpairs : JoinCommand.paired [lit "#c", lit "#d"] ([lit "k:1", []].filter fun k => !k.isEmpty)
      = [lit "#c", lit "#d"].zip [lit "k:1", []] := by decide
  have hiff := keys_paired_by_position locked 2
    (show ∀ n ∈ [lit "#c", lit "#d"], JoinCommand.isValidChannelName n = true by decide)
    (show ∀ k ∈ [lit "k:1", []], comma ∉ k by decide) rfl
  refine hiff.mpr fun name ch _ _ _ => ?_
  rw [hpairs]

/-- The key of `#c` stands behind an empty field, and is offered to `#d`. -/
theorem shifted_key :
    (∀ n ∈ [lit "#d", lit "#c"], JoinCommand.isValidChannelName n = true)
      ∧ (∀ k ∈ [[], lit "k:1"], comma ∉ k)
      ∧ JoinCommand.execute locked 2 [lit "#d,#c", lit ",k:1"]
        = JoinCommand.execute locked 2
          [List.intercalate [comma] [lit "#d", lit "#c"], List.intercalate [comma] [[], lit "k:1"]]
      ∧ (JoinCommand.joinEach locked 2 ([lit "#d", lit "#c"].zip [[], lit "k:1"])).IsMember 2 (lit "#c")
      ∧ ¬ (JoinCommand.execute locked 2 [lit "#d,#c", lit ",k:1"]).IsMember 2 (lit "#c")
      ∧ (JoinCommand.execute locked 2
          [List.intercalate [comma] [lit "#d", lit "#c"], List.intercalate [comma] [[], lit "k:1"]]).channels
        ≠ (JoinCommand.joinEach locked 2 ([lit "#d", lit "#c"].zip [[], lit "k:1"])).channels := by
  have hlists : [List.intercalate [comma] [lit "#d", lit "#c"], List.intercalate [comma] [[], lit "k:1"]]
      = [lit "#d,#c", lit ",k:1"] := by decide
  obtain ⟨hin, hout⟩ :
      (JoinCommand.joinEach locked 2 ([lit "#d", lit "#c"].zip [[], lit "k:1"])).IsMember 2 (lit "#c")
      ∧ ¬ (JoinCommand.execute locked 2 [lit "#d,#c", lit ",k:1"]).IsMember 2 (lit "#c") := by
    decide +kernel
  refine ⟨by decide, by decide, by rw [hlists], hin, hout, fun heq => hout ?_⟩
  obtain ⟨ch, hch, hmem⟩ := hin
  rw [Server.findChannel, ← heq, hlists] at hch
  exact ⟨ch, hch, hmem⟩

end FtIrc
