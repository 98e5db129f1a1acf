import FtIrc.OutputStream

/-!
# Framing

`framed` is what the line protocol makes of a stream: its records up to the first one that
is too long or has a control byte. The receive buffer, its three limits and the extraction
loop compute the same, however the stream arrives: in every run of the server the lines a
client has had handled are those of the bytes it has got in, up to the first line that
stopped it.
-/

namespace FtIrc

open Bytes Relation

/-! ## The reference -/

/-- A record that is handed on: at most 512 bytes with its line feed, and no NUL and no CR but
one in front of the line feed. -/
def isGoodRecord (record : Str) : Bool :=
  decide (record.length ≤ maxIrcMessageSize)
    && (dropFinalCr record.dropLast).all fun b => b != nul && b != cr

/-- The lines of a stream: the contents of its records, up to the first bad one. -/
def framed (stream : Str) : List Str :=
  ((records lf stream).takeWhile isGoodRecord).map fun record => dropFinalCr record.dropLast

theorem framed_of_not_mem {s : Str} (h : lf ∉ s) : framed s = [] := by
  rw [framed, records_of_not_mem h]
  rfl

theorem framed_good {l : Str} (hl : lf ∉ l) (hgood : isGoodRecord (l ++ [lf]) = true) (t : Str) :
    framed (l ++ lf :: t) = dropFinalCr l :: framed t := by
  rw [framed, records_append_cons hl, List.takeWhile_cons_of_pos hgood, List.map_cons,
    List.dropLast_concat]
  rfl

theorem framed_bad {l : Str} (hl : lf ∉ l) (hbad : ¬ isGoodRecord (l ++ [lf]) = true) (t : Str) :
    framed (l ++ lf :: t) = [] := by
  rw [framed, records_append_cons hl, List.takeWhile_cons_of_neg hbad, List.map_nil]

/-- A first record that is too long already has no lines, whatever follows. -/
theorem framed_overlong {s : Str} (hs : lf ∉ s) (hlong : maxIrcMessageSize ≤ s.length) (more : Str) :
    framed (s ++ more) = [] := by
  by_cases hmore : lf ∈ more
  · obtain ⟨l, t, rfl, hl⟩ := List.eq_append_cons_of_mem hmore
    rw [← List.append_assoc]
    refine framed_bad (fun h => (List.mem_append.mp h).elim hs hl) (fun hgood => ?_) t
    simp only [isGoodRecord, Bool.and_eq_true, decide_eq_true_eq, List.length_append,
      List.length_singleton] at hgood
    omega
  · exact framed_of_not_mem fun h => (List.mem_append.mp h).elim hs hmore

namespace Client

/-! ## Extraction -/

theorem extractLine_of_not_mem {x : Client} (h : lf ∉ x.recvBuffer) : x.extractLine = (x, none) := by
  rw [extractLine, cut_singleton_eq_none.mpr h]

/-- The record at the front of the buffer is what `extractLine` looks at. -/
theorem cut_recvBuffer {x : Client} {l t : Str} (hbuffer : x.recvBuffer = l ++ lf :: t)
    (hl : lf ∉ l) : cut [lf] x.recvBuffer = some (l, t) :=
  cut_singleton_eq_some.mpr ⟨hbuffer, hl⟩

theorem extractLine_good {x : Client} {l t : Str} (hbuffer : x.recvBuffer = l ++ lf :: t)
    (hl : lf ∉ l) (hgood : isGoodRecord (l ++ [lf]) = true) :
    x.extractLine = ({ x with recvBuffer := t }, some (dropFinalCr l)) := by
  simp only [isGoodRecord, List.dropLast_concat, Bool.and_eq_true, decide_eq_true_eq,
    List.length_append, List.length_singleton] at hgood
  have hclean : ¬ ((dropFinalCr l).any fun b => b == nul || b == cr) = true := by
    simp only [List.any_eq_true, List.all_eq_true, not_exists, not_and] at hgood ⊢
    intro b hb hcontrol
    have hb' := hgood.2 b hb
    simp only [Bool.or_eq_true, beq_iff_eq, Bool.and_eq_true, bne_iff_ne, ne_eq] at hb' hcontrol
    exact hcontrol.elim hb'.1 hb'.2
  rw [extractLine, cut_recvBuffer hbuffer hl]
  dsimp only
  rw [if_neg (by omega), if_neg hclean]

theorem extractLine_bad {x : Client} {l t : Str} (hbuffer : x.recvBuffer = l ++ lf :: t)
    (hl : lf ∉ l) (hbad : ¬ isGoodRecord (l ++ [lf]) = true) :
    ∃ reason, x.extractLine = ({ x with recvBuffer := t }.markDead reason, none) := by
  rw [extractLine, cut_recvBuffer hbuffer hl]
  dsimp only
  split_ifs with hlong hcontrol
  · exact ⟨_, rfl⟩
  · exact ⟨_, rfl⟩
  · refine absurd ?_ hbad
    simp only [isGoodRecord, List.dropLast_concat, Bool.and_eq_true, decide_eq_true_eq,
      List.length_append, List.length_singleton]
    refine ⟨by omega, ?_⟩
    simp only [List.any_eq_true, List.all_eq_true, not_exists, not_and] at hcontrol ⊢
    intro b hb
    simpa using hcontrol b hb

/-! ## What framing depends on -/

/-- The input of a client: what it has not used yet, what it has got, and its lines. -/
def input (x : Client) : Str × Str × List (Str × Bool) :=
  (x.recvBuffer, x.trace.received, x.trace.dispatched)

theorem input_markDead (x : Client) (reason : Str) : (x.markDead reason).input = x.input := by
  unfold markDead
  split_ifs <;> rfl

theorem input_markClosing (x : Client) (reason : Str) : (x.markClosing reason).input = x.input := by
  unfold markClosing
  split_ifs <;> rfl

theorem input_sendMessage (x : Client) (message : Str) : (x.sendMessage message).input = x.input := by
  unfold sendMessage
  dsimp only
  split_ifs
  · rfl
  · rfl
  · rw [input_markDead]
    rfl
  · rfl

theorem input_consumeSendBuffer (x : Client) (n : ℕ) : (x.consumeSendBuffer n).input = x.input := by
  unfold consumeSendBuffer
  split_ifs
  · exact input_markDead ..
  · rfl

theorem input_socketError (x : Client) (reason : Str) : (x.socketError reason).input = x.input := by
  rw [socketError, input_markDead]
  rfl

theorem input_write (x : Client) (result : SendResult) : (x.write result).input = x.input := by
  unfold write
  split_ifs
  · rfl
  · rfl
  cases result with
  | retry => rfl
  | error text => exact input_socketError ..
  | sent n =>
    dsimp only
    split_ifs
    · exact input_socketError ..
    · exact input_consumeSendBuffer ..

theorem stopped_markDead (x : Client) (reason : Str) : (x.markDead reason).stopped = true := by
  unfold markDead
  by_cases hdead : x.dead = true
  · rw [if_pos hdead, stopped, hdead]
    rfl
  · rw [if_neg hdead]
    rfl

/-- Nothing restarts a client. -/
theorem stopped_markClosing {x : Client} (h : x.stopped = true) (reason : Str) :
    (x.markClosing reason).stopped = true := by
  rw [markClosing, if_pos (show (x.dead || x.closing) = true from h)]
  exact h

theorem stopped_write {x : Client} (h : x.stopped = true) (result : SendResult) :
    (x.write result).stopped = true := by
  have herror : ∀ reason, (x.socketError reason).stopped = true := fun _ => stopped_markDead ..
  unfold write
  split_ifs
  · exact h
  · exact h
  cases result with
  | retry => exact h
  | error text => exact herror _
  | sent n =>
    dsimp only
    split_ifs
    · exact herror _
    · unfold consumeSendBuffer
      split_ifs
      · exact stopped_markDead ..
      · exact h

/-- A change that is none of the input's. -/
structure SameInput (x y : Client) : Prop where
  input : y.input = x.input
  stopped : x.stopped = true → y.stopped = true

theorem SameInput.refl (x : Client) : x.SameInput x := ⟨rfl, id⟩

theorem SameInput.trans {x y z : Client} (hxy : x.SameInput y) (hyz : y.SameInput z) :
    x.SameInput z := ⟨hyz.input.trans hxy.input, fun h => hyz.stopped (hxy.stopped h)⟩

theorem sameInput_markDead (x : Client) (reason : Str) : x.SameInput (x.markDead reason) :=
  ⟨input_markDead .., fun _ => stopped_markDead ..⟩

theorem sameInput_markClosing (x : Client) (reason : Str) : x.SameInput (x.markClosing reason) :=
  ⟨input_markClosing .., fun h => stopped_markClosing h _⟩

theorem sameInput_sendMessage (x : Client) (message : Str) : x.SameInput (x.sendMessage message) :=
  ⟨input_sendMessage .., fun h => ((Frozen.refl h).sendMessage message).stopped⟩

theorem sameInput_socketError (x : Client) (reason : Str) : x.SameInput (x.socketError reason) :=
  ⟨input_socketError .., fun _ => stopped_markDead ..⟩

theorem sameInput_write (x : Client) (result : SendResult) : x.SameInput (x.write result) :=
  ⟨input_write .., fun h => stopped_write h _⟩

/-! ## The invariant -/

/-- How far a client that goes on has come: the lines it has had handled are the first ones of
its stream, the rest of which starts with the bytes it has not used yet. -/
structure OnTrack (x : Client) : Prop where
  going : ∀ e ∈ x.trace.dispatched, e.2 = false
  framed_eq : ∀ more, framed (x.trace.received ++ more) = x.lines ++ framed (x.recvBuffer ++ more)

/-- Between two reads the buffer holds an incomplete record, less than a chunk long. -/
structure Settled (x : Client) : Prop where
  incomplete : lf ∉ x.recvBuffer
  length_lt : x.recvBuffer.length < recvChunkSize

/-- The lines handled are those of the stream, up to the first that stopped the client. -/
def Conforms (x : Client) : Prop :=
  ((∀ e ∈ x.trace.dispatched, e.2 = false) ∧ x.lines = framed x.trace.received)
    ∨ ∃ handled last, x.trace.dispatched = handled ++ [(last, true)]
      ∧ (∀ e ∈ handled, e.2 = false) ∧ x.lines <+: framed x.trace.received

/-- What holds of a client between two events. -/
structure Framed (x : Client) : Prop where
  conforms : x.Conforms
  onTrack : x.stopped = false → x.OnTrack
  settled : x.stopped = false → x.Settled

section

variable {x y : Client}

theorem received_of_input (h : y.input = x.input) : y.trace.received = x.trace.received :=
  congrArg (fun i => i.2.1) h

theorem dispatched_of_input (h : y.input = x.input) : y.trace.dispatched = x.trace.dispatched :=
  congrArg (fun i => i.2.2) h

theorem recvBuffer_of_input (h : y.input = x.input) : y.recvBuffer = x.recvBuffer :=
  congrArg Prod.fst h

theorem OnTrack.of_input (hx : x.OnTrack) (h : y.input = x.input) : y.OnTrack := by
  refine ⟨?_, ?_⟩
  · rw [dispatched_of_input h]
    exact hx.going
  · rw [received_of_input h, recvBuffer_of_input h, lines, dispatched_of_input h]
    exact hx.framed_eq

theorem Framed.of_sameInput (hx : x.Framed) (h : x.SameInput y) : y.Framed := by
  have hlive : y.stopped = false → x.stopped = false := by
    intro hy
    by_contra hx
    rw [h.stopped (by simpa using hx)] at hy
    cases hy
  refine ⟨?_, fun hy => (hx.onTrack (hlive hy)).of_input h.input, fun hy => ?_⟩
  · rw [Conforms, dispatched_of_input h.input, received_of_input h.input, lines,
      dispatched_of_input h.input]
    exact hx.conforms
  · have hsettled := hx.settled (hlive hy)
    exact ⟨recvBuffer_of_input h.input ▸ hsettled.incomplete,
      recvBuffer_of_input h.input ▸ hsettled.length_lt⟩

/-- A client on track with no line left in its buffer conforms. -/
theorem OnTrack.conforms (hx : x.OnTrack) (hrest : framed x.recvBuffer = []) : x.Conforms := by
  refine Or.inl ⟨hx.going, ?_⟩
  have heq := hx.framed_eq []
  rw [List.append_nil, List.append_nil, hrest, List.append_nil] at heq
  exact heq.symm

/-- Without a line in the buffer, it does not matter who stops the client. -/
theorem OnTrack.framed_of_stopped (hx : x.OnTrack) (hrest : framed x.recvBuffer = [])
    (hstopped : x.stopped = true) : x.Framed := by
  refine ⟨hx.conforms hrest, fun h => ?_, fun h => ?_⟩
  · exact absurd (hstopped.symm.trans h) (by decide)
  · exact absurd (hstopped.symm.trans h) (by decide)

theorem OnTrack.framed_of_settled (hx : x.OnTrack) (hsettled : x.Settled) : x.Framed :=
  ⟨hx.conforms (framed_of_not_mem hsettled.incomplete), fun _ => hx, fun _ => hsettled⟩

/-- The client after bytes have gone into its buffer. -/
def append (x : Client) (data : Str) : Client :=
  { x with
    recvBuffer := x.recvBuffer ++ data
    trace.received := x.trace.received ++ data }

/-- Bytes that arrive go to the end of the stream and of the buffer. -/
theorem OnTrack.append (hx : x.OnTrack) (data : Str) : (x.append data).OnTrack := by
  refine ⟨hx.going, fun more => ?_⟩
  show framed (x.trace.received ++ data ++ more) = x.lines ++ framed (x.recvBuffer ++ data ++ more)
  rw [List.append_assoc, List.append_assoc]
  exact hx.framed_eq (data ++ more)

/-- The line at the front of the buffer is the next one of the stream. -/
theorem OnTrack.framed_cons (hx : x.OnTrack) {l t : Str} (hbuffer : x.recvBuffer = l ++ lf :: t)
    (hl : lf ∉ l) (hgood : isGoodRecord (l ++ [lf]) = true) (more : Str) :
    framed (x.trace.received ++ more) = x.lines ++ dropFinalCr l :: framed (t ++ more) := by
  rw [hx.framed_eq more, hbuffer, List.append_assoc, List.cons_append, framed_good hl hgood]

/-- Behind the last line feed of a chunk there is less than a chunk, and without a line feed the
buffer is short. -/
theorem Settled.length_residue_lt (hx : x.Settled) {chunk : Str} (hchunk : IsChunk chunk)
    (hshort : lf ∈ x.recvBuffer ++ chunk ∨ (x.recvBuffer ++ chunk).length < maxIrcMessageSize) :
    (residue lf (x.recvBuffer ++ chunk)).length < recvChunkSize := by
  have hle := hchunk.2
  by_cases hlf : lf ∈ chunk
  · obtain ⟨l, t, rfl, hl⟩ := List.eq_append_cons_of_mem hlf
    have hnone : lf ∉ x.recvBuffer ++ l := fun h => (List.mem_append.mp h).elim hx.incomplete hl
    rw [← List.append_assoc, residue_append_cons hnone]
    have hresidue := length_residue_le lf t
    rw [List.length_append, List.length_cons] at hle
    omega
  · have hnone : lf ∉ x.recvBuffer ++ chunk := fun h => (List.mem_append.mp h).elim hx.incomplete hlf
    have hlt := hshort.resolve_left hnone
    rw [residue_of_not_mem hnone]
    simp only [maxIrcMessageSize, recvChunkSize] at *
    omega

/-- The overflow test never fails for a chunk that is read into a settled buffer. -/
theorem Settled.not_overflow (hx : x.Settled) {chunk : Str} (hchunk : IsChunk chunk) :
    ¬ (decide (x.recvBuffer.length > maxRecvBuffer)
      || decide (chunk.length > maxRecvBuffer - x.recvBuffer.length)) = true := by
  have hlt := hx.length_lt
  have hle := hchunk.2
  intro hover
  simp only [Bool.or_eq_true, decide_eq_true_eq] at hover
  simp only [maxRecvBuffer, recvChunkSize] at hlt hle hover
  omega

end

end Client

theorem OwnUpdate.input_eq {c : Ptr} {m : Message} {s : Server} {x x' : Client}
    (h : OwnUpdate c m s x x') : x'.input = x.input := by
  cases h with
  | authenticate => rfl
  | failPass =>
    have hcounted : x.recordFailedPassAttempt.input = x.input := by
      unfold Client.recordFailedPassAttempt
      split_ifs <;> rfl
    unfold Client.failPass
    dsimp only
    split_ifs
    · rw [Client.input_markClosing, Client.input_sendMessage, hcounted]
    · rw [Client.input_sendMessage, hcounted]
  | takeNickname =>
    unfold Client.takeNickname
    dsimp only
    split_ifs
    · exact Client.input_sendMessage ..
    · rfl
  | takeUsername =>
    unfold Client.takeUsername
    dsimp only
    split_ifs
    · exact Client.input_sendMessage ..
    · rfl
  | quit => exact Client.input_markClosing ..

/-- A line leaves the input of every client alone. -/
theorem Effects.input_eq {c : Ptr} {m : Message} {s₀ s : Server} (h : Effects c m s₀ s) (p : Ptr) :
    (s.heap p).map Client.input = (s₀.heap p).map Client.input :=
  h.map_heap (fun x text => x.input_sendMessage text) fun _ _ _ hown => hown.input_eq

/-! ## The other clients -/

namespace Server

/-- Every client of `t` other than `c` is one of `s` whose input has not changed. -/
def SameInputs (c : Option Ptr) (s t : Server) : Prop :=
  ∀ p y, t.heap p = some y → some p ≠ c → ∃ x, s.heap p = some x ∧ x.SameInput y

variable {c : Option Ptr} {s t u : Server}

theorem SameInputs.refl (c : Option Ptr) (s : Server) : SameInputs c s s :=
  fun _ y hy _ => ⟨y, hy, .refl y⟩

theorem SameInputs.trans (hst : SameInputs c s t) (htu : SameInputs c t u) : SameInputs c s u := by
  intro p z hz hp
  obtain ⟨y, hy, hyz⟩ := htu p z hz hp
  obtain ⟨x, hx, hxy⟩ := hst p y hy hp
  exact ⟨x, hx, hxy.trans hyz⟩

theorem sameInputs_modify {p : Ptr} {f : Client → Client}
    (hf : some p ≠ c → ∀ x, s.heap p = some x → x.SameInput (f x)) : SameInputs c s (s.modify p f) := by
  intro q y hy hq
  rw [heap_modify] at hy
  split_ifs at hy with hqp
  · obtain ⟨x, hx, rfl⟩ := Option.map_eq_some_iff.mp hy
    rw [hqp] at hq ⊢
    exact ⟨x, hx, hf hq x hx⟩
  · exact ⟨y, hy, .refl y⟩

theorem sameInputs_sendMessage (p : Ptr) (text : Str) : SameInputs c s (s.sendMessage p text) :=
  sameInputs_modify fun _ x _ => x.sameInput_sendMessage text

theorem sameInputs_sendAll (ps : List Ptr) (text : Str) : SameInputs c s (s.sendAll ps text) :=
  sendAll_induct s ps text (P := fun t => SameInputs c s t) (.refl c s)
    fun _ p ht => ht.trans (sameInputs_sendMessage p text)

/-- A line is the business of its own client. -/
theorem sameInputs_effects {q : Ptr} {m : Message} (h : Effects q m s t) :
    SameInputs (some q) s t := by
  apply h.induct (P := fun t => SameInputs (some q) s t) (.refl _ s)
  intro t t' _ heff ht
  refine ht.trans ?_
  cases heff with
  | reply => exact sameInputs_sendMessage _ _
  | relay => exact sameInputs_sendMessage _ _
  | own => exact sameInputs_modify fun hne => absurd rfl hne
  | found => exact .refl _ t
  | change => exact .refl _ t
  | part => exact .refl _ t
  | dissolve => exact .refl _ t

theorem sameInputs_disconnectClient (fd : Fd) : SameInputs c s (s.disconnectClient fd) := by
  unfold disconnectClient
  split
  · exact .refl c s
  next p _ =>
  have hannounce : SameInputs c s (s.announceQuit p) := by
    unfold announceQuit
    split_ifs
    · exact sameInputs_sendAll _ _
    · exact .refl c s
  refine hannounce.trans fun q y hy _ => ?_
  have hy' : Function.update (s.announceQuit p).heap p none q = some y := hy
  rw [Function.update_apply] at hy'
  split_ifs at hy'
  exact ⟨y, hy', .refl y⟩

theorem sameInputs_foldl {α : Type} {f : Server → α → Server}
    (hf : ∀ s a, SameInputs c s (f s a)) (l : List α) : SameInputs c s (l.foldl f s) := by
  induction l generalizing s with
  | nil => exact .refl c s
  | cons a l ih => exact (hf s a).trans ih

theorem sameInputs_reapDeadClients : SameInputs c s s.reapDeadClients := by
  unfold reapDeadClients
  refine (sameInputs_foldl (fun s fd => ?_) _).trans
    (sameInputs_foldl (fun s fd => sameInputs_disconnectClient fd) _)
  unfold retire
  split
  · exact .refl c s
  · split_ifs
    · exact sameInputs_modify fun _ x _ => x.sameInput_markDead _
    · exact .refl c s

/-! ## One client's read -/

variable {p : Ptr} {x : Client}

/-- A line leaves the input of its client alone, and is entered into the history. -/
theorem input_handleLine (hx : s.heap p = some x) (line : Str) :
    ∃ y, (s.handleLine p line).heap p = some y
      ∧ y.input = (x.recvBuffer, x.trace.received, x.trace.dispatched ++ [(line, y.stopped)]) := by
  have hinput := (processMessage_effects hx (Parser.parse line)).input_eq p
  rw [hx] at hinput
  obtain ⟨z, hz, hzinput⟩ := Option.map_eq_some_iff.mp hinput
  refine ⟨z.recordLine line, ?_, ?_⟩
  · rw [handleLine, heap_modify_self]
    show Option.map _ ((processMessage _ p _).heap p) = _
    rw [hz]
    rfl
  · show (z.recvBuffer, z.trace.received, z.trace.dispatched ++ [(line, z.stopped)]) = _
    rw [Client.recvBuffer_of_input hzinput, Client.received_of_input hzinput,
      Client.dispatched_of_input hzinput]
    rfl

/-- What one turn of the extraction loop does: there is no line, a bad record kills the client,
or a line is handled. -/
theorem readLine_cases (hx : s.heap p = some x) :
    (lf ∉ x.recvBuffer ∧ s.readLine p = (s, false))
    ∨ (∃ l t reason, x.recvBuffer = l ++ lf :: t ∧ lf ∉ l ∧ ¬ isGoodRecord (l ++ [lf]) = true
      ∧ s.readLine p = (s.modify p fun _ => { x with recvBuffer := t }.markDead reason, false))
    ∨ ∃ l t y s₁, x.recvBuffer = l ++ lf :: t ∧ lf ∉ l ∧ isGoodRecord (l ++ [lf]) = true
      ∧ s₁ = (s.modify p fun _ => { x with recvBuffer := t }).handleLine p (dropFinalCr l)
      ∧ s₁.heap p = some y
      ∧ y.input = (t, x.trace.received, x.trace.dispatched ++ [(dropFinalCr l, y.stopped)])
      ∧ s.readLine p = (s₁, !y.stopped) := by
  by_cases hlf : lf ∈ x.recvBuffer
  swap
  · refine Or.inl ⟨hlf, ?_⟩
    rw [readLine, client_of_heap hx, Client.extractLine_of_not_mem hlf]
    exact congrArg (·, false) (modify_id hx rfl)
  obtain ⟨l, t, hbuffer, hl⟩ := List.eq_append_cons_of_mem hlf
  by_cases hgood : isGoodRecord (l ++ [lf]) = true
  swap
  · obtain ⟨reason, hextract⟩ := Client.extractLine_bad hbuffer hl hgood
    refine Or.inr (Or.inl ⟨l, t, reason, hbuffer, hl, hgood, ?_⟩)
    rw [readLine, client_of_heap hx, hextract]
  obtain ⟨y, hy, hinput⟩ := input_handleLine (heap_extracted hx { x with recvBuffer := t })
    (dropFinalCr l)
  refine Or.inr (Or.inr ⟨l, t, y, _, hbuffer, hl, hgood, rfl, hy, hinput, ?_⟩)
  rw [readLine, client_of_heap hx, Client.extractLine_good hbuffer hl hgood]
  dsimp only
  rw [client_of_heap hy]

/-- The other clients over a read. -/
theorem sameInputs_readLine (hx : s.heap p = some x) : SameInputs (some p) s (s.readLine p).1 := by
  have hown : ∀ {s : Server} (f : Client → Client), SameInputs (some p) s (s.modify p f) :=
    fun f => sameInputs_modify fun hne => absurd rfl hne
  unfold readLine
  rw [client_of_heap hx]
  split
  · exact hown _
  · next x' line _ =>
    have hx' := heap_extracted hx x'
    exact ((hown _).trans (sameInputs_effects (processMessage_effects hx' (Parser.parse line)))).trans
      (hown _)

theorem sameInputs_readLines (hx : s.heap p = some x) (fuel : ℕ) :
    SameInputs (some p) s (readLines fuel s p) := by
  induction fuel generalizing s x with
  | zero => exact .refl _ s
  | succ fuel ih =>
    rw [readLines]
    dsimp only
    split_ifs
    · obtain ⟨y, hy⟩ := Reachable.exists_readLine hx
      exact (sameInputs_readLine hx).trans (ih hy)
    · exact sameInputs_readLine hx

/-- The extraction loop on a client that is on track: it handles the lines in the buffer, and
leaves the client conforming. -/
theorem framed_readLines (hx : s.heap p = some x) (htrack : x.OnTrack)
    (hresidue : (residue lf x.recvBuffer).length < recvChunkSize) {fuel : ℕ}
    (hfuel : x.recvBuffer.length < fuel) :
    ∃ y, (readLines fuel s p).heap p = some y ∧ y.Framed := by
  -- each turn takes a record out of the buffer
  induction fuel generalizing s x with
  | zero => exact absurd hfuel (Nat.not_lt_zero _)
  | succ fuel ih =>
    rw [readLines]
    rcases readLine_cases hx with ⟨hlf, hread⟩ | ⟨l, t, reason, hbuffer, hl, hbad, hread⟩
      | ⟨l, t, y, s₁, hbuffer, hl, hgood, _, hy, hinput, hread⟩
    · -- no line is left
      rw [hread]
      dsimp only
      rw [if_neg Bool.false_ne_true]
      rw [residue_of_not_mem hlf] at hresidue
      exact ⟨x, hx, htrack.framed_of_settled ⟨hlf, hresidue⟩⟩
    · -- a bad record ends the stream
      rw [hread]
      dsimp only
      rw [if_neg Bool.false_ne_true, heap_modify_self, hx]
      have hnone : framed x.recvBuffer = [] := by
        rw [hbuffer, framed_bad hl hbad]
      have hstopped := Client.stopped_markDead { x with recvBuffer := t } reason
      refine ⟨_, rfl, ?_, fun h => ?_, fun h => ?_⟩
      · have hconforms := htrack.conforms hnone
        have hinput := Client.input_markDead { x with recvBuffer := t } reason
        rw [Client.Conforms, Client.dispatched_of_input hinput, Client.received_of_input hinput,
          Client.lines, Client.dispatched_of_input hinput]
        exact hconforms
      · exact absurd (hstopped.symm.trans h) (by decide)
      · exact absurd (hstopped.symm.trans h) (by decide)
    · rw [hread]
      dsimp only
      have hcons := htrack.framed_cons hbuffer hl hgood
      have hrecv : y.recvBuffer = t := congrArg Prod.fst hinput
      have hreceived : y.trace.received = x.trace.received := congrArg (fun i => i.2.1) hinput
      have hdispatched : y.trace.dispatched
          = x.trace.dispatched ++ [(dropFinalCr l, y.stopped)] := congrArg (fun i => i.2.2) hinput
      have hlines : y.lines = x.lines ++ [dropFinalCr l] := by
        rw [Client.lines, hdispatched, List.map_append]
        rfl
      cases hstopped : y.stopped with
      | true =>
        -- the line has stopped the client
        refine ⟨y, hy, Or.inr ⟨x.trace.dispatched, dropFinalCr l, by rw [hdispatched, hstopped],
          htrack.going, ?_⟩, fun h => ?_, fun h => ?_⟩
        · have hnow := hcons []
          rw [List.append_nil, List.append_nil] at hnow
          rw [hlines, hreceived, hnow, List.prefix_append_right_inj]
          exact ⟨framed t, rfl⟩
        · exact absurd (hstopped.symm.trans h) (by decide)
        · exact absurd (hstopped.symm.trans h) (by decide)
      | false =>
        have htrack' : y.OnTrack := by
          refine ⟨fun e he => ?_, fun more => ?_⟩
          · rw [hdispatched, hstopped] at he
            rcases List.mem_append.mp he with he | he
            · exact htrack.going e he
            · rw [List.mem_singleton.mp he]
          · rw [hreceived, hrecv, hlines, hcons more, List.append_assoc]
            rfl
        apply ih hy htrack'
        · rw [hrecv]
          rwa [hbuffer, residue_append_cons hl] at hresidue
        · rw [hbuffer, List.length_append, List.length_cons] at hfuel
          rw [hrecv]
          omega

/-- What becomes of a chunk for a settled client: it is appended, and then refused if there are
512 bytes without a line feed. -/
theorem receive_cases (hx : s.heap p = some x) (hsettled : x.Settled) {chunk : Str}
    (hchunk : IsChunk chunk) :
    (lf ∉ x.recvBuffer ++ chunk ∧ maxIrcMessageSize ≤ (x.recvBuffer ++ chunk).length
      ∧ ∃ reason, s.receive p chunk = (s.modify p fun _ => (x.append chunk).markDead reason, false))
    ∨ ((lf ∈ x.recvBuffer ++ chunk ∨ (x.recvBuffer ++ chunk).length < maxIrcMessageSize)
      ∧ s.receive p chunk = (s.modify p fun _ => x.append chunk, true)) := by
  have hroom := hsettled.not_overflow hchunk
  unfold receive Client.appendToRecvBuffer
  rw [client_of_heap hx, if_neg hroom]
  dsimp only
  by_cases hflood : lf ∉ x.recvBuffer ++ chunk ∧ (x.recvBuffer ++ chunk).length ≥ maxIrcMessageSize
  · refine Or.inl ⟨hflood.1, hflood.2, lit "input flood: recv buffer overflow", ?_⟩
    rw [if_pos hflood, if_neg Bool.false_ne_true, modify_modify]
    rfl
  · rw [if_neg hflood, if_pos rfl]
    refine Or.inr ⟨?_, rfl⟩
    by_contra hnot
    rw [not_or, not_lt] at hnot
    exact hflood hnot

/-- A chunk that is read leaves the client framed. -/
theorem framed_handleClientRead {fd : Fd} (hfd : s.clients.find? fd = some p)
    (hx : s.heap p = some x) (hframed : x.Framed) (live : x.stopped = false) {chunk : Str}
    (hchunk : IsChunk chunk) :
    ∃ y, (s.handleClientRead fd (.data chunk)).heap p = some y ∧ y.Framed := by
  have htrack := (hframed.onTrack live).append chunk
  have hlive : ¬ (x.dead || x.closing) = true := Bool.eq_false_iff.mp live
  rw [handleClientRead, getClientByFd, hfd]
  dsimp only
  rw [client_of_heap hx, if_neg hlive]
  rcases receive_cases hx (hframed.settled live) hchunk with ⟨hnone, hlong, reason, hreceive⟩
    | ⟨hshort, hreceive⟩
  · rw [hreceive]
    dsimp only
    rw [if_neg Bool.false_ne_true, heap_modify_self, hx]
    refine ⟨_, rfl, Client.OnTrack.framed_of_stopped ?_ ?_ (Client.stopped_markDead ..)⟩
    · exact htrack.of_input (Client.input_markDead ..)
    · rw [Client.recvBuffer_of_input (Client.input_markDead ..)]
      exact framed_of_not_mem hnone
  · rw [hreceive]
    dsimp only
    have hx' := heap_extracted hx (x.append chunk)
    rw [if_pos rfl, client_of_heap hx']
    exact framed_readLines hx' htrack ((hframed.settled live).length_residue_lt hchunk hshort)
      (Nat.lt_succ_self _)

theorem sameInputs_handleClientRead {fd : Fd} (hfd : s.clients.find? fd = some p)
    (hx : s.heap p = some x) (chunk : Str) :
    SameInputs (some p) s (s.handleClientRead fd (.data chunk)) := by
  have hown : ∀ {s : Server} (f : Client → Client), SameInputs (some p) s (s.modify p f) :=
    fun f => sameInputs_modify fun hne => absurd rfl hne
  rw [handleClientRead, getClientByFd, hfd]
  dsimp only
  rw [client_of_heap hx]
  split_ifs with hstopped happended
  · exact .refl _ s
  · have hreceived : SameInputs (some p) s (s.receive p chunk).1 := by
      unfold receive
      dsimp only
      split_ifs
      · exact hown _
      · exact (hown _).trans (hown _)
    have hx' : ∃ y, (s.receive p chunk).1.heap p = some y := by
      unfold receive at happended ⊢
      dsimp only at happended ⊢
      split_ifs at happended ⊢
      exact ⟨_, heap_extracted hx _⟩
    obtain ⟨y, hy⟩ := hx'
    exact hreceived.trans (sameInputs_readLines hy _)
  · unfold receive
    dsimp only
    split_ifs
    · exact hown _
    · exact (hown _).trans (hown _)

end Server

/-! ## Over a run -/

namespace Client

theorem framed_fresh (fd : Fd) (ip : Str) : Framed { fd, ip } := by
  have htrack : OnTrack { fd, ip } := ⟨fun _ he => absurd he List.not_mem_nil, fun _ => rfl⟩
  exact htrack.framed_of_settled ⟨List.not_mem_nil, Nat.succ_pos _⟩

end Client

/-- Where the input of a client comes from in an event: it is new, or the same as before, or
somebody's who has been read from. -/
inductive InputOf (s : Server) (e : Event) (p : Ptr) (y : Client) : Prop
  | fresh {fd : Fd} {ip : Str} (hy : y = { fd, ip })
  | same {x : Client} (hx : s.heap p = some x) (h : x.SameInput y)
  | read {fd : Fd} {chunk : Str} {x : Client} (he : e = .read fd (.data chunk))
      (hfd : s.clients.find? fd = some p) (hx : s.heap p = some x) (live : x.stopped = false)

theorem Reachable.inputOf_step {s : Server} (h : Reachable s) {e : Event} (hadm : s.Admits e) :
    ∀ p y, (s.step e).heap p = some y → InputOf s e p y := by
  -- a client whose input is left alone
  have hsame : ∀ {t}, Server.SameInputs none s t → ∀ p y, t.heap p = some y → InputOf s e p y := by
    intro t ht p y hy
    obtain ⟨x, hx, hxy⟩ := ht p y hy (Option.some_ne_none p)
    exact .same hx hxy
  have hs : ∀ p y, s.heap p = some y → InputOf s e p y := hsame (.refl none s)
  have hmodify : ∀ {p} {f : Client → Client}, (∀ x, s.heap p = some x → x.SameInput (f x)) →
      Server.SameInputs none s (s.modify p f) := fun hf => Server.sameInputs_modify fun _ => hf
  cases e with
  | accept result =>
    have hconnect : ∀ fd ip p, ∀ q y, (s.connect fd ip p).heap q = some y →
        InputOf s (.accept result) q y := by
      intro fd ip p q y hy
      have hy' : Function.update s.heap p (some { fd, ip }) q = some y := hy
      rw [Function.update_apply] at hy'
      split_ifs at hy'
      · exact .fresh (Option.some_inj.mp hy').symm
      · exact hs q y hy'
    rw [Server.step]
    unfold Server.acceptNewClient
    cases result with
    | failed => exact hs
    | connection fd fcntlOk ipText object =>
      cases ipText with
      | none =>
        dsimp only
        split_ifs <;> exact hs
      | some ip =>
        cases object with
        | none =>
          dsimp only
          split_ifs <;> exact hs
        | some p =>
          dsimp only
          split_ifs
          · exact hs
          · exact hs
          · exact hs
          · exact hs
          · exact hconnect fd ip p
  | read fd result =>
    rw [Server.step]
    cases hfd : s.clients.find? fd with
    | none =>
      rw [Server.handleClientRead, Server.getClientByFd, hfd]
      exact hs
    | some p =>
      obtain ⟨x, hx, _⟩ := h.exists_client hfd
      -- a stopped client is not read from
      cases hstopped : x.stopped with
      | true =>
        have hclient : ((s.client p).dead || (s.client p).closing) = true := by
          rw [Server.client_of_heap hx]
          exact hstopped
        rw [Server.handleClientRead, Server.getClientByFd, hfd]
        dsimp only
        rw [if_pos hclient]
        exact hs
      | false =>
        have hclient : ¬ ((s.client p).dead || (s.client p).closing) = true := by
          rw [Server.client_of_heap hx]
          exact Bool.eq_false_iff.mp hstopped
        cases result with
        -- only a chunk is appended; what ends the reading leaves the input alone
        | data chunk =>
          intro q y hy
          by_cases hq : q = p
          · exact .read rfl (hq ▸ hfd) (hq ▸ hx) hstopped
          · obtain ⟨z, hz, hzy⟩ := Server.sameInputs_handleClientRead hfd hx chunk q y hy
              (fun h => hq (Option.some_inj.mp h))
            exact .same hz hzy
        | eof =>
          rw [Server.handleClientRead, Server.getClientByFd, hfd]
          dsimp only
          rw [if_neg hclient]
          exact hsame (hmodify fun x _ => x.sameInput_markClosing _)
        | retry =>
          rw [Server.handleClientRead, Server.getClientByFd, hfd]
          dsimp only
          rw [if_neg hclient]
          exact hs
        | error text =>
          rw [Server.handleClientRead, Server.getClientByFd, hfd]
          dsimp only
          rw [if_neg hclient]
          exact hsame (hmodify fun x _ => x.sameInput_socketError _)
  | write fd result =>
    rw [Server.step]
    cases hfd : s.clients.find? fd with
    | none =>
      rw [Server.handleClientWrite, Server.getClientByFd, hfd]
      exact hs
    | some p =>
      obtain ⟨x, hx, _⟩ := h.exists_client hfd
      rw [Server.handleClientWrite_eq hfd hx]
      refine hsame (hmodify fun y hy => ?_)
      rw [Option.some_inj.mp (hy.symm.trans hx)]
      exact x.sameInput_write result
  | pollError fd =>
    rw [Server.step, Server.handlePollError]
    split
    · exact hs
    · exact hsame (hmodify fun x _ => x.sameInput_socketError _)
  | reap => exact hsame Server.sameInputs_reapDeadClients
  | refresh =>
    rw [Server.step]
    split
    · next s' hs' =>
      obtain ⟨_, rfl, _⟩ := Server.of_refreshPollEvents hs'
      exact hs
    · exact hs

/-- Every event leaves every client framed. -/
theorem Reachable.framed_step {s : Server} (h : Reachable s)
    (hs : ∀ p x, s.heap p = some x → x.Framed) {e : Event} (hadm : s.Admits e) :
    ∀ p x, (s.step e).heap p = some x → x.Framed := by
  intro p y hy
  cases h.inputOf_step hadm p y hy with
  | fresh hfresh =>
    rw [hfresh]
    exact Client.framed_fresh _ _
  | same hx hxy => exact (hs p _ hx).of_sameInput hxy
  | read he hfd hx live =>
    subst he
    obtain ⟨z, hz, hframed⟩ := Server.framed_handleClientRead hfd hx (hs p _ hx) live hadm
    rwa [← Option.some_inj.mp (hz.symm.trans hy)]

/-- What holds at the start and is kept by the events holds after every run. -/
theorem run_induct {P : Server → Prop}
    (hstep : ∀ s e, Reachable s → P s → s.Admits e → P (s.step e)) {es : List Event} {s : Server}
    (h : Reachable s) (hs : P s) (hadm : s.AdmitsAll es) : P (s.run es) := by
  induction es generalizing s with
  | nil => exact hs
  | cons e es ih => exact ih (h.moves (h.moves_step hadm.1)) (hstep s e h hs hadm.1) hadm.2

/-- In every run every client is framed between two events. -/
theorem framed_run (password : Str) (listenFd : Fd) {es : List Event}
    (hadm : (Server.start password listenFd).AdmitsAll es) :
    ∀ p x, ((Server.start password listenFd).run es).heap p = some x → x.Framed := by
  apply run_induct (P := fun s => ∀ p x, s.heap p = some x → x.Framed) _ (.start password listenFd) _
    hadm
  · exact fun _ _ h hs hadm => h.framed_step hs hadm
  · exact fun _ _ h => absurd h (Option.some_ne_none _).symm

end FtIrc
