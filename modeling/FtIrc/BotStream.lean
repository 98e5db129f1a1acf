import FtIrc.Bot
import FtIrc.Framing

/-!
# The bot reads what the server writes

The server's messages in any chunks: the bot's receive loop refuses none of them, and hands
their contents on in order. What it keeps between two chunks is the residue of the bytes so
far, a piece of one message and so less than 512 bytes.
-/

namespace FtIrc

open Bytes

/-- A message without its CRLF. -/
def contents (message : Str) : Str := message.dropLast.dropLast

namespace Receiver

variable {σ : Type} {g : σ → Str → σ} {handle : σ → Str → Except String σ} {r : Receiver σ}

/-- Handling that does not throw. -/
def total (g : σ → Str → σ) : σ → Str → Except String σ := fun state line => .ok (g state line)

/-- The lines of a list of messages are handled. -/
def handled (g : σ → Str → σ) (state : σ) (messages : List Str) : σ :=
  (messages.map contents).foldl g state

theorem handled_append (state : σ) (ms ns : List Str) :
    handled g state (ms ++ ns) = handled g (handled g state ms) ns := by
  rw [handled, List.map_append, List.foldl_append]
  rfl

theorem foldlM_total (lines : List Str) (state : σ) :
    lines.foldlM (total g) state = .ok (lines.foldl g state) := by
  induction lines generalizing state with
  | nil => rfl
  | cons line lines ih => exact ih (g state line)

/-- A message at the front of the buffer is the next line. -/
theorem extractLine_message {l t : Str} (hl : lf ∉ l)
    (hvalid : isValidOutboundMessage (l ++ [lf]) = true) (hbuffer : r.receiveBuffer = l ++ lf :: t) :
    r.extractLine = .ok ({ r with receiveBuffer := t }, some (contents (l ++ [lf]))) := by
  obtain ⟨hsize, body, hbody, hnul, hcr, _⟩ := Client.exists_of_isValidOutboundMessage hvalid
  have hl' : l = body ++ [cr] := by
    have happend : l ++ [lf] = (body ++ [cr]) ++ [lf] := by
      rw [hbody, List.append_assoc]
      rfl
    exact List.append_cancel_right happend
  have hcontents : contents (l ++ [lf]) = body := by
    rw [contents, List.dropLast_concat, hl', List.dropLast_concat]
  have hdrop : dropFinalCr l = body := by
    rw [hl', dropFinalCr, List.getLast?_concat, if_pos rfl, List.dropLast_concat]
  have hclean : ¬ (body.any fun b => b == nul || b == cr) = true := by
    rw [List.any_eq_true]
    rintro ⟨b, hb, hcontrol⟩
    rw [Bool.or_eq_true, beq_iff_eq, beq_iff_eq] at hcontrol
    rcases hcontrol with rfl | rfl
    · exact hnul hb
    · exact hcr hb
  rw [List.length_append, List.length_singleton] at hsize
  rw [extractLine, cut_singleton_eq_some.mpr ⟨hbuffer, hl⟩]
  dsimp only
  rw [if_neg (by omega), hdrop, if_neg hclean, hcontents]

/-- The loop over a buffer that holds messages and a piece of one more: it ends where a handler
throws. -/
theorem extractLines_foldlM {fuel : ℕ} (hfuel : r.receiveBuffer.length < fuel)
    (hvalid : ∀ m ∈ records lf r.receiveBuffer, isValidOutboundMessage m = true)
    (hshort : (residue lf r.receiveBuffer).length < maxIrcMessageSize) :
    extractLines handle fuel r
      = (((records lf r.receiveBuffer).map contents).foldlM handle r.state).map fun state =>
          { receiveBuffer := residue lf r.receiveBuffer, state } := by
  -- each turn takes a message out of the buffer
  induction fuel generalizing r with
  | zero => omega
  | succ fuel ih =>
    rw [extractLines]
    by_cases hlf : lf ∈ r.receiveBuffer
    · obtain ⟨l, t, hbuffer, hl⟩ := List.eq_append_cons_of_mem hlf
      rw [hbuffer, records_append_cons hl] at hvalid
      rw [hbuffer, residue_append_cons hl] at hshort
      rw [extractLine_message hl (hvalid _ List.mem_cons_self) hbuffer, hbuffer,
        records_append_cons hl, residue_append_cons hl, List.map_cons, List.foldlM_cons]
      dsimp only
      cases hhandled : handle r.state (contents (l ++ [lf])) with
      | error e => rfl
      | ok state =>
        have hlength : t.length < fuel := by
          rw [hbuffer, List.length_append, List.length_cons] at hfuel
          omega
        show extractLines handle fuel { receiveBuffer := t, state } = _
        exact ih hlength (fun m hm => hvalid m (List.mem_cons_of_mem _ hm)) hshort
    · rw [residue_of_not_mem hlf] at hshort
      have hnone : r.extractLine = .ok (r, none) := by
        rw [extractLine, cut_singleton_eq_none.mpr hlf]
        exact if_neg (Nat.not_le_of_lt hshort)
      rw [hnone, residue_of_not_mem hlf, records_of_not_mem hlf]
      rfl

/-- How far the bot has come in a stream of messages `ms`, after the bytes `b` of it. -/
structure OnTrack (g : σ → Str → σ) (state : σ) (b : Str) (r : Receiver σ) : Prop where
  receiveBuffer : r.receiveBuffer = residue lf b
  state : r.state = handled g state (records lf b)

end Receiver

/-- Every record of the first bytes of a stream of messages is one of them, and the rest of
these bytes is shorter than a message. -/
theorem records_of_messages {ms : List Str} (hms : ∀ m ∈ ms, isValidOutboundMessage m = true)
    {b more : Str} (hstream : b ++ more = ms.flatten) :
    ∃ later, ms = records lf b ++ later ∧ residue lf b ++ more = later.flatten
      ∧ (residue lf b).length < maxIrcMessageSize := by
  have hrecord : ∀ m ∈ ms, ∃ l, m = l ++ [lf] ∧ lf ∉ l :=
    fun m hm => Client.record_of_isValidOutboundMessage (hms m hm)
  have hcut : ms = records lf b ++ records lf (residue lf b ++ more) := by
    rw [← records_append, hstream, (records_flatten hrecord).1]
  have hrest : residue lf (residue lf b ++ more) = [] := by
    rw [← residue_append, hstream, (records_flatten hrecord).2]
  have hflat := flatten_records lf (residue lf b ++ more)
  rw [hrest, List.append_nil] at hflat
  refine ⟨_, hcut, hflat.symm, ?_⟩
  -- the residue is a piece of the next message, if there is one
  cases hnext : records lf (residue lf b ++ more) with
  | nil =>
    rw [hnext, List.flatten_nil] at hflat
    rw [(List.append_eq_nil_iff.mp hflat.symm).1]
    decide
  | cons m later =>
    have hm : m ∈ ms := by
      rw [hcut, hnext]
      exact List.mem_append_right _ List.mem_cons_self
    obtain ⟨l, hl, hlf⟩ := hrecord m hm
    have hsize := (Client.exists_of_isValidOutboundMessage (hms m hm)).1
    rw [hl, List.length_append, List.length_singleton] at hsize
    rw [hnext, List.flatten_cons, hl] at hflat
    -- it has no line feed, so it ends in front of that of the message
    have hle : (residue lf b).length ≤ l.length := by
      by_contra hlong
      have hpiece : residue lf b <+: l ++ [lf] ++ later.flatten := ⟨more, hflat.symm⟩
      have hmessage : l ++ [lf] <+: residue lf b := by
        refine List.prefix_of_prefix_length_le (List.prefix_append _ _) hpiece ?_
        rw [List.length_append, List.length_singleton]
        omega
      exact not_mem_residue lf b (hmessage.subset List.mem_concat_self)
    omega

namespace Receiver

variable {σ : Type} {g : σ → Str → σ} {handle : σ → Str → Except String σ} {state : σ}
  {r : Receiver σ} {b : Str}

/-- One more chunk of a stream of messages has the messages it completes handled, up to one whose
handler throws. -/
theorem receive_foldlM {ms : List Str} (hms : ∀ m ∈ ms, isValidOutboundMessage m = true)
    (hbuffer : r.receiveBuffer = residue lf b) {chunk more : Str} (hchunk : IsChunk chunk)
    (hstream : b ++ (chunk ++ more) = ms.flatten) :
    r.receive handle chunk
      = (((records lf (residue lf b ++ chunk)).map contents).foldlM handle r.state).map fun state =>
          { receiveBuffer := residue lf (b ++ chunk), state } := by
  obtain ⟨_, _, _, hshort⟩ := records_of_messages hms hstream
  rw [← List.append_assoc] at hstream
  obtain ⟨later, hcut, _, hshort'⟩ := records_of_messages hms hstream
  have hroom : ¬ (decide (r.receiveBuffer.length > maxReceiveBufferSize)
      || decide (chunk.length > maxReceiveBufferSize - r.receiveBuffer.length)) = true := by
    have hle := hchunk.2
    rw [hbuffer, Bool.or_eq_true, decide_eq_true_eq, decide_eq_true_eq]
    simp only [maxReceiveBufferSize, recvChunkSize, maxIrcMessageSize] at *
    omega
  rw [records_append] at hcut
  rw [residue_append] at hshort' ⊢
  unfold Receiver.receive
  rw [if_neg hroom]
  dsimp only
  rw [hbuffer]
  refine extractLines_foldlM (Nat.lt_succ_self _) (fun m hm => hms m ?_) hshort'
  rw [hcut]
  exact List.mem_append_left _ (List.mem_append_right _ hm)

/-- One more chunk of a stream of messages, and no handler throws. -/
theorem OnTrack.receive {ms : List Str} (hms : ∀ m ∈ ms, isValidOutboundMessage m = true)
    (h : OnTrack g state b r) {chunk more : Str} (hchunk : IsChunk chunk)
    (hstream : b ++ (chunk ++ more) = ms.flatten) :
    ∃ r', r.receive (total g) chunk = .ok r' ∧ OnTrack g state (b ++ chunk) r' := by
  rw [receive_foldlM hms h.receiveBuffer hchunk hstream, foldlM_total]
  refine ⟨_, rfl, rfl, ?_⟩
  show handled g r.state (records lf (residue lf b ++ chunk)) = _
  rw [records_append lf b, handled_append, ← h.state]

/-- Any number of chunks: the induction is on the chunks, `OnTrack` is its invariant. -/
theorem OnTrack.receiveMessages {ms : List Str} (hms : ∀ m ∈ ms, isValidOutboundMessage m = true)
    (h : OnTrack g state b r) {chunks : List Str} (hchunks : ∀ c ∈ chunks, IsChunk c) {more : Str}
    (hstream : b ++ (chunks.flatten ++ more) = ms.flatten) :
    ∃ r', r.receiveMessages (total g) (chunks.map .data) = .ok r'
      ∧ OnTrack g state (b ++ chunks.flatten) r' := by
  induction chunks generalizing b r with
  | nil =>
    rw [List.flatten_nil, List.append_nil]
    exact ⟨r, rfl, h⟩
  | cons chunk chunks ih =>
    rw [List.flatten_cons, List.append_assoc] at hstream
    obtain ⟨r₁, hr₁, h₁⟩ := h.receive hms (hchunks chunk List.mem_cons_self) hstream
    rw [← List.append_assoc] at hstream
    obtain ⟨r₂, hr₂, h₂⟩ := ih h₁ (fun c hc => hchunks c (List.mem_cons_of_mem _ hc)) hstream
    refine ⟨r₂, ?_, ?_⟩
    · rw [List.map_cons, Receiver.receiveMessages, hr₁]
      exact hr₂
    · rw [List.flatten_cons, ← List.append_assoc]
      exact h₂

end Receiver

/-- Whatever messages the server may send and however their bytes are cut into chunks, the bot's
receive loop does not throw, hands the contents of the messages on in order, and keeps between
two chunks what it has of an incomplete message. -/
theorem bot_decodes {σ : Type} (g : σ → Str → σ) (state : σ) {ms : List Str}
    (hms : ∀ m ∈ ms, isValidOutboundMessage m = true) {chunks : List Str}
    (hchunks : ∀ c ∈ chunks, IsChunk c) (hstream : chunks.flatten = ms.flatten) :
    Receiver.receiveMessages (Receiver.total g) { state } (chunks.map .data)
        = .ok { receiveBuffer := [], state := (ms.map contents).foldl g state }
      ∧ ∀ done rest, chunks = done ++ rest → ∃ complete later tail, ms = complete ++ later
        ∧ done.flatten = complete.flatten ++ tail ∧ lf ∉ tail
        ∧ Receiver.receiveMessages (Receiver.total g) { state } (done.map .data)
          = .ok { receiveBuffer := tail, state := (complete.map contents).foldl g state } := by
  have hstart : Receiver.OnTrack g state [] { state } := by
    refine ⟨?_, ?_⟩
    · rw [residue_of_not_mem List.not_mem_nil]
    · rw [records_of_not_mem List.not_mem_nil]
      rfl
  -- what has come of the stream after some of the chunks
  have hdone : ∀ done rest, chunks = done ++ rest →
      Receiver.receiveMessages (Receiver.total g) { state } (done.map .data)
        = .ok { receiveBuffer := residue lf done.flatten,
                state := Receiver.handled g state (records lf done.flatten) } := by
    intro done rest hsplit
    have hflat : [] ++ (done.flatten ++ rest.flatten) = ms.flatten := by
      rw [List.nil_append, ← List.flatten_append, ← hsplit, hstream]
    obtain ⟨r, hr, htrack⟩ := hstart.receiveMessages hms
      (fun c hc => hchunks c (hsplit ▸ List.mem_append_left _ hc)) hflat
    rw [List.nil_append] at htrack
    rw [hr]
    cases r
    exact congrArg _ (by rw [Receiver.mk.injEq]; exact ⟨htrack.receiveBuffer, htrack.state⟩)
  have hwhole : records lf ms.flatten = ms ∧ residue lf ms.flatten = [] :=
    records_flatten fun m hm => Client.record_of_isValidOutboundMessage (hms m hm)
  refine ⟨?_, fun done rest hsplit => ?_⟩
  · rw [hdone chunks [] (List.append_nil _).symm, hstream, hwhole.1, hwhole.2]
    rfl
  · have hflat : done.flatten ++ rest.flatten = ms.flatten := by
      rw [← List.flatten_append, ← hsplit, hstream]
    obtain ⟨later, hcut, _, _⟩ := records_of_messages hms hflat
    exact ⟨_, later, _, hcut, (flatten_records lf done.flatten).symm, not_mem_residue lf _,
      hdone done rest hsplit⟩

/-- Two messages cut inside their CRLFs. -/
theorem bot_decodes_sample :
    Receiver.receiveMessages (Receiver.total fun lines line => lines ++ [line])
        { state := ([] : List Str) }
        ([lit "PING x\r", lit "\n:a!b JOIN :#c", lit "\r\n"].map .data)
      = .ok { receiveBuffer := [], state := [lit "PING x", lit ":a!b JOIN :#c"] } := by
  have hms : ∀ m ∈ [lit "PING x\r\n", lit ":a!b JOIN :#c\r\n"], isValidOutboundMessage m = true := by
    decide +kernel
  have hchunks : ∀ c ∈ [lit "PING x\r", lit "\n:a!b JOIN :#c", lit "\r\n"], IsChunk c := by
    decide +kernel
  exact (bot_decodes (fun lines line => lines ++ [line]) [] hms hchunks (by decide +kernel)).1

end FtIrc
