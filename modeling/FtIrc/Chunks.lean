import FtIrc.Framing
import FtIrc.Alike

/-!
# Reads and lines

`serve` is the server that gets whole lines: each is handled in turn, until one stops its
client. Reading a stream in any chunks comes to the same. The handlers cannot tell two
servers apart that differ in unused input only (`likeness_inputLike`), so the proof may go
through the chunks with the buffers on one side and none on the other.
-/

namespace FtIrc

open Bytes

namespace Server

/-! ## Servers that differ in unused input -/

/-- The same server, up to what its clients have received and not yet used. -/
structure InputLike (s t : Server) : Prop where
  password : t.password = s.password
  clients : t.clients = s.clients
  channels : t.channels = s.channels
  heap : ∀ p, (t.heap p).map Client.withoutInput = (s.heap p).map Client.withoutInput

namespace InputLike

variable {s t u : Server}

theorem refl (s : Server) : s.InputLike s := ⟨rfl, rfl, rfl, fun _ => rfl⟩

theorem client (h : s.InputLike t) (p : Ptr) :
    (t.client p).withoutInput = (s.client p).withoutInput := by
  have hp := h.heap p
  unfold Server.client
  cases hs : s.heap p with
  | none =>
    rw [hs, Option.map_none, Option.map_eq_none_iff] at hp
    rw [hp]
  | some x =>
    rw [hs, Option.map_some] at hp
    obtain ⟨y, hy, hyx⟩ := Option.map_eq_some_iff.mp hp
    rw [hy]
    exact hyx

theorem identity (h : s.InputLike t) (p : Ptr) :
    (t.client p).identity = (s.client p).identity := by
  have hidentity := congrArg Client.identity (h.client p)
  exact hidentity

theorem stopped (h : s.InputLike t) (p : Ptr) : (t.client p).stopped = (s.client p).stopped := by
  have hstopped := congrArg Client.stopped (h.client p)
  exact hstopped

theorem dispatched (h : s.InputLike t) (p : Ptr) :
    (t.client p).trace.dispatched = (s.client p).trace.dispatched := by
  have hdispatched := congrArg (fun x => x.trace.dispatched) (h.client p)
  exact hdispatched

theorem modify (h : s.InputLike t) (p : Ptr) {f : Client → Client} (hf : Client.Blind f) :
    (s.modify p f).InputLike (t.modify p f) := by
  refine ⟨h.password, h.clients, h.channels, fun q => ?_⟩
  rw [heap_modify, heap_modify]
  split_ifs
  · have hswap : ∀ o : Option Client,
        (o.map f).map Client.withoutInput = (o.map Client.withoutInput).map f := by
      intro o
      cases o with
      | none => rfl
      | some x => exact congrArg some (hf x)
    rw [hswap, hswap, h.heap p]
  · exact h.heap q

/-- A change of one client's unused input. -/
theorem modify_right (h : s.InputLike t) {p : Ptr} {x y : Client} (hx : t.heap p = some x)
    (hy : y.withoutInput = x.withoutInput) : s.InputLike (t.modify p fun _ => y) := by
  refine ⟨h.password, h.clients, h.channels, fun q => ?_⟩
  rw [heap_modify]
  split_ifs with hq
  · rw [hx, hq, ← h.heap p, hx]
    exact congrArg some hy
  · exact h.heap q

end InputLike

/-! ### The handlers do not look at the input -/

theorem sameChannels_inputLike : SameChannels InputLike where
  channels h := h.channels
  withChannels h _ := ⟨h.password, h.clients, rfl, h.heap⟩

theorem likeness_inputLike (c : Ptr) : Likeness c (fun _ => True) (fun _ => True) InputLike where
  password h := h.password
  nickname h p := Client.nickname_of_identity (h.identity p)
  username h p := congrArg Client.Identity.username (h.identity p)
  identity h := h.identity c
  findClientByNick {s t} h n := by
    unfold findClientByNick
    have htest : ∀ e : Fd × Ptr,
        (!(t.client e.2).dead && toIrcLowerCase (t.client e.2).nickname == toIrcLowerCase n)
          = (!(s.client e.2).dead && toIrcLowerCase (s.client e.2).nickname == toIrcLowerCase n) := by
      intro e
      have hdead := congrArg Client.dead (h.client e.2)
      rw [show (t.client e.2).dead = (s.client e.2).dead from hdead,
        Client.nickname_of_identity (h.identity e.2)]
    simp only [h.clients, htest]
  sendMessage h p text := h.modify p (Client.blind_sendMessage text)
  modify h _ hf := h.modify c hf
  nickRecipients h := sameChannels_inputLike.nickRecipients h
  keys h := congrArg OrdMap.keys h.channels
  findChannel h _ _ := sameChannels_inputLike.findChannel h _
  named _ _ _ _ _ := trivial
  shut _ _ h := absurd trivial h
  modifyChannel h _ _ _ _ := sameChannels_inputLike.modifyChannel h _ _
  removeChannel h _ _ := sameChannels_inputLike.removeChannel h _
  createChannel h _ _ := sameChannels_inputLike.createChannel h _

theorem InputLike.handleLine {s t : Server} (h : s.InputLike t) (p : Ptr) (line : Str) :
    (s.handleLine p line).InputLike (t.handleLine p line) :=
  ((likeness_inputLike p).processLine h line).modify p fun _ => rfl

/-! ## Whole lines -/

/-- The lines of a client, handled one after the other until one stops it. -/
def serve (s : Server) (p : Ptr) : List Str → Server
  | [] => s
  | line :: lines =>
    let s := s.handleLine p line
    if (s.client p).stopped then s else s.serve p lines

theorem serve_cons_of_stopped {s : Server} {p : Ptr} {line : Str}
    (h : ((s.handleLine p line).client p).stopped = true) (lines : List Str) :
    s.serve p (line :: lines) = s.handleLine p line := if_pos h

theorem serve_cons_of_live {s : Server} {p : Ptr} {line : Str}
    (h : ((s.handleLine p line).client p).stopped = false) (lines : List Str) :
    s.serve p (line :: lines) = (s.handleLine p line).serve p lines :=
  if_neg (Bool.eq_false_iff.mp h)

/-- Lines may come in two goes while the client goes on. -/
theorem serve_append {s : Server} {p : Ptr} {l₁ : List Str}
    (h : ((s.serve p l₁).client p).stopped = false) (l₂ : List Str) :
    s.serve p (l₁ ++ l₂) = (s.serve p l₁).serve p l₂ := by
  induction l₁ generalizing s with
  | nil => rfl
  | cons line l₁ ih =>
    cases hstopped : ((s.handleLine p line).client p).stopped with
    | true =>
      rw [serve_cons_of_stopped hstopped, hstopped] at h
      cases h
    | false =>
      rw [serve_cons_of_live hstopped] at h
      rw [List.cons_append, serve_cons_of_live hstopped, serve_cons_of_live hstopped]
      exact ih h

/-! ## Reading -/

/-- Server `t` has read the bytes `b` of client `p` where `u` has had whole lines: the client goes
on and both are alike up to input, or it has stopped and its lines are what they will be. -/
def Follows (u : Server) (p : Ptr) (b : Str) (t : Server) : Prop :=
  (∃ y, t.heap p = some y ∧ y.stopped = false ∧ y.Settled ∧ (u.serve p (framed b)).InputLike t
    ∧ ∀ more, framed (b ++ more) = framed b ++ framed (y.recvBuffer ++ more))
  ∨ ∃ y, t.heap p = some y ∧ y.stopped = true
    ∧ ∀ more, y.trace.dispatched = ((u.serve p (framed (b ++ more))).client p).trace.dispatched

variable {s t u : Server} {p : Ptr} {x : Client}

/-- The extraction loop handles the lines in the buffer. -/
theorem follows_readLines (hlike : u.InputLike s) (hx : s.heap p = some x)
    (live : x.stopped = false) (hresidue : (residue lf x.recvBuffer).length < recvChunkSize)
    {fuel : ℕ} (hfuel : x.recvBuffer.length < fuel) :
    u.Follows p x.recvBuffer (readLines fuel s p) := by
  induction fuel generalizing s u x with
  | zero => exact absurd hfuel (Nat.not_lt_zero _)
  | succ fuel ih =>
    rw [readLines]
    rcases readLine_cases hx with ⟨hlf, hread⟩ | ⟨l, r, reason, hbuffer, hl, hbad, hread⟩
      | ⟨l, r, y, s₁, hbuffer, hl, hgood, hs₁, hy, hinput, hread⟩
    · rw [hread]
      dsimp only
      rw [if_neg Bool.false_ne_true]
      rw [residue_of_not_mem hlf] at hresidue
      refine Or.inl ⟨x, hx, live, ⟨hlf, hresidue⟩, ?_, fun more => ?_⟩
      · rw [framed_of_not_mem hlf]
        exact hlike
      · rw [framed_of_not_mem hlf, List.nil_append]
    · -- nothing that follows a bad record is a line
      rw [hread]
      dsimp only
      rw [if_neg Bool.false_ne_true]
      refine Or.inr ⟨_, by rw [heap_modify_self, hx]; rfl, Client.stopped_markDead .., fun more => ?_⟩
      rw [hbuffer, List.append_assoc, List.cons_append, framed_bad hl hbad, Client.trace_markDead]
      have hdispatched := hlike.dispatched p
      rw [client_of_heap hx] at hdispatched
      exact hdispatched
    · rw [hread]
      dsimp only
      have hrecv : y.recvBuffer = r := congrArg Prod.fst hinput
      -- the line is handled on both sides
      have hlike₁ : (u.handleLine p (dropFinalCr l)).InputLike s₁ := by
        rw [hs₁]
        exact (hlike.modify_right hx (y := { x with recvBuffer := r }) rfl).handleLine p _
      have hstop := hlike₁.stopped p
      rw [client_of_heap hy] at hstop
      have hframed : ∀ more, framed (x.recvBuffer ++ more) = dropFinalCr l :: framed (r ++ more) := by
        intro more
        rw [hbuffer, List.append_assoc, List.cons_append, framed_good hl hgood]
      cases hstopped : y.stopped with
      | true =>
        rw [hstopped] at hstop
        refine Or.inr ⟨y, hy, hstopped, fun more => ?_⟩
        rw [hframed, serve_cons_of_stopped hstop.symm, ← hlike₁.dispatched p, client_of_heap hy]
      | false =>
        rw [hstopped] at hstop
        have hrest := ih hlike₁ hy hstopped
          (by rw [hrecv]; rwa [hbuffer, residue_append_cons hl] at hresidue)
          (by
            rw [hbuffer, List.length_append, List.length_cons] at hfuel
            rw [hrecv]
            omega)
        rw [hrecv] at hrest
        have hframed₀ := hframed []
        rw [List.append_nil, List.append_nil] at hframed₀
        rcases hrest with ⟨z, hz, hzlive, hsettled, hzlike, hzframed⟩ | ⟨z, hz, hzstopped, hzlines⟩
        · refine Or.inl ⟨z, hz, hzlive, hsettled, ?_, fun more => ?_⟩
          · rw [hframed₀, serve_cons_of_live hstop.symm]
            exact hzlike
          · rw [hframed, hframed₀, hzframed, List.cons_append]
        · refine Or.inr ⟨z, hz, hzstopped, fun more => ?_⟩
          rw [hframed, serve_cons_of_live hstop.symm]
          exact hzlines more

/-- One more chunk. -/
theorem Follows.handleClientRead {b : Str} (h : u.Follows p b t) {fd : Fd}
    (hfd : t.clients.find? fd = some p) {chunk : Str} (hchunk : IsChunk chunk) :
    u.Follows p (b ++ chunk) (t.handleClientRead fd (.data chunk)) := by
  rw [Server.handleClientRead, getClientByFd, hfd]
  dsimp only
  rcases h with ⟨y, hy, live, hsettled, hlike, hframed⟩ | ⟨y, hy, hstopped, hlines⟩
  swap
  · -- nothing is read from a client that has stopped
    have hclient : ((t.client p).dead || (t.client p).closing) = true := by
      rw [client_of_heap hy]
      exact hstopped
    rw [if_pos hclient]
    refine Or.inr ⟨y, hy, hstopped, fun more => ?_⟩
    rw [List.append_assoc]
    exact hlines _
  have hclient : ¬ ((t.client p).dead || (t.client p).closing) = true := by
    rw [client_of_heap hy]
    exact Bool.eq_false_iff.mp live
  have hframed' : ∀ more, framed (b ++ chunk ++ more)
      = framed b ++ framed (y.recvBuffer ++ chunk ++ more) := by
    intro more
    rw [List.append_assoc, List.append_assoc]
    exact hframed _
  rw [if_neg hclient]
  rcases receive_cases hy hsettled hchunk with ⟨hnone, hlong, reason, hreceive⟩ | ⟨hshort, hreceive⟩
  · -- 512 bytes without a line feed are no line, whatever follows
    rw [hreceive]
    dsimp only
    rw [if_neg Bool.false_ne_true]
    refine Or.inr ⟨_, by rw [heap_modify_self, hy]; rfl, Client.stopped_markDead .., fun more => ?_⟩
    rw [hframed', framed_overlong hnone hlong, List.append_nil, Client.trace_markDead,
      ← hlike.dispatched p, client_of_heap hy]
    rfl
  · rw [hreceive]
    dsimp only
    have hy' := heap_extracted hy (y.append chunk)
    rw [if_pos rfl, client_of_heap hy']
    have hread := follows_readLines (hlike.modify_right hy (y := y.append chunk) rfl) hy'
      (x := y.append chunk) live (hsettled.length_residue_lt hchunk hshort) (Nat.lt_succ_self _)
    -- the lines of the whole are those so far and those of the buffer
    have hgoes : ((u.serve p (framed b)).client p).stopped = false := by
      rw [← hlike.stopped p, client_of_heap hy, live]
    have hframed₀ := hframed' []
    rw [List.append_nil, List.append_nil] at hframed₀
    rcases hread with ⟨z, hz, hzlive, hzsettled, hzlike, hzframed⟩ | ⟨z, hz, hzstopped, hzlines⟩
    · refine Or.inl ⟨z, hz, hzlive, hzsettled, ?_, fun more => ?_⟩
      · rw [hframed₀, serve_append hgoes]
        exact hzlike
      · rw [hframed', hframed₀, List.append_assoc (framed b)]
        exact congrArg _ (hzframed more)
    · refine Or.inr ⟨z, hz, hzstopped, fun more => ?_⟩
      rw [hframed', serve_append hgoes]
      exact hzlines more

/-! ## Every division of a stream -/

theorem clients_readLine (hx : s.heap p = some x) : (s.readLine p).1.clients = s.clients := by
  unfold readLine
  split
  · rfl
  · next y line _ => exact (SameConnections.handleLine (heap_extracted hx y) line).clients

theorem clients_readLines (hx : s.heap p = some x) (fuel : ℕ) :
    (readLines fuel s p).clients = s.clients := by
  induction fuel generalizing s x with
  | zero => rfl
  | succ fuel ih =>
    rw [readLines]
    dsimp only
    split_ifs
    · obtain ⟨y, hy⟩ := Reachable.exists_readLine hx
      rw [ih hy, clients_readLine hx]
    · exact clients_readLine hx

theorem clients_handleClientRead {fd : Fd} (hfd : s.clients.find? fd = some p)
    (hx : s.heap p = some x) (chunk : Str) :
    (s.handleClientRead fd (.data chunk)).clients = s.clients := by
  rw [handleClientRead, getClientByFd, hfd]
  dsimp only
  have hreceive : (s.receive p chunk).1.clients = s.clients := by
    unfold receive
    dsimp only
    split_ifs <;> rfl
  have hheap : ((s.receive p chunk).1.heap p).isSome = true := by
    unfold receive
    dsimp only
    split_ifs
    · rw [isSome_heap_modify, hx]
      rfl
    · rw [isSome_heap_modify, isSome_heap_modify, hx]
      rfl
  split_ifs
  · rfl
  · obtain ⟨y, hy⟩ := Option.isSome_iff_exists.mp hheap
    rw [clients_readLines hy, hreceive]
  · exact hreceive

theorem Follows.exists_client {b : Str} (h : u.Follows p b t) : ∃ y, t.heap p = some y := by
  rcases h with ⟨y, hy, _⟩ | ⟨y, hy, _⟩
  · exact ⟨y, hy⟩
  · exact ⟨y, hy⟩

/-- The reads of one descriptor, chunk by chunk. -/
def reads (fd : Fd) (chunks : List Str) : List Event := chunks.map fun chunk => .read fd (.data chunk)

theorem admitsAll_reads (fd : Fd) {chunks : List Str} (hchunks : ∀ c ∈ chunks, IsChunk c) :
    s.AdmitsAll (reads fd chunks) := by
  induction chunks generalizing s with
  | nil => trivial
  | cons chunk chunks ih =>
    exact ⟨hchunks chunk List.mem_cons_self, ih fun c hc => hchunks c (List.mem_cons_of_mem _ hc)⟩

/-- Any number of chunks: the induction is on the chunks, `Follows` is its invariant. -/
theorem Follows.reads {b : Str} (h : u.Follows p b t) {fd : Fd}
    (hfd : t.clients.find? fd = some p) {chunks : List Str} (hchunks : ∀ c ∈ chunks, IsChunk c) :
    u.Follows p (b ++ chunks.flatten) (t.run (reads fd chunks)) := by
  induction chunks generalizing b t with
  | nil =>
    rw [List.flatten_nil, List.append_nil]
    exact h
  | cons chunk chunks ih =>
    obtain ⟨y, hy⟩ := h.exists_client
    have hone := h.handleClientRead hfd (hchunks chunk List.mem_cons_self)
    have hfd' : (t.handleClientRead fd (.data chunk)).clients.find? fd = some p := by
      rw [clients_handleClientRead hfd hy, hfd]
    have hrest := ih hone hfd' fun c hc => hchunks c (List.mem_cons_of_mem _ hc)
    rw [List.flatten_cons, ← List.append_assoc]
    exact hrest

/-- What has been handled is what whole lines come to. -/
theorem Follows.dispatched_eq {b : Str} (h : u.Follows p b t) :
    (t.client p).trace.dispatched = ((u.serve p (framed b)).client p).trace.dispatched := by
  rcases h with ⟨y, hy, _, _, hlike, _⟩ | ⟨y, hy, _, hlines⟩
  · exact hlike.dispatched p
  · have hnow := hlines []
    rw [List.append_nil] at hnow
    rw [client_of_heap hy, hnow]

/-- A client that goes on between two reads follows its buffer. -/
theorem follows_self (hx : s.heap p = some x) (live : x.stopped = false) (hsettled : x.Settled) :
    s.Follows p x.recvBuffer s := by
  refine Or.inl ⟨x, hx, live, hsettled, ?_, fun more => ?_⟩
  · rw [framed_of_not_mem hsettled.incomplete]
    exact .refl s
  · rw [framed_of_not_mem hsettled.incomplete, List.nil_append]

end Server

/-- In every run the lines a client has had handled are those of its stream, up to the first that
stopped it, and no chunk is too much for its buffer; and from every state of a run a stream is
handled as whole lines would be, so every two divisions of it come to the same. -/
theorem framing_independent_of_chunks (password : Str) (listenFd : Fd) {es : List Event}
    (hadm : (Server.start password listenFd).AdmitsAll es) :
    let s := (Server.start password listenFd).run es
    (∀ p x, s.heap p = some x →
      ((∀ e ∈ x.trace.dispatched, e.2 = false) ∧ x.lines = framed x.trace.received
        ∨ ∃ handled last, x.trace.dispatched = handled ++ [(last, true)]
          ∧ (∀ e ∈ handled, e.2 = false) ∧ x.lines <+: framed x.trace.received)
      ∧ (x.stopped = false → ∀ chunk, IsChunk chunk →
          ¬ (x.recvBuffer.length > maxRecvBuffer
            ∨ chunk.length > maxRecvBuffer - x.recvBuffer.length)))
    ∧ ∀ fd p x, s.clients.find? fd = some p → s.heap p = some x → x.stopped = false →
      ∀ chunks, (∀ c ∈ chunks, IsChunk c) →
        ((s.run (Server.reads fd chunks)).client p).trace.dispatched
            = ((s.serve p (framed (x.recvBuffer ++ chunks.flatten))).client p).trace.dispatched
          ∧ ∀ chunks', (∀ c ∈ chunks', IsChunk c) → chunks'.flatten = chunks.flatten →
            ((s.run (Server.reads fd chunks')).client p).trace.dispatched
              = ((s.run (Server.reads fd chunks)).client p).trace.dispatched := by
  intro s
  have hs := framed_run password listenFd hadm
  refine ⟨fun p x hx => ⟨(hs p x hx).conforms, fun live chunk hchunk hover => ?_⟩,
    fun fd p x hfd hx live chunks hchunks => ?_⟩
  · refine ((hs p x hx).settled live).not_overflow hchunk ?_
    rw [Bool.or_eq_true, decide_eq_true_eq, decide_eq_true_eq]
    exact hover
  have hserved : ∀ cs : List Str, (∀ c ∈ cs, IsChunk c) →
      ((s.run (Server.reads fd cs)).client p).trace.dispatched
        = ((s.serve p (framed (x.recvBuffer ++ cs.flatten))).client p).trace.dispatched :=
    fun cs hcs => ((Server.follows_self hx live ((hs p x hx).settled live)).reads hfd hcs).dispatched_eq
  refine ⟨hserved chunks hchunks, fun chunks' hchunks' hsame => ?_⟩
  rw [hserved chunks hchunks, hserved chunks' hchunks', hsame]

/-- A QUIT cut in the middle, with a line behind it. -/
theorem framing_independent_of_chunks_sample :
    (((sample.run (Server.reads 5 [lit "PI", lit "NG\r\nQU", lit "IT\r\nPING\r\n"])).client 1).trace.dispatched
        = ((sample.run (Server.reads 5 [lit "PING\r\nQUIT\r\nPING\r\n"])).client 1).trace.dispatched)
      ∧ framed (lit "PING\r\nQUIT\r\nPING\r\n") = [lit "PING", lit "QUIT", lit "PING"] := by
  have hbob : (sample.heap 1).map Client.stopped = some false := by decide +kernel
  obtain ⟨x, hx, live⟩ := Option.map_eq_some_iff.mp hbob
  have hadm : (Server.start (lit "pw") 3).AdmitsAll sampleEvents := by decide +kernel
  have hchunks := fun fd => ((framing_independent_of_chunks (lit "pw") 3 hadm).2 fd 1 x)
  rw [← sample] at hchunks
  refine ⟨(hchunks 5 (by decide +kernel) hx live [lit "PING\r\nQUIT\r\nPING\r\n"]
    (by decide +kernel)).2 _ (by decide +kernel) (by decide +kernel), by decide +kernel⟩

end FtIrc
