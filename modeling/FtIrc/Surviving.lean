import FtIrc.Framing

/-!
# One client over an event

An object that is there before an event and behind it has been there all the time: no event deletes
an object and allocates another at the same address. So the client has gone through a run on which it
survives, and whatever moves do to a client holds over events: one that is closing or dead stays as
it is.
-/

namespace FtIrc

open Bytes Relation

/-- What the kernel has taken stays taken. -/
theorem Client.Output.delivered {x y : Client} (h : x.Output y) :
    x.trace.delivered <+: y.trace.delivered := by
  have hfailed : ∀ (z : Client) (reason : Str),
      (z.socketError reason).trace.delivered = z.trace.delivered := by
    intro z reason
    rw [socketError, trace_markDead]
  cases h with
  | offered message =>
    have hsame : (x.sendMessage message).trace.delivered = x.trace.delivered := by
      unfold sendMessage
      dsimp only
      split_ifs
      · rfl
      · rfl
      · rw [trace_markDead]
      · rfl
    rw [hsame]
  | @written result hcan =>
    unfold write
    split_ifs
    · exact List.prefix_rfl
    · exact List.prefix_rfl
    cases result with
    | retry => exact List.prefix_rfl
    | error text =>
      dsimp only
      rw [hfailed]
    | sent n =>
      dsimp only
      split_ifs
      · rw [hfailed]
      · rw [consumeSendBuffer_eq hcan]
        exact List.prefix_append ..
  | failed => rw [hfailed]
  | closed => rw [trace_markClosing]
  | killed => rw [trace_markDead]
  | elsewhere h => rw [h.delivered]

theorem Client.Outputs.delivered {x y : Client} (h : x.Outputs y) :
    x.trace.delivered <+: y.trace.delivered :=
  ReflTransGen.preserves (P := fun z => x.trace.delivered <+: z.trace.delivered) h
    (fun _ _ hstep hx => hx.trans hstep.delivered) List.prefix_rfl

/-- The output side of a client over a move. -/
theorem Move.outputs {s s' : Server} (h : Move s s') {p : Ptr} {x x' : Client}
    (hx : s.heap p = some x) (hx' : s'.heap p = some x') : x.Outputs x' := by
  have hclosed : Closed s s' fun q y => ∀ z, s.heap q = some z → z.Outputs y := by
    constructor
    · intro q fd ip hq z hz
      cases hq.symm.trans hz
    · intro q y y' hy hio z hz
      obtain rfl := Option.some_inj.mp (hz.symm.trans hy)
      exact hio.outputs
    · intro q y y' line hy _ hextract z hz
      obtain rfl := Option.some_inj.mp (hz.symm.trans hy)
      exact Client.outputs_extractLine hextract
    · intro q y text _ hy z hz
      exact (hy z hz).tail (.offered y text)
    · intro q y y₁ y₂ line hy _ hextract _ hown z hz
      obtain rfl := Option.some_inj.mp (hz.symm.trans hy)
      exact (Client.outputs_extractLine hextract).trans hown.outputs
    · intro q y y₁ y₂ line _ _ _ _ hy z hz
      exact (hy z hz).tail (.elsewhere ⟨rfl, rfl, rfl, rfl, rfl, rfl⟩)
  refine h.forall_clients (fun q y hy z hz => ?_) hclosed p x' hx' x hx
  rw [Option.some_inj.mp (hz.symm.trans hy)]

/-- What a client does to itself adds to what it has been offered. -/
theorem OwnUpdate.offered {c : Ptr} {m : Message} {s : Server} {x x' : Client}
    (h : OwnUpdate c m s x x') : x.trace.offered <+: x'.trace.offered := by
  have hsent : ∀ (y : Client) (text : Str), y.trace.offered <+: (y.sendMessage text).trace.offered := by
    intro y text
    rw [y.offered_sendMessage]
    exact List.prefix_append ..
  cases h with
  | authenticate => exact List.prefix_rfl
  | failPass =>
    have hcounted : x.recordFailedPassAttempt.trace = x.trace := by
      unfold Client.recordFailedPassAttempt
      split_ifs <;> rfl
    unfold Client.failPass
    dsimp only
    rw [← hcounted]
    split_ifs
    · rw [Client.trace_markClosing]
      exact hsent ..
    · exact hsent ..
  | takeNickname =>
    unfold Client.takeNickname
    dsimp only
    split_ifs
    · exact hsent { x with nickname := _, nickSet := true } _
    · exact List.prefix_rfl
  | takeUsername =>
    unfold Client.takeUsername
    dsimp only
    split_ifs
    · exact hsent { x with username := _, userSet := true } _
    · exact List.prefix_rfl
  | quit => rw [Client.trace_markClosing]

/-- So does a move. -/
theorem Move.offered {s s' : Server} (h : Move s s') {p : Ptr} {x x' : Client}
    (hx : s.heap p = some x) (hx' : s'.heap p = some x') : x.trace.offered <+: x'.trace.offered := by
  have hclosed : Closed s s' fun q y => ∀ z, s.heap q = some z → z.trace.offered <+: y.trace.offered := by
    constructor
    · intro q fd ip hq z hz
      cases hq.symm.trans hz
    · intro q y y' hy hio z hz
      obtain rfl := Option.some_inj.mp (hz.symm.trans hy)
      rw [hio.offered_eq]
    · intro q y y' line hy _ hextract z hz
      obtain rfl := Option.some_inj.mp (hz.symm.trans hy)
      rw [Client.extractLine_trace hextract]
    · intro q y text _ hy z hz
      rw [y.offered_sendMessage]
      exact (hy z hz).trans (List.prefix_append ..)
    · intro q y y₁ y₂ line hy _ hextract _ hown z hz
      obtain rfl := Option.some_inj.mp (hz.symm.trans hy)
      rw [← Client.extractLine_trace hextract]
      exact hown.offered
    · intro q y y₁ y₂ line _ _ _ _ hy z hz
      exact hy z hz
  refine h.forall_clients (fun q y hy z hz => ?_) hclosed p x' hx' x hx
  rw [Option.some_inj.mp (hz.symm.trans hy)]

theorem Survives.outputs {s t : Server} {p : Ptr} (h : Survives p s t) {x : Client}
    (hx : s.heap p = some x) : ∃ y, t.heap p = some y ∧ x.Outputs y := by
  induction h with
  | refl => exact ⟨x, hx, .refl⟩
  | tail _ hstep ih =>
    obtain ⟨y, hy, hxy⟩ := ih
    obtain ⟨z, hz⟩ := Option.isSome_iff_exists.mp hstep.2
    exact ⟨z, hz, hxy.trans (hstep.1.outputs hy hz)⟩

/-! ## What an event consists of -/

section

variable {s t : Server} {p : Ptr}

/-- A quiet move deletes nobody. -/
theorem QuietMoves.survives (h : QuietMoves s t) (hp : (s.heap p).isSome) :
    Survives p s t ∧ (t.heap p).isSome := by
  induction h with
  | refl => exact ⟨.refl, hp⟩
  | tail _ hquiet ih =>
    obtain ⟨hpath, hsome⟩ := ih
    obtain ⟨y, hy⟩ := Option.isSome_iff_exists.mp hsome
    obtain ⟨z, hz, _⟩ := hquiet.dispatched p y hy
    have hsome' := Option.isSome_iff_exists.mpr ⟨z, hz⟩
    exact ⟨hpath.tail ⟨hquiet.move, hsome'⟩, hsome'⟩

namespace Server

theorem isSome_heap_readLine {q : Ptr} {x : Client} (hx : s.heap q = some x) (p : Ptr) :
    ((s.readLine q).1.heap p).isSome = (s.heap p).isSome := by
  unfold readLine
  rw [client_of_heap hx]
  split
  · exact isSome_heap_modify ..
  · next x' line _ =>
    rw [(SameConnections.handleLine (heap_extracted hx x') line).isSome_heap, isSome_heap_modify]

theorem survives_readLines {q : Ptr} {x : Client} (hx : s.heap q = some x) (live : x.stopped = false)
    (hp : (s.heap p).isSome) (fuel : ℕ) : Survives p s (readLines fuel s q) := by
  induction fuel generalizing s x with
  | zero => exact .refl
  | succ fuel ih =>
    have hsome : ((s.readLine q).1.heap p).isSome := by rwa [isSome_heap_readLine hx]
    have hone : Survives p s (s.readLine q).1 := by
      have hmove : Move s (s.readLine q).1 := by
        unfold readLine
        rw [client_of_heap hx]
        split
        · next x' hextract => exact .io hx (.rejected live hextract)
        · next x' line hextract => exact .line hx live hextract
      exact .single ⟨hmove, hsome⟩
    rw [readLines]
    dsimp only
    split_ifs with hgo
    · obtain ⟨y, hy⟩ := Reachable.exists_readLine hx
      have hlive := Reachable.stopped_readLine hgo
      rw [client_of_heap hy] at hlive
      exact hone.trans (ih hy hlive hsome)
    · exact hone

theorem survives_handleClientRead (h : Reachable s) {fd : Fd} {result : RecvResult}
    (hadm : s.Admits (.read fd result)) (hp : (s.heap p).isSome) :
    Survives p s (s.handleClientRead fd result) := by
  unfold handleClientRead
  split
  · exact .refl
  next q hq =>
  obtain ⟨x, hx, _⟩ := h.exists_client hq
  rw [client_of_heap hx]
  split_ifs with hstopped
  · exact .refl
  have live : x.stopped = false := Bool.eq_false_iff.mpr hstopped
  cases result with
  | eof => exact ((Reachable.quiet_modify hx (.eof live)).survives hp).1
  | retry => exact .refl
  | error text => exact ((Reachable.quiet_modify hx (.failed _)).survives hp).1
  | data bytes =>
    obtain ⟨hquiet, y, hy, hgo⟩ := Reachable.quiet_receive hx live hadm
    obtain ⟨hreceived, hsome⟩ := hquiet.survives hp
    dsimp only
    split_ifs with happended
    · exact hreceived.trans (survives_readLines hy (hgo happended) hsome _)
    · exact hreceived

/-- Disconnects allocate nothing, so who is there behind them was there in between. -/
theorem survives_disconnectAll (h : Reachable s) {fds : List Fd}
    (hdead : ∀ fd ∈ fds, ∀ q, s.clients.find? fd = some q → (s.client q).dead = true)
    (hp : ((fds.foldl disconnectClient s).heap p).isSome) :
    Survives p s (fds.foldl disconnectClient s) := by
  induction fds generalizing s with
  | nil => exact .refl
  | cons fd fds ih =>
    rw [List.foldl_cons] at hp ⊢
    have hsome : ((s.disconnectClient fd).heap p).isSome := by
      obtain ⟨y, hy⟩ := Option.isSome_iff_exists.mp hp
      obtain ⟨x, hx, _⟩ := sameInputs_foldl (c := none) (fun s fd => sameInputs_disconnectClient fd) fds
        p y hy (Option.some_ne_none p)
      exact Option.isSome_iff_exists.mpr ⟨x, hx⟩
    have hone : Survives p s (s.disconnectClient fd) := by
      cases hfd : s.clients.find? fd with
      | none =>
        rw [disconnectClient, hfd]
      | some q =>
        obtain ⟨x, hx, _⟩ := h.exists_client hfd
        have hxdead := hdead fd List.mem_cons_self q hfd
        rw [client_of_heap hx] at hxdead
        exact .single ⟨.disconnect hfd hx hxdead, hsome⟩
    refine hone.trans (ih (h.moves (Survives.moves hone)) (fun fd' hfd' q hq => ?_) hp)
    exact h.dead_disconnectClient hq (hdead fd' (List.mem_cons_of_mem fd hfd'))

end Server

/-- A client that is there before and behind an event survives it. -/
theorem Reachable.survives_step (h : Reachable s) {e : Event} (hadm : s.Admits e)
    (hp : (s.heap p).isSome) (hp' : ((s.step e).heap p).isSome) : Survives p s (s.step e) := by
  cases e with
  | accept result => exact ((quiet_acceptNewClient hadm).survives hp).1
  | read fd result => exact Server.survives_handleClientRead h hadm hp
  | write fd result => exact ((h.quiet_handleClientWrite hadm).survives hp).1
  | pollError fd => exact ((h.quiet_handlePollError fd).survives hp).1
  | reap =>
    have hquiet := h.quiet_retireAll s.clients.keys
    exact (hquiet.survives hp).1.trans (Server.survives_disconnectAll (h.moves hquiet.moves)
      (fun _ hfd _ => dead_of_mem_reaped hfd) hp')
  | refresh =>
    obtain ⟨s', hs'⟩ := h.integrity.refreshPollEvents_ok
    rw [Server.step, hs']
    exact (QuietMoves.survives (.single (quiet_poll hs')) hp).1

/-- A run of one event has two states. -/
theorem Server.isSome_heap_run_singleton {e : Event} (hp : (s.heap p).isSome = true)
    (hp' : ((s.run [e]).heap p).isSome = true) (front back : List Event) (hsplit : [e] = front ++ back) :
    ((s.run front).heap p).isSome = true := by
  cases front with
  | nil => exact hp
  | cons e' front =>
    obtain ⟨rfl, hrest⟩ := List.cons.inj hsplit
    obtain ⟨rfl, -⟩ := List.append_eq_nil_iff.mp hrest.symm
    exact hp'

/-- A client that is there behind every event of a run survives it. -/
theorem Reachable.survives_run (h : Reachable s) {es : List Event} (hadm : s.AdmitsAll es)
    (hp : ∀ front back, es = front ++ back → ((s.run front).heap p).isSome) :
    Survives p s (s.run es) := by
  induction es generalizing s with
  | nil => exact .refl
  | cons e es ih =>
    have hone : Survives p s (s.step e) := h.survives_step hadm.1 (hp [] _ rfl) (hp [e] es rfl)
    refine hone.trans (ih (h.moves (Survives.moves hone)) hadm.2 fun front back hsplit => ?_)
    exact hp (e :: front) back (congrArg (e :: ·) hsplit)

end

/-! ## Stopping is final -/

/-- Once a client is closing or dead, and until it is deleted, it keeps its identity, its reason
and the lines it has had handled, nothing is added to its output, and none of its lines is
handled; the same holds over the events of a run, and within a line from one effect to the next. On
no connection do more than three comparisons with the password fail, and no line follows the third
failure. -/
theorem stopping_is_final {s : Server} (h : Reachable s) :
    (∀ p x, s.heap p = some x → x.stopped = true → ∀ t, Survives p s t →
      (∃ y, t.heap p = some y ∧ x.Frozen y) ∧ ∀ line t', ¬ LineOf p line t t')
    ∧ (∀ p x, s.heap p = some x → x.stopped = true → ∀ es, s.AdmitsAll es →
        (∀ front back, es = front ++ back → ((s.run front).heap p).isSome) →
        ∃ y, (s.run es).heap p = some y ∧ x.Frozen y)
    ∧ (∀ c x x' line, s.heap c = some x → x.stopped = false → x.extractLine = (x', some line) →
        ∀ t t', Effects c (Parser.parse line) (s.modify c fun _ => x') t →
          Effect c (Parser.parse line) (s.modify c fun _ => x') t t' →
          ∀ p y, t.heap p = some y → y.stopped = true → ∃ z, t'.heap p = some z ∧ y.Frozen z)
    ∧ ∀ p x, s.heap p = some x → (comparisons s.password x.lines).2 ≤ 3
        ∧ ∀ l₁ l₂, x.lines = l₁ ++ l₂ → (comparisons s.password l₁).2 = 3 → l₂ = [] := by
  refine ⟨fun p x hx hstopped t hrun => ?_, fun p x hx hstopped es hadm hthere => ?_,
    fun c x x' line hx live hextract t t' _ heff p y hy hs => ?_, fun p x hx => ?_⟩
  · obtain ⟨y, hy, hfrozen⟩ := hrun.frozen h hx hstopped
    refine ⟨⟨y, hy, hfrozen⟩, fun line t' hline => ?_⟩
    obtain ⟨z, _, hz, live, _⟩ := hline
    rw [Option.some_inj.mp (hz.symm.trans hy), hfrozen.stopped] at live
    cases live
  · exact (h.survives_run hadm hthere).frozen h hx hstopped
  · have hlive : ((s.modify c fun _ => x').client c).stopped = false := by
      rw [Server.client_modify_self _ hx]
      exact Client.stopped_of_extractLine live hextract
    exact heff.frozen hlive hy hs
  · have haccount := h.accounted p x hx
    refine ⟨?_, haccount.last⟩
    rw [haccount.comparisons_eq]
    exact (h.limited p x hx).attempts_le

/-- Bob goes on sending. -/
def lateJoin : Server := quitting.run [.read 5 (.data (lit "JOIN #e\r\n"))]

/-- The JOIN stays in the buffer, also after some of the output has been sent, and what is sent behind
it is not read. -/
theorem stopping_is_final_sample :
    (quitting.heap 1).map (fun x => (x.closing, x.dead, x.recvBuffer))
        = some (true, false, lit "JOIN #d\r\n")
      ∧ ∀ x, quitting.heap 1 = some x →
        (∀ line t', ¬ LineOf 1 line (quitting.modify 1 fun _ => x.consumeSendBuffer 5) t')
        ∧ (∃ y, lateJoin.heap 1 = some y ∧ x.Frozen y)
        ∧ (comparisons quitting.password x.lines).2 ≤ 3 := by
  obtain ⟨hbob, hpending, hadm, hthere⟩ :
      (quitting.heap 1).map (fun x => (x.closing, x.dead, x.recvBuffer))
        = some (true, false, lit "JOIN #d\r\n")
      ∧ (quitting.heap 1).map (fun x => decide (5 ≤ x.sendBuffer.length)) = some true
      ∧ quitting.AdmitsAll [.read 5 (.data (lit "JOIN #e\r\n"))] ∧ (lateJoin.heap 1).isSome = true := by
    decide +kernel
  refine ⟨hbob, fun x hx => ?_⟩
  rw [hx, Option.map_some, Option.some_inj] at hbob hpending
  have hclosing : x.closing = true := congrArg Prod.fst hbob
  have hdead : x.dead = false := congrArg (fun e => e.2.1) hbob
  have hstopped : x.stopped = true := by
    rw [Client.stopped, hclosing, Bool.or_true]
  have hmove : Move quitting (quitting.modify 1 fun _ => x.consumeSendBuffer 5) :=
    .io hx (.sent hdead (of_decide_eq_true hpending))
  obtain ⟨hmoves, hevents, -, hcount⟩ := stopping_is_final reachable_quitting
  refine ⟨(hmoves 1 x hx hstopped _ (.single ⟨hmove, ?_⟩)).2, ?_, (hcount 1 x hx).1⟩
  · rw [Server.isSome_heap_modify, hx]
    rfl
  · rw [lateJoin] at hthere ⊢
    exact hevents 1 x hx hstopped _ hadm
      (Server.isSome_heap_run_singleton (by rw [hx, Option.isSome_some]) hthere)

end FtIrc
