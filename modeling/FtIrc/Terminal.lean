import FtIrc.Registration

/-!
# Stopped clients

A client that is closing or dead takes no further part: `Frozen` lists what stays of it, and
every move keeps it, whoever marked the client and while whatever was going on. The limit on
wrong passwords is a consequence. The comparisons of a connection are counted from its lines,
and the third failure stops it.
-/

namespace FtIrc

open Bytes Relation

namespace Client

/-- What stays of a client once it is closing or dead. -/
structure Frozen (x y : Client) : Prop where
  stopped : y.stopped = true
  identity : y.identity = x.identity
  deadReason : y.deadReason = x.deadReason
  dispatched : y.trace.dispatched = x.trace.dispatched
  accepted : y.trace.accepted = x.trace.accepted
  sendBuffer : y.sendBuffer <:+ x.sendBuffer

theorem Frozen.refl {x : Client} (h : x.stopped = true) : x.Frozen x :=
  ⟨h, rfl, rfl, rfl, rfl, List.suffix_rfl⟩

theorem Frozen.trans {x y z : Client} (hxy : x.Frozen y) (hyz : y.Frozen z) : x.Frozen z where
  stopped := hyz.stopped
  identity := hyz.identity.trans hxy.identity
  deadReason := hyz.deadReason.trans hxy.deadReason
  dispatched := hyz.dispatched.trans hxy.dispatched
  accepted := hyz.accepted.trans hxy.accepted
  sendBuffer := hyz.sendBuffer.trans hxy.sendBuffer

/-- What is sent to a stopped client is only offered. -/
theorem sendMessage_of_stopped {x : Client} (h : x.stopped = true) (text : Str) :
    x.sendMessage text = { x with trace.offered := x.trace.offered ++ [text] } := if_pos h

theorem Frozen.sendMessage {x y : Client} (h : x.Frozen y) (text : Str) :
    x.Frozen (y.sendMessage text) := by
  rw [sendMessage_of_stopped h.stopped]
  exact ⟨h.stopped, h.identity, h.deadReason, h.dispatched, h.accepted, h.sendBuffer⟩

/-- A client that is closing has a reason, so that dying does not give it another. -/
def Explained (x : Client) : Prop := x.closing = true → x.deadReason ≠ []

theorem frozen_markDead {x : Client} (h : x.stopped = true) (hx : x.Explained) (reason : Str) :
    x.Frozen (x.markDead reason) := by
  unfold markDead
  split_ifs with hdead hreason
  · exact .refl h
  · -- not dead and without a reason: the client is not closing either
    have hclosing : x.closing = true := by
      rw [stopped, Bool.eq_false_iff.mpr hdead] at h
      exact h
    exact absurd (List.isEmpty_iff.mp hreason) (hx hclosing)
  · exact ⟨rfl, rfl, rfl, rfl, rfl, List.suffix_rfl⟩

/-- The socket of a stopped client may still take its output, fail, or be found flushed. -/
theorem Io.frozen {x x' : Client} (h : x.Io x') (hstopped : x.stopped = true)
    (hx : x.Explained) : x.Frozen x' := by
  have hlive : ∀ {P : Prop}, x.stopped = false → P := by
    intro P hfalse
    exact absurd (hstopped.symm.trans hfalse) (by decide)
  cases h with
  | received live => exact hlive live
  | flooded live => exact hlive live
  | rejected live => exact hlive live
  | eof live => exact hlive live
  | failed reason =>
    have hmarked : Frozen { x with trace.socketFailed := true } (x.socketError reason) :=
      frozen_markDead (x := { x with trace.socketFailed := true }) hstopped hx reason
    exact ⟨hmarked.stopped, hmarked.identity, hmarked.deadReason, hmarked.dispatched,
      hmarked.accepted, hmarked.sendBuffer⟩
  | sent _ hn =>
    rw [consumeSendBuffer, if_neg (by omega)]
    exact ⟨hstopped, rfl, rfl, rfl, rfl, List.drop_suffix ..⟩
  | retired => exact frozen_markDead hstopped hx _

/-- A line is taken out of the buffer of a client that goes on. -/
theorem stopped_of_extractLine {x x' : Client} {line : Str} (live : x.stopped = false)
    (h : x.extractLine = (x', some line)) : x'.stopped = false := by
  unfold extractLine at h
  dsimp only at h
  split at h
  · cases h
  · split_ifs at h
    · cases h
    · cases h
    · rw [← (Prod.mk.inj h).1]
      exact live

end Client

/-! ## Reasons -/

namespace Client

theorem Explained.markDead {x : Client} (hx : x.Explained) (reason : Str) :
    (x.markDead reason).Explained := by
  intro hclosing
  unfold Client.markDead at hclosing ⊢
  split_ifs at hclosing ⊢ with hdead hreason
  · exact hx hclosing
  · exact absurd (List.isEmpty_iff.mp hreason) (hx hclosing)
  · exact hx hclosing

theorem Explained.markClosing {x : Client} (hx : x.Explained) {reason : Str} (hreason : reason ≠ []) :
    (x.markClosing reason).Explained := by
  intro hclosing
  unfold Client.markClosing at hclosing ⊢
  split_ifs at hclosing ⊢
  · exact hx hclosing
  · exact hreason

theorem Explained.sendMessage {x : Client} (hx : x.Explained) (text : Str) :
    (x.sendMessage text).Explained := by
  have hoffered : Explained { x with trace.offered := x.trace.offered ++ [text] } := hx
  unfold Client.sendMessage
  dsimp only
  split_ifs
  · exact hx
  · exact hx
  · exact hoffered.markDead _
  · exact hx

theorem Explained.extractLine {x : Client} (hx : x.Explained) : x.extractLine.1.Explained := by
  have hcut : ∀ after, Explained { x with recvBuffer := after } := fun _ => hx
  unfold Client.extractLine
  dsimp only
  split
  · exact hx
  · split_ifs
    · exact (hcut _).markDead _
    · exact (hcut _).markDead _
    · exact hcut _

theorem Io.explained {x x' : Client} (h : x.Io x') (hx : x.Explained) : x'.Explained := by
  have happend : ∀ bytes, (x.appendToRecvBuffer bytes).1.Explained := by
    intro bytes
    unfold appendToRecvBuffer
    dsimp only
    split_ifs <;> exact hx
  cases h with
  | received => exact happend _
  | flooded => exact (happend _).markDead _
  | rejected _ h =>
    have hextracted := hx.extractLine
    rwa [h] at hextracted
  | eof => exact hx.markClosing (by decide)
  | failed reason => exact Explained.markDead (x := { x with trace.socketFailed := true }) hx reason
  | sent =>
    unfold consumeSendBuffer
    split_ifs
    · exact hx.markDead _
    · exact hx
  | retired => exact hx.markDead _

end Client

theorem OwnUpdate.explained {c : Ptr} {m : Message} {s : Server} {x x' : Client}
    (h : OwnUpdate c m s x x') (hx : x.Explained) : x'.Explained := by
  cases h with
  | authenticate => exact hx
  | failPass =>
    have hcounted : x.recordFailedPassAttempt.Explained := by
      unfold Client.recordFailedPassAttempt
      split_ifs <;> exact hx
    unfold Client.failPass
    dsimp only
    split_ifs
    · exact (hcounted.sendMessage _).markClosing (by decide)
    · exact hcounted.sendMessage _
  | @takeNickname n =>
    have hset : Client.Explained { x with nickname := n, nickSet := true } := hx
    unfold Client.takeNickname
    dsimp only
    split_ifs
    · exact hset.sendMessage _
    · exact hset
  | @takeUsername u =>
    have hset : Client.Explained { x with username := u, userSet := true } := hx
    unfold Client.takeUsername
    dsimp only
    split_ifs
    · exact hset.sendMessage _
    · exact hset
  | quit reason => exact hx.markClosing (List.append_ne_nil_of_left_ne_nil (by decide) _)

theorem Reachable.explained {s : Server} (h : Reachable s) :
    ∀ p x, s.heap p = some x → x.Explained := by
  apply h.forall_clients (Q := Client.Explained)
  intro s s' _ hs
  have hextracted : ∀ {x x' : Client} {line : Option Str}, x.Explained →
      x.extractLine = (x', line) → x'.Explained := by
    intro x x' line hx h
    have hx' := hx.extractLine
    rwa [h] at hx'
  constructor
  · intro _ _ _ _ hclosing
    cases hclosing
  · intro p x x' hx h
    exact h.explained (hs p x hx)
  · intro p x x' line hx _ h
    exact hextracted (hs p x hx) h
  · intro p x text _ hx
    exact hx.sendMessage text
  · intro p x x₁ x₂ line hx _ h _ hupdate
    exact hupdate.explained (hextracted (hs p x hx) h)
  · intro p x x₁ y line _ _ _ _ hy
    exact hy

/-! ## Over a run -/

/-- No move touches a client that has stopped, beyond its socket. -/
theorem Move.frozen {s s' : Server} (hreach : Reachable s) (h : Move s s') {p : Ptr}
    {x x' : Client} (hx : s.heap p = some x) (hx' : s'.heap p = some x')
    (hstopped : x.stopped = true) : x.Frozen x' := by
  have hlive : ∀ {q y z} {P : Prop}, s.heap q = some y → y.stopped = false →
      s.heap q = some z → z.stopped = true → P := by
    intro q y z P hy hfalse hz htrue
    rw [Option.some_inj.mp (hz.symm.trans hy), hfalse] at htrue
    cases htrue
  have hclosed : Closed s s' fun q y => ∀ z, s.heap q = some z → z.stopped = true →
      z.Frozen y := by
    constructor
    · intro q fd ip hq z hz
      cases hq.symm.trans hz
    · intro q y y' hy hio z hz hs
      obtain rfl := Option.some_inj.mp (hz.symm.trans hy)
      exact hio.frozen hs (hreach.explained q z hz)
    · intro q y y' line hy live _ z hz hs
      exact hlive hy live hz hs
    · intro q y text _ hy z hz hs
      exact (hy z hz hs).sendMessage text
    · intro q y y₁ y₂ line hy live _ _ _ z hz hs
      exact hlive hy live hz hs
    · intro q y y₁ y₂ line hy live _ _ _ z hz hs
      exact hlive hy live hz hs
  refine h.forall_clients (fun q y hy z hz hs => ?_) hclosed p x' hx' x hx hstopped
  rw [Option.some_inj.mp (hz.symm.trans hy)]
  rw [Option.some_inj.mp (hz.symm.trans hy)] at hs
  exact .refl hs

/-- A run on which the object of a client is not deleted. -/
abbrev Survives (p : Ptr) : Server → Server → Prop :=
  ReflTransGen fun s s' => Move s s' ∧ (s'.heap p).isSome

theorem Survives.moves {s t : Server} {p : Ptr} (h : Survives p s t) : Moves s t :=
  ReflTransGen.mono (fun _ _ hstep => hstep.1) s t h

/-- A client that has stopped stays as it is until it is deleted. -/
theorem Survives.frozen {s t : Server} {p : Ptr} (h : Survives p s t) (hreach : Reachable s)
    {x : Client} (hx : s.heap p = some x) (hstopped : x.stopped = true) :
    ∃ y, t.heap p = some y ∧ x.Frozen y := by
  induction h with
  | refl => exact ⟨x, hx, .refl hstopped⟩
  | @tail u v hpath hstep ih =>
    obtain ⟨y, hy, hxy⟩ := ih
    obtain ⟨z, hz⟩ := Option.isSome_iff_exists.mp hstep.2
    have hu : Reachable u := hreach.moves (Survives.moves hpath)
    exact ⟨z, hz, hxy.trans (hstep.1.frozen hu hy hz hxy.stopped)⟩

/-- Within a line the clients that stop are left alone from there on. -/
theorem Effect.frozen {c : Ptr} {m : Message} {s₀ s s' : Server} (h : Effect c m s₀ s s')
    (live : (s₀.client c).stopped = false) {p : Ptr} {x : Client} (hx : s.heap p = some x)
    (hstopped : x.stopped = true) : ∃ y, s'.heap p = some y ∧ x.Frozen y := by
  have hsame := Client.Frozen.refl hstopped
  have hsent : ∀ q text, ∃ y, (s.sendMessage q text).heap p = some y ∧ x.Frozen y := by
    intro q text
    rw [Server.sendMessage, Server.heap_modify]
    split_ifs with hq
    · exact ⟨x.sendMessage text, by rw [← hq, hx]; rfl, hsame.sendMessage text⟩
    · exact ⟨x, hx, hsame⟩
  cases h with
  | reply => exact hsent c _
  | relay q => exact hsent q _
  | own hc =>
    have hpc : p ≠ c := by
      rintro rfl
      rw [Server.client_of_heap hx, hstopped] at live
      cases live
    exact ⟨x, by rw [Server.heap_modify_ne _ _ hpc, hx], hsame⟩
  | found => exact ⟨x, hx, hsame⟩
  | change => exact ⟨x, hx, hsame⟩
  | part => exact ⟨x, hx, hsame⟩
  | dissolve => exact ⟨x, hx, hsame⟩

/-! ## The comparisons with the password -/

/-- What a line does to the outcome of the comparisons so far: whether one has succeeded, and
how many have failed. PASS compares its first parameter unless the client has passed or the
parameter is empty. -/
def comparePass (password : Str) (outcome : Bool × ℕ) (line : Str) : Bool × ℕ :=
  let message := Parser.parse line
  if message.handler = some .pass ∧ outcome.1 = false ∧ message.params.headD [] ≠ [] then
    if message.params.headD [] = password then (true, outcome.2) else (outcome.1, outcome.2 + 1)
  else outcome

/-- The outcome of the comparisons of a sequence of lines. -/
def comparisons (password : Str) (lines : List Str) : Bool × ℕ :=
  lines.foldl (comparePass password) (false, 0)

theorem le_comparePass (password : Str) (outcome : Bool × ℕ) (line : Str) :
    outcome.2 ≤ (comparePass password outcome line).2 := by
  unfold comparePass
  dsimp only
  split_ifs
  · exact le_rfl
  · exact Nat.le_succ _
  · exact le_rfl

/-- More lines have no fewer failures. -/
theorem comparisons_append_le (password : Str) (l₁ l₂ : List Str) :
    (comparisons password l₁).2 ≤ (comparisons password (l₁ ++ l₂)).2 := by
  rw [comparisons, comparisons, List.foldl_append]
  generalize l₁.foldl (comparePass password) (false, 0) = outcome
  induction l₂ generalizing outcome with
  | nil => exact le_rfl
  | cons line l₂ ih => exact (le_comparePass password outcome line).trans (ih _)

namespace Client

/-- The lines of a client that have been handled. -/
def lines (x : Client) : List Str := x.trace.dispatched.map Prod.fst

/-- The outcome of the comparisons as the client remembers it. -/
def outcome (x : Client) : Bool × ℕ := (x.passOk, x.failedPassAttempts)

theorem outcome_of_identity {x y : Client} (h : y.identity = x.identity) :
    y.outcome = x.outcome :=
  congrArg (fun i => (Identity.passOk i, Identity.failedPassAttempts i)) h

end Client

theorem OwnUpdate.outcome_eq {c : Ptr} {m : Message} {s : Server} {x x' : Client}
    (h : OwnUpdate c m s x x') (hm : m.handler ≠ some .pass) : x'.outcome = x.outcome := by
  have houtcome : ∀ {i : Client.Identity}, x'.identity = i → i.passOk = x.passOk →
      i.failedPassAttempts = x.failedPassAttempts → x'.outcome = x.outcome := by
    intro i hi hpass hfailed
    have hpass' : x'.passOk = i.passOk := congrArg Client.Identity.passOk hi
    have hfailed' : x'.failedPassAttempts = i.failedPassAttempts :=
      congrArg Client.Identity.failedPassAttempts hi
    rw [Client.outcome, hpass', hfailed', hpass, hfailed]
    rfl
  cases h with
  | authenticate h => exact absurd h hm
  | failPass h => exact absurd h hm
  | takeNickname => exact houtcome (x.identity_takeNickname _) rfl rfl
  | takeUsername => exact houtcome (x.identity_takeUsername _) rfl rfl
  | quit => exact houtcome (x.identity_markClosing _) rfl rfl

/-- A line compares no password but that of its own client, in PASS. -/
theorem Effects.outcome_eq {c : Ptr} {m : Message} {s₀ s : Server} (h : Effects c m s₀ s)
    {p : Ptr} (hp : p = c → m.handler ≠ some .pass) :
    (s.heap p).map Client.outcome = (s₀.heap p).map Client.outcome :=
  h.map_heap (fun x text => Client.outcome_of_identity (x.identity_sendMessage text))
    fun hpc _ _ hown => hown.outcome_eq (hp hpc)

/-- A PASS line gets to its handler whatever the client has done before. -/
theorem Server.processMessage_pass {s : Server} {c : Ptr} {m : Message}
    (hm : m.handler = some .pass) : s.processMessage c m = PassCommand.execute s c m.params := by
  obtain ⟨h1, h2, h3, h4⟩ := Message.command_ne_of_handler hm
  have hm' : commands.lookup m.command = some .pass := hm
  unfold processMessage
  dsimp only
  rw [if_neg h1, if_neg h2, if_neg h3, if_neg h4, hm']
  dsimp only
  rw [if_neg (fun h => h.1 rfl), if_neg (fun h => h.1 rfl)]
  rfl

/-- A line does to its client's comparisons what `comparePass` says. -/
theorem Server.outcome_processLine {s : Server} {c : Ptr} {x : Client} (hx : s.heap c = some x)
    (hlimit : x.failedPassAttempts < PassCommand.maxFailedPassAttempts) (line : Str) :
    ((s.processLine c line).heap c).map Client.outcome
      = some (comparePass s.password x.outcome line) := by
  have hsent : ∀ text, ((s.sendMessage c text).heap c).map Client.outcome = some x.outcome := by
    intro text
    rw [sendMessage, heap_modify_self, hx]
    exact congrArg some (Client.outcome_of_identity (x.identity_sendMessage text))
  unfold processLine comparePass
  dsimp only
  by_cases hm : (Parser.parse line).handler = some .pass
  swap
  · rw [if_neg (fun h => hm h.1), (processMessage_effects hx _).outcome_eq fun _ => hm, hx]
    rfl
  rw [processMessage_pass hm, PassCommand.execute, client_of_heap hx]
  dsimp only
  by_cases hok : x.passOk = true
  · rw [if_pos hok, if_neg (fun h => absurd (hok.symm.trans h.2.1) (by decide))]
    exact hsent _
  by_cases hempty : (Parser.parse line).params.headD [] = []
  · rw [if_neg hok, if_pos hempty, if_neg (fun h => h.2.2 hempty)]
    exact hsent _
  have hcompares : (Parser.parse line).handler = some .pass ∧ x.outcome.1 = false
      ∧ (Parser.parse line).params.headD [] ≠ [] := ⟨hm, Bool.eq_false_iff.mpr hok, hempty⟩
  rw [if_neg hok, if_neg hempty, if_pos hcompares]
  by_cases hpassword : (Parser.parse line).params.headD [] = s.password
  · rw [if_pos hpassword, if_pos hpassword, heap_modify_self, hx]
    rfl
  rw [if_neg hpassword, if_neg hpassword, PassCommand.wrong_eq hx rfl, heap_modify_self, hx]
  have hidentity := x.identity_failPass
  rw [Client.recordFailedPassAttempt, if_pos] at hidentity
  · exact congrArg some (Client.outcome_of_identity (x := { x with
      failedPassAttempts := x.failedPassAttempts + 1 }) hidentity)
  · simp only [PassCommand.maxFailedPassAttempts] at hlimit
    omega

/-! ## At most three failures -/

namespace Client

/-- At most three comparisons have failed, and the third has stopped the client. -/
structure Limited (x : Client) : Prop where
  attempts_le : x.failedPassAttempts ≤ PassCommand.maxFailedPassAttempts
  stopped_of_attempts : x.failedPassAttempts = PassCommand.maxFailedPassAttempts → x.stopped = true

theorem Limited.attempts_lt {x : Client} (hx : x.Limited) (live : x.stopped = false) :
    x.failedPassAttempts < PassCommand.maxFailedPassAttempts := by
  refine Nat.lt_of_le_of_ne hx.attempts_le fun h => ?_
  exact absurd (live.symm.trans (hx.stopped_of_attempts h)) (by decide)

/-- What counts no failure and does not restart the client. -/
theorem Limited.of_outcome {x y : Client} (hx : x.Limited) (houtcome : y.outcome = x.outcome)
    (hstopped : x.stopped = true → y.stopped = true) : y.Limited := by
  have hattempts : y.failedPassAttempts = x.failedPassAttempts := congrArg Prod.snd houtcome
  exact ⟨hattempts ▸ hx.attempts_le, fun h => hstopped (hx.stopped_of_attempts (hattempts ▸ h))⟩

/-- What counts no failure of a client that goes on. -/
theorem Limited.of_live {x y : Client} (hx : x.Limited) (houtcome : y.outcome = x.outcome)
    (live : x.stopped = false) : y.Limited :=
  hx.of_outcome houtcome fun h => absurd (live.symm.trans h) (by decide)

/-- A wrong password is the first, the second, or the one that stops the client. -/
theorem Limited.failPass {x : Client} (hx : x.Limited) (live : x.stopped = false) :
    x.failPass.Limited := by
  have hbelow := hx.attempts_lt live
  have hattempts : x.failPass.failedPassAttempts = x.failedPassAttempts + 1 := by
    have hidentity := congrArg Identity.failedPassAttempts x.identity_failPass
    rw [recordFailedPassAttempt, if_pos] at hidentity
    · exact hidentity
    · simp only [PassCommand.maxFailedPassAttempts] at hbelow
      omega
  refine ⟨by omega, fun hthird => ?_⟩
  unfold Client.failPass at hthird ⊢
  dsimp only at hthird ⊢
  split_ifs at hthird ⊢ with hmark
  · unfold markClosing
    split_ifs with hstopped
    · exact hstopped
    · exact Bool.or_true _
  · exact absurd hthird.ge hmark

end Client

theorem OwnUpdate.limited {c : Ptr} {m : Message} {s : Server} {x x' : Client}
    (h : OwnUpdate c m s x x') (hx : x.Limited) (live : x.stopped = false) : x'.Limited := by
  by_cases hm : m.handler = some .pass
  swap
  · exact hx.of_live (h.outcome_eq hm) live
  cases h with
  | authenticate => exact ⟨hx.attempts_le, hx.stopped_of_attempts⟩
  | failPass => exact hx.failPass live
  | takeNickname hnick => cases hm.symm.trans hnick
  | takeUsername huser => cases hm.symm.trans huser
  | quit => exact hx.of_live (Client.outcome_of_identity (x.identity_markClosing _)) live

theorem Reachable.limited {s : Server} (h : Reachable s) :
    ∀ p x, s.heap p = some x → x.Limited := by
  apply h.forall_clients (Q := Client.Limited)
  intro s s' hreach hs
  constructor
  · intro _ _ _ _
    exact ⟨Nat.zero_le _, fun h => absurd h (Nat.succ_ne_zero 2).symm⟩
  · intro p x x' hx h
    exact (hs p x hx).of_outcome (Client.outcome_of_identity h.identity_eq)
      fun hstopped => (h.frozen hstopped (hreach.explained p x hx)).stopped
  · intro p x x' line hx live h
    exact (hs p x hx).of_live (Client.outcome_of_identity (Client.extractLine_identity h)) live
  · intro p x text _ hx
    exact hx.of_outcome (Client.outcome_of_identity (x.identity_sendMessage text))
      fun hstopped => ((Client.Frozen.refl hstopped).sendMessage text).stopped
  · intro p x x₁ x₂ line hx live h _ hupdate
    have hx₁ : x₁.Limited :=
      (hs p x hx).of_live (Client.outcome_of_identity (Client.extractLine_identity h)) live
    exact hupdate.limited hx₁ (Client.stopped_of_extractLine live h)
  · intro p x x₁ y line _ _ _ _ hy
    exact ⟨hy.attempts_le, hy.stopped_of_attempts⟩

/-- The comparisons of a client's lines come out as the client remembers, and no line follows
the third failure. -/
structure Client.Accounted (password : Str) (x : Client) : Prop where
  comparisons_eq : comparisons password x.lines = x.outcome
  last : ∀ l₁ l₂, x.lines = l₁ ++ l₂ →
    (comparisons password l₁).2 = PassCommand.maxFailedPassAttempts → l₂ = []

theorem Client.Accounted.of_eq {password : Str} {x y : Client} (hx : x.Accounted password)
    (houtcome : y.outcome = x.outcome) (hlines : y.trace.dispatched = x.trace.dispatched) :
    y.Accounted password := by
  have hlines' : y.lines = x.lines := congrArg (List.map Prod.fst) hlines
  refine ⟨?_, ?_⟩
  · rw [hlines', houtcome]
    exact hx.comparisons_eq
  · rw [hlines']
    exact hx.last

/-- One more line, of a client that went on. -/
theorem Client.Accounted.line {password line : Str} {x y : Client} (hx : x.Accounted password)
    (hlimited : x.Limited) (live : x.stopped = false)
    (houtcome : y.outcome = comparePass password x.outcome line)
    (hlines : y.lines = x.lines ++ [line]) : y.Accounted password := by
  refine ⟨?_, fun l₁ l₂ hsplit hthird => ?_⟩
  · rw [hlines, houtcome, ← hx.comparisons_eq, comparisons, List.foldl_append]
    rfl
  · by_contra hne
    rw [hlines] at hsplit
    -- the lines in front of the new one include `l₁`, and have fewer failures
    obtain ⟨l₃, a, rfl⟩ : ∃ l₃ a, l₂ = l₃ ++ [a] :=
      ⟨l₂.dropLast, l₂.getLast hne, (List.dropLast_append_getLast hne).symm⟩
    rw [← List.append_assoc] at hsplit
    have hbefore : x.lines = l₁ ++ l₃ := (List.append_inj' hsplit rfl).1
    have hle := comparisons_append_le password l₁ l₃
    rw [← hbefore, hx.comparisons_eq, hthird] at hle
    exact absurd (hlimited.attempts_lt live) (Nat.not_lt.mpr hle)

/-- Counting the comparisons of a connection by its lines agrees with what it remembers. -/
theorem Reachable.accounted {s : Server} (h : Reachable s) :
    ∀ p x, s.heap p = some x → x.Accounted s.password := by
  induction h with
  | start => exact fun _ _ h => absurd h (Option.some_ne_none _).symm
  | @move s s' hreach hmove ih =>
  intro p y hy
  rw [hmove.password_eq]
  -- what is sent to clients, and what their sockets do, touches neither side of the account
  have hrest : Closed s s' fun q y => (¬ ∃ line, LineOf q line s s') → y.Accounted s.password := by
    constructor
    · intro q fd ip _ _
      refine ⟨rfl, fun l₁ l₂ hnil _ => ?_⟩
      exact (List.append_eq_nil_iff.mp hnil.symm).2
    · intro q z z' hz hio _
      exact (ih q z hz).of_eq (Client.outcome_of_identity hio.identity_eq) hio.dispatched_eq
    · intro q z z' line hz _ h _
      exact (ih q z hz).of_eq (Client.outcome_of_identity (Client.extractLine_identity h))
        (by rw [Client.extractLine_trace h])
    · intro q z text _ hz hline
      exact (hz hline).of_eq (Client.outcome_of_identity (z.identity_sendMessage text))
        (z.dispatched_sendMessage text)
    · intro q z z₁ z₂ line _ _ _ hline _ hnone
      exact absurd ⟨line, hline⟩ hnone
    · intro q z z₁ z₂ line _ _ _ hline _ hnone
      exact absurd ⟨line, hline⟩ hnone
  by_cases hline : ∃ line, LineOf p line s s'
  swap
  · exact hmove.forall_clients (Q := fun q z => (¬ ∃ line, LineOf q line s s') →
      z.Accounted s.password) (fun q z hz _ => ih q z hz) hrest p y hy hline
  -- the client's own line counts as `comparePass` says
  obtain ⟨line, x, x', hx, live, hextract, rfl⟩ := hline
  have hx' := Server.heap_extracted hx x'
  have houtcome : x'.outcome = x.outcome :=
    Client.outcome_of_identity (Client.extractLine_identity hextract)
  have hlimited := hreach.limited p x hx
  have hbelow : x'.failedPassAttempts < PassCommand.maxFailedPassAttempts := by
    rw [show x'.failedPassAttempts = x.failedPassAttempts from congrArg Prod.snd houtcome]
    exact hlimited.attempts_lt live
  rw [Server.handleLine, Server.heap_modify_self] at hy
  obtain ⟨z, hz, rfl⟩ := Option.map_eq_some_iff.mp hy
  refine Client.Accounted.line (ih p x hx) hlimited live (?_ : _ = comparePass _ _ line) ?_
  · have hcompared := Server.outcome_processLine hx' hbelow line
    rw [hz, houtcome] at hcompared
    exact Option.some_inj.mp hcompared
  · have hlines := (Server.processMessage_effects hx' (Parser.parse line)).map_heap (p := p)
      (g := fun w => w.trace.dispatched) (fun w text => w.dispatched_sendMessage text)
      fun _ _ _ hown => hown.dispatched_eq
    rw [hx'] at hlines
    have hz' : z.trace.dispatched = x'.trace.dispatched := by
      have hz'' : ((s.modify p fun _ => x').processMessage p (Parser.parse line)).heap p = some z := hz
      rw [hz''] at hlines
      exact Option.some_inj.mp hlines
    show (z.trace.dispatched ++ [(line, z.stopped)]).map Prod.fst = _
    rw [List.map_append, hz', Client.extractLine_trace hextract]
    rfl

/-- Bob quits with a JOIN behind the QUIT in the same chunk, and his output not yet sent. -/
def quitting : Server := sample.run [.read 5 (.data (lit "QUIT :bye\r\nJOIN #d\r\n"))]

theorem reachable_quitting : Reachable quitting := reachable_sample.run (by decide +kernel)

end FtIrc
