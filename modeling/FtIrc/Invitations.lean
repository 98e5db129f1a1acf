import FtIrc.GuardedRuns

/-!
# Invitations and the operators who gave them

INVITE asks whether the channel is `+i` at that moment, JOIN at another. An invitation that a
member without operator status gave while the channel was open is good for ever. Without
invitations of that kind, whoever gets into a channel that is `+i` was invited by one who was
its operator then.
-/

namespace FtIrc

open Bytes Relation

namespace InviteCommand

/-- An INVITE that gives an invitation to a channel that is not `+i` comes from an operator. -/
def ByOperator (s : Server) (client : Ptr) (params : List Str) : Prop :=
  match params with
  | targetNick :: channelName :: _ =>
    ∀ q ∈ s.findClientByNick targetNick, ∀ ch ∈ s.findChannel channelName,
      client ∈ ch.members → q ∉ ch.members → q ∉ ch.invitedClients → ch.inviteOnly = false →
        client ∈ ch.operators
  | _ => True

instance (s : Server) (client : Ptr) : (params : List Str) → Decidable (ByOperator s client params)
  | [] => .isTrue trivial
  | [_] => .isTrue trivial
  | targetNick :: _ :: _ => inferInstanceAs (Decidable (∀ q ∈ s.findClientByNick targetNick, _))

/-- What INVITE has checked when it has given an invitation. -/
theorem of_invited {s : Server} {c p : Ptr} {params : List Str} {name : Str}
    (hbefore : ¬ s.IsInvited p name) (hafter : (execute s c params).IsInvited p name) :
    ∃ nick rest ch, params = nick :: name :: rest ∧ s.findClientByNick nick = some p
      ∧ s.findChannel name = some ch ∧ c ∈ ch.members ∧ p ∉ ch.members ∧ p ∉ ch.invitedClients
      ∧ (ch.inviteOnly = true → c ∈ ch.operators) := by
  unfold execute at hafter
  split at hafter
  swap
  · exact absurd hafter hbefore
  next nick channelName rest =>
  dsimp only at hafter
  split at hafter
  · exact absurd hafter hbefore
  next q hfind =>
  split at hafter
  · exact absurd hafter hbefore
  next ch hch =>
  split_ifs at hafter with hmem hq hop
  · exact absurd hafter hbefore
  · exact absurd hafter hbefore
  · exact absurd hafter hbefore
  obtain ⟨ch', hch', hin⟩ := hafter
  have hch'' : (s.modifyChannel channelName (·.addInvited q)).findChannel name = some ch' := hch'
  rw [Server.modifyChannel_eq _ hch, Server.findChannel_modifyChannel hch] at hch''
  split_ifs at hch'' with hname
  · subst hname
    rw [← Option.some_inj.mp hch''] at hin
    have hnot : p ∉ ch.invitedClients := fun h => hbefore ⟨ch, hch, h⟩
    -- the only new name on the list is the one that was looked up
    have hpq : p = q := by
      unfold Channel.addInvited at hin
      split_ifs at hin
      · exact List.mem_singleton.mp ((List.mem_append.mp hin).resolve_left hnot)
      · exact absurd hin hnot
    subst hpq
    exact ⟨nick, rest, ch, rfl, hfind, hch, by simpa using hmem, by simpa using hq, hnot,
      by simpa using hop⟩
  · exact absurd ⟨ch', hch'', hin⟩ hbefore

end InviteCommand

/-- Invitations to open channels are given by operators. -/
def operatorsInvite : Guard where
  line s c m := m.handler = some .invite → (s.client c).isRegistered = true →
    InviteCommand.ByOperator s c m.params

instance (s : Server) (c : Ptr) (m : Message) : Decidable (operatorsInvite.line s c m) :=
  inferInstanceAs (Decidable (_ → _ → InviteCommand.ByOperator s c m.params))

instance (s : Server) (p : Ptr) : Decidable (operatorsInvite.disconnect s p) := .isTrue trivial

/-- A line that invites, from an operator of the channel. -/
def OperatorInvites (name : Str) (s s' : Server) : Prop :=
  ∃ c line, LineOf c line s s' ∧ (Parser.parse line).Names .invite name ∧ s.IsOperator c name

theorem Move.operatorInvites {s s' : Server} (hs : s.Integrity) (h : Move s s')
    (hmet : operatorsInvite.Met s s') {p : Ptr} {name : Str} (hbefore : ¬ s.IsInvited p name)
    (hafter : s'.IsInvited p name) : OperatorInvites name s s' := by
  obtain ⟨c, line, hline, hnames, _, _⟩ := h.invitation_gained hs hbefore hafter
  refine ⟨c, line, hline, hnames, ?_⟩
  obtain ⟨t, hdispatch⟩ := hline.exists_dispatch
  have hsame := hdispatch.findChannel_eq name
  have hreg : (t.client c).isRegistered = true := by
    refine hdispatch.registered_of_changed (n := name) fun heq => hbefore ?_
    obtain ⟨ch, hch, hin⟩ := hafter
    exact ⟨ch, heq ▸ hch, hin⟩
  have hbefore' : ¬ t.IsInvited p name := fun ⟨ch, hch, hin⟩ => hbefore ⟨ch, hsame ▸ hch, hin⟩
  have hafter' : (InviteCommand.execute t c (Parser.parse line).params).IsInvited p name := by
    obtain ⟨ch, hch, hin⟩ := hafter
    rw [hdispatch.findChannel_after, t.processMessage_of_registered hreg hnames.1] at hch
    exact ⟨ch, hch, hin⟩
  obtain ⟨nick, rest, ch, hparams, hfind, hch, hmem, hout, hnew, hop⟩ :=
    InviteCommand.of_invited hbefore' hafter'
  refine ⟨ch, hsame ▸ hch, ?_⟩
  cases hinvite : ch.inviteOnly with
  | true => exact hop hinvite
  | false =>
    have hby := hmet.1 c line t hdispatch hnames.1 hreg
    rw [hparams] at hby
    exact hby p hfind ch hch hmem hout hnew hinvite

/-- In a run in which invitations to open channels are given by operators, whoever gets into a
channel that is `+i` then uses up an invitation that an operator of the channel gave it, and that
it has held since. -/
theorem invited_by_operator {password : Str} {listenFd : Fd} {s s' : Server} {p : Ptr} {name : Str}
    (hrun : GuardedMoves operatorsInvite (Server.start password listenFd) s) (hmove : Move s s')
    (hout : ¬ s.IsMember p name) (hin : s'.IsMember p name) (hinvite : s.IsInviteOnly name) :
    s.IsInvited p name ∧ ¬ s'.IsInvited p name
    ∧ ∃ t t', GuardedMoves operatorsInvite (Server.start password listenFd) t ∧ Move t t'
        ∧ OperatorInvites name t t' ∧ ¬ t.IsInvited p name
        ∧ ReflTransGen (fun u v => (Move u v ∧ operatorsInvite.Met u v)
            ∧ u.IsInvited p name ∧ v.IsInvited p name) t' s := by
  have hreach := (Reachable.start password listenFd).moves (GuardedMoves.moves hrun)
  obtain ⟨_, _, _, hinvited⟩ := hmove.member_gained hreach.integrity hout hin
  refine ⟨hinvited hinvite, ?_, ?_⟩
  · obtain ⟨ch, hch, hmem⟩ := hin
    rintro ⟨ch', hch', hin'⟩
    obtain rfl := Option.some_inj.mp (hch.symm.trans hch')
    exact ((hmove.integrity hreach.integrity).channel name ch hch).wf.invited_disjoint p hin' hmem
  · have hstart : ¬ (Server.start password listenFd).IsInvited p name := fun ⟨ch, hch, _⟩ =>
      absurd hch (Option.some_ne_none ch).symm
    obtain ⟨t, t', hst, hstep, hno, hyes, hheld⟩ :=
      hrun.exists_last_step (P := fun t => t.IsInvited p name) hstart (hinvited hinvite)
    have ht := (Reachable.start password listenFd).moves (GuardedMoves.moves hst)
    exact ⟨t, t', hst, hstep.1, hstep.1.operatorInvites ht.integrity hstep.2 hno hyes, hno, hheld⟩

/-- The events of the sample, and a third client outside the channel. -/
def openEvents : List Event :=
  sampleEvents ++ [.accept (.connection 6 true (some (lit "127.0.0.3")) (some 2)),
    .read 6 (.data (lit "PASS pw\r\nNICK cal\r\nUSER c 0 * :C\r\n"))]

/-- The operator has invited the third client and closed the channel. -/
def closedEvents : List Event :=
  openEvents ++ [.read 4 (.data (lit "INVITE cal #c\r\nMODE #c +i\r\n"))]

/-- The third client's JOIN has been received. -/
def knocking : Server :=
  (((Server.start (lit "pw") 3).run closedEvents).receive 2 (lit "JOIN #c\r\n")).1

theorem guardedMoves_knocking :
    GuardedMoves operatorsInvite (Server.start (lit "pw") 3) knocking := by
  obtain ⟨hadm, hmeets, hclient⟩ : (Server.start (lit "pw") 3).AdmitsAll closedEvents
      ∧ operatorsInvite.MeetsAll (Server.start (lit "pw") 3) closedEvents
      ∧ (((Server.start (lit "pw") 3).run closedEvents).heap 2).map Client.stopped = some false := by
    decide +kernel
  have hevents := (Reachable.start (lit "pw") 3).guarded_run hadm hmeets
  obtain ⟨x, hx, hlive⟩ := Option.map_eq_some_iff.mp hclient
  have hreceived := (Reachable.quiet_receive hx hlive
    (show IsChunk (lit "JOIN #c\r\n") by decide)).1
  exact hevents.trans (QuietMoves.guarded ((Reachable.start _ _).run hadm) hreceived)

theorem invited_by_operator_sample :
    (knocking.readLine 2).1.IsMember 2 (lit "#c")
      ∧ ∃ t t', Moves (Server.start (lit "pw") 3) t ∧ Move t t' ∧ OperatorInvites (lit "#c") t t' := by
  obtain ⟨hline, hout, hmember, hinvite⟩ :
      (knocking.heap 2).map (fun x => (x.stopped, x.extractLine.2))
        = some (false, some (lit "JOIN #c"))
      ∧ ¬ knocking.IsMember 2 (lit "#c") ∧ (knocking.readLine 2).1.IsMember 2 (lit "#c")
      ∧ knocking.IsInviteOnly (lit "#c") := by decide +kernel
  obtain ⟨-, -, t, t', hst, hstep, hinvites, -⟩ := invited_by_operator guardedMoves_knocking
    (Reachable.move_readLine hline) hout hmember hinvite
  exact ⟨hmember, t, t', GuardedMoves.moves hst, hstep, hinvites⟩

/-- The second client of the sample, a member but no operator, invites a third one, then the
operator closes the channel, and the third client gets in. -/
def opened : Server := (Server.start (lit "pw") 3).run openEvents

def invited : Server := opened.run [.read 5 (.data (lit "INVITE cal #c\r\n"))]

def closed : Server := invited.run [.read 4 (.data (lit "MODE #c +i\r\n"))]

def joined : Server := closed.run [.read 6 (.data (lit "JOIN #c\r\n"))]

theorem invited_by_member :
    Reachable opened ∧ Reachable invited ∧ Reachable closed ∧ Reachable joined
      ∧ ¬ opened.IsInvited 2 (lit "#c") ∧ ¬ opened.IsOperator 1 (lit "#c")
      ∧ invited.IsInvited 2 (lit "#c")
      ∧ closed.IsInviteOnly (lit "#c") ∧ closed.IsInvited 2 (lit "#c")
      ∧ ¬ closed.IsMember 2 (lit "#c") ∧ joined.IsMember 2 (lit "#c") := by
  obtain ⟨hopen, hinvite, hclose, hjoin, hnotInvited, hnotOperator, hrest⟩ :
      (Server.start (lit "pw") 3).AdmitsAll openEvents
      ∧ opened.AdmitsAll [.read 5 (.data (lit "INVITE cal #c\r\n"))]
      ∧ invited.AdmitsAll [.read 4 (.data (lit "MODE #c +i\r\n"))]
      ∧ closed.AdmitsAll [.read 6 (.data (lit "JOIN #c\r\n"))]
      ∧ ¬ opened.IsInvited 2 (lit "#c") ∧ ¬ opened.IsOperator 1 (lit "#c")
      ∧ invited.IsInvited 2 (lit "#c")
      ∧ closed.IsInviteOnly (lit "#c") ∧ closed.IsInvited 2 (lit "#c")
      ∧ ¬ closed.IsMember 2 (lit "#c") ∧ joined.IsMember 2 (lit "#c") := by decide +kernel
  have hopened : Reachable opened := (Reachable.start _ _).run hopen
  have hinvited : Reachable invited := hopened.run hinvite
  have hclosed : Reachable closed := hinvited.run hclose
  exact ⟨hopened, hinvited, hclosed, hclosed.run hjoin, hnotInvited, hnotOperator, hrest⟩

end FtIrc
