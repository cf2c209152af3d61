import Tlm.Run
import Tlm.SeatSpec

/-!
# Runs of a seat

The seat as a machine. `SeatEvent` is everything that can be done to a seat
from outside: the three public operations with **arbitrary** arguments, the
timers of its delay closures, every event of every session handle it ever
created, and the manager connecting its stop handler. Each dispatch comes with
the configuration then in force and the answers of the system calls it makes
(`SeatStep`), so a run ranges over every history of these as well.

A statement proved for all runs of this machine holds for a seat inside the
daemon, whatever the observers and the manager do to it. One thing is left out:
`tlm_session_remote_dispose` runs the main loop until its child has gone, and
what is dispatched from inside that wait. Here every dispatch is handled to its
end before the next one comes. (`Observer.Nested` has the requests of an
observer nested in each other, and `SessionLink` the wait of one handle.)
-/

namespace Tlm

/-- What can be done to a seat from outside. -/
inductive SeatEvent : Type where
  /-- a call of `tlm_seat_create_session` -/
  | createSession (args : LoginArgs)
  /-- a call of `tlm_seat_switch_user` -/
  | switchUser (args : LoginArgs)
  /-- a call of `tlm_seat_terminate_session` -/
  | terminateSession
  /-- the timer of the `k`-th pending delay closure -/
  | delayedSession (k : ℕ)
  /-- an event of session handle `x` -/
  | session (x : SessionRef) (e : SessionEvent)
  /-- the manager connects `_session_terminated_cb` -/
  | connectStop
  /-- somebody takes a reference -/
  | ref
  /-- somebody drops a reference -/
  | unref
  deriving DecidableEq, Repr

/-- One dispatch: the event, the configuration in force and the answers of the
system. -/
structure SeatStep where
  /-- the configuration in force -/
  cfg : Config := Config.empty
  /-- the answers of the system calls -/
  sys : Sys := {}
  /-- the event -/
  event : SeatEvent

namespace Seat

/-- Handle one event. -/
def dispatch (s : Seat) (st : SeatStep) : Seat :=
  match st.event with
  | .createSession args => (s.createSession st.cfg st.sys args).1
  | .switchUser args => (s.switchUser st.cfg st.sys args).1
  | .terminateSession => s.terminateSession.1
  | .delayedSession k => s.delayedSession st.cfg st.sys k
  | .session x e => s.sessionEvent st.cfg st.sys x e
  | .connectStop => { s with stopHandlers := s.stopHandlers + 1 }
  | .ref => { s with refs := s.refs + 1 }
  | .unref => s.unref

/-- One step: nothing reaches a seat without references. -/
def step (s : Seat) (st : SeatStep) : Seat := if s.refs = 0 then s else s.dispatch st

/-- The seat after a run. -/
def run (s : Seat) (sts : List SeatStep) : Seat := sts.foldl step s

/-- A login request handled at time `now`, on a system where everything comes
up. -/
def loginStep (cfg : Config) (username : Option String) (now : ℤ) : SeatStep :=
  ⟨cfg, { now := now, getUid := fun _ => some 1000 }, .createSession { username := username }⟩

end Seat

end Tlm
