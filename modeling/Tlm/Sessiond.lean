import Tlm.Environment
import Tlm.SessionAnnounce
import Tlm.SessionWatch

/-!
# The session process (`sessiond/main.c`, `tlm-session-daemon.c`)

`tlm-sessiond` puts one `TlmSession` on a D-Bus object that the daemon talks to over
a pipe: three properties and a call to start it, and its news as signals. Around
that is the life of the process.

* **booting**, up to `_install_sighandlers`: nothing is dispatched, and any signal
  ends the process;
* **running**, in the main loop: calls are served, and `SIGHUP` or `SIGTERM` asks the
  loop to end. What is ready in the same iteration is still dispatched;
* **disposing**: the D-Bus object is gone and `tlm_session_dispose` waits for the
  user's command, with everything but the connection still dispatched;
* **pausing**: `PAUSE_SESSION` ends in `pause`, behind which the process exits;
* **gone**.

The two signal sources are dropped with their first dispatch. GLib gives a signal
its default action back when the source is finalised, but `_install_sighandlers`
keeps the reference it made them with; `restores` says whether the default action
is back all the same.
-/

namespace Tlm

/-- What the daemon sends. -/
inductive LinkCall : Type where
  /-- property `seatid` -/
  | setSeatid (value : String)
  /-- property `service` -/
  | setService (value : String)
  /-- property `username` -/
  | setUsername (value : String)
  /-- `sessionCreate` -/
  | sessionCreate (password : String) (environment : List (String × String))
  deriving DecidableEq, Repr

/-- What sessiond sends back. -/
inductive LinkMessage : Type where
  /-- the reply of `sessionCreate` -/
  | reply
  /-- `sessionCreated` -/
  | created (sessionid : String)
  /-- `sessionTerminated` -/
  | terminated
  /-- `authenticated` -/
  | authenticated
  /-- `error`, with the error's code -/
  | error (code : ℤ)
  deriving DecidableEq, Repr

/-- `_handle_session_created_from_session` and its three siblings: the signal of the
session, as one on the bus. -/
def SessionNews.message : SessionNews → LinkMessage
  | .created sessionid => .created sessionid
  | .terminated => .terminated
  | .authenticated => .authenticated
  | .error code => .error code

/-- The life of the process. -/
inductive ProcessPhase : Type where
  | booting
  | running
  | disposing
  | pausing
  | gone
  deriving DecidableEq, Repr

/-- A process of `tlm-sessiond`, and the user's command it forked. -/
structure Sessiond where
  /-- where it is in its life -/
  phase : ProcessPhase := .booting
  /-- property `seatid` of its D-Bus object, `NULL` until it is set -/
  seatid : Option String := none
  /-- property `service` -/
  service : Option String := none
  /-- property `username` -/
  username : Option String := none
  /-- its `TlmSession` -/
  session : Session := {}
  /-- `g_main_loop_quit` was called -/
  quit : Bool := false
  /-- the source of `SIGTERM` is attached -/
  termSource : Bool := true
  /-- the source of `SIGHUP` is attached -/
  hupSource : Bool := true
  /-- the user's command runs -/
  userUp : Bool := false
  /-- the calls of `tlm_session_start` it has made, in order -/
  starts : List StartArgs := []

namespace Sessiond

/-- The process ends, however it does. -/
def die (p : Sessiond) : Sessiond := { p with phase := .gone }

/-- The session moves on. What it emits goes out as long as the D-Bus object is
there; `_dispose` drops that first. -/
def advance (p : Sessiond) (s : Session) : Sessiond × List LinkMessage :=
  ({ p with session := s },
    if p.phase = .running then (s.news.drop p.session.news.length).map SessionNews.message else [])

/-- `_handle_session_create_from_dbus`: the reply goes out first. With
`PAUSE_SESSION` the call does not return. -/
def createSession (cfg : Config) (host : Host) (password : String)
    (environment : List (String × String)) (p : Sessiond) : Sessiond × List LinkMessage :=
  let args : StartArgs :=
    ⟨p.seatid, p.service, p.username, some password, some (Observer.hashTableFromVariant environment)⟩
  let s := p.session.step ⟨host.pam, .start cfg host args⟩
  let (q, news) := p.advance s
  ({ q with
      starts := p.starts ++ [args]
      -- a child that `fork` gave is watched
      userUp := p.userUp || decide (p.session.watched < s.watched)
      phase := if s.exited then .pausing else p.phase },
    .reply :: news)

/-- Serve a call of the daemon. -/
def serve (cfg : Config) (host : Host) (p : Sessiond) : LinkCall → Sessiond × List LinkMessage
  | .setSeatid value => ({ p with seatid := some value }, [])
  | .setService value => ({ p with service := some value }, [])
  | .setUsername value => ({ p with username := some value }, [])
  | .sessionCreate password environment => p.createSession cfg host password environment

/-- A signal takes effect: the default action, or `_handle_quit_signal`, which drops
its source. -/
def deliver (restores : Bool) (sig : KillSignal) (p : Sessiond) : Sessiond :=
  match p.phase, sig with
  | .gone, _ => p
  | .booting, _ => p.die
  -- `pause` returns, `exit (0)`
  | .pausing, _ => p.die
  | _, .kill => p.die
  | _, .term =>
    if p.termSource then { p with termSource := false, quit := true }
    else if restores then p.die else p
  | _, .hup =>
    if p.hupSource then { p with hupSource := false, quit := true }
    else if restores then p.die else p

/-- The last reference to the `TlmSessionDaemon` goes: its `_dispose`, up to the wait
loop of the session's. -/
def dispose (pam : Pam) (p : Sessiond) : Sessiond :=
  { p with phase := .disposing, session := p.session.step ⟨pam, .dispose⟩ }

/-- Behind the main loop `main` drops the daemon. -/
def leave (pam : Pam) (p : Sessiond) : Sessiond :=
  if p.phase = .running ∧ p.quit then p.dispose pam else p

/-- `_on_connection_closed`. The main loop ends with the object, in
`_on_daemon_closed`. -/
def connectionClosed (pam : Pam) (p : Sessiond) : Sessiond :=
  if p.phase = .running then p.dispose pam else p

/-- Is the main context being iterated? -/
def iterating (p : Sessiond) : Bool := p.phase = .running || p.phase = .disposing

/-- A tick of the session's timer. -/
def terminateTimeout (pam : Pam) (source : ℕ) (p : Sessiond) : Sessiond × List LinkMessage :=
  if p.iterating then p.advance (p.session.step ⟨pam, .terminateTimeout source⟩) else (p, [])

/-- The session's child watch, which fires once the user's command has ended. -/
def childDown (pam : Pam) (w : ℕ) (p : Sessiond) : Sessiond × List LinkMessage :=
  if p.iterating ∧ p.userUp = false then p.advance (p.session.step ⟨pam, .childDown w⟩) else (p, [])

/-- `main` returns, once the wait loop has come to its end. -/
def exit (p : Sessiond) : Sessiond :=
  if p.phase = .disposing ∧ p.session.phase = .disposed then p.die else p

end Sessiond

end Tlm
