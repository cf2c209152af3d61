import Tlm.Channel
import Tlm.SessionTimers
import Tlm.Sessiond

/-!
# The daemon's handle and its session process together

`SessionRemote` hears of its child through events that may come in any order, and
`Session` is called by anybody. Here the two are joined: the handle sends its calls
down one direction of the pipe, `tlm-sessiond` serves them and sends its news up the
other, and the daemon's `kill`s reach the process as signals. Nothing happens in step:
a run interleaves, as it likes, what either process dispatches, the delivery of
signals, the exit of the user's command, and signals of anybody else.

* Calls and messages arrive in order, and are lost only behind the end of the
  connection (`Channel`).
* A signal that is sent while one of its kind is pending is merged with it.
* When the daemon dies, the pipe is closed and the kernel sends `SIGHUP`
  (`PR_SET_PDEATHSIG`), once the process has asked for that.
* A callback on a handle that was finalized is noted (`SessionRemote.dangled`), and the
  run goes on as if it had done no harm.

`tlm_seat_create_session` makes a handle and, unless the observer fails, calls
`tlm_session_remote_create` on it in the same handler; this is where a run begins
(`SessionLink.new`).
-/

namespace Tlm

/-- The arguments of `tlm_session_remote_create`. -/
structure Creation where
  /-- password -/
  password : Option String := none
  /-- environment -/
  environment : Option Environment := none
  /-- the order in which the table is walked -/
  order : HashOrder

/-- The call it makes. -/
def Creation.call (c : Creation) : LinkCall :=
  .sessionCreate (c.password.getD "") (sentEnvironment c.order c.environment)

/-- A handle and its process. -/
structure SessionLink where
  /-- the handle, in the daemon -/
  daemon : Remote
  /-- `tlm` itself is there -/
  daemonUp : Bool := true
  /-- what the handle has emitted -/
  emitted : List SessionSignal := []
  /-- from the daemon to sessiond -/
  calls : Channel LinkCall := {}
  /-- from sessiond to the daemon -/
  messages : Channel LinkMessage := {}
  /-- the signals sent to sessiond that have not taken effect -/
  pending : List KillSignal := []
  /-- the process -/
  sessiond : Sessiond := {}

/-- What can happen next. -/
inductive LinkStep : Type where
  /-- the seat calls `tlm_session_remote_terminate`, as it may while it has a reference -/
  | terminate
  /-- the seat gives up its reference -/
  | dispose
  /-- a tick of the handle's timer -/
  | tick (source : ℕ)
  /-- the daemon takes the next message -/
  | hear
  /-- the daemon's child watch -/
  | reap
  /-- the pending call fails, as the connection is at its end -/
  | broken (code : ℤ)
  /-- the daemon is killed -/
  | daemonDies
  /-- sessiond comes to its main loop -/
  | boot
  /-- `tlm_session_daemon_new` returns `NULL` -/
  | bootFails
  /-- sessiond serves the next call -/
  | serve (cfg : Config) (host : Host)
  /-- a pending signal takes effect; should that be the end, `k` messages have been written -/
  | deliver (sig : KillSignal) (k : ℕ)
  /-- `main` goes on behind the main loop, with `k` messages written -/
  | leave (pam : Pam) (k : ℕ)
  /-- sessiond sees that the connection is closed -/
  | connectionClosed (pam : Pam) (k : ℕ)
  /-- a tick of the session's timer -/
  | sessionTick (pam : Pam) (source : ℕ)
  /-- the session's child watch -/
  | childDown (pam : Pam) (w : ℕ)
  /-- sessiond returns from `main` -/
  | exit
  /-- the user's command ends -/
  | userExits
  /-- somebody else sends sessiond a signal -/
  | signal (sig : KillSignal)

/-- How the handle takes a message; `_on_authenticated_cb` emits a signal no seat is
connected to. -/
def LinkMessage.event : LinkMessage → Option SessionEvent
  | .reply => some (.createReply none)
  | .created _ => some .created
  | .terminated => some .terminated
  | .authenticated => none
  | .error code => some (.error code)

namespace SessionLink

/-- `tlm_session_remote_new` for these, and the call of `tlm_session_remote_create`
behind it, if it comes to that. -/
def new (seatid service : String) (username : Option String) (creation : Option Creation) :
    SessionLink where
  daemon :=
    { remote := { SessionRemote.spawned.connect seatid service username with
        createPending := creation.isSome } }
  calls := { queue := [.setSeatid seatid, .setService service, .setUsername (username.getD "")] ++
    (creation.map Creation.call).toList }

/-- A signal is sent. -/
def send (l : SessionLink) (sig : KillSignal) : SessionLink :=
  if l.sessiond.phase = .gone ∨ sig ∈ l.pending then l else { l with pending := l.pending ++ [sig] }

/-- Something happens to the handle: the signals it sends its child go out, and what
it emits is emitted. -/
def act (l : SessionLink) (st : RemoteStep) : SessionLink :=
  let r := l.daemon.step st
  let out := match st with
    | .event e => (l.daemon.remote.handle e).2
    | _ => []
  ((r.remote.kills.drop l.daemon.remote.kills.length).map Prod.fst).foldl send
    { l with daemon := r, emitted := l.emitted ++ out }

/-- The process moves on to `p`, and sends `ms`. -/
def put (l : SessionLink) (p : Sessiond × List LinkMessage) : SessionLink :=
  { l with sessiond := p.1, messages := l.messages.send p.2 }

/-- The process moves on to `p`. If it drops its connection with that, `k` of its
messages still arrive. -/
def drop (l : SessionLink) (k : ℕ) (p : Sessiond) : SessionLink :=
  { l with
    sessiond := p
    messages := if p.phase = .gone ∨ p.phase = .disposing then l.messages.close k else l.messages }

/-- The end of the pipe on the daemon's side is closed: `tlm_session_remote_dispose`
has closed it, or there is no daemon. -/
def farEndClosed (l : SessionLink) : Bool := !l.daemonUp || l.daemon.phase = .disposed

/-- One step. -/
def step (restores : Bool) (l : SessionLink) : LinkStep → SessionLink
  | .terminate => if l.daemonUp ∧ l.daemon.phase = .alive then l.act .terminate else l
  | .dispose => if l.daemonUp then l.act .dispose else l
  | .tick source => if l.daemonUp then l.act (.event (.terminateTimeout source)) else l
  | .hear =>
    match l.messages.queue with
    | [] => l
    | m :: _ =>
      if l.farEndClosed = false then
        let l := { l with messages := l.messages.hear }
        match m.event with
        | none => l
        | some e => l.act (.event e)
      else l
  | .reap =>
    if l.daemonUp ∧ l.sessiond.phase = .gone then l.act (.event .childDown) else l
  | .broken code =>
    if l.daemonUp ∧ (l.daemon.phase = .disposed ∨ l.messages.isOpen = false ∧ l.messages.queue = [])
    then l.act (.event (.createReply (some code)))
    else l
  | .daemonDies =>
    let l := { l with daemonUp := false }
    if l.sessiond.phase = .booting then l else l.send .hup
  | .boot =>
    if l.sessiond.phase = .booting then
      { l with sessiond := { l.sessiond with phase := .running } }
    else l
  | .bootFails => if l.sessiond.phase = .booting then l.drop 0 l.sessiond.die else l
  | .serve cfg host =>
    match l.calls.queue with
    | [] => l
    | c :: _ =>
      if l.sessiond.phase = .running then
        { l with calls := l.calls.hear }.put (l.sessiond.serve cfg host c)
      else l
  | .deliver sig k =>
    if sig ∈ l.pending then
      let p := l.sessiond.deliver restores sig
      let l := { l with pending := l.pending.erase sig }
      if p.phase = .gone then l.drop k p else { l with sessiond := p }
    else l
  | .leave pam k =>
    if l.sessiond.phase = .running ∧ l.sessiond.quit then l.drop k (l.sessiond.leave pam) else l
  | .connectionClosed pam k =>
    if l.sessiond.phase = .running ∧ l.farEndClosed then l.drop k (l.sessiond.connectionClosed pam)
    else l
  | .sessionTick pam source => l.put (l.sessiond.terminateTimeout pam source)
  | .childDown pam w => l.put (l.sessiond.childDown pam w)
  | .exit => { l with sessiond := l.sessiond.exit }
  | .userExits => { l with sessiond := { l.sessiond with userUp := false } }
  | .signal sig => l.send sig

/-- The link after a run. -/
def run (restores : Bool) (l : SessionLink) (sts : List LinkStep) : SessionLink :=
  sts.foldl (step restores) l

end SessionLink

end Tlm
