import Tlm.Config
import Tlm.SessionRemote
import Tlm.Store

/-!
# The seat (`tlm-seat.c`)

A seat holds at most one session, the D-Bus observer on the socket of that
session's user, and — between a switch request and the relogin it asks for —
the credentials of the next session. Everything reachable from a `TlmSeat`
is part of `Seat`: the session handles it ever created, the observers it ever
created (here only what they were created **with**; their queues belong to the
observer), and the delay closures that keep a reference to it.

* `Sys` — the answers of the system calls made while one event is handled.
  They are inputs: a run may choose them freely at every dispatch.
* `Act` — what a seat does to the world around it, in order: the signals it
  emits, the observers it creates and drops, and a record of its own decisions
  (`createSession`, `closed`, `relogin`) that whole-run statements refer to.
* the operations, under the names of the source. Every helper returns the seat
  it leaves; a `gboolean` result is the second component.

`self->priv->config` is shared with the manager and passed in.
-/

namespace Tlm

/-- A `GHashTable` of environment variables. -/
abbrev Environment : Type := List (String × String)

/-- Name of a session handle among those of its seat. -/
abbrev SessionRef : Type := ℕ

/-- Name of an observer among those of its seat. -/
abbrev ObserverRef : Type := ℕ

/-- The arguments of `tlm_seat_create_session` and `tlm_seat_switch_user`; also
what a `DelayClosure` keeps. -/
structure LoginArgs where
  /-- PAM service -/
  service : Option String := none
  /-- user name; `NULL` asks for the default user -/
  username : Option String := none
  /-- password -/
  password : Option String := none
  /-- environment of the session -/
  environment : Option Environment := none
  deriving DecidableEq, Repr

/-- The answers of the system calls made while one event is handled. -/
structure Sys where
  /-- `g_get_monotonic_time`, in microseconds -/
  now : ℤ := 0
  /-- `g_spawn_async_with_pipes` succeeded and the child is alive -/
  spawns : Bool := true
  /-- `tlm_dbus_session_proxy_new_sync` set no error -/
  proxies : Bool := true
  /-- `tlm_user_get_uid`; `none` is `-1`, the answer when `getpwnam_r` fails. For a name without
  an entry the function reads through `NULL` (`UserLookup.unknown_name_crashes`); that there are
  such names is left out here -/
  getUid : String → Option ℕ := fun _ => none
  /-- `tlm_dbus_server_start` succeeded -/
  serves : Bool := true
  /-- `pam_start` and `pam_authenticate` of service, user and password -/
  pam : String → String → String → Bool := fun _ _ _ => false

/-! ## Observer flags and addresses -/

/-- `DBUS_OBSERVER_ENABLE_LOGIN_USER` -/
def enableLoginUser : ℕ := 0x01

/-- `DBUS_OBSERVER_ENABLE_LOGOUT_USER` -/
def enableLogoutUser : ℕ := 0x02

/-- `DBUS_OBSERVER_ENABLE_SWITCH_USER` -/
def enableSwitchUser : ℕ := 0x04

/-- `DBUS_OBSERVER_ENABLE_ALL` -/
def enableAll : ℕ := 0x0F

/-- What a seat creates an observer with: `tlm_dbus_observer_new (NULL, seat,
address, uid, flags)`. -/
structure ObserverArgs where
  /-- socket address -/
  address : String := ""
  /-- owner of the socket -/
  uid : ℕ := 0
  /-- the requests it takes -/
  enableFlags : ℕ := 0
  deriving DecidableEq, Repr, Inhabited

/-- `TLM_DBUS_SOCKET_PATH`, fixed when the daemon is configured. -/
def dbusSocketPath : String := "/var/run/tlm"

/-- `"unix:path=%s/%s-%d"`: the unsigned uid is printed as a signed integer. -/
def observerAddress (seatId : String) (uid : ℕ) : String :=
  "unix:path=" ++ dbusSocketPath ++ "/" ++ seatId ++ "-" ++ toString (Int.bmod uid (2 ^ 32))

/-! ## The seat -/

/-- How a call of `tlm_seat_create_session` ended. -/
inductive Verdict : Type where
  /-- refused: the seat has a session -/
  | alreadyExists
  /-- put off to a `_delayed_session` timer -/
  | deferred
  /-- `tlm_session_remote_new` returned `NULL` -/
  | noRemote
  /-- `_create_dbus_observer` failed -/
  | noObserver
  /-- started, with this handle and this observer -/
  | started (x : SessionRef) (o : ObserverRef)
  deriving DecidableEq, Repr

/-- What a seat does, in order. -/
inductive Act : Type where
  /-- signal `prepare-user-login` -/
  | prepareUserLogin (user : String)
  /-- signal `prepare-user-logout` -/
  | prepareUserLogout (user : Option String)
  /-- signal `session-created` -/
  | sessionCreated
  /-- signal `session-terminated` -/
  | sessionTerminated
  /-- signal `session-error` -/
  | sessionError (code : ℤ)
  /-- an observer came up -/
  | observerNew (o : ObserverRef) (args : ObserverArgs)
  /-- the reference to an observer was dropped -/
  | observerDispose (o : ObserverRef)
  /-- `tlm_session_remote_create` on a handle for `user` -/
  | sessionRemoteCreate (x : SessionRef) (user : Option String) (password : Option String)
      (environment : Option Environment)
  /-- a call of `tlm_seat_create_session` and how it ended -/
  | createSession (args : LoginArgs) (verdict : Verdict)
  /-- the seat's session was closed on an emission of handle `x` -/
  | closed (x : SessionRef)
  /-- relogin after an emission of handle `x` -/
  | relogin (x : SessionRef)
  /-- `kill (0, SIGTERM)` -/
  | killGroup
  deriving DecidableEq, Repr

/-- A `TlmSeat` and everything it owns. -/
structure Seat where
  /-- seat id -/
  id : String
  /-- `default_user`, resolved at the first default login -/
  defaultUser : Option String := none
  /-- `next_service` -/
  nextService : Option String := none
  /-- `next_user` -/
  nextUser : Option String := none
  /-- `next_password` -/
  nextPassword : Option String := none
  /-- `next_environment` -/
  nextEnvironment : Option Environment := none
  /-- `prev_time`: when a session was last asked for -/
  prevTime : ℤ := 0
  /-- `prev_count`: how many were asked for in quick succession -/
  prevCount : ℤ := 0
  /-- `default_active` -/
  defaultActive : Bool := false
  /-- `session` -/
  session : Option SessionRef := none
  /-- `dbus_observer` -/
  dbusObserver : Option ObserverRef := none
  /-- `prev_dbus_observer` -/
  prevDbusObserver : Option ObserverRef := none
  /-- the session handles ever created -/
  sessions : Store SessionRemote := Store.empty
  /-- the observers ever created -/
  observers : Store ObserverArgs := Store.empty
  /-- the pending `_delayed_session` timers -/
  closures : List LoginArgs := []
  /-- how often the manager's `_session_terminated_cb` is connected -/
  stopHandlers : ℕ := 0
  /-- the manager's stop handler has fired -/
  stopFired : Bool := false
  /-- strong references -/
  refs : ℕ := 1
  /-- what it has done so far -/
  trace : List Act := []

namespace Seat

/-- `tlm_seat_new`. -/
def new (id : String) : Seat := { id := id }

/-- Do something the world around the seat can see. -/
def emit (s : Seat) (a : Act) : Seat := { s with trace := s.trace ++ [a] }

/-- Overwrite a session handle. -/
def setSession (s : Seat) (x : SessionRef) (m : SessionRemote) : Seat :=
  { s with sessions := s.sessions.set x m }

/-- The pending switch, as arguments of the relogin. -/
def next (s : Seat) : LoginArgs :=
  ⟨s.nextService, s.nextUser, s.nextPassword, s.nextEnvironment⟩

/-- `_reset_next`. -/
def resetNext (s : Seat) : Seat :=
  { s with nextService := none, nextUser := none, nextPassword := none, nextEnvironment := none }

/-- `_connect_session_signals`. -/
def connectSessionSignals (s : Seat) : Seat :=
  match s.session with
  | none => s
  | some x =>
    let m := s.sessions.get x
    s.setSession x
      { m with handlers := m.handlers ++ [.sessionCreated, .sessionTerminated, .sessionError] }

/-- `_disconnect_session_signals`: every connection of the three handlers. -/
def disconnectSessionSignals (s : Seat) : Seat :=
  match s.session with
  | none => s
  | some x =>
    let m := s.sessions.get x
    s.setSession x
      { m with handlers := m.handlers.filter fun k =>
          k ≠ .sessionCreated && k ≠ .sessionTerminated && k ≠ .sessionError }

/-- The last reference to handle `x` goes. -/
def disposeSession (s : Seat) (x : SessionRef) : Seat := s.setSession x (s.sessions.get x).dispose

/-- `g_clear_object (&priv->session)`. The reference of the seat is the last one to its handle,
but for a handle that is the `emitter` of the signal that is being handled: `g_signal_emit` has
another one, and drops it when the handlers have returned. -/
def clearSession (emitter : Option SessionRef) (s : Seat) : Seat :=
  match s.session with
  | none => s
  | some x => { (if emitter = some x then s else s.disposeSession x) with session := none }

/-- `g_clear_object (&priv->dbus_observer)`. -/
def clearDbusObserver (s : Seat) : Seat :=
  match s.dbusObserver with
  | none => s
  | some o => { s.emit (.observerDispose o) with dbusObserver := none }

/-- `g_clear_object (&priv->prev_dbus_observer)`. -/
def clearPrevDbusObserver (s : Seat) : Seat :=
  match s.prevDbusObserver with
  | none => s
  | some o => { s.emit (.observerDispose o) with prevDbusObserver := none }

/-- `_close_active_session`, on an emission of handle `x`. -/
def closeActiveSession (s : Seat) (x : SessionRef) : Seat :=
  let s := if s.session.isSome then s.emit (.closed x) else s
  s.disconnectSessionSignals.clearSession (some x)

/-- `_create_dbus_observer`; the observer it made, `none` when it returns
`FALSE`. -/
def createDbusObserver (sys : Sys) (username : Option String) (s : Seat) :
    Seat × Option ObserverRef :=
  match username.bind sys.getUid with
  | none => (s, none)
  | some uid =>
    if sys.serves then
      let o := s.observers.next
      let args := ⟨observerAddress s.id uid, uid, enableLogoutUser ||| enableSwitchUser⟩
      ({ s.emit (.observerNew o args) with
          observers := s.observers.alloc args, dbusObserver := some o }, some o)
    else ({ s with dbusObserver := none }, none)

/-! ### The default user -/

/-- `atoi`, on the digits after the prefix. -/
def atoi (cs : List Char) : ℤ :=
  match scanNumeral cs with
  | none => 0
  | some (neg, n) =>
    Int.bmod (if neg then max (-(n : ℤ)) (-2 ^ 63) else min (n : ℤ) (2 ^ 63 - 1)) (2 ^ 32)

/-- The number of a seat id `seatN`, zero for another format. -/
def seatNumber (seatId : String) : ℤ :=
  match seatId.toList with
  | 's' :: 'e' :: 'a' :: 't' :: rest => atoi rest
  | _ => 0

/-- The scanning loop of `_build_user_name`. -/
def expandTemplate (seatId : String) : List Char → List Char
  | [] => []
  | '%' :: [] => []
  | '%' :: 'S' :: rest => (toString (seatNumber seatId)).toList ++ expandTemplate seatId rest
  | '%' :: 'I' :: rest => seatId.toList ++ expandTemplate seatId rest
  | '%' :: _ :: rest => expandTemplate seatId rest
  | c :: rest => c :: expandTemplate seatId rest

/-- `_build_user_name`. -/
def buildUserName (template seatId : String) : String :=
  String.ofList (expandTemplate seatId template.toList)

/-- The template of the default user: the seat's, else the general one. -/
def nameTemplate (cfg : Config) (seatId : String) : Option String :=
  (cfg.getStringDefault (some seatId) "DEFAULT_USER" "guest").orElse fun _ =>
    cfg.getStringDefault (some Config.general) "DEFAULT_USER" "guest"

/-- A call without a user name asks for the default user: resolve it once, and
make it the active one. -/
def activateDefaultUser (cfg : Config) (s : Seat) : Seat :=
  let s := match s.defaultUser with
    | some _ => s
    | none => { s with defaultUser := (nameTemplate cfg s.id).map (buildUserName · s.id) }
  match s.defaultUser with
  | some u => { s with defaultActive := true }.emit (.prepareUserLogin u)
  | none => s

/-- `username: if NULL, get default user`. -/
def selectUser (cfg : Config) (args : LoginArgs) (s : Seat) : Seat :=
  if args.username.isSome then s else s.activateDefaultUser cfg

/-- The PAM service of a session, when the caller names none. -/
def pamService (cfg : Config) (seatId : String) (args : LoginArgs) : String :=
  let key := if args.username.isSome then "PAM_SERVICE" else "DEFAULT_PAM_SERVICE"
  let builtin := if args.username.isSome then "tlm-login" else "tlm-default-login"
  args.service.getD <| (cfg.getString (some seatId) key).getD <|
    (cfg.getString (some Config.general) key).getD builtin

/-- `priv->default_active ? priv->default_user : username`. -/
def sessionUser (s : Seat) (username : Option String) : Option String :=
  if s.defaultActive then s.defaultUser else username

/-! ### Creating, switching and terminating -/

/-- `tlm_session_remote_new` as the seat sees it. When the proxy cannot be
created the handle already exists and is disposed again. -/
def sessionRemoteNew (sys : Sys) (service : String) (username : Option String) (s : Seat) :
    Seat × Option SessionRef :=
  if !sys.spawns then (s, none)
  else
    let x := s.sessions.next
    let spawned := { s with sessions := s.sessions.alloc SessionRemote.spawned }
    if !sys.proxies then (spawned.setSession x SessionRemote.spawned.dispose, none)
    else (spawned.setSession x (SessionRemote.spawned.connect s.id service username), some x)

/-- `tlm_session_remote_create` on the seat's session: the call goes out and its
reply is awaited. -/
def sessionRemoteCreate (x : SessionRef) (args : LoginArgs) (s : Seat) : Seat :=
  let m := s.sessions.get x
  (s.setSession x { m with createPending := true }).emit
    (.sessionRemoteCreate x m.username args.password args.environment)

/-- The part of `tlm_seat_create_session` behind the relogin throttle. -/
def startSession (cfg : Config) (sys : Sys) (args : LoginArgs) (s : Seat) : Seat × Bool :=
  let service := pamService cfg s.id args
  let s := s.selectUser cfg args
  let user := s.sessionUser args.username
  match s.sessionRemoteNew sys service user with
  | (s, none) =>
    ((s.emit (.sessionError TlmError.sessionCreationFailure.code)).emit
      (.createSession args .noRemote), false)
  | (s, some x) =>
    let s := { s with session := some x, prevDbusObserver := s.dbusObserver, dbusObserver := none }
    match s.createDbusObserver sys user with
    | (s, none) =>
      (((s.clearSession none).emit (.sessionError TlmError.dbusServerStartFailure.code)).emit
        (.createSession args .noObserver), false)
    | (s, some o) =>
      ((s.connectSessionSignals.sessionRemoteCreate x args).emit
        (.createSession args (.started x o)), true)

/-- The throttle of `tlm_seat_create_session`: what it stores, and whether the
call is put off. -/
def throttle (sys : Sys) (s : Seat) : Seat × Bool :=
  if sys.now - s.prevTime < 1000000 then
    ({ s with prevTime := sys.now, prevCount := s.prevCount + 1 }, decide (s.prevCount + 1 > 3))
  else ({ s with prevTime := sys.now, prevCount := 1 }, false)

/-- `tlm_seat_create_session`. -/
def createSession (cfg : Config) (sys : Sys) (args : LoginArgs) (s : Seat) : Seat × Bool :=
  if s.session.isSome then
    ((s.emit (.sessionError TlmError.sessionAlreadyExists.code)).emit
      (.createSession args .alreadyExists), false)
  else
    match s.throttle sys with
    | (s, true) =>
      ({ s with closures := s.closures ++ [args], refs := s.refs + 1 }.emit
        (.createSession args .deferred), true)
    | (s, false) => s.startSession cfg sys args

/-- `tlm_seat_terminate_session`. -/
def terminateSession (s : Seat) : Seat × Bool :=
  let s := if s.defaultActive then
      { s with defaultActive := false }.emit (.prepareUserLogout s.defaultUser)
    else s
  match s.session with
  | none => (s.emit (.sessionError TlmError.sessionNotValid.code), false)
  | some x =>
    match (s.sessions.get x).terminate with
    | (m, true) => (s.setSession x m, true)
    | (_, false) => (s.emit (.sessionError TlmError.sessionNotValid.code), false)

/-- `tlm_authenticate_user`. -/
def authenticateUser (cfg : Config) (sys : Sys) (username password : Option String) : Bool :=
  match username, password with
  | some u, some p =>
    sys.pam ((cfg.getString (some Config.general) "PAM_SERVICE").getD "system-auth") u p
  | _, _ => false

/-- `tlm_seat_switch_user`. -/
def switchUser (cfg : Config) (sys : Sys) (args : LoginArgs) (s : Seat) : Seat × Bool :=
  if !authenticateUser cfg sys args.username args.password then (s, false)
  else if s.session.isNone then s.createSession cfg sys args
  else
    { s.resetNext with
        nextService := args.service, nextUser := args.username,
        nextPassword := args.password, nextEnvironment := args.environment }.terminateSession

/-- `tlm_seat_get_occupying_username`. -/
def getOccupyingUsername (s : Seat) : Option String :=
  s.session.bind fun x => (s.sessions.get x).username

/-! ### Reference counting -/

/-- `tlm_seat_dispose`. -/
def dispose (s : Seat) : Seat :=
  s.clearDbusObserver.clearPrevDbusObserver.disconnectSessionSignals.clearSession none

/-- `g_object_unref`: the last reference disposes the seat. -/
def unref (s : Seat) : Seat :=
  if s.refs ≤ 1 then { s.dispose with refs := 0 } else { s with refs := s.refs - 1 }

/-- `_delayed_session` for the `k`-th pending closure. -/
def delayedSession (cfg : Config) (sys : Sys) (k : ℕ) (s : Seat) : Seat :=
  match s.closures[k]? with
  | none => s
  | some args => ({ s with closures := s.closures.eraseIdx k }.createSession cfg sys args).1.unref

/-! ### Handlers of the session's signals -/

/-- `_handle_session_created`. -/
def handleSessionCreated (s : Seat) : Seat :=
  (s.emit .sessionCreated).clearPrevDbusObserver

/-- `_handle_session_terminated` behind `_close_active_session`, on an emission of
handle `x`. The manager's stop handler, connected after all others, decides what
the emission returns. -/
def terminated (cfg : Config) (sys : Sys) (x : SessionRef) (s : Seat) : Seat :=
  let s := s.emit .sessionTerminated
  if 0 < s.stopHandlers then { s with stopFired := true }
  else
    let s := s.clearDbusObserver
    if cfg.x11Session then s.emit .killGroup
    else if cfg.autoLogin || s.nextUser.isSome then
      ((s.emit (.relogin x)).createSession cfg sys s.next).1.resetNext
    else s

/-- `_handle_session_terminated`. -/
def handleSessionTerminated (cfg : Config) (sys : Sys) (x : SessionRef) (s : Seat) : Seat :=
  (s.closeActiveSession x).terminated cfg sys x

/-- The error codes on which a seat gives its session up. -/
def isFatal (code : ℤ) : Bool :=
  code = TlmError.pamAuthFailure.code || code = TlmError.sessionCreationFailure.code ||
    code = TlmError.sessionTerminationFailure.code

/-- `_handle_error`, on an emission of handle `x`. -/
def handleError (code : ℤ) (x : SessionRef) (s : Seat) : Seat :=
  let s := s.emit (.sessionError code)
  if isFatal code then (s.closeActiveSession x).clearDbusObserver else s

/-- Run the handler of an emission once. -/
def runHandler (cfg : Config) (sys : Sys) (x : SessionRef) (g : SessionSignal) (s : Seat) : Seat :=
  match g with
  | .created => s.handleSessionCreated
  | .terminated => s.handleSessionTerminated cfg sys x
  | .error code => s.handleError code x

/-- An emission of handle `x` runs every connection of its handler, except those
disconnected by the time their turn comes. -/
def deliver (cfg : Config) (sys : Sys) (x : SessionRef) (s : Seat) (g : SessionSignal) : Seat :=
  ((s.sessions.get x).handlers.filter (· = g.handler)).foldl
    (fun s k => if k ∈ (s.sessions.get x).handlers then s.runHandler cfg sys x g else s) s

/-- Something happens to handle `x`, which emits a signal, and the handlers of the signal run. -/
def emission (cfg : Config) (sys : Sys) (x : SessionRef) (e : SessionEvent) (s : Seat) : Seat :=
  let (m, gs) := (s.sessions.get x).handle e
  gs.foldl (deliver cfg sys x) (s.setSession x m)

/-- The emission of handle `x` drops its reference: the last one, if the seat has dropped its own
meanwhile. -/
def released (x : SessionRef) (s : Seat) : Seat :=
  if s.session = some x then s else s.disposeSession x

/-- An event of handle `x`, up to when the emission is over. A handle that the seat gives up is
disposed of only then, when a relogin has come and gone. -/
def sessionEvent (cfg : Config) (sys : Sys) (x : SessionRef) (e : SessionEvent) (s : Seat) : Seat :=
  let s' := s.emission cfg sys x e
  if s.session = some x then s'.released x else s'

end Seat

end Tlm
