import Tlm.AuthSession
import Tlm.Config
import Tlm.Seat
import Tlm.Store

/-!
# The session in its own process (`tlm-session.c`)

`tlm-sessiond` runs one `TlmSession`: it authenticates the user through PAM,
forks the user's command, watches it, and ends it on request. As with the
daemon's handle on the process, the GLib sources are part of the object — the
live child watches and the live `_terminate_timeout` sources, of which
`child_watch_id` and `timer_id` remember one each — and so are the PAM sessions
it ever made.

The wait loop of `tlm_session_dispose` runs the main loop until `is_child_up` is
cleared, so disposal takes **several** steps: `Phase.disposing` is the time spent
in that loop, during which every other event may happen. An event of a source
that is gone does not happen.
-/

namespace Tlm

/-- The life of an object. -/
inductive Phase : Type where
  | alive
  /-- in the wait loop of its `dispose` -/
  | disposing
  | disposed
  deriving DecidableEq, Repr

/-- What a `TlmSession` emits. -/
inductive SessionNews : Type where
  /-- `session-created`, with the session id -/
  | created (sessionid : String)
  /-- `session-terminated` -/
  | terminated
  /-- `authenticated` -/
  | authenticated
  /-- `session-error`, with the error's code -/
  | error (code : ℤ)
  deriving DecidableEq, Repr

/-- What the terminal looks like to `_prepare_terminal`. -/
structure Tty where
  /-- `ttyname_r (0)` -/
  ttyname : Option String := none
  /-- `access (tty_dev, R_OK|W_OK) == 0` -/
  access : Bool := true
  /-- `lstat` succeeded -/
  lstat : Bool := true
  /-- `st_nlink` -/
  nlink : ℕ := 1
  /-- `S_ISCHR` -/
  isChr : Bool := true
  /-- `open` succeeded -/
  opens : Bool := true
  /-- `isatty` -/
  isatty : Bool := true

/-- The answers of the system while a session is started. -/
structure Host where
  /-- PAM -/
  pam : Pam := {}
  /-- the terminal -/
  tty : Tty := {}
  /-- `tlm_user_get_uid`, as it is printed: `(uid_t) -1` when it fails -/
  getUid : String → ℕ := fun _ => 2 ^ 32 - 1
  /-- `fork` in the parent: the child's pid, `none` is `-1` -/
  fork : Option ℕ := some 1

/-- The arguments of `tlm_session_start`. -/
structure StartArgs where
  /-- seat id -/
  seatId : Option String := none
  /-- PAM service -/
  service : Option String := none
  /-- user name -/
  username : Option String := none
  /-- password -/
  password : Option String := none
  /-- environment -/
  environment : Option Environment := none
  deriving DecidableEq, Repr

/-- A `TlmSession`. -/
structure Session where
  /-- `child_pid`; `-1` after a `fork` that failed -/
  childPid : ℤ := 0
  /-- `tty_dev` -/
  ttyDev : Option String := none
  /-- `vtnr` -/
  vtnr : ℕ := 0
  /-- `seat_id` -/
  seatId : Option String := none
  /-- `service` -/
  service : Option String := none
  /-- `username` -/
  username : Option String := none
  /-- `env_hash` -/
  envHash : Option Environment := none
  /-- `auth_session` -/
  authSession : Option ℕ := none
  /-- `last_sig`; `none` before the first termination request -/
  lastSig : Option KillSignal := none
  /-- `timer_id`, zero when none is recorded -/
  timerId : ℕ := 0
  /-- `child_watch_id`, zero when none is recorded -/
  childWatchId : ℕ := 0
  /-- `sessionid` -/
  sessionid : Option String := none
  /-- `xdg_runtime_dir` -/
  xdgRuntimeDir : Option String := none
  /-- `setup_runtime_dir` -/
  setupRuntimeDir : Bool := false
  /-- `can_emit_signal` -/
  canEmitSignal : Bool := true
  /-- `is_child_up` -/
  isChildUp : Bool := false
  /-- `session_pause` -/
  sessionPause : Bool := false
  /-- the PAM sessions ever made -/
  auths : Store AuthSession := Store.empty
  /-- the live `_terminate_timeout` sources -/
  timers : List ℕ := []
  /-- how many there have been; ids start at one -/
  sources : ℕ := 0
  /-- the live child watches -/
  watches : List ℕ := []
  /-- how many there have been; ids start at one -/
  watched : ℕ := 0
  /-- the signals sent to the child's group, each with `is_child_up` -/
  kills : List (KillSignal × Bool) := []
  /-- what it has emitted, in order -/
  news : List SessionNews := []
  /-- where it is in its life -/
  phase : Phase := .alive
  /-- the process has ended: `exit` behind `pause` -/
  exited : Bool := false

namespace Session

/-! ## Emissions and sources -/

/-- `g_signal_emit`. -/
def emit (s : Session) (n : SessionNews) : Session := { s with news := s.news ++ [n] }

/-- An emission that `can_emit_signal` may silence. -/
def tell (s : Session) (n : SessionNews) : Session := if s.canEmitSignal then s.emit n else s

/-- `killpg (getpgid (child_pid), sig)` and `last_sig = sig`. -/
def sendSignal (s : Session) (sig : KillSignal) : Session :=
  { s with lastSig := some sig, kills := s.kills ++ [(sig, s.isChildUp)] }

/-- `g_source_remove (timer_id); timer_id = 0`, if a timer is recorded. -/
def removeTimer (s : Session) : Session :=
  if s.timerId = 0 then s else { s with timers := s.timers.erase s.timerId, timerId := 0 }

/-- `g_source_remove (child_watch_id); child_watch_id = 0`, if a watch is
recorded. -/
def removeWatch (s : Session) : Session :=
  if s.childWatchId = 0 then s
  else { s with watches := s.watches.erase s.childWatchId, childWatchId := 0 }

/-- `g_clear_object (&priv->auth_session)`. -/
def clearAuthSession (pam : Pam) (s : Session) : Session :=
  match s.authSession with
  | none => s
  | some h => { s with auths := s.auths.set h ((s.auths.get h).dispose pam), authSession := none }

/-- `_clear_session`. The child may still be up: neither `is_child_up` nor
`last_sig` is touched. -/
def clearSession (pam : Pam) (s : Session) : Session :=
  { s.removeTimer.removeWatch.clearAuthSession pam with
    ttyDev := none, envHash := none, seatId := none, service := none, username := none
    sessionid := none, xdgRuntimeDir := none }

/-! ## Starting -/

/-- `_prepare_terminal`: the terminal device, `none` when it returns `-1`. -/
def prepareTerminal (tty : Tty) (vtnr : ℕ) : Option String :=
  match if vtnr > 0 then some ("/dev/tty" ++ toString vtnr) else tty.ttyname with
  | none => none
  | some dev =>
    if tty.access && tty.lstat && !(tty.nlink > 1 || !tty.isChr || !"/dev/".toList.isPrefixOf dev.toList)
        && tty.opens && tty.isatty then some dev
    else none

/-- A boolean setting of the seat, else of `General`, as `_exec_user_session`
reads it. -/
def seatBoolean (cfg : Config) (seatId : Option String) (key : String) : Bool :=
  if (cfg.getString seatId key).isSome then cfg.getBoolean seatId key false
  else cfg.getBoolean (some Config.general) key false

/-- A string setting of the seat, else of `General`. -/
def seatString (cfg : Config) (seatId : Option String) (key : String) : Option String :=
  (cfg.getString seatId key).orElse fun _ => cfg.getString (some Config.general) key

/-- `_exec_user_session` in the parent. Everything that is not zero is taken for
a child's pid, and for `-1` there is nothing to watch. -/
def execUserSession (cfg : Config) (host : Host) (s : Session) : Session :=
  let s := match s.username with
    | some _ => s
    | none => { s with username := s.authSession.map fun h => (s.auths.get h).username }
  let s := { s with
    setupRuntimeDir := seatBoolean cfg s.seatId "SETUP_RUNTIME_DIR"
    xdgRuntimeDir := some ("/run/user/" ++ toString (host.getUid (s.username.getD ""))) }
  if seatBoolean cfg s.seatId "SETUP_TERMINAL" then
    match prepareTerminal host.tty s.vtnr with
    | none => { s with ttyDev := none }
    | some dev => forkChild host { s with ttyDev := some dev }
  else forkChild host s
where
  /-- `fork`, and `g_child_watch_add` on what it returned. -/
  forkChild (host : Host) (s : Session) : Session :=
    match host.fork with
    | some pid =>
      { s with childPid := pid, childWatchId := s.watched + 1
               watches := s.watches ++ [s.watched + 1], watched := s.watched + 1
               isChildUp := true }
    | none => { s with childPid := -1, childWatchId := 0, isChildUp := true }

/-- The variables `tlm_session_start` gives PAM. -/
def putenvs (cfg : Config) (seatId : String) (vtnr : ℕ) (a : AuthSession) : AuthSession :=
  let a := if (cfg.getString (some Config.general) "NSEATS").isSome then a
    else a.putenv "XDG_SEAT" (some seatId)
  let a := match seatString cfg (some seatId) "SESSION_TYPE" with
    | some t => (a.putenv "XDG_SESSION_CLASS" (some "user")).putenv "XDG_SESSION_TYPE" (some t)
    | none => a
  if vtnr > 0 then a.putenv "XDG_VTNR" (some (toString vtnr)) else a

/-- The part of `tlm_session_start` behind the authentication. With
`PAUSE_SESSION` the process waits for a signal and exits. -/
def startUser (cfg : Config) (host : Host) (a : AuthSession) (h : ℕ) (s : Session) : Session :=
  let (a, ok) := a.openSession host.pam
  let s := { s with auths := s.auths.set h a }
  if !ok then s.emit (.error TlmError.sessionCreationFailure.code)
  else
    let s := { s with
      sessionid := a.sessionId
      sessionPause := cfg.getBoolean (some Config.general) "PAUSE_SESSION" false }
    if s.sessionPause then
      { s.emit (.created (s.sessionid.getD "")) with exited := true }
    else
      let s := s.execUserSession cfg host
      s.emit (.created (s.sessionid.getD ""))

/-- `tlm_session_start`. -/
def start (cfg : Config) (host : Host) (args : StartArgs) (s : Session) : Session :=
  match args.seatId, args.service, args.username with
  | some seatId, some service, some username =>
    let vtnr := cfg.getUInt (some seatId) "VTNR" 0
    let s := { s with
      seatId := some seatId, service := some service, username := some username
      envHash := args.environment, vtnr := vtnr }
    let tty := if vtnr > 0 then some ("tty" ++ toString vtnr) else none
    match AuthSession.new host.pam service username args.password tty with
    | none => { s with authSession := none }.emit (.error TlmError.sessionCreationFailure.code)
    | some a =>
      let h := s.auths.next
      let (a, ok) := (putenvs cfg seatId vtnr a).authenticate host.pam
      let s := { s with auths := s.auths.alloc a, authSession := some h }
      if ok then (s.emit .authenticated).startUser cfg host a h
      else s.emit (.error TlmError.sessionCreationFailure.code)
  | _, _, _ => s.emit (.error TlmError.sessionCreationFailure.code)

/-! ## Ending -/

/-- `_on_child_down_cb`, run by the watch `w`. -/
def onChildDown (pam : Pam) (w : ℕ) (s : Session) : Session :=
  let s := { s with watches := s.watches.erase w, childPid := 0, isChildUp := false }
  (s.clearSession pam).tell .terminated

/-- `_terminate_timeout`, for the live source `source`. -/
def terminateTimeout (pam : Pam) (source : ℕ) (s : Session) : Session :=
  match s.lastSig with
  | some .hup => s.sendSignal .term
  | some .term => s.sendSignal .kill
  | some .kill =>
    let s := { s with timerId := 0, timers := s.timers.erase source }
    (s.clearSession pam).tell (.error TlmError.sessionTerminationFailure.code)
  | none => { s with timers := s.timers.erase source }

/-- `tlm_session_terminate`. The id of an earlier timer is overwritten, its
source is not removed. -/
def terminate (pam : Pam) (s : Session) : Session :=
  if s.isChildUp then
    let s := s.sendSignal .hup
    { s with timerId := s.sources + 1, timers := s.timers ++ [s.sources + 1],
             sources := s.sources + 1 }
  else (s.clearSession pam).tell .terminated

/-- `tlm_session_dispose`, up to its wait loop. -/
def dispose (pam : Pam) (s : Session) : Session :=
  { { s with canEmitSignal := false }.terminate pam with phase := .disposing }

/-- The test of the wait loop. -/
def settle (s : Session) : Session :=
  if s.phase = .disposing ∧ s.isChildUp = false then { s with phase := .disposed } else s

end Session

/-! ## The machine -/

/-- What can happen to a `TlmSession`. -/
inductive SessionStep : Type where
  /-- `tlm_session_start` -/
  | start (cfg : Config) (host : Host) (args : StartArgs)
  /-- `tlm_session_terminate` -/
  | terminate
  /-- a tick of the `_terminate_timeout` source with this id -/
  | terminateTimeout (source : ℕ)
  /-- the child watch with this id -/
  | childDown (w : ℕ)
  /-- the last reference goes -/
  | dispose

/-- An event, with what PAM answers if the session is torn down. -/
structure SessionInput where
  /-- the answers of PAM -/
  pam : Pam := {}
  /-- the event -/
  event : SessionStep

namespace Session

/-- Run the handler of an event. An object is called only until it is disposed
of, and disposed of only once; its sources may outlive it. -/
def dispatch (s : Session) (i : SessionInput) : Session :=
  match i.event with
  | .start cfg host args => if s.phase = .disposed then s else s.start cfg host args
  | .terminate => if s.phase = .disposed then s else s.terminate i.pam
  | .terminateTimeout source =>
    if source ∈ s.timers then s.terminateTimeout i.pam source else s
  | .childDown w => if w ∈ s.watches then s.onChildDown i.pam w else s
  | .dispose => if s.phase = .alive then s.dispose i.pam else s

/-- One step. -/
def step (s : Session) (i : SessionInput) : Session :=
  if s.exited then s else (s.dispatch i).settle

/-- The session after a run. -/
def run (s : Session) (is : List SessionInput) : Session := is.foldl step s

end Session

end Tlm
