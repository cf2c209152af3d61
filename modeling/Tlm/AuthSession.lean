import Mathlib.Data.List.Basic
import Tlm.SessionRemote

/-!
# A PAM session (`tlm-auth-session.c`)

A `TlmAuthSession` owns one PAM handle, from `pam_start` in its constructor to
`pam_end` when it is disposed. The calls made on the handle are recorded in
order, with their outcome where the code looks at it; what PAM answers is an
input (`Pam`).

A handle is used well if its calls are `Bracketed`: no `pam_close_session`
without a `pam_open_session` that succeeded before it, and none missing when the
handle is ended. `_auth_session_stop` closes **unconditionally**, so this depends
on the state the object is disposed of in (`isOpen`).
-/

namespace Tlm

/-- The flag of a `pam_setcred` call. -/
inductive PamCred : Type where
  | establish
  | reinit
  | delete
  deriving DecidableEq, Repr

/-- A call on a PAM handle. -/
inductive PamCall : Type where
  /-- `pam_start`, which made the handle -/
  | start
  /-- `pam_putenv` -/
  | putenv (item : String)
  /-- `pam_set_item (PAM_TTY)` -/
  | setTty (tty : String)
  /-- `pam_set_item (PAM_RUSER)` -/
  | setRuser (ruser : Option String)
  /-- `pam_set_item (PAM_RHOST)` -/
  | setRhost (rhost : String)
  /-- `pam_authenticate` -/
  | authenticate (ok : Bool)
  /-- `pam_setcred` -/
  | setcred (flag : PamCred) (ok : Bool)
  /-- `pam_open_session` -/
  | openSession (ok : Bool)
  /-- `pam_close_session` -/
  | closeSession
  /-- `pam_end` -/
  | endHandle
  deriving DecidableEq, Repr

/-- The answers of PAM, and of the system calls made around it, while a session
is set up or torn down. -/
structure Pam where
  /-- `pam_start` succeeded -/
  start : Bool := true
  /-- `pam_authenticate` succeeded -/
  authenticate : Bool := true
  /-- `pam_setcred` succeeded -/
  setcred : PamCred → Bool := fun _ => true
  /-- `pam_open_session` succeeded -/
  openSession : Bool := true
  /-- `getenv ("DISPLAY")` -/
  display : Option String := none
  /-- `ttyname_r (0)` -/
  ttyname : Option String := none
  /-- `tlm_user_get_name (geteuid ())` -/
  ruser : Option String := none
  /-- logind's `GetSessionByPID` -/
  logindSessionId : Option String := none

/-- A `TlmAuthSession`. -/
structure AuthSession where
  /-- `service` -/
  service : String := ""
  /-- `username` -/
  username : String := ""
  /-- `password` -/
  password : Option String := none
  /-- `tty_name` -/
  ttyName : Option String := none
  /-- `session_id`: logind session path -/
  sessionId : Option String := none
  /-- `pam_handle` is set -/
  pamHandle : Bool := false
  /-- the calls made on the handle, in order -/
  calls : List PamCall := []
  deriving DecidableEq, Repr, Inhabited

namespace AuthSession

/-- A call on the handle. -/
def call (a : AuthSession) (c : PamCall) : AuthSession := { a with calls := a.calls ++ [c] }

/-- `tlm_auth_session_new`; without a handle there is no object. -/
def new (pam : Pam) (service username : String) (password ttyName : Option String) :
    Option AuthSession :=
  if pam.start then
    some { service := service, username := username, password := password, ttyName := ttyName
           pamHandle := true, calls := [.start] }
  else none

/-- `tlm_auth_session_putenv`. -/
def putenv (a : AuthSession) (var : String) (value : Option String) : AuthSession :=
  a.call (.putenv (match value with
    | some v => var ++ "=" ++ v
    | none => var))

/-- `tlm_auth_session_authenticate`. -/
def authenticate (pam : Pam) (a : AuthSession) : AuthSession × Bool :=
  let a := match (pam.display.orElse fun _ => pam.ttyname).orElse fun _ => a.ttyName with
    | some tty => a.call (.setTty tty)
    | none => a
  let a := (a.call (.setRuser pam.ruser)).call (.setRhost "localhost")
  (a.call (.authenticate pam.authenticate), pam.authenticate)

/-- `tlm_auth_session_open`. If the credentials cannot be reinitialised, the PAM
session it has just opened is closed again. -/
def openSession (pam : Pam) (a : AuthSession) : AuthSession × Bool :=
  let a := a.call (.setcred .establish (pam.setcred .establish))
  if pam.setcred .establish then
    let a := a.call (.openSession pam.openSession)
    if pam.openSession then
      let a := a.call (.setcred .reinit (pam.setcred .reinit))
      if pam.setcred .reinit then ({ a with sessionId := pam.logindSessionId }, true)
      else (a.call .closeSession, false)
    else (a, false)
  else (a, false)

/-- `_auth_session_stop`. -/
def stop (pam : Pam) (a : AuthSession) : AuthSession :=
  let a := a.call (.setcred .delete (pam.setcred .delete))
  { (a.call .closeSession).call .endHandle with pamHandle := false }

/-- `tlm_auth_session_dispose`. -/
def dispose (pam : Pam) (a : AuthSession) : AuthSession :=
  if a.pamHandle then a.stop pam else a

end AuthSession

/-! ## Brackets -/

namespace PamCall

/-- A PAM session was opened. -/
def opens : PamCall → Bool
  | .openSession ok => ok
  | _ => false

/-- One was closed. -/
def closes : PamCall → Bool
  | .closeSession => true
  | _ => false

end PamCall

/-- No prefix of the calls closes more sessions than it has opened, and when the
handle is ended as many have been closed as opened. -/
def Bracketed (calls : List PamCall) : Prop :=
  (∀ pre, pre <+: calls → pre.countP PamCall.closes ≤ pre.countP PamCall.opens) ∧
    ∀ pre, pre ++ [.endHandle] <+: calls → pre.countP PamCall.closes = pre.countP PamCall.opens

namespace AuthSession

variable {a : AuthSession} {pam : Pam}

/-- The handle's session is open: one more has been opened than closed. -/
def isOpen (a : AuthSession) : Bool :=
  a.calls.countP PamCall.opens == a.calls.countP PamCall.closes + 1

end AuthSession

end Tlm
