import Mathlib.Data.List.Basic
import Mathlib.Data.Int.Init

/-!
# The daemon's handle on a session process (`tlm-session-remote.c`)

A `TlmSessionRemote` owns one `tlm-sessiond` child and the D-Bus proxy to it.
It hears of its child in six ways (`SessionEvent`) and passes the news on as
one of three signals (`SessionSignal`), or as none: `can_emit_signal` silences
a handle that is being disposed, and disposal drops the proxy.

Three pieces of GLib bookkeeping are part of the object here, because the rest
of the daemon relies on them: the **signal handlers** connected to it, its live
**timer sources** — `timer_id` only remembers one of them — and the **pending
reply** of the asynchronous `sessionCreate` call.

The wait loop of `tlm_session_remote_dispose` returns when the child is down.
Here handlers run to completion one at a time, so what `dispose` leaves behind
is the handle after that child's exit: what the main context dispatches from
inside the loop is left out. (`Remote` has the loop of one handle, and
`Observer.Nested` the dispatches of an observer from inside of it.)

Behind `dispose` the object is **finalized**. Two kinds of callbacks have been
given the handle without a reference, and nobody takes them back: that of the
outstanding create call, and those of timers that `timer_id` has forgotten.
When one of them comes, it runs on freed memory. From then on the process may
do anything; the handle only notes it, in `dangled`.
-/

namespace Tlm

/-- `TlmError`, as far as the daemon raises it. -/
inductive TlmError : Type where
  | invalidInput
  | seatNotFound
  | sessionCreationFailure
  | sessionAlreadyExists
  | sessionNotValid
  | sessionTerminationFailure
  | dbusServerStartFailure
  | pamAuthFailure
  | dbusReqAborted
  | dbusReqNotSupported
  deriving DecidableEq, Repr

/-- The numeric code of an error. Errors that arrive over D-Bus are compared by
this number alone, whatever their domain. -/
def TlmError.code : TlmError → ℤ
  | .invalidInput => 32
  | .seatNotFound => 33
  | .sessionCreationFailure => 34
  | .sessionAlreadyExists => 35
  | .sessionNotValid => 36
  | .sessionTerminationFailure => 37
  | .dbusServerStartFailure => 38
  | .pamAuthFailure => 39
  | .dbusReqAborted => 50
  | .dbusReqNotSupported => 51

/-- The signals a terminating handle sends its child, in the order of
escalation. -/
inductive KillSignal : Type where
  | hup
  | term
  | kill
  deriving DecidableEq, Repr

/-- The three signals of a session handle that its seat connects to. -/
inductive Handler : Type where
  | sessionCreated
  | sessionTerminated
  | sessionError
  deriving DecidableEq, Repr

/-- An emission of a session handle. -/
inductive SessionSignal : Type where
  /-- `session-created` -/
  | created
  /-- `session-terminated` -/
  | terminated
  /-- `session-error`, with the error's code -/
  | error (code : ℤ)
  deriving DecidableEq, Repr

/-- The handler an emission runs. -/
def SessionSignal.handler : SessionSignal → Handler
  | .created => .sessionCreated
  | .terminated => .sessionTerminated
  | .error _ => .sessionError

/-- What can happen to a session handle from outside. -/
inductive SessionEvent : Type where
  /-- sessiond's D-Bus `session-created` signal -/
  | created
  /-- sessiond's D-Bus `session-terminated` signal -/
  | terminated
  /-- sessiond's D-Bus `error` signal -/
  | error (code : ℤ)
  /-- the child-exit watch -/
  | childDown
  /-- a tick of the `_terminate_timeout` source with this id -/
  | terminateTimeout (source : ℕ)
  /-- the reply of the asynchronous create call, an error or not -/
  | createReply (error : Option ℤ)
  deriving DecidableEq, Repr

/-- A `TlmSessionRemote`. -/
structure SessionRemote where
  /-- property `seatid` -/
  seatid : String := ""
  /-- property `service` -/
  service : String := ""
  /-- property `username`; `NULL` is `none` -/
  username : Option String := none
  /-- `is_sessiond_up` -/
  isSessiondUp : Bool := false
  /-- `child_watch_id` is non-zero -/
  childWatch : Bool := false
  /-- `last_sig`; `none` before the first termination request -/
  lastSig : Option KillSignal := none
  /-- `timer_id`, zero when none is recorded -/
  timerId : ℕ := 0
  /-- `can_emit_signal` -/
  canEmitSignal : Bool := false
  /-- `dbus_session_proxy` is there, with its four signal connections -/
  proxy : Bool := false
  /-- the reply of `tlm_dbus_session_call_session_create` is outstanding -/
  createPending : Bool := false
  /-- the handlers its seat has connected, with multiplicity -/
  handlers : List Handler := []
  /-- the live `_terminate_timeout` sources, recorded in `timer_id` or not -/
  timers : List ℕ := []
  /-- how many sources it has created; ids start at one -/
  sources : ℕ := 0
  /-- the signals sent to the child, each with whether the child was up -/
  kills : List (KillSignal × Bool) := []
  /-- it was finalized, and its memory is free -/
  finalized : Bool := false
  /-- a callback has run on it since -/
  dangled : Bool := false
  deriving DecidableEq, Repr, Inhabited

namespace SessionRemote

/-- `kill (cpid, sig)` and `last_sig = sig`. -/
def sendSignal (m : SessionRemote) (sig : KillSignal) : SessionRemote :=
  { m with lastSig := some sig, kills := m.kills ++ [(sig, m.isSessiondUp)] }

/-- `g_source_remove (timer_id); timer_id = 0`, if a timer is recorded. -/
def removeTimer (m : SessionRemote) : SessionRemote :=
  if m.timerId = 0 then m else { m with timers := m.timers.erase m.timerId, timerId := 0 }

/-- `tlm_session_remote_terminate`: ask the child to go and start the
escalation timer. The id of an earlier timer is overwritten, its source is not
removed. -/
def terminate (m : SessionRemote) : SessionRemote × Bool :=
  if m.isSessiondUp then
    let m := m.sendSignal .hup
    ({ m with timerId := m.sources + 1, timers := m.timers ++ [m.sources + 1],
              sources := m.sources + 1 }, true)
  else (m, false)

/-- `_on_child_down_cb`. -/
def onChildDown (m : SessionRemote) : SessionRemote × List SessionSignal :=
  (({ m with isSessiondUp := false, childWatch := false }).removeTimer,
    if m.canEmitSignal then [.terminated] else [])

/-- `_terminate_timeout`, for the live source `source`. A source whose callback
returns `G_SOURCE_REMOVE` is gone. -/
def terminateTimeout (source : ℕ) (m : SessionRemote) : SessionRemote × List SessionSignal :=
  match m.lastSig with
  | some .hup => (m.sendSignal .term, [])
  | some .term => (m.sendSignal .kill, [])
  | some .kill =>
    ({ m with timerId := 0, timers := m.timers.erase source },
      if m.canEmitSignal then [.error TlmError.sessionTerminationFailure.code] else [])
  | none => ({ m with timers := m.timers.erase source }, [])

/-- `tlm_session_remote_dispose`, from the moment the last reference goes to the
end of the wait loop, and `tlm_session_remote_finalize`. -/
def dispose (m : SessionRemote) : SessionRemote :=
  let m := { m with canEmitSignal := false }
  let m := if m.isSessiondUp then m.terminate.1.onChildDown.1 else m
  { m.removeTimer with lastSig := none, childWatch := false, proxy := false, finalized := true }

/-- `tlm_session_remote_new`, up to the creation of the proxy: the child runs
and its exit is watched, but the object emits nothing yet. -/
def spawned : SessionRemote := { isSessiondUp := true, childWatch := true }

/-- `tlm_session_remote_new`, once the proxy is there: connect to it, set the
properties, and start emitting. -/
def connect (seatid service : String) (username : Option String) (m : SessionRemote) :
    SessionRemote :=
  { m with proxy := true, seatid := seatid, service := service, username := username,
           canEmitSignal := true }

/-- Whether there still is somebody to call back when the event comes: a
connection to the proxy, the watch, the timer, the outstanding call. -/
def awaits (m : SessionRemote) : SessionEvent → Bool
  | .created => m.proxy
  | .terminated => m.proxy
  | .error _ => m.proxy
  | .childDown => m.childWatch
  | .terminateTimeout source => source ∈ m.timers
  | .createReply _ => m.createPending

/-- The callback of an event: the object afterwards, and what it emits. An event
whose source is gone — no watch, no such timer, no proxy, no outstanding call —
does not happen. The `session-created` forwarder and the reply of the create
call emit whether or not `can_emit_signal` is set. -/
def callback (m : SessionRemote) : SessionEvent → SessionRemote × List SessionSignal
  | .created => (m, if m.proxy then [.created] else [])
  | .terminated => (m, if m.proxy && m.canEmitSignal then [.terminated] else [])
  | .error code => (m, if m.proxy && m.canEmitSignal then [.error code] else [])
  | .childDown => if m.childWatch then m.onChildDown else (m, [])
  | .terminateTimeout source => if source ∈ m.timers then m.terminateTimeout source else (m, [])
  | .createReply err =>
    if m.createPending then
      ({ m with createPending := false }, match err with
        | none => []
        | some code => [.error code])
    else (m, [])

/-- An event is about a handle that was finalized, and its callback still runs. -/
def Dangles (m : SessionRemote) (e : SessionEvent) : Prop :=
  m.finalized = true ∧ m.awaits e = true

instance (m : SessionRemote) (e : SessionEvent) : Decidable (m.Dangles e) :=
  inferInstanceAs (Decidable (_ ∧ _))

/-- Handle one event. A callback on a finalized object is noted, and what it
does then is not known. -/
def handle (m : SessionRemote) (e : SessionEvent) : SessionRemote × List SessionSignal :=
  if m.finalized then (if m.awaits e then { m with dangled := true } else m, [])
  else m.callback e

/-! ## What the operations leave alone -/

@[simp] theorem removeTimer_isSessiondUp (m : SessionRemote) :
    m.removeTimer.isSessiondUp = m.isSessiondUp := by
  simp only [removeTimer]
  split <;> rfl

@[simp] theorem removeTimer_childWatch (m : SessionRemote) :
    m.removeTimer.childWatch = m.childWatch := by
  simp only [removeTimer]
  split <;> rfl

@[simp] theorem removeTimer_canEmitSignal (m : SessionRemote) :
    m.removeTimer.canEmitSignal = m.canEmitSignal := by
  simp only [removeTimer]
  split <;> rfl

@[simp] theorem terminate_canEmitSignal (m : SessionRemote) :
    m.terminate.1.canEmitSignal = m.canEmitSignal := by
  simp only [terminate]
  split <;> rfl

@[simp] theorem removeTimer_finalized (m : SessionRemote) :
    m.removeTimer.finalized = m.finalized := by
  simp only [removeTimer]
  split <;> rfl

@[simp] theorem terminate_finalized (m : SessionRemote) :
    m.terminate.1.finalized = m.finalized := by
  simp only [terminate]
  split <;> rfl

@[simp] theorem removeTimer_dangled (m : SessionRemote) : m.removeTimer.dangled = m.dangled := by
  simp only [removeTimer]
  split <;> rfl

@[simp] theorem terminate_dangled (m : SessionRemote) : m.terminate.1.dangled = m.dangled := by
  simp only [terminate]
  split <;> rfl

@[simp] theorem dispose_dangled (m : SessionRemote) : m.dispose.dangled = m.dangled := by
  simp only [dispose]
  split <;> simp [onChildDown]

/-- The parts of a handle that no event touches: whom it is for, and who
listens. -/
def SameIdentity (m m' : SessionRemote) : Prop :=
  m'.username = m.username ∧ m'.handlers = m.handlers

theorem SameIdentity.refl (m : SessionRemote) : m.SameIdentity m := ⟨rfl, rfl⟩

theorem SameIdentity.trans {a b c : SessionRemote} (h₁ : a.SameIdentity b)
    (h₂ : b.SameIdentity c) : a.SameIdentity c :=
  ⟨h₂.1.trans h₁.1, h₂.2.trans h₁.2⟩

theorem sameIdentity_removeTimer (m : SessionRemote) : m.SameIdentity m.removeTimer := by
  simp only [removeTimer]
  split
  · exact SameIdentity.refl m
  · exact ⟨rfl, rfl⟩

theorem sameIdentity_terminate (m : SessionRemote) : m.SameIdentity m.terminate.1 := by
  simp only [terminate]
  split
  · exact ⟨rfl, rfl⟩
  · exact SameIdentity.refl m

theorem sameIdentity_onChildDown (m : SessionRemote) : m.SameIdentity m.onChildDown.1 := by
  have h := sameIdentity_removeTimer { m with isSessiondUp := false, childWatch := false }
  exact ⟨h.1, h.2⟩

theorem sameIdentity_dispose (m : SessionRemote) : m.SameIdentity m.dispose := by
  simp only [dispose]
  split
  · have h₁ := sameIdentity_terminate { m with canEmitSignal := false }
    have h₂ := h₁.trans (sameIdentity_onChildDown _)
    have h₃ := h₂.trans (sameIdentity_removeTimer _)
    exact ⟨h₃.1, h₃.2⟩
  · have h := sameIdentity_removeTimer { m with canEmitSignal := false }
    exact ⟨h.1, h.2⟩

theorem sameIdentity_callback (m : SessionRemote) (e : SessionEvent) :
    m.SameIdentity (m.callback e).1 := by
  cases e with
  | created => exact SameIdentity.refl m
  | terminated => exact SameIdentity.refl m
  | error code => exact SameIdentity.refl m
  | childDown =>
    simp only [callback]
    split
    · exact sameIdentity_onChildDown m
    · exact SameIdentity.refl m
  | terminateTimeout source =>
    simp only [callback]
    split
    · simp only [terminateTimeout]
      split <;> exact ⟨rfl, rfl⟩
    · exact SameIdentity.refl m
  | createReply err =>
    simp only [callback]
    split <;> exact ⟨rfl, rfl⟩

/-! ## Finalized handles -/

theorem handle_of_live {m : SessionRemote} (h : m.finalized = false) (e : SessionEvent) :
    m.handle e = m.callback e := by
  rw [handle, h]
  rfl

/-- To a finalized handle nothing happens, but that it may be noted that something has. -/
theorem handle_of_finalized {m : SessionRemote} (h : m.finalized = true) (e : SessionEvent) :
    m.handle e = (if m.awaits e then { m with dangled := true } else m, []) := by
  rw [handle, h]
  rfl

/-- A callback neither silences its handle nor finalizes it, nor makes it a dangling one. -/
theorem callback_frame (m : SessionRemote) (e : SessionEvent) :
    (m.callback e).1.canEmitSignal = m.canEmitSignal ∧
      (m.callback e).1.finalized = m.finalized ∧ (m.callback e).1.dangled = m.dangled := by
  cases e with
  | created => exact ⟨rfl, rfl, rfl⟩
  | terminated => exact ⟨rfl, rfl, rfl⟩
  | error code => exact ⟨rfl, rfl, rfl⟩
  | childDown =>
    simp only [callback]
    split
    · simp [onChildDown]
    · exact ⟨rfl, rfl, rfl⟩
  | terminateTimeout source =>
    simp only [callback]
    split
    · simp only [terminateTimeout]
      split <;> exact ⟨rfl, rfl, rfl⟩
    · exact ⟨rfl, rfl, rfl⟩
  | createReply err =>
    simp only [callback]
    split <;> exact ⟨rfl, rfl, rfl⟩

@[simp] theorem handle_canEmitSignal (m : SessionRemote) (e : SessionEvent) :
    (m.handle e).1.canEmitSignal = m.canEmitSignal := by
  simp only [handle]
  split
  · split <;> rfl
  · exact (callback_frame m e).1

@[simp] theorem handle_finalized (m : SessionRemote) (e : SessionEvent) :
    (m.handle e).1.finalized = m.finalized := by
  simp only [handle]
  split
  · split <;> rfl
  · exact (callback_frame m e).2.1

/-- A callback dangles exactly if it runs on a finalized handle. -/
theorem handle_dangled (m : SessionRemote) (e : SessionEvent) :
    (m.handle e).1.dangled = (m.dangled || decide (m.Dangles e)) := by
  cases hf : m.finalized with
  | false =>
    have hsafe : ¬ m.Dangles e := by simp [Dangles, hf]
    rw [handle_of_live hf, (callback_frame m e).2.2, decide_eq_false hsafe, Bool.or_false]
  | true =>
    rw [handle_of_finalized hf]
    cases ha : m.awaits e with
    | false =>
      have hsafe : ¬ m.Dangles e := by simp [Dangles, ha]
      rw [decide_eq_false hsafe, Bool.or_false]
      rfl
    | true =>
      have hbad : m.Dangles e := ⟨hf, ha⟩
      rw [decide_eq_true hbad, Bool.or_true]
      rfl

/-- No event changes whom a handle is for or who listens to it. -/
theorem sameIdentity_handle (m : SessionRemote) (e : SessionEvent) :
    m.SameIdentity (m.handle e).1 := by
  simp only [handle]
  split
  · split <;> exact ⟨rfl, rfl⟩
  · exact sameIdentity_callback m e

end SessionRemote

end Tlm
