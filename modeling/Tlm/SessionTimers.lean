import Tlm.Escalation
import Tlm.Run
import Tlm.SessionSpec

/-!
# The escalation timers

Both ends of a session — the daemon's handle on the process, and the session in
the process — end their child by the same escalation: `SIGHUP` at once, then
`SIGTERM` and `SIGKILL` at the ticks of a timer. Both are instances of
`Escalation`, and both start a **new** timer at every request, without removing
the one they may already have.

`run_one_timer` says what that costs. As long as nobody asks again while a timer
is recorded, a session has at most one timer, the one in `timer_id`, and none
without a child; each escalation sends each signal at most once, and only to a
child that is up. The first overlapping request breaks this for good, and the
disposal of a handle that was already asked to terminate is such a request.
-/

namespace Tlm

/-- The order of the signals. -/
def KillSignal.next : KillSignal → Option KillSignal
  | .hup => some .term
  | .term => some .kill
  | .kill => none

/-- One escalation sends each signal at most once, in order. -/
theorem ladder_prefix {l : List KillSignal} {s : KillSignal}
    (h : Escalation.Ladder .hup KillSignal.next l s) :
    match s with
    | .hup => l = [.hup]
    | .term => l = [.hup, .term]
    | .kill => l = [.hup, .term, .kill] := by
  induction h with
  | base => rfl
  | climb _ hs ih =>
    rename_i l s s' _
    cases s with
    | hup =>
      obtain rfl := Option.some.inj hs
      simp only [show l = [.hup] from ih]
      rfl
    | term =>
      obtain rfl := Option.some.inj hs
      simp only [show l = [.hup, .term] from ih]
      rfl
    | kill => cases hs

/-- A supervisor that keeps its timers in order: at most one is live, it is the
recorded one, and none is live without a child or once the object is `gone`; the
signals sent are escalations, each of them a beginning of `SIGHUP`, `SIGTERM`,
`SIGKILL`, and none was sent for a child that is gone. -/
structure Careful (gone : Prop) (e : Escalation KillSignal) : Prop where
  sole : ∀ t ∈ e.live, t = e.recorded
  atMostOne : e.live.length ≤ 1
  idle : e.up = false → e.live = []
  gone : gone → e.live = []
  escalations : ∃ ls : List (List KillSignal), e.sent.map Prod.fst = ls.flatten ∧
    ∀ l ∈ ls, l <+: [.hup, .term, .kill]
  alive : ∀ p ∈ e.sent, p.2 = true

/-- Given what any run keeps, this comes down to soundness. -/
theorem careful_iff {gone : Prop} {e : Escalation KillSignal}
    (hw : e.Wf .hup KillSignal.next) (hgone : gone → e.up = false) :
    Careful gone e ↔ e.Sound := by
  constructor
  · exact fun h => ⟨h.sole, h.idle, h.alive⟩
  · intro h
    refine ⟨h.sole, ?_, h.idle, fun hg => h.idle (hgone hg), ?_, h.alive⟩
    · rw [h.live_eq hw]
      split <;> simp
    · obtain ⟨ls, hsent, hls, -⟩ := hw.ladders
      refine ⟨ls, hsent, fun l hl => ?_⟩
      obtain ⟨s, hs⟩ := hls l hl
      have hl' := ladder_prefix hs
      cases s with
      | hup => rw [show l = _ from hl']; decide
      | term => rw [show l = _ from hl']; decide
      | kill =>
        obtain rfl : l = [.hup, .term, .kill] := hl'
        exact List.prefix_refl _

/-! ## The daemon's handle -/

/-- The escalation of a handle. -/
def SessionRemote.escalation (m : SessionRemote) : Escalation KillSignal :=
  ⟨m.isSessiondUp, m.lastSig, m.timerId, m.timers, m.sources, m.kills⟩

namespace SessionRemote

variable (m : SessionRemote)

theorem removeTimer_escalation : m.removeTimer.escalation = m.escalation.drop := by
  by_cases h : m.timerId = 0 <;> simp [removeTimer, Escalation.drop, escalation, h]

theorem terminate_escalation : m.terminate.1.escalation = m.escalation.request .hup := by
  by_cases h : m.isSessiondUp = true <;>
    simp [terminate, sendSignal, Escalation.request, Escalation.send, escalation, h]

theorem onChildDown_escalation : m.onChildDown.1.escalation = m.escalation.reap :=
  removeTimer_escalation _

theorem terminateTimeout_escalation (source : ℕ) :
    (m.terminateTimeout source).1.escalation = m.escalation.tick KillSignal.next source := by
  simp only [terminateTimeout, Escalation.tick, escalation]
  rcases m.lastSig with _ | _ | _ | _ <;> rfl

end SessionRemote

/-- A handle with its life. -/
structure Remote where
  /-- the handle -/
  remote : SessionRemote
  /-- where it is in its life -/
  phase : Phase := .alive

/-- What can happen to a handle. -/
inductive RemoteStep : Type where
  /-- `tlm_session_remote_terminate` -/
  | terminate
  /-- something is heard of the child -/
  | event (e : SessionEvent)
  /-- the last reference goes -/
  | dispose
  deriving DecidableEq, Repr

namespace Remote

/-- `tlm_session_remote_new`. -/
def new (seatid service : String) (username : Option String) : Remote :=
  ⟨SessionRemote.spawned.connect seatid service username, .alive⟩

/-- The part of `tlm_session_remote_dispose` behind its wait loop, and
`tlm_session_remote_finalize`. -/
def finish (m : SessionRemote) : SessionRemote :=
  { m.removeTimer with lastSig := none, childWatch := false, proxy := false, finalized := true }

/-- The test of the wait loop. -/
def settle (r : Remote) : Remote :=
  if r.phase = .disposing ∧ r.remote.isSessiondUp = false then ⟨finish r.remote, .disposed⟩ else r

/-- Run the handler of an event. -/
def dispatch (r : Remote) (st : RemoteStep) : Remote :=
  match st with
  | .terminate => if r.phase = .disposed then r else { r with remote := r.remote.terminate.1 }
  | .event e => { r with remote := (r.remote.handle e).1 }
  | .dispose =>
    if r.phase = .alive then
      ⟨(show SessionRemote from { r.remote with canEmitSignal := false }).terminate.1, .disposing⟩
    else r

/-- One step. -/
def step (r : Remote) (st : RemoteStep) : Remote := (r.dispatch st).settle

/-- The daemon's model disposes of a handle in one go: that is the run in which
the first thing to happen in the wait loop is the exit of the child. -/
theorem dispose_eq (m : SessionRemote) (hw : m.isSessiondUp = true ↔ m.childWatch = true)
    (hlive : m.finalized = false) :
    [RemoteStep.dispose, .event .childDown].foldl step ⟨m, .alive⟩ = ⟨m.dispose, .disposed⟩ := by
  cases hup : m.isSessiondUp with
  | false =>
    have hwatch : m.childWatch = false := by
      simpa [hup] using hw
    simp [step, dispatch, settle, finish, SessionRemote.dispose, SessionRemote.terminate,
      SessionRemote.handle, SessionRemote.awaits, hup]
  | true =>
    have hwatch := hw.mp hup
    simp [step, dispatch, settle, finish, SessionRemote.dispose, SessionRemote.terminate,
      SessionRemote.sendSignal, SessionRemote.handle, SessionRemote.callback,
      SessionRemote.onChildDown, hup, hwatch, hlive]

/-- A handle is finalized when it was disposed of, and not before. -/
def Lives (r : Remote) : Prop := r.remote.finalized = true ↔ r.phase = .disposed

theorem lives_dispatch {r : Remote} (h : Lives r) (st : RemoteStep) : Lives (r.dispatch st) := by
  cases st with
  | terminate =>
    simp only [dispatch]
    split
    · exact h
    · simpa [Lives] using h
  | event e => simpa [Lives, dispatch] using h
  | dispose =>
    simp only [dispatch]
    split
    · rename_i halive
      have hnot : ¬ r.remote.finalized = true := fun hf => by
        have hdone : r.phase = .disposed := h.mp hf
        rw [halive] at hdone
        cases hdone
      exact iff_of_false (by simpa using hnot) (by simp)
    · exact h

theorem lives_step {r : Remote} (h : Lives r) (st : RemoteStep) : Lives (r.step st) := by
  have hdispatch := lives_dispatch h st
  simp only [step, settle]
  split
  · exact iff_of_true rfl rfl
  · exact hdispatch

/-- Behind the wait loop the timer is stopped and the signal forgotten. -/
theorem finish_escalation (m : SessionRemote) : (finish m).escalation = m.escalation.forget := by
  have h := SessionRemote.removeTimer_escalation m
  simp only [Escalation.forget, ← h]
  rfl

/-- A request that comes while a timer is recorded. -/
def Overlaps (r : Remote) : RemoteStep → Prop
  | .terminate => r.phase ≠ .disposed ∧ r.remote.isSessiondUp = true ∧ r.remote.timerId ≠ 0
  | .event _ => False
  | .dispose => r.phase = .alive ∧ r.remote.isSessiondUp = true ∧ r.remote.timerId ≠ 0

/-- What any run keeps. -/
structure Ok (r : Remote) : Prop where
  wf : r.remote.escalation.Wf .hup KillSignal.next
  gone : r.phase = .disposed → r.remote.isSessiondUp = false

variable {r : Remote} {m : SessionRemote}

/-- No event of the child is a request. -/
theorem callback_quiet (m : SessionRemote) (e : SessionEvent) :
    Escalation.Quiet KillSignal.next m.escalation (m.callback e).1.escalation := by
  cases e with
  | created => exact .refl _
  | terminated => exact .refl _
  | error code => exact .refl _
  | childDown =>
    simp only [SessionRemote.callback]
    split
    · rw [m.onChildDown_escalation]
      exact .reap _
    · exact .refl _
  | terminateTimeout source =>
    simp only [SessionRemote.callback]
    split
    · rename_i hlive
      rw [m.terminateTimeout_escalation source]
      exact .tick _ hlive
    · exact .refl _
  | createReply err =>
    simp only [SessionRemote.callback]
    split <;> exact .refl _

theorem handle_quiet (m : SessionRemote) (e : SessionEvent) :
    Escalation.Quiet KillSignal.next m.escalation (m.handle e).1.escalation := by
  simp only [SessionRemote.handle]
  split
  · split <;> exact .refl _
  · exact callback_quiet m e

/-- Nor is the end of the wait loop. -/
theorem settle_quiet (r : Remote) :
    Escalation.Quiet KillSignal.next r.remote.escalation r.settle.remote.escalation := by
  simp only [settle]
  split
  · rw [finish_escalation]
    exact .forget _
  · exact .refl _

/-- While the child is up the wait goes on. -/
theorem settle_of_up (h : r.remote.isSessiondUp = true) : r.settle = r := by
  simp [settle, h]

theorem callback_down (e : SessionEvent) (h : m.isSessiondUp = false) :
    (m.callback e).1.isSessiondUp = false := by
  cases e with
  | childDown =>
    simp only [SessionRemote.callback]
    split
    · simp only [SessionRemote.onChildDown, SessionRemote.removeTimer]
      split <;> rfl
    · exact h
  | terminateTimeout source =>
    simp only [SessionRemote.callback]
    split
    · simp only [SessionRemote.terminateTimeout]
      split <;> exact h
    · exact h
  | createReply err =>
    simp only [SessionRemote.callback]
    split <;> exact h
  | created => exact h
  | terminated => exact h
  | error code => exact h

theorem handle_down (e : SessionEvent) (h : m.isSessiondUp = false) :
    (m.handle e).1.isSessiondUp = false := by
  simp only [SessionRemote.handle]
  split
  · split <;> exact h
  · exact callback_down e h

theorem terminate_up : m.terminate.1.isSessiondUp = m.isSessiondUp := by
  simp only [SessionRemote.terminate]
  split <;> rfl

theorem settle_ok (h : r.Ok) : r.settle.Ok := by
  refine ⟨(settle_quiet r).wf h.wf, ?_⟩
  simp only [settle]
  split
  · rename_i hdone
    intro _
    simp only [finish, SessionRemote.removeTimer]
    split <;> exact hdone.2
  · exact h.gone

theorem dispatch_ok (h : r.Ok) (st : RemoteStep) : (r.dispatch st).Ok := by
  have hrequest : r.remote.terminate.1.escalation.Wf .hup KillSignal.next := by
    rw [SessionRemote.terminate_escalation]
    exact Escalation.request_wf h.wf
  cases st with
  | terminate =>
    simp only [dispatch]
    split
    · exact h
    · rename_i hlive
      exact ⟨hrequest, fun hgone => absurd hgone hlive⟩
  | event e => exact ⟨(handle_quiet _ e).wf h.wf, fun hgone => handle_down e (h.gone hgone)⟩
  | dispose =>
    simp only [dispatch]
    split
    · refine ⟨?_, fun hgone => by cases hgone⟩
      rw [SessionRemote.terminate_escalation]
      exact Escalation.request_wf h.wf
    · exact h

/-- The handle of a step: the request of a `terminate` or `dispose` that gets
through, then perhaps the end of the wait loop. -/
theorem settle_request_sound_iff {phase : Phase} (hw : m.escalation.Wf .hup KillSignal.next)
    (hs : m.escalation.Sound) :
    (settle ⟨m.terminate.1, phase⟩).remote.escalation.Sound ↔
      ¬ (m.isSessiondUp = true ∧ m.timerId ≠ 0) := by
  have hq := settle_quiet ⟨m.terminate.1, phase⟩
  simp only [SessionRemote.terminate_escalation] at hq
  refine Escalation.request_quiet_sound_iff hw hs hq fun hup => ?_
  rw [settle_of_up (r := ⟨m.terminate.1, phase⟩) (terminate_up.trans hup)]
  exact m.terminate_escalation

/-- **One step keeps the timers in order just when it is no overlapping
request.** -/
theorem step_sound_iff (h : r.Ok) (hs : r.remote.escalation.Sound) (st : RemoteStep) :
    (r.step st).remote.escalation.Sound ↔ ¬ r.Overlaps st := by
  cases st with
  | terminate =>
    simp only [step, dispatch, Overlaps]
    split
    · rename_i hgone
      simp [hgone, (settle_quiet r).sound h.wf hs]
    · rename_i hlive
      simp only [hlive, ne_eq, not_false_eq_true, true_and]
      exact settle_request_sound_iff h.wf hs
  | event e =>
    have hw := (handle_quiet r.remote e).wf h.wf
    have hs := (handle_quiet r.remote e).sound h.wf hs
    simp only [Overlaps, not_false_eq_true, iff_true]
    exact (settle_quiet _).sound hw hs
  | dispose =>
    simp only [step, dispatch, Overlaps]
    split
    · rename_i halive
      simp only [halive, true_and]
      exact settle_request_sound_iff (m := { r.remote with canEmitSignal := false }) h.wf hs
    · rename_i halive
      simp [halive, (settle_quiet r).sound h.wf hs]

end Remote

/-! ## The session in its process -/

/-- The escalation of a child. -/
def Child.escalation (c : Child) : Escalation KillSignal :=
  ⟨c.isChildUp, c.lastSig, c.timerId, c.timers, c.sources, c.kills⟩

/-- The escalation of a session. -/
def Session.escalation (s : Session) : Escalation KillSignal := s.child.escalation

namespace Session

variable {s s' : Session} {pam : Pam}

/-- A request that comes while a timer is recorded. -/
def Overlaps (s : Session) (i : SessionInput) : Prop :=
  s.exited = false ∧ s.isChildUp = true ∧ s.timerId ≠ 0 ∧
    match i.event with
    | .terminate => s.phase ≠ .disposed
    | .dispose => s.phase = .alive
    | _ => False

/-- What any run keeps. -/
structure Ok (s : Session) : Prop where
  wf : s.escalation.Wf .hup KillSignal.next
  gone : s.phase = .disposed → s.isChildUp = false

theorem escalation_congr (h : s'.child = s.child) : s'.escalation = s.escalation :=
  congrArg Child.escalation h

theorem removeTimer_escalation : s.removeTimer.escalation = s.escalation.drop := by
  by_cases h : s.timerId = 0 <;>
    simp [removeTimer, Escalation.drop, escalation, Child.escalation, child, h]

theorem removeWatch_escalation : s.removeWatch.escalation = s.escalation := by
  simp only [removeWatch]
  split <;> rfl

theorem clearSession_escalation : (s.clearSession pam).escalation = s.escalation.drop := by
  rw [escalation_congr clearSession_child, removeWatch_escalation, removeTimer_escalation]

theorem forkChild_escalation (host : Host) :
    (execUserSession.forkChild host s).escalation = s.escalation.spawn := by
  simp only [execUserSession.forkChild]
  split <;> rfl

theorem start_quiet (cfg : Config) (host : Host) (args : StartArgs) :
    Escalation.Quiet KillSignal.next s.escalation (s.start cfg host args).escalation := by
  have h := start_child (s := s) cfg host args
  split at h
  · rw [escalation_congr h, forkChild_escalation]
    exact .spawn _
  · rw [escalation_congr h]
    exact .refl _

theorem onChildDown_escalation (w : ℕ) :
    (s.onChildDown pam w).escalation = s.escalation.reap := by
  simp only [onChildDown]
  rw [escalation_congr (tell_child _), clearSession_escalation]
  rfl

theorem terminateTimeout_escalation (source : ℕ) :
    (s.terminateTimeout pam source).escalation = s.escalation.tick KillSignal.next source := by
  have hlast : s.escalation.last = s.lastSig := rfl
  simp only [terminateTimeout, Escalation.tick, hlast]
  rcases s.lastSig with _ | _ | _ | _
  · rfl
  · rfl
  · rfl
  · -- `timer_id` is cleared first, so that `_clear_session` finds no timer to remove
    simp only [escalation_congr (tell_child _), clearSession_escalation]
    rfl

/-- A request to a session that has a child. -/
theorem terminate_escalation (h : s.isChildUp = true) :
    (s.terminate pam).escalation = s.escalation.request .hup := by
  have hup : s.escalation.up = true := h
  simp only [terminate, h, if_true, Escalation.request, hup]
  rfl

/-- A request to one that has none. -/
theorem terminate_escalation_idle (h : s.isChildUp = false) :
    (s.terminate pam).escalation = s.escalation.drop := by
  simp only [terminate, h, Bool.false_eq_true, if_false]
  rw [escalation_congr (tell_child _), clearSession_escalation]

theorem settle_escalation : s.settle.escalation = s.escalation := by
  simp only [settle]
  split <;> rfl

/-- A request keeps the timers in order just when it does not overlap. -/
theorem terminate_sound_iff (hw : s.escalation.Wf .hup KillSignal.next) (hs : s.escalation.Sound) :
    (s.terminate pam).escalation.Sound ↔ ¬ (s.isChildUp = true ∧ s.timerId ≠ 0) := by
  cases hup : s.isChildUp with
  | true =>
    rw [terminate_escalation hup, Escalation.request_sound_iff hw hs]
    simp [escalation, Child.escalation, child, hup]
  | false =>
    rw [terminate_escalation_idle hup]
    simp [Escalation.drop_sound hw hs]

theorem terminate_wf (hw : s.escalation.Wf .hup KillSignal.next) :
    (s.terminate pam).escalation.Wf .hup KillSignal.next := by
  cases hup : s.isChildUp with
  | true =>
    rw [terminate_escalation hup]
    exact Escalation.request_wf hw
  | false =>
    rw [terminate_escalation_idle hup]
    exact Escalation.drop_wf hw

/-- An event that is no request. -/
theorem dispatch_quiet (i : SessionInput) (hterm : i.event ≠ .terminate) (hdisp : i.event ≠ .dispose) :
    Escalation.Quiet KillSignal.next s.escalation (s.dispatch i).escalation := by
  obtain ⟨pam, event⟩ := i
  cases event with
  | start cfg host args =>
    simp only [dispatch]
    split
    · exact .refl _
    · exact start_quiet cfg host args
  | terminate => exact absurd rfl hterm
  | terminateTimeout source =>
    simp only [dispatch]
    split
    · rename_i hlive
      rw [terminateTimeout_escalation]
      exact .tick _ hlive
    · exact .refl _
  | childDown w =>
    simp only [dispatch]
    split
    · rw [onChildDown_escalation]
      exact .reap _
    · exact .refl _
  | dispose => exact absurd rfl hdisp

theorem dispatch_wf (hw : s.escalation.Wf .hup KillSignal.next) (i : SessionInput) :
    (s.dispatch i).escalation.Wf .hup KillSignal.next := by
  obtain ⟨pam, event⟩ := i
  cases event with
  | terminate =>
    simp only [dispatch]
    split
    · exact hw
    · exact terminate_wf hw
  | dispose =>
    simp only [dispatch]
    split
    · exact terminate_wf (s := { s with canEmitSignal := false }) hw
    · exact hw
  | start cfg host args => exact (dispatch_quiet _ (by simp) (by simp)).wf hw
  | terminateTimeout source => exact (dispatch_quiet _ (by simp) (by simp)).wf hw
  | childDown w => exact (dispatch_quiet _ (by simp) (by simp)).wf hw

theorem dispatch_sound_iff (hw : s.escalation.Wf .hup KillSignal.next) (hs : s.escalation.Sound)
    (hrun : s.exited = false) (i : SessionInput) :
    (s.dispatch i).escalation.Sound ↔ ¬ s.Overlaps i := by
  have hquiet : i.event ≠ .terminate → i.event ≠ .dispose →
      (s.dispatch i).escalation.Sound := fun h₁ h₂ => (dispatch_quiet i h₁ h₂).sound hw hs
  obtain ⟨pam, event⟩ := i
  cases event with
  | terminate =>
    simp only [dispatch, Overlaps]
    split
    · rename_i hgone
      simp [hgone, hs]
    · rename_i hlive
      rw [terminate_sound_iff hw hs]
      simp [hlive, hrun]
  | dispose =>
    simp only [dispatch, Overlaps]
    split
    · rename_i halive
      have h : (Session.dispose pam s).escalation.Sound ↔ ¬ (s.isChildUp = true ∧ s.timerId ≠ 0) :=
        terminate_sound_iff (s := { s with canEmitSignal := false }) hw hs
      rw [h]
      simp [halive, hrun]
    · rename_i halive
      simp [halive, hs]
  | start cfg host args => simp [Overlaps, hquiet]
  | terminateTimeout source => simp [Overlaps, hquiet]
  | childDown w => simp [Overlaps, hquiet]

/-- **One step keeps the timers in order just when it is no overlapping
request.** -/
theorem step_ok (h : s.Ok) (hs : s.escalation.Sound) (i : SessionInput) :
    (s.step i).Ok ∧ ((s.step i).escalation.Sound ↔ ¬ s.Overlaps i) := by
  have hgone := step_gone i h.gone
  cases hrun : s.exited with
  | true =>
    rw [step_of_exited hrun]
    exact ⟨h, by simp [Overlaps, hrun, hs]⟩
  | false =>
    have hstep : (s.step i).escalation = (s.dispatch i).escalation := by
      rw [step_of_running hrun]
      exact settle_escalation
    refine ⟨⟨?_, hgone⟩, ?_⟩
    · rw [hstep]
      exact dispatch_wf h.wf i
    · rw [hstep]
      exact dispatch_sound_iff h.wf hs hrun i

end Session

/-! ## Whole runs -/

/-- **One escalation timer.** For the handle of the daemon and for the session in
its process: the timers are in order throughout a run exactly when no request of
the run — no `terminate`, and no disposal — comes while the child is up and a
timer is recorded. -/
theorem run_one_timer (seatid service : String) (username : Option String)
    (sts : List RemoteStep) (is : List SessionInput) :
    (Always Remote.step (fun r => Careful (r.phase = .disposed) r.remote.escalation)
          (Remote.new seatid service username) sts ↔
        Along Remote.step (fun r st => ¬ r.Overlaps st) (Remote.new seatid service username) sts) ∧
      (Always Session.step (fun s => Careful (s.phase = .disposed) s.escalation) {} is ↔
        Along Session.step (fun s i => ¬ s.Overlaps i) {} is) := by
  constructor
  · have hnew : (Remote.new seatid service username).Ok :=
      ⟨Escalation.wf_of_nil rfl rfl rfl rfl, fun h => by cases h⟩
    refine always_iff_along (E := fun _ => True) (I := Remote.Ok) ?_ hnew ?_ (fun _ _ => trivial)
    · intro r st _ hok hcareful
      have hs := (careful_iff hok.wf hok.gone).mp hcareful
      have hok' := Remote.settle_ok (Remote.dispatch_ok hok st)
      exact ⟨hok', (careful_iff hok'.wf hok'.gone).trans (Remote.step_sound_iff hok hs st)⟩
    · exact (careful_iff hnew.wf hnew.gone).mpr (Escalation.sound_of_nil rfl rfl)
  · have hnew : Session.Ok {} := ⟨Escalation.wf_of_nil rfl rfl rfl rfl, fun h => by cases h⟩
    refine always_iff_along (E := fun _ => True) (I := Session.Ok) ?_ hnew ?_ (fun _ _ => trivial)
    · intro s i _ hok hcareful
      have hs := (careful_iff hok.wf hok.gone).mp hcareful
      obtain ⟨hok', hiff⟩ := Session.step_ok hok hs i
      exact ⟨hok', (careful_iff hok'.wf hok'.gone).trans hiff⟩
    · exact (careful_iff hnew.wf hnew.gone).mpr (Escalation.sound_of_nil rfl rfl)

/-- Two requests in a row leave two timers, for a handle and for a session; the
first of them outlives the child. -/
theorem second_terminate_leaks_timer :
    (¬ Always Remote.step (fun r => Careful (r.phase = .disposed) r.remote.escalation)
      (Remote.new "seat0" "tlm-login" (some "user")) [.terminate, .terminate]) ∧
    ¬ Always Session.step (fun s => Careful (s.phase = .disposed) s.escalation) {}
      [⟨{}, .start ⟨fun _ => none⟩ {} { seatId := "seat0", service := "tlm-login", username := "user" }⟩,
        ⟨{}, .terminate⟩, ⟨{}, .terminate⟩] := by
  constructor
  · rintro ⟨-, -, h⟩
    have hone := h.atMostOne
    revert hone
    decide
  · rintro ⟨-, -, -, h⟩
    have hone := h.atMostOne
    revert hone
    decide

example :
    ([.terminate, .terminate, .event .childDown, .event (.terminateTimeout 1)].foldl Remote.step
      (Remote.new "seat0" "tlm-login" (some "user"))).remote.kills =
      [(.hup, true), (.hup, true), (.term, false)] := by
  decide

end Tlm
