import Tlm.Run
import Tlm.SessionSpec

/-!
# The wait for the child

`tlm_session_dispose` runs the main loop until `is_child_up` is cleared, and the
only event that clears it is the child watch in `child_watch_id`. Two operations
take the watch away and leave the flag: the tick that follows `SIGKILL`, since it
calls `_clear_session` on a session whose child is still up, and a `fork` that
fails, since `-1` is taken for a child that cannot be watched.

`run_watched` says that there is no third.
-/

namespace Tlm

namespace Session

variable {s s' : Session} {pam : Pam}

/-- The wait for the child can end: while a child is up its watch is recorded and
live, and the exit it reports clears the flag. -/
structure Watched (s : Session) : Prop where
  recorded : s.isChildUp = true → s.childWatchId ≠ 0
  live : s.isChildUp = true → s.childWatchId ∈ s.watches
  ends : s.isChildUp = true → s.exited = false → ∀ pam,
    (s.step ⟨pam, .childDown s.childWatchId⟩).isChildUp = false

/-- A step that takes the watch away from a child that is up. -/
def LosesWatch (s : Session) (i : SessionInput) : Prop :=
  s.exited = false ∧
    match i.event with
    | .start cfg host args =>
      s.phase ≠ .disposed ∧ reachesFork cfg host args = true ∧ host.fork = none
    | .terminateTimeout source =>
      source ∈ s.timers ∧ s.lastSig = some .kill ∧ s.isChildUp = true
    | _ => False

/-- A recorded watch is live. -/
def WatchLive (s : Session) : Prop := s.childWatchId ≠ 0 → s.childWatchId ∈ s.watches

/-- A child that is up has a watch on record. -/
def Recorded (s : Session) : Prop := s.isChildUp = true → s.childWatchId ≠ 0

/-- The watch of a child. -/
def watch (s : Session) : Bool × ℕ × List ℕ := (s.isChildUp, s.childWatchId, s.watches)

theorem watch_congr (h : s'.child = s.child) : s'.watch = s.watch :=
  congrArg (fun c : Child => (c.isChildUp, c.childWatchId, c.watches)) h

theorem settle_isChildUp : s.settle.isChildUp = s.isChildUp := by
  simp only [settle]
  split <;> rfl

/-- The exit of a child that is watched ends the wait. -/
theorem step_childDown (h : s.childWatchId ∈ s.watches) (hrun : s.exited = false) (pam : Pam) :
    (s.step ⟨pam, .childDown s.childWatchId⟩).isChildUp = false := by
  rw [step_of_running hrun, settle_isChildUp]
  simp only [dispatch, h, if_true]
  exact onChildDown_isChildUp s.childWatchId

/-- So it comes down to the record. -/
theorem watched_iff (h : s.WatchLive) :
    s.Watched ↔ s.Recorded := by
  constructor
  · exact fun hw => hw.recorded
  · intro hrec
    exact ⟨hrec, fun hup => h (hrec hup), fun hup hrun pam => step_childDown (h (hrec hup)) hrun pam⟩

theorem clearSession_childWatchId : (s.clearSession pam).childWatchId = 0 := by
  have h : (s.clearSession pam).childWatchId = s.removeTimer.removeWatch.childWatchId :=
    congrArg Child.childWatchId clearSession_child
  rw [h]
  simp only [removeWatch]
  split
  · assumption
  · rfl

/-- A step that clears the session keeps the record true. -/
theorem tell_clearSession_watchLive (n : SessionNews) : ((s.clearSession pam).tell n).WatchLive := by
  intro hne
  have h : ((s.clearSession pam).tell n).childWatchId = 0 :=
    (congrArg Child.childWatchId (tell_child n)).trans clearSession_childWatchId
  exact absurd h hne

/-! ## One step -/

/-- The record of a session whose child is as it was. -/
theorem watch_same (h : s'.watch = s.watch) (hlive : s.WatchLive) (hs : s.Recorded) :
    s'.WatchLive ∧ s'.Recorded := by
  simp only [watch, Prod.mk.injEq] at h
  obtain ⟨hup, hid, hwatches⟩ := h
  simp only [WatchLive, Recorded]
  rw [hup, hid, hwatches]
  exact ⟨hlive, hs⟩

theorem start_watch (cfg : Config) (host : Host) (args : StartArgs) (hlive : s.WatchLive)
    (hs : s.Recorded) :
    (s.start cfg host args).WatchLive ∧ ((s.start cfg host args).Recorded ↔
      ¬ (reachesFork cfg host args = true ∧ host.fork = none)) := by
  have h := start_child (s := s) cfg host args
  cases hfork : reachesFork cfg host args with
  | false =>
    rw [hfork] at h
    obtain ⟨hlive', hs'⟩ := watch_same (watch_congr h) hlive hs
    exact ⟨hlive', by simp [hs']⟩
  | true =>
    rw [hfork, if_pos rfl] at h
    have hw := watch_congr h
    simp only [watch, execUserSession.forkChild, Prod.mk.injEq] at hw
    cases hpid : host.fork with
    | none =>
      rw [hpid] at hw
      obtain ⟨hup, hid, -⟩ := hw
      simp [WatchLive, Recorded, hup, hid]
    | some pid =>
      rw [hpid] at hw
      obtain ⟨hup, hid, hwatches⟩ := hw
      simp [WatchLive, Recorded, hup, hid, hwatches]

/-- A request leaves the watch to the child it is about. -/
theorem terminate_watch (hlive : s.WatchLive) (hs : s.Recorded) :
    (s.terminate pam).WatchLive ∧ (s.terminate pam).Recorded := by
  cases hup : s.isChildUp with
  | true =>
    have h : (s.terminate pam).watch = s.watch := by
      simp only [terminate, hup, if_true]
      rfl
    exact watch_same h hlive hs
  | false =>
    have hup' : (s.terminate pam).isChildUp = false := terminate_isChildUp.trans hup
    refine ⟨?_, by simp [Recorded, hup']⟩
    simp only [terminate, hup, Bool.false_eq_true, if_false]
    exact tell_clearSession_watchLive _

theorem terminateTimeout_watch (source : ℕ) (hlive : s.WatchLive) (hs : s.Recorded) :
    (s.terminateTimeout pam source).WatchLive ∧ ((s.terminateTimeout pam source).Recorded ↔
      ¬ (s.lastSig = some .kill ∧ s.isChildUp = true)) := by
  by_cases hkill : s.lastSig = some .kill
  · -- the session is cleared under the child
    have hid : (s.terminateTimeout pam source).childWatchId = 0 := by
      simp only [terminateTimeout, hkill]
      exact (congrArg Child.childWatchId (tell_child _)).trans clearSession_childWatchId
    refine ⟨fun hne => absurd hid hne, ?_⟩
    simp [Recorded, hid, terminateTimeout_isChildUp, hkill]
  · have h : (s.terminateTimeout pam source).watch = s.watch := by
      simp only [terminateTimeout]
      split
      · rfl
      · rfl
      · exact absurd ‹_› hkill
      · rfl
    obtain ⟨hlive', hs'⟩ := watch_same h hlive hs
    exact ⟨hlive', by simp [hs', hkill]⟩

theorem onChildDown_watch (w : ℕ) :
    (s.onChildDown pam w).WatchLive ∧ (s.onChildDown pam w).Recorded := by
  refine ⟨tell_clearSession_watchLive _, ?_⟩
  simp [Recorded, onChildDown_isChildUp]

/-- **One step keeps the watch just when it does not take it away.** -/
theorem dispatch_watch (hlive : s.WatchLive) (hs : s.Recorded) (hrun : s.exited = false)
    (i : SessionInput) :
    (s.dispatch i).WatchLive ∧ ((s.dispatch i).Recorded ↔ ¬ s.LosesWatch i) := by
  obtain ⟨pam, event⟩ := i
  cases event with
  | start cfg host args =>
    simp only [dispatch, LosesWatch]
    split
    · rename_i hgone
      exact ⟨hlive, by simp [hgone, hs]⟩
    · rename_i hphase
      obtain ⟨hlive', hiff⟩ := start_watch cfg host args hlive hs
      exact ⟨hlive', by simp [hiff, hphase, hrun]⟩
  | terminate =>
    simp only [dispatch, LosesWatch]
    split
    · exact ⟨hlive, by simp [hs]⟩
    · obtain ⟨hlive', hs'⟩ := terminate_watch hlive hs
      exact ⟨hlive', by simp [hs']⟩
  | terminateTimeout source =>
    simp only [dispatch, LosesWatch]
    split
    · rename_i hsource
      obtain ⟨hlive', hiff⟩ := terminateTimeout_watch source hlive hs
      exact ⟨hlive', by simp [hiff, hsource, hrun]⟩
    · rename_i hsource
      exact ⟨hlive, by simp [hsource, hs]⟩
  | childDown w =>
    simp only [dispatch, LosesWatch]
    split
    · obtain ⟨hlive', hs'⟩ := onChildDown_watch w
      exact ⟨hlive', by simp [hs']⟩
    · exact ⟨hlive, by simp [hs]⟩
  | dispose =>
    simp only [dispatch, LosesWatch]
    split
    · obtain ⟨hlive', hs'⟩ := terminate_watch (s := { s with canEmitSignal := false }) hlive hs
      exact ⟨hlive', iff_of_true hs' (by simp)⟩
    · exact ⟨hlive, by simp [hs]⟩

theorem step_watch (hlive : s.WatchLive) (hs : s.Recorded) (i : SessionInput) :
    (s.step i).WatchLive ∧ ((s.step i).Recorded ↔ ¬ s.LosesWatch i) := by
  cases hrun : s.exited with
  | true =>
    rw [step_of_exited hrun]
    exact ⟨hlive, by simp [LosesWatch, hrun, hs]⟩
  | false =>
    have hwatch : (s.step i).watch = (s.dispatch i).watch := by
      rw [step_of_running hrun]
      simp only [settle]
      split <;> rfl
    obtain ⟨hlive', hiff⟩ := dispatch_watch hlive hs hrun i
    simp only [watch, Prod.mk.injEq] at hwatch
    obtain ⟨hup, hid, hwatches⟩ := hwatch
    simp only [WatchLive, Recorded] at hlive' hiff ⊢
    rw [hup, hid, hwatches]
    exact ⟨hlive', hiff⟩

/-! ## Whole runs -/

/-- **The wait for the child can always end**, in a run of any interleaving,
exactly when no tick of the run comes to a child that has outlived `SIGKILL`, and
no `fork` of the run fails. -/
theorem run_watched (is : List SessionInput) :
    Always Session.step Watched {} is ↔ Along Session.step (fun s i => ¬ s.LosesWatch i) {} is := by
  have hnew : Session.WatchLive {} := fun hne => absurd rfl hne
  have hrec : Session.Recorded {} := fun hup => by cases hup
  refine always_iff_along (E := fun _ => True) (I := WatchLive) ?_ hnew ?_ (fun _ _ => trivial)
  · intro s i _ hlive hw
    obtain ⟨hlive', hiff⟩ := step_watch hlive hw.recorded i
    exact ⟨hlive', (watched_iff hlive').trans hiff⟩
  · exact (watched_iff hnew).mpr hrec

/-- A child that is stuck in the kernel: after the third tick nobody waits for
it, and the disposal that comes then waits for ever. -/
theorem kill_tick_loses_watch :
    ¬ Always Session.step Watched {}
      [⟨{}, .start ⟨fun _ => none⟩ {} { seatId := "seat0", service := "tlm-login", username := "user" }⟩,
        ⟨{}, .terminate⟩, ⟨{}, .terminateTimeout 1⟩, ⟨{}, .terminateTimeout 1⟩,
        ⟨{}, .terminateTimeout 1⟩] := by
  rintro ⟨-, -, -, -, -, h⟩
  have hrec := h.recorded
  revert hrec
  decide

end Session

end Tlm
