import Tlm.Sessiond

/-!
# What the operations of the session process do

One lemma for each operation of `Sessiond`, in terms of the few things the rest of
the development asks about a session process: what it sends, whether its session
waits for a child, and whether it still holds a PAM handle.
-/

namespace Tlm

namespace Session

variable {s : Session} {cfg : Config} {host : Host} {args : StartArgs} {pam : Pam}

/-- The failures of `tlm_session_start`, as they are announced. -/
def refusals : List (List SessionNews) :=
  [[.error TlmError.sessionCreationFailure.code],
    [.authenticated, .error TlmError.sessionCreationFailure.code]]

/-- What is said, and what becomes of the process: an accepted login is announced,
whatever becomes of the child, and with `PAUSE_SESSION` there is none. -/
structure Started (cfg : Config) (host : Host) (args : StartArgs) (s s' : Session) : Prop where
  loud : s'.canEmitSignal = s.canEmitSignal
  outcome : (∃ tail ∈ refusals, s'.news = s.news ++ tail ∧ reachesFork cfg host args = false ∧
      s'.exited = s.exited) ∨
    ∃ id, s'.news = s.news ++ [.authenticated, .created id] ∧
      (s'.exited = s.exited ∨ reachesFork cfg host args = false ∧
        cfg.getBoolean (some Config.general) "PAUSE_SESSION" false = true)

theorem forkChild_loud : (execUserSession.forkChild host s).canEmitSignal = s.canEmitSignal ∧
    (execUserSession.forkChild host s).exited = s.exited := by
  simp only [execUserSession.forkChild]
  split <;> exact ⟨rfl, rfl⟩

theorem execUserSession_loud (cfg : Config) (host : Host) (hname : s.username.isSome) :
    (s.execUserSession cfg host).canEmitSignal = s.canEmitSignal ∧
      (s.execUserSession cfg host).exited = s.exited := by
  obtain ⟨username, hname⟩ := Option.isSome_iff_exists.mp hname
  simp only [execUserSession, hname]
  split
  · split
    · exact ⟨rfl, rfl⟩
    · exact forkChild_loud
  · exact forkChild_loud

/-- Behind an accepted login the user's session is executed and announced. -/
theorem startUser_announced (a : AuthSession) (h : ℕ) (hname : s.username.isSome)
    (hopen : (a.openSession host.pam).2 = true)
    (hpause : cfg.getBoolean (some Config.general) "PAUSE_SESSION" false = false) :
    (s.startUser cfg host a h).canEmitSignal = s.canEmitSignal ∧
      (s.startUser cfg host a h).exited = s.exited ∧
      ∃ id, (s.startUser cfg host a h).news = s.news ++ [.created id] := by
  obtain ⟨s₁, id, hstart, hloud, hexited, hnews, hname₁⟩ : ∃ (s₁ : Session) (id : String),
      s.startUser cfg host a h = (s₁.execUserSession cfg host).emit (.created id) ∧
      s₁.canEmitSignal = s.canEmitSignal ∧ s₁.exited = s.exited ∧ s₁.news = s.news ∧
      s₁.username = s.username := by
    simp only [startUser, hopen, hpause, Bool.not_true, Bool.false_eq_true, if_false]
    exact ⟨_, _, rfl, rfl, rfl, rfl, rfl⟩
  have hexec := execUserSession_loud (s := s₁) cfg host (by rw [hname₁]; exact hname)
  have hsame : (s₁.execUserSession cfg host).news = s₁.news :=
    execUserSession_news (by rw [hname₁]; exact hname)
  rw [hstart]
  refine ⟨hexec.1.trans hloud, hexec.2.trans hexited, id, ?_⟩
  simp only [emit, hsame, hnews]

/-- The ways behind the authentication. -/
theorem startUser_started {s₁ : Session} {a : AuthSession} {h : ℕ} {ready : Bool}
    (hloud : s₁.canEmitSignal = s.canEmitSignal) (hexited : s₁.exited = s.exited)
    (hnews : s₁.news = s.news ++ [.authenticated]) (hname : s₁.username.isSome)
    (hfork : reachesFork cfg host args = ((a.openSession host.pam).2 &&
      !cfg.getBoolean (some Config.general) "PAUSE_SESSION" false && ready)) :
    Started cfg host args s (s₁.startUser cfg host a h) := by
  cases hopen : (a.openSession host.pam).2 with
  | false =>
    simp only [startUser, hopen]
    refine ⟨hloud, .inl ⟨[.authenticated, .error TlmError.sessionCreationFailure.code],
      by simp [refusals], ?_, ?_, hexited⟩⟩
    · simp [emit, hnews]
    · simp [hfork, hopen]
  | true =>
    cases hpause : cfg.getBoolean (some Config.general) "PAUSE_SESSION" false with
    | true =>
      simp only [startUser, hopen, hpause]
      refine ⟨hloud, .inr ⟨(a.openSession host.pam).1.sessionId.getD "", ?_, .inr ⟨?_, hpause⟩⟩⟩
      · simp only [emit, Bool.not_true, Bool.false_eq_true, if_false, if_true, hnews]
        rw [List.append_assoc]
        rfl
      · simp [hfork, hpause]
    | false =>
      obtain ⟨hloud', hexited', id, hnews'⟩ := startUser_announced a h hname hopen hpause
      refine ⟨hloud'.trans hloud, .inr ⟨id, ?_, .inl (hexited'.trans hexited)⟩⟩
      rw [hnews', hnews, List.append_assoc]
      rfl

/-- **What `tlm_session_start` says.** -/
theorem start_started (s : Session) (cfg : Config) (host : Host) (args : StartArgs) :
    Started cfg host args s (s.start cfg host args) := by
  rcases args with ⟨_ | seatId, _ | service, _ | username, password, environment⟩
  case some.some.some =>
    have hreach := Eq.refl (reachesFork cfg host ⟨some seatId, some service, some username, password,
      environment⟩)
    conv at hreach => rhs; simp only [reachesFork]
    simp only [start]
    cases hnew : AuthSession.new host.pam service username password
        (if cfg.getUInt (some seatId) "VTNR" 0 > 0 then
          some ("tty" ++ toString (cfg.getUInt (some seatId) "VTNR" 0)) else none) with
    | none =>
      simp only [hnew] at hreach
      exact ⟨rfl, .inl ⟨_, by simp [refusals], rfl, hreach, rfl⟩⟩
    | some a =>
      simp only [hnew] at hreach ⊢
      cases hauth : ((putenvs cfg seatId (cfg.getUInt (some seatId) "VTNR" 0) a).authenticate
          host.pam).2 with
      | false =>
        simp only [hauth, Bool.false_and] at hreach
        exact ⟨rfl, .inl ⟨_, by simp [refusals], rfl, hreach, rfl⟩⟩
      | true =>
        simp only [hauth, Bool.true_and] at hreach
        exact startUser_started (by exact rfl) (by exact rfl) (by exact rfl) (by exact rfl) hreach
  all_goals exact ⟨rfl, .inl ⟨_, by simp [refusals], rfl, rfl, rfl⟩⟩

/-- What a start does to the child's watch: at most one is added, with a child it is
for. -/
structure Watches (s s' : Session) : Prop where
  watches : ∃ ws : List ℕ, ws.length ≤ 1 ∧ s'.watches = s.watches ++ ws
  child : s.isChildUp = true ∨ s.watched < s'.watched → s'.isChildUp = true
  timers : s'.timers = s.timers

theorem start_watches (s : Session) (cfg : Config) (host : Host) (args : StartArgs) :
    Watches s (s.start cfg host args) ∧
      (reachesFork cfg host args = false → (s.start cfg host args).watches = s.watches) := by
  have h := start_child (s := s) cfg host args
  cases hfork : reachesFork cfg host args with
  | false =>
    rw [hfork, if_neg (by simp)] at h
    have hwatches : (s.start cfg host args).watches = s.watches := congrArg Child.watches h
    have hup : (s.start cfg host args).isChildUp = s.isChildUp := congrArg Child.isChildUp h
    have hwatched : (s.start cfg host args).watched = s.watched := congrArg Child.watched h
    refine ⟨⟨⟨[], by simp, by simp [hwatches]⟩, ?_, congrArg Child.timers h⟩, fun _ => hwatches⟩
    rw [hup, hwatched]
    exact fun hor => hor.resolve_right (Nat.lt_irrefl _)
  | true =>
    rw [hfork, if_pos rfl] at h
    have hup : (s.start cfg host args).isChildUp = true := by
      refine (congrArg Child.isChildUp h).trans ?_
      simp only [child, execUserSession.forkChild]
      split <;> rfl
    refine ⟨⟨?_, fun _ => hup, ?_⟩, fun hno => by cases hno⟩
    · have hwatches : (s.start cfg host args).watches = _ := congrArg Child.watches h
      rw [hwatches]
      simp only [child, execUserSession.forkChild]
      split
      · exact ⟨[s.watched + 1], by simp, rfl⟩
      · exact ⟨[], Nat.zero_le 1, by simp⟩
    · refine (congrArg Child.timers h).trans ?_
      simp only [child, execUserSession.forkChild]
      split <;> rfl

/-! ## The ends of a session -/

@[simp] theorem removeTimer_news : s.removeTimer.news = s.news := by
  simp only [removeTimer]
  split <;> rfl

@[simp] theorem removeWatch_news : s.removeWatch.news = s.news := by
  simp only [removeWatch]
  split <;> rfl

@[simp] theorem clearAuthSession_news : (s.clearAuthSession pam).news = s.news := by
  simp only [clearAuthSession]
  split <;> rfl

theorem clearSession_news : (s.clearSession pam).news = s.news := by
  simp [clearSession]

/-- The flags that clearing a session leaves alone. -/
theorem clearSession_flags : (s.clearSession pam).canEmitSignal = s.canEmitSignal ∧
    (s.clearSession pam).exited = s.exited := by
  simp only [clearSession, clearAuthSession, removeWatch, removeTimer]
  split <;> split <;> split <;> exact ⟨rfl, rfl⟩

/-- A session that is cleared holds no PAM handle. -/
theorem clearSession_authSession : (s.clearSession pam).authSession = none := by
  simp only [clearSession, clearAuthSession]
  split
  · assumption
  · rfl

theorem tell_authSession (n : SessionNews) : (s.tell n).authSession = s.authSession := by
  simp only [tell]
  split <;> rfl

theorem tell_exited (n : SessionNews) : (s.tell n).exited = s.exited := by
  simp only [tell]
  split <;> rfl

/-- What every event but a start does: the process goes on, no child comes up, and no
PAM handle is made. Once the child is reaped there is none left. -/
structure Winds (s s' : Session) : Prop where
  exited : s'.exited = s.exited
  child : s'.isChildUp = true → s.isChildUp = true
  handle : s.authSession = none → s'.authSession = none
  reaped : s.isChildUp = true → s'.isChildUp = false → s'.authSession = none
  left : s.phase ≠ .alive → s'.phase ≠ .alive

theorem Winds.refl (s : Session) : Winds s s :=
  ⟨rfl, id, id, fun hup hdown => absurd (hup.symm.trans hdown) (by simp), id⟩

theorem winds_tell_clearSession {s' : Session} (n : SessionNews) (hexited : s'.exited = s.exited)
    (hchild : s'.isChildUp = true → s.isChildUp = true) (hphase : s'.phase = s.phase) :
    Winds s ((s'.clearSession pam).tell n) where
  exited := by rw [tell_exited, clearSession_flags.2, hexited]
  child := by
    rw [tell_isChildUp, clearSession_isChildUp]
    exact hchild
  handle _ := by rw [tell_authSession, clearSession_authSession]
  reaped _ _ := by rw [tell_authSession, clearSession_authSession]
  left := by
    rw [tell_phase, clearSession_phase, hphase]
    exact id

theorem terminate_winds (s : Session) : Winds s (s.terminate pam) := by
  simp only [terminate]
  split
  · exact ⟨rfl, id, id, fun hup hdown => absurd (hup.symm.trans hdown) (by simp), id⟩
  · exact winds_tell_clearSession _ rfl id rfl

theorem terminateTimeout_winds (source : ℕ) (s : Session) :
    Winds s (s.terminateTimeout pam source) := by
  have hsame : ∀ {s' : Session}, s'.exited = s.exited → s'.isChildUp = s.isChildUp →
      s'.authSession = s.authSession → s'.phase = s.phase → Winds s s' := by
    intro s' hexited hchild hauth hphase
    refine ⟨hexited, fun h => hchild ▸ h, fun h => hauth.trans h, fun hup hdown => ?_, ?_⟩
    · exact absurd ((hchild.trans hup).symm.trans hdown) (by simp)
    · rw [hphase]
      exact id
  simp only [terminateTimeout]
  split
  · exact hsame rfl rfl rfl rfl
  · exact hsame rfl rfl rfl rfl
  · exact winds_tell_clearSession _ rfl id rfl
  · exact hsame rfl rfl rfl rfl

theorem onChildDown_winds (w : ℕ) (s : Session) : Winds s (s.onChildDown pam w) :=
  winds_tell_clearSession _ rfl (by simp) rfl

theorem settle_winds {s' : Session} (h : Winds s s') : Winds s s'.settle := by
  simp only [settle]
  split
  · exact ⟨h.exited, h.child, h.handle, h.reaped, fun _ => by simp⟩
  · exact h

/-- **Every event but a start winds the session down.** -/
theorem step_winds (i : SessionInput) (hstart : ∀ cfg host args, i.event ≠ .start cfg host args) :
    Winds s (s.step i) := by
  obtain ⟨pam, event⟩ := i
  simp only [step]
  split
  · exact Winds.refl s
  · apply settle_winds
    simp only [dispatch]
    cases event with
    | start cfg host args => exact absurd rfl (hstart cfg host args)
    | terminate =>
      simp only
      split
      · exact Winds.refl s
      · exact terminate_winds s
    | terminateTimeout source =>
      simp only
      split
      · exact terminateTimeout_winds source s
      · exact Winds.refl s
    | childDown w =>
      simp only
      split
      · exact onChildDown_winds w s
      · exact Winds.refl s
    | dispose =>
      simp only
      split
      · have h : Winds { s with canEmitSignal := false } (({ s with canEmitSignal := false } :
            Session).terminate pam) := terminate_winds _
        exact ⟨h.exited, h.child, h.handle, h.reaped, fun _ => by simp [dispose]⟩
      · exact Winds.refl s

/-- A session that is disposed of without a child holds nothing any more. -/
theorem step_dispose (pam : Pam) (hphase : s.phase = .alive) (hrun : s.exited = false) :
    (s.step ⟨pam, .dispose⟩).phase ≠ .alive ∧
      (s.isChildUp = false → (s.step ⟨pam, .dispose⟩).authSession = none) := by
  have hsettle : ∀ s' : Session, s'.settle.authSession = s'.authSession := by
    intro s'
    simp only [settle]
    split <;> rfl
  rw [step_of_running hrun]
  simp only [dispatch, hphase, if_true]
  constructor
  · exact (settle_winds (Winds.refl (s.dispose pam))).left (by simp [dispose])
  · intro hdown
    rw [hsettle]
    simp only [dispose, terminate, hdown, Bool.false_eq_true, if_false]
    rw [tell_authSession, clearSession_authSession]

/-- The exit of the child, as long as the session may tell it. -/
theorem step_childDown_tells (pam : Pam) {w : ℕ} (hrun : s.exited = false)
    (hphase : s.phase = .alive) (hloud : s.canEmitSignal = true) (hw : w ∈ s.watches) (htimers : s.timers = []) :
    let s' := s.step ⟨pam, .childDown w⟩
    s'.news = s.news ++ [.terminated] ∧ s'.canEmitSignal = true ∧ s'.phase = .alive ∧
      s'.timers = [] ∧ s'.authSession = none ∧ s'.isChildUp = false ∧
      s'.watches.length < s.watches.length := by
  have hsettle : (s.onChildDown pam w).settle = s.onChildDown pam w := by
    have halive : (s.onChildDown pam w).phase = .alive := by
      rw [onChildDown, tell_phase, clearSession_phase]
      exact hphase
    simp [settle, halive]
  have hchild : (s.onChildDown pam w).child =
      ({ s with watches := s.watches.erase w, childPid := 0, isChildUp := false } :
        Session).removeTimer.removeWatch.child := by
    rw [onChildDown, tell_child, clearSession_child]
  simp only [step_of_running hrun, dispatch, hw, if_true, hsettle]
  have hdown : (s.onChildDown pam w).isChildUp = false := onChildDown_isChildUp w
  refine ⟨?_, ?_, ?_, ?_, ?_, hdown, ?_⟩
  · have hcan : (({ s with watches := s.watches.erase w, childPid := 0, isChildUp := false } :
        Session).clearSession pam).canEmitSignal = true := clearSession_flags.1.trans hloud
    simp only [onChildDown, tell, hcan, if_true, emit]
    rw [clearSession_news]
  · simp only [onChildDown, tell]
    split
    · exact clearSession_flags.1.trans hloud
    · exact clearSession_flags.1.trans hloud
  · rw [onChildDown, tell_phase, clearSession_phase]
    exact hphase
  · refine (congrArg Child.timers hchild).trans ?_
    simp only [child, removeWatch, removeTimer]
    split <;> split <;> simp [htimers]
  · rw [onChildDown, tell_authSession, clearSession_authSession]
  · have hwatches : (s.onChildDown pam w).watches = _ := congrArg Child.watches hchild
    rw [hwatches]
    have hlt : (s.watches.erase w).length < s.watches.length := by
      have hpos := List.length_pos_of_mem hw
      rw [List.length_erase_of_mem hw]
      omega
    simp only [child, removeWatch, removeTimer]
    split <;> split
    all_goals first | exact hlt | exact Nat.lt_of_le_of_lt (List.length_erase_le ..) hlt

/-- Without `PAUSE_SESSION` the process goes on behind a start. -/
theorem start_exited (hpause : cfg.getBoolean (some Config.general) "PAUSE_SESSION" false = false) :
    (s.start cfg host args).exited = s.exited := by
  obtain ⟨-, -, -, -, h⟩ | ⟨-, -, h | h⟩ := (start_started s cfg host args).outcome
  · assumption
  · exact h
  · exact absurd (hpause.symm.trans h.2) (by simp)

theorem settle_exited : s.settle.exited = s.exited := by
  simp only [settle]
  split <;> rfl

end Session

namespace Sessiond

/-- Without `PAUSE_SESSION` the process goes on serving. -/
theorem serve_running {p : Sessiond} {cfg : Config} (host : Host) (c : LinkCall)
    (hrun : p.phase = .running) (hexited : p.session.exited = false)
    (hpause : cfg.getBoolean (some Config.general) "PAUSE_SESSION" false = false) :
    (p.serve cfg host c).1.phase = .running := by
  cases c with
  | sessionCreate password environment =>
    have hgoes : ∀ args, (p.session.step ⟨host.pam, .start cfg host args⟩).exited = false := by
      intro args
      rw [Session.step_of_running hexited, Session.settle_exited]
      simp only [Session.dispatch]
      split
      · exact hexited
      · exact (Session.start_exited hpause).trans hexited
    simp [serve, createSession, advance, hgoes, hrun]
  | setSeatid value => exact hrun
  | setService value => exact hrun
  | setUsername value => exact hrun

/-- What a signal does: nothing, end the process, or ask the main loop to end. -/
theorem deliver_cases (p : Sessiond) (restores : Bool) (sig : KillSignal) :
    p.deliver restores sig = p ∨ p.deliver restores sig = p.die ∨
      ∃ term hup, p.deliver restores sig =
        { p with termSource := term, hupSource := hup, quit := true } := by
  simp only [deliver]
  split
  · exact .inl rfl
  · exact .inr (.inl rfl)
  · exact .inr (.inl rfl)
  · exact .inr (.inl rfl)
  all_goals
    split
    · exact .inr (.inr ⟨_, _, rfl⟩)
    · split
      · exact .inr (.inl rfl)
      · exact .inl rfl

end Sessiond

end Tlm
