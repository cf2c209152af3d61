import Tlm.Session

/-!
# What the operations of a session do to its child

`Session.child` is the part of a session that concerns the child: whether it is
up, its watch, and the escalation. Most of a session — the names, PAM, the
terminal, what was emitted — has no bearing on it, and `start_child` and
`clearSession_child` say so once for the two operations that touch everything.
-/

namespace Tlm

/-- What a session knows of its child. -/
structure Child where
  /-- `is_child_up` -/
  isChildUp : Bool
  /-- `last_sig` -/
  lastSig : Option KillSignal
  /-- `timer_id` -/
  timerId : ℕ
  /-- `child_watch_id` -/
  childWatchId : ℕ
  /-- the live timers -/
  timers : List ℕ
  /-- how many there have been -/
  sources : ℕ
  /-- the live watches -/
  watches : List ℕ
  /-- how many there have been -/
  watched : ℕ
  /-- the signals sent -/
  kills : List (KillSignal × Bool)
  /-- where the session is in its life -/
  phase : Phase

namespace Session

/-- The child of a session. -/
def child (s : Session) : Child :=
  ⟨s.isChildUp, s.lastSig, s.timerId, s.childWatchId, s.timers, s.sources, s.watches, s.watched,
    s.kills, s.phase⟩

variable {s : Session} {cfg : Config} {host : Host} {args : StartArgs} {pam : Pam}

@[simp] theorem emit_child (n : SessionNews) : (s.emit n).child = s.child := rfl

@[simp] theorem tell_child (n : SessionNews) : (s.tell n).child = s.child := by
  simp only [tell]
  split <;> rfl

@[simp] theorem clearAuthSession_child : (s.clearAuthSession pam).child = s.child := by
  simp only [clearAuthSession]
  split <;> rfl

/-- `_clear_session` drops the timer and the watch, and leaves the child up if it
was. -/
theorem clearSession_child : (s.clearSession pam).child = s.removeTimer.removeWatch.child := by
  have h : (s.removeTimer.removeWatch.clearAuthSession pam).child =
      s.removeTimer.removeWatch.child := clearAuthSession_child
  exact h

/-! ## Starting -/

/-- Does `_exec_user_session` come to its `fork`? -/
def terminalReady (cfg : Config) (host : Host) (seatId : Option String) (vtnr : ℕ) : Bool :=
  !seatBoolean cfg seatId "SETUP_TERMINAL" || (prepareTerminal host.tty vtnr).isSome

/-- Does `tlm_session_start` come to its `fork`? All of PAM must have accepted,
the session must not be meant to pause, and the terminal must be fit. -/
def reachesFork (cfg : Config) (host : Host) (args : StartArgs) : Bool :=
  match args.seatId, args.service, args.username with
  | some seatId, some service, some username =>
    let vtnr := cfg.getUInt (some seatId) "VTNR" 0
    let tty := if vtnr > 0 then some ("tty" ++ toString vtnr) else none
    match AuthSession.new host.pam service username args.password tty with
    | none => false
    | some a =>
      let (a, ok) := (putenvs cfg seatId vtnr a).authenticate host.pam
      ok && (a.openSession host.pam).2 &&
        !cfg.getBoolean (some Config.general) "PAUSE_SESSION" false &&
        terminalReady cfg host (some seatId) vtnr
  | _, _, _ => false

theorem forkChild_child_congr {s' : Session} (h : s'.child = s.child) :
    (execUserSession.forkChild host s').child = (execUserSession.forkChild host s).child := by
  simp only [child, Child.mk.injEq] at h
  obtain ⟨-, hsig, hid, -, ht, hsrc, hw, hn, hk, hp⟩ := h
  simp only [execUserSession.forkChild]
  split <;> simp [child, hsig, hid, ht, hsrc, hw, hn, hk, hp]

theorem execUserSession_child {username : String} (hname : s.username = some username) :
    (s.execUserSession cfg host).child =
      if terminalReady cfg host s.seatId s.vtnr then (execUserSession.forkChild host s).child
      else s.child := by
  simp only [execUserSession, hname]
  by_cases hterm : seatBoolean cfg s.seatId "SETUP_TERMINAL" = true
  · have hready : terminalReady cfg host s.seatId s.vtnr =
        (prepareTerminal host.tty s.vtnr).isSome := by simp [terminalReady, hterm]
    rw [if_pos hterm, hready]
    cases prepareTerminal host.tty s.vtnr with
    | none => rfl
    | some dev => exact forkChild_child_congr rfl
  · have hready : terminalReady cfg host s.seatId s.vtnr = true := by simp [terminalReady, hterm]
    rw [if_neg hterm, if_pos hready]
    exact forkChild_child_congr rfl

theorem startUser_child {a : AuthSession} {h : ℕ} {username : String}
    (hname : s.username = some username) :
    (s.startUser cfg host a h).child =
      if (a.openSession host.pam).2 && !cfg.getBoolean (some Config.general) "PAUSE_SESSION" false &&
          terminalReady cfg host s.seatId s.vtnr then (execUserSession.forkChild host s).child
      else s.child := by
  simp only [startUser]
  cases (a.openSession host.pam).2 with
  | false => rfl
  | true =>
    cases hpause : cfg.getBoolean (some Config.general) "PAUSE_SESSION" false with
    | true => rfl
    | false =>
      simp only [Bool.not_true, Bool.false_eq_true, if_false, emit_child]
      refine Eq.trans (execUserSession_child (by exact hname)) ?_
      split
      · rename_i hready
        simp only [hready, Bool.not_false, Bool.and_true, if_true]
        exact forkChild_child_congr rfl
      · rename_i hready
        simp only [hready]
        rfl

/-- **What `tlm_session_start` does to the child**: nothing, unless it comes to its
`fork`. -/
theorem start_child (cfg : Config) (host : Host) (args : StartArgs) :
    (s.start cfg host args).child =
      if reachesFork cfg host args then (execUserSession.forkChild host s).child else s.child := by
  rcases args with ⟨_ | seatId, _ | service, _ | username, password, environment⟩
  case some.some.some =>
    generalize hfork : reachesFork cfg host ⟨some seatId, some service, some username, password,
      environment⟩ = reached
    simp only [reachesFork] at hfork
    simp only [start]
    cases hnew : AuthSession.new host.pam service username password
        (if cfg.getUInt (some seatId) "VTNR" 0 > 0 then
          some ("tty" ++ toString (cfg.getUInt (some seatId) "VTNR" 0)) else none) with
    | none =>
      simp only [hnew] at hfork
      obtain rfl := hfork
      rfl
    | some a =>
      simp only [hnew] at hfork ⊢
      cases hauth : ((putenvs cfg seatId (cfg.getUInt (some seatId) "VTNR" 0) a).authenticate
          host.pam).2 with
      | false =>
        simp only [hauth, Bool.false_and] at hfork
        obtain rfl := hfork
        rfl
      | true =>
        simp only [hauth, Bool.true_and] at hfork
        obtain rfl := hfork
        refine Eq.trans (startUser_child (by exact rfl)) ?_
        congr 1
        exact forkChild_child_congr rfl
  all_goals rfl

/-! ## What stays -/

theorem removeTimer_isChildUp : s.removeTimer.isChildUp = s.isChildUp := by
  simp only [removeTimer]
  split <;> rfl

theorem removeTimer_phase : s.removeTimer.phase = s.phase := by
  simp only [removeTimer]
  split <;> rfl

theorem removeWatch_isChildUp : s.removeWatch.isChildUp = s.isChildUp := by
  simp only [removeWatch]
  split <;> rfl

theorem clearSession_isChildUp : (s.clearSession pam).isChildUp = s.isChildUp := by
  have h : (s.clearSession pam).isChildUp = s.removeTimer.removeWatch.isChildUp :=
    congrArg Child.isChildUp clearSession_child
  rw [h, removeWatch_isChildUp, removeTimer_isChildUp]

theorem removeWatch_phase : s.removeWatch.phase = s.phase := by
  simp only [removeWatch]
  split <;> rfl

theorem clearSession_phase : (s.clearSession pam).phase = s.phase := by
  have h : (s.clearSession pam).phase = s.removeTimer.removeWatch.phase :=
    congrArg Child.phase clearSession_child
  rw [h, removeWatch_phase, removeTimer_phase]

theorem tell_isChildUp (n : SessionNews) : (s.tell n).isChildUp = s.isChildUp :=
  congrArg Child.isChildUp (tell_child n)

theorem tell_phase (n : SessionNews) : (s.tell n).phase = s.phase :=
  congrArg Child.phase (tell_child n)

theorem start_phase : (s.start cfg host args).phase = s.phase := by
  have h : (s.start cfg host args).child.phase = _ := congrArg Child.phase (start_child cfg host args)
  refine h.trans ?_
  split
  · simp only [execUserSession.forkChild]
    split <;> rfl
  · rfl

theorem onChildDown_isChildUp (w : ℕ) : (s.onChildDown pam w).isChildUp = false := by
  simp only [onChildDown, tell_isChildUp, clearSession_isChildUp]

theorem terminate_isChildUp : (s.terminate pam).isChildUp = s.isChildUp := by
  simp only [terminate]
  split
  · rfl
  · rw [tell_isChildUp, clearSession_isChildUp]

theorem terminate_phase : (s.terminate pam).phase = s.phase := by
  simp only [terminate]
  split
  · rfl
  · rw [tell_phase, clearSession_phase]

theorem terminateTimeout_isChildUp (source : ℕ) :
    (s.terminateTimeout pam source).isChildUp = s.isChildUp := by
  simp only [terminateTimeout]
  split
  · rfl
  · rfl
  · rw [tell_isChildUp, clearSession_isChildUp]
  · rfl

theorem terminateTimeout_phase (source : ℕ) :
    (s.terminateTimeout pam source).phase = s.phase := by
  simp only [terminateTimeout]
  split
  · rfl
  · rfl
  · rw [tell_phase, clearSession_phase]
  · rfl

/-- A session that is disposed of has no child. -/
theorem dispatch_gone (i : SessionInput) (h : s.phase = .disposed → s.isChildUp = false)
    (hgone : (s.dispatch i).phase = .disposed) : (s.dispatch i).isChildUp = false := by
  obtain ⟨pam, event⟩ := i
  cases event with
  | start cfg host args =>
    simp only [dispatch] at hgone ⊢
    split at hgone
    · rename_i hdisp
      rw [if_pos hdisp]
      exact h hdisp
    · rename_i hlive
      exact absurd (start_phase.symm.trans hgone) hlive
  | terminate =>
    simp only [dispatch] at hgone ⊢
    split at hgone
    · rename_i hdisp
      rw [if_pos hdisp]
      exact h hdisp
    · rename_i hlive
      exact absurd (terminate_phase.symm.trans hgone) hlive
  | terminateTimeout source =>
    simp only [dispatch] at hgone ⊢
    split at hgone
    · rename_i hlive
      rw [if_pos hlive, terminateTimeout_isChildUp]
      exact h ((terminateTimeout_phase source).symm.trans hgone)
    · rename_i hlive
      rw [if_neg hlive]
      exact h hgone
  | childDown w =>
    simp only [dispatch] at hgone ⊢
    split
    · exact onChildDown_isChildUp w
    · rename_i hlive
      rw [if_neg hlive] at hgone
      exact h hgone
  | dispose =>
    simp only [dispatch] at hgone ⊢
    split at hgone
    · cases hgone
    · rename_i hlive
      rw [if_neg hlive]
      exact h hgone

theorem step_of_exited (h : s.exited = true) (i : SessionInput) : s.step i = s := by
  simp [step, h]

theorem step_of_running (h : s.exited = false) (i : SessionInput) :
    s.step i = (s.dispatch i).settle := by
  simp [step, h]

theorem step_gone (i : SessionInput) (h : s.phase = .disposed → s.isChildUp = false) :
    (s.step i).phase = .disposed → (s.step i).isChildUp = false := by
  have hd := dispatch_gone i h
  simp only [step]
  split
  · exact h
  · simp only [settle]
    split
    · rename_i hdone
      exact fun _ => hdone.2
    · exact hd

end Session

end Tlm
