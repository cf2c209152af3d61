import Tlm.SessionLinkEnd

/-!
# The wait of the daemon

`tlm_session_remote_dispose` asks the process to end and then runs the main loop until
the child watch has fired. Its timer is what bounds this wait: no state of the wait is without
a live timer before `SIGKILL` is sent, whatever the process, its user's command and everybody
else do; the second tick comes to that; and behind it the exit of the process ends the wait
(`run_wait_bounded`).

`Waiting` is what every step keeps of a handle that waits.
-/

namespace Tlm

namespace SessionLink

variable {seatid service : String} {username : Option String} {creation : Option Creation}
  {restores : Bool} {l : SessionLink}

/-- `SIGKILL` is on its way, or there is nothing left to kill. -/
def Killed (l : SessionLink) : Prop := .kill ∈ l.pending ∨ l.sessiond.phase = .gone

/-- A handle that waits has a timer to go on with, as long as it has not sent
`SIGKILL`. -/
def Armed (l : SessionLink) : Prop :=
  (l.daemon.remote.lastSig = some .hup ∨ l.daemon.remote.lastSig = some .term) ∧
    l.daemon.remote.timerId ≠ 0 ∧ l.daemon.remote.timerId ∈ l.daemon.remote.timers

/-- What every step keeps of the handle. -/
structure Waiting (l : SessionLink) : Prop where
  /-- it is finalized when it was disposed of -/
  lives : l.daemon.Lives
  /-- a child that is up is watched -/
  watched : l.daemon.phase ≠ .disposed → l.daemon.remote.isSessiondUp = true →
    l.daemon.remote.childWatch = true
  /-- the wait lasts while the child is up -/
  up : l.daemon.phase = .disposing → l.daemon.remote.isSessiondUp = true
  /-- and is bounded -/
  bounded : l.daemon.phase = .disposing → Killed l ∨ Armed l

/-! ## `SIGKILL` is not taken back -/

theorem killed_act (st : RemoteStep) (h : Killed l) : Killed (l.act st) := by
  refine h.imp (fun hkill => (mem_act_pending st .kill).mpr (.inl hkill)) fun hgone => ?_
  rw [(act_daemon st).2.2]
  exact hgone

theorem killed_send (sig : KillSignal) (h : Killed l) : Killed (l.send sig) := by
  simp only [send]
  split
  · exact h
  · exact h.imp (fun hkill => List.mem_append_left _ hkill) id

/-- A process that is gone stays gone. -/
theorem FarStep.gone {x y : Channel LinkCall × List LinkMessage × Sessiond} (hstep : FarStep x y)
    (h : x.2.2.phase = .gone) : y.2.2.phase = .gone := by
  cases hstep with
  | none => exact h
  | boot cs ms p hphase => cases hphase.symm.trans h
  | die cs ms p hphase => rfl
  | serve cs ms p cfg host c rest hc hrun => cases hrun.symm.trans h
  | dispose cs ms p pam hrun => cases hrun.symm.trans h
  | sessionTick cs ms p pam source =>
    have hgone : p.phase = .gone := h
    simp [Sessiond.terminateTimeout, Sessiond.iterating_of_gone hgone, hgone]
  | childDown cs ms p pam w =>
    have hgone : p.phase = .gone := h
    simp [Sessiond.childDown, Sessiond.iterating_of_gone hgone, hgone]
  | exit cs ms p =>
    have hgone : p.phase = .gone := h
    simp [Sessiond.exit, hgone]
  | userExits cs ms p => exact h

theorem step_gone_process (st : LinkStep) (h : l.sessiond.phase = .gone) :
    (l.step restores st).sessiond.phase = .gone := by
  by_cases hst : ∃ sig k, st = .deliver sig k
  · obtain ⟨sig, k, rfl⟩ := hst
    rw [deliver_sessiond]
    split
    · simp [Sessiond.deliver, h]
    · exact h
  · exact (step_farStep restores l st fun sig k heq => hst ⟨sig, k, heq⟩).gone h

/-- A process that `SIGKILL` comes to is gone. -/
theorem deliver_kill (h : .kill ∈ l.pending) (k : ℕ) :
    (l.step restores (.deliver .kill k)).sessiond.phase = .gone := by
  rw [deliver_sessiond, if_pos h]
  cases hphase : l.sessiond.phase <;> simp [Sessiond.deliver, hphase, Sessiond.die]

theorem step_killed (st : LinkStep) (h : Killed l) : Killed (l.step restores st) := by
  obtain hpending | hgone := h
  · by_cases hnear : Elsewhere st
    swap
    · obtain ⟨ms, -, heq | ⟨rst, -, heq⟩⟩ := step_near restores l hnear
      · rw [heq]
        exact .inl hpending
      · rw [heq]
        exact killed_act rst (.inl hpending)
    cases st with
    | daemonDies =>
      simp only [step]
      split
      · exact .inl hpending
      · exact killed_send _ (.inl hpending)
    | deliver sig k =>
      by_cases hsig : sig = .kill
      · exact .inr (hsig ▸ deliver_kill hpending k)
      · simp only [step]
        have hkeep : .kill ∈ l.pending.erase sig :=
          (List.mem_erase_of_ne fun heq => hsig heq.symm).mpr hpending
        split
        · split <;> exact .inl hkeep
        · exact .inl hpending
    | boot => simp only [step]; split <;> exact .inl hpending
    | bootFails => simp only [step]; split <;> exact .inl hpending
    | serve cfg host =>
      simp only [step]
      split
      · exact .inl hpending
      · split <;> exact .inl hpending
    | leave pam k => simp only [step]; split <;> exact .inl hpending
    | connectionClosed pam k => simp only [step]; split <;> exact .inl hpending
    | sessionTick pam source => exact .inl hpending
    | childDown pam w => exact .inl hpending
    | exit => exact .inl hpending
    | userExits => exact .inl hpending
    | signal sig => exact killed_send sig (.inl hpending)
    | _ => exact absurd hnear id
  · exact .inr (step_gone_process st hgone)

/-! ## The rungs of a handle -/

/-- What of a handle the wait is about. -/
def rung (m : SessionRemote) : Option KillSignal × ℕ × List ℕ × Bool × Bool × Bool :=
  (m.lastSig, m.timerId, m.timers, m.isSessiondUp, m.childWatch, m.finalized)

/-- Outside the wait loop, and in it while the child is up, the test of the loop does
nothing. -/
theorem settle_eq {r : Remote} (h : r.phase = .disposing → r.remote.isSessiondUp = true) :
    r.settle = r := by
  simp only [Remote.settle]
  split
  · rename_i hdone
    exact absurd ((h hdone.1).symm.trans hdone.2) (by simp)
  · rfl

/-- A step that leaves the handle on its rung. -/
theorem Waiting.stay (h : Waiting l) {l' : SessionLink} (hphase : l'.daemon.phase = l.daemon.phase)
    (hrung : rung l'.daemon.remote = rung l.daemon.remote) (hkilled : Killed l → Killed l') :
    Waiting l' := by
  simp only [rung, Prod.mk.injEq] at hrung
  obtain ⟨hsig, hid, htimers, hup, hwatch, hfinalized⟩ := hrung
  refine ⟨?_, ?_, ?_, ?_⟩
  · rw [Remote.Lives, hphase, hfinalized]
    exact h.lives
  · rw [hphase, hup, hwatch]
    exact h.watched
  · rw [hphase, hup]
    exact h.up
  · rw [hphase]
    intro hwait
    refine (h.bounded hwait).imp hkilled fun harmed => ?_
    simp only [Armed, hsig, hid, htimers]
    exact harmed

theorem Waiting.lives_act (h : Waiting l) (st : RemoteStep) : (l.act st).daemon.Lives := by
  rw [(act_daemon st).1]
  exact Remote.lives_step h.lives st

/-- The handle behind an event that is neither the exit of the child nor a tick. -/
theorem quiet_daemon (h : Waiting l) {e : SessionEvent}
    (hquiet : rung (l.daemon.remote.handle e).1 = rung l.daemon.remote) :
    (l.act (.event e)).daemon = ⟨(l.daemon.remote.handle e).1, l.daemon.phase⟩ := by
  have hup : (l.daemon.remote.handle e).1.isSessiondUp = l.daemon.remote.isSessiondUp := by
    simp only [rung, Prod.mk.injEq] at hquiet
    exact hquiet.2.2.2.1
  rw [(act_daemon _).1]
  exact settle_eq (r := ⟨(l.daemon.remote.handle e).1, l.daemon.phase⟩) fun hwait =>
    hup.trans (h.up hwait)

theorem Waiting.quiet (h : Waiting l) {e : SessionEvent}
    (hquiet : rung (l.daemon.remote.handle e).1 = rung l.daemon.remote) :
    Waiting (l.act (.event e)) := by
  have hdaemon := quiet_daemon h hquiet
  refine h.stay ?_ ?_ (killed_act _)
  · rw [hdaemon]
  · rw [hdaemon]
    exact hquiet

/-- A handle that was finalized stays on its rung, whatever comes. -/
theorem rung_of_finalized {m : SessionRemote} (h : m.finalized = true) (e : SessionEvent) :
    rung (m.handle e).1 = rung m := by
  rw [SessionRemote.handle_of_finalized h]
  simp only
  split <;> rfl

/-- The quiet events. -/
theorem rung_handle (m : SessionRemote) {e : SessionEvent} (hdown : e ≠ .childDown)
    (htick : ∀ source, e = .terminateTimeout source → source ∉ m.timers) :
    rung (m.handle e).1 = rung m := by
  cases hf : m.finalized with
  | true => exact rung_of_finalized hf e
  | false =>
  rw [SessionRemote.handle_of_live hf]
  cases e with
  | childDown => exact absurd rfl hdown
  | terminateTimeout source =>
    simp only [SessionRemote.callback, htick source rfl, if_false]
  | createReply err =>
    simp only [SessionRemote.callback]
    split <;> rfl
  | created => rfl
  | terminated => rfl
  | error code => rfl

/-- The handle behind a step, if the wait loop is not at its end. -/
theorem act_daemon_of (st : RemoteStep) (r : Remote) (hr : l.daemon.dispatch st = r)
    (hup : r.phase = .disposing → r.remote.isSessiondUp = true) : (l.act st).daemon = r := by
  rw [(act_daemon st).1, Remote.step, hr]
  exact settle_eq hup

/-- **A tick goes one rung up**, to `SIGKILL` from the second. -/
theorem tick_climbs (h : Waiting l) {source : ℕ} (hlive : source ∈ l.daemon.remote.timers) :
    Waiting (l.act (.event (.terminateTimeout source))) ∧
      (l.daemon.phase = .disposing →
        (l.act (.event (.terminateTimeout source))).daemon.phase = .disposing ∧
        (l.daemon.remote.lastSig = some .hup →
          (l.act (.event (.terminateTimeout source))).daemon.remote.lastSig = some .term) ∧
        (l.daemon.remote.lastSig = some .term →
          Killed (l.act (.event (.terminateTimeout source))))) := by
  cases hf : l.daemon.remote.finalized with
  | true =>
    refine ⟨h.quiet (rung_of_finalized hf _), fun hwait => ?_⟩
    exact absurd ((h.lives.mp hf).symm.trans hwait) (by simp)
  | false =>
  have hhandle : l.daemon.remote.handle (.terminateTimeout source) =
      l.daemon.remote.terminateTimeout source := by
    rw [SessionRemote.handle_of_live hf]
    simp [SessionRemote.callback, hlive]
  have hup : (l.daemon.remote.terminateTimeout source).1.isSessiondUp =
      l.daemon.remote.isSessiondUp := by
    simp only [SessionRemote.terminateTimeout]
    split <;> rfl
  have hwatch : (l.daemon.remote.terminateTimeout source).1.childWatch =
      l.daemon.remote.childWatch := by
    simp only [SessionRemote.terminateTimeout]
    split <;> rfl
  have hdaemon := act_daemon_of (l := l) (.event (.terminateTimeout source))
    ⟨(l.daemon.remote.terminateTimeout source).1, l.daemon.phase⟩
    (by simp only [Remote.dispatch, hhandle]) fun hwait => hup.trans (h.up hwait)
  -- what is sent behind `SIGTERM`
  have hkill : l.daemon.remote.lastSig = some .term →
      Killed (l.act (.event (.terminateTimeout source))) := by
    intro hsig
    by_cases hgone : l.sessiond.phase = .gone
    · exact killed_act _ (.inr hgone)
    · refine .inl ((mem_act_pending _ .kill).mpr (.inr ⟨?_, hgone⟩))
      rw [Remote.step, sent_settle]
      simp [sent, Remote.dispatch, hhandle, SessionRemote.terminateTimeout, hsig,
        SessionRemote.sendSignal]
  have hclimb : l.daemon.remote.lastSig = some .hup →
      (l.act (.event (.terminateTimeout source))).daemon.remote.lastSig = some .term := by
    intro hsig
    rw [hdaemon]
    simp [SessionRemote.terminateTimeout, hsig, SessionRemote.sendSignal]
  refine ⟨⟨h.lives_act _, ?_, ?_, ?_⟩, fun hwait => ⟨?_, hclimb, hkill⟩⟩
  · rw [hdaemon]
    simp only [hup, hwatch]
    exact h.watched
  · rw [hdaemon]
    simp only [hup]
    exact h.up
  · intro hwait
    rw [hdaemon] at hwait
    obtain hkilled | ⟨hsig | hsig, hid, hmem⟩ := h.bounded hwait
    · exact .inl (killed_act _ hkilled)
    · refine .inr ⟨.inr (hclimb hsig), ?_⟩
      rw [hdaemon]
      simp only [SessionRemote.terminateTimeout, hsig, SessionRemote.sendSignal]
      exact ⟨hid, hmem⟩
    · exact .inl (hkill hsig)
  · rw [hdaemon]
    exact hwait

/-- The exit of the child, which ends a wait. -/
theorem reap_waiting (h : Waiting l) : Waiting (l.act (.event .childDown)) ∧
    (l.daemon.phase = .disposing → (l.act (.event .childDown)).daemon.phase = .disposed) := by
  have hdown : l.daemon.remote.onChildDown.1.isSessiondUp = false := by
    simp only [SessionRemote.onChildDown, SessionRemote.removeTimer]
    split <;> rfl
  cases hwatch : l.daemon.remote.childWatch with
  | false =>
    have hquiet : l.daemon.remote.handle .childDown = (l.daemon.remote, []) := by
      simp [SessionRemote.handle, SessionRemote.awaits, SessionRemote.callback, hwatch]
    refine ⟨h.quiet (by rw [hquiet]), fun hwait => ?_⟩
    have hyes := h.watched (by simp [hwait]) (h.up hwait)
    exact absurd (hwatch.symm.trans hyes) (by simp)
  | true =>
    cases hf : l.daemon.remote.finalized with
    | true =>
      refine ⟨h.quiet (rung_of_finalized hf _), fun hwait => ?_⟩
      exact absurd ((h.lives.mp hf).symm.trans hwait) (by simp)
    | false =>
    have hdispatch : l.daemon.dispatch (.event .childDown) =
        ⟨l.daemon.remote.onChildDown.1, l.daemon.phase⟩ := by
      simp [Remote.dispatch, SessionRemote.handle_of_live hf, SessionRemote.callback, hwatch]
    by_cases hwait : l.daemon.phase = .disposing
    · have hphase : (l.act (.event .childDown)).daemon.phase = .disposed := by
        rw [(act_daemon _).1, Remote.step, hdispatch]
        simp [Remote.settle, hwait, hdown]
      refine ⟨⟨h.lives_act _, fun hne => absurd hphase hne, ?_, ?_⟩, fun _ => hphase⟩
      · exact fun hw => absurd (hphase.symm.trans hw) (by simp)
      · exact fun hw => absurd (hphase.symm.trans hw) (by simp)
    · have hdaemon := act_daemon_of _ _ hdispatch fun hw => absurd hw hwait
      refine ⟨⟨h.lives_act _, fun _ hup => ?_, ?_, ?_⟩, fun hw => absurd hw hwait⟩
      · rw [hdaemon] at hup
        exact absurd (hdown.symm.trans hup) (by simp)
      · rw [hdaemon]
        exact fun hw => absurd hw hwait
      · rw [hdaemon]
        exact fun hw => absurd hw hwait

/-- A request keeps the child and its watch. -/
theorem terminate_frame (m : SessionRemote) : m.terminate.1.isSessiondUp = m.isSessiondUp ∧
    m.terminate.1.childWatch = m.childWatch := by
  simp only [SessionRemote.terminate]
  split <;> exact ⟨rfl, rfl⟩

theorem terminate_waiting (h : Waiting l) (halive : l.daemon.phase = .alive) :
    Waiting (l.act .terminate) := by
  obtain ⟨hup, hwatch⟩ := terminate_frame l.daemon.remote
  have hdaemon := act_daemon_of (l := l) .terminate
    ⟨l.daemon.remote.terminate.1, l.daemon.phase⟩ (by simp [Remote.dispatch, halive])
    fun hw => absurd (halive.symm.trans hw) (by simp)
  refine ⟨h.lives_act _, ?_, ?_, ?_⟩
  · rw [hdaemon]
    simp only [hup, hwatch]
    exact h.watched
  · rw [hdaemon]
    exact fun hw => absurd (halive.symm.trans hw) (by simp)
  · rw [hdaemon]
    exact fun hw => absurd (halive.symm.trans hw) (by simp)

/-- The wait begins with a timer of its own. -/
theorem dispose_waiting (h : Waiting l) : Waiting (l.act .dispose) := by
  by_cases halive : l.daemon.phase = .alive
  · cases hup : l.daemon.remote.isSessiondUp with
    | true =>
      have hdaemon := act_daemon_of (l := l) .dispose ⟨(show SessionRemote from
          { l.daemon.remote with canEmitSignal := false }).terminate.1, .disposing⟩
        (by simp [Remote.dispatch, halive]) fun _ => (terminate_frame _).1.trans hup
      have hwatch := h.watched (by simp [halive]) hup
      refine ⟨h.lives_act _, fun _ _ => ?_, fun _ => ?_, fun _ => .inr ?_⟩
      · rw [hdaemon]
        exact (terminate_frame _).2.trans hwatch
      · rw [hdaemon]
        exact (terminate_frame _).1.trans hup
      · simp only [Armed, hdaemon, SessionRemote.terminate, hup, if_true, SessionRemote.sendSignal]
        simp
    | false =>
      have hphase : (l.act .dispose).daemon.phase = .disposed := by
        rw [(act_daemon _).1]
        simp [Remote.step, Remote.dispatch, halive, Remote.settle, SessionRemote.terminate, hup]
      refine ⟨h.lives_act _, fun hne => absurd hphase hne, ?_, ?_⟩
      · exact fun hw => absurd (hphase.symm.trans hw) (by simp)
      · exact fun hw => absurd (hphase.symm.trans hw) (by simp)
  · have hdaemon := act_daemon_of (l := l) .dispose l.daemon
      (by simp [Remote.dispatch, halive]) h.up
    exact h.stay (by rw [hdaemon]) (by rw [hdaemon]) (killed_act _)

/-! ## Runs -/

theorem Waiting.elsewhere (h : Waiting l) {l' : SessionLink} (hdaemon : l'.daemon = l.daemon)
    (hkilled : Killed l → Killed l') : Waiting l' :=
  h.stay (by rw [hdaemon]) (by rw [hdaemon]) hkilled

/-- **Every step keeps the handle waiting as it should.** -/
theorem Waiting.step (h : Waiting l) (st : LinkStep) : Waiting (l.step restores st) := by
  by_cases hnear : Elsewhere st
  · exact h.elsewhere (step_elsewhere hnear) (step_killed st)
  · obtain ⟨ms, -, heq | ⟨rst, hasks, heq⟩⟩ := step_near restores l hnear
    · rw [heq]
      exact h.elsewhere rfl id
    · have hheard : Waiting { l with messages := ms } := h.elsewhere rfl id
      rw [heq]
      cases hasks with
      | terminate halive => exact terminate_waiting hheard halive
      | dispose => exact dispose_waiting hheard
      | tick source =>
        by_cases hlive : source ∈ l.daemon.remote.timers
        · exact (tick_climbs hheard hlive).1
        · refine hheard.quiet (rung_handle _ (by simp) fun source' heq => ?_)
          cases heq
          exact hlive
      | hear e hdown htick =>
        exact hheard.quiet (rung_handle _ hdown fun source heq => absurd heq (htick source))
      | reap => exact (reap_waiting hheard).1
      | broken code => exact hheard.quiet (rung_handle _ (by simp) (by simp))

theorem waiting_new : Waiting (new seatid service username creation) where
  lives := iff_of_false (by simp [new, SessionRemote.connect, SessionRemote.spawned]) (by simp [new])
  watched _ _ := rfl
  up h := by cases h
  bounded h := by cases h

theorem run_waiting (sts : List LinkStep) :
    Always (step restores) Waiting (new seatid service username creation) sts :=
  always_of_step (E := fun _ => True) (fun _ st _ h => h.step st) waiting_new (fun _ _ => trivial)

/-! ## The wait is bounded -/

/-- A tick of a timer that is live. -/
def liveTick (l : SessionLink) : LinkStep → Bool
  | .tick source => l.daemonUp && decide (source ∈ l.daemon.remote.timers)
  | _ => false

/-- How many ticks of live timers a run has. -/
def ticks (restores : Bool) : SessionLink → List LinkStep → ℕ
  | _, [] => 0
  | l, st :: sts => (if liveTick l st then 1 else 0) + ticks restores (l.step restores st) sts

/-- How many ticks there are still to come to `SIGKILL`. -/
def togo (l : SessionLink) : ℕ :=
  match l.daemon.remote.lastSig with
  | some .hup => 2
  | some .term => 1
  | _ => 0

theorem togo_congr {l' : SessionLink} (h : rung l'.daemon.remote = rung l.daemon.remote) :
    togo l' = togo l := by
  have hsig : l'.daemon.remote.lastSig = l.daemon.remote.lastSig := congrArg Prod.fst h
  simp only [togo, hsig]

theorem togo_le (l : SessionLink) : togo l ≤ 2 := by
  simp only [togo]
  split <;> omega

/-- A wait that has come all the way has sent `SIGKILL`. -/
theorem Waiting.killed (h : Waiting l) (hwait : l.daemon.phase = .disposing) (hgo : togo l = 0) :
    Killed l := by
  refine (h.bounded hwait).resolve_right ?_
  rintro ⟨hsig | hsig, -⟩ <;> simp [togo, hsig] at hgo

/-- From `l` to `l'` a wait ended, or `SIGKILL` was sent, or the wait goes on and has come
at least `n` ticks further. -/
def Toward (l l' : SessionLink) (n : ℕ) : Prop :=
  Killed l' ∨ l'.daemon.phase = .disposed ∨
    l'.daemon.phase = .disposing ∧ togo l' + n ≤ togo l

theorem toward_of_rung {l' : SessionLink} (hwait : l.daemon.phase = .disposing)
    (hphase : l'.daemon.phase = l.daemon.phase)
    (hrung : rung l'.daemon.remote = rung l.daemon.remote) : Toward l l' 0 :=
  .inr (.inr ⟨hphase.trans hwait, Nat.le_of_eq (togo_congr hrung)⟩)

theorem toward_of_daemon {l' : SessionLink} (hwait : l.daemon.phase = .disposing)
    (hdaemon : l'.daemon = l.daemon) : Toward l l' 0 :=
  toward_of_rung hwait (by rw [hdaemon]) (by rw [hdaemon])

theorem toward_quiet (h : Waiting l) (hwait : l.daemon.phase = .disposing) {e : SessionEvent}
    (hrung : rung (l.daemon.remote.handle e).1 = rung l.daemon.remote) :
    Toward l (l.act (.event e)) 0 := by
  have hdaemon := quiet_daemon h hrung
  exact toward_of_rung hwait (by rw [hdaemon]) (by rw [hdaemon]; exact hrung)

theorem toward_tick (h : Waiting l) (hwait : l.daemon.phase = .disposing) {source : ℕ}
    (hlive : source ∈ l.daemon.remote.timers) :
    Toward l (l.act (.event (.terminateTimeout source))) 1 := by
  obtain ⟨hnext, hclimb⟩ := tick_climbs h hlive
  obtain ⟨hphase, hterm, hkill⟩ := hclimb hwait
  obtain hkilled | ⟨hsig | hsig, -⟩ := h.bounded hwait
  · exact .inl (killed_act _ hkilled)
  · refine .inr (.inr ⟨hphase, ?_⟩)
    simp [togo, hsig, hterm hsig]
  · exact .inl (hkill hsig)

/-- **Every step of a wait leads on**, and a tick by one rung. -/
theorem step_toward (h : Waiting l) (hwait : l.daemon.phase = .disposing) (st : LinkStep) :
    Toward l (l.step restores st) (if liveTick l st then 1 else 0) := by
  by_cases hlively : liveTick l st = true
  · rw [if_pos hlively]
    cases st with
    | tick source =>
      obtain ⟨hup, hlive⟩ := Bool.and_eq_true_iff.mp hlively
      simp only [SessionLink.step, hup, if_true]
      exact toward_tick h hwait (of_decide_eq_true hlive)
    | _ => cases hlively
  rw [if_neg hlively]
  by_cases hnear : Elsewhere st
  · exact toward_of_daemon hwait (step_elsewhere hnear)
  · obtain ⟨ms, -, heq | ⟨rst, hasks, heq⟩⟩ := step_near restores l hnear
    · rw [heq]
      exact toward_of_daemon hwait rfl
    · have hheard : Waiting { l with messages := ms } := h.elsewhere rfl id
      rw [heq]
      cases hasks with
      | terminate halive => cases hwait.symm.trans halive
      | dispose =>
        exact toward_of_daemon hwait
          (act_daemon_of .dispose l.daemon (by simp [Remote.dispatch, hwait]) h.up)
      | tick source =>
        by_cases hup : l.daemonUp = true
        · have hlive : source ∉ l.daemon.remote.timers := fun hlive =>
            hlively (by simp [liveTick, hup, hlive])
          refine toward_quiet hheard hwait (rung_handle _ (by simp) fun source' heq' => ?_)
          cases heq'
          exact hlive
        · rw [← heq]
          simp only [SessionLink.step, if_neg hup]
          exact toward_of_daemon hwait rfl
      | hear e hdown htick =>
        exact toward_quiet hheard hwait
          (rung_handle _ hdown fun source heq => absurd heq (htick source))
      | reap => exact .inr (.inl ((reap_waiting hheard).2 hwait))
      | broken code => exact toward_quiet hheard hwait (rung_handle _ (by simp) (by simp))

/-- A handle that is disposed of stays so. -/
theorem step_disposed (hdone : l.daemon.phase = .disposed) (st : LinkStep) :
    (l.step restores st).daemon.phase = .disposed := by
  have hact : ∀ (l' : SessionLink) (rst : RemoteStep), l'.daemon = l.daemon →
      (l'.act rst).daemon.phase = .disposed := by
    intro l' rst hl'
    rw [(act_daemon rst).1, hl', Remote.step, Remote.settle]
    have hphase : (l.daemon.dispatch rst).phase = .disposed := by
      cases rst <;> simp [Remote.dispatch, hdone]
    split
    · rfl
    · exact hphase
  by_cases hnear : Elsewhere st
  · rw [step_elsewhere hnear]
    exact hdone
  · obtain ⟨ms, -, heq | ⟨rst, -, heq⟩⟩ := step_near restores l hnear
    · rw [heq]
      exact hdone
    · rw [heq]
      exact hact _ rst rfl

theorem run_killed (sts : List LinkStep) (h : Killed l) : Killed (run restores l sts) := by
  induction sts generalizing l with
  | nil => exact h
  | cons st sts ih => exact ih (step_killed st h)

theorem run_disposed (sts : List LinkStep) (h : l.daemon.phase = .disposed) :
    (run restores l sts).daemon.phase = .disposed := by
  induction sts generalizing l with
  | nil => exact h
  | cons st sts ih => exact ih (step_disposed h st)

theorem Waiting.run_togo (h : Waiting l) (hwait : l.daemon.phase = .disposing) (sts : List LinkStep)
    (hticks : togo l ≤ ticks restores l sts) :
    Killed (run restores l sts) ∨ (run restores l sts).daemon.phase = .disposed := by
  induction sts generalizing l with
  | nil =>
    simp only [ticks] at hticks
    exact .inl (h.killed hwait (by omega))
  | cons st sts ih =>
    have htoward : Toward l (l.step restores st) _ := step_toward h hwait st
    obtain hkilled | hdone | ⟨hwait', hgo⟩ := htoward
    · exact .inl (run_killed sts hkilled)
    · exact .inr (run_disposed sts hdone)
    · simp only [ticks] at hticks
      exact ih (h.step st) hwait' (by omega)

/-- The steps that end a wait: the timer, the kernel and the child watch. -/
def Ending : LinkStep → Prop
  | .tick _ | .reap => True
  | .deliver sig _ => sig = .kill
  | _ => False

/-- Behind `SIGKILL` the wait ends. -/
theorem Waiting.ends_of_killed (h : Waiting l) (hwait : l.daemon.phase = .disposing)
    (hup : l.daemonUp = true) (hkilled : Killed l) :
    ∃ sts : List LinkStep, sts.length ≤ 2 ∧ (∀ st ∈ sts, Ending st) ∧
      (run restores l sts).daemon.phase = .disposed := by
  have hreap : ∀ {l : SessionLink}, Waiting l → l.daemon.phase = .disposing → l.daemonUp = true →
      l.sessiond.phase = .gone → (l.step restores .reap).daemon.phase = .disposed := by
    intro l h hwait hup hgone
    simp only [SessionLink.step, hup, hgone, and_self, if_true]
    exact (reap_waiting h).2 hwait
  obtain hpending | hgone := hkilled
  · refine ⟨[.deliver .kill 0, .reap], by simp, by simp [Ending], ?_⟩
    have hdaemon : (l.step restores (.deliver .kill 0)).daemon = l.daemon := step_elsewhere trivial
    refine hreap (h.step _) (by rw [hdaemon]; exact hwait) ?_ (deliver_kill hpending 0)
    simp only [SessionLink.step, hpending, if_true]
    split <;> exact hup
  · exact ⟨[.reap], by simp, by simp [Ending], hreap h hwait hup hgone⟩

/-- From every state of the wait its end is a few steps away. -/
theorem Waiting.ends (h : Waiting l) (hwait : l.daemon.phase = .disposing) (hup : l.daemonUp = true)
    {n : ℕ} (hgo : togo l ≤ n) :
    ∃ sts : List LinkStep, sts.length ≤ n + 2 ∧ (∀ st ∈ sts, Ending st) ∧
      (run restores l sts).daemon.phase = .disposed := by
  induction n generalizing l with
  | zero => exact h.ends_of_killed hwait hup (h.killed hwait (by omega))
  | succ n ih =>
    obtain hkilled | ⟨-, -, hlive⟩ := h.bounded hwait
    · obtain ⟨sts, hlength, hends, hdone⟩ := h.ends_of_killed hwait hup hkilled
      exact ⟨sts, by omega, hends, hdone⟩
    · -- the recorded timer ticks
      have htick : l.step restores (.tick l.daemon.remote.timerId) =
          l.act (.event (.terminateTimeout l.daemon.remote.timerId)) := by
        simp only [SessionLink.step, hup, if_true]
      have hnext : Waiting (l.step restores (.tick l.daemon.remote.timerId)) := h.step _
      have hup' : (l.step restores (.tick l.daemon.remote.timerId)).daemonUp = true := by
        rw [htick, (act_daemon _).2.1, hup]
      have hbehind : ∀ sts : List LinkStep, sts.length ≤ n + 2 → (∀ st ∈ sts, Ending st) →
          (run restores (l.step restores (.tick l.daemon.remote.timerId)) sts).daemon.phase =
            .disposed →
          ∃ sts : List LinkStep, sts.length ≤ n + 1 + 2 ∧ (∀ st ∈ sts, Ending st) ∧
            (run restores l sts).daemon.phase = .disposed := by
        intro sts hlength hends hdone
        refine ⟨.tick l.daemon.remote.timerId :: sts, by simp; omega, ?_, hdone⟩
        exact List.forall_mem_cons.mpr ⟨trivial, hends⟩
      have htoward := toward_tick h hwait hlive
      rw [← htick] at htoward
      obtain hkilled | hdone | ⟨hwait', hgo'⟩ := htoward
      · by_cases hwait' : (l.step restores (.tick l.daemon.remote.timerId)).daemon.phase = .disposing
        · obtain ⟨sts, hlength, hends, hdone⟩ := hnext.ends_of_killed hwait' hup' hkilled
          exact hbehind sts (by omega) hends hdone
        · have hphase := ((tick_climbs h hlive).2 hwait).1
          rw [← htick] at hphase
          exact absurd hphase hwait'
      · exact hbehind [] (by simp) (by simp) hdone
      · obtain ⟨sts, hlength, hends, hdone⟩ := ih hnext hwait' hup' (by omega)
        exact hbehind sts hlength hends hdone

/-- **The daemon's wait for a session process is bounded.** In every state of every run
in which `tlm_session_remote_dispose` waits: whatever happens from there on, behind two
ticks of live timers `SIGKILL` is on its way, or the process is gone, or the wait is
over; and with nothing but ticks, the delivery of `SIGKILL` and the child watch it is
over within four steps. -/
theorem run_wait_bounded (restores : Bool) (seatid service : String) (username : Option String)
    (creation : Option Creation) (sts : List LinkStep) :
    Always (step restores) (fun l => l.daemon.phase = .disposing →
        (∀ after, 2 ≤ ticks restores l after →
          Killed (run restores l after) ∨ (run restores l after).daemon.phase = .disposed) ∧
        (l.daemonUp = true → ∃ after : List LinkStep, after.length ≤ 4 ∧
          (∀ st ∈ after, Ending st) ∧ (run restores l after).daemon.phase = .disposed))
      (new seatid service username creation) sts := by
  refine (run_waiting sts).imp fun l h hwait => ⟨fun after hticks => ?_, fun hup => ?_⟩
  · exact h.run_togo hwait after (Nat.le_trans (togo_le l) hticks)
  · exact h.ends hwait hup (togo_le l)

end SessionLink

end Tlm
