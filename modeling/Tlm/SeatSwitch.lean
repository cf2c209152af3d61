import Tlm.SeatLogin

/-!
# The pending switch

A switch request on an occupied seat stores the credentials of the next session
and asks the current one to go; the relogin that follows uses and clears them.
In between `Seat.Pending` holds, and it should hold only while the seat has a
live session that was asked to terminate: `Seat.Coherent`. Otherwise the stored
credentials wait for an unrelated session to end.

Two ways of losing a session do not clear them. `_handle_error` closes it on a
fatal error, and the X11 branch of `_handle_session_terminated` returns before
the relogin. `run_coherent` says that these are **all**: a managed seat is
coherent throughout a run iff neither ever happens with a switch pending.
-/

namespace Tlm

namespace Seat

variable {Looked : String → ℕ → Prop} {cfg : Config} {sys : Sys} {args : LoginArgs} {s s' : Seat}

/-- Some of `next_service`, `next_user`, `next_password`, `next_environment` is
set. -/
def Pending (s : Seat) : Prop :=
  s.nextService.isSome ∨ s.nextUser.isSome ∨ s.nextPassword.isSome ∨ s.nextEnvironment.isSome

/-- A pending switch has a live session on which termination was requested,
until the manager's stop handler has taken the seat out of its table. -/
def Coherent (s : Seat) : Prop :=
  s.stopFired = false → s.Pending → ∃ x, s.session = some x ∧
    (s.sessions.get x).isSessiondUp = true ∧ (s.sessions.get x).lastSig ≠ none

/-- The emission closes the session and does not clear the pending switch: a
fatal error, or the end of an X11 session that the manager is not stopping. -/
def Loses (cfg : Config) (s : Seat) (g : SessionSignal) : Prop :=
  (∃ code, g = .error code ∧ isFatal code = true) ∨
    (g = .terminated ∧ s.stopHandlers = 0 ∧ cfg.x11Session = true)

/-- The dispatch makes the current handle emit something that closes the session
under a pending switch and leaves the switch behind. -/
def Orphans (s : Seat) (st : SeatStep) : Prop :=
  s.stopFired = false ∧ s.Pending ∧ ∃ x e g, st.event = .session x e ∧ s.session = some x ∧
    ((s.sessions.get x).handle e).2 = [g] ∧ s.Loses st.cfg g

/-- If the dispatch is the relogin that uses the stored credentials, it follows
directly on the end of a session that was asked to terminate. -/
def Follows (s : Seat) (st : SeatStep) : Prop :=
  ∀ x e, st.event = .session x e → s.stopFired = false → s.Pending →
    (s.attempt st).isSome = true →
    s.session = some x ∧ (s.sessions.get x).isSessiondUp = true ∧ (s.sessions.get x).lastSig ≠ none

theorem pending_iff (s : Seat) : s.Pending ↔ s.next ≠ {} := by
  simp only [Pending, next, ne_eq, LoginArgs.mk.injEq, Option.isSome_iff_ne_none]
  tauto

/-! ## What the operations do to the pending switch -/

/-- The pending switch is untouched, the seat is as little stopped as before,
and references were taken and dropped only together with delay closures. -/
structure SameNext (s s' : Seat) : Prop where
  next : s'.next = s.next
  stopFired : s'.stopFired = s.stopFired
  refs : s'.refs + s.closures.length = s.refs + s'.closures.length

theorem SameNext.trans {s'' : Seat} (h₁ : SameNext s s') (h₂ : SameNext s' s'') :
    SameNext s s'' := by
  refine ⟨h₂.next.trans h₁.next, h₂.stopFired.trans h₁.stopFired, ?_⟩
  have h₁' := h₁.refs
  have h₂' := h₂.refs
  omega

theorem SameNext.pending (h : SameNext s s') : s'.Pending ↔ s.Pending := by
  rw [pending_iff, pending_iff, h.next]

theorem startSession_sameNext (cfg : Config) (sys : Sys) (args : LoginArgs) (s : Seat) :
    SameNext s (s.startSession cfg sys args).1 := by
  obtain ⟨du, da, acts, -, hsel⟩ := selectUser_frame cfg args s
  rcases startSession_cases cfg sys args s with ⟨-, ss, -, heq⟩ | ⟨-, heq⟩ | ⟨-, uid, -, heq⟩
  all_goals
    rw [heq, hsel]
    exact ⟨rfl, rfl, rfl⟩

theorem createSession_sameNext (cfg : Config) (sys : Sys) (args : LoginArgs) (s : Seat) :
    SameNext s (s.createSession cfg sys args).1 := by
  rcases createSession_cases cfg sys args s with ⟨-, heq⟩ | ⟨-, -, c, heq⟩ | ⟨-, -, c, heq⟩
  · rw [heq]
    exact ⟨rfl, rfl, rfl⟩
  · rw [heq]
    refine ⟨rfl, rfl, ?_⟩
    simp only [List.length_append, List.length_singleton]
    omega
  · rw [heq]
    have h := startSession_sameNext cfg sys args { s with prevTime := sys.now, prevCount := c }
    exact ⟨h.next, h.stopFired, h.refs⟩

theorem terminateSession_sameNext (s : Seat) : SameNext s s.terminateSession.1 := by
  obtain ⟨acts, -, ⟨x, -, -, heq⟩ | ⟨-, heq⟩⟩ := terminateSession_cases s
  all_goals
    rw [heq]
    exact ⟨rfl, rfl, rfl⟩

theorem closed_sameNext (s : Seat) (x : SessionRef) : SameNext s (s.closed x) := by
  obtain ⟨ss, acts, heq⟩ := closed_frame s x
  rw [heq]
  exact ⟨rfl, rfl, rfl⟩

/-! ## The invariant behind coherence -/

/-- Besides the references of its delay closures the seat is held by the
manager, and a pending switch always names a user. -/
structure Held (s : Seat) : Prop where
  refs : s.closures.length < s.refs
  user : s.Pending → s.nextUser.isSome

/-- What coherence rests on. -/
structure Managed (Looked : String → ℕ → Prop) (s : Seat) : Prop extends Held s where
  wf : s.Wf Looked

theorem not_pending_resetNext (s : Seat) : ¬ s.resetNext.Pending := by
  rintro (h | h | h | h) <;> cases h

theorem managed_new (id : String) : (Seat.new id).Managed Looked := by
  refine ⟨⟨Nat.zero_lt_one, ?_⟩, wf_new id⟩
  rintro (h | h | h | h) <;> cases h

theorem Held.sameNext (h : s.Held) (hn : SameNext s s') : s'.Held := by
  refine ⟨?_, fun hp => ?_⟩
  · have hh := h.refs
    have hr := hn.refs
    omega
  · have hu : s'.nextUser = s.nextUser := congrArg LoginArgs.username hn.next
    rw [hu]
    exact h.user (hn.pending.mp hp)

theorem Held.resetNext (h : s.Held) : s.resetNext.Held :=
  ⟨h.refs, fun hp => absurd hp (not_pending_resetNext s)⟩

/-- Coherence, when the switch was not touched and the session neither. -/
theorem Coherent.of_session (hc : s.Coherent) (hn : SameNext s s') (hs : s'.session = s.session)
    (hm : ∀ x, s.session = some x → (s.sessions.get x).isSessiondUp = true →
      (s.sessions.get x).lastSig ≠ none →
      (s'.sessions.get x).isSessiondUp = true ∧ (s'.sessions.get x).lastSig ≠ none) :
    s'.Coherent := by
  intro hf hp
  rw [hn.stopFired] at hf
  obtain ⟨x, hx, hup, hsig⟩ := hc hf (hn.pending.mp hp)
  exact ⟨x, hs.trans hx, hm x hx hup hsig⟩

/-- Nothing is pending: nothing to show. -/
theorem Coherent.of_not_pending (h : ¬ s.Pending) : s.Coherent := fun _ hp => absurd hp h

/-- A call of `tlm_seat_create_session` keeps coherence: with a switch pending
the seat has a session, and the call is refused. -/
theorem createSession_coherent (hc : s.Coherent) : (s.createSession cfg sys args).1.Coherent := by
  have hn := createSession_sameNext cfg sys args s
  intro hf hp
  rw [hn.stopFired] at hf
  obtain ⟨x, hx, hm⟩ := hc hf (hn.pending.mp hp)
  rcases createSession_cases cfg sys args s with ⟨-, heq⟩ | ⟨hs, -⟩ | ⟨hs, -⟩
  · rw [heq]
    exact ⟨x, hx, hm⟩
  · rw [hs] at hx
    cases hx
  · rw [hs] at hx
    cases hx

/-- Asking a live session to go. -/
theorem terminateSession_requested (h : s.Wf Looked) {x : SessionRef} (hx : s.session = some x) :
    s.terminateSession.1.session = some x ∧
      (s.terminateSession.1.sessions.get x).isSessiondUp = true ∧
      (s.terminateSession.1.sessions.get x).lastSig ≠ none := by
  have hup := (h.live x hx).1
  obtain ⟨acts, -, ⟨y, hy, -, heq⟩ | ⟨hdown, -⟩⟩ := terminateSession_cases s
  · obtain rfl : y = x := Option.some.inj (hy.symm.trans hx)
    rw [heq]
    refine ⟨hx, ?_⟩
    simp [SessionRemote.terminate, SessionRemote.sendSignal, hup]
  · rw [hdown x hx] at hup
    cases hup

theorem lastSig_callback {m : SessionRemote} (h : m.lastSig ≠ none) (e : SessionEvent) :
    (m.callback e).1.lastSig ≠ none := by
  cases e with
  | created => exact h
  | terminated => exact h
  | error code => exact h
  | childDown =>
    by_cases hw : m.childWatch <;> by_cases ht : m.timerId = 0 <;>
      simp [SessionRemote.callback, SessionRemote.onChildDown, SessionRemote.removeTimer, hw, ht, h]
  | terminateTimeout source =>
    by_cases hm : source ∈ m.timers
    · rcases hl : m.lastSig with _ | _ | _ | _
      · exact absurd hl h
      all_goals
        simp [SessionRemote.callback, SessionRemote.terminateTimeout, SessionRemote.sendSignal,
          hm, hl]
    · simpa [SessionRemote.callback, hm] using h
  | createReply err =>
    by_cases hp : m.createPending <;> simp [SessionRemote.callback, hp, h]

/-- No event takes a termination request back. -/
theorem lastSig_handle {m : SessionRemote} (h : m.lastSig ≠ none) (e : SessionEvent) :
    (m.handle e).1.lastSig ≠ none := by
  simp only [SessionRemote.handle]
  split
  · split <;> exact h
  · exact lastSig_callback h e

/-! ## Every dispatch -/

/-- The retry of a delay closure is a call like any other; the reference it
drops is its own. -/
theorem delayedSession_coherent (cfg : Config) (hm : s.Managed Looked) (hc : s.Coherent)
    (hL : ∀ u n, sys.getUid u = some n → Looked u n) (k : ℕ) :
    (s.delayedSession cfg sys k).Managed Looked ∧ (s.delayedSession cfg sys k).Coherent := by
  rcases hk : s.closures[k]? with _ | args
  · simp only [delayedSession, hk]
    exact ⟨hm, hc⟩
  · have hw : (s.delayedSession cfg sys k).Wf Looked := delayedSession_wf hm.wf k hL
    have hlen : k < s.closures.length := (List.getElem?_eq_some_iff.mp hk).1
    have herase : (s.closures.eraseIdx k).length + 1 = s.closures.length := by
      rw [List.length_eraseIdx_of_lt hlen]
      omega
    have hheld := hm.refs
    simp only [delayedSession, hk] at hw ⊢
    generalize hs₀ : ({ s with closures := s.closures.eraseIdx k } : Seat) = s₀ at hw ⊢
    have hrefs₀ : s₀.refs = s.refs := by rw [← hs₀]
    have hlen₀ : s₀.closures.length + 1 = s.closures.length := by rw [← hs₀]; exact herase
    have hnext₀ : s₀.next = s.next := by rw [← hs₀]; rfl
    have hstop₀ : s₀.stopFired = s.stopFired := by rw [← hs₀]
    have hc₀ : s₀.Coherent := by rw [← hs₀]; exact hc
    have hn := createSession_sameNext cfg sys args s₀
    have hc₁ : (s₀.createSession cfg sys args).1.Coherent := createSession_coherent hc₀
    generalize (s₀.createSession cfg sys args).1 = s₁ at *
    have hrefs := hn.refs
    -- the manager still holds the seat, so the closure's reference is not the last
    have hmore : ¬ s₁.refs ≤ 1 := by omega
    have hunref : s₁.unref = { s₁ with refs := s₁.refs - 1 } := by
      rw [unref, if_neg hmore]
    rw [hunref] at hw ⊢
    refine ⟨⟨hm.sameNext ⟨hn.next.trans hnext₀, hn.stopFired.trans hstop₀, ?_⟩, hw⟩, hc₁⟩
    simp only
    omega

theorem switchUser_coherent (cfg : Config) (args : LoginArgs) (hm : s.Managed Looked)
    (hc : s.Coherent) (hL : ∀ u n, sys.getUid u = some n → Looked u n) :
    (s.switchUser cfg sys args).1.Managed Looked ∧ (s.switchUser cfg sys args).1.Coherent := by
  have hw : (s.switchUser cfg sys args).1.Wf Looked := switchUser_wf hm.wf hL
  rcases switchUser_cases cfg sys args s with ⟨-, heq⟩ | ⟨-, -, heq⟩ | ⟨ha, hs, heq⟩
  · rw [heq]
    exact ⟨hm, hc⟩
  · rw [heq] at hw ⊢
    exact ⟨⟨hm.sameNext (createSession_sameNext cfg sys args s), hw⟩, createSession_coherent hc⟩
  · rw [heq] at hw ⊢
    obtain ⟨x, hx⟩ := Option.isSome_iff_exists.mp hs
    obtain ⟨⟨u, hu⟩, -⟩ := authenticateUser_some ha
    have hn := terminateSession_sameNext (s.withNext args)
    have hh : (s.withNext args).Held := ⟨hm.refs, fun _ => by simp [withNext, hu]⟩
    have hw' : (s.withNext args).Wf Looked := hm.wf.congr rfl rfl rfl rfl rfl rfl
    exact ⟨⟨hh.sameNext hn, hw⟩, fun _ _ => ⟨x, terminateSession_requested hw' hx⟩⟩

/-- A seat that has lost its session is coherent iff nothing was pending, or it
is stopped. -/
theorem coherent_iff_of_none (hs : s'.session = none) (hn : SameNext s s') :
    s'.Coherent ↔ ¬ (s.stopFired = false ∧ s.Pending) := by
  constructor
  · rintro hc ⟨hf, hp⟩
    obtain ⟨x, hx, -⟩ := hc (hn.stopFired.trans hf) (hn.pending.mpr hp)
    rw [hs] at hx
    cases hx
  · intro h hf hp
    exact absurd ⟨hn.stopFired.symm.trans hf, hn.pending.mp hp⟩ h

/-- A fatal error costs the seat its session. -/
theorem handleError_fatal {code : ℤ} (hc : isFatal code = true) (x : SessionRef) (s : Seat) :
    (s.handleError code x).session = none ∧ SameNext s (s.handleError code x) := by
  obtain ⟨ss, acts, h₁⟩ := closeActiveSession_frame (s.emit (.sessionError code)) x
  obtain ⟨acts', h₂⟩ := clearDbusObserver_eq
    ((s.emit (.sessionError code)).closeActiveSession x)
  have heq : s.handleError code x =
      ((s.emit (.sessionError code)).closeActiveSession x).clearDbusObserver := by
    simp only [handleError, hc, if_true]
  rw [heq, h₂, h₁]
  exact ⟨rfl, rfl, rfl, rfl⟩

/-- An emission of the current handle keeps coherence, unless the session is
lost under a pending switch. -/
theorem runHandler_coherent (cfg : Config) (sys : Sys) (x : SessionRef) {g : SessionSignal}
    (hh : s.Held) (hc : g ≠ .terminated → s.Coherent) :
    (s.runHandler cfg sys x g).Held ∧ ((s.runHandler cfg sys x g).Coherent ↔
      ¬ (s.stopFired = false ∧ s.Pending ∧ s.Loses cfg g)) := by
  cases g with
  | created =>
    obtain ⟨acts, heq⟩ := clearPrevDbusObserver_eq (s.emit .sessionCreated)
    have hlose : ¬ s.Loses cfg .created := by
      rintro (⟨code, hg, -⟩ | ⟨hg, -⟩) <;> cases hg
    simp only [runHandler, handleSessionCreated, heq]
    refine ⟨hh.sameNext ⟨rfl, rfl, rfl⟩, fun _ h => hlose h.2.2, fun _ => ?_⟩
    exact hc (by simp)
  | error code =>
    cases hfatal : isFatal code with
    | true =>
      obtain ⟨hnone, hn⟩ := handleError_fatal hfatal x s
      refine ⟨hh.sameNext hn, (coherent_iff_of_none hnone hn).trans (not_congr ?_)⟩
      exact ⟨fun h => ⟨h.1, h.2, Or.inl ⟨code, rfl, hfatal⟩⟩, fun h => ⟨h.1, h.2.1⟩⟩
    | false =>
      have hlose : ¬ s.Loses cfg (.error code) := by
        rintro (⟨code', hg, hf⟩ | ⟨hg, -⟩)
        · injection hg with hg
          rw [← hg, hfatal] at hf
          cases hf
        · cases hg
      simp only [runHandler, handleError, hfatal, Bool.false_eq_true, if_false]
      refine ⟨hh.sameNext ⟨rfl, rfl, rfl⟩, fun _ h => hlose h.2.2, fun _ => ?_⟩
      exact hc (by simp)
  | terminated =>
    have hn := closed_sameNext s x
    have hnone := (closed_cleared s x).session
    rcases handleSessionTerminated_eq cfg sys x s with
      ⟨hr, heq⟩ | ⟨-, ⟨hu, heq⟩ | ⟨hst, hx11, heq⟩ | ⟨hst, heq⟩⟩
    · -- the relogin uses up what was pending
      simp only [runHandler, heq]
      have hemit : SameNext s ((s.closed x).emit (.relogin x)) := hn.trans ⟨rfl, rfl, rfl⟩
      have hn' := hemit.trans (createSession_sameNext cfg sys s.next _)
      refine ⟨(hh.sameNext hn').resetNext, ?_⟩
      refine ⟨?_, fun _ => Coherent.of_not_pending (not_pending_resetNext _)⟩
      rintro - ⟨-, -, ⟨code, hg, -⟩ | ⟨-, hst, hx11⟩⟩
      · cases hg
      · simp [relogs, hx11] at hr
    · -- no relogin is configured and no user stored, so nothing is pending
      simp only [runHandler, heq]
      have hp : ¬ s.Pending := fun hp => by simpa [hu] using hh.user hp
      exact ⟨hh.sameNext hn, fun _ h => hp h.2.1,
        fun _ => Coherent.of_not_pending fun h => hp (hn.pending.mp h)⟩
    · simp only [runHandler, heq]
      have hn' : SameNext s ((s.closed x).emit .killGroup) := hn.trans ⟨rfl, rfl, rfl⟩
      have hnone' : ((s.closed x).emit .killGroup).session = none := hnone
      refine ⟨hh.sameNext hn', (coherent_iff_of_none hnone' hn').trans (not_congr ?_)⟩
      exact ⟨fun h => ⟨h.1, h.2, Or.inr ⟨rfl, hst, hx11⟩⟩, fun h => ⟨h.1, h.2.1⟩⟩
    · -- the manager takes the seat over
      obtain ⟨ss, acts, heq'⟩ := closeActiveSession_frame s x
      simp only [runHandler, heq]
      refine ⟨⟨?_, ?_⟩, ⟨?_, fun _ hf => by cases hf⟩⟩
      · rw [heq']
        exact hh.refs
      · rw [heq']
        exact hh.user
      · rintro - ⟨-, -, ⟨code, hg, -⟩ | ⟨-, hz, -⟩⟩
        · cases hg
        · omega

theorem released_sameNext (x : SessionRef) (s : Seat) : SameNext s (s.released x) := by
  obtain ⟨ss, heq, -⟩ := released_frame x s
  rw [heq]
  exact ⟨rfl, rfl, rfl⟩

/-- The end of an emission says nothing about the session there is then. -/
theorem released_coherent (x : SessionRef) (s : Seat) : (s.released x).Coherent ↔ s.Coherent := by
  obtain ⟨ss, heq, -, -, hss⟩ := released_frame x s
  rw [heq]
  constructor
  · intro hc hf hp
    obtain ⟨y, hy, hm⟩ := hc hf hp
    have hy' : s.session = some y := hy
    rw [hss y hy'] at hm
    exact ⟨y, hy', hm⟩
  · intro hc hf hp
    obtain ⟨y, hy, hm⟩ := hc hf hp
    refine ⟨y, hy, ?_⟩
    rw [hss y hy]
    exact hm

/-- An event of a handle. -/
theorem sessionEvent_coherent (hm : s.Managed Looked) (hc : s.Coherent) {st : SeatStep}
    {x : SessionRef} {e : SessionEvent} (he : st.event = .session x e)
    (hw : (s.sessionEvent st.cfg st.sys x e).Wf Looked) :
    (s.sessionEvent st.cfg st.sys x e).Managed Looked ∧
      ((s.sessionEvent st.cfg st.sys x e).Coherent ↔ ¬ s.Orphans st) := by
  have hn : SameNext s (s.setSession x ((s.sessions.get x).handle e).1) := ⟨rfl, rfl, rfl⟩
  by_cases hx : s.session = some x
  · have horph : ∀ g, ((s.sessions.get x).handle e).2 = [g] →
        (s.Orphans st ↔ s.stopFired = false ∧ s.Pending ∧ s.Loses st.cfg g) := by
      intro g hg
      constructor
      · rintro ⟨hf, hp, x', e', g', he', hx', hg', hl⟩
        rw [he] at he'
        obtain ⟨rfl, rfl⟩ := SeatEvent.session.inj he'
        rw [hg] at hg'
        obtain rfl := (List.cons.inj hg').1
        exact ⟨hf, hp, hl⟩
      · rintro ⟨hf, hp, hl⟩
        exact ⟨hf, hp, x, e, g, he, hx, hg, hl⟩
    -- what the current handle emits decides; until its end it stays live
    have hset : ((s.sessions.get x).handle e).2 ≠ [.terminated] →
        (s.setSession x ((s.sessions.get x).handle e).1).Coherent := by
      intro hne
      refine hc.of_session hn rfl fun y hy _ hsig => ?_
      obtain rfl : y = x := Option.some.inj (hy.symm.trans hx)
      change ((s.sessions.set y _).get y).isSessiondUp = true ∧
        ((s.sessions.set y _).get y).lastSig ≠ none
      rw [Store.get_set_self]
      rcases live_handle (hm.wf.live y hy) e with hl | hl
      · exact ⟨hl.1, lastSig_handle hsig e⟩
      · exact absurd hl hne
    rcases sessionEvent_current hm.wf.toLinked hx st.cfg st.sys e with ⟨hg, heq⟩ | ⟨g, hg, heq⟩
    · rw [heq] at hw ⊢
      refine ⟨⟨hm.sameNext hn, hw⟩, fun _ => ?_, fun _ => hset (by rw [hg]; simp)⟩
      rintro ⟨-, -, x', e', g', he', -, hg', -⟩
      rw [he] at he'
      obtain ⟨rfl, rfl⟩ := SeatEvent.session.inj he'
      rw [hg] at hg'
      cases hg'
    · rw [heq] at hw ⊢
      rw [horph g hg]
      have hrun := runHandler_coherent st.cfg st.sys x (hm.sameNext hn)
        fun hne : g ≠ .terminated => hset (by rw [hg]; simpa using hne)
      have hend := released_sameNext x
        ((s.setSession x ((s.sessions.get x).handle e).1).runHandler st.cfg st.sys x g)
      refine ⟨⟨hrun.1.sameNext hend, hw⟩, ?_⟩
      rw [released_coherent]
      refine hrun.2.trans (not_congr ?_)
      rw [hn.stopFired, hn.pending]
      rfl
  · rw [sessionEvent_stale hm.wf.toLinked hx] at hw ⊢
    refine ⟨⟨hm.sameNext hn, hw⟩, fun _ => ?_, fun _ => ?_⟩
    · rintro ⟨-, -, x', e', g', he', hx', -⟩
      rw [he] at he'
      obtain ⟨rfl, rfl⟩ := SeatEvent.session.inj he'
      exact hx hx'
    · refine hc.of_session hn rfl fun y hy hup hsig => ?_
      have hyx : y ≠ x := fun h => hx (h ▸ hy)
      change ((s.sessions.set x _).get y).isSessiondUp = true ∧
        ((s.sessions.set x _).get y).lastSig ≠ none
      rw [Store.get_set_ne _ _ hyx]
      exact ⟨hup, hsig⟩

/-- A dispatch to a managed seat keeps coherence exactly when it does not orphan
a pending switch. -/
theorem step_coherent (hm : s.Managed Looked) (hc : s.Coherent) {st : SeatStep}
    (hne : st.event ≠ .unref) (hL : ∀ u n, st.sys.getUid u = some n → Looked u n) :
    (s.step st).Managed Looked ∧ ((s.step st).Coherent ↔ ¬ s.Orphans st) := by
  have hw : (s.step st).Wf Looked := step_wf hm.wf hL
  have hrefs : s.refs ≠ 0 := by
    have := hm.refs
    omega
  rw [step, if_neg hrefs] at hw ⊢
  have hkeep : (∀ x e, st.event ≠ .session x e) → (s.dispatch st).Coherent →
      ((s.dispatch st).Coherent ↔ ¬ s.Orphans st) := by
    intro hev hcoh
    refine ⟨fun _ => ?_, fun _ => hcoh⟩
    rintro ⟨-, -, x, e, -, he, -⟩
    exact hev x e he
  unfold dispatch at *
  cases he : st.event with
  | createSession args =>
    simp only [he] at hw hkeep ⊢
    exact ⟨⟨hm.sameNext (createSession_sameNext _ _ _ _), hw⟩,
      hkeep (by simp) (createSession_coherent hc)⟩
  | switchUser args =>
    simp only [he] at hkeep ⊢
    obtain ⟨hm', hc'⟩ := switchUser_coherent st.cfg args hm hc hL
    exact ⟨hm', hkeep (by simp) hc'⟩
  | terminateSession =>
    simp only [he] at hw hkeep ⊢
    have hn := terminateSession_sameNext s
    refine ⟨⟨hm.sameNext hn, hw⟩, hkeep (by simp) fun hf hp => ?_⟩
    rw [hn.stopFired] at hf
    obtain ⟨x, hx, -⟩ := hc hf (hn.pending.mp hp)
    exact ⟨x, terminateSession_requested hm.wf hx⟩
  | delayedSession k =>
    simp only [he] at hkeep ⊢
    obtain ⟨hm', hc'⟩ := delayedSession_coherent st.cfg hm hc hL k
    exact ⟨hm', hkeep (by simp) hc'⟩
  | session x e =>
    simp only [he] at hw ⊢
    exact sessionEvent_coherent hm hc he hw
  | connectStop =>
    simp only [he] at hw hkeep ⊢
    exact ⟨⟨⟨hm.refs, hm.user⟩, hw⟩, hkeep (by simp) hc⟩
  | ref =>
    simp only [he] at hw hkeep ⊢
    exact ⟨⟨⟨Nat.lt_succ_of_lt hm.refs, hm.user⟩, hw⟩, hkeep (by simp) hc⟩
  | unref => exact absurd he hne

/-- A coherent seat spends a pending switch on the session it asked to go. -/
theorem Coherent.follows (hc : s.Coherent) (st : SeatStep) : s.Follows st := by
  intro x e he hstop hp ha
  obtain ⟨y, hy, hup, hsig⟩ := hc hstop hp
  have hx : s.session = some x := by
    simp only [attempt, he] at ha
    by_contra hne
    simp [hne] at ha
  obtain rfl : y = x := Option.some.inj (hy.symm.trans hx)
  exact ⟨hx, hup, hsig⟩

/-- **Pending-switch coherence, exactly**: as long as the manager does not drop
the seat, in every state of a run a pending switch has a live session that was
asked to terminate, iff no dispatch of the run orphans a pending switch. In such
a run the stored credentials are used by no relogin but the one that follows on
the end of that session. -/
theorem run_coherent (id : String) (sts : List SeatStep) (hm : ∀ st ∈ sts, st.event ≠ .unref) :
    (Always step Coherent (Seat.new id) sts ↔
      Along step (fun s st => ¬ s.Orphans st) (Seat.new id) sts) ∧
    (Along step (fun s st => ¬ s.Orphans st) (Seat.new id) sts →
      Along step Follows (Seat.new id) sts) := by
  have hiff : Always step Coherent (Seat.new id) sts ↔
      Along step (fun s st => ¬ s.Orphans st) (Seat.new id) sts := by
    refine always_iff_along (I := Managed (LookedUp sts)) ?_ (managed_new id) ?_ fun _ hst => hst
    · intro s st hst hman hc
      exact step_coherent hman hc (hm st hst) fun u n hu => ⟨st, hst, hu⟩
    · apply Coherent.of_not_pending
      rintro (h | h | h | h) <;> cases h
  exact ⟨hiff, fun h => (hiff.mpr h).along fun s st hc => hc.follows st⟩

/-- A switch of the seat to `alice`, who passes the pre-check. -/
def switchStep : SeatStep :=
  ⟨Config.empty, { pam := fun _ _ _ => true }, .switchUser
    { username := some "alice", password := some "secret", environment := some [] }⟩

theorem run_coherent_switch :
    ((Seat.new "seat0").run [loginStep Config.empty (some "bob") 5000000, switchStep]).nextUser =
        some "alice" ∧
      Always step Coherent (Seat.new "seat0")
        [loginStep Config.empty (some "bob") 5000000, switchStep] := by
  refine ⟨rfl, (run_coherent "seat0" _ ?_).1.mpr ⟨?_, ?_, trivial⟩⟩
  · simp [loginStep, switchStep]
  · rintro ⟨-, -, x, e, g, he, -⟩
    cases he
  · rintro ⟨-, -, x, e, g, he, -⟩
    cases he

/-- The run of the defect: sessiond reports a creation failure after the switch
request. The session is closed, and the credentials of `alice` stay behind. -/
theorem run_coherent_orphaned :
    let sts := [loginStep Config.empty (some "bob") 5000000, switchStep,
      ⟨Config.empty, {}, .session 0 (.error TlmError.sessionCreationFailure.code)⟩]
    ((Seat.new "seat0").run sts).session = none ∧
      ((Seat.new "seat0").run sts).nextUser = some "alice" ∧
      ¬ Always step Coherent (Seat.new "seat0") sts := by
  intro sts
  have hs : ((Seat.new "seat0").run sts).session = none := by decide
  have hn : ((Seat.new "seat0").run sts).nextUser = some "alice" := by decide
  refine ⟨hs, hn, fun h => ?_⟩
  have hlast : ((Seat.new "seat0").run sts).Coherent := h.last
  obtain ⟨x, hx, -⟩ := hlast (by decide) (Or.inr (Or.inl (by rw [hn]; rfl)))
  rw [hs] at hx
  cases hx

end Seat

end Tlm
