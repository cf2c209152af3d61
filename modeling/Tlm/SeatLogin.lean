import Tlm.SeatHistory

/-!
# Who is logged in

A dispatch calls `tlm_seat_create_session` at most once, and only a call on a
seat without a session can start anything. `Seat.attempt` names that call: the
direct one, the one a switch request makes on an empty seat, the retry of a
delay closure, or the relogin after a session has ended. Around it a dispatch
starts no session (`step_noStart`, `step_attempt`).

Whom the attempt logs in is decided by `default_active`, which survives every
end of a session except an explicit termination. `run_identity` states exactly
what that costs: every session of a run is for the user it was asked for **iff**
no attempt for a named user finds the flag still set from an earlier default
login of somebody else.
-/

namespace Tlm

namespace Seat

variable {Looked : String → ℕ → Prop} {cfg : Config} {sys : Sys} {args : LoginArgs} {s s' : Seat}

/-! ## The login a dispatch attempts -/

/-- Whether the seat logs in again when its session has ended. -/
def relogs (cfg : Config) (s : Seat) : Bool :=
  s.stopHandlers == 0 && !cfg.x11Session && (cfg.autoLogin || s.nextUser.isSome)

/-- The arguments of the call of `tlm_seat_create_session` that a dispatch makes
while the seat has no session. -/
def attempt (s : Seat) (st : SeatStep) : Option LoginArgs :=
  if s.refs = 0 then none
  else match st.event with
    | .createSession args => if s.session.isNone then some args else none
    | .switchUser args =>
      if s.session.isNone && authenticateUser st.cfg st.sys args.username args.password then
        some args
      else none
    | .delayedSession k => if s.session.isNone then s.closures[k]? else none
    | .session x e =>
      if s.session = some x ∧ ((s.sessions.get x).handle e).2 = [.terminated] ∧
          s.relogs st.cfg = true then
        some s.next
      else none
    | _ => none

/-- The user a call with `args` starts a session for. -/
def loginUser (cfg : Config) (args : LoginArgs) (s : Seat) : Option String :=
  (s.selectUser cfg args).sessionUser args.username

/-- Whether a call with `args` on a seat without a session starts one. -/
def Starts (cfg : Config) (sys : Sys) (args : LoginArgs) (s : Seat) : Prop :=
  (s.throttle sys).2 = false ∧ CanStart sys (s.loginUser cfg args)

/-- The user depends on the default user and its flag alone. -/
theorem loginUser_congr (h₁ : s'.defaultUser = s.defaultUser)
    (h₂ : s'.defaultActive = s.defaultActive) (h₃ : s'.id = s.id) :
    s'.loginUser cfg args = s.loginUser cfg args := by
  simp only [loginUser, selectUser]
  split
  · simp only [sessionUser, h₁, h₂]
  · simp only [activateDefaultUser]
    rw [h₁, h₃]
    rcases hd : s.defaultUser with _ | d
    · rcases hn : (nameTemplate cfg s.id).map (buildUserName · s.id) with _ | u
      · simp only [sessionUser, h₂]
      · simp only [sessionUser, emit]
    · simp only [sessionUser, emit, h₁, hd]

/-- Whether a call is put off depends on the throttle's own fields alone. -/
theorem throttle_congr (h₁ : s'.prevTime = s.prevTime) (h₂ : s'.prevCount = s.prevCount) :
    (s'.throttle sys).2 = (s.throttle sys).2 := by
  simp only [throttle]
  rw [h₁, h₂]
  split <;> rfl

/-- Without a session, a call that starts none leaves no start behind. -/
theorem createSession_noStart (hs : s.session = none) (h : ¬ s.Starts cfg sys args) :
    Grows (fun a => a.isStart = false) s (s.createSession cfg sys args).1 := by
  rcases createSession_cases cfg sys args s with ⟨hsome, -⟩ | ⟨-, -, c, heq⟩ | ⟨-, hth, c, heq⟩
  · rw [hs] at hsome
    cases hsome
  · rw [heq]
    exact Grows.of_eq _ rfl (by simp [Act.isStart]) (by simp) rfl rfl rfl (Or.inl rfl)
  · rw [heq]
    have h₁ : Grows (fun a => a.isStart = false) s
        { s with prevTime := sys.now, prevCount := c } :=
      Grows.same rfl rfl rfl rfl (Or.inl rfl)
    refine h₁.trans ((startSession_grows cfg sys args _).imp fun a ha => ha.2 ?_)
    intro hc
    have hlogin : ({ s with prevTime := sys.now, prevCount := c } : Seat).loginUser cfg args =
        s.loginUser cfg args := loginUser_congr rfl rfl rfl
    exact h ⟨hth, hlogin ▸ hc⟩

/-- A call that starts a session passes the throttle, which changes nothing that the
session is started from. -/
theorem createSession_of_starts (hs : s.session = none) (h : s.Starts cfg sys args) :
    ∃ s₀ : Seat, s₀.trace = s.trace ∧ s₀.loginUser cfg args = s.loginUser cfg args ∧
      CanStart sys (s₀.loginUser cfg args) ∧
      s.createSession cfg sys args = s₀.startSession cfg sys args := by
  obtain ⟨hth, hcan⟩ := h
  rcases createSession_cases cfg sys args s with ⟨hsome, -⟩ | ⟨-, hth', -, -⟩ | ⟨-, -, c, heq⟩
  · rw [hs] at hsome
    cases hsome
  · rw [hth] at hth'
    cases hth'
  · have hlogin : ({ s with prevTime := sys.now, prevCount := c } : Seat).loginUser cfg args =
        s.loginUser cfg args := loginUser_congr rfl rfl rfl
    refine ⟨{ s with prevTime := sys.now, prevCount := c }, rfl, hlogin, ?_, heq⟩
    rwa [hlogin]

/-- A call that starts a session: one entry in the trace says so, its handle is
for the selected user, and its observer for the uid looked up for that user. -/
theorem createSession_start (hs : s.session = none) (h : s.Starts cfg sys args) :
    let s' := (s.createSession cfg sys args).1
    ∃ u uid x o acts, s.loginUser cfg args = some u ∧ sys.getUid u = some uid ∧
      s'.trace = s.trace ++ acts ++ [.createSession args (.started x o)] ∧
      (∀ args x o, Act.createSession args (.started x o) ∉ acts) ∧ x < s'.sessions.next ∧ o < s'.observers.next ∧
      (s'.sessions.get x).username = some u ∧ (s'.observers.get o).uid = uid ∧
      (args.username = none → s'.defaultUser = some u) := by
  obtain ⟨s₀, htrace, hlogin, hcan, heq⟩ := createSession_of_starts hs h
  obtain ⟨acts, hsel, hplain⟩ := (selectUser_grows cfg args s₀).trace
  rcases startSession_cases cfg sys args s₀ with ⟨hn, -⟩ | ⟨hn, -⟩ | ⟨-, uid, huid, heq'⟩
  · exact absurd hcan hn
  · exact absurd hcan hn
  · obtain ⟨u, hu, hget⟩ := Option.bind_eq_some_iff.mp huid
    simp only [heq, heq']
    refine ⟨u, uid, _, _, acts ++ [.observerNew (s₀.selectUser cfg args).observers.next
        (sessionObserver (s₀.selectUser cfg args).id uid),
      .sessionRemoteCreate (s₀.selectUser cfg args).sessions.next
        ((s₀.selectUser cfg args).sessionUser args.username) args.password args.environment],
      hlogin.symm.trans hu, hget, ?_, ?_, Nat.lt_succ_self _, Nat.lt_succ_self _, ?_, ?_, ?_⟩
    · rw [hsel, htrace]
      simp
    · intro args' x' o' hm
      rcases List.mem_append.mp hm with hm | hm
      · have hfalse := (hplain _ hm).2
        cases hfalse
      · simp at hm
    · rw [Store.get_alloc_self]
      exact hu
    · rw [Store.get_alloc_self]
      rfl
    · intro hnone
      rw [← sessionUser_selectUser_none hnone]
      exact hu

/-! ## What happens around the attempt -/

/-- `s₁` is `s` made ready for a login: the session is gone, no other was
started, and nothing that decides about the login has changed. -/
structure Cleared (s s₁ : Seat) : Prop where
  grows : Grows (fun a => a.isStart = false) s s₁
  session : s₁.session = none
  id : s₁.id = s.id
  defaultUser : s₁.defaultUser = s.defaultUser
  defaultActive : s₁.defaultActive = s.defaultActive
  prevTime : s₁.prevTime = s.prevTime
  prevCount : s₁.prevCount = s.prevCount

/-- The login is decided as it would have been before. -/
theorem Cleared.starts_iff (h : Cleared s s') : s'.Starts cfg sys args ↔ s.Starts cfg sys args := by
  have hlogin : s'.loginUser cfg args = s.loginUser cfg args :=
    loginUser_congr h.defaultUser h.defaultActive h.id
  have hth : (s'.throttle sys).2 = (s.throttle sys).2 := throttle_congr h.prevTime h.prevCount
  simp only [Starts]
  rw [hlogin, hth]

/-- A session that ends is closed and its observer dropped. -/
def closed (s : Seat) (x : SessionRef) : Seat :=
  ((s.closeActiveSession x).emit .sessionTerminated).clearDbusObserver

theorem closed_frame (s : Seat) (x : SessionRef) :
    ∃ ss acts, s.closed x =
      { s with session := none, dbusObserver := none, sessions := ss, trace := s.trace ++ acts } := by
  obtain ⟨ss, acts, h₁⟩ := closeActiveSession_frame s x
  obtain ⟨acts', h₂⟩ := clearDbusObserver_eq ((s.closeActiveSession x).emit .sessionTerminated)
  refine ⟨ss, acts ++ [.sessionTerminated] ++ acts', ?_⟩
  rw [closed, h₂, h₁]
  simp [emit]

/-- Closing a session and saying so starts none. -/
theorem announcedEnd_grows (s : Seat) (x : SessionRef) :
    Grows (fun a => a.isStart = false) s ((s.closeActiveSession x).emit .sessionTerminated) :=
  (closeActiveSession_grows s x).trans (grows_emit rfl (by simp))

theorem closed_cleared (s : Seat) (x : SessionRef) : Cleared s (s.closed x) := by
  have hgrows : Grows (fun a => a.isStart = false) s (s.closed x) :=
    (announcedEnd_grows s x).trans ((clearDbusObserver_grows _).imp fun _ ha => ha.2)
  obtain ⟨ss, acts, heq⟩ := closed_frame s x
  rw [heq] at hgrows ⊢
  exact ⟨hgrows, rfl, rfl, rfl, rfl, rfl, rfl⟩

/-- `_handle_session_terminated`, as far as logins are concerned: relogin, none
configured, exit with the X11 session, or stop. -/
theorem handleSessionTerminated_eq (cfg : Config) (sys : Sys) (x : SessionRef) (s : Seat) :
    (s.relogs cfg = true ∧ s.handleSessionTerminated cfg sys x =
      (((s.closed x).emit (.relogin x)).createSession cfg sys s.next).1.resetNext) ∨
    (s.relogs cfg = false ∧ (
      (s.nextUser = none ∧ s.handleSessionTerminated cfg sys x = s.closed x) ∨
      (s.stopHandlers = 0 ∧ cfg.x11Session = true ∧
        s.handleSessionTerminated cfg sys x = (s.closed x).emit .killGroup) ∨
      (0 < s.stopHandlers ∧ s.handleSessionTerminated cfg sys x =
        { (s.closeActiveSession x).emit .sessionTerminated with stopFired := true }))) := by
  obtain ⟨ss, acts, heq⟩ := closed_frame s x
  obtain ⟨ss', acts', heq'⟩ := closeActiveSession_frame s x
  have hstop : ((s.closeActiveSession x).emit .sessionTerminated).stopHandlers =
      s.stopHandlers := by
    rw [heq']
    rfl
  have huser : (s.closed x).nextUser = s.nextUser := by rw [heq]
  have hnext : (s.closed x).next = s.next := by rw [heq]; rfl
  have hfold : ((s.closeActiveSession x).emit .sessionTerminated).clearDbusObserver =
      s.closed x := rfl
  simp only [handleSessionTerminated, terminated]
  simp only [hstop, hfold, huser, hnext]
  by_cases hs : 0 < s.stopHandlers
  · refine Or.inr ⟨?_, Or.inr (Or.inr ⟨hs, ?_⟩)⟩
    · have hne : (s.stopHandlers == 0) = false := by
        rw [beq_eq_false_iff_ne]
        omega
      simp [relogs, hne]
    · rw [if_pos hs]
  · have hz : s.stopHandlers = 0 := by omega
    rw [if_neg hs]
    cases hx : cfg.x11Session with
    | true =>
      refine Or.inr ⟨?_, Or.inr (Or.inl ⟨hz, rfl, ?_⟩)⟩
      · simp [relogs, hx]
      · rw [if_pos rfl]
    | false =>
      rw [if_neg Bool.false_ne_true]
      cases hl : cfg.autoLogin || s.nextUser.isSome with
      | true => exact Or.inl ⟨by simp [relogs, hz, hx, hl], if_pos rfl⟩
      | false =>
        refine Or.inr ⟨by simp [relogs, hl], Or.inl ⟨?_, if_neg Bool.false_ne_true⟩⟩
        simpa using (Bool.or_eq_false_iff.mp hl).2

theorem handleError_noStart (code : ℤ) (x : SessionRef) (s : Seat) :
    Grows (fun a => a.isStart = false) s (s.handleError code x) := by
  have hemit : Grows (fun a => a.isStart = false) s (s.emit (.sessionError code)) := grows_emit rfl (by simp)
  simp only [handleError]
  split
  · exact (hemit.trans (closeActiveSession_grows _ x)).trans
      ((clearDbusObserver_grows _).imp fun _ ha => ha.2)
  · exact hemit

theorem handleSessionTerminated_noStart (h : s.relogs cfg = false) (x : SessionRef) :
    Grows (fun a => a.isStart = false) s (s.handleSessionTerminated cfg sys x) := by
  rcases handleSessionTerminated_eq cfg sys x s with
    ⟨hr, -⟩ | ⟨-, ⟨-, heq⟩ | ⟨-, -, heq⟩ | ⟨-, heq⟩⟩
  · rw [h] at hr
    cases hr
  · rw [heq]
    exact (closed_cleared s x).grows
  · rw [heq]
    exact (closed_cleared s x).grows.trans (grows_emit rfl (by simp))
  · rw [heq]
    exact (announcedEnd_grows s x).trans (Grows.same rfl rfl rfl rfl (Or.inl rfl))

/-- A call on a seat that has a session starts none. -/
theorem createSession_noStart_of_session (hs : s.session.isSome = true) :
    Grows (fun a => a.isStart = false) s (s.createSession cfg sys args).1 := by
  rcases createSession_cases cfg sys args s with ⟨-, heq⟩ | ⟨hn, -⟩ | ⟨hn, -⟩
  · rw [heq]
    exact Grows.of_eq _ rfl (by simp [Act.isStart]) (by simp) rfl rfl rfl (Or.inl rfl)
  · rw [hn] at hs
    cases hs
  · rw [hn] at hs
    cases hs

/-- Taking a closure off the list and dropping its reference adds nothing. -/
theorem delayedSession_grows_of {k : ℕ} (hk : s.closures[k]? = some args)
    (h : Grows (fun a => a.isStart = false) { s with closures := s.closures.eraseIdx k }
      ({ s with closures := s.closures.eraseIdx k }.createSession cfg sys args).1) :
    Grows (fun a => a.isStart = false) s (s.delayedSession cfg sys k) := by
  have h₁ : Grows (fun a => a.isStart = false) s { s with closures := s.closures.eraseIdx k } :=
    Grows.same rfl rfl rfl rfl (Or.inl rfl)
  simp only [delayedSession, hk]
  exact (h₁.trans h).trans ((unref_grows _).imp fun _ ha => ha.2)

/-- A dispatch without an attempt starts no session. -/
theorem step_noStart (hl : s.Linked Looked) {st : SeatStep} (h : s.attempt st = none) :
    Grows (fun a => a.isStart = false) s (s.step st) := by
  simp only [attempt] at h
  simp only [step]
  split
  · exact Grows.refl _ s
  · rename_i hrefs
    rw [if_neg hrefs] at h
    simp only [dispatch]
    cases he : st.event with
    | createSession args =>
      rw [he] at h
      apply createSession_noStart_of_session
      by_contra hn
      simp [Option.not_isSome_iff_eq_none.mp hn] at h
    | switchUser args =>
      rw [he] at h
      rcases switchUser_cases st.cfg st.sys args s with
        ⟨-, heq⟩ | ⟨ha, hs, -⟩ | ⟨-, -, heq⟩
      · simp only [heq]
        exact Grows.refl _ s
      · simp [ha, hs] at h
      · simp only [heq]
        have h₁ : Grows (fun a => a.isStart = false) s (s.withNext args) :=
          Grows.same rfl rfl rfl rfl (Or.inl rfl)
        exact h₁.trans ((terminateSession_grows _).imp fun _ ha => ha.2)
    | terminateSession => exact (terminateSession_grows s).imp fun _ ha => ha.2
    | delayedSession k =>
      rw [he] at h
      rcases hk : s.closures[k]? with _ | args
      · simp only [delayedSession, hk]
        exact Grows.refl _ s
      · refine delayedSession_grows_of hk (createSession_noStart_of_session ?_)
        by_contra hn
        have hs : s.session = none := Option.not_isSome_iff_eq_none.mp hn
        simp [hs, hk] at h
    | session x e =>
      rw [he] at h
      have hset : Grows (fun a => a.isStart = false) s
          (s.setSession x ((s.sessions.get x).handle e).1) :=
        grows_setSession (SessionRemote.sameIdentity_handle _ e).1
      by_cases hx : s.session = some x
      · rcases sessionEvent_current hl hx st.cfg st.sys e with ⟨-, heq⟩ | ⟨g, hg, heq⟩
        · simp only [heq]
          exact hset
        · simp only [heq]
          refine Grows.trans ?_ ((released_grows x _).imp fun _ ha => ha.2)
          cases g with
          | created =>
            exact hset.trans ((handleSessionCreated_grows _).imp fun _ ha => ha.2)
          | terminated =>
            refine hset.trans (handleSessionTerminated_noStart ?_ x)
            by_contra hr
            have hr' : s.relogs st.cfg = true := (Bool.not_eq_false _).mp hr
            simp [hx, hg, hr'] at h
          | error code => exact hset.trans (handleError_noStart code x _)
      · simp only [sessionEvent_stale hl hx]
        exact hset
    | connectStop => exact Grows.same rfl rfl rfl rfl (Or.inl rfl)
    | ref => exact Grows.same rfl rfl rfl rfl (Or.inl rfl)
    | unref => exact (unref_grows s).imp fun _ ha => ha.2

/-- A dispatch with an attempt is that one call, made on the seat cleared for
it; what follows the call starts no session. -/
theorem step_attempt (hl : s.Linked Looked) {st : SeatStep} (h : s.attempt st = some args) :
    ∃ s₁, Cleared s s₁ ∧ Grows (fun a => a.isStart = false)
      (s₁.createSession st.cfg st.sys args).1 (s.step st) := by
  have hself : s.session = none → Cleared s s := fun hs =>
    ⟨Grows.refl _ s, hs, rfl, rfl, rfl, rfl, rfl⟩
  simp only [attempt] at h
  split at h
  · cases h
  · rename_i hrefs
    simp only [step]
    rw [if_neg hrefs]
    simp only [dispatch]
    cases he : st.event with
    | createSession args' =>
      simp only [he, Option.ite_none_right_eq_some, Option.isNone_iff_eq_none] at h
      obtain ⟨hs, harg⟩ := h
      obtain rfl := Option.some.inj harg
      exact ⟨s, hself hs, Grows.refl _ _⟩
    | switchUser args' =>
      simp only [he, Bool.and_eq_true, Option.isNone_iff_eq_none,
        Option.ite_none_right_eq_some] at h
      obtain ⟨⟨hs, ha⟩, harg⟩ := h
      obtain rfl := Option.some.inj harg
      refine ⟨s, hself hs, ?_⟩
      have heq : s.switchUser st.cfg st.sys args' = s.createSession st.cfg st.sys args' := by
        simp [switchUser, ha, hs]
      simp only [heq]
      exact Grows.refl _ _
    | delayedSession k =>
      simp only [he, Option.ite_none_right_eq_some, Option.isNone_iff_eq_none] at h
      obtain ⟨hs, hk⟩ := h
      refine ⟨{ s with closures := s.closures.eraseIdx k },
        ⟨Grows.same rfl rfl rfl rfl (Or.inl rfl), hs, rfl, rfl, rfl, rfl, rfl⟩, ?_⟩
      simp only [delayedSession, hk]
      exact (unref_grows _).imp fun _ ha => ha.2
    | session x e =>
      simp only [he, Option.ite_none_right_eq_some] at h
      obtain ⟨⟨hx, hg, hr⟩, hnext⟩ := h
      obtain rfl := Option.some.inj hnext
      rcases sessionEvent_current hl hx st.cfg st.sys e with ⟨hg', -⟩ | ⟨g, hg', heq⟩
      · rw [hg] at hg'
        cases hg'
      · rw [hg] at hg'
        obtain rfl := (List.cons.inj hg').1
        generalize hs' : s.setSession x ((s.sessions.get x).handle e).1 = s' at heq
        have hset : Cleared s ((s'.closed x).emit (.relogin x)) := by
          have hc := closed_cleared s' x
          have hgrows : Grows (fun a => a.isStart = false) s s' := by
            rw [← hs']
            exact grows_setSession (SessionRemote.sameIdentity_handle _ e).1
          refine ⟨(hgrows.trans hc.grows).trans (grows_emit rfl (by simp)), hc.session, ?_, ?_, ?_, ?_, ?_⟩
          · exact hc.id.trans (by rw [← hs']; rfl)
          · exact hc.defaultUser.trans (by rw [← hs']; rfl)
          · exact hc.defaultActive.trans (by rw [← hs']; rfl)
          · exact hc.prevTime.trans (by rw [← hs']; rfl)
          · exact hc.prevCount.trans (by rw [← hs']; rfl)
        refine ⟨_, hset, ?_⟩
        have hnext' : s'.next = s.next := by rw [← hs']; rfl
        have hr' : s'.relogs st.cfg = true := by rw [← hs']; exact hr
        rcases handleSessionTerminated_eq st.cfg st.sys x s' with ⟨-, heq'⟩ | ⟨hf, -⟩
        · simp only [heq, runHandler, heq', hnext']
          have hreset : Grows (fun a => a.isStart = false)
              (((s'.closed x).emit (.relogin x)).createSession st.cfg st.sys s.next).1
              (((s'.closed x).emit (.relogin x)).createSession st.cfg st.sys s.next).1.resetNext :=
            Grows.same rfl rfl rfl rfl (Or.inl rfl)
          exact hreset.trans ((released_grows x _).imp fun _ ha => ha.2)
        · rw [hr'] at hf
          cases hf
    | terminateSession => simp [he] at h
    | connectStop => simp [he] at h
    | ref => simp [he] at h
    | unref => simp [he] at h

/-! ## Session identity -/

/-- Every session that was started is for the user it was asked for — the
default user, when none was named — and so is its observer. -/
def Identity (Looked : String → ℕ → Prop) (s : Seat) : Prop :=
  ∀ args x o, Act.createSession args (.started x o) ∈ s.trace →
    ∃ u, (args.username = some u ∨ args.username = none ∧ s.defaultUser = some u) ∧
      (s.sessions.get x).username = some u ∧ Looked u (s.observers.get o).uid

/-- The dispatch starts a session for a named user while `default_active` is
still set for another one. -/
def Misdirected (s : Seat) (st : SeatStep) : Prop :=
  ∃ args u, s.attempt st = some args ∧ args.username = some u ∧ s.defaultActive = true ∧
    s.defaultUser ≠ some u ∧ s.Starts st.cfg st.sys args

/-- What the trace says was started exists. -/
def Recorded (s : Seat) : Prop :=
  ∀ args x o, Act.createSession args (.started x o) ∈ s.trace →
    x < s.sessions.next ∧ o < s.observers.next

/-- New entries of the trace that are no starts bring no new start. -/
theorem Grows.mem_start (h : Grows (fun a => a.isStart = false) s s') {args : LoginArgs}
    {x : SessionRef} {o : ObserverRef}
    (hm : Act.createSession args (.started x o) ∈ s'.trace) :
    Act.createSession args (.started x o) ∈ s.trace := by
  obtain ⟨acts, ht, hP⟩ := h.trace
  rw [ht] at hm
  rcases List.mem_append.mp hm with hm | hm
  · exact hm
  · have hfalse := hP _ hm
    cases hfalse

theorem Recorded.grows (hr : s.Recorded) (h : Grows (fun a => a.isStart = false) s s') :
    s'.Recorded := by
  intro args x o hm
  obtain ⟨hx, ho⟩ := hr args x o (h.mem_start hm)
  exact ⟨lt_of_lt_of_le hx h.sessionsNext, lt_of_lt_of_le ho h.observersNext⟩

theorem Identity.grows (hi : s.Identity Looked) (hr : s.Recorded)
    (h : Grows (fun a => a.isStart = false) s s') : s'.Identity Looked := by
  intro args x o hm
  obtain ⟨hx, ho⟩ := hr args x o (h.mem_start hm)
  obtain ⟨u, hu, hname, hlook⟩ := hi args x o (h.mem_start hm)
  refine ⟨u, ?_, ?_, ?_⟩
  · exact hu.imp_right fun hd => ⟨hd.1, h.defaultUser u hd.2⟩
  · rw [h.username x hx]
    exact hname
  · rw [h.observer o ho]
    exact hlook

/-- Conversely, nothing that follows repairs a wrong identity. -/
theorem Identity.of_grows (hi : s'.Identity Looked) (hr : s.Recorded)
    (h : Grows (fun a => a.isStart = false) s s') {x : SessionRef} {o : ObserverRef} {u : String}
    (hm : Act.createSession args (.started x o) ∈ s.trace) (hu : args.username = some u) :
    (s.sessions.get x).username = some u := by
  obtain ⟨acts, ht, -⟩ := h.trace
  have hm' : Act.createSession args (.started x o) ∈ s'.trace := by
    rw [ht]
    exact List.mem_append_left _ hm
  obtain ⟨u', hu', hname, -⟩ := hi args x o hm'
  rw [hu] at hu'
  rcases hu' with hu' | ⟨hn, -⟩
  · obtain rfl := Option.some.inj hu'
    rw [← h.username x (hr args x o hm).1]
    exact hname
  · cases hn

/-- The seat behind a call that starts a session: the earlier sessions are as
they were, and the new one is for the selected user. -/
theorem createSession_start_identity (hs : s.session = none) (hr : s.Recorded)
    (h : s.Starts cfg sys args) (hL : ∀ u n, sys.getUid u = some n → Looked u n) :
    (s.createSession cfg sys args).1.Recorded ∧
      ∃ u x o, s.loginUser cfg args = some u ∧
        Act.createSession args (.started x o) ∈ (s.createSession cfg sys args).1.trace ∧
        ((s.createSession cfg sys args).1.sessions.get x).username = some u ∧
        (s.Identity Looked → (args.username = some u ∨ args.username = none) →
          (s.createSession cfg sys args).1.Identity Looked) := by
  have hgrows := createSession_grows cfg sys args s
  obtain ⟨u, uid, x, o, acts, hu, huid, htrace, hacts, hx, ho, hname, hobs, hdef⟩ :=
    createSession_start hs h
  generalize (s.createSession cfg sys args).1 = s' at *
  -- an entry of the new trace is an old start or this one
  have hmem : ∀ args' x' o', Act.createSession args' (.started x' o') ∈ s'.trace →
      Act.createSession args' (.started x' o') ∈ s.trace ∨ args' = args ∧ x' = x ∧ o' = o := by
    intro args' x' o' hm
    rw [htrace] at hm
    simp only [List.append_assoc, List.mem_append, List.mem_singleton] at hm
    rcases hm with hm | hm | hm
    · exact Or.inl hm
    · exact absurd hm (hacts args' x' o')
    · injection hm with h₁ h₂
      injection h₂ with h₂ h₃
      exact Or.inr ⟨h₁, h₂, h₃⟩
  refine ⟨?_, u, x, o, hu, ?_, hname, ?_⟩
  · intro args' x' o' hm
    rcases hmem args' x' o' hm with hm | ⟨rfl, rfl, rfl⟩
    · obtain ⟨hx', ho'⟩ := hr args' x' o' hm
      exact ⟨lt_of_lt_of_le hx' hgrows.sessionsNext, lt_of_lt_of_le ho' hgrows.observersNext⟩
    · exact ⟨hx, ho⟩
  · rw [htrace]
    exact List.mem_append_right _ (List.mem_singleton_self _)
  · intro hi harg args' x' o' hm
    rcases hmem args' x' o' hm with hm | ⟨rfl, rfl, rfl⟩
    · obtain ⟨hx', ho'⟩ := hr args' x' o' hm
      obtain ⟨v, hv, hvname, hvlook⟩ := hi args' x' o' hm
      refine ⟨v, hv.imp_right fun hd => ⟨hd.1, hgrows.defaultUser v hd.2⟩, ?_, ?_⟩
      · rw [hgrows.username x' hx']
        exact hvname
      · rw [hgrows.observer o' ho']
        exact hvlook
    · refine ⟨u, harg.imp_right fun hn => ⟨hn, hdef hn⟩, hname, ?_⟩
      rw [hobs]
      exact hL u uid huid

/-- A dispatch keeps the records, and keeps the identity exactly when it is not
misdirected. -/
theorem step_identity (hl : s.Linked Looked) (hr : s.Recorded) {st : SeatStep}
    (hL : ∀ u n, st.sys.getUid u = some n → Looked u n) :
    (s.step st).Recorded ∧
      (s.Identity Looked → ((s.step st).Identity Looked ↔ ¬ s.Misdirected st)) := by
  rcases ha : s.attempt st with _ | args
  · have hg := step_noStart hl ha
    refine ⟨hr.grows hg, fun hi => ⟨fun _ => ?_, fun _ => hi.grows hr hg⟩⟩
    rintro ⟨args, u, ha', -⟩
    rw [ha] at ha'
    cases ha'
  · obtain ⟨s₁, hc, hg⟩ := step_attempt hl ha
    have hr₁ : s₁.Recorded := hr.grows hc.grows
    by_cases hstart : s₁.Starts st.cfg st.sys args
    · obtain ⟨hr₂, u, x, o, hu, hm, hname, hi₂⟩ :=
        createSession_start_identity hc.session hr₁ hstart hL
      refine ⟨hr₂.grows hg, fun hi => ⟨?_, ?_⟩⟩
      · -- a misdirected start is for the default user, and stays so
        rintro hi' ⟨args', v, ha', hv, hact, hne, -⟩
        rw [ha] at ha'
        obtain rfl := Option.some.inj ha'
        have hname' := hi'.of_grows hr₂ hg hm hv
        rw [hname] at hname'
        have hlogin : s₁.loginUser st.cfg args = s.defaultUser := by
          rw [loginUser, selectUser_some hv, sessionUser, hc.defaultActive, hact,
            hc.defaultUser]
          rfl
        exact hne (by rw [← hlogin, hu, hname'])
      · intro hmis
        refine (hi₂ (hi.grows hr hc.grows) ?_).grows hr₂ hg
        rcases hv : args.username with _ | v
        · exact Or.inr rfl
        · apply Or.inl
          rw [loginUser, selectUser_some hv, sessionUser, hv] at hu
          cases hact : s₁.defaultActive with
          | false =>
            rw [hact] at hu
            exact hu
          | true =>
            -- the flag is set, so it must be set for the very user that was named
            rw [hact] at hu
            have hd : s.defaultUser = some u := by
              rw [← hc.defaultUser]
              exact hu
            by_contra hne
            refine hmis ⟨args, v, ha, hv, by rw [← hc.defaultActive, hact], ?_,
              hc.starts_iff.mp hstart⟩
            rw [hd]
            exact fun he => hne he.symm
    · have hg' := (hc.grows.trans (createSession_noStart hc.session hstart)).trans hg
      refine ⟨hr.grows hg', fun hi => ⟨fun _ => ?_, fun _ => hi.grows hr hg'⟩⟩
      rintro ⟨args', u, ha', -, -, -, hst⟩
      rw [ha] at ha'
      obtain rfl := Option.some.inj ha'
      exact hstart (hc.starts_iff.mpr hst)

/-- **Session identity, exactly**: in a run every session is for the user it was
asked for, in every state, iff no dispatch of the run starts a session for a
named user while the flag of an earlier default login is still set for somebody
else. -/
theorem run_identity (id : String) (sts : List SeatStep) :
    Always step (Identity (LookedUp sts)) (Seat.new id) sts ↔
      Along step (fun s st => ¬ s.Misdirected st) (Seat.new id) sts := by
  refine always_iff_along (I := fun s => s.Wf (LookedUp sts) ∧ s.Recorded) ?_ ⟨wf_new id, ?_⟩ ?_
    fun _ hst => hst
  · rintro s st hst ⟨hw, hr⟩ hi
    have hL : ∀ u n, st.sys.getUid u = some n → LookedUp sts u n :=
      fun u n hu => ⟨st, hst, hu⟩
    obtain ⟨hr', hi'⟩ := step_identity hw.toLinked hr hL
    exact ⟨⟨step_wf hw hL, hr'⟩, hi' hi⟩
  · intro args x o hm
    cases hm
  · intro args x o hm
    cases hm

/-- The run of the defect: a default login whose session ends by itself leaves
`default_active` set, and the login of `bob` that follows starts a session for
the default user. -/
theorem run_identity_sticky :
    let cfg := Config.ofGeneral fun k => if k = "AUTO_LOGIN" then some "false" else none
    let sts := [loginStep cfg none 5000000, ⟨cfg, {}, .session 0 .childDown⟩,
      loginStep cfg (some "bob") 9000000]
    (((Seat.new "seat0").run sts).sessions.get 1).username = some "guest" ∧
      ¬ Always step (Identity (LookedUp sts)) (Seat.new "seat0") sts := by
  intro cfg sts
  have hname : (((Seat.new "seat0").run sts).sessions.get 1).username = some "guest" := by
    decide
  -- a session that was asked for by name is for `bob`
  have hbob : ∀ s : Seat, s.Identity (LookedUp sts) →
      Act.createSession { username := some "bob" } (.started 1 1) ∈ s.trace →
      (s.sessions.get 1).username ≠ some "guest" := by
    intro s hs hmem hguest
    obtain ⟨u, hu, hx, -⟩ := hs { username := some "bob" } 1 1 hmem
    rw [hguest] at hx
    obtain rfl := Option.some.inj hx
    rcases hu with hu | ⟨hu, -⟩
    · exact absurd hu (by decide)
    · cases hu
  have hmem : Act.createSession { username := some "bob" } (.started 1 1) ∈
      ((Seat.new "seat0").run sts).trace := by decide
  refine ⟨hname, fun h => ?_⟩
  have hlast : ((Seat.new "seat0").run sts).Identity (LookedUp sts) := h.last
  exact hbob _ hlast hmem hname

end Seat

end Tlm
