import Tlm.SeatStop

/-!
# What a seat does, act by act

Every statement about the trace of a seat asks of each dispatch which acts it adds, and what
has become of the session, the observers and the default user when it adds them. `Does` says so
once: a dispatch is a sequence of a few kinds of changes, each with the act that goes with it
and with what is known of the seat at that moment. In front of them a handle may hear something,
and behind them a handle may go, or the seat itself (`step_ends`). Whoever watches the acts then
looks at each kind of change, and at no operation.

`C` is what is known of the observer of a seat that is about to start a session; it holds of
none, since a relogin has dropped the observer first. The `emitter` is the handle whose emission
is being handled, if there is one: it outlives the session.
-/

namespace Tlm

/-- Acts that say something and change nothing. -/
def Act.isSaid : Act → Bool
  | .sessionCreated => true
  | .sessionTerminated => true
  | .sessionError _ => true
  | .createSession _ (.started _ _) => false
  | .createSession _ .noObserver => false
  | .createSession _ _ => true
  | .relogin _ => true
  | .killGroup => true
  | _ => false

/-- Whether there is a session in front of an act, where the act tells. -/
def Act.needs : Act → Option Bool
  | .prepareUserLogin _ => some false
  | .sessionCreated => some true
  | .sessionTerminated => some false
  | .observerNew _ _ => some false
  | .sessionRemoteCreate _ _ _ _ => some false
  | .createSession _ .alreadyExists => some true
  | .createSession _ .deferred => some false
  | .createSession _ .noRemote => some false
  | .createSession _ .noObserver => some false
  | .createSession _ (.started _ _) => some true
  | .closed _ => some true
  | .relogin _ => some false
  | .killGroup => some false
  | _ => none

/-- A seat event that may lead to a call of `tlm_seat_create_session`, other than the end of
a session. -/
def SeatEvent.asks : SeatEvent → Bool
  | .createSession _ => true
  | .switchUser _ => true
  | .delayedSession _ => true
  | _ => false

namespace SessionRemote

/-- What a seat does with a handle that it keeps or has kept: nothing, or it is the `current` one
and is asked to terminate. -/
inductive Goes (current : Prop) (m : SessionRemote) : SessionRemote → Prop
  | same : Goes current m m
  | terminate (h : current) : Goes current m m.terminate.1

variable {m m' : SessionRemote} {current : Prop}

theorem Goes.username (h : Goes current m m') : m'.username = m.username := by
  cases h with
  | same => rfl
  | terminate _ => exact (sameIdentity_terminate m).1

theorem Goes.dangled (h : Goes current m m') : m'.dangled = m.dangled := by
  cases h with
  | same => rfl
  | terminate _ => exact terminate_dangled m

end SessionRemote

namespace Seat

/-- Nothing was done, and session, observers and default user are the same. -/
structure Same (s s' : Seat) : Prop where
  trace : s'.trace = s.trace := by rfl
  session : s'.session = s.session := by rfl
  next : s'.sessions.next = s.sessions.next := by rfl
  handles : ∀ x, (s.sessions.get x).Goes (s.session = some x) (s'.sessions.get x) := by
    exact fun _ => .same
  dbusObserver : s'.dbusObserver = s.dbusObserver := by rfl
  prevDbusObserver : s'.prevDbusObserver = s.prevDbusObserver := by rfl
  observers : s'.observers = s.observers := by rfl
  defaultUser : s'.defaultUser = s.defaultUser := by rfl
  defaultActive : s'.defaultActive = s.defaultActive := by rfl

/-- What a dispatch of seat `id` does, at configuration `cfg` and with the answers `sys`. -/
inductive Does (C : Option ObserverRef → Prop) (cfg : Config) (sys : Sys) (id : String)
    (emitter : Option SessionRef) : Seat → Seat → Prop where
  | trans {s s' s'' : Seat} : Does C cfg sys id emitter s s' → Does C cfg sys id emitter s' s'' →
      Does C cfg sys id emitter s s''
  | same {s s' : Seat} (h : Same s s') : Does C cfg sys id emitter s s'
  /-- it says something -/
  | say (s : Seat) (a : Act) (ha : a.isSaid = true)
      (hs : ∀ b, a.needs = some b → s.session.isSome = b) : Does C cfg sys id emitter s (s.emit a)
  /-- the default user comes into use -/
  | login (s : Seat) (u : String) (hs : s.session = none)
      (hu : s.defaultUser = some u ∨ s.defaultUser = none ∧
        ∃ t, nameTemplate cfg id = some t ∧ u = buildUserName t id) :
      Does C cfg sys id emitter s { s with
        defaultUser := some u, defaultActive := true, trace := s.trace ++ [.prepareUserLogin u] }
  /-- the default user goes out of use -/
  | logout (s : Seat) (h : s.defaultActive = true) :
      Does C cfg sys id emitter s { s with
        defaultActive := false, trace := s.trace ++ [.prepareUserLogout s.defaultUser] }
  /-- a session starts -/
  | start (s : Seat) (args : LoginArgs) (service u : String) (uid : ℕ) (hs : s.session = none)
      (ho : C s.dbusObserver) (hu : sys.getUid u = some uid) :
      Does C cfg sys id emitter s { s with
        session := some s.sessions.next
        prevDbusObserver := s.dbusObserver
        dbusObserver := some s.observers.next
        sessions := s.sessions.alloc (freshRemote id service (some u))
        observers := s.observers.alloc (sessionObserver id uid)
        trace := s.trace ++
          [.observerNew s.observers.next (sessionObserver id uid),
           .sessionRemoteCreate s.sessions.next (some u) args.password args.environment,
           .createSession args (.started s.sessions.next s.observers.next)] }
  /-- a process is started in vain, for want of a proxy -/
  | spoil (s : Seat) (hs : s.session = none) : Does C cfg sys id emitter s { s with
        sessions := s.sessions.alloc SessionRemote.spawned.dispose }
  /-- a session does not start, for want of an observer -/
  | fail (s : Seat) (args : LoginArgs) (service : String) (user : Option String)
      (hs : s.session = none) (ho : C s.dbusObserver) :
      Does C cfg sys id emitter s { s with
        session := none
        prevDbusObserver := s.dbusObserver
        dbusObserver := none
        sessions := s.sessions.alloc (SessionRemote.spawned.connect id service user).dispose
        trace := s.trace ++
          [.sessionError TlmError.dbusServerStartFailure.code, .createSession args .noObserver] }
  /-- the session is closed, on an emission of its own handle, which nobody listens to then -/
  | close (s : Seat) (x : SessionRef) (hs : s.session = some x) (hx : emitter = some x) :
      Does C cfg sys id emitter s { s with
        session := none
        sessions := s.sessions.set x { s.sessions.get x with handlers := [] }
        trace := s.trace ++ [.closed x] }
  /-- the observer is dropped -/
  | drop (s : Seat) (o : ObserverRef) (ho : s.dbusObserver = some o) :
      Does C cfg sys id emitter s { s with
        dbusObserver := none, trace := s.trace ++ [.observerDispose o] }
  /-- the previous observer is dropped -/
  | dropPrev (s : Seat) (o : ObserverRef) (ho : s.prevDbusObserver = some o) :
      Does C cfg sys id emitter s { s with
        prevDbusObserver := none, trace := s.trace ++ [.observerDispose o] }

/-- The handles of a seat that is gone, and its session with it. -/
def lastSessions (s : Seat) : Store SessionRemote :=
  match s.session with
  | none => s.sessions
  | some x => s.sessions.set x (closedRemote (s.sessions.get x))

/-- What a dispatch of seat `id` comes to. -/
inductive Ends (C : Option ObserverRef → Prop) (id : String) (st : SeatStep) (s : Seat) :
    Seat → Prop where
  /-- the seat has done this -/
  | stays {t : Seat} (h : Does C st.cfg st.sys id none s t) : Ends C id st s t
  /-- it has, and is gone -/
  | gone {t : Seat} (h : Does C st.cfg st.sys id none s t) :
      Ends C id st s { t with session := none, sessions := t.lastSessions, refs := 0 }
  /-- a handle that is not that of the session has heard something -/
  | stale (x : SessionRef) (e : SessionEvent) (hst : st.event = .session x e)
      (hx : s.session ≠ some x) :
      Ends C id st s (s.setSession x ((s.sessions.get x).handle e).1)
  /-- the handle of the session has, and what it had to emit is over -/
  | emission (x : SessionRef) (e : SessionEvent) {t : Seat} (hst : st.event = .session x e)
      (hx : s.session = some x)
      (h : Does C st.cfg st.sys id (some x) (s.setSession x ((s.sessions.get x).handle e).1) t) :
      Ends C id st s (t.released x)

variable {C : Option ObserverRef → Prop} {Looked : String → ℕ → Prop} {cfg : Config} {sys : Sys}
  {id : String} {emitter : Option SessionRef} {args : LoginArgs} {st : SeatStep} {s s' : Seat}

/-! ## Small changes -/

theorem Does.refl (s : Seat) : Does C cfg sys id emitter s s := .same {}

/-- A handle may go on. -/
theorem does_setSession (s : Seat) {x : SessionRef} {m : SessionRemote}
    (hm : (s.sessions.get x).Goes (s.session = some x) m) :
    Does C cfg sys id emitter s (s.setSession x m) := by
  refine .same { handles := fun y => ?_ }
  change (s.sessions.get y).Goes _ ((s.sessions.set x m).get y)
  rw [Store.get_set]
  split
  · rename_i hy
    rw [hy]
    exact hm
  · exact .same

theorem does_error (s : Seat) (code : ℤ) : Does C cfg sys id emitter s (s.emit (.sessionError code)) :=
  .say s _ rfl fun b hb => by cases hb

/-! ## Creating, switching and terminating -/

theorem selectUser_does (hid : s.id = id) (hs : s.session = none) :
    Does C cfg sys id emitter s (s.selectUser cfg args) := by
  subst hid
  simp only [selectUser]
  split
  · exact .refl s
  · simp only [activateDefaultUser]
    rcases hd : s.defaultUser with _ | u
    · rcases ht : nameTemplate cfg s.id with _ | t
      · exact .same { defaultUser := hd.symm }
      · exact .login s (buildUserName t s.id) hs (.inr ⟨hd, t, ht, rfl⟩)
    · have hlogin : Does C cfg sys s.id emitter s { s with
          defaultUser := some u, defaultActive := true,
          trace := s.trace ++ [.prepareUserLogin u] } := .login s u hs (.inl hd)
      simp only [hd]
      exact hlogin

theorem startSession_does (hid : s.id = id) (hs : s.session = none) (ho : C s.dbusObserver) :
    Does C cfg sys id emitter s (s.startSession cfg sys args).1 := by
  obtain ⟨du, da, acts, -, hsel⟩ := selectUser_frame cfg args s
  have hselect : Does C cfg sys id emitter s (s.selectUser cfg args) := selectUser_does hid hs
  have hid' : (s.selectUser cfg args).id = id := by rw [hsel]; exact hid
  have hs' : (s.selectUser cfg args).session = none := by rw [hsel]; exact hs
  have ho' : C (s.selectUser cfg args).dbusObserver := by rw [hsel]; exact ho
  refine hselect.trans ?_
  rcases startSession_cases cfg sys args s with ⟨-, ss, hss, heq⟩ | ⟨-, heq⟩ | ⟨-, uid, huid, heq⟩
  · rw [heq]
    generalize s.selectUser cfg args = t at hs' hss ⊢
    have hstore : Does C cfg sys id emitter t { t with sessions := ss } := by
      rcases hss with rfl | rfl
      · exact .refl t
      · exact .spoil t hs'
    have herror := hstore.trans (does_error _ TlmError.sessionCreationFailure.code)
    have hlast := herror.trans (.say _ (.createSession args .noRemote) rfl fun b hb => ?_)
    · simpa only [emit, List.append_assoc, List.singleton_append] using hlast
    · obtain rfl := Option.some.inj hb
      exact congrArg Option.isSome hs'
  · rw [heq]
    have hfail : Does C cfg sys (s.selectUser cfg args).id emitter _ _ :=
      .fail (s.selectUser cfg args) args (pamService cfg s.id args)
        ((s.selectUser cfg args).sessionUser args.username) hs' ho'
    rw [hid'] at hfail
    rw [hid']
    exact hfail
  · obtain ⟨u, hu, hget⟩ := Option.bind_eq_some_iff.mp huid
    have hstart : Does C cfg sys (s.selectUser cfg args).id emitter _ _ :=
      .start (s.selectUser cfg args) args (pamService cfg s.id args) u uid hs' ho' hget
    rw [hid'] at hstart
    rw [heq, hu, hid']
    exact hstart

theorem createSession_does (hid : s.id = id)
    (ho : s.session = none → C s.dbusObserver) :
    Does C cfg sys id emitter s (s.createSession cfg sys args).1 := by
  rcases createSession_cases cfg sys args s with ⟨hs, heq⟩ | ⟨hs, -, c, heq⟩ | ⟨hs, -, c, heq⟩
  · have herror : Does C cfg sys id emitter s (s.emit (.sessionError TlmError.sessionAlreadyExists.code)) :=
      does_error s _
    have hlast := herror.trans (.say _ (.createSession args .alreadyExists) rfl fun b hb => ?_)
    · rw [heq]
      simpa only [emit, List.append_assoc, List.singleton_append] using hlast
    · obtain rfl := Option.some.inj hb
      exact hs
  · have hput : Does C cfg sys id emitter s { s with
        prevTime := sys.now, prevCount := c, closures := s.closures ++ [args],
        refs := s.refs + 1 } :=
      .same {}
    have hlast := hput.trans (.say _ (.createSession args .deferred) rfl fun b hb => ?_)
    · rw [heq]
      exact hlast
    · obtain rfl := Option.some.inj hb
      exact congrArg Option.isSome hs
  · have hthrottle : Does C cfg sys id emitter s { s with prevTime := sys.now, prevCount := c } :=
      .same {}
    rw [heq]
    exact hthrottle.trans (startSession_does hid hs (ho hs))

theorem terminateSession_does (s : Seat) : Does C cfg sys id emitter s s.terminateSession.1 := by
  have hfirst : Does C cfg sys id emitter s
      (if s.defaultActive then
        { s with defaultActive := false }.emit (.prepareUserLogout s.defaultUser) else s) := by
    split
    · rename_i hactive
      exact .logout s hactive
    · exact .refl s
  simp only [terminateSession]
  generalize (if s.defaultActive then
    { s with defaultActive := false }.emit (.prepareUserLogout s.defaultUser) else s) = t
    at hfirst ⊢
  refine hfirst.trans ?_
  rcases ht : t.session with _ | x
  · exact does_error t _
  · have hm : (t.sessions.get x).Goes (t.session = some x) (t.sessions.get x).terminate.1 :=
      .terminate ht
    rcases heq : (t.sessions.get x).terminate with ⟨m, ok⟩
    rw [heq] at hm
    simp only [heq]
    cases ok with
    | true => exact does_setSession t hm
    | false => exact does_error t _

theorem switchUser_does (hid : s.id = id)
    (ho : s.session = none → C s.dbusObserver) :
    Does C cfg sys id emitter s (s.switchUser cfg sys args).1 := by
  rcases switchUser_cases cfg sys args s with ⟨-, heq⟩ | ⟨-, -, heq⟩ | ⟨-, -, heq⟩
  · rw [heq]
    exact .refl s
  · rw [heq]
    exact createSession_does hid ho
  · have hnext : Does C cfg sys id emitter s (s.withNext args) :=
      .same {}
    rw [heq]
    exact hnext.trans (terminateSession_does _)

/-! ## Closing and disposal -/

theorem clearDbusObserver_does (s : Seat) : Does C cfg sys id emitter s s.clearDbusObserver := by
  rcases ho : s.dbusObserver with _ | o
  · simp only [clearDbusObserver, ho]
    exact .refl s
  · simp only [clearDbusObserver, ho]
    exact .drop s o ho

theorem clearPrevDbusObserver_does (s : Seat) : Does C cfg sys id emitter s s.clearPrevDbusObserver := by
  rcases ho : s.prevDbusObserver with _ | o
  · simp only [clearPrevDbusObserver, ho]
    exact .refl s
  · simp only [clearPrevDbusObserver, ho]
    exact .dropPrev s o ho

theorem closeActiveSession_does {x : SessionRef} (hs : s.session = some x) :
    Does C cfg sys id (some x) s (s.closeActiveSession x) := by
  rw [closeActiveSession_some hs]
  exact .close s x hs rfl

theorem Ends.trans {t : Seat} (h : Does C st.cfg st.sys id none s t)
    (hst : ∀ x e, st.event ≠ .session x e) (h' : Ends C id st t s') : Ends C id st s s' := by
  cases h' with
  | stays h' => exact .stays (h.trans h')
  | gone h' => exact .gone (h.trans h')
  | stale x e hx _ => exact absurd hx (hst x e)
  | emission x e hx _ _ => exact absurd hx (hst x e)

theorem unref_ends (s : Seat) : Ends C id st s s.unref := by
  have hsession : ∀ t : Seat, { t.disconnectSessionSignals.clearSession none with refs := 0 } =
      { t with session := none, sessions := t.lastSessions, refs := 0 } := by
    intro t
    rcases ht : t.session with _ | x
    · simp only [disconnectSessionSignals, clearSession, lastSessions, ht]
    · rw [disconnect_clearSession ht]
      simp only [lastSessions, ht]
  simp only [unref]
  split
  · have hdrops : Does C st.cfg st.sys id none s s.clearDbusObserver.clearPrevDbusObserver :=
      (clearDbusObserver_does s).trans (clearPrevDbusObserver_does _)
    have hgone : Ends C id st s _ := .gone hdrops
    rw [← hsession] at hgone
    exact hgone
  · exact .stays (.same {})

theorem delayedSession_ends (hid : s.id = id) (ho : s.session = none → C s.dbusObserver)
    {k : ℕ} (hst : st.event = .delayedSession k) :
    Ends C id st s (s.delayedSession st.cfg st.sys k) := by
  simp only [delayedSession]
  split
  · exact .stays (Does.refl s)
  · rename_i args _
    have htaken : Does C st.cfg st.sys id none s { s with closures := s.closures.eraseIdx k } :=
      .same {}
    have hcreate : Does C st.cfg st.sys id none { s with closures := s.closures.eraseIdx k }
        ({ s with closures := s.closures.eraseIdx k }.createSession st.cfg st.sys args).1 :=
      createSession_does hid ho
    exact (unref_ends _).trans (htaken.trans hcreate) (by simp [hst])

/-! ## The handlers of a session -/

theorem handleSessionTerminated_does (hid : s.id = id) (hC : C none)
    {x : SessionRef} (hx : s.session = some x) :
    Does C cfg sys id (some x) s (s.handleSessionTerminated cfg sys x) := by
  have hnone : (s.closeActiveSession x).session = none := by rw [closeActiveSession_some hx]
  have hclosed : Does C cfg sys id (some x) s ((s.closeActiveSession x).emit .sessionTerminated) := by
    refine (closeActiveSession_does hx).trans (.say _ _ rfl fun b hb => ?_)
    obtain rfl := Option.some.inj hb
    exact congrArg Option.isSome hnone
  have hend : ∃ ss acts, ((s.closeActiveSession x).emit .sessionTerminated).clearDbusObserver =
      { s with session := none, dbusObserver := none, sessions := ss, trace := acts } := by
    obtain ⟨acts, heq⟩ := clearDbusObserver_eq ((s.closeActiveSession x).emit .sessionTerminated)
    rw [heq, closeActiveSession_some hx]
    exact ⟨_, _, rfl⟩
  obtain ⟨ss, acts, heq⟩ := hend
  have hcleared : Does C cfg sys id (some x) s
      ((s.closeActiveSession x).emit .sessionTerminated).clearDbusObserver :=
    hclosed.trans (clearDbusObserver_does _)
  simp only [handleSessionTerminated, terminated]
  split
  · exact hclosed.trans (.same {})
  · refine hcleared.trans ?_
    rw [heq]
    generalize ht : ({ s with
      session := none, dbusObserver := none, sessions := ss, trace := acts } : Seat) = t
    have hsession : t.session = none := by rw [← ht]
    have hsay : ∀ a : Act, a.isSaid = true → a.needs = some false →
        Does C cfg sys id (some x) t (t.emit a) := by
      intro a ha hn
      refine .say t a ha fun b hb => ?_
      rw [hn] at hb
      obtain rfl := Option.some.inj hb
      exact congrArg Option.isSome hsession
    split
    · exact hsay _ rfl rfl
    · split
      · have hcreate : Does C cfg sys id (some x) (t.emit (.relogin x))
            ((t.emit (.relogin x)).createSession cfg sys t.next).1 := by
          rw [← ht]
          exact createSession_does hid fun _ => hC
        exact ((hsay _ rfl rfl).trans hcreate).trans
          (.same {})
      · exact .refl t

theorem runHandler_does (hid : s.id = id) (hC : C none) {x : SessionRef}
    (hx : s.session = some x) (g : SessionSignal) :
    Does C cfg sys id (some x) s (s.runHandler cfg sys x g) := by
  cases g with
  | created =>
    refine Does.trans (.say s .sessionCreated rfl fun b hb => ?_) (clearPrevDbusObserver_does _)
    obtain rfl := Option.some.inj hb
    rw [hx]
    rfl
  | terminated => exact handleSessionTerminated_does hid hC hx
  | error code =>
    simp only [runHandler, handleError]
    split
    · have hx' : (s.emit (.sessionError code)).session = some x := hx
      exact ((does_error s code).trans (closeActiveSession_does hx')).trans
        (clearDbusObserver_does _)
    · exact does_error s code

theorem sessionEvent_ends (h : s.Linked Looked) (hid : s.id = id) (hC : C none)
    {x : SessionRef} {e : SessionEvent} (hst : st.event = .session x e) :
    Ends C id st s (s.sessionEvent st.cfg st.sys x e) := by
  by_cases hx : s.session = some x
  · have hx' : (s.setSession x ((s.sessions.get x).handle e).1).session = some x := hx
    rcases sessionEvent_current h hx st.cfg st.sys e with ⟨-, heq⟩ | ⟨g, -, heq⟩
    · have hquiet : (s.setSession x ((s.sessions.get x).handle e).1).released x =
          s.setSession x ((s.sessions.get x).handle e).1 := if_pos hx'
      rw [heq, ← hquiet]
      exact .emission x e hst hx (Does.refl _)
    · rw [heq]
      exact .emission x e hst hx
        (runHandler_does (s := s.setSession x ((s.sessions.get x).handle e).1) hid hC hx' g)
  · rw [sessionEvent_stale h hx]
    exact .stale x e hst hx

/-- **Every dispatch** is a sequence of such changes. -/
theorem step_ends (h : s.Linked Looked) {st : SeatStep} (hC : C none)
    (ho : st.event.asks = true → s.session = none → C s.dbusObserver) :
    Ends C s.id st s (s.step st) := by
  simp only [step]
  split
  · exact .stays (Does.refl s)
  · have hsame : ∀ {t : Seat}, Same s t → Ends C s.id st s t := fun h => .stays (.same h)
    simp only [dispatch]
    cases hev : st.event with
    | createSession args => exact .stays (createSession_does rfl (ho (by rw [hev]; rfl)))
    | switchUser args => exact .stays (switchUser_does rfl (ho (by rw [hev]; rfl)))
    | terminateSession => exact .stays (terminateSession_does s)
    | delayedSession k => exact delayedSession_ends rfl (ho (by rw [hev]; rfl)) hev
    | session x e => exact sessionEvent_ends h rfl hC hev
    | connectStop => exact hsame {}
    | ref => exact hsame {}
    | unref => exact unref_ends s

end Seat

end Tlm
