import Tlm.Seat

/-!
# What the seat operations do

One equation for each way an operation can go, with the seat it leaves written
out. `startSession` and `createSession` are the long functions of the source;
`startSession_cases` and `createSession_cases` say once everything they can do,
and the invariants are case analyses over these.
-/

namespace Tlm

namespace Seat

variable {cfg : Config} {sys : Sys} {args : LoginArgs} {s : Seat}

/-! ## Selecting the user -/

theorem selectUser_some {u : String} (h : args.username = some u) :
    s.selectUser cfg args = s := by
  simp [selectUser, h]

/-- Selecting the user touches the default user, its flag and the trace, where
at most the login preparation is announced. -/
theorem selectUser_frame (cfg : Config) (args : LoginArgs) (s : Seat) :
    ∃ du da acts, (∀ a ∈ acts, ∃ u, a = Act.prepareUserLogin u) ∧ s.selectUser cfg args =
      { s with defaultUser := du, defaultActive := da, trace := s.trace ++ acts } := by
  simp only [selectUser]
  split
  · exact ⟨s.defaultUser, s.defaultActive, [], by simp, by simp⟩
  · simp only [activateDefaultUser]
    cases hd : s.defaultUser with
    | some u =>
      simp only [hd]
      exact ⟨some u, true, [.prepareUserLogin u], by simp, by simp [emit]⟩
    | none =>
      simp only
      split
      · rename_i u hu
        exact ⟨_, true, [.prepareUserLogin u], by simp, rfl⟩
      · refine ⟨(nameTemplate cfg s.id).map (buildUserName · s.id), s.defaultActive, [],
          by simp, ?_⟩
        rw [List.append_nil]

/-- Without a user name the session is for the default user; there is no user
at all when no template is configured. -/
theorem sessionUser_selectUser_none (h : args.username = none) :
    (s.selectUser cfg args).sessionUser args.username = (s.selectUser cfg args).defaultUser := by
  unfold selectUser activateDefaultUser sessionUser
  rw [h]
  cases hd : s.defaultUser with
  | some u => simp [emit, hd]
  | none =>
    simp only [Option.isSome_none, Bool.false_eq_true, if_false]
    split
    · simp [emit]
    · rename_i hn
      rw [hn]
      simp

/-! ## Starting a session -/

/-- The handle of a session that was just started. -/
def freshRemote (seatId service : String) (user : Option String) : SessionRemote :=
  { SessionRemote.spawned.connect seatId service user with
    handlers := [.sessionCreated, .sessionTerminated, .sessionError], createPending := true }

/-- The child cannot be spawned: nothing but the user selection happened. -/
theorem startSession_noSpawn (h : sys.spawns = false) :
    s.startSession cfg sys args =
      let s₁ := s.selectUser cfg args
      ({ s₁ with trace := s₁.trace ++
          [.sessionError TlmError.sessionCreationFailure.code,
           .createSession args .noRemote] }, false) := by
  simp [startSession, sessionRemoteNew, h, emit]

/-- The proxy cannot be created: the handle is disposed before the seat ever
held it. -/
theorem startSession_noProxy (hs : sys.spawns = true) (hp : sys.proxies = false) :
    s.startSession cfg sys args =
      let s₁ := s.selectUser cfg args
      ({ s₁ with
          sessions := s₁.sessions.alloc SessionRemote.spawned.dispose
          trace := s₁.trace ++
            [.sessionError TlmError.sessionCreationFailure.code,
             .createSession args .noRemote] }, false) := by
  simp [startSession, sessionRemoteNew, hs, hp, emit, setSession]

/-- The observer cannot be created: the session is cleared again. -/
theorem startSession_noObserver (hs : sys.spawns = true) (hp : sys.proxies = true)
    (ho : ((s.selectUser cfg args).sessionUser args.username).bind sys.getUid = none ∨
      sys.serves = false) :
    s.startSession cfg sys args =
      let s₁ := s.selectUser cfg args
      ({ s₁ with
          session := none
          prevDbusObserver := s₁.dbusObserver
          dbusObserver := none
          sessions := s₁.sessions.alloc
            (SessionRemote.spawned.connect s₁.id (pamService cfg s.id args)
              (s₁.sessionUser args.username)).dispose
          trace := s₁.trace ++
            [.sessionError TlmError.dbusServerStartFailure.code,
             .createSession args .noObserver] }, false) := by
  have hnone : ∀ t : Seat, t.createDbusObserver sys
      ((s.selectUser cfg args).sessionUser args.username) =
        ({ t with dbusObserver :=
            if ((s.selectUser cfg args).sessionUser args.username).bind sys.getUid = none
            then t.dbusObserver else none }, none) := by
    intro t
    simp only [createDbusObserver]
    split
    · rename_i hb
      rw [hb]
      simp
    · rename_i uid hb
      rcases ho with ho | ho
      · rw [hb] at ho
        cases ho
      · simp [ho, hb]
  simp [startSession, sessionRemoteNew, hs, hp, emit, setSession, hnone, clearSession,
    disposeSession]

/-- What the observer of a session is created with. -/
def sessionObserver (seatId : String) (uid : ℕ) : ObserverArgs :=
  ⟨observerAddress seatId uid, uid, enableLogoutUser ||| enableSwitchUser⟩

/-- Everything comes up: the seat holds the new handle and its observer, both
for the selected user, and the handlers are connected. -/
theorem startSession_started {uid : ℕ} (hs : sys.spawns = true) (hp : sys.proxies = true)
    (hu : ((s.selectUser cfg args).sessionUser args.username).bind sys.getUid = some uid)
    (hv : sys.serves = true) :
    s.startSession cfg sys args =
      let s₁ := s.selectUser cfg args
      let user := s₁.sessionUser args.username
      ({ s₁ with
          session := some s₁.sessions.next
          prevDbusObserver := s₁.dbusObserver
          dbusObserver := some s₁.observers.next
          sessions := s₁.sessions.alloc (freshRemote s₁.id (pamService cfg s.id args) user)
          observers := s₁.observers.alloc (sessionObserver s₁.id uid)
          trace := s₁.trace ++
            [.observerNew s₁.observers.next (sessionObserver s₁.id uid),
             .sessionRemoteCreate s₁.sessions.next user args.password args.environment,
             .createSession args (.started s₁.sessions.next s₁.observers.next)] }, true) := by
  simp [startSession, sessionRemoteNew, hs, hp, emit, setSession, createDbusObserver, hu, hv,
    connectSessionSignals, sessionRemoteCreate, freshRemote, sessionObserver,
    SessionRemote.connect, SessionRemote.spawned]

/-- What has to come up for a session of `user` to start. -/
def CanStart (sys : Sys) (user : Option String) : Prop :=
  sys.spawns = true ∧ sys.proxies = true ∧ (∃ uid, user.bind sys.getUid = some uid) ∧
    sys.serves = true

/-- Everything `startSession` can do. -/
theorem startSession_cases (cfg : Config) (sys : Sys) (args : LoginArgs) (s : Seat) :
    let s₁ := s.selectUser cfg args
    let user := s₁.sessionUser args.username
    (¬ CanStart sys user ∧ ∃ ss, (ss = s₁.sessions ∨
        ss = s₁.sessions.alloc SessionRemote.spawned.dispose) ∧
      s.startSession cfg sys args =
        ({ s₁ with sessions := ss, trace := s₁.trace ++
            [.sessionError TlmError.sessionCreationFailure.code,
             .createSession args .noRemote] }, false)) ∨
    (¬ CanStart sys user ∧ s.startSession cfg sys args =
        ({ s₁ with
            session := none
            prevDbusObserver := s₁.dbusObserver
            dbusObserver := none
            sessions := s₁.sessions.alloc
              (SessionRemote.spawned.connect s₁.id (pamService cfg s.id args) user).dispose
            trace := s₁.trace ++
              [.sessionError TlmError.dbusServerStartFailure.code,
               .createSession args .noObserver] }, false)) ∨
    (CanStart sys user ∧ ∃ uid, user.bind sys.getUid = some uid ∧ s.startSession cfg sys args =
        ({ s₁ with
            session := some s₁.sessions.next
            prevDbusObserver := s₁.dbusObserver
            dbusObserver := some s₁.observers.next
            sessions := s₁.sessions.alloc (freshRemote s₁.id (pamService cfg s.id args) user)
            observers := s₁.observers.alloc (sessionObserver s₁.id uid)
            trace := s₁.trace ++
              [.observerNew s₁.observers.next (sessionObserver s₁.id uid),
               .sessionRemoteCreate s₁.sessions.next user args.password args.environment,
               .createSession args (.started s₁.sessions.next s₁.observers.next)] }, true)) := by
  intro s₁ user
  cases hs : sys.spawns with
  | false =>
    refine Or.inl ⟨?_, _, Or.inl rfl, startSession_noSpawn hs⟩
    rintro ⟨h, -⟩
    rw [hs] at h
    cases h
  | true =>
    cases hp : sys.proxies with
    | false =>
      refine Or.inl ⟨?_, _, Or.inr rfl, startSession_noProxy hs hp⟩
      rintro ⟨-, h, -⟩
      rw [hp] at h
      cases h
    | true =>
      rcases hu : user.bind sys.getUid with _ | uid
      · refine Or.inr (Or.inl ⟨?_, startSession_noObserver hs hp (Or.inl hu)⟩)
        rintro ⟨-, -, ⟨uid, h⟩, -⟩
        rw [hu] at h
        cases h
      · cases hv : sys.serves with
        | false =>
          refine Or.inr (Or.inl ⟨?_, startSession_noObserver hs hp (Or.inr hv)⟩)
          rintro ⟨-, -, -, h⟩
          rw [hv] at h
          cases h
        | true =>
          exact Or.inr (Or.inr ⟨⟨hs, hp, ⟨uid, hu⟩, hv⟩, uid, rfl,
            startSession_started hs hp hu hv⟩)

/-! ## Creating a session -/

/-- The throttle only rewrites its own two fields. -/
theorem throttle_frame (sys : Sys) (s : Seat) :
    ∃ c, (s.throttle sys).1 = { s with prevTime := sys.now, prevCount := c } := by
  simp only [throttle]
  split
  · exact ⟨_, rfl⟩
  · exact ⟨_, rfl⟩

/-- Everything `createSession` can do: refuse, put off, or start. -/
theorem createSession_cases (cfg : Config) (sys : Sys) (args : LoginArgs) (s : Seat) :
    (s.session.isSome = true ∧ s.createSession cfg sys args =
      ({ s with trace := s.trace ++
          [.sessionError TlmError.sessionAlreadyExists.code,
           .createSession args .alreadyExists] }, false)) ∨
    (s.session = none ∧ (s.throttle sys).2 = true ∧ ∃ c, s.createSession cfg sys args =
      ({ s with
          prevTime := sys.now, prevCount := c
          closures := s.closures ++ [args], refs := s.refs + 1
          trace := s.trace ++ [.createSession args .deferred] }, true)) ∨
    (s.session = none ∧ (s.throttle sys).2 = false ∧ ∃ c, s.createSession cfg sys args =
      { s with prevTime := sys.now, prevCount := c }.startSession cfg sys args) := by
  rcases hs : s.session with _ | x
  · obtain ⟨c, hc⟩ := throttle_frame sys s
    have hpair : s.throttle sys = ((s.throttle sys).1, (s.throttle sys).2) := rfl
    cases hb : (s.throttle sys).2 with
    | true =>
      refine Or.inr (Or.inl ⟨rfl, rfl, c, ?_⟩)
      simp only [createSession]
      rw [hs, hpair, hb, hc]
      simp [emit, hs]
    | false =>
      refine Or.inr (Or.inr ⟨rfl, rfl, c, ?_⟩)
      simp only [createSession]
      rw [hs, hpair, hb, hc]
      simp [hs]
  · refine Or.inl ⟨rfl, ?_⟩
    simp [createSession, hs, emit]

/-! ## Terminating and switching -/

/-- Everything `terminateSession` can do. Either way the default user is no
longer active. -/
theorem terminateSession_cases (s : Seat) :
    ∃ acts, (acts = [] ∨ acts = [Act.prepareUserLogout s.defaultUser]) ∧
      ((∃ x, s.session = some x ∧ (s.sessions.get x).isSessiondUp = true ∧
          s.terminateSession =
            ({ s with
                defaultActive := false
                sessions := s.sessions.set x (s.sessions.get x).terminate.1
                trace := s.trace ++ acts }, true)) ∨
       ((∀ x, s.session = some x → (s.sessions.get x).isSessiondUp = false) ∧
          s.terminateSession =
            ({ s with
                defaultActive := false
                trace := s.trace ++ acts ++
                  [.sessionError TlmError.sessionNotValid.code] }, false))) := by
  have hda : ∃ acts, (acts = [] ∨ acts = [Act.prepareUserLogout s.defaultUser]) ∧
      (if s.defaultActive then
        { s with defaultActive := false }.emit (.prepareUserLogout s.defaultUser) else s) =
      { s with defaultActive := false, trace := s.trace ++ acts } := by
    cases hd : s.defaultActive with
    | true => exact ⟨_, Or.inr rfl, by simp [emit]⟩
    | false =>
      refine ⟨_, Or.inl rfl, ?_⟩
      cases s
      simp only at hd
      simp [hd]
  obtain ⟨acts, hacts, heq⟩ := hda
  refine ⟨acts, hacts, ?_⟩
  simp only [terminateSession]
  rw [heq]
  rcases hs : s.session with _ | x
  · refine Or.inr ⟨by simp, ?_⟩
    simp [emit]
  · cases hup : (s.sessions.get x).isSessiondUp with
    | true =>
      refine Or.inl ⟨x, rfl, hup, ?_⟩
      simp [SessionRemote.terminate, hup, setSession]
    | false =>
      refine Or.inr ⟨by simpa using hup, ?_⟩
      simp [SessionRemote.terminate, hup, emit]

/-- The seat a switch request with these arguments is recorded in. -/
def withNext (s : Seat) (args : LoginArgs) : Seat :=
  { s with nextService := args.service, nextUser := args.username,
           nextPassword := args.password, nextEnvironment := args.environment }

/-- Everything `switchUser` can do: refuse, create at once, or record the
request and terminate. -/
theorem switchUser_cases (cfg : Config) (sys : Sys) (args : LoginArgs) (s : Seat) :
    (authenticateUser cfg sys args.username args.password = false ∧
      s.switchUser cfg sys args = (s, false)) ∨
    (authenticateUser cfg sys args.username args.password = true ∧ s.session = none ∧
      s.switchUser cfg sys args = s.createSession cfg sys args) ∨
    (authenticateUser cfg sys args.username args.password = true ∧ s.session.isSome = true ∧
      s.switchUser cfg sys args = (s.withNext args).terminateSession) := by
  simp only [switchUser]
  cases ha : authenticateUser cfg sys args.username args.password with
  | false => exact Or.inl ⟨rfl, by simp⟩
  | true =>
    rcases hs : s.session with _ | x
    · exact Or.inr (Or.inl ⟨rfl, rfl, by simp⟩)
    · refine Or.inr (Or.inr ⟨rfl, rfl, ?_⟩)
      simp [resetNext, withNext, hs]

/-- The credentials that pass the pre-check are not `NULL`. -/
theorem authenticateUser_some {username password : Option String}
    (h : authenticateUser cfg sys username password = true) :
    (∃ u, username = some u) ∧ ∃ p, password = some p := by
  simp only [authenticateUser] at h
  split at h
  · exact ⟨⟨_, rfl⟩, _, rfl⟩
  · cases h

/-! ## Closing -/

/-- Disconnecting leaves none of the three handlers connected. -/
theorem filter_handlers_eq_nil (l : List Handler) :
    (l.filter fun k => k ≠ .sessionCreated && k ≠ .sessionTerminated && k ≠ .sessionError) = [] := by
  rw [List.filter_eq_nil_iff]
  intro k _
  cases k <;> decide

/-- The handle of a closed session: nobody listens, and it is disposed. -/
def closedRemote (m : SessionRemote) : SessionRemote := { m with handlers := [] }.dispose

/-- Closing a seat without a session does nothing. -/
theorem closeActiveSession_none {x : SessionRef} (h : s.session = none) :
    s.closeActiveSession x = s := by
  simp [closeActiveSession, h, disconnectSessionSignals, clearSession]

/-- Closing the session of a seat, whoever emits: nobody listens to its handle any more. -/
theorem closeActiveSession_eq {y : SessionRef} (h : s.session = some y) (x : SessionRef) :
    ∃ m : SessionRemote, m.handlers = [] ∧ s.closeActiveSession x =
      { s with
          session := none, sessions := s.sessions.set y m, trace := s.trace ++ [.closed x] } := by
  have hf := filter_handlers_eq_nil (s.sessions.get y).handlers
  simp only [closeActiveSession, h, Option.isSome_some, if_true, emit, disconnectSessionSignals,
    setSession, clearSession]
  rw [hf]
  split
  · exact ⟨_, rfl, rfl⟩
  · refine ⟨closedRemote (s.sessions.get y), (SessionRemote.sameIdentity_dispose _).2, ?_⟩
    simp only [disposeSession, setSession, Store.get_set_self, Store.set_set_self]
    rfl

/-- On an emission of its own the handle is still there afterwards. -/
theorem closeActiveSession_some {x : SessionRef} (h : s.session = some x) :
    s.closeActiveSession x =
      { s with
          session := none
          sessions := s.sessions.set x { s.sessions.get x with handlers := [] }
          trace := s.trace ++ [.closed x] } := by
  have hf := filter_handlers_eq_nil (s.sessions.get x).handlers
  simp only [closeActiveSession, h, Option.isSome_some, if_true, emit,
    disconnectSessionSignals, setSession, clearSession]
  rw [hf]

/-- The session of a seat that goes: its handle has no other reference. -/
theorem disconnect_clearSession {x : SessionRef} (h : s.session = some x) :
    s.disconnectSessionSignals.clearSession none =
      { s with
          session := none, sessions := s.sessions.set x (closedRemote (s.sessions.get x)) } := by
  have hf := filter_handlers_eq_nil (s.sessions.get x).handlers
  simp only [disconnectSessionSignals, clearSession, h, setSession]
  rw [hf, if_neg (by simp)]
  simp only [disposeSession, setSession, Store.get_set_self, Store.set_set_self]
  rfl

/-- The end of an emission is about the handle that has emitted, if the seat has given it up,
and about nothing else. -/
theorem released_frame (x : SessionRef) (s : Seat) :
    ∃ ss, s.released x = { s with sessions := ss } ∧ ss.next = s.sessions.next ∧
      (∀ y, (s.sessions.get y).SameIdentity (ss.get y)) ∧
      ∀ y, s.session = some y → ss.get y = s.sessions.get y := by
  simp only [released]
  split
  · exact ⟨s.sessions, rfl, rfl, fun y => SessionRemote.SameIdentity.refl _, fun _ _ => rfl⟩
  · rename_i hx
    refine ⟨_, rfl, rfl, fun y => ?_, fun y hy => ?_⟩
    · rw [Store.get_set]
      split
      · rename_i hyx
        rw [hyx]
        exact SessionRemote.sameIdentity_dispose _
      · exact SessionRemote.SameIdentity.refl _
    · exact Store.get_set_ne _ _ fun hyx => hx (hyx ▸ hy)

end Seat

end Tlm
