import Tlm.SeatRun

/-!
# The representation invariant of a seat

Session, observer and signal connections are set and cleared in five functions
with several early returns. `Seat.Wf` says how they belong together between
two dispatches, and `step_wf` that every dispatch restores it. One dispatch
breaks it half way: when the child of the current session has gone down, its
handle is dead until the emission that follows has closed the session.
`Seat.Linked` is what is left of the invariant in between.
-/

namespace Tlm

/-- The three handlers a seat connects, in the order it connects them. -/
def allHandlers : List Handler := [.sessionCreated, .sessionTerminated, .sessionError]

namespace Seat

/-- How session, observer and connections belong together, relative to a
relation `Looked` that contains every answer of `tlm_user_get_uid` so far. -/
structure Linked (Looked : String → ℕ → Prop) (s : Seat) : Prop where
  /-- the seat's session is one of its handles -/
  allocated : ∀ x, s.session = some x → x < s.sessions.next
  /-- exactly the current handle has the handlers, each once -/
  handlers : ∀ x, (s.sessions.get x).handlers = if s.session = some x then allHandlers else []
  /-- session and observer come and go together, until the manager stops the seat -/
  paired : s.stopFired = false → s.session.isSome = s.dbusObserver.isSome
  /-- no previous observer is kept, until the manager stops the seat -/
  noPrev : s.stopFired = false → s.prevDbusObserver = none
  /-- the observer is for the session's user -/
  owner : ∀ x, s.session = some x → ∃ o u, s.dbusObserver = some o ∧
    (s.sessions.get x).username = some u ∧ Looked u (s.observers.get o).uid ∧
      (s.observers.get o).enableFlags = enableLogoutUser ||| enableSwitchUser

/-- A handle with a running, watched child that passes its signals on, and that is still
there. -/
def Live (m : SessionRemote) : Prop :=
  m.isSessiondUp = true ∧ m.childWatch = true ∧ m.canEmitSignal = true ∧ m.finalized = false

/-- The representation invariant: everything is linked, and the current session
is live. -/
structure Wf (Looked : String → ℕ → Prop) (s : Seat) : Prop extends Linked Looked s where
  /-- the current handle is live -/
  live : ∀ x, s.session = some x → Live (s.sessions.get x)

variable {Looked : String → ℕ → Prop} {cfg : Config} {sys : Sys} {args : LoginArgs} {s : Seat}

/-- The invariant reads six fields; the others may change freely. -/
theorem Wf.congr {s' : Seat} (h : s.Wf Looked) (h₁ : s'.session = s.session)
    (h₂ : s'.sessions = s.sessions) (h₃ : s'.stopFired = s.stopFired)
    (h₄ : s'.dbusObserver = s.dbusObserver) (h₅ : s'.prevDbusObserver = s.prevDbusObserver)
    (h₆ : s'.observers = s.observers) : s'.Wf Looked := by
  refine ⟨⟨?_, ?_, ?_, ?_, ?_⟩, ?_⟩
  · rw [h₁, h₂]; exact h.allocated
  · rw [h₁, h₂]; exact h.handlers
  · rw [h₁, h₃, h₄]; exact h.paired
  · rw [h₃, h₅]; exact h.noPrev
  · rw [h₁, h₂, h₄, h₆]; exact h.owner
  · rw [h₁, h₂]; exact h.live

theorem Wf.emit (h : s.Wf Looked) (a : Act) : (s.emit a).Wf Looked :=
  h.congr rfl rfl rfl rfl rfl rfl

theorem Wf.resetNext (h : s.Wf Looked) : s.resetNext.Wf Looked :=
  h.congr rfl rfl rfl rfl rfl rfl

/-- A seat without a session is well formed once nobody is connected to any
handle and, unless it was stopped, no observer is left over. -/
theorem Wf.of_noSession (hs : s.session = none) (hh : ∀ x, (s.sessions.get x).handlers = [])
    (ho : s.stopFired = false → s.dbusObserver = none ∧ s.prevDbusObserver = none) :
    s.Wf Looked := by
  refine ⟨⟨?_, ?_, ?_, ?_, ?_⟩, ?_⟩
  · simp [hs]
  · simpa [hs] using hh
  · intro hf
    rw [hs, (ho hf).1]
  · exact fun hf => (ho hf).2
  · simp [hs]
  · simp [hs]

/-- Conversely. -/
theorem Wf.noSession (h : s.Wf Looked) (hs : s.session = none) :
    (∀ x, (s.sessions.get x).handlers = []) ∧
      (s.stopFired = false → s.dbusObserver = none ∧ s.prevDbusObserver = none) := by
  refine ⟨fun x => by simpa [hs] using h.handlers x, fun hf => ⟨?_, h.noPrev hf⟩⟩
  have hp := h.paired hf
  rw [hs] at hp
  simpa using hp.symm

theorem wf_new (id : String) : (Seat.new id).Wf Looked :=
  Wf.of_noSession rfl (fun _ => rfl) fun _ => ⟨rfl, rfl⟩

/-! ## Creating -/

/-- A new handle without listeners leaves nobody connected. -/
theorem handlers_alloc {ss : Store SessionRemote} {m : SessionRemote}
    (h : ∀ x, (ss.get x).handlers = []) (hm : m.handlers = []) (x : SessionRef) :
    ((ss.alloc m).get x).handlers = [] := by
  rw [Store.get_alloc]
  split
  · exact hm
  · exact h x

theorem startSession_wf (h : s.Wf Looked) (hs : s.session = none)
    (hL : ∀ u n, sys.getUid u = some n → Looked u n) :
    (s.startSession cfg sys args).1.Wf Looked := by
  obtain ⟨du, da, acts, -, hsel⟩ := selectUser_frame cfg args s
  obtain ⟨hh, ho⟩ := h.noSession hs
  have hsessions : (s.selectUser cfg args).sessions = s.sessions := by rw [hsel]
  have hsession : (s.selectUser cfg args).session = none := by rw [hsel]; exact hs
  have hobs : (s.selectUser cfg args).dbusObserver = s.dbusObserver := by rw [hsel]
  have hprev : (s.selectUser cfg args).prevDbusObserver = s.prevDbusObserver := by rw [hsel]
  have hstop : (s.selectUser cfg args).stopFired = s.stopFired := by rw [hsel]
  rcases startSession_cases cfg sys args s with
    ⟨-, ss, hss, heq⟩ | ⟨-, heq⟩ | ⟨-, uid, huid, heq⟩
  · -- no handle: what was created is disposed and never connected
    rw [heq]
    refine Wf.of_noSession hsession ?_ ?_
    · rcases hss with rfl | rfl
      · rw [hsessions]
        exact hh
      · rw [hsessions]
        exact handlers_alloc hh rfl
    · intro hf
      rw [hobs, hprev]
      exact ho (hstop ▸ hf)
  · -- no observer: the handle is disposed before the handlers are connected
    rw [heq]
    refine Wf.of_noSession rfl ?_ ?_
    · rw [hsessions]
      exact handlers_alloc hh rfl
    · intro hf
      refine ⟨rfl, ?_⟩
      rw [hobs]
      exact (ho (hstop ▸ hf)).1
  · -- started: the new handle is connected and the observer is for its user
    obtain ⟨u, hu, hget⟩ := Option.bind_eq_some_iff.mp huid
    rw [heq]
    refine ⟨⟨?_, ?_, ?_, ?_, ?_⟩, ?_⟩
    · intro x hx
      obtain rfl := Option.some.inj hx
      exact Nat.lt_succ_self _
    · intro x
      simp only [Option.some.injEq]
      rw [hsessions, Store.get_alloc]
      by_cases hx : x = s.sessions.next
      · rw [if_pos hx, if_pos hx.symm]
        rfl
      · rw [if_neg hx, if_neg (Ne.symm hx)]
        exact hh x
    · exact fun _ => rfl
    · intro hf
      rw [hobs]
      exact (ho (hstop ▸ hf)).1
    · intro x hx
      obtain rfl := Option.some.inj hx
      refine ⟨_, u, rfl, ?_, ?_, ?_⟩
      · rw [Store.get_alloc_self]
        exact hu
      · rw [Store.get_alloc_self]
        exact hL u uid hget
      · rw [Store.get_alloc_self]
        rfl
    · intro x hx
      obtain rfl := Option.some.inj hx
      simp only [Store.get_alloc_self]
      exact ⟨rfl, rfl, rfl, rfl⟩

theorem createSession_wf (h : s.Wf Looked) (hL : ∀ u n, sys.getUid u = some n → Looked u n) :
    (s.createSession cfg sys args).1.Wf Looked := by
  rcases createSession_cases cfg sys args s with ⟨-, heq⟩ | ⟨-, -, c, heq⟩ | ⟨hs, -, c, heq⟩
  · rw [heq]
    exact h.congr rfl rfl rfl rfl rfl rfl
  · rw [heq]
    exact h.congr rfl rfl rfl rfl rfl rfl
  · rw [heq]
    exact startSession_wf (h.congr rfl rfl rfl rfl rfl rfl) hs hL

/-! ## Terminating and switching -/

/-- Replacing a handle by one with the same identity keeps everything linked. -/
theorem Linked.setSession (h : s.Linked Looked) {x : SessionRef} {m : SessionRemote}
    (hm : (s.sessions.get x).SameIdentity m) : (s.setSession x m).Linked Looked := by
  have hget : ∀ y, (s.sessions.get y).SameIdentity ((s.sessions.set x m).get y) := by
    intro y
    rw [Store.get_set]
    split
    · rename_i hy
      rw [hy]
      exact hm
    · exact SessionRemote.SameIdentity.refl _
  refine ⟨h.allocated, ?_, h.paired, h.noPrev, ?_⟩
  · intro y
    exact (hget y).2.trans (h.handlers y)
  · intro y hy
    obtain ⟨o, u, ho, hu, hrest⟩ := h.owner y hy
    exact ⟨o, u, ho, (hget y).1.trans hu, hrest⟩

/-- It keeps the invariant, if the handle stays live when it is the current one. -/
theorem Wf.setSession (h : s.Wf Looked) {x : SessionRef} {m : SessionRemote}
    (hm : (s.sessions.get x).SameIdentity m) (hlive : s.session = some x → Live m) :
    (s.setSession x m).Wf Looked := by
  refine ⟨h.toLinked.setSession hm, ?_⟩
  intro y hy
  have hsy : s.session = some y := hy
  change Live ((s.sessions.set x m).get y)
  rw [Store.get_set]
  split
  · rename_i hyx
    exact hlive (hyx ▸ hsy)
  · exact h.live y hsy

/-- Asking a live child to go leaves its handle live: it is up until it exits. -/
theorem live_terminate {m : SessionRemote} (h : Live m) : Live m.terminate.1 := by
  obtain ⟨hup, hw, he, hl⟩ := h
  simp [Live, SessionRemote.terminate, SessionRemote.sendSignal, hup, hw, he, hl]

theorem terminateSession_wf (h : s.Wf Looked) : s.terminateSession.1.Wf Looked := by
  obtain ⟨acts, -, ⟨x, hx, -, heq⟩ | ⟨-, heq⟩⟩ := terminateSession_cases s
  · rw [heq]
    have h' := h.setSession (SessionRemote.sameIdentity_terminate (s.sessions.get x))
      fun hx => live_terminate (h.live x hx)
    exact h'.congr rfl rfl rfl rfl rfl rfl
  · rw [heq]
    exact h.congr rfl rfl rfl rfl rfl rfl

theorem switchUser_wf (h : s.Wf Looked) (hL : ∀ u n, sys.getUid u = some n → Looked u n) :
    (s.switchUser cfg sys args).1.Wf Looked := by
  rcases switchUser_cases cfg sys args s with ⟨-, heq⟩ | ⟨-, -, heq⟩ | ⟨-, -, heq⟩
  · rw [heq]
    exact h
  · rw [heq]
    exact createSession_wf h hL
  · rw [heq]
    exact terminateSession_wf (h.congr rfl rfl rfl rfl rfl rfl)

/-! ## Closing -/

/-- Dropping the observer touches nothing else the invariant reads. -/
theorem clearDbusObserver_eq (s : Seat) :
    ∃ acts, s.clearDbusObserver = { s with dbusObserver := none, trace := s.trace ++ acts } := by
  simp only [clearDbusObserver]
  rcases h : s.dbusObserver with _ | o
  · refine ⟨[], ?_⟩
    cases s
    simp only at h
    simp [h]
  · exact ⟨[.observerDispose o], rfl⟩

theorem clearPrevDbusObserver_eq (s : Seat) :
    ∃ acts, s.clearPrevDbusObserver =
      { s with prevDbusObserver := none, trace := s.trace ++ acts } := by
  simp only [clearPrevDbusObserver]
  rcases h : s.prevDbusObserver with _ | o
  · refine ⟨[], ?_⟩
    cases s
    simp only at h
    simp [h]
  · exact ⟨[.observerDispose o], rfl⟩

/-- Closing leaves a seat without a session and nobody connected anywhere. -/
theorem Linked.close (h : s.Linked Looked) (x : SessionRef) :
    (s.closeActiveSession x).session = none ∧
      ∀ y, ((s.closeActiveSession x).sessions.get y).handlers = [] := by
  rcases hs : s.session with _ | z
  · rw [closeActiveSession_none hs]
    exact ⟨hs, fun y => by simpa [hs] using h.handlers y⟩
  · obtain ⟨m, hm, heq⟩ := closeActiveSession_eq hs x
    rw [heq]
    refine ⟨rfl, fun y => ?_⟩
    simp only [Store.get_set]
    split
    · exact hm
    · rename_i hy
      have hne : s.session ≠ some y := by
        rw [hs]
        exact fun he => hy (Option.some.inj he).symm
      simpa [hne] using h.handlers y

/-- What closing leaves alone. -/
theorem closeActiveSession_frame (s : Seat) (x : SessionRef) :
    ∃ ss acts, s.closeActiveSession x =
      { s with session := none, sessions := ss, trace := s.trace ++ acts } := by
  rcases hs : s.session with _ | y
  · rw [closeActiveSession_none hs]
    refine ⟨s.sessions, [], ?_⟩
    cases s
    simp only at hs
    simp [hs]
  · obtain ⟨m, -, heq⟩ := closeActiveSession_eq hs x
    exact ⟨_, _, heq⟩

/-- What disposal leaves alone. -/
theorem dispose_frame (s : Seat) :
    ∃ ss acts, s.dispose = { s with
      session := none, dbusObserver := none, prevDbusObserver := none
      sessions := ss, trace := s.trace ++ acts } := by
  obtain ⟨acts, h₁⟩ := clearDbusObserver_eq s
  obtain ⟨acts', h₂⟩ := clearPrevDbusObserver_eq s.clearDbusObserver
  have h₃ : ∀ t : Seat, ∃ ss, t.disconnectSessionSignals.clearSession none =
      { t with session := none, sessions := ss } := by
    intro t
    rcases ht : t.session with _ | y
    · refine ⟨t.sessions, ?_⟩
      cases t
      simp only at ht
      simp [disconnectSessionSignals, clearSession, ht]
    · exact ⟨_, disconnect_clearSession ht⟩
  obtain ⟨ss, h₃⟩ := h₃ s.clearDbusObserver.clearPrevDbusObserver
  refine ⟨ss, acts ++ acts', ?_⟩
  rw [dispose, h₃, h₂, h₁]
  simp

/-- Dropping a reference: it was not the last, or the seat is disposed of. -/
theorem unref_cases (s : Seat) :
    (1 < s.refs ∧ s.unref = { s with refs := s.refs - 1 }) ∨
    (s.refs ≤ 1 ∧ ∃ ss acts, s.unref = { s with
      session := none, dbusObserver := none, prevDbusObserver := none
      sessions := ss, trace := s.trace ++ acts, refs := 0 }) := by
  simp only [unref]
  split
  · rename_i hle
    obtain ⟨ss, acts, h⟩ := dispose_frame s
    exact Or.inr ⟨hle, ss, acts, by rw [h]⟩
  · rename_i hle
    exact Or.inl ⟨by omega, rfl⟩

/-- Closing the session and dropping the observer restores the invariant. -/
theorem Linked.close_clear (h : s.Linked Looked) (x : SessionRef) (a : List Act) :
    ({ s.closeActiveSession x with
        trace := (s.closeActiveSession x).trace ++ a }.clearDbusObserver).Wf Looked := by
  obtain ⟨hnone, hh⟩ := h.close x
  obtain ⟨ss, acts, heq⟩ := closeActiveSession_frame s x
  obtain ⟨acts', heq'⟩ := clearDbusObserver_eq
    { s.closeActiveSession x with trace := (s.closeActiveSession x).trace ++ a }
  rw [heq']
  refine Wf.of_noSession hnone hh fun hf => ⟨rfl, ?_⟩
  rw [heq] at hf ⊢
  exact h.noPrev hf

theorem handleSessionTerminated_wf (h : s.Linked Looked) (x : SessionRef)
    (hL : ∀ u n, sys.getUid u = some n → Looked u n) :
    (s.handleSessionTerminated cfg sys x).Wf Looked := by
  obtain ⟨hnone, hh⟩ := h.close x
  have hclear := h.close_clear x [.sessionTerminated]
  simp only [handleSessionTerminated, terminated]
  split
  · -- the manager is stopping: the observer stays, and the seat is stopped
    exact Wf.of_noSession hnone hh fun hf => by cases hf
  · split
    · exact hclear.emit .killGroup
    · split
      · exact (createSession_wf (hclear.emit (.relogin x)) hL).resetNext
      · exact hclear

theorem handleError_wf_of_fatal (h : s.Linked Looked) {code : ℤ} (hc : isFatal code = true)
    (x : SessionRef) : (s.handleError code x).Wf Looked := by
  simp only [handleError]
  rw [if_pos hc]
  have h' : (s.emit (.sessionError code)).Linked Looked :=
    ⟨h.allocated, h.handlers, h.paired, h.noPrev, h.owner⟩
  simpa using h'.close_clear x []

theorem handleError_wf (h : s.Wf Looked) (code : ℤ) (x : SessionRef) :
    (s.handleError code x).Wf Looked := by
  cases hc : isFatal code with
  | true => exact handleError_wf_of_fatal h.toLinked hc x
  | false =>
    simp only [handleError, hc, Bool.false_eq_true, if_false]
    exact h.congr rfl rfl rfl rfl rfl rfl

theorem handleSessionCreated_wf (h : s.Wf Looked) : s.handleSessionCreated.Wf Looked := by
  obtain ⟨acts, heq⟩ := clearPrevDbusObserver_eq (s.emit .sessionCreated)
  simp only [handleSessionCreated]
  rw [heq]
  exact ⟨⟨h.allocated, h.handlers, h.paired, fun _ => rfl, h.owner⟩, h.live⟩

/-! ## Emissions and events of a handle -/

/-- Nobody hears a handle without listeners. -/
theorem deliver_disconnected {x : SessionRef} (h : (s.sessions.get x).handlers = [])
    (g : SessionSignal) : s.deliver cfg sys x g = s := by
  simp [deliver, h]

/-- The handle with the three handlers is heard once. -/
theorem deliver_connected {x : SessionRef} (h : (s.sessions.get x).handlers = allHandlers)
    (g : SessionSignal) : s.deliver cfg sys x g = s.runHandler cfg sys x g := by
  cases g <;> simp [deliver, h, allHandlers, SessionSignal.handler]

/-- A handle emits at most one signal for an event. -/
theorem handle_signals (m : SessionRemote) (e : SessionEvent) :
    (m.handle e).2 = [] ∨ ∃ g, (m.handle e).2 = [g] := by
  cases hl : m.finalized with
  | true => exact .inl (by rw [SessionRemote.handle_of_finalized hl])
  | false =>
    rw [SessionRemote.handle_of_live hl]
    cases e with
    | created => by_cases h : m.proxy <;> simp [SessionRemote.callback, h]
    | terminated => by_cases h : m.proxy && m.canEmitSignal <;> simp [SessionRemote.callback, h]
    | error code => by_cases h : m.proxy && m.canEmitSignal <;> simp [SessionRemote.callback, h]
    | childDown =>
      by_cases h : m.childWatch <;> by_cases h' : m.canEmitSignal <;>
        simp [SessionRemote.callback, SessionRemote.onChildDown, h, h']
    | terminateTimeout source =>
      by_cases h : source ∈ m.timers
      · by_cases h' : m.canEmitSignal <;> rcases hl : m.lastSig with _ | _ | _ | _ <;>
          simp [SessionRemote.callback, SessionRemote.terminateTimeout, h, h', hl]
      · simp [SessionRemote.callback, h]
    | createReply err =>
      by_cases h : m.createPending <;> cases err <;> simp [SessionRemote.callback, h]

/-- A live handle stays live, unless its child has just gone down; then it says
so. -/
theorem live_handle {m : SessionRemote} (h : Live m) (e : SessionEvent) :
    Live (m.handle e).1 ∨ (m.handle e).2 = [.terminated] := by
  obtain ⟨hup, hw, he, hl⟩ := h
  rw [SessionRemote.handle_of_live hl]
  cases e with
  | created => exact Or.inl ⟨hup, hw, he, hl⟩
  | terminated => exact Or.inl ⟨hup, hw, he, hl⟩
  | error code => exact Or.inl ⟨hup, hw, he, hl⟩
  | childDown =>
    apply Or.inr
    simp [SessionRemote.callback, SessionRemote.onChildDown, hw, he]
  | terminateTimeout source =>
    apply Or.inl
    by_cases hm : source ∈ m.timers
    · rcases hs : m.lastSig with _ | _ | _ | _ <;>
        simp [Live, SessionRemote.callback, SessionRemote.terminateTimeout,
          SessionRemote.sendSignal, hm, hs, hup, hw, he, hl]
    · simp [Live, SessionRemote.callback, hm, hup, hw, he, hl]
  | createReply err =>
    apply Or.inl
    by_cases hc : m.createPending <;> simp [Live, SessionRemote.callback, hc, hup, hw, he, hl]

/-- An event of a handle that is not the current one changes that handle and
nothing else. -/
theorem sessionEvent_stale (h : s.Linked Looked) {x : SessionRef} (hx : s.session ≠ some x)
    (e : SessionEvent) :
    s.sessionEvent cfg sys x e = s.setSession x ((s.sessions.get x).handle e).1 := by
  have hh : (s.sessions.get x).handlers = [] := by simpa [hx] using h.handlers x
  have hh' : ((s.setSession x ((s.sessions.get x).handle e).1).sessions.get x).handlers = [] := by
    change ((s.sessions.set x ((s.sessions.get x).handle e).1).get x).handlers = []
    rw [Store.get_set_self, (SessionRemote.sameIdentity_handle _ e).2]
    exact hh
  have hfold : ∀ gs : List SessionSignal,
      gs.foldl (deliver cfg sys x) (s.setSession x ((s.sessions.get x).handle e).1) =
        s.setSession x ((s.sessions.get x).handle e).1 := by
    intro gs
    induction gs with
    | nil => rfl
    | cons g gs ih =>
      rw [List.foldl_cons, deliver_disconnected hh' g]
      exact ih
  simp only [sessionEvent, if_neg hx]
  exact hfold _

theorem sessionEvent_wf_stale (h : s.Wf Looked) {x : SessionRef} (hx : s.session ≠ some x)
    (e : SessionEvent) : (s.sessionEvent cfg sys x e).Wf Looked := by
  rw [sessionEvent_stale h.toLinked hx]
  exact h.setSession (SessionRemote.sameIdentity_handle _ e) fun hx' => absurd hx' hx

/-- What an emission of the current handle comes to: its handler runs at most once. -/
theorem emission_current (h : s.Linked Looked) {x : SessionRef} (hx : s.session = some x)
    (cfg : Config) (sys : Sys) (e : SessionEvent) :
    ((s.sessions.get x).handle e).2 = [] ∧
        s.emission cfg sys x e = s.setSession x ((s.sessions.get x).handle e).1 ∨
      ∃ g, ((s.sessions.get x).handle e).2 = [g] ∧ s.emission cfg sys x e =
        (s.setSession x ((s.sessions.get x).handle e).1).runHandler cfg sys x g := by
  have hh : ((s.setSession x ((s.sessions.get x).handle e).1).sessions.get x).handlers =
      allHandlers := by
    have := (h.setSession (SessionRemote.sameIdentity_handle (s.sessions.get x) e)).handlers x
    rw [this]
    exact if_pos hx
  rcases handle_signals (s.sessions.get x) e with hg | ⟨g, hg⟩
  · refine Or.inl ⟨hg, ?_⟩
    simp only [emission, hg, List.foldl_nil]
  · refine Or.inr ⟨g, hg, ?_⟩
    simp only [emission, hg, List.foldl_cons, List.foldl_nil]
    exact deliver_connected hh g

/-- An event of the current handle: its handler runs at most once, and behind it a handle that
the seat has given up is disposed of. -/
theorem sessionEvent_current (h : s.Linked Looked) {x : SessionRef} (hx : s.session = some x)
    (cfg : Config) (sys : Sys) (e : SessionEvent) :
    ((s.sessions.get x).handle e).2 = [] ∧
        s.sessionEvent cfg sys x e = s.setSession x ((s.sessions.get x).handle e).1 ∨
      ∃ g, ((s.sessions.get x).handle e).2 = [g] ∧ s.sessionEvent cfg sys x e =
        ((s.setSession x ((s.sessions.get x).handle e).1).runHandler cfg sys x g).released x := by
  simp only [sessionEvent, if_pos hx]
  rcases emission_current h hx cfg sys e with ⟨hg, heq⟩ | ⟨g, hg, heq⟩
  · refine .inl ⟨hg, ?_⟩
    rw [heq, released]
    exact if_pos hx
  · exact .inr ⟨g, hg, by rw [heq]⟩

/-- The end of an emission keeps the invariant: the handle it disposes of is not the current
one. -/
theorem Wf.released (h : s.Wf Looked) (x : SessionRef) : (s.released x).Wf Looked := by
  simp only [Seat.released]
  split
  · exact h
  · rename_i hx
    exact h.setSession (SessionRemote.sameIdentity_dispose _) fun hx' => absurd hx' hx

theorem runHandler_wf (h : s.Linked Looked) (x : SessionRef) (g : SessionSignal)
    (hlive : g ≠ .terminated → s.Wf Looked) (hL : ∀ u n, sys.getUid u = some n → Looked u n) :
    (s.runHandler cfg sys x g).Wf Looked := by
  cases g with
  | terminated => exact handleSessionTerminated_wf h x hL
  | created => exact handleSessionCreated_wf (hlive (by simp))
  | error code => exact handleError_wf (hlive (by simp)) code x

theorem sessionEvent_wf (h : s.Wf Looked) (x : SessionRef) (e : SessionEvent)
    (hL : ∀ u n, sys.getUid u = some n → Looked u n) :
    (s.sessionEvent cfg sys x e).Wf Looked := by
  by_cases hx : s.session = some x
  · have hid := SessionRemote.sameIdentity_handle (s.sessions.get x) e
    have hstill : ((s.sessions.get x).handle e).2 ≠ [.terminated] →
        (s.setSession x ((s.sessions.get x).handle e).1).Wf Looked :=
      fun hne => h.setSession hid fun _ => (live_handle (h.live x hx) e).resolve_right hne
    rcases sessionEvent_current h.toLinked hx cfg sys e with ⟨hg, heq⟩ | ⟨g, hg, heq⟩
    · -- nothing is said, so the child is still up
      rw [heq]
      exact hstill (by simp [hg])
    · rw [heq]
      refine (runHandler_wf (h.toLinked.setSession hid) x g (fun hne => ?_) hL).released x
      refine hstill fun hterm => hne ?_
      rw [hg] at hterm
      exact List.singleton_inj.mp hterm
  · exact sessionEvent_wf_stale h hx e

/-! ## Disposal and the delay timers -/

/-- Disposing a seat leaves it without session and observers. -/
theorem dispose_wf (h : s.Linked Looked) : s.dispose.Wf Looked := by
  obtain ⟨acts, h₁⟩ := clearDbusObserver_eq s
  obtain ⟨acts', h₂⟩ := clearPrevDbusObserver_eq s.clearDbusObserver
  rw [h₁] at h₂
  simp only [dispose]
  rw [h₁, h₂]
  rcases hs : s.session with _ | y
  · simp only [disconnectSessionSignals, clearSession]
    refine Wf.of_noSession rfl (fun x => ?_) fun _ => ⟨rfl, rfl⟩
    simpa [hs] using h.handlers x
  · rw [disconnect_clearSession rfl]
    refine Wf.of_noSession rfl (fun x => ?_) fun _ => ⟨rfl, rfl⟩
    rw [Store.get_set]
    split
    · exact (SessionRemote.sameIdentity_dispose _).2
    · rename_i hx
      have hne : s.session ≠ some x := by
        rw [hs]
        exact fun he => hx (Option.some.inj he).symm
      simpa [hne] using h.handlers x

theorem unref_wf (h : s.Wf Looked) : s.unref.Wf Looked := by
  simp only [unref]
  split
  · exact (dispose_wf h.toLinked).congr rfl rfl rfl rfl rfl rfl
  · exact h.congr rfl rfl rfl rfl rfl rfl

theorem delayedSession_wf (h : s.Wf Looked) (k : ℕ)
    (hL : ∀ u n, sys.getUid u = some n → Looked u n) :
    (s.delayedSession cfg sys k).Wf Looked := by
  simp only [delayedSession]
  rcases s.closures[k]? with _ | args
  · exact h
  · exact unref_wf (createSession_wf (h.congr rfl rfl rfl rfl rfl rfl) hL)

/-! ## Every dispatch -/

/-- One dispatch keeps the invariant, if the relation contains the uids it
looks up. -/
theorem step_wf (h : s.Wf Looked) {st : SeatStep}
    (hL : ∀ u n, st.sys.getUid u = some n → Looked u n) : (s.step st).Wf Looked := by
  simp only [step]
  split
  · exact h
  · simp only [dispatch]
    cases st.event with
    | createSession args => exact createSession_wf h hL
    | switchUser args => exact switchUser_wf h hL
    | terminateSession => exact terminateSession_wf h
    | delayedSession k => exact delayedSession_wf h k hL
    | session x e => exact sessionEvent_wf h x e hL
    | connectStop => exact h.congr rfl rfl rfl rfl rfl rfl
    | ref => exact h.congr rfl rfl rfl rfl rfl rfl
    | unref => exact unref_wf h

/-- The uids looked up by the dispatches of a run. -/
def LookedUp (sts : List SeatStep) (u : String) (n : ℕ) : Prop :=
  ∃ st ∈ sts, st.sys.getUid u = some n

/-- The invariant holds in every state of every run of a new seat. -/
theorem always_wf (id : String) (sts : List SeatStep) :
    Always step (Wf (LookedUp sts)) (Seat.new id) sts := by
  have hstep : ∀ (s : Seat) (st : SeatStep), st ∈ sts → s.Wf (LookedUp sts) →
      (s.step st).Wf (LookedUp sts) := by
    intro s st hst hs
    exact step_wf hs fun u n hu => ⟨st, hst, hu⟩
  exact always_of_step hstep (wf_new id) fun _ hst => hst

theorem run_wf (id : String) (sts : List SeatStep) :
    ((Seat.new id).run sts).Wf (LookedUp sts) :=
  (always_wf id sts).last

/-- **Representation invariant of a seat**: as long as the manager's stop
handler has not fired, after every run session and observer are both there or
both absent and no previous observer is kept; a current session has its child
up and an observer for logout and switch on the uid that was looked up for its
user; and each of the three handlers is connected exactly once to the current
handle and to no other. -/
theorem run_representation (id : String) (sts : List SeatStep)
    (hstop : ((Seat.new id).run sts).stopFired = false) :
    let s := (Seat.new id).run sts
    (s.session.isSome ↔ s.dbusObserver.isSome) ∧ s.prevDbusObserver = none ∧
      (∀ x, s.session = some x → (s.sessions.get x).isSessiondUp = true ∧
        ∃ o u, s.dbusObserver = some o ∧ (s.sessions.get x).username = some u ∧
          LookedUp sts u (s.observers.get o).uid ∧
          (s.observers.get o).enableFlags = enableLogoutUser ||| enableSwitchUser) ∧
      ∀ x k, (s.sessions.get x).handlers.count k = if s.session = some x then 1 else 0 := by
  intro s
  have h : s.Wf (LookedUp sts) := run_wf id sts
  refine ⟨?_, h.noPrev hstop, ?_, ?_⟩
  · rw [h.paired hstop]
  · intro x hx
    exact ⟨(h.live x hx).1, h.owner x hx⟩
  · intro x k
    rw [h.handlers x]
    split
    · cases k <;> decide
    · rfl

theorem run_representation_login :
    ((Seat.new "seat0").run [loginStep Config.empty (some "bob") 5000000]).session = some 0 ∧
      ((Seat.new "seat0").run
        [loginStep Config.empty (some "bob") 5000000]).dbusObserver.isSome = true := by
  have hs : ((Seat.new "seat0").run
      [loginStep Config.empty (some "bob") 5000000]).session = some 0 := rfl
  refine ⟨hs, (run_representation "seat0" _ rfl).1.mp ?_⟩
  rw [hs]
  rfl

end Seat

end Tlm
