import Tlm.SeatActs
import Tlm.SeatHistory
import Tlm.SessionTimers

/-!
# The handles of a seat

A seat keeps one session handle at a time, and drops it when the session is closed. What becomes
of the handles it ever made is said three times. For the seat, the one whose child is up is that
of its session, and between dispatches **there is no other session process**; only while an
emission is handled the emitter's may still be there (`run_processes`). For the handles, each of
them **runs the machine of a handle** (`Remote`), which may wait for its child as long as it likes
and hears of everything meanwhile: the seat's model, which disposes of a handle in one go, goes
through nothing that this machine does not (`run_handles`). And for those who still call back:
every session has **one end**, as long as no callback comes for a handle that was finalized
(`run_one_end`).
-/

namespace Tlm

namespace SessionRemote

/-- A handle without those who listen to it. -/
def bare (m : SessionRemote) : SessionRemote := { m with handlers := [] }

variable {m : SessionRemote}

theorem bare_removeTimer (m : SessionRemote) : m.removeTimer.bare = m.bare.removeTimer := by
  by_cases h : m.timerId = 0 <;> simp [removeTimer, bare, h]

theorem bare_terminate (m : SessionRemote) : m.terminate.1.bare = m.bare.terminate.1 := by
  by_cases h : m.isSessiondUp = true <;> simp [terminate, sendSignal, bare, h]

theorem bare_dispose (m : SessionRemote) : m.dispose.bare = m.bare.dispose := by
  by_cases h : m.isSessiondUp = true <;> by_cases ht : m.timerId = 0 <;>
    simp [dispose, terminate, sendSignal, onChildDown, removeTimer, bare, h, ht]

theorem bare_callback (m : SessionRemote) (e : SessionEvent) :
    (m.callback e).1.bare = (m.bare.callback e).1 := by
  cases e with
  | created => rfl
  | terminated => rfl
  | error code => rfl
  | childDown =>
    by_cases h : m.childWatch = true
    · have hremove := bare_removeTimer { m with isSessiondUp := false, childWatch := false }
      have hwatch : m.bare.childWatch = true := h
      simp only [callback, onChildDown, h, hwatch, if_true]
      exact hremove
    · have hwatch : ¬ m.bare.childWatch = true := h
      simp only [callback, if_neg h, if_neg hwatch]
  | terminateTimeout source =>
    by_cases h : source ∈ m.timers
    · have hlive : source ∈ m.bare.timers := h
      have hsig : m.bare.lastSig = m.lastSig := rfl
      simp only [callback, terminateTimeout, if_pos h, if_pos hlive, hsig]
      rcases m.lastSig with _ | _ | _ | _ <;> rfl
    · have hlive : source ∉ m.bare.timers := h
      simp only [callback, if_neg h, if_neg hlive]
  | createReply err =>
    by_cases h : m.createPending = true
    · have hpending : m.bare.createPending = true := h
      simp only [callback, h, hpending, if_true]
      rfl
    · have hpending : ¬ m.bare.createPending = true := h
      simp only [callback, if_neg h, if_neg hpending]

/-- What a handle becomes does not depend on who listens. -/
theorem bare_handle (m : SessionRemote) (e : SessionEvent) :
    (m.handle e).1.bare = (m.bare.handle e).1 := by
  cases hf : m.finalized with
  | false =>
    have hf' : m.bare.finalized = false := hf
    rw [handle_of_live hf, handle_of_live hf', bare_callback]
  | true =>
    have hf' : m.bare.finalized = true := hf
    have hawaits : m.bare.awaits e = m.awaits e := by cases e <;> rfl
    rw [handle_of_finalized hf, handle_of_finalized hf', hawaits]
    cases m.awaits e <;> rfl

/-- Nothing of a handle is left but its outstanding call and, maybe, timers that it has lost. -/
structure Dead (m : SessionRemote) : Prop where
  down : m.isSessiondUp = false
  unwatched : m.childWatch = false
  mute : m.canEmitSignal = false
  disconnected : m.proxy = false
  unasked : m.lastSig = none

end SessionRemote

/-- How a handle of seat `id` begins: its proxy is not there yet, or it is connected, and maybe
`tlm_session_remote_create` was called on it in the same handler. -/
inductive Begins (id : String) : SessionRemote → Prop
  | spawned : Begins id .spawned
  | connected (service : String) (user : Option String) (created : Bool) :
      Begins id { SessionRemote.spawned.connect id service user with createPending := created }

/-- A handle, but for those who listen to it, is where a run of its machine ends. -/
def Remote.Reaches (id : String) (m : SessionRemote) (phase : Phase) : Prop :=
  ∃ first, Begins id first ∧ ∃ rs : List RemoteStep,
    rs.foldl Remote.step ⟨first, .alive⟩ = ⟨m.bare, phase⟩

namespace Remote

variable {id : String} {m m' : SessionRemote} {phase : Phase} {current : Prop}

theorem Reaches.begin (h : Begins id m.bare) : Reaches id m .alive := ⟨m.bare, h, [], rfl⟩

theorem Reaches.run (h : Reaches id m phase) (rs : List RemoteStep)
    {phase' : Phase} (hrs : rs.foldl Remote.step ⟨m.bare, phase⟩ = ⟨m'.bare, phase'⟩) :
    Reaches id m' phase' := by
  obtain ⟨first, hfirst, before, hbefore⟩ := h
  exact ⟨first, hfirst, before ++ rs, by rw [List.foldl_append, hbefore]; exact hrs⟩

/-- Nothing but the wait loop looks at a handle by itself. -/
theorem settle_of_ne {r : Remote} (h : r.phase ≠ .disposing) : r.settle = r := by
  rw [settle, if_neg fun hr => h hr.1]

theorem Reaches.heard (h : Reaches id m phase) (hphase : phase ≠ .disposing) (e : SessionEvent) :
    Reaches id (m.handle e).1 phase := by
  have hst : Remote.step ⟨m.bare, phase⟩ (.event e) = ⟨(m.handle e).1.bare, phase⟩ := by
    rw [Remote.step, settle_of_ne hphase, SessionRemote.bare_handle]
    rfl
  exact h.run [.event e] hst

theorem Reaches.goes (h : Reaches id m phase) (hg : m.Goes current m')
    (hcurrent : current → phase = .alive) : Reaches id m' phase := by
  cases hg with
  | same => exact h
  | terminate hc =>
    obtain rfl := hcurrent hc
    have hst : Remote.step ⟨m.bare, .alive⟩ .terminate = ⟨m.terminate.1.bare, .alive⟩ := by
      have halive : dispatch ⟨m.bare, .alive⟩ .terminate = ⟨m.bare.terminate.1, .alive⟩ := rfl
      rw [Remote.step, halive, settle_of_ne (by simp), SessionRemote.bare_terminate]
    exact h.run [.terminate] hst

/-- The child of a handle is watched as long as it is up. -/
def Watched (m : SessionRemote) : Prop := m.isSessiondUp = true ↔ m.childWatch = true

theorem watched_begins {first : SessionRemote} (h : Begins id first) : Watched first := by
  cases h with
  | spawned => exact iff_of_true rfl rfl
  | connected => exact iff_of_true rfl rfl

theorem watched_removeTimer (h : Watched m) : Watched m.removeTimer := by
  rw [Watched, SessionRemote.removeTimer_isSessiondUp, SessionRemote.removeTimer_childWatch]
  exact h

theorem watched_terminate (h : Watched m) : Watched m.terminate.1 := by
  simp only [SessionRemote.terminate]
  split <;> exact h

theorem watched_callback (h : Watched m) (e : SessionEvent) : Watched (m.callback e).1 := by
  cases e with
  | created => exact h
  | terminated => exact h
  | error code => exact h
  | childDown =>
    simp only [SessionRemote.callback]
    split
    · exact watched_removeTimer (iff_of_false (by simp) (by simp))
    · exact h
  | terminateTimeout source =>
    simp only [SessionRemote.callback]
    split
    · simp only [SessionRemote.terminateTimeout]
      split <;> exact h
    · exact h
  | createReply err =>
    simp only [SessionRemote.callback]
    split <;> exact h

theorem watched_handle (h : Watched m) (e : SessionEvent) : Watched (m.handle e).1 := by
  simp only [SessionRemote.handle]
  split
  · split <;> exact h
  · exact watched_callback h e

theorem watched_dispatch {r : Remote} (h : Watched r.remote) (st : RemoteStep) :
    Watched (r.dispatch st).remote := by
  cases st with
  | terminate =>
    simp only [dispatch]
    split
    · exact h
    · exact watched_terminate h
  | event e => exact watched_handle h e
  | dispose =>
    simp only [dispatch]
    split
    · have hmute : Watched { r.remote with canEmitSignal := false } := h
      exact watched_terminate hmute
    · exact h

/-- What a run of the machine keeps: a handle is finalized when it was disposed of, and not
before; and from the first moment of that on it is mute, and at the end of it dead. -/
structure Sound (r : Remote) : Prop where
  watched : Watched r.remote
  lives : r.Lives
  mute : r.phase ≠ .alive → r.remote.canEmitSignal = false
  dead : r.phase = .disposed → r.remote.Dead

theorem sound_begins {first : SessionRemote} (h : Begins id first) : Sound ⟨first, .alive⟩ := by
  refine ⟨watched_begins h, iff_of_false ?_ (by simp), fun hne => absurd rfl hne, fun h => by cases h⟩
  cases h with
  | spawned => decide
  | connected => simp [SessionRemote.connect, SessionRemote.spawned]

theorem sound_settle {r : Remote} (h : Sound r) : Sound r.settle := by
  simp only [settle]
  split
  · rename_i hdone
    have hmute : (finish r.remote).canEmitSignal = false := by
      simpa [finish] using h.mute (by simp [hdone.1])
    have hdown : (finish r.remote).isSessiondUp = false := by simpa [finish] using hdone.2
    exact ⟨iff_of_false (by simp [hdown]) (by simp [finish]), iff_of_true rfl rfl, fun _ => hmute,
      fun _ => ⟨hdown, rfl, hmute, rfl, rfl⟩⟩
  · exact h

theorem mute_dispatch {r : Remote} (h : r.phase ≠ .alive → r.remote.canEmitSignal = false)
    (st : RemoteStep) :
    (r.dispatch st).phase ≠ .alive → (r.dispatch st).remote.canEmitSignal = false := by
  cases st with
  | terminate =>
    simp only [dispatch]
    split
    · exact h
    · simpa using h
  | event e => simpa [dispatch] using h
  | dispose =>
    simp only [dispatch]
    split
    · simp
    · exact h

/-- Nothing but the mark of a dangling callback changes in a dead handle. -/
theorem dead_dispatch {r : Remote} (h : Sound r) (st : RemoteStep)
    (hdone : (r.dispatch st).phase = .disposed) : (r.dispatch st).remote.Dead := by
  have hphase : r.phase = .disposed := by
    cases st with
    | terminate =>
      simp only [dispatch] at hdone
      split at hdone <;> exact hdone
    | event e => exact hdone
    | dispose =>
      simp only [dispatch] at hdone
      split at hdone
      · cases hdone
      · exact hdone
  have hdead := h.dead hphase
  cases st with
  | terminate => simpa [dispatch, hphase] using hdead
  | event e =>
    simp only [dispatch]
    rw [SessionRemote.handle_of_finalized (h.lives.mpr hphase)]
    split
    · exact ⟨hdead.down, hdead.unwatched, hdead.mute, hdead.disconnected, hdead.unasked⟩
    · exact hdead
  | dispose => simpa [dispatch, hphase] using hdead

theorem sound_step {r : Remote} (h : Sound r) (st : RemoteStep) : Sound (r.step st) :=
  sound_settle ⟨watched_dispatch h.watched st, lives_dispatch h.lives st, mute_dispatch h.mute st,
    dead_dispatch h st⟩

theorem Reaches.sound (h : Reaches id m phase) : Sound ⟨m.bare, phase⟩ := by
  obtain ⟨first, hfirst, rs, hrs⟩ := h
  have hrun : Sound (rs.foldl Remote.step ⟨first, .alive⟩) :=
    (always_of_step (E := fun _ => True) (I := Sound) (fun _ st _ hr => sound_step hr st)
      (sound_begins hfirst) fun _ _ => trivial).last
  rw [hrs] at hrun
  exact hrun

theorem Reaches.finalized (h : Reaches id m phase) : m.finalized = true ↔ phase = .disposed :=
  h.sound.lives

theorem Reaches.dead (h : Reaches id m .disposed) : m.Dead := by
  have hdead := h.sound.dead rfl
  exact ⟨hdead.down, hdead.unwatched, hdead.mute, hdead.disconnected, hdead.unasked⟩

theorem Reaches.dispose (h : Reaches id m .alive) : Reaches id m.dispose .disposed := by
  have hlive : m.bare.finalized = false :=
    Bool.eq_false_iff.mpr fun hf => absurd (h.finalized.mp hf) (by simp)
  refine h.run [.dispose, .event .childDown] ?_
  rw [SessionRemote.bare_dispose]
  exact dispose_eq m.bare h.sound.watched hlive

end Remote

namespace Seat

variable {Looked : String → ℕ → Prop} {C : Option ObserverRef → Prop} {cfg : Config} {sys : Sys}
  {id : String} {emitter : Option SessionRef} {st : SeatStep} {s s' : Seat}

/-- Somebody has a reference to the handle: the seat, or the emission that is being handled. -/
def Owned (emitter : Option SessionRef) (s : Seat) (x : SessionRef) : Prop :=
  s.session = some x ∨ emitter = some x

theorem owned_none {x : SessionRef} : s.Owned none x ↔ s.session = some x := by simp [Owned]

/-! ## The machine of a handle -/

/-- The handle of the session is alive, and every other one was disposed of. -/
def HandlesReach (id : String) (s : Seat) : Prop :=
  ∀ x, x < s.sessions.next →
    Remote.Reaches id (s.sessions.get x) (if s.session = some x then .alive else .disposed)

/-- The handles that somebody has a reference to are alive, and every other one was disposed
of. -/
structure Runs (id : String) (emitter : Option SessionRef) (s : Seat) : Prop where
  owned : ∀ x, s.Owned emitter x →
    x < s.sessions.next ∧ Remote.Reaches id (s.sessions.get x) .alive
  left : ∀ x, x < s.sessions.next → ¬ s.Owned emitter x →
    Remote.Reaches id (s.sessions.get x) .disposed

theorem Runs.handlesReach (h : s.Runs id none) : s.HandlesReach id := by
  intro x hx
  split
  · exact (h.owned x (.inl ‹_›)).2
  · rename_i hsession
    exact h.left x hx fun howned => hsession (owned_none.mp howned)

/-- A new handle that nobody keeps joins those of a seat without a session. -/
theorem Runs.alloc {m : SessionRemote} (h : s.Runs id emitter) (hs : s.session = none)
    (hs' : s'.session = none) (heq : s'.sessions = s.sessions.alloc m)
    (hm : Remote.Reaches id m .disposed) : s'.Runs id emitter := by
  have howned : ∀ x, s'.Owned emitter x → s.Owned emitter x := by
    intro x hx
    rcases hx with hx | hx
    · simp [hs'] at hx
    · exact .inr hx
  refine ⟨fun x hx => ?_, fun x hx hnot => ?_⟩
  · obtain ⟨hlt, hreach⟩ := h.owned x (howned x hx)
    rw [heq, Store.get_alloc_ne _ _ (Nat.ne_of_lt hlt)]
    exact ⟨Nat.lt_succ_of_lt hlt, hreach⟩
  · rw [heq] at hx ⊢
    rw [Store.get_alloc]
    split
    · exact hm
    · rename_i hne
      refine h.left x (Nat.lt_of_le_of_ne (Nat.le_of_lt_succ hx) hne) fun hold => hnot ?_
      rcases hold with hold | hold
      · simp [hs] at hold
      · exact .inr hold

theorem does_runs (h : Does C cfg sys id emitter s s') (hr : s.Runs id emitter) :
    s'.Runs id emitter := by
  induction h with
  | trans _ _ ih ih' => exact ih' (ih hr)
  | @same s s' h =>
    refine ⟨fun x hx => ?_, fun x hx hnot => ?_⟩
    · rw [Owned, h.session] at hx
      obtain ⟨hlt, hreach⟩ := hr.owned x hx
      exact ⟨by rwa [h.next], hreach.goes (h.handles x) fun _ => rfl⟩
    · rw [h.next] at hx
      rw [Owned, h.session] at hnot
      exact (hr.left x hx hnot).goes (h.handles x) fun hc => absurd (.inl hc) hnot
  | say => exact ⟨hr.owned, hr.left⟩
  | login => exact ⟨hr.owned, hr.left⟩
  | logout => exact ⟨hr.owned, hr.left⟩
  | start s args service u uid hs =>
    have hfresh : Remote.Reaches id (freshRemote id service (some u)) .alive :=
      .begin (.connected service (some u) true)
    refine ⟨fun x hx => ?_, fun x hx hnot => ?_⟩
    · rcases hx with hx | hx
      · obtain rfl := Option.some.inj hx
        refine ⟨Nat.lt_succ_self _, ?_⟩
        change Remote.Reaches id ((s.sessions.alloc _).get s.sessions.next) .alive
        rw [Store.get_alloc_self]
        exact hfresh
      · obtain ⟨hlt, hreach⟩ := hr.owned x (.inr hx)
        refine ⟨Nat.lt_succ_of_lt hlt, ?_⟩
        change Remote.Reaches id ((s.sessions.alloc _).get x) .alive
        rw [Store.get_alloc_ne _ _ (Nat.ne_of_lt hlt)]
        exact hreach
    · have hne : x ≠ s.sessions.next := fun h => hnot (.inl (congrArg some h.symm))
      change Remote.Reaches id ((s.sessions.alloc _).get x) .disposed
      rw [Store.get_alloc_ne _ _ hne]
      refine hr.left x (Nat.lt_of_le_of_ne (Nat.le_of_lt_succ hx) hne) fun hold => hnot ?_
      rcases hold with hold | hold
      · simp [hs] at hold
      · exact .inr hold
  | spoil s hs =>
    have hspawned : Remote.Reaches id .spawned .alive := .begin .spawned
    exact hr.alloc hs hs rfl hspawned.dispose
  | fail s args service user hs =>
    have hconnected : Remote.Reaches id (SessionRemote.spawned.connect id service user) .alive :=
      .begin (.connected service user false)
    exact hr.alloc hs rfl rfl hconnected.dispose
  | close s x hs hemitter =>
    refine ⟨fun y hy => ?_, fun y hy hnot => ?_⟩
    · have hold : s.Owned emitter y := hy.elim (fun h => by cases h) .inr
      obtain ⟨hlt, hreach⟩ := hr.owned y hold
      refine ⟨hlt, ?_⟩
      change Remote.Reaches id ((s.sessions.set x _).get y) .alive
      rw [Store.get_set]
      split
      · rename_i hyx
        rw [hyx] at hreach
        exact hreach
      · exact hreach
    · have hyx : y ≠ x := fun h => hnot (.inr (h ▸ hemitter))
      change Remote.Reaches id ((s.sessions.set x _).get y) .disposed
      rw [Store.get_set_ne _ _ hyx]
      refine hr.left y hy fun hold => hnot ?_
      rcases hold with hold | hold
      · exact absurd (Option.some.inj (hold.symm.trans hs)) hyx
      · exact .inr hold
  | drop => exact ⟨hr.owned, hr.left⟩
  | dropPrev => exact ⟨hr.owned, hr.left⟩

/-- The last reference to a handle goes. -/
theorem Runs.dispose {x : SessionRef} {m : SessionRemote} (h : s.Runs id emitter)
    (hx : s.Owned emitter x) (hs' : s'.session ≠ some x)
    (howned : ∀ y, y ≠ x → (s'.Owned none y ↔ s.Owned emitter y))
    (heq : s'.sessions = s.sessions.set x m)
    (hm : Remote.Reaches id (s.sessions.get x) .alive → Remote.Reaches id m .disposed) :
    s'.Runs id none := by
  refine ⟨fun y hy => ?_, fun y hy hnot => ?_⟩
  · have hyx : y ≠ x := by
      rintro rfl
      rcases hy with hy | hy
      · exact hs' hy
      · cases hy
    rw [heq, Store.get_set_ne _ _ hyx]
    exact h.owned y ((howned y hyx).mp hy)
  · rw [heq] at hy ⊢
    rw [Store.get_set]
    split
    · exact hm (h.owned x hx).2
    · rename_i hyx
      exact h.left y hy fun hold => hnot ((howned y hyx).mpr hold)

/-- A handle that nobody has a reference to stays disposed of, whatever it hears. -/
theorem Runs.stale (h : s.Runs id none) {x : SessionRef} (hx : s.session ≠ some x)
    (e : SessionEvent) : (s.setSession x ((s.sessions.get x).handle e).1).Runs id none := by
  refine ⟨fun y hy => ?_, fun y hy hnot => ?_⟩
  · have hyx : y ≠ x := by
      rintro rfl
      exact hx (owned_none.mp hy)
    obtain ⟨hlt, hreach⟩ := h.owned y hy
    refine ⟨hlt, ?_⟩
    change Remote.Reaches id ((s.sessions.set x _).get y) .alive
    rw [Store.get_set_ne _ _ hyx]
    exact hreach
  · have hold := h.left y hy hnot
    change Remote.Reaches id ((s.sessions.set x _).get y) .disposed
    rw [Store.get_set]
    split
    · rename_i hyx
      rw [hyx] at hold
      exact hold.heard (by simp) e
    · exact hold

/-- The handle of the session hears something, and its emission has a reference then. -/
theorem Runs.heard (h : s.Runs id none) {x : SessionRef} (hx : s.session = some x)
    (e : SessionEvent) : (s.setSession x ((s.sessions.get x).handle e).1).Runs id (some x) := by
  have hsame : ∀ y, (s.setSession x ((s.sessions.get x).handle e).1).Owned (some x) y ↔
      s.Owned none y := by
    intro y
    simp [Owned, setSession, hx]
  refine ⟨fun y hy => ?_, fun y hy hnot => ?_⟩
  · obtain ⟨hlt, hreach⟩ := h.owned y ((hsame y).mp hy)
    refine ⟨hlt, ?_⟩
    change Remote.Reaches id ((s.sessions.set x _).get y) .alive
    rw [Store.get_set]
    split
    · rename_i hyx
      rw [hyx] at hreach
      exact hreach.heard (by simp) e
    · exact hreach
  · have hold := h.left y hy fun h => hnot ((hsame y).mpr h)
    have hyx : y ≠ x := fun h => hnot (.inr (congrArg some h.symm))
    change Remote.Reaches id ((s.sessions.set x _).get y) .disposed
    rw [Store.get_set_ne _ _ hyx]
    exact hold

/-- The emission lets go of its handle. -/
theorem Runs.released {x : SessionRef} (h : s.Runs id (some x)) : (s.released x).Runs id none := by
  simp only [Seat.released]
  split
  · rename_i hsession
    have hsame : ∀ y, s.Owned none y ↔ s.Owned (some x) y := by
      intro y
      simp [Owned, hsession]
    exact ⟨fun y hy => h.owned y ((hsame y).mp hy),
      fun y hy hnot => h.left y hy fun h => hnot ((hsame y).mpr h)⟩
  · rename_i hsession
    refine h.dispose (x := x) (m := (s.sessions.get x).dispose) (.inr rfl) hsession
      (fun z hz => ?_) rfl fun h => h.dispose
    have hxz : ¬ x = z := fun h => hz h.symm
    simp [Owned, disposeSession, setSession, hxz]

theorem ends_runs (h : Ends C id st s s') (hr : s.Runs id none) : s'.Runs id none := by
  cases h with
  | stays hdoes => exact does_runs hdoes hr
  | @gone t hdoes =>
    have hruns := does_runs hdoes hr
    rcases ht : t.session with _ | y
    · have hnot : ∀ x, ¬ t.Owned none x := fun x => by simp [Owned, ht]
      refine ⟨fun x hx => absurd hx (by simp [Owned]), fun x hx _ => ?_⟩
      simp only [lastSessions, ht] at hx ⊢
      exact hruns.left x hx (hnot x)
    · refine hruns.dispose (x := y) (m := closedRemote (t.sessions.get y)) (.inl ht) (by simp)
        (fun z hz => ?_) (by simp only [lastSessions, ht]) fun h => ?_
      · have hzy : ¬ y = z := fun h => hz h.symm
        simp [Owned, ht, hzy]
      · have hbare : Remote.Reaches id (t.sessions.get y).bare .alive := h
        exact hbare.dispose
  | stale x e _ hx => exact hr.stale hx e
  | emission x e _ hx hdoes => exact (does_runs hdoes (hr.heard hx e)).released

/-- What an emission leaves, before it lets go of its handle. -/
theorem emission_runs (h : s.Linked Looked) (hid : s.id = id) (hr : s.Runs id none) (cfg : Config)
    (sys : Sys) (x : SessionRef) (e : SessionEvent) :
    (s.emission cfg sys x e).Runs id none ∨ (s.emission cfg sys x e).Runs id (some x) := by
  by_cases hx : s.session = some x
  · have hheard := hr.heard hx e
    rcases emission_current h hx cfg sys e with ⟨-, heq⟩ | ⟨g, -, heq⟩
    · rw [heq]
      exact .inr hheard
    · have hdoes : Does (fun _ => True) cfg sys id (some x)
          (s.setSession x ((s.sessions.get x).handle e).1)
          ((s.setSession x ((s.sessions.get x).handle e).1).runHandler cfg sys x g) :=
        runHandler_does (s := s.setSession x ((s.sessions.get x).handle e).1) hid trivial hx g
      rw [heq]
      exact .inr (does_runs hdoes hheard)
  · have hevent : s.emission cfg sys x e = s.sessionEvent cfg sys x e := by
      rw [sessionEvent, if_neg hx]
    rw [hevent, sessionEvent_stale h hx]
    exact .inl (hr.stale hx e)

/-! ## Runs -/

/-- What a run keeps of the handles of a seat. -/
structure Tended (Looked : String → ℕ → Prop) (id : String) (s : Seat) : Prop where
  wf : s.Wf Looked
  name : s.id = id
  runs : s.Runs id none

theorem run_tended (id : String) (sts : List SeatStep) :
    ((Seat.new id).run sts).Tended (LookedUp sts) id := by
  have hstep : ∀ (s : Seat) (st : SeatStep), st ∈ sts → s.Tended (LookedUp sts) id →
      (s.step st).Tended (LookedUp sts) id := by
    rintro s st hst ⟨hw, rfl, hr⟩
    have hends : Ends (fun _ => True) s.id st s (s.step st) :=
      step_ends hw.toLinked trivial fun _ _ => trivial
    exact ⟨step_wf hw fun u n hu => ⟨st, hst, hu⟩, (step_frame s st).1, ends_runs hends hr⟩
  have hruns : (Seat.new id).Runs id none :=
    ⟨fun x hx => absurd (owned_none.mp hx) (by simp [new]),
      fun _ hx => absurd hx (Nat.not_lt_zero _)⟩
  exact (always_of_step hstep ⟨wf_new id, rfl, hruns⟩ fun _ hst => hst).last

/-- **A seat has one session process at most**, that of its session: of all the handles there
ever were, in every state of every run, the child is up, and watched, exactly of the handle of
the session; and finalized are exactly the others, which were dead by then and have nobody who
listens to them. Only while an event of a handle is handled, the child of that handle may be
there besides that of the session, which may be the next one already. -/
theorem run_processes (id : String) (sts : List SeatStep) :
    let s := (Seat.new id).run sts
    (∀ x, x < s.sessions.next →
      ((s.sessions.get x).isSessiondUp = true ↔ s.session = some x) ∧
      ((s.sessions.get x).childWatch = true ↔ s.session = some x) ∧
      ((s.sessions.get x).finalized = true ↔ s.session ≠ some x) ∧
      (s.session ≠ some x → (s.sessions.get x).Dead ∧ (s.sessions.get x).handlers = [])) ∧
    ∀ cfg sys x e, let s' := s.emission cfg sys x e
      ∀ y, y < s'.sessions.next → (s'.sessions.get y).isSessiondUp = true →
        s'.session = some y ∨ y = x := by
  intro s
  obtain ⟨hw, hname, hr⟩ := run_tended id sts
  refine ⟨fun x hx => ?_, ?_⟩
  · by_cases hsession : s.session = some x
    · obtain ⟨hup, hwatch, -, hlive⟩ := hw.live x hsession
      exact ⟨iff_of_true hup hsession, iff_of_true hwatch hsession,
        iff_of_false (by simp [s, hlive]) fun h => h hsession, fun h => absurd hsession h⟩
    · have hleft := hr.left x hx fun howned => hsession (owned_none.mp howned)
      have hdead := hleft.dead
      have hhandlers : (s.sessions.get x).handlers = [] := (hw.handlers x).trans (if_neg hsession)
      exact ⟨iff_of_false (Bool.eq_false_iff.mp hdead.down) hsession,
        iff_of_false (Bool.eq_false_iff.mp hdead.unwatched) hsession,
        iff_of_true (hleft.finalized.mpr rfl) hsession, fun _ => ⟨hdead, hhandlers⟩⟩
  · intro cfg sys x e s' y hy hup
    have hdown : ∀ {emitter}, s'.Runs id emitter → s'.Owned emitter y := by
      intro emitter hruns
      by_contra hnot
      rw [(hruns.left y hy hnot).dead.down] at hup
      cases hup
    rcases emission_runs hw.toLinked hname hr cfg sys x e with h | h
    · exact .inl (owned_none.mp (hdown h))
    · exact (hdown h).imp_right fun h => (Option.some.inj h).symm

/-- **Every handle of a seat runs the machine of a handle**, in every run of the seat: what it is
is where some run of `Remote` ends, from a handle whose child has just been started. The machine
is still alive for the handle of the session. For every other one it is behind its wait loop, and
the child has gone. -/
theorem run_handles (id : String) (sts : List SeatStep) :
    ((Seat.new id).run sts).HandlesReach id := (run_tended id sts).runs.handlesReach

/-! ## One end per session -/

/-- A dispatch runs a callback on a handle that was finalized. -/
def Dangles (s : Seat) (st : SeatStep) : Prop :=
  s.refs ≠ 0 ∧ ∃ x e, st.event = .session x e ∧ (s.sessions.get x).Dangles e

/-- No callback has run on a finalized handle, so it is known what has happened. -/
def Defined (s : Seat) : Prop := ∀ x, (s.sessions.get x).dangled = false

/-- Each handle has closed the seat's session at most once, and has caused one relogin at most. -/
def EndsOnce (s : Seat) : Prop :=
  ∀ x, s.trace.count (.closed x) ≤ 1 ∧ s.trace.count (.relogin x) ≤ 1

/-- What a handle hears that is not the current one changes neither session nor observers nor the
pending switch nor the default-user flag. -/
def Unmoved (s : Seat) (st : SeatStep) : Prop :=
  ∀ x e, st.event = .session x e → s.session ≠ some x →
    let s' := s.step st
    s'.session = s.session ∧ s'.dbusObserver = s.dbusObserver ∧
      s'.prevDbusObserver = s.prevDbusObserver ∧ s'.observers = s.observers ∧
      s'.next = s.next ∧ s'.defaultActive = s.defaultActive

theorem defined_set {x : SessionRef} {m : SessionRemote} (hd : s.Defined)
    (heq : s'.sessions = s.sessions.set x m) (hm : m.dangled = false) : s'.Defined := by
  intro y
  rw [heq, Store.get_set]
  split
  · exact hm
  · exact hd y

theorem defined_alloc {m : SessionRemote} (hd : s.Defined)
    (heq : s'.sessions = s.sessions.alloc m) (hm : m.dangled = false) : s'.Defined := by
  intro y
  rw [heq, Store.get_alloc]
  split
  · exact hm
  · exact hd y

/-- A seat by itself runs no callback. -/
theorem does_defined (h : Does C cfg sys id emitter s s') (hd : s.Defined) : s'.Defined := by
  induction h with
  | trans _ _ ih ih' => exact ih' (ih hd)
  | same h => exact fun x => (h.handles x).dangled.trans (hd x)
  | say => exact hd
  | login => exact hd
  | logout => exact hd
  | start => exact defined_alloc hd rfl rfl
  | spoil => exact defined_alloc hd rfl (by simp [SessionRemote.spawned])
  | fail =>
    exact defined_alloc hd rfl (by simp [SessionRemote.connect, SessionRemote.spawned])
  | close s x => exact defined_set hd rfl (hd x)
  | drop => exact hd
  | dropPrev => exact hd

theorem released_defined (hd : s.Defined) (x : SessionRef) : (s.released x).Defined := by
  simp only [released]
  split
  · exact hd
  · exact defined_set hd rfl (by rw [SessionRemote.dispose_dangled]; exact hd x)

/-- What a handle hears leaves all defined exactly if it does not dangle. -/
theorem heard_defined (hd : s.Defined) (x : SessionRef) (e : SessionEvent) :
    (s.setSession x ((s.sessions.get x).handle e).1).Defined ↔
      ¬ (s.sessions.get x).Dangles e := by
  have hget : ((s.setSession x ((s.sessions.get x).handle e).1).sessions.get x).dangled =
      decide ((s.sessions.get x).Dangles e) := by
    change ((s.sessions.set x _).get x).dangled = _
    rw [Store.get_set_self, SessionRemote.handle_dangled, hd x, Bool.false_or]
  constructor
  · intro hdef hbad
    have hx := hdef x
    rw [hget, decide_eq_true hbad] at hx
    cases hx
  · intro hsafe
    refine defined_set hd rfl ?_
    rw [SessionRemote.handle_dangled, hd x, Bool.false_or, decide_eq_false hsafe]

theorem ends_defined (h : Ends C id st s s') (hd : s.Defined)
    (hsafe : ∀ x e, st.event = .session x e → ¬ (s.sessions.get x).Dangles e) : s'.Defined := by
  cases h with
  | stays hdoes => exact does_defined hdoes hd
  | @gone t hdoes =>
    have hdef := does_defined hdoes hd
    intro x
    change (t.lastSessions.get x).dangled = false
    rcases ht : t.session with _ | y
    · simp only [lastSessions, ht]
      exact hdef x
    · have hclosed : (closedRemote (t.sessions.get y)).dangled = false := by
        rw [closedRemote, SessionRemote.dispose_dangled]
        exact hdef y
      simp only [lastSessions, ht]
      rw [Store.get_set]
      split
      · exact hclosed
      · exact hdef x
  | stale x e hst _ => exact (heard_defined hd x e).mpr (hsafe x e hst)
  | emission x e hst _ hdoes =>
    exact released_defined (does_defined hdoes ((heard_defined hd x e).mpr (hsafe x e hst))) x

/-- **A dispatch leaves all defined exactly if it does not dangle.** A handle that dangles is not
that of the session, so nothing else happens then. -/
theorem step_defined (hw : s.Wf Looked) (hd : s.Defined) (st : SeatStep) :
    (s.step st).Defined ↔ ¬ s.Dangles st := by
  constructor
  · rintro hdef ⟨hrefs, x, e, hst, hbad⟩
    have hx : s.session ≠ some x := by
      intro hx
      have hlive := (hw.live x hx).2.2.2
      rw [hbad.1] at hlive
      cases hlive
    have hstep : s.step st = s.setSession x ((s.sessions.get x).handle e).1 := by
      rw [step, if_neg hrefs, dispatch, hst]
      exact sessionEvent_stale hw.toLinked hx e
    rw [hstep] at hdef
    exact (heard_defined hd x e).mp hdef hbad
  · intro hsafe
    by_cases hrefs : s.refs = 0
    · rw [step, if_pos hrefs]
      exact hd
    · have hends : Ends (fun _ => True) s.id st s (s.step st) :=
        step_ends hw.toLinked trivial fun _ _ => trivial
      exact ends_defined hends hd fun x e hst hbad => hsafe ⟨hrefs, x, e, hst, hbad⟩

theorem step_unmoved (hl : s.Linked Looked) (st : SeatStep) : s.Unmoved st := by
  rintro x e hst hx s'
  simp only [s', step]
  split
  · exact ⟨rfl, rfl, rfl, rfl, rfl, rfl⟩
  · rw [dispatch, hst]
    simp only [sessionEvent_stale hl hx]
    exact ⟨rfl, rfl, rfl, rfl, rfl, rfl⟩

/-- **One end per session**, exactly as long as no callback comes for a handle that was finalized:
the late reply of a create call, or a tick of a timer that was lost. Then, whatever the
interleaving of the events of all handles ever created, each handle closes the seat's session at
most once and causes at most one relogin; and an event of a handle that is not the current one
changes neither session nor observers nor the pending switch nor the default-user flag. -/
theorem run_one_end (id : String) (sts : List SeatStep) :
    (Always step (fun s => s.Defined ∧ s.EndsOnce) (Seat.new id) sts ∧
      Along step Unmoved (Seat.new id) sts) ↔
    Along step (fun s st => ¬ s.Dangles st) (Seat.new id) sts := by
  have hwf := always_wf id sts
  have hends : Always step EndsOnce (Seat.new id) sts :=
    (always_oneEnd id sts).imp fun s h x => ⟨h.closed x, (h.relogin x).trans (h.closed x)⟩
  have hdefined : Always step Defined (Seat.new id) sts ↔
      Along step (fun s st => ¬ s.Dangles st) (Seat.new id) sts := by
    refine always_iff_along (E := (· ∈ sts)) (I := Wf (LookedUp sts))
      (fun s st hst hw hd => ⟨?_, step_defined hw hd st⟩) (wf_new id) (fun _ => rfl)
      fun _ hst => hst
    exact step_wf hw fun u n hu => ⟨st, hst, hu⟩
  constructor
  · rintro ⟨h, -⟩
    exact hdefined.mp (h.imp fun _ hs => hs.1)
  · intro h
    exact ⟨(hdefined.mpr h).and hends, hwf.along fun s st hs => step_unmoved hs.toLinked st⟩

/-- The child of a session exits before the create call has been answered. The seat closes the
session and goes on with the next one; when the call then fails for want of a child, its callback
runs on the handle that has gone. -/
theorem run_late_reply :
    let cfg := Config.ofGeneral fun _ => none
    let sts : List SeatStep := [loginStep cfg (some "bob") 5000000,
      ⟨cfg, { now := 9000000, getUid := fun _ => some 1000 }, .session 0 .childDown⟩,
      ⟨cfg, { now := 9000000 }, .session 0 (.createReply (some 18))⟩]
    ((Seat.new "seat0").run (sts.take 2)).session = some 1 ∧
      ¬ (Always step (fun s => s.Defined ∧ s.EndsOnce) (Seat.new "seat0") sts ∧
        Along step Unmoved (Seat.new "seat0") sts) := by
  intro cfg sts
  refine ⟨by decide, ?_⟩
  rintro ⟨h, -⟩
  have hdangled : (((Seat.new "seat0").run sts).sessions.get 0).dangled = true := by decide
  have hdefined := h.last.1 0
  rw [run] at hdangled
  rw [hdangled] at hdefined
  cases hdefined

end Seat

end Tlm
