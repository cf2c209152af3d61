import Tlm.SeatAnswer

/-!
# What a failed start leaves behind

`tlm_seat_create_session` changes the seat in stages: it puts the default user
in charge, takes the new session, hands the observer over, and only then learns
whether the new observer came up. Each exit undoes the session pointer and
nothing else. `Kept` is what a failed call ought to leave alone, `Mars` the
calls that leave a mark, and `run_failed_start` says that these are exactly the
ones that do.
-/

namespace Tlm

namespace Seat

variable {cfg : Config} {sys : Sys} {args : LoginArgs} {s : Seat}

/-- What a failed start ought to leave as it was. -/
structure Kept (s s' : Seat) : Prop where
  /-- the session -/
  session : s'.session = s.session
  /-- its observer -/
  dbusObserver : s'.dbusObserver = s.dbusObserver
  /-- the observer of the session before -/
  prevDbusObserver : s'.prevDbusObserver = s.prevDbusObserver
  /-- whether the default user is in charge -/
  defaultActive : s'.defaultActive = s.defaultActive
  /-- the pending switch -/
  next : s'.next = s.next

/-- A call with `args` puts the default user in charge: it names nobody, the
default user is known or configured, and was not in charge before. -/
def Activates (cfg : Config) (args : LoginArgs) (s : Seat) : Prop :=
  args.username = none ∧ s.defaultActive = false ∧
    (s.defaultUser.isSome = true ∨ (nameTemplate cfg s.id).isSome = true)

/-- A failing start that leaves a mark: it has put the default user in charge, or
it gets as far as the new observer on a seat that still has an old one. -/
def Mars (cfg : Config) (sys : Sys) (args : LoginArgs) (s : Seat) : Prop :=
  s.Activates cfg args ∨
    (sys.spawns = true ∧ sys.proxies = true ∧
      (s.dbusObserver.isSome = true ∨ s.prevDbusObserver.isSome = true))

/-- The flag of the default user changes exactly when a call activates it. -/
theorem selectUser_defaultActive (cfg : Config) (args : LoginArgs) (s : Seat) :
    (s.selectUser cfg args).defaultActive = s.defaultActive ↔ ¬ s.Activates cfg args := by
  rcases hu : args.username with _ | u
  · simp only [selectUser, activateDefaultUser, hu, Option.isSome_none, Bool.false_eq_true,
      if_false, Activates, true_and]
    rcases hd : s.defaultUser with _ | d
    · rcases hn : nameTemplate cfg s.id with _ | tmpl
      · simp
      · simp [emit]
    · simp [hd, emit]
  · rw [selectUser_some hu]
    simp [Activates, hu]

/-- A start that fails before there is a session. -/
theorem startSession_kept_noRemote (hr : ¬ (sys.spawns = true ∧ sys.proxies = true)) :
    s.Kept (s.startSession cfg sys args).1 ↔ ¬ s.Activates cfg args := by
  obtain ⟨du, da, acts, -, hsel⟩ := selectUser_frame cfg args s
  have hactive := selectUser_defaultActive cfg args s
  have heq : ∃ ss tr, (s.startSession cfg sys args).1 =
      { s.selectUser cfg args with sessions := ss, trace := tr } := by
    cases hsp : sys.spawns with
    | false => exact ⟨_, _, by rw [startSession_noSpawn hsp]⟩
    | true =>
      have hp : sys.proxies = false := by
        simpa [hsp] using hr
      exact ⟨_, _, by rw [startSession_noProxy hsp hp]⟩
  obtain ⟨ss, tr, heq⟩ := heq
  rw [heq, ← hactive]
  refine ⟨fun h => h.defaultActive, fun h => ⟨?_, ?_, ?_, h, ?_⟩⟩ <;> simp [hsel, Seat.next]

/-- A start that fails at the new observer. -/
theorem startSession_kept_noObserver (hs : s.session = none) (hsp : sys.spawns = true)
    (hp : sys.proxies = true) (hcan : ¬ CanStart sys (s.loginUser cfg args)) :
    s.Kept (s.startSession cfg sys args).1 ↔
      ¬ s.Activates cfg args ∧ s.dbusObserver = none ∧ s.prevDbusObserver = none := by
  obtain ⟨du, da, acts, -, hsel⟩ := selectUser_frame cfg args s
  have hactive := selectUser_defaultActive cfg args s
  have hno : ((s.selectUser cfg args).sessionUser args.username).bind sys.getUid = none ∨
      sys.serves = false := by
    by_contra hne
    obtain ⟨huid, hserves⟩ := not_or.mp hne
    exact hcan ⟨hsp, hp, Option.ne_none_iff_exists'.mp huid, by simpa using hserves⟩
  rw [startSession_noObserver hsp hp hno, ← hactive]
  constructor
  · intro h
    have hd : s.dbusObserver = none := h.dbusObserver.symm
    have hprev : (s.selectUser cfg args).dbusObserver = s.prevDbusObserver := h.prevDbusObserver
    have hsame : (s.selectUser cfg args).dbusObserver = s.dbusObserver := by rw [hsel]
    exact ⟨h.defaultActive, hd, by rw [← hprev, hsame, hd]⟩
  · rintro ⟨h, hd, hprev⟩
    refine ⟨hs.symm, hd.symm, ?_, h, ?_⟩
    · rw [hprev]
      simp [hsel, hd]
    · simp [hsel, Seat.next]

/-- A failing start keeps what it ought to exactly when it leaves no mark. -/
theorem startSession_kept (hs : s.session = none) (hcan : ¬ CanStart sys (s.loginUser cfg args)) :
    s.Kept (s.startSession cfg sys args).1 ↔ ¬ s.Mars cfg sys args := by
  by_cases hr : sys.spawns = true ∧ sys.proxies = true
  · obtain ⟨hsp, hp⟩ := hr
    rw [startSession_kept_noObserver hs hsp hp hcan]
    simp [Mars, hsp, hp]
  · rw [startSession_kept_noRemote hr]
    have hmars : s.Mars cfg sys args ↔ s.Activates cfg args := by
      refine ⟨?_, Or.inl⟩
      rintro (h | ⟨hsp, hp, -⟩)
      · exact h
      · exact absurd ⟨hsp, hp⟩ hr
    rw [hmars]

/-- A failing call keeps what it ought to exactly when it is refused at once or
leaves no mark. -/
theorem createSession_kept (cfg : Config) (sys : Sys) (args : LoginArgs) (s : Seat) :
    ((s.createSession cfg sys args).2 = false → s.Kept (s.createSession cfg sys args).1) ↔
      (s.session = none → (s.throttle sys).2 = false → ¬ CanStart sys (s.loginUser cfg args) →
        ¬ s.Mars cfg sys args) := by
  have hok := createSession_ok cfg sys args s
  rcases createSession_cases cfg sys args s with
    ⟨hs, heq⟩ | ⟨hs, hth, c, heq⟩ | ⟨hs, hth, c, heq⟩
  · -- refused: only the refusal is announced
    rw [heq]
    refine ⟨fun _ hn => ?_, fun _ _ => ⟨rfl, rfl, rfl, rfl, rfl⟩⟩
    rw [hn] at hs
    cases hs
  · rw [heq]
    refine ⟨fun _ _ hth' => ?_, fun _ h => (by cases h)⟩
    rw [hth] at hth'
    cases hth'
  · -- let through: the throttle's fields are none of those to be kept
    by_cases hcan : CanStart sys (s.loginUser cfg args)
    · have htrue : (s.createSession cfg sys args).2 = true := hok.mpr ⟨hs, Or.inr hcan⟩
      rw [htrue]
      exact ⟨fun _ _ _ h => absurd hcan h, fun _ h => (by cases h)⟩
    · have hfalse : (s.createSession cfg sys args).2 = false := by
        rw [← Bool.not_eq_true, hok]
        rintro ⟨-, h | h⟩
        · rw [hth] at h
          cases h
        · exact hcan h
      have hlogin : ({ s with prevTime := sys.now, prevCount := c } : Seat).loginUser cfg args =
          s.loginUser cfg args := loginUser_congr rfl rfl rfl
      have hstart := startSession_kept (s := { s with prevTime := sys.now, prevCount := c })
        hs (hlogin.symm ▸ hcan)
      rw [hfalse, heq]
      constructor
      · intro h _ _ _ hmars
        obtain ⟨h₁, h₂, h₃, h₄, h₅⟩ := h rfl
        exact hstart.mp ⟨h₁, h₂, h₃, h₄, h₅⟩ hmars
      · intro h _
        obtain ⟨h₁, h₂, h₃, h₄, h₅⟩ := hstart.mpr (h hs hth hcan)
        exact ⟨h₁, h₂, h₃, h₄, h₅⟩

/-- **A failed start and the seat it leaves**: on every seat that a run can
reach, a call of `tlm_seat_create_session` that returns `FALSE` leaves session,
observers, default flag and pending switch as they were exactly when it is not
a start that leaves a mark. Of the two marks the one on the observers needs a
seat that the manager is stopping; on any other, the flag of the default user
is the only thing that can be left behind. -/
theorem run_failed_start (id : String) (sts : List SeatStep) (cfg : Config) (sys : Sys)
    (args : LoginArgs) :
    let s := (Seat.new id).run sts
    (((s.createSession cfg sys args).2 = false → s.Kept (s.createSession cfg sys args).1) ↔
      (s.session = none → (s.throttle sys).2 = false → ¬ CanStart sys (s.loginUser cfg args) →
        ¬ s.Mars cfg sys args)) ∧
    (s.stopFired = false → s.session = none →
      (s.Mars cfg sys args ↔ s.Activates cfg args)) := by
  intro s
  refine ⟨createSession_kept cfg sys args s, fun hf hs => ⟨?_, Or.inl⟩⟩
  have hwf : s.Wf (LookedUp sts) := run_wf id sts
  obtain ⟨hobs, hprev⟩ := (hwf.noSession hs).2 hf
  rintro (h | ⟨-, -, h | h⟩)
  · exact h
  · rw [hobs] at h
    cases h
  · rw [hprev] at h
    cases h

/-- A new seat whose first login, for the default user, cannot spawn its child is
left with the default user in charge. -/
theorem failed_default_login :
    let s := Seat.new "seat0"
    let cfg := Config.ofGeneral fun _ => none
    let call := s.createSession cfg { now := 5000000, spawns := false } {}
    call.2 = false ∧ ¬ s.Kept call.1 := by
  intro s cfg call
  refine ⟨rfl, fun h => ?_⟩
  have hactive : call.1.defaultActive = true := rfl
  have hbefore : s.defaultActive = false := rfl
  rw [h.defaultActive, hbefore] at hactive
  cases hactive

end Seat

end Tlm
