import Mathlib.Data.List.Induction
import Tlm.Replay
import Tlm.SeatActs

/-!
# Preparing the default user (`tlm-seat.c`)

When a seat comes to use its default user, it signals `prepare-user-login`, and when the
session of that user is terminated by a request, `prepare-user-logout`. Which user that is
is decided once, from the template that the configuration then has; whether he is the one
who is logged in is kept in `default_active`.

`Prepares` is the automaton of these signals, and `step_prepares` has every dispatch of a
seat follow it. So **the signals of a whole run are in order** (`run_prepares`): all are for
one user, no logout is prepared that has no login of its own before it, and `default_active`
says whether the last signal was the login.
-/

namespace Tlm

/-- One of the two signals. -/
def Act.isPrepare : Act → Bool
  | .prepareUserLogin _ => true
  | .prepareUserLogout _ => true
  | _ => false

/-- What the signals make of the default user and of `default_active`. A name that was not
there before is in `Built`. -/
inductive Prepares (Built : String → Prop) :
    Option String × Bool → Act → Option String × Bool → Prop where
  | login {du : Option String} {active : Bool} {u : String}
      (h : du = some u ∨ du = none ∧ Built u) :
      Prepares Built (du, active) (.prepareUserLogin u) (some u, true)
  | logout {du : Option String} : Prepares Built (du, true) (.prepareUserLogout du) (du, false)
  | other {v : Option String × Bool} {a : Act} (h : a.isPrepare = false) : Prepares Built v a v

/-- The last signal there was is that a login is prepared. -/
def LastLogin (acts : List Act) : Prop :=
  ∃ before u after, acts = before ++ .prepareUserLogin u :: after ∧
    ∀ a ∈ after, a.isPrepare = false

/-! ## Paths of the automaton -/

section Paths

variable {Built : String → Prop} {du : Option String} {u : String} {acts before after : List Act}
  {v v' : Option String × Bool}

/-- A name that is there stays. -/
theorem prepares_user (h : Path (Prepares Built) v acts v') (hv : v.1 = some u) :
    v'.1 = some u := by
  have hkeeps : ∀ v a v', v.1 = some u → Prepares Built v a v' → v'.1 = some u := by
    intro v a v' hv hnext
    cases hnext with
    | login hu =>
      rcases hu with hu | ⟨hu, -⟩
      · rw [← hu]
        exact hv
      · rw [hu] at hv
        cases hv
    | logout => exact hv
    | other _ => exact hv
  exact h.keeps (I := fun v => v.1 = some u) hkeeps hv

/-- There is a name when the default user is active, and it is one in `Built`. -/
theorem prepares_built (h : Path (Prepares Built) (none, false) acts v') :
    (v'.2 = true → v'.1.isSome = true) ∧ ∀ u, v'.1 = some u → Built u := by
  have hkeeps : ∀ v a v', ((v.2 = true → v.1.isSome = true) ∧ ∀ u, v.1 = some u → Built u) →
      Prepares Built v a v' → (v'.2 = true → v'.1.isSome = true) ∧ ∀ u, v'.1 = some u → Built u := by
    intro v a v' hv hnext
    cases hnext with
    | login hu =>
      refine ⟨fun _ => rfl, fun u' hu' => ?_⟩
      rw [← Option.some.inj hu']
      rcases hu with hu | ⟨-, hu⟩
      · exact hv.2 _ hu
      · exact hu
    | logout => exact ⟨fun h => absurd h Bool.false_ne_true, hv.2⟩
    | other _ => exact hv
  refine h.keeps (I := fun v => (v.2 = true → v.1.isSome = true) ∧ ∀ u, v.1 = some u → Built u)
    hkeeps ⟨fun h => absurd h Bool.false_ne_true, fun u h => ?_⟩
  cases h

/-- The default user is active after a login that was not followed by a signal, and after
nothing else. -/
theorem prepares_active (h : Path (Prepares Built) (none, false) acts v') :
    v'.2 = true ↔ LastLogin acts := by
  constructor
  · intro hactive
    induction acts using List.reverseRecOn generalizing v' with
    | nil =>
      cases h
      cases hactive
    | append_singleton acts a ih =>
      obtain ⟨v, v₁, h₁, hnext, h₂⟩ := h.cut
      cases h₂
      cases hnext with
      | login hu => exact ⟨acts, _, [], rfl, fun _ hm => absurd hm List.not_mem_nil⟩
      | logout => cases hactive
      | other ha =>
        obtain ⟨before, u, after, rfl, hafter⟩ := ih h₁ hactive
        refine ⟨before, u, after ++ [a], by rw [List.append_assoc]; rfl, fun b hb => ?_⟩
        rcases List.mem_append.mp hb with hb | hb
        · exact hafter b hb
        · rwa [List.mem_singleton.mp hb]
  · rintro ⟨before, u, after, rfl, hafter⟩
    obtain ⟨v, v₁, -, hnext, h₂⟩ := h.cut
    have hidle : ∀ {acts : List Act}, (∀ a ∈ acts, a.isPrepare = false) → ∀ {v},
        Path (Prepares Built) v acts v' → v'.2 = v.2 := by
      intro acts
      induction acts with
      | nil =>
        intro _ v h
        cases h
        rfl
      | cons a acts ih =>
        intro hacts v h
        obtain ⟨ha, hacts⟩ := List.forall_mem_cons.mp hacts
        cases h with
        | cons hnext hs =>
          rw [ih hacts hs]
          cases hnext with
          | login _ => cases ha
          | logout => cases ha
          | other _ => rfl
    rw [hidle hafter h₂]
    cases hnext with
    | login _ => rfl
    | other ha => cases ha

/-- What the signals say of the default user. -/
theorem prepares_login (h : Path (Prepares Built) (none, false) acts v')
    (hu : Act.prepareUserLogin u ∈ acts) : v'.1 = some u := by
  obtain ⟨before, after, rfl⟩ := List.append_of_mem hu
  obtain ⟨v, v₁, -, hnext, h₂⟩ := h.cut
  cases hnext with
  | login _ => exact prepares_user h₂ rfl
  | other ha => cases ha

theorem prepares_logout
    (h : Path (Prepares Built) (none, false) (before ++ .prepareUserLogout du :: after) v') :
    du.isSome = true ∧ v'.1 = du ∧ LastLogin before := by
  obtain ⟨v, v₁, h₁, hnext, h₂⟩ := h.cut
  cases hnext with
  | logout =>
    have hsome := (prepares_built h₁).1 rfl
    obtain ⟨u, rfl⟩ := Option.isSome_iff_exists.mp hsome
    exact ⟨rfl, prepares_user h₂ rfl, (prepares_active h₁).mp rfl⟩
  | other ha => cases ha

end Paths

namespace Seat

/-- The signals of a seat. -/
def signals (Built : String → Prop) : Recorder Seat Act (Option String × Bool) where
  trace := Seat.trace
  view s := (s.defaultUser, s.defaultActive)
  next := Prepares Built

open Recorder (Replays)

variable {Built : String → Prop} {Looked : String → ℕ → Prop} {cfg : Config} {sys : Sys}
  {s s' : Seat}

/-- No signal, and the default user stays. -/
theorem prepares_none (acts : List Act) (ht : s'.trace = s.trace ++ acts)
    (hu : s'.defaultUser = s.defaultUser) (ha : s'.defaultActive = s.defaultActive)
    (h : ∀ a ∈ acts, a.isPrepare = false) : (signals Built).Replays s s' :=
  .of_idle acts ht (Prod.ext hu ha) fun a hm => .other (h a hm)

theorem prepares_same (ht : s'.trace = s.trace) (hu : s'.defaultUser = s.defaultUser)
    (ha : s'.defaultActive = s.defaultActive) : (signals Built).Replays s s' :=
  .of_eq ht (Prod.ext hu ha)

/-! ## Runs -/

theorem does_prepares {C : Option ObserverRef → Prop} {id : String} {emitter : Option SessionRef}
    (hB : ∀ t, nameTemplate cfg id = some t → Built (buildUserName t id))
    (h : Does C cfg sys id emitter s s') : (signals Built).Replays s s' := by
  induction h with
  | trans _ _ ih ih' => exact ih.trans ih'
  | same h => exact prepares_same h.trace h.defaultUser h.defaultActive
  | say s a ha _ =>
    refine prepares_none [a] rfl rfl rfl fun b hb => ?_
    rw [List.mem_singleton.mp hb]
    cases a <;> first | rfl | cases ha
  | login s u _ hu =>
    refine .of_path [.prepareUserLogin u] rfl (.single (.login ?_))
    rcases hu with hu | ⟨hu, t, ht, rfl⟩
    · exact .inl hu
    · exact .inr ⟨hu, hB t ht⟩
  | logout s hactive =>
    refine .of_path [.prepareUserLogout s.defaultUser] rfl (.single ?_)
    change Prepares Built (s.defaultUser, s.defaultActive) _ (s.defaultUser, false)
    rw [hactive]
    exact .logout
  | start => exact prepares_none _ rfl rfl rfl (by simp [Act.isPrepare])
  | spoil => exact prepares_same rfl rfl rfl
  | fail => exact prepares_none _ rfl rfl rfl (by simp [Act.isPrepare])
  | close => exact prepares_none _ rfl rfl rfl (by simp [Act.isPrepare])
  | drop => exact prepares_none _ rfl rfl rfl (by simp [Act.isPrepare])
  | dropPrev => exact prepares_none _ rfl rfl rfl (by simp [Act.isPrepare])

/-- **Every dispatch** signals in order. -/
theorem step_prepares (h : s.Linked Looked) {st : SeatStep}
    (hB : ∀ t, nameTemplate st.cfg s.id = some t → Built (buildUserName t s.id)) :
    (signals Built).Replays s (s.step st) := by
  have hends : Ends (fun _ => True) s.id st s (s.step st) :=
    step_ends h trivial fun _ _ => trivial
  generalize s.step st = s' at hends ⊢
  cases hends with
  | stays hdoes => exact does_prepares hB hdoes
  | gone hdoes => exact (does_prepares hB hdoes).trans (prepares_same rfl rfl rfl)
  | stale => exact prepares_same rfl rfl rfl
  | @emission x e t _ _ hdoes =>
    have hheard : (signals Built).Replays s (s.setSession x ((s.sessions.get x).handle e).1) :=
      prepares_same rfl rfl rfl
    obtain ⟨ss, heq, -⟩ := released_frame x t
    rw [heq]
    exact (hheard.trans (does_prepares hB hdoes)).trans (prepares_same rfl rfl rfl)

/-- The names that the configurations of a run give the default user of a seat. -/
def BuiltIn (id : String) (sts : List SeatStep) (u : String) : Prop :=
  ∃ st ∈ sts, ∃ t, nameTemplate st.cfg id = some t ∧ u = buildUserName t id

/-- The trace of a run is a path of the automaton. -/
theorem run_path (id : String) (sts : List SeatStep) :
    Path (Prepares (BuiltIn id sts)) (none, false) ((Seat.new id).run sts).trace
      (((Seat.new id).run sts).defaultUser, ((Seat.new id).run sts).defaultActive) := by
  have hstep : ∀ (s : Seat) (st : SeatStep), st ∈ sts → s.Wf (LookedUp sts) ∧ s.id = id →
      ((s.step st).Wf (LookedUp sts) ∧ (s.step st).id = id) ∧
        (signals (BuiltIn id sts)).Replays s (s.step st) := by
    rintro s st hst ⟨hw, rfl⟩
    refine ⟨⟨step_wf hw fun u n hu => ⟨st, hst, hu⟩, (step_frame s st).1⟩, ?_⟩
    exact step_prepares hw.toLinked fun t ht => ⟨st, hst, t, ht, rfl⟩
  have hrun : (signals (BuiltIn id sts)).Replays (Seat.new id) ((Seat.new id).run sts) :=
    Recorder.run_replays hstep ⟨wf_new id, rfl⟩ fun _ hst => hst
  exact hrun.path rfl

/-- A signal of a run is for the default user, and he has his name from the configuration. -/
theorem run_signal (id : String) (sts : List SeatStep) {u : String}
    (h : Act.prepareUserLogin u ∈ ((Seat.new id).run sts).trace ∨
      Act.prepareUserLogout (some u) ∈ ((Seat.new id).run sts).trace) :
    ((Seat.new id).run sts).defaultUser = some u ∧ BuiltIn id sts u := by
  have hpath := run_path id sts
  have huser : ((Seat.new id).run sts).defaultUser = some u := by
    rcases h with h | h
    · exact prepares_login hpath h
    · obtain ⟨before, after, ht⟩ := List.append_of_mem h
      rw [ht] at hpath
      exact (prepares_logout hpath).2.1
  exact ⟨huser, (prepares_built hpath).2 u huser⟩

/-- **The signals of every run are in order.** Every login is prepared for the default user,
whose name is made from a template that the configuration had; every logout is for him, too,
and the last signal before it was the login; and `default_active` says whether the last signal
of all was the login. -/
theorem run_prepares (id : String) (sts : List SeatStep) :
    let s := (Seat.new id).run sts
    (∀ u, Act.prepareUserLogin u ∈ s.trace → s.defaultUser = some u ∧ BuiltIn id sts u) ∧
    (∀ before du after, s.trace = before ++ .prepareUserLogout du :: after →
      du.isSome = true ∧ s.defaultUser = du ∧ LastLogin before) ∧
    (s.defaultActive = true ↔ LastLogin s.trace) := by
  intro s
  have hpath := run_path id sts
  refine ⟨fun u hu => run_signal id sts (.inl hu), fun before du after ht => ?_,
    prepares_active hpath⟩
  rw [ht] at hpath
  exact prepares_logout hpath

end Seat

end Tlm
