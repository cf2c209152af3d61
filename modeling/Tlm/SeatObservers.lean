import Tlm.Replay
import Tlm.SeatActs

/-!
# The observers of a seat (`tlm-seat.c`)

A seat makes an observer for each session, and drops it with the session, and between a switch
and the next `session-created` it can have two. Where nobody asks a seat for a session that the
manager has stopped, it never has two: an observer is only made, and only fails to be made,
when there is none, and the observer that is dropped is the one there is. `Serves` is the
automaton that says so, and `step_serves` has every such dispatch follow it.
-/

namespace Tlm

/-- An act that makes an observer, drops one, or fails to make one. -/
def Act.isObserver : Act → Bool
  | .observerNew _ _ => true
  | .observerDispose _ => true
  | .createSession _ .noObserver => true
  | _ => false

/-- What the acts make of the observer of a seat and what it was made with, which is in `Own`,
while there is no previous observer. -/
inductive Serves (Own : ObserverArgs → Prop) : Option (ObserverRef × ObserverArgs) × Option ObserverRef →
    Act → Option (ObserverRef × ObserverArgs) × Option ObserverRef → Prop where
  | up {o : ObserverRef} {args : ObserverArgs} (h : Own args) :
      Serves Own (none, none) (.observerNew o args) (some (o, args), none)
  | down {o : ObserverRef} {args : ObserverArgs} :
      Serves Own (some (o, args), none) (.observerDispose o) (none, none)
  | failed {args : LoginArgs} :
      Serves Own (none, none) (.createSession args .noObserver) (none, none)
  | other {v : Option (ObserverRef × ObserverArgs) × Option ObserverRef} {a : Act}
      (h : a.isObserver = false) : Serves Own v a v

namespace Seat

/-- The observer, and what it was made with. -/
def serving (s : Seat) : Option (ObserverRef × ObserverArgs) :=
  s.dbusObserver.map fun o => (o, s.observers.get o)

/-- The observers of a seat. -/
def observing (Own : ObserverArgs → Prop) :
    Recorder Seat Act (Option (ObserverRef × ObserverArgs) × Option ObserverRef) where
  trace := Seat.trace
  view s := (s.serving, s.prevDbusObserver)
  next := Serves Own

open Recorder (Replays)

variable {Own : ObserverArgs → Prop} {Looked : String → ℕ → Prop} {cfg : Config} {sys : Sys}
  {s s' : Seat}

theorem serving_none (h : s.dbusObserver = none) : s.serving = none := by
  rw [serving, h]
  rfl

theorem serving_some {o : ObserverRef} (h : s.dbusObserver = some o) :
    s.serving = some (o, s.observers.get o) := by
  rw [serving, h]
  rfl

/-- Nothing about observers. -/
theorem serves_none (acts : List Act) (ht : s'.trace = s.trace ++ acts)
    (ho : s'.serving = s.serving) (hp : s'.prevDbusObserver = s.prevDbusObserver)
    (h : ∀ a ∈ acts, a.isObserver = false) : (observing Own).Replays s s' :=
  .of_idle acts ht (Prod.ext ho hp) fun a hm => .other (h a hm)

theorem serves_same (ht : s'.trace = s.trace) (ho : s'.serving = s.serving)
    (hp : s'.prevDbusObserver = s.prevDbusObserver) : (observing Own).Replays s s' :=
  .of_eq ht (Prod.ext ho hp)

/-- There is no previous observer at the end, if there was none. -/
theorem noPrev_of_serves (h : (observing Own).Replays s s') (hp : s.prevDbusObserver = none) :
    s'.prevDbusObserver = none := by
  obtain ⟨acts, -, hpath⟩ := h
  have hkeeps : ∀ (v : Option (ObserverRef × ObserverArgs) × Option ObserverRef) a v', v.2 = none →
      Serves Own v a v' → v'.2 = none := by
    intro v a v' hv hnext
    cases hnext with
    | up _ => rfl
    | down => rfl
    | failed => rfl
    | other _ => exact hv
  exact hpath.keeps (I := fun v => v.2 = none) hkeeps hp

/-- The observer at the end is one of its own, if the first was. -/
theorem own_of_serves (h : (observing Own).Replays s s')
    (hs : ∀ o args, s.serving = some (o, args) → Own args) :
    ∀ o args, s'.serving = some (o, args) → Own args := by
  obtain ⟨acts, -, hpath⟩ := h
  have hkeeps : ∀ (v : Option (ObserverRef × ObserverArgs) × Option ObserverRef) a v',
      (∀ o args, v.1 = some (o, args) → Own args) → Serves Own v a v' →
        ∀ o args, v'.1 = some (o, args) → Own args := by
    intro v a v' hv hnext
    cases hnext with
    | up hargs =>
      intro o args heq
      obtain ⟨-, rfl⟩ := Prod.ext_iff.mp (Option.some.inj heq)
      exact hargs
    | down =>
      intro o args heq
      cases heq
    | failed =>
      intro o args heq
      cases heq
    | other _ => exact hv
  exact hpath.keeps (I := fun v => ∀ o args, v.1 = some (o, args) → Own args) hkeeps hs

/-- An observer comes up where there is none. -/
theorem serves_up {o : ObserverRef} {args : ObserverArgs} {acts : List Act}
    (ho : s.dbusObserver = none) (hp : s.prevDbusObserver = none)
    (ht : s'.trace = s.trace ++ .observerNew o args :: acts)
    (h : ∀ a ∈ acts, a.isObserver = false) (ho' : s'.dbusObserver = some o)
    (hargs : s'.observers.get o = args) (hp' : s'.prevDbusObserver = none)
    (hOwn : Own args) : (observing Own).Replays s s' := by
  have hview : (observing Own).view s = (none, none) := Prod.ext (serving_none ho) hp
  have hview' : (observing Own).view s' = (some (o, args), none) := by
    refine Prod.ext ((serving_some ho').trans ?_) hp'
    rw [hargs]
  refine .of_path _ ht ?_
  rw [hview, hview']
  exact .cons (.up hOwn) (.idle fun a ha => .other (h a ha))

theorem does_serves {id : String} {emitter : Option SessionRef}
    (hOwn : ∀ u n, sys.getUid u = some n → Own (sessionObserver id n))
    (h : Does (· = none) cfg sys id emitter s s') (hp : s.prevDbusObserver = none) :
    (observing Own).Replays s s' := by
  induction h with
  | trans _ _ ih ih' => exact (ih hp).trans (ih' (noPrev_of_serves (ih hp) hp))
  | same h =>
    refine serves_same h.trace ?_ h.prevDbusObserver
    simp only [serving, h.dbusObserver, h.observers]
  | say s a ha _ =>
    refine serves_none [a] rfl rfl rfl fun b hb => ?_
    rw [List.mem_singleton.mp hb]
    rcases a with _ | _ | _ | _ | _ | _ | _ | _ | ⟨args, v⟩ | _ | _ | _ <;>
      first | rfl | cases ha | (cases v <;> first | rfl | cases ha)
  | login => exact serves_none _ rfl rfl rfl (by simp [Act.isObserver])
  | logout => exact serves_none _ rfl rfl rfl (by simp [Act.isObserver])
  | start s args service u uid _ ho hu =>
    exact serves_up ho hp rfl (by simp [Act.isObserver]) rfl (Store.get_alloc_self ..) ho
      (hOwn u uid hu)
  | spoil => exact serves_same rfl rfl rfl
  | fail s args service user _ ho =>
    have hview : (observing Own).view s = (none, none) := Prod.ext (serving_none ho) hp
    refine .of_path [.sessionError _, .createSession args .noObserver] rfl ?_
    rw [hview]
    change Path (Serves Own) _ _ (none, s.dbusObserver)
    rw [ho]
    exact .cons (.other rfl) (.single .failed)
  | close => exact serves_none _ rfl rfl rfl (by simp [Act.isObserver])
  | drop s o ho =>
    have hview : (observing Own).view s = (some (o, s.observers.get o), none) :=
      Prod.ext (serving_some ho) hp
    refine .of_path [.observerDispose o] rfl ?_
    rw [hview]
    change Path (Serves Own) _ _ (none, s.prevDbusObserver)
    rw [hp]
    exact .single .down
  | dropPrev s o ho =>
    rw [hp] at ho
    cases ho

/-- **Every dispatch** that does not ask a stopped seat for a session makes an observer only
when there is none, and drops the one there is. -/
theorem step_serves (h : s.Wf Looked) (hp : s.prevDbusObserver = none) {st : SeatStep}
    (hasks : st.event.asks = true → s.stopFired = false)
    (hOwn : ∀ u n, st.sys.getUid u = some n → Own (sessionObserver s.id n)) :
    (observing Own).Replays s (s.step st) := by
  have ho : s.stopFired = false → s.session = none → s.dbusObserver = none := by
    intro hf hs
    have hpaired := h.paired hf
    rw [hs] at hpaired
    exact Option.isNone_iff_eq_none.mp (by rw [← Option.not_isSome, ← hpaired]; rfl)
  have hends : Ends (· = none) s.id st s (s.step st) :=
    step_ends h.toLinked rfl fun ha hs => ho (hasks ha) hs
  generalize s.step st = s' at hends ⊢
  cases hends with
  | stays hdoes => exact does_serves hOwn hdoes hp
  | gone hdoes => exact (does_serves hOwn hdoes hp).trans (serves_same rfl rfl rfl)
  | stale => exact serves_same rfl rfl rfl
  | @emission x e t _ _ hdoes =>
    have hheard : (observing Own).Replays s (s.setSession x ((s.sessions.get x).handle e).1) :=
      serves_same rfl rfl rfl
    obtain ⟨ss, heq, -⟩ := released_frame x t
    rw [heq]
    exact (hheard.trans (does_serves hOwn hdoes hp)).trans (serves_same rfl rfl rfl)

end Seat

end Tlm
