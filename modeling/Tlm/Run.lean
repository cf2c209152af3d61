import Mathlib.Data.List.Basic

/-!
# Runs of an event-driven machine

A machine here is a total transition function `step : σ → ε → σ`: one event is
dispatched at a time and handled to completion. Whole-run statements come in
two shapes:

* `Always step Q s es` — the state predicate `Q` holds in **every** state of
  the run, the first and the last included;
* `Along step P s es` — the predicate `P` holds of every **dispatch** of the
  run: of the state in which an event is handled together with that event.

A defect that needs a particular dispatch to strike is stated as an
equivalence between the two (`always_iff_along`): the invariant survives a run
exactly when no dispatch of it meets the bad condition.
-/

namespace Tlm

universe u v

variable {σ : Type u} {ε : Type v} {step : σ → ε → σ}

/-- `Q` holds in every state of the run from `s` on the events `es`. -/
def Always (step : σ → ε → σ) (Q : σ → Prop) : σ → List ε → Prop
  | s, [] => Q s
  | s, e :: es => Q s ∧ Always step Q (step s e) es

/-- `P` holds of every dispatch of the run from `s` on the events `es`. -/
def Along (step : σ → ε → σ) (P : σ → ε → Prop) : σ → List ε → Prop
  | _, [] => True
  | s, e :: es => P s e ∧ Along step P (step s e) es

@[simp] theorem always_nil {Q : σ → Prop} {s : σ} : Always step Q s [] ↔ Q s := Iff.rfl

@[simp] theorem always_cons {Q : σ → Prop} {s : σ} {e : ε} {es : List ε} :
    Always step Q s (e :: es) ↔ Q s ∧ Always step Q (step s e) es := Iff.rfl

@[simp] theorem along_nil {P : σ → ε → Prop} {s : σ} : Along step P s [] ↔ True := Iff.rfl

@[simp] theorem along_cons {P : σ → ε → Prop} {s : σ} {e : ε} {es : List ε} :
    Along step P s (e :: es) ↔ P s e ∧ Along step P (step s e) es := Iff.rfl

/-- The first state of a run is one of its states. -/
theorem Always.head {Q : σ → Prop} {s : σ} {es : List ε} (h : Always step Q s es) : Q s := by
  cases es with
  | nil => exact h
  | cons e es => exact h.1

/-- So is the last. -/
theorem Always.last {Q : σ → Prop} {s : σ} {es : List ε} (h : Always step Q s es) :
    Q (es.foldl step s) := by
  induction es generalizing s with
  | nil => exact h
  | cons e es ih => exact ih h.2

/-- A weaker predicate holds wherever a stronger one does. -/
theorem Always.imp {Q R : σ → Prop} {s : σ} {es : List ε} (hQR : ∀ s, Q s → R s)
    (h : Always step Q s es) : Always step R s es := by
  induction es generalizing s with
  | nil => exact hQR s h
  | cons e es ih => exact ⟨hQR s h.1, ih h.2⟩

theorem Always.and {Q R : σ → Prop} {s : σ} {es : List ε} (hQ : Always step Q s es)
    (hR : Always step R s es) : Always step (fun s => Q s ∧ R s) s es := by
  induction es generalizing s with
  | nil => exact ⟨hQ, hR⟩
  | cons e es ih => exact ⟨⟨hQ.1, hR.1⟩, ih hQ.2 hR.2⟩

theorem Along.and {P P' : σ → ε → Prop} {s : σ} {es : List ε} (hP : Along step P s es)
    (hP' : Along step P' s es) : Along step (fun s e => P s e ∧ P' s e) s es := by
  induction es generalizing s with
  | nil => trivial
  | cons e es ih => exact ⟨⟨hP.1, hP'.1⟩, ih hP.2 hP'.2⟩

/-- What holds of every dispatch from a state with `Q` holds all along a run
through such states. -/
theorem Always.along {Q : σ → Prop} {P : σ → ε → Prop} {s : σ} {es : List ε}
    (hQP : ∀ s e, Q s → P s e) (h : Always step Q s es) : Along step P s es := by
  induction es generalizing s with
  | nil => trivial
  | cons e es ih => exact ⟨hQP s e h.1, ih h.2⟩

/-- What every dispatch that meets `P` in a state with `Q` meets, too. -/
theorem Along.imp {Q : σ → Prop} {P P' : σ → ε → Prop} {s : σ} {es : List ε}
    (h : Along step P s es) (hQ : Always step Q s es) (hP : ∀ s e, Q s → P s e → P' s e) :
    Along step P' s es := by
  induction es generalizing s with
  | nil => trivial
  | cons e es ih => exact ⟨hP s e hQ.1 h.1, ih h.2 hQ.2⟩

/-- **Invariant rule**: what holds first and is kept by every dispatch that
meets `P` holds throughout a run of such dispatches. -/
theorem Along.always {P : σ → ε → Prop} {I : σ → Prop}
    (hstep : ∀ s e, I s → P s e → I (step s e)) {s : σ} {es : List ε} (hs : I s)
    (h : Along step P s es) : Always step I s es := by
  induction es generalizing s with
  | nil => exact hs
  | cons e es ih => exact ⟨hs, ih (hstep s e hs h.1) h.2⟩

/-- A run can be cut anywhere. -/
theorem along_append {P : σ → ε → Prop} {s : σ} {es fs : List ε} :
    Along step P s (es ++ fs) ↔ Along step P s es ∧ Along step P (es.foldl step s) fs := by
  induction es generalizing s with
  | nil => simp
  | cons e es ih =>
    rw [List.cons_append, along_cons, along_cons, ih, List.foldl_cons, and_assoc]

/-- What holds of the dispatch behind every cut holds of every dispatch. -/
theorem along_of_forall {P : σ → ε → Prop} {s : σ} {es : List ε}
    (h : ∀ before e after, es = before ++ e :: after → P (before.foldl step s) e) :
    Along step P s es := by
  induction es generalizing s with
  | nil => trivial
  | cons e es ih =>
    refine ⟨h [] e es rfl, ih fun before e' after heq => h (e :: before) e' after ?_⟩
    rw [heq, List.cons_append]

/-- What every event of a kind `E` keeps holds throughout a run of such events. -/
theorem always_of_step {E : ε → Prop} {I : σ → Prop}
    (hstep : ∀ s e, E e → I s → I (step s e)) {s : σ} (hs : I s) {es : List ε}
    (hes : ∀ e ∈ es, E e) : Always step I s es := by
  induction es generalizing s with
  | nil => exact hs
  | cons e es ih =>
    obtain ⟨he, hes⟩ := List.forall_mem_cons.mp hes
    exact ⟨hs, ih (hstep s e he hs) hes⟩

/-- **Exactness rule**: relative to an invariant `I` that is kept as long as `Q`
holds, if a dispatch keeps `Q` exactly when it meets `P`, then `Q` survives a
run exactly when every dispatch of the run meets `P`. -/
theorem always_iff_along {E : ε → Prop} {I Q : σ → Prop} {P : σ → ε → Prop}
    (hstep : ∀ s e, E e → I s → Q s → I (step s e) ∧ (Q (step s e) ↔ P s e))
    {s : σ} (hsI : I s) (hsQ : Q s) {es : List ε} (hes : ∀ e ∈ es, E e) :
    Always step Q s es ↔ Along step P s es := by
  induction es generalizing s with
  | nil => exact ⟨fun _ => trivial, fun _ => hsQ⟩
  | cons e es ih =>
    obtain ⟨he, hes⟩ := List.forall_mem_cons.mp hes
    obtain ⟨hI, hQ⟩ := hstep s e he hsI hsQ
    constructor
    · intro h
      exact ⟨hQ.mp h.2.head, (ih hI h.2.head hes).mp h.2⟩
    · intro h
      exact ⟨hsQ, (ih hI (hQ.mpr h.1) hes).mpr h.2⟩

section Simulation

universe u'

variable {σ' : Type u'} {step' : σ' → ε → σ'} {f : σ → σ'}

/-- A machine that follows another through `f` has its runs. -/
theorem always_map (hf : ∀ s e, step' (f s) e = f (step s e)) {Q : σ' → Prop} {s : σ}
    {es : List ε} : Always step' Q (f s) es ↔ Always step (fun s => Q (f s)) s es := by
  induction es generalizing s with
  | nil => exact Iff.rfl
  | cons e es ih =>
    rw [always_cons, always_cons, hf, ih]

theorem along_map (hf : ∀ s e, step' (f s) e = f (step s e)) {P : σ' → ε → Prop} {s : σ}
    {es : List ε} : Along step' P (f s) es ↔ Along step (fun s e => P (f s) e) s es := by
  induction es generalizing s with
  | nil => exact Iff.rfl
  | cons e es ih =>
    rw [along_cons, along_cons, hf, ih]

end Simulation

end Tlm
