import Mathlib.Data.List.Basic

/-!
# Replaying a trace

A machine that keeps a trace of what it does may be checked against its trace: an automaton
reads the trace, and ends in what can be seen of the machine. `Path next k as k'` is a path
of the automaton over the acts `as`; `Recorder.Replays` says of two states of the machine
that the trace has grown between them by a path from what is seen of the first to what is
seen of the second. It composes, so each operation is checked for itself (`Replays.trans`),
a whole run follows (`run_replays`), and what every path of the automaton has, every trace
has. `Path.cut` finds the state of the automaton in front of an act.
-/

namespace Tlm

universe u v w

/-- A path of the automaton `next` from `k` over the acts to a last state. -/
inductive Path {κ : Type w} {α : Type v} (next : κ → α → κ → Prop) : κ → List α → κ → Prop where
  | nil (k : κ) : Path next k [] k
  | cons {k k₁ k₂ : κ} {a : α} {as : List α} (h : next k a k₁) (hs : Path next k₁ as k₂) :
      Path next k (a :: as) k₂

namespace Path

variable {κ : Type w} {α : Type v} {next next' : κ → α → κ → Prop} {k k₁ k₂ : κ} {a : α}
  {as bs : List α}

theorem single (h : next k a k₁) : Path next k [a] k₁ := .cons h (.nil k₁)

theorem append (h : Path next k as k₁) (h' : Path next k₁ bs k₂) : Path next k (as ++ bs) k₂ := by
  induction h with
  | nil => exact h'
  | cons h _ ih => exact .cons h (ih h')

/-- A path can be cut anywhere. -/
theorem split (h : Path next k (as ++ bs) k₂) :
    ∃ k₁, Path next k as k₁ ∧ Path next k₁ bs k₂ := by
  induction as generalizing k with
  | nil => exact ⟨k, .nil k, h⟩
  | cons a as ih =>
    cases h with
    | cons h hs =>
      obtain ⟨k₁, h₁, h₂⟩ := ih hs
      exact ⟨k₁, .cons h h₁, h₂⟩

/-- The state in front of an act, and the one behind it. -/
theorem cut (h : Path next k (as ++ a :: bs) k₂) :
    ∃ k₀ k₁, Path next k as k₀ ∧ next k₀ a k₁ ∧ Path next k₁ bs k₂ := by
  obtain ⟨k₀, h₀, h⟩ := h.split
  cases h with
  | cons h hs => exact ⟨k₀, _, h₀, h, hs⟩

theorem imp (hn : ∀ k a k₁, next k a k₁ → next' k a k₁) (h : Path next k as k₁) :
    Path next' k as k₁ := by
  induction h with
  | nil => exact .nil _
  | cons h _ ih => exact .cons (hn _ _ _ h) ih

/-- Acts the automaton does not mind. -/
theorem idle (h : ∀ a ∈ as, next k a k) : Path next k as k := by
  induction as with
  | nil => exact .nil k
  | cons a as ih =>
    exact .cons (h a List.mem_cons_self) (ih fun b hb => h b (List.mem_cons_of_mem _ hb))

/-- **Invariant rule**: what every act keeps, a path keeps. -/
theorem keeps {I : κ → Prop} (hn : ∀ k a k₁, I k → next k a k₁ → I k₁) (h : Path next k as k₁)
    (hk : I k) : I k₁ := by
  induction h with
  | nil => exact hk
  | cons h _ ih => exact ih (hn _ _ _ hk h)

/-- Where an act leaves one state only, that is where the path ends. -/
theorem foldl {f : κ → α → κ} (hn : ∀ k a k₁, next k a k₁ → k₁ = f k a) (h : Path next k as k₁) :
    k₁ = as.foldl f k := by
  induction h with
  | nil => rfl
  | cons h _ ih => rw [ih, hn _ _ _ h, List.foldl_cons]

end Path

/-- A machine that records what it does, and an automaton that reads the record. -/
structure Recorder (σ : Type u) (α : Type v) (κ : Type w) where
  /-- what the machine has done -/
  trace : σ → List α
  /-- what is seen of the machine -/
  view : σ → κ
  /-- the automaton -/
  next : κ → α → κ → Prop

namespace Recorder

variable {σ : Type u} {α : Type v} {κ : Type w} {ε : Type*} {R : Recorder σ α κ}
  {step : σ → ε → σ} {s s' s'' : σ}

/-- What the machine has done between two states leads from what is seen of the one to what
is seen of the other. -/
def Replays (R : Recorder σ α κ) (s s' : σ) : Prop :=
  ∃ as, R.trace s' = R.trace s ++ as ∧ Path R.next (R.view s) as (R.view s')

theorem Replays.of_path (as : List α) (ht : R.trace s' = R.trace s ++ as)
    (h : Path R.next (R.view s) as (R.view s')) : R.Replays s s' := ⟨as, ht, h⟩

/-- Acts the automaton does not mind, and nothing else to be seen. -/
theorem Replays.of_idle (as : List α) (ht : R.trace s' = R.trace s ++ as)
    (hv : R.view s' = R.view s) (h : ∀ a ∈ as, R.next (R.view s) a (R.view s)) :
    R.Replays s s' := by
  refine ⟨as, ht, ?_⟩
  rw [hv]
  exact .idle h

/-- Nothing done, and nothing to be seen. -/
theorem Replays.of_eq (ht : R.trace s' = R.trace s) (hv : R.view s' = R.view s) :
    R.Replays s s' :=
  .of_idle [] (by rw [ht, List.append_nil]) hv fun _ h => absurd h List.not_mem_nil

theorem Replays.refl (s : σ) : R.Replays s s := .of_eq rfl rfl

theorem Replays.trans (h : R.Replays s s') (h' : R.Replays s' s'') : R.Replays s s'' := by
  obtain ⟨as, ht, hp⟩ := h
  obtain ⟨as', ht', hp'⟩ := h'
  exact ⟨as ++ as', by rw [ht', ht, List.append_assoc], hp.append hp'⟩

/-- **Run rule**: when every dispatch replays that is made where `I` holds, and keeps `I`,
a run does. -/
theorem run_replays {E : ε → Prop} {I : σ → Prop}
    (hstep : ∀ s e, E e → I s → I (step s e) ∧ R.Replays s (step s e)) {s : σ} (hs : I s)
    {es : List ε} (hes : ∀ e ∈ es, E e) : R.Replays s (es.foldl step s) := by
  induction es generalizing s with
  | nil => exact .refl s
  | cons e es ih =>
    obtain ⟨he, hes⟩ := List.forall_mem_cons.mp hes
    obtain ⟨hI, hr⟩ := hstep s e he hs
    exact hr.trans (ih hI hes)

/-- A machine that starts with an empty trace has a path for all of its trace. -/
theorem Replays.path (h : R.Replays s s') (hs : R.trace s = []) :
    Path R.next (R.view s) (R.trace s') (R.view s') := by
  obtain ⟨as, ht, hp⟩ := h
  rw [ht, hs]
  exact hp

end Recorder

end Tlm
