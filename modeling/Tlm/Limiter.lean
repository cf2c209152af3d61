import Mathlib.Algebra.Order.Group.Defs
import Mathlib.Data.List.Chain
import Mathlib.Data.List.Count

/-!
# A limiter that remembers one time

A limiter slows calls down that come in quick succession. It keeps no history:
only the time of the last call and a counter, which goes up while calls come
less than `w` apart and starts again at one when they do not. A call that takes
the counter above `n` is put off.

* `Limiter.judge` — one call.
* `Limiter.Obeys` — a sequence of calls, each with its time and whether it was
  put off, as a limiter treats it.
* In a burst — calls less than `w` apart — at most `n` calls get through
  (`burst_passed`), and of a whole burst exactly the first `n`
  (`burst_exact`); hence at most `n` in any window shorter than `w`
  (`window_passed`), and a call after a pause is never put off (`pause`).
-/

namespace Tlm

universe u

/-- What a limiter remembers. -/
structure Limiter (τ : Type u) where
  /-- the time of the last call -/
  last : τ
  /-- how many came in quick succession -/
  count : ℤ

namespace Limiter

/-- How many calls got through. -/
def passed {τ : Type u} (cs : List (τ × Bool)) : ℕ := cs.countP fun c => !c.2

@[simp] theorem passed_nil {τ : Type u} : passed ([] : List (τ × Bool)) = 0 := rfl

theorem passed_cons {τ : Type u} {c : τ × Bool} {cs : List (τ × Bool)} :
    passed (c :: cs) = passed cs + if c.2 then 0 else 1 := by
  simp only [passed, List.countP_cons]
  cases c.2 <;> rfl

section

variable {τ : Type u} [AddCommGroup τ] [LinearOrder τ]

/-- One call at time `t`: what is remembered of it, and whether it is put off. -/
def judge (w : τ) (n : ℤ) (l : Limiter τ) (t : τ) : Limiter τ × Bool :=
  if t - l.last < w then (⟨t, l.count + 1⟩, decide (l.count + 1 > n)) else (⟨t, 1⟩, false)

/-- The calls `cs`, each with its time and whether it was put off, take the
limiter from `l` to `l'`. -/
def Obeys (w : τ) (n : ℤ) : Limiter τ → List (τ × Bool) → Limiter τ → Prop
  | l, [], l' => l' = l
  | l, c :: cs, l' => c.2 = (judge w n l c.1).2 ∧ Obeys w n (judge w n l c.1).1 cs l'

/-- Less than `w` apart. -/
def Close (w t t' : τ) : Prop := t' - t < w

variable {w : τ} {n : ℤ} {l l' : Limiter τ} {t : τ} {c : τ × Bool} {cs ds : List (τ × Bool)}

/-! ## One call -/

@[simp] theorem judge_last : (judge w n l t).1.last = t := by
  simp only [judge]
  split <;> rfl

theorem judge_close (h : t - l.last < w) :
    judge w n l t = (⟨t, l.count + 1⟩, decide (l.count + 1 > n)) := if_pos h

theorem judge_pause (h : w ≤ t - l.last) : judge w n l t = (⟨t, 1⟩, false) := if_neg h.not_gt

theorem judge_count_pos (h : 0 ≤ l.count) : 1 ≤ (judge w n l t).1.count := by
  simp only [judge]
  split
  · simp only
    omega
  · exact le_refl _

theorem judge_count_le (h : 0 ≤ l.count) : (judge w n l t).1.count ≤ l.count + 1 := by
  simp only [judge]
  split
  · exact le_refl _
  · simp only
    omega

/-! ## Sequences of calls -/

@[simp] theorem obeys_nil : Obeys w n l [] l' ↔ l' = l := Iff.rfl

@[simp] theorem obeys_cons : Obeys w n l (c :: cs) l' ↔
    c.2 = (judge w n l c.1).2 ∧ Obeys w n (judge w n l c.1).1 cs l' := Iff.rfl

theorem obeys_append : Obeys w n l (cs ++ ds) l' ↔ ∃ m, Obeys w n l cs m ∧ Obeys w n m ds l' := by
  induction cs generalizing l with
  | nil => simp
  | cons c cs ih =>
    simp only [List.cons_append, obeys_cons, ih]
    constructor
    · rintro ⟨hc, m, hm, hds⟩
      exact ⟨m, ⟨hc, hm⟩, hds⟩
    · rintro ⟨m, ⟨hc, hm⟩, hds⟩
      exact ⟨hc, m, hm, hds⟩

/-- The limiter remembers the time of the last call. -/
theorem Obeys.last (h : Obeys w n l (cs ++ [c]) l') : l'.last = c.1 := by
  obtain ⟨m, -, -, rfl⟩ := obeys_append.mp h
  exact judge_last

/-- The counter never goes below zero, nor above the number of calls. -/
theorem Obeys.count (h : Obeys w n l cs l') (h₀ : 0 ≤ l.count) :
    0 ≤ l'.count ∧ l'.count ≤ l.count + cs.length := by
  induction cs generalizing l with
  | nil =>
    obtain rfl := h
    simp [h₀]
  | cons c cs ih =>
    have hpos : 1 ≤ (judge w n l c.1).1.count := judge_count_pos h₀
    have hle : (judge w n l c.1).1.count ≤ l.count + 1 := judge_count_le h₀
    obtain ⟨h₁, h₂⟩ := ih h.2 (by omega)
    rw [List.length_cons]
    omega

/-! ## Bursts -/

/-- One close call uses up one of the calls that may still get through. -/
theorem passed_close (hc : c.2 = (judge w n l c.1).2) (hclose : c.1 - l.last < w) {k : ℕ}
    (hk : k ≤ (n - (judge w n l c.1).1.count).toNat) :
    k + (if c.2 then 0 else 1) ≤ (n - l.count).toNat := by
  rw [judge_close hclose] at hc hk
  simp only at hc hk
  rw [hc]
  by_cases hn : l.count + 1 > n
  · simp only [hn, decide_true, if_true]
    omega
  · simp only [hn, decide_false, Bool.false_eq_true, if_false]
    omega

/-- While the calls stay close, no more get through than the counter leaves. -/
theorem Obeys.passed_le (h : Obeys w n l cs l')
    (hclose : (l.last :: cs.map Prod.fst).IsChain (Close w)) :
    passed cs ≤ (n - l.count).toNat := by
  induction cs generalizing l with
  | nil => simp
  | cons c cs ih =>
    obtain ⟨hc, hrest⟩ := h
    obtain ⟨hfirst, htail⟩ := List.isChain_cons_cons.mp hclose
    have htail' : ((judge w n l c.1).1.last :: cs.map Prod.fst).IsChain (Close w) := by
      rw [judge_last]
      exact htail
    rw [passed_cons]
    exact passed_close hc hfirst (ih hrest htail')

/-- **Of calls less than `w` apart at most `n` get through.** -/
theorem burst_passed (h : Obeys w n l cs l') (h₀ : 0 ≤ l.count) (hn : 1 ≤ n)
    (hclose : (cs.map Prod.fst).IsChain (Close w)) : passed cs ≤ n.toNat := by
  cases cs with
  | nil => simp
  | cons c cs =>
    obtain ⟨-, hrest⟩ := h
    have hpos : 1 ≤ (judge w n l c.1).1.count := judge_count_pos h₀
    have hclose' : ((judge w n l c.1).1.last :: cs.map Prod.fst).IsChain (Close w) := by
      rw [judge_last]
      exact hclose
    have hle := hrest.passed_le hclose'
    rw [passed_cons]
    split <;> omega

/-- In close calls the counter goes up by one each time. -/
theorem Obeys.close_verdict (h : Obeys w n l cs l')
    (hclose : (l.last :: cs.map Prod.fst).IsChain (Close w)) (i : ℕ)
    (hi : i < cs.length) : (cs[i]).2 = decide (l.count + 1 + i > n) := by
  induction cs generalizing l i with
  | nil => exact absurd hi (Nat.not_lt_zero i)
  | cons c cs ih =>
    obtain ⟨hc, hrest⟩ := h
    obtain ⟨hfirst, htail⟩ := List.isChain_cons_cons.mp hclose
    have hjudge := judge_close (n := n) (show c.1 - l.last < w from hfirst)
    cases i with
    | zero =>
      rw [hjudge] at hc
      simpa using hc
    | succ i =>
      have htail' : ((judge w n l c.1).1.last :: cs.map Prod.fst).IsChain (Close w) := by
        rw [judge_last]
        exact htail
      have hcount : (judge w n l c.1).1.count = l.count + 1 := by rw [hjudge]
      have hverdict := ih hrest htail' i (Nat.lt_of_succ_lt_succ hi)
      rw [hcount] at hverdict
      have hsum : l.count + 1 + 1 + (i : ℤ) = l.count + 1 + ((i + 1 : ℕ) : ℤ) := by
        push_cast
        omega
      rw [List.getElem_cons_succ, hverdict, hsum]

/-- **Of a burst that begins with a fresh counter exactly the first `n` calls get
through.** The counter is fresh at the first call ever and after a pause. -/
theorem burst_exact (h : Obeys w n l cs l') (hn : 1 ≤ n)
    (hfresh : l.count = 0 ∨ ∀ c ∈ cs.head?, w ≤ c.1 - l.last) (hclose : (cs.map Prod.fst).IsChain (Close w))
    (i : ℕ) (hi : i < cs.length) : (cs[i]).2 = false ↔ (i : ℤ) < n := by
  cases cs with
  | nil => exact absurd hi (Nat.not_lt_zero i)
  | cons c cs =>
    obtain ⟨hc, hrest⟩ := h
    have hone : (judge w n l c.1).1.count = 1 ∧ (judge w n l c.1).2 = false := by
      rcases hfresh with h₀ | hpause
      · simp only [judge, h₀]
        split
        · simpa using hn
        · simp
      · rw [judge_pause (hpause c rfl)]
        exact ⟨rfl, rfl⟩
    cases i with
    | zero =>
      rw [List.getElem_cons_zero, hc, hone.2]
      simp only [true_iff]
      omega
    | succ i =>
      have hclose' : ((judge w n l c.1).1.last :: cs.map Prod.fst).IsChain (Close w) := by
        rw [judge_last]
        exact hclose
      rw [List.getElem_cons_succ,
        hrest.close_verdict hclose' i (Nat.lt_of_succ_lt_succ hi), hone.1]
      simp only [decide_eq_false_iff_not, not_lt, gt_iff_lt]
      push_cast
      omega

/-- **A call after a pause is not put off.** -/
theorem pause {d : τ × Bool} (h : Obeys w n l (cs ++ c :: d :: ds) l') (hw : w ≤ d.1 - c.1) :
    d.2 = false := by
  obtain ⟨m, -, -, hd, -⟩ := obeys_append.mp h
  rw [hd, judge_pause]
  rwa [judge_last]

end

section

variable {τ : Type u} [AddCommGroup τ] [LinearOrder τ] [IsOrderedAddMonoid τ]
variable {w a b : τ} {n : ℤ} {l l' : Limiter τ} {c : τ × Bool} {cs : List (τ × Bool)}

/-- The calls in the window from `a` to `b`. -/
def window (a b : τ) (cs : List (τ × Bool)) : List (τ × Bool) :=
  cs.filter fun c => decide (a ≤ c.1 ∧ c.1 ≤ b)

/-- Once there was a call in the window, the others in it come close. -/
theorem Obeys.window_le (h : Obeys w n l cs l') (hab : b - a < w) (ha : a ≤ l.last)
    (hsorted : (l.last :: cs.map Prod.fst).Pairwise (· ≤ ·)) :
    passed (window a b cs) ≤ (n - l.count).toNat := by
  induction cs generalizing l with
  | nil => simp [window]
  | cons c cs ih =>
    obtain ⟨hc, hrest⟩ := h
    obtain ⟨hle, htail⟩ := List.pairwise_cons.mp hsorted
    have hlast : l.last ≤ c.1 := hle c.1 (by simp)
    by_cases hb : c.1 ≤ b
    · have hclose : c.1 - l.last < w := (sub_le_sub hb ha).trans_lt hab
      have hin : window a b (c :: cs) = c :: window a b cs :=
        List.filter_cons_of_pos (by simpa using ⟨ha.trans hlast, hb⟩)
      have htail' : ((judge w n l c.1).1.last :: cs.map Prod.fst).Pairwise (· ≤ ·) := by
        rw [judge_last]
        exact htail
      have ha' : a ≤ (judge w n l c.1).1.last := by
        rw [judge_last]
        exact ha.trans hlast
      rw [hin, passed_cons]
      exact passed_close hc hclose (ih hrest ha' htail')
    · -- past the window, and so are all later calls
      have hout : window a b (c :: cs) = [] := by
        refine List.filter_eq_nil_iff.mpr fun d hd => ?_
        have hcd : c.1 ≤ d.1 := by
          rcases List.mem_cons.mp hd with rfl | hd
          · exact le_refl _
          · exact (List.pairwise_cons.mp htail).1 d.1 (List.mem_map_of_mem hd)
        simpa using fun _ => (not_le.mp hb).trans_le hcd
      rw [hout]
      exact Nat.zero_le _

/-- **In a window shorter than `w` at most `n` calls get through.** -/
theorem window_passed (h : Obeys w n l cs l') (h₀ : 0 ≤ l.count) (hn : 1 ≤ n) (hab : b - a < w)
    (hsorted : (cs.map Prod.fst).Pairwise (· ≤ ·)) : passed (window a b cs) ≤ n.toNat := by
  induction cs generalizing l with
  | nil => simp [window]
  | cons c cs ih =>
    obtain ⟨hc, hrest⟩ := h
    have hpos : 1 ≤ (judge w n l c.1).1.count := judge_count_pos h₀
    by_cases ha : a ≤ c.1
    · have hsorted' : ((judge w n l c.1).1.last :: cs.map Prod.fst).Pairwise (· ≤ ·) := by
        rw [judge_last]
        exact hsorted
      have ha' : a ≤ (judge w n l c.1).1.last := by
        rw [judge_last]
        exact ha
      have hle := hrest.window_le hab ha' hsorted'
      have hone : passed (window a b (c :: cs)) ≤ passed (window a b cs) + 1 := by
        simp only [window, List.filter_cons]
        split
        · rw [passed_cons]
          split <;> omega
        · exact Nat.le_succ _
      omega
    · have hout : window a b (c :: cs) = window a b cs :=
        List.filter_cons_of_neg (by simp [ha])
      rw [hout]
      exact ih hrest (by omega) (List.pairwise_cons.mp hsorted).2

end

end Limiter

end Tlm
