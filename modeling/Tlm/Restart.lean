import Mathlib.Data.List.Nodup
import Mathlib.Data.List.Perm.Basic
import Mathlib.Data.List.TakeWhile

/-!
# A walk that starts over

A loop visits the entries of a table in some order. When it comes to an entry
that is **bad**, it removes it — and as this spoils the iterator, it starts over.
The order may be a different one every time.

* `walk` — the entries visited, in order.
* `walk_mem` — every entry is visited.
* `walk_once_iff` — **every** entry is visited once exactly when the walk is
  `Orderly`: as long as there is a bad entry, a bad one comes first.
-/

namespace Tlm

universe u

variable {α : Type u} {good : α → Bool} {order : List α → List α}

/-! ## One pass -/

/-- A pass that is not cut short. -/
theorem forall_good_of_dropWhile {l : List α} (h : l.dropWhile good = []) :
    ∀ a ∈ l, good a = true :=
  List.dropWhile_eq_nil_iff.mp h

/-- One that is. -/
theorem bad_of_dropWhile {l rest : List α} {b : α} (h : l.dropWhile good = b :: rest) :
    good b = false ∧ l = l.takeWhile good ++ b :: rest := by
  constructor
  · have hhead := List.head?_dropWhile_not good l
    rw [h] at hhead
    simpa using hhead
  · rw [← h, List.takeWhile_append_dropWhile]

/-- What cuts a pass short is in the table. -/
theorem mem_of_dropWhile (hperm : ∀ t, (order t).Perm t) {t rest : List α} {b : α}
    (hcut : (order t).dropWhile good = b :: rest) : b ∈ t := by
  rw [← (hperm t).mem_iff, (bad_of_dropWhile hcut).2]
  simp

variable [BEq α]

/-- The entries visited, in at most `n` passes. -/
def walk (good : α → Bool) (order : List α → List α) : ℕ → List α → List α
  | 0, _ => []
  | n + 1, t =>
    match (order t).dropWhile good with
    | [] => order t
    | b :: _ => (order t).takeWhile good ++ b :: walk good order n (t.erase b)

/-- The tables on which a pass begins. -/
inductive Walks (good : α → Bool) (order : List α → List α) (t₀ : List α) : List α → Prop
  | start : Walks good order t₀ t₀
  | again {t rest : List α} {b : α} (h : Walks good order t₀ t)
    (hcut : (order t).dropWhile good = b :: rest) : Walks good order t₀ (t.erase b)

/-- As long as there is a bad entry, a bad one comes first. -/
def Orderly (good : α → Bool) (order : List α → List α) (t₀ : List α) : Prop :=
  ∀ t, Walks good order t₀ t → (∃ a ∈ t, good a = false) →
    ∃ b rest, order t = b :: rest ∧ good b = false

/-! ## Starting over -/

/-- Walks from where the walk starts over. -/
theorem Walks.cases_start {t t' rest : List α} {b : α} (hcut : (order t).dropWhile good = b :: rest)
    (h : Walks good order t t') : t' = t ∨ Walks good order (t.erase b) t' := by
  induction h with
  | start => exact Or.inl rfl
  | again _ hcut' ih =>
    rcases ih with rfl | hw
    · rw [hcut] at hcut'
      obtain ⟨rfl, -⟩ := List.cons.inj hcut'
      exact Or.inr .start
    · exact Or.inr (hw.again hcut')

theorem Walks.of_erase {t t' rest : List α} {b : α} (hcut : (order t).dropWhile good = b :: rest)
    (h : Walks good order (t.erase b) t') : Walks good order t t' := by
  induction h with
  | start => exact Walks.start.again hcut
  | again _ hcut' ih => exact ih.again hcut'

/-- The table that is left has one bad entry less. -/
theorem countP_bad_erase [LawfulBEq α] {t : List α} {b : α} (hb : good b = false) (hmem : b ∈ t) :
    (t.erase b).countP (fun a => !good a) + 1 = t.countP fun a => !good a := by
  have hperm := (List.perm_cons_erase hmem).countP_eq fun a => !good a
  rw [hperm, List.countP_cons]
  simp [hb]

section Counting

variable (hperm : ∀ t, (order t).Perm t)

include hperm

/-- Nothing else is visited. -/
theorem mem_of_walk {n : ℕ} {t : List α} {a : α} (h : a ∈ walk good order n t) : a ∈ t := by
  induction n generalizing t with
  | zero => cases h
  | succ n ih =>
    simp only [walk] at h
    split at h
    · exact (hperm t).mem_iff.mp h
    · rename_i b rest hcut
      rcases List.mem_append.mp h with h | h
      · exact (hperm t).mem_iff.mp ((List.takeWhile_sublist _).subset h)
      · rcases List.mem_cons.mp h with rfl | h
        · exact mem_of_dropWhile hperm hcut
        · exact List.mem_of_mem_erase (ih h)

/-- A pass that is not cut short is the only one. -/
theorem orderly_of_good {t : List α} (h : (order t).dropWhile good = []) : Orderly good order t := by
  have honly : ∀ t', Walks good order t t' → t' = t := by
    intro t' hw
    induction hw with
    | start => rfl
    | again _ hcut ih =>
      rw [ih, h] at hcut
      cases hcut
  rintro t' hw ⟨a, ha, hbad⟩
  rw [honly t' hw] at ha
  have hgood := forall_good_of_dropWhile h a ((hperm t).mem_iff.mpr ha)
  rw [hgood] at hbad
  cases hbad

/-- One that is cut short is orderly when it is cut at once, and the rest is. -/
theorem orderly_cut {t rest : List α} {b : α} (hcut : (order t).dropWhile good = b :: rest) :
    Orderly good order t ↔ (order t).takeWhile good = [] ∧ Orderly good order (t.erase b) := by
  obtain ⟨hb, hsplit⟩ := bad_of_dropWhile hcut
  constructor
  · intro h
    refine ⟨?_, fun t' hw => h t' (hw.of_erase hcut)⟩
    obtain ⟨b', rest', horder, hb'⟩ := h t .start ⟨b, mem_of_dropWhile hperm hcut, hb⟩
    rw [horder, List.takeWhile_cons_of_neg (by simp [hb'])]
  · rintro ⟨htake, h⟩ t' hw hbad
    rcases hw.cases_start hcut with rfl | hw
    · rw [htake] at hsplit
      exact ⟨b, rest, hsplit, hb⟩
    · exact h t' hw hbad

variable [LawfulBEq α]

/-- Every entry is visited, given enough passes. -/
theorem walk_mem {n : ℕ} {t : List α} (hn : t.countP (fun a => !good a) < n) {a : α} (ha : a ∈ t) :
    a ∈ walk good order n t := by
  induction n generalizing t with
  | zero => omega
  | succ n ih =>
    simp only [walk]
    split
    · exact (hperm t).mem_iff.mpr ha
    · rename_i b rest hcut
      have hmem := mem_of_dropWhile hperm hcut
      have hless := countP_bad_erase (bad_of_dropWhile hcut).1 hmem
      apply List.mem_append_right
      by_cases hab : a = b
      · rw [hab]
        exact List.mem_cons_self
      · exact List.mem_cons_of_mem _ (ih (by omega) ((List.mem_erase_of_ne hab).mpr ha))

/-- **Once each, exactly**: every entry is visited once just when bad entries
come first. An entry seen before a bad one is seen again. -/
theorem walk_once_iff {n : ℕ} {t : List α} (hn : t.countP (fun a => !good a) < n)
    (hnodup : t.Nodup) :
    (∀ a ∈ t, (walk good order n t).count a = 1) ↔ Orderly good order t := by
  induction n generalizing t with
  | zero => omega
  | succ n ih =>
    rcases hcut : (order t).dropWhile good with _ | ⟨b, rest⟩
    · refine ⟨fun _ => orderly_of_good hperm hcut, fun _ a ha => ?_⟩
      simp only [walk, hcut]
      rw [(hperm t).count_eq]
      exact List.count_eq_one_of_mem hnodup ha
    · have hmem := mem_of_dropWhile hperm hcut
      have hless := countP_bad_erase (bad_of_dropWhile hcut).1 hmem
      have hrest := ih (t := t.erase b) (by omega) (hnodup.erase b)
      rw [orderly_cut hperm hcut, ← hrest]
      simp only [walk, hcut, List.count_append, List.count_cons]
      have hgone : b ∉ t.erase b := hnodup.not_mem_erase
      have hnone : (walk good order n (t.erase b)).count b = 0 :=
        List.count_eq_zero.mpr fun h => hgone (mem_of_walk hperm h)
      constructor
      · intro hall
        have htake : (order t).takeWhile good = [] := by
          -- an entry seen before `b` is still in the table, and is seen again
          by_contra hne
          obtain ⟨a, ha⟩ := List.exists_mem_of_ne_nil _ hne
          have hgood : good a = true := List.mem_takeWhile_imp ha
          have hat : a ∈ t := (hperm t).mem_iff.mp ((List.takeWhile_sublist _).subset ha)
          have hab : a ≠ b := by
            rintro rfl
            rw [(bad_of_dropWhile hcut).1] at hgood
            cases hgood
          have hagain : a ∈ walk good order n (t.erase b) :=
            walk_mem hperm (by omega) ((List.mem_erase_of_ne hab).mpr hat)
          have h₁ := List.count_pos_iff.mpr ha
          have h₂ := List.count_pos_iff.mpr hagain
          have hone := hall a hat
          omega
        refine ⟨htake, fun a ha => ?_⟩
        have hab : b ≠ a := fun h => hgone (h ▸ ha)
        have hone := hall a (List.mem_of_mem_erase ha)
        rw [htake] at hone
        simpa [hab] using hone
      · rintro ⟨htake, hall⟩ a ha
        rw [htake]
        by_cases hab : b = a
        · rw [← hab, hnone]
          simp
        · have hone := hall a ((List.mem_erase_of_ne (Ne.symm hab)).mpr ha)
          simpa [hab] using hone

end Counting

end Tlm
