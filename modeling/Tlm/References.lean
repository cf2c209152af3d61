import Mathlib.Data.List.Nodup
import Mathlib.Data.List.Perm.Basic
import Mathlib.Logic.Function.Basic

/-!
# Counted references

Objects that go when the last reference to them is dropped. A count knows how many references
there are and not who has them, so what makes a count right is a list of **owners**: one entry
for every reference that somebody still has to drop. A count that the owners *back* lets an
object go exactly when its last owner does, and an object that is only referred to while it is
alive goes once.
-/

namespace Tlm

universe u

/-- The counts of the objects of `α`, and the objects that are gone, in order. -/
structure References (α : Type u) : Type u where
  count : α → ℕ := fun _ => 0
  gone : List α := []

namespace References

variable {α : Type u} [DecidableEq α]

/-- Take a reference. -/
def retain (a : α) (c : References α) : References α :=
  { c with count := Function.update c.count a (c.count a + 1) }

/-- Drop a reference. With the last one the object goes. -/
def release (a : α) (c : References α) : References α where
  count := Function.update c.count a (c.count a - 1)
  gone := if c.count a = 1 then c.gone ++ [a] else c.gone

/-- Every reference that is counted has an owner. -/
def Backs (owners : List α) (c : References α) : Prop := ∀ a, c.count a = owners.count a

/-- No object goes twice, and none that is gone is referred to. -/
structure GoOnce (c : References α) : Prop where
  nodup : c.gone.Nodup
  dead : ∀ a ∈ c.gone, c.count a = 0

variable {c : References α} {owners owners' : List α} {a : α}

/-! ## Owners -/

theorem backs_nil : Backs [] ({} : References α) := fun _ => rfl

theorem Backs.perm (h : Backs owners c) (hp : owners.Perm owners') : Backs owners' c :=
  fun b => (h b).trans (hp.count_eq b)

theorem Backs.retain (h : Backs owners c) (a : α) : Backs (a :: owners) (c.retain a) := by
  intro b
  have hb := h b
  simp only [References.retain, Function.update_apply, List.count_cons, beq_iff_eq]
  split
  · subst b
    rw [hb, if_pos rfl]
  · rename_i hne
    rw [hb, if_neg (Ne.symm hne), Nat.add_zero]

theorem Backs.release (h : Backs (a :: owners) c) : Backs owners (c.release a) := by
  intro b
  have hb := h b
  simp only [References.release, Function.update_apply]
  split
  · subst b
    rw [hb, List.count_cons_self, Nat.add_sub_cancel]
  · rename_i hne
    rw [hb, List.count_cons_of_ne (Ne.symm hne)]

/-- The last owner is the one with no other behind it. -/
theorem Backs.count_eq_one_iff (h : Backs (a :: owners) c) : c.count a = 1 ↔ a ∉ owners := by
  rw [h a, List.count_cons_self, Nat.succ_inj, List.count_eq_zero]

theorem Backs.pos_iff (h : Backs owners c) (a : α) : 0 < c.count a ↔ a ∈ owners := by
  rw [h a, List.count_pos_iff]

/-! ## Objects that are gone -/

theorem GoOnce.retain (h : GoOnce c) (ha : a ∉ c.gone) : GoOnce (c.retain a) := by
  refine ⟨h.nodup, fun b hb => ?_⟩
  have hne : b ≠ a := fun heq => ha (heq ▸ hb)
  simpa [References.retain, hne] using h.dead b hb

theorem GoOnce.release (h : GoOnce c) (a : α) : GoOnce (c.release a) := by
  have hzero : ∀ b, c.count b = 0 → (c.release a).count b = 0 := by
    intro b hb
    simp only [References.release, Function.update_apply]
    split
    · subst b
      rw [hb]
    · exact hb
  by_cases hone : c.count a = 1
  · have hgone : (c.release a).gone = c.gone ++ [a] := if_pos hone
    have ha : a ∉ c.gone := fun hmem => by
      have := h.dead a hmem
      omega
    constructor
    · rw [hgone, ← List.concat_eq_append]
      exact List.Nodup.concat ha h.nodup
    · intro b hb
      rw [hgone, List.mem_append, List.mem_singleton] at hb
      rcases hb with hb | rfl
      · exact hzero b (h.dead b hb)
      · simp [References.release, hone]
  · have hgone : (c.release a).gone = c.gone := if_neg hone
    exact ⟨hgone ▸ h.nodup, fun b hb => hzero b (h.dead b (hgone ▸ hb))⟩

/-- Owners of different objects, each the last one, let go one after the other. -/
theorem Backs.releaseAll (h : Backs owners c) (hnodup : owners.Nodup) :
    Backs [] (owners.foldl (fun c a => c.release a) c) ∧
      (owners.foldl (fun c a => c.release a) c).gone = c.gone ++ owners := by
  induction owners generalizing c with
  | nil => exact ⟨h, (List.append_nil _).symm⟩
  | cons a owners ih =>
    obtain ⟨hnot, hrest⟩ := List.nodup_cons.mp hnodup
    have hgone : (c.release a).gone = c.gone ++ [a] := if_pos (h.count_eq_one_iff.mpr hnot)
    obtain ⟨hbacks, hall⟩ := ih h.release hrest
    refine ⟨hbacks, ?_⟩
    rw [List.foldl_cons, hall, hgone, List.append_assoc, List.singleton_append]

theorem GoOnce.releaseAll (h : GoOnce c) (as : List α) :
    GoOnce (as.foldl (fun c a => c.release a) c) := by
  induction as generalizing c with
  | nil => exact h
  | cons a as ih => exact ih (h.release a)

end References

end Tlm
