import Mathlib.Logic.Function.Basic

/-!
# Names that are bound to holders

Holders share a space of names: each may have a name, and a name leads to one of them at most.
What a holder has is its own account, and what the name leads to is everybody's; an operation
on a name may take it from under another holder, who does not hear of it. A binding is
`Exact` when the two accounts agree, and each operation says what keeps it so: nobody else
must have the name that is bound or removed.
-/

namespace Tlm

universe u v

/-- The name each holder has, and the holder each name leads to. -/
structure Binding (ι : Type u) (ν : Type v) where
  /-- the holder's account -/
  name : ι → Option ν
  /-- the account of the name space -/
  holder : ν → Option ι

namespace Binding

variable {ι : Type u} {ν : Type v} {b : Binding ι ν} {i j : ι} {n : ν}

/-- Nobody has a name. -/
def empty : Binding ι ν := ⟨fun _ => none, fun _ => none⟩

/-- The two accounts agree. -/
def Exact (b : Binding ι ν) : Prop := ∀ i n, b.holder n = some i ↔ b.name i = some n

/-- Nobody has the name. -/
def Free (b : Binding ι ν) (n : ν) : Prop := ∀ i, b.name i ≠ some n

theorem exact_empty : (empty : Binding ι ν).Exact := fun _ _ => by simp [empty]

/-- A name has one holder. -/
theorem Exact.eq (h : b.Exact) (hi : b.name i = some n) (hj : b.name j = some n) : i = j :=
  Option.some.inj (((h i n).mpr hi).symm.trans ((h j n).mpr hj))

/-! ## Removing a name -/

variable [DecidableEq ν]

/-- The name leads nowhere any more. -/
def unlink (b : Binding ι ν) (n : ν) : Binding ι ν :=
  { b with holder := Function.update b.holder n none }

@[simp] theorem name_unlink (b : Binding ι ν) (n : ν) : (b.unlink n).name = b.name := rfl

theorem Exact.unlink (h : b.Exact) (hn : b.Free n) : (b.unlink n).Exact := by
  intro j m
  change Function.update b.holder n none m = some j ↔ b.name j = some m
  by_cases hm : m = n
  · rw [hm, Function.update_self]
    exact iff_of_false (by simp) (hn j)
  · rw [Function.update_of_ne hm]
    exact h j m

/-! ## Taking a name, and giving it up -/

variable [DecidableEq ι]

/-- Holder `i` takes the name. -/
def bind (b : Binding ι ν) (i : ι) (n : ν) : Binding ι ν :=
  ⟨Function.update b.name i (some n), Function.update b.holder n (some i)⟩

/-- Holder `i` gives its name up, and the name is removed with it. -/
def release (b : Binding ι ν) (i : ι) : Binding ι ν :=
  match b.name i with
  | none => b
  | some n => ⟨Function.update b.name i none, Function.update b.holder n none⟩

@[simp] theorem name_bind_self (b : Binding ι ν) (i : ι) (n : ν) :
    (b.bind i n).name i = some n := Function.update_self ..

theorem name_bind_of_ne (n : ν) (h : j ≠ i) : (b.bind i n).name j = b.name j :=
  Function.update_of_ne h ..

@[simp] theorem name_release_self (b : Binding ι ν) (i : ι) : (b.release i).name i = none := by
  simp only [release]
  split
  · assumption
  · exact Function.update_self ..

theorem name_release_of_ne (h : j ≠ i) : (b.release i).name j = b.name j := by
  simp only [release]
  split
  · rfl
  · exact Function.update_of_ne h ..

theorem Exact.bind (h : b.Exact) (hi : b.name i = none) (hn : b.Free n) : (b.bind i n).Exact := by
  intro j m
  change Function.update b.holder n (some i) m = some j ↔
    Function.update b.name i (some n) j = some m
  by_cases hm : m = n
  · rw [hm, Function.update_self]
    by_cases hj : j = i
    · rw [hj, Function.update_self]
      exact iff_of_true rfl rfl
    · rw [Function.update_of_ne hj]
      exact iff_of_false (fun h => hj (Option.some.inj h).symm) (hn j)
  · rw [Function.update_of_ne hm, h j m]
    by_cases hj : j = i
    · rw [hj, Function.update_self, hi]
      exact iff_of_false (by simp) fun h => hm (Option.some.inj h).symm
    · rw [Function.update_of_ne hj]

/-- A name that is given up is nobody else's. -/
theorem Exact.release (h : b.Exact) (i : ι) : (b.release i).Exact := by
  simp only [Binding.release]
  split
  · exact h
  · rename_i n hi
    intro j m
    change Function.update b.holder n none m = some j ↔ Function.update b.name i none j = some m
    by_cases hj : j = i
    · rw [hj, Function.update_self]
      refine iff_of_false (fun hm => ?_) (by simp)
      by_cases hmn : m = n
      · rw [hmn, Function.update_self] at hm
        cases hm
      · rw [Function.update_of_ne hmn, h i m, hi] at hm
        exact hmn (Option.some.inj hm).symm
    · rw [Function.update_of_ne hj]
      by_cases hmn : m = n
      · rw [hmn, Function.update_self]
        exact iff_of_false (by simp) fun hn => hj (h.eq hn hi)
      · rw [Function.update_of_ne hmn]
        exact h j m

end Binding

end Tlm
