import Mathlib.Logic.Function.Basic
import Mathlib.Data.Nat.Notation

/-!
# A grow-only store of objects

Objects are named by the order of their creation. Nothing is ever removed, so a
name is never reused: a reference kept by somebody else stays a reference to
the **same** object, disposed or not, and "this object and no other" is plain
inequality of names. An unallocated name denotes the default object.
-/

namespace Tlm

universe u

/-- A store: how many objects there are, and what each of them is now. -/
structure Store (α : Type u) where
  /-- the name the next object will get -/
  next : ℕ
  /-- the current contents of an object -/
  get : ℕ → α

namespace Store

variable {α : Type u}

/-- The store without objects. -/
def empty [Inhabited α] : Store α := ⟨0, fun _ => default⟩

/-- Create an object; its name is `st.next`. -/
def alloc (st : Store α) (a : α) : Store α :=
  ⟨st.next + 1, Function.update st.get st.next a⟩

/-- Overwrite an object. -/
def set (st : Store α) (x : ℕ) (a : α) : Store α :=
  { st with get := Function.update st.get x a }

@[simp] theorem get_empty [Inhabited α] (x : ℕ) : (empty : Store α).get x = default := rfl

@[simp] theorem next_empty [Inhabited α] : (empty : Store α).next = 0 := rfl

@[simp] theorem next_alloc (st : Store α) (a : α) : (st.alloc a).next = st.next + 1 := rfl

@[simp] theorem next_set (st : Store α) (x : ℕ) (a : α) : (st.set x a).next = st.next := rfl

@[simp] theorem get_alloc_self (st : Store α) (a : α) : (st.alloc a).get st.next = a :=
  Function.update_self ..

@[simp] theorem get_set_self (st : Store α) (x : ℕ) (a : α) : (st.set x a).get x = a :=
  Function.update_self ..

@[simp] theorem set_alloc_self (st : Store α) (a b : α) :
    (st.alloc a).set st.next b = st.alloc b := by
  simp [alloc, set]

@[simp] theorem set_set_self (st : Store α) (x : ℕ) (a b : α) :
    (st.set x a).set x b = st.set x b := by
  simp [set]

@[simp] theorem set_get_self (st : Store α) (x : ℕ) : st.set x (st.get x) = st := by
  simp [set]

theorem get_alloc (st : Store α) (a : α) (y : ℕ) :
    (st.alloc a).get y = if y = st.next then a else st.get y :=
  Function.update_apply ..

theorem get_set (st : Store α) (x : ℕ) (a : α) (y : ℕ) :
    (st.set x a).get y = if y = x then a else st.get y :=
  Function.update_apply ..

theorem get_alloc_ne (st : Store α) (a : α) {y : ℕ} (h : y ≠ st.next) :
    (st.alloc a).get y = st.get y :=
  Function.update_of_ne h ..

theorem get_set_ne (st : Store α) {x : ℕ} (a : α) {y : ℕ} (h : y ≠ x) :
    (st.set x a).get y = st.get y :=
  Function.update_of_ne h ..

end Store

end Tlm
