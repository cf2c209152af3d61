import Mathlib.Data.Nat.Notation

/-!
# Blocks of memory

A block is what an allocation gives: a fixed number of cells. Writing is allowed at
**any** index, as in C. A write inside the block changes a cell; one outside changes
nothing here, and is remembered all the same, so that "every write was inside" is a
statement about the finished block (`InBounds`) and not a condition on each write.

`fill` is the loop that writes a list from some index on; `inBounds_fill` and
`cells_fill` say what it comes to.
-/

namespace Tlm

universe u

/-- A block: its cells, and the indices that were written to. -/
structure Block (α : Type u) where
  /-- the contents -/
  cells : List α
  /-- the indices written to, in order -/
  touched : List ℕ
  deriving DecidableEq, Repr

namespace Block

variable {α : Type u} {b : Block α} {i : ℕ} {a : α} {as : List α}

/-- A fresh block of `n` cells with the contents `a`. -/
def alloc (n : ℕ) (a : α) : Block α := ⟨List.replicate n a, []⟩

/-- How many cells the block has. -/
def size (b : Block α) : ℕ := b.cells.length

/-- One write. -/
def write (b : Block α) (i : ℕ) (a : α) : Block α := ⟨b.cells.set i a, b.touched ++ [i]⟩

/-- Writing the elements of a list one after the other, the first at `i`. -/
def fill (b : Block α) (i : ℕ) : List α → Block α
  | [] => b
  | a :: as => (b.write i a).fill (i + 1) as

/-- Every write was inside the block. -/
def InBounds (b : Block α) : Prop := ∀ i ∈ b.touched, i < b.size

instance : Decidable b.InBounds := inferInstanceAs (Decidable (∀ i ∈ b.touched, i < b.size))

@[simp] theorem size_alloc (n : ℕ) : (alloc n a).size = n := List.length_replicate

@[simp] theorem size_write : (b.write i a).size = b.size := List.length_set

@[simp] theorem size_fill : (b.fill i as).size = b.size := by
  induction as generalizing b i with
  | nil => rfl
  | cons a as ih => exact ih.trans size_write

theorem touched_fill : (b.fill i as).touched = b.touched ++ List.range' i as.length := by
  induction as generalizing b i with
  | nil => simp [fill]
  | cons a as ih => simp [fill, ih, write, List.range'_succ]

theorem inBounds_alloc (n : ℕ) : (alloc n a).InBounds := by
  intro i hi
  exact absurd hi (by simp [alloc])

@[simp] theorem inBounds_write : (b.write i a).InBounds ↔ b.InBounds ∧ i < b.size := by
  rw [InBounds, size_write]
  simp only [InBounds, write, List.mem_append, List.mem_singleton, or_imp, forall_and, forall_eq]

theorem inBounds_fill :
    (b.fill i as).InBounds ↔ b.InBounds ∧ (as ≠ [] → i + as.length ≤ b.size) := by
  induction as generalizing b i with
  | nil => simp [fill]
  | cons a as ih =>
    rw [fill, ih, inBounds_write, size_write]
    cases as with
    | nil =>
      simp only [ne_eq, not_true_eq_false, false_imp_iff, and_true, reduceCtorEq, not_false_eq_true,
        true_imp_iff, List.length_singleton]
      exact Iff.rfl
    | cons c cs =>
      simp only [List.length_cons, ne_eq, reduceCtorEq, not_false_eq_true, true_imp_iff, and_assoc,
        and_congr_right_iff]
      intro _
      omega

/-- A list that fits replaces the cells from `i` on. -/
theorem cells_fill (h : i + as.length ≤ b.size) :
    (b.fill i as).cells = b.cells.take i ++ as ++ b.cells.drop (i + as.length) := by
  induction as generalizing b i with
  | nil => simp [fill]
  | cons a as ih =>
    rw [List.length_cons] at h
    have hi : i < b.cells.length := Nat.lt_of_lt_of_le (by omega) h
    have htake : (b.cells.set i a).take (i + 1) = b.cells.take i ++ [a] := by
      rw [List.take_succ_eq_append_getElem (by simpa using hi), List.take_set,
        List.set_eq_of_length_le (List.length_take_le i _), List.getElem_set_self]
    have hdrop : (b.cells.set i a).drop (i + 1 + as.length) =
        b.cells.drop (i + 1 + as.length) := by
      rw [List.drop_set, if_pos (by omega)]
    rw [fill, ih (by rw [size_write]; omega), write, htake, hdrop, List.length_cons]
    simp [Nat.add_assoc, Nat.add_comm 1]

/-! ## Lists ended by an empty cell -/

/-- The list a reader finds that stops at the first empty cell. -/
def readList (b : Block (Option α)) : List α :=
  (b.cells.takeWhile Option.isSome).filterMap fun a => a

/-- A list with room behind it is read back. -/
theorem readList_fill {n : ℕ} (h : as.length < n) :
    ((alloc n none).fill 0 (as.map some)).readList = as := by
  have hall : ∀ a ∈ as.map some, Option.isSome a = true := by
    intro a ha
    obtain ⟨a, -, rfl⟩ := List.mem_map.mp ha
    rfl
  obtain ⟨k, hk⟩ := Nat.exists_eq_add_of_lt h
  rw [readList, cells_fill (by simp; omega)]
  simp only [alloc, List.take_zero, List.nil_append, List.drop_replicate, List.length_map,
    Nat.zero_add]
  rw [List.takeWhile_append_of_pos hall]
  have hrest : n - as.length = k + 1 := by omega
  rw [hrest, List.replicate_succ, List.takeWhile_cons_of_neg (by simp), List.append_nil,
    List.filterMap_map]
  exact List.filterMap_some

end Block

end Tlm
