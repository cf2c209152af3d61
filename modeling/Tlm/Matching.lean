import Mathlib.Data.Nat.Nth

/-!
# Matching the entries of a log

A log in which some entries open something and others close it, under keys: an
opening may be used by one closing of its key that comes later. If no prefix of
the log closes a key more often than it opens it (`Covered`), all closings can
be served at once — the `n`-th closing of a key takes its `n`-th opening
(`Covered.matching`).

`Covered` speaks of every prefix. What a machine keeps is a statement about the
log as a whole, and `Covered.append` says that this is enough as long as the
entries are appended in the right order: openings before closings.
-/

namespace Tlm

universe u v

variable {α : Type u} {κ : Type v} {opens closes : κ → α} {l l₁ l₂ : List α}

/-- The beginnings of a log that has grown. -/
theorem prefix_append_cases {pre : List α} (h : pre <+: l₁ ++ l₂) :
    pre <+: l₁ ∨ ∃ p, p <+: l₂ ∧ pre = l₁ ++ p := by
  obtain ⟨t, ht⟩ := h
  rcases List.append_eq_append_iff.mp ht with ⟨as, rfl, -⟩ | ⟨bs, rfl, rfl⟩
  · exact Or.inl (List.prefix_append pre as)
  · exact Or.inr ⟨bs, List.prefix_append bs t, rfl⟩

variable [DecidableEq α]

/-- Every prefix of the log opens each key at least as often as it closes it. -/
def Covered (opens closes : κ → α) (l : List α) : Prop :=
  ∀ pre, pre <+: l → ∀ k, pre.count (closes k) ≤ pre.count (opens k)

theorem covered_nil : Covered opens closes [] := by
  intro pre hpre k
  rw [List.prefix_nil.mp hpre]
  exact le_refl _

/-- A log may grow by openings, then closings, as long as the whole of it has
enough openings. -/
theorem Covered.append (h : Covered opens closes l) (h₁ : ∀ k, closes k ∉ l₁)
    (h₂ : ∀ k, opens k ∉ l₂)
    (hall : ∀ k, (l ++ l₁ ++ l₂).count (closes k) ≤ (l ++ l₁ ++ l₂).count (opens k)) :
    Covered opens closes (l ++ l₁ ++ l₂) := by
  intro pre hpre k
  have hc₁ : ∀ p, p <+: l₁ → p.count (closes k) = 0 := fun p hp =>
    List.count_eq_zero.mpr fun hm => h₁ k (hp.subset hm)
  have ho₂ : l₂.count (opens k) = 0 := List.count_eq_zero.mpr (h₂ k)
  have hk := hall k
  rcases prefix_append_cases hpre with hpre | ⟨p, hp, rfl⟩
  · rcases prefix_append_cases hpre with hpre | ⟨p, hp, rfl⟩
    · exact h pre hpre k
    · -- only openings have been added so far
      have hl := h l (List.prefix_refl l) k
      rw [List.count_append, List.count_append, hc₁ p hp]
      omega
  · -- the closings that are still missing only make it easier
    have hle : p.count (closes k) ≤ l₂.count (closes k) := hp.sublist.count_le _
    simp only [List.count_append] at hk ⊢
    omega

/-- Counting in a prefix is counting the positions below its end. -/
theorem count_take_eq (l : List α) (a : α) (n : ℕ) :
    (l.take n).count a = Nat.count (fun i => l[i]? = some a) n := by
  induction n with
  | zero => simp
  | succ n ih =>
    rw [List.take_add_one, List.count_append, Nat.count_succ, ih]
    congr 1
    rcases l[n]? with _ | b
    · simp
    · by_cases hb : b = a
      · simp [hb]
      · simp [hb]

/-- **Matching**: in a covered log every closing has an earlier opening of its
key to itself. -/
theorem Covered.matching (h : Covered opens closes l) (hinj : Function.Injective opens)
    (hinj' : Function.Injective closes) (hne : ∀ k k', opens k ≠ closes k') :
    ∃ f : ℕ → ℕ, (∀ i k, l[i]? = some (closes k) → f i < i ∧ l[f i]? = some (opens k)) ∧
      Set.InjOn f {i | ∃ k, l[i]? = some (closes k)} := by
  classical
  -- a closing of `k` at `i` that is the `n`-th takes the `n`-th opening
  let g : κ → ℕ → ℕ := fun k i =>
    Nat.nth (fun j => l[j]? = some (opens k)) (Nat.count (fun j => l[j]? = some (closes k)) i)
  have hlt : ∀ k i, l[i]? = some (closes k) →
      Nat.count (fun j => l[j]? = some (closes k)) i <
        Nat.count (fun j => l[j]? = some (opens k)) i := by
    intro k i hi
    have hpre := h (l.take (i + 1)) (List.take_prefix _ _) k
    have hnot : ¬ l[i]? = some (opens k) := by
      rw [hi]
      exact fun he => hne k k (Option.some.inj he).symm
    rw [count_take_eq, count_take_eq, Nat.count_succ, Nat.count_succ, if_pos hi,
      if_neg hnot] at hpre
    omega
  have hcard : ∀ k i, l[i]? = some (closes k) →
      ∀ hf : (Set.ofPred fun j => l[j]? = some (opens k)).Finite,
        Nat.count (fun j => l[j]? = some (closes k)) i < hf.toFinset.card :=
    fun k i hi hf => lt_of_lt_of_le (hlt k i hi) (Nat.count_le_card hf i)
  have hg : ∀ k i, l[i]? = some (closes k) → g k i < i ∧ l[g k i]? = some (opens k) :=
    fun k i hi => ⟨Nat.nth_lt_of_lt_count (hlt k i hi), Nat.nth_mem _ (hcard k i hi)⟩
  refine ⟨fun i => if hi : ∃ k, l[i]? = some (closes k) then g hi.choose i else 0, ?_, ?_⟩
  · intro i k hi
    have hex : ∃ k, l[i]? = some (closes k) := ⟨k, hi⟩
    have hk : hex.choose = k :=
      hinj' (Option.some.inj (hex.choose_spec.symm.trans hi))
    simp only [dif_pos hex, hk]
    exact hg k i hi
  · intro i hi i' hi' heq
    simp only [dif_pos (show ∃ k, l[i]? = some (closes k) from hi),
      dif_pos (show ∃ k, l[i']? = some (closes k) from hi')] at heq
    have hk := Exists.choose_spec hi
    have hk' := Exists.choose_spec hi'
    generalize Exists.choose hi = k at hk heq
    generalize Exists.choose hi' = k' at hk' heq
    -- the same opening has the same key, and the same number among those of its key
    obtain rfl : k = k' := by
      have h₁ := (hg k i hk).2
      rw [heq, (hg k' i' hk').2] at h₁
      exact (hinj (Option.some.inj h₁)).symm
    have hcount := congrArg (Nat.count fun j => l[j]? = some (opens k)) heq
    rw [Nat.count_nth (hcard k i hk), Nat.count_nth (hcard k i' hk')] at hcount
    exact Nat.count_injective hk hk' hcount

end Tlm
