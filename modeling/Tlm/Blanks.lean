import Mathlib.Data.List.DropRight
import Mathlib.Data.Nat.Notation

/-!
# Stripping blanks

Which characters are blank is a parameter. A text is blank altogether, or it has a first
character that is not (`exists_first`), and with that character in view `strip` is plain
(`strip_first`). Blanks may be added at both ends of a text, and the characters that are
not blank are all kept, which their number tells (`countP_strip`).
-/

namespace Tlm

namespace Blanks

universe u

variable {α : Type u}

/-- A text without the blanks at its ends. -/
def strip (blank : α → Bool) (cs : List α) : List α := (cs.dropWhile blank).rdropWhile blank

/-- There are only blanks. -/
def AllBlank (blank : α → Bool) (cs : List α) : Prop := ∀ c ∈ cs, blank c = true

section

variable {blank : α → Bool} {b cs q : List α} {c : α}

theorem AllBlank.append (h : AllBlank blank b) (h' : AllBlank blank cs) :
    AllBlank blank (b ++ cs) := by
  intro c hc
  obtain hc | hc := List.mem_append.mp hc
  · exact h c hc
  · exact h' c hc

theorem AllBlank.drop (h : AllBlank blank cs) (n : ℕ) : AllBlank blank (cs.drop n) :=
  fun c hc => h c (List.mem_of_mem_drop hc)

theorem allBlank_flatten {pieces : List (List α)} :
    AllBlank blank pieces.flatten ↔ ∀ p ∈ pieces, AllBlank blank p := by
  constructor
  · exact fun h p hp c hc => h c (List.mem_flatten.mpr ⟨p, hp, hc⟩)
  · intro h c hc
    obtain ⟨p, hp, hc⟩ := List.mem_flatten.mp hc
    exact h p hp c hc

/-- **The first character that is not blank**, if there is one. -/
theorem exists_first (h : ¬AllBlank blank cs) :
    ∃ b c q, cs = b ++ c :: q ∧ AllBlank blank b ∧ blank c = false := by
  cases hrest : cs.dropWhile blank with
  | nil => exact absurd (List.dropWhile_eq_nil_iff.mp hrest) h
  | cons c q =>
    refine ⟨cs.takeWhile blank, c, q, ?_, fun x hx => List.mem_takeWhile_imp hx, ?_⟩
    · rw [← hrest, List.takeWhile_append_dropWhile]
    · have hhead := List.head?_dropWhile_not blank cs
      simpa [hrest] using hhead

/-! ## At the end of a text -/

theorem rdropWhile_append_blank (h : AllBlank blank b) :
    (cs ++ b).rdropWhile blank = cs.rdropWhile blank := by
  induction b using List.reverseRecOn with
  | nil => rw [List.append_nil]
  | append_singleton b x ih =>
    have hx : blank x = true := h x (List.mem_append_right b (List.mem_singleton_self x))
    rw [← List.append_assoc, List.rdropWhile_concat_pos _ _ _ hx]
    exact ih fun c hc => h c (List.mem_append_left _ hc)

/-- What is taken away at the end is blank. -/
theorem exists_rdropWhile (blank : α → Bool) (cs : List α) :
    ∃ b, cs = cs.rdropWhile blank ++ b ∧ AllBlank blank b :=
  ⟨cs.rtakeWhile blank, List.rdropWhile_append_rtakeWhile.symm,
    fun _ hc => List.mem_rtakeWhile_imp hc⟩

theorem rdropWhile_cons (hc : blank c = false) :
    (c :: q).rdropWhile blank = c :: q.rdropWhile blank := by
  induction q using List.reverseRecOn with
  | nil => rw [List.rdropWhile_singleton, hc]; rfl
  | append_singleton q x ih =>
    rw [← List.cons_append, List.rdropWhile_concat, List.rdropWhile_concat]
    split
    · exact ih
    · rfl

/-- A text that ends without a blank is not blank from anywhere on. -/
theorem allBlank_drop_rdropWhile_iff (blank : α → Bool) (cs : List α) (n : ℕ) :
    AllBlank blank ((cs.rdropWhile blank).drop n) ↔ (cs.rdropWhile blank).length ≤ n := by
  constructor
  · intro h
    obtain hnil | ⟨init, x, hlast⟩ := List.eq_nil_or_concat' (cs.rdropWhile blank)
    · rw [hnil]
      exact Nat.zero_le n
    · have hx := List.rdropWhile_last_not blank cs (by simp [hlast])
      by_contra hlong
      rw [hlast, List.length_append, List.length_singleton] at hlong
      rw [hlast, List.drop_append_of_le_length (by omega)] at h
      refine hx ?_
      simp only [hlast, List.getLast_append_singleton]
      exact h x (List.mem_append_right _ (List.mem_singleton_self x))
  · intro h
    rw [List.drop_of_length_le h]
    exact nofun

/-! ## At both ends -/

theorem strip_blank_append (h : AllBlank blank b) : strip blank (b ++ cs) = strip blank cs := by
  rw [strip, List.dropWhile_append_of_pos h, strip]

/-- A text with its first character that is not blank. -/
theorem strip_first (hb : AllBlank blank b) (hc : blank c = false) :
    strip blank (b ++ c :: q) = c :: q.rdropWhile blank := by
  rw [strip_blank_append hb, strip, List.dropWhile_cons_of_neg (by simp [hc]), rdropWhile_cons hc]

theorem strip_of_allBlank (h : AllBlank blank cs) : strip blank cs = [] := by
  rw [strip, List.dropWhile_eq_nil_iff.mpr h, List.rdropWhile_nil]

theorem strip_eq_nil_iff : strip blank cs = [] ↔ AllBlank blank cs := by
  refine ⟨fun h => ?_, strip_of_allBlank⟩
  by_contra hnot
  obtain ⟨b, c, q, rfl, hb, hc⟩ := exists_first hnot
  rw [strip_first hb hc] at h
  exact List.cons_ne_nil _ _ h

theorem strip_append_blank (h : AllBlank blank b) : strip blank (cs ++ b) = strip blank cs := by
  by_cases hcs : AllBlank blank cs
  · rw [strip_of_allBlank hcs, strip_of_allBlank (hcs.append h)]
  · obtain ⟨b', c, q, rfl, hb', hc⟩ := exists_first hcs
    rw [List.append_assoc, List.cons_append, strip_first hb' hc, strip_first hb' hc,
      rdropWhile_append_blank h]

theorem strip_strip (blank : α → Bool) (cs : List α) :
    strip blank (strip blank cs) = strip blank cs := by
  by_cases hcs : AllBlank blank cs
  · rw [strip_of_allBlank hcs]
    rfl
  · obtain ⟨b, c, q, rfl, hb, hc⟩ := exists_first hcs
    have hnil : AllBlank blank ([] : List α) := nofun
    rw [strip_first hb hc, ← List.nil_append (c :: _), strip_first hnil hc,
      List.rdropWhile_idempotent]
    rfl

/-- Blanks at the end do not matter for what is behind the first characters. -/
theorem strip_drop_rdropWhile (blank : α → Bool) (q : List α) (n : ℕ) :
    strip blank ((q.rdropWhile blank).drop n) = strip blank (q.drop n) := by
  obtain ⟨b, hq, hb⟩ := exists_rdropWhile blank q
  conv_rhs => rw [hq, List.drop_append]
  exact (strip_append_blank (hb.drop _)).symm

/-- The characters that are not blank are kept. -/
theorem countP_strip (blank : α → Bool) (cs : List α) :
    (strip blank cs).countP (fun c => !blank c) = cs.countP (fun c => !blank c) := by
  have hzero : ∀ {b : List α}, AllBlank blank b → b.countP (fun c => !blank c) = 0 :=
    fun hb => List.countP_eq_zero.mpr fun c hc => by simp [hb c hc]
  by_cases hcs : AllBlank blank cs
  · rw [strip_of_allBlank hcs, hzero hcs]
    rfl
  · obtain ⟨b, c, q, rfl, hb, hc⟩ := exists_first hcs
    obtain ⟨b', hq, hb'⟩ := exists_rdropWhile blank q
    rw [strip_first hb hc, List.countP_append, hzero hb, Nat.zero_add]
    conv_rhs => rw [hq, ← List.cons_append, List.countP_append, hzero hb', Nat.add_zero]

theorem countP_pos (h : ¬AllBlank blank cs) : 0 < cs.countP (fun c => !blank c) := by
  obtain ⟨b, c, q, rfl, -, hc⟩ := exists_first h
  refine List.countP_pos_iff.mpr ⟨c, List.mem_append_right b List.mem_cons_self, ?_⟩
  rw [hc]
  rfl

end

end Blanks

end Tlm
