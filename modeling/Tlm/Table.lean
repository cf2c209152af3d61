import Mathlib.Data.List.Nodup

/-!
# Tables of lists

An association list `List (α × List β)` used as a hash table of lists: a key has
at most one row, and a row can be replaced, removed or added. What the table
holds **altogether** is the list `rows f t` of the `f key entry`, and each
operation on a row changes the number of times something is held by what it
changes in that row alone.
-/

namespace Tlm

namespace Table

universe u v w

variable {α : Type u} {β : Type v} {γ : Type w}

/-- The keys of a table. -/
def keys (t : List (α × β)) : List α := t.map Prod.fst

/-- Everything a table of lists holds. -/
def rows (f : α → β → γ) (t : List (α × List β)) : List γ := t.flatMap fun e => e.2.map (f e.1)

/-! ## Keys and rows -/

section Keys

variable {t t' : List (α × β)} {d : α} {b b' : β}

theorem mem_keys : d ∈ keys t ↔ ∃ b, (d, b) ∈ t := by
  simp [keys]

theorem mem_keys_of_mem {e : α × β} (h : e ∈ t) : e.1 ∈ keys t := List.mem_map_of_mem h

theorem ne_of_notMem {e : α × β} (h : d ∉ keys t) (he : e ∈ t) : e.1 ≠ d := by
  rintro rfl
  exact h (mem_keys_of_mem he)

theorem keys_append : keys (t ++ t') = keys t ++ keys t' := List.map_append

/-- A key has one row. -/
theorem eq_of_mem (hnd : (keys t).Nodup) (h : (d, b) ∈ t) (h' : (d, b') ∈ t) : b = b' := by
  have he := List.inj_on_of_nodup_map hnd h h' rfl
  exact congrArg Prod.snd he

end Keys

section Lookup

variable [BEq α] [LawfulBEq α] {t : List (α × β)} {d : α} {b : β}

theorem lookup_eq_none : t.lookup d = none ↔ d ∉ keys t := by
  rw [List.lookup_eq_none_iff]
  constructor
  · rintro h hd
    obtain ⟨b, hb⟩ := mem_keys.mp hd
    simpa using h _ hb
  · intro h e he
    simp only [bne_iff_ne, ne_eq]
    rintro rfl
    exact h (mem_keys_of_mem he)

theorem mem_of_lookup (h : t.lookup d = some b) : (d, b) ∈ t := by
  obtain ⟨t₁, t₂, rfl, -⟩ := List.lookup_eq_some_iff.mp h
  simp

theorem lookup_of_mem (hnd : (keys t).Nodup) (h : (d, b) ∈ t) : t.lookup d = some b := by
  rcases hl : t.lookup d with _ | b'
  · exact absurd (mem_keys_of_mem h) (lookup_eq_none.mp hl)
  · rw [eq_of_mem hnd h (mem_of_lookup hl)]

/-- The order of the rows of a table does not matter. -/
theorem lookup_perm {t' : List (α × β)} (hnd : (keys t).Nodup) (h : t'.Perm t) (d : α) :
    t'.lookup d = t.lookup d := by
  have hnd' : (keys t').Nodup := (h.map Prod.fst).nodup_iff.mpr hnd
  rcases hl : t.lookup d with _ | b
  · rw [lookup_eq_none] at hl ⊢
    rwa [keys, (h.map Prod.fst).mem_iff]
  · exact lookup_of_mem hnd' (h.mem_iff.mpr (mem_of_lookup hl))

/-- The row of a key, with what stands before and behind it. -/
theorem split_of_lookup (hnd : (keys t).Nodup) (h : t.lookup d = some b) :
    ∃ t₁ t₂, t = t₁ ++ (d, b) :: t₂ ∧ d ∉ keys t₁ ∧ d ∉ keys t₂ := by
  obtain ⟨t₁, t₂, rfl, -⟩ := List.lookup_eq_some_iff.mp h
  rw [keys_append] at hnd
  obtain ⟨-, hnd₂, hdisj⟩ := List.nodup_append.mp hnd
  refine ⟨t₁, t₂, rfl, fun hd => hdisj d hd d List.mem_cons_self rfl, ?_⟩
  exact (List.nodup_cons.mp hnd₂).1

end Lookup

section Rows

variable {f : α → β → γ} {t t' : List (α × List β)} {d : α} {ns : List β}

theorem mem_rows {x : γ} : x ∈ rows f t ↔ ∃ d ns, (d, ns) ∈ t ∧ ∃ n ∈ ns, f d n = x := by
  simp [rows, List.mem_flatMap]

theorem rows_append : rows f (t ++ t') = rows f t ++ rows f t' := List.flatMap_append

theorem rows_cons : rows f ((d, ns) :: t) = ns.map (f d) ++ rows f t := List.flatMap_cons

theorem rows_concat : rows f (t ++ [(d, ns)]) = rows f t ++ ns.map (f d) := by
  rw [rows_append, rows_cons]
  simp [rows]

/-- What a row holds twice the table holds twice. -/
theorem count_row_le [BEq γ] (h : (d, ns) ∈ t) (x : γ) :
    (ns.map (f d)).count x ≤ (rows f t).count x := by
  obtain ⟨t₁, t₂, rfl⟩ := List.append_of_mem h
  simp only [rows_append, rows_cons, List.count_append]
  omega

end Rows

/-! ## Replacing and removing a row -/

variable [DecidableEq α]

/-- Replace the row of a key. -/
def replace (d : α) (b : β) (t : List (α × β)) : List (α × β) :=
  t.map fun e => if e.1 = d then (d, b) else e

/-- Remove the row of a key. -/
def remove (d : α) (t : List (α × β)) : List (α × β) := t.filter fun e => e.1 ≠ d

section Keys

variable {t t₁ t₂ : List (α × β)} {d : α} {b b' : β}

theorem keys_replace : keys (replace d b t) = keys t := by
  simp only [keys, replace, List.map_map]
  apply List.map_congr_left
  intro e _
  simp only [Function.comp_apply]
  split
  · rename_i h
    exact h.symm
  · rfl

theorem keys_remove : keys (remove d t) = (keys t).filter (· ≠ d) := by
  simp only [keys, remove, List.filter_map]
  rfl

theorem replace_of_notMem (h : d ∉ keys t) : replace d b t = t := by
  have hid : t.map (fun e => if e.1 = d then (d, b) else e) = t.map id := by
    apply List.map_congr_left
    intro e he
    rw [if_neg (ne_of_notMem h he)]
    rfl
  exact hid.trans t.map_id

theorem remove_of_notMem (h : d ∉ keys t) : remove d t = t := by
  apply List.filter_eq_self.mpr
  intro e he
  simpa using ne_of_notMem h he

theorem replace_split (h₁ : d ∉ keys t₁) (h₂ : d ∉ keys t₂) :
    replace d b' (t₁ ++ (d, b) :: t₂) = t₁ ++ (d, b') :: t₂ := by
  have happ : replace d b' (t₁ ++ (d, b) :: t₂) =
      replace d b' t₁ ++ (if d = d then (d, b') else (d, b)) :: replace d b' t₂ := by
    simp only [replace, List.map_append, List.map_cons]
  rw [happ, replace_of_notMem h₁, replace_of_notMem h₂, if_pos rfl]

theorem remove_split (h₁ : d ∉ keys t₁) (h₂ : d ∉ keys t₂) :
    remove d (t₁ ++ (d, b) :: t₂) = t₁ ++ t₂ := by
  have happ : remove d (t₁ ++ (d, b) :: t₂) = remove d t₁ ++ remove d t₂ := by
    simp [remove]
  rw [happ, remove_of_notMem h₁, remove_of_notMem h₂]

/-- A row of a table in which a row was replaced. -/
theorem mem_replace {e : α × β} (h : e ∈ replace d b t) : e = (d, b) ∨ (e ∈ t ∧ e.1 ≠ d) := by
  obtain ⟨e', he', rfl⟩ := List.mem_map.mp h
  split
  · exact Or.inl rfl
  · rename_i hd
    exact Or.inr ⟨he', hd⟩

theorem mem_remove {e : α × β} : e ∈ remove d t ↔ e ∈ t ∧ e.1 ≠ d := by
  simp [remove, List.mem_filter]

end Keys

/-! ## Inserting -/

section Insert

variable {t : List (α × β)} {d : α} {e : α × β}

/-- Insert a row, in the place of the one its key has. -/
def insert (t : List (α × β)) (e : α × β) : List (α × β) :=
  if e.1 ∈ keys t then replace e.1 e.2 t else t ++ [e]

theorem nodup_insert (h : (keys t).Nodup) (e : α × β) : (keys (insert t e)).Nodup := by
  rw [insert]
  split
  · rw [keys_replace]
    exact h
  · rename_i hnew
    rw [keys_append]
    exact h.append (List.nodup_singleton _) (by simpa [keys] using hnew)

theorem nodup_foldl_insert (h : (keys t).Nodup) (es : List (α × β)) :
    (keys (es.foldl insert t)).Nodup := by
  induction es generalizing t with
  | nil => exact h
  | cons e es ih => exact ih (nodup_insert h e)

variable [BEq α] [LawfulBEq α]

theorem lookup_cons_eq (d : α) (e : α × β) (t : List (α × β)) :
    (e :: t).lookup d = if d = e.1 then some e.2 else t.lookup d := by
  rw [List.lookup_cons]
  by_cases hd : d = e.1
  · simp [hd]
  · rw [if_neg hd, beq_eq_false_iff_ne.mpr hd]

theorem lookup_replace_ne {d' : α} (h : d' ≠ d) (b : β) (t : List (α × β)) :
    (replace d b t).lookup d' = t.lookup d' := by
  induction t with
  | nil => rfl
  | cons e t ih =>
    have hcons : replace d b (e :: t) = (if e.1 = d then (d, b) else e) :: replace d b t := rfl
    rw [hcons, lookup_cons_eq, lookup_cons_eq, ih]
    split
    · rename_i he
      rw [he, if_neg h]
    · rfl

theorem lookup_replace_self (h : d ∈ keys t) (b : β) : (replace d b t).lookup d = some b := by
  induction t with
  | nil => cases h
  | cons e t ih =>
    have hcons : replace d b (e :: t) = (if e.1 = d then (d, b) else e) :: replace d b t := rfl
    rw [hcons, lookup_cons_eq]
    by_cases he : e.1 = d
    · rw [if_pos he, if_pos rfl]
    · rw [if_neg he, if_neg (Ne.symm he)]
      rcases List.mem_cons.mp h with hd | hd
      · exact absurd hd.symm he
      · exact ih hd

/-- An insertion is found under its key, and changes nothing else. -/
theorem lookup_insert (t : List (α × β)) (e : α × β) (d : α) :
    (insert t e).lookup d = if d = e.1 then some e.2 else t.lookup d := by
  rw [insert]
  split
  · rename_i hmem
    split
    · rename_i hd
      rw [hd]
      exact lookup_replace_self hmem e.2
    · rename_i hd
      exact lookup_replace_ne hd e.2 t
  · rename_i hnew
    rw [List.lookup_append, lookup_cons_eq]
    split
    · rename_i hd
      rw [hd, lookup_eq_none.mpr hnew]
      rfl
    · exact Option.or_none

/-- Of several insertions the last under a key counts. -/
theorem lookup_foldl_insert (es t : List (α × β)) (d : α) :
    (es.foldl insert t).lookup d = (es.reverse.lookup d).or (t.lookup d) := by
  induction es generalizing t with
  | nil => rfl
  | cons e es ih =>
    rw [List.foldl_cons, ih, lookup_insert, List.reverse_cons, List.lookup_append, lookup_cons_eq,
      Option.or_assoc]
    congr 1
    split <;> rfl

end Insert

section Rows

variable {f : α → β → γ} {t : List (α × List β)} {d : α} {ns : List β} [BEq γ]
  [BEq α] [LawfulBEq α]

/-- Replacing a row changes the counts by what it changes in the row. -/
theorem count_rows_replace (hnd : (keys t).Nodup) (h : t.lookup d = some ns) (ns' : List β) (x : γ) :
    (rows f (replace d ns' t)).count x + (ns.map (f d)).count x =
      (rows f t).count x + (ns'.map (f d)).count x := by
  obtain ⟨t₁, t₂, rfl, h₁, h₂⟩ := split_of_lookup hnd h
  rw [replace_split h₁ h₂]
  simp only [rows_append, rows_cons, List.count_append]
  omega

/-- Removing a row takes away what it held. -/
theorem count_rows_remove (hnd : (keys t).Nodup) (h : t.lookup d = some ns) (x : γ) :
    (rows f (remove d t)).count x + (ns.map (f d)).count x = (rows f t).count x := by
  obtain ⟨t₁, t₂, rfl, h₁, h₂⟩ := split_of_lookup hnd h
  rw [remove_split h₁ h₂]
  simp only [rows_append, rows_cons, List.count_append]
  omega

end Rows

end Table

end Tlm
