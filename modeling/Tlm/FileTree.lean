import Mathlib.Data.List.Induction
import Mathlib.Data.Nat.Notation

/-!
# File trees

A file tree is a finite table of places: a place is the list of the names on the way
from the root, and holds a file, a symbolic link or a directory. What is below a
directory is in the table under longer places, so that removing something changes
**one** entry, and "unchanged" is equality of what the places hold.

A *path* is something else: it is what a program hands to the system, and it is walked
from the root, through `.` and `..` and along symbolic links (`walk`). The calls that do
not follow a last link look at the place the path *names* (`locate`). Two facts carry
everything that is proved about programs that only remove:

* In a smaller tree a path leads to the same place or nowhere (`walk_of_le`).
* A path that names a directory, walked to its end, leads to that directory
  (`walk_eq_of_locate`), and so what is reached through it is below it.
-/

namespace Tlm

/-- The names on the way from the root. -/
abbrev Place := List String

/-- What a place holds. -/
inductive Kind : Type where
  /-- a regular file, with its contents, or a special one -/
  | file (contents : List UInt8)
  /-- a symbolic link: whether its target starts at the root, and the target's names -/
  | link (absolute : Bool) (target : List String)
  /-- a directory -/
  | dir
  deriving DecidableEq, Repr

/-- A finite tree. The root is a directory and is not in the table. -/
structure FileTree where
  /-- what is where -/
  entries : List (Place × Kind)
  /-- a place holds one thing -/
  nodup : (entries.map Prod.fst).Nodup
  /-- everything is in a directory -/
  closed : ∀ e ∈ entries, e.1 ≠ [] ∧ (e.1.dropLast = [] ∨ (e.1.dropLast, Kind.dir) ∈ entries)

namespace FileTree

/-- What a place holds, if anything. -/
def kind (t : FileTree) (p : Place) : Option Kind :=
  if p = [] then some .dir else (t.entries.find? fun e => e.1 = p).map Prod.snd

/-- The names in a directory, in the order of the table. -/
def children (t : FileTree) (p : Place) : List String :=
  t.entries.filterMap fun e => if e.1.dropLast = p then e.1.getLast? else none

/-- How deep the tree is. -/
def height (t : FileTree) : ℕ := t.entries.foldl (fun n e => max n e.1.length) 0

/-- Walking a path from a directory. Every step costs one of the steps that are allowed;
along a link the target's names come before the rest. -/
def walk (t : FileTree) : ℕ → Place → List String → Option Place
  | 0, _, _ => none
  | _ + 1, cur, [] => some cur
  | steps + 1, cur, n :: rest =>
    if n = "." then walk t steps cur rest
    else if n = ".." then walk t steps cur.dropLast rest
    else match t.kind (cur ++ [n]) with
      | none => none
      | some .dir => walk t steps (cur ++ [n]) rest
      | some (.link absolute target) => walk t steps (if absolute then [] else cur) (target ++ rest)
      | some (.file _) => if rest = [] then some (cur ++ [n]) else none

/-- Is the name one of a directory's entry, and not `.` or `..`? -/
def IsName (n : String) : Prop := n ≠ "." ∧ n ≠ ".."

instance (n : String) : Decidable (IsName n) := inferInstanceAs (Decidable (_ ∧ _))

/-- The place a path names: a link at its end is not followed. -/
def locate (t : FileTree) (steps : ℕ) (path : List String) : Option Place :=
  match path.getLast? with
  | none => some []
  | some n => if IsName n then (t.walk steps [] path.dropLast).map (· ++ [n]) else t.walk steps [] path

/-! ## Removing -/

/-- Is there something directly below a place? -/
def hasChild (t : FileTree) (p : Place) : Bool := t.entries.any fun e => e.1.dropLast = p

/-- The tree without what a place holds; nothing may be below it. -/
def erase (t : FileTree) (p : Place) (h : t.hasChild p = false) : FileTree where
  entries := t.entries.filter fun e => e.1 ≠ p
  nodup := t.nodup.sublist (List.filter_sublist.map Prod.fst)
  closed := by
    intro e he
    obtain ⟨he, -⟩ := List.mem_filter.mp he
    obtain ⟨hne, hparent⟩ := t.closed e he
    refine ⟨hne, ?_⟩
    obtain hroot | hparent := hparent
    · exact .inl hroot
    · refine .inr (List.mem_filter.mpr ⟨hparent, ?_⟩)
      have hchild := List.any_eq_false.mp h e he
      simpa using hchild

/-- One tree is part of another: what it holds, the other holds. -/
def Le (t' t : FileTree) : Prop := ∀ p k, t'.kind p = some k → t.kind p = some k

theorem Le.refl (t : FileTree) : t.Le t := fun _ _ h => h

theorem Le.trans {t t' t'' : FileTree} (h : t''.Le t') (h' : t'.Le t) : t''.Le t :=
  fun p k hk => h' p k (h p k hk)

variable {t t' : FileTree} {p q : Place} {k : Kind}

theorem mem_entries_of_kind (hp : p ≠ []) (h : t.kind p = some k) : (p, k) ∈ t.entries := by
  rw [kind, if_neg hp, Option.map_eq_some_iff] at h
  obtain ⟨e, he, rfl⟩ := h
  have hplace : e.1 = p := by simpa using List.find?_some he
  rw [← hplace]
  exact List.mem_of_find?_eq_some he

theorem kind_isSome_of_mem {e : Place × Kind} (he : e ∈ t.entries) : (t.kind e.1).isSome := by
  rw [kind]
  split
  · rfl
  · rw [Option.isSome_map, List.find?_isSome]
    exact ⟨e, he, by simp⟩

/-- Removing changes one place. -/
theorem kind_erase (hp : p ≠ []) (h : t.hasChild p = false) :
    (t.erase p h).kind q = if q = p then none else t.kind q := by
  by_cases hq : q = []
  · subst hq
    rw [if_neg (Ne.symm hp)]
    rfl
  · simp only [kind, erase, if_neg hq, List.find?_filter]
    by_cases hqp : q = p
    · subst hqp
      simp
    · rw [if_neg hqp]
      congr 2
      funext e
      by_cases he : e.1 = q
      · simp [he, hqp]
      · simp [he]

theorem erase_le (hp : p ≠ []) (h : t.hasChild p = false) : (t.erase p h).Le t := by
  intro q k hk
  rw [kind_erase hp] at hk
  split at hk
  · exact absurd hk (by simp)
  · exact hk

/-- Where nothing is directly below a place, nothing is below it. -/
theorem kind_below_of_not_hasChild (h : t.hasChild p = false) {r : Place} (hr : r ≠ []) :
    t.kind (p ++ r) = none := by
  induction r using List.reverseRecOn with
  | nil => exact absurd rfl hr
  | append_singleton r n ih =>
    by_contra hsome
    obtain ⟨k, hk⟩ := Option.ne_none_iff_exists'.mp hsome
    have hmem := mem_entries_of_kind (by simp) hk
    have hdrop : (p ++ (r ++ [n])).dropLast = p ++ r := by
      rw [← List.append_assoc, List.dropLast_concat]
    by_cases hr' : r = []
    · -- an entry directly below
      have hchild := List.any_eq_false.mp h _ hmem
      simp [hr'] at hchild
    · -- its directory is below as well
      obtain ⟨-, hparent⟩ := t.closed _ hmem
      rw [hdrop] at hparent
      obtain hroot | hdir := hparent
      · exact hr' (List.append_eq_nil_iff.mp hroot).2
      · have := kind_isSome_of_mem hdir
        rw [ih hr'] at this
        exact absurd this (by simp)

theorem length_le_height (h : t.kind p = some k) : p.length ≤ t.height := by
  have hfold : ∀ (l : List (Place × Kind)) (n : ℕ),
      n ≤ l.foldl (fun n e => max n e.1.length) n ∧
        ∀ e ∈ l, e.1.length ≤ l.foldl (fun n e => max n e.1.length) n := by
    intro l
    induction l with
    | nil => exact fun n => ⟨Nat.le_refl _, by simp⟩
    | cons e l ih =>
      intro n
      obtain ⟨hle, hall⟩ := ih (max n e.1.length)
      refine ⟨Nat.le_trans (Nat.le_max_left _ _) hle, ?_⟩
      intro e' he'
      obtain rfl | he' := List.mem_cons.mp he'
      · exact Nat.le_trans (Nat.le_max_right _ _) hle
      · exact hall e' he'
  by_cases hp : p = []
  · simp [hp]
  · exact (hfold t.entries 0).2 _ (mem_entries_of_kind hp h)

/-! ## Walking -/

/-- A step of a walk that arrives at `q`: by `.` or `..`, into a directory, along a link, or
at a file that ends the path. -/
def Steps (t : FileTree) (steps : ℕ) (cur : Place) (n : String) (rest : List String) (q : Place) :
    Prop :=
  (n = "." ∧ t.walk steps cur rest = some q) ∨
  (n = ".." ∧ t.walk steps cur.dropLast rest = some q) ∨
  (IsName n ∧ t.kind (cur ++ [n]) = some .dir ∧ t.walk steps (cur ++ [n]) rest = some q) ∨
  (IsName n ∧ ∃ absolute target, t.kind (cur ++ [n]) = some (.link absolute target) ∧
    t.walk steps (if absolute then [] else cur) (target ++ rest) = some q) ∨
  (IsName n ∧ ∃ contents, t.kind (cur ++ [n]) = some (.file contents) ∧ rest = [] ∧ cur ++ [n] = q)

theorem walk_cons_iff {steps : ℕ} {cur : Place} {n : String} {rest : List String} :
    t.walk (steps + 1) cur (n :: rest) = some q ↔ t.Steps steps cur n rest q := by
  rw [walk, Steps]
  by_cases hdot : n = "."
  · simp [hdot, IsName]
  · by_cases hdots : n = ".."
    · simp [hdots, IsName]
    · cases hk : t.kind (cur ++ [n]) with
      | none => simp [hdot, hdots]
      | some k => cases k <;> simp [hdot, hdots, IsName]

theorem walk_zero {cur : Place} {path : List String} : t.walk 0 cur path = none := rfl

/-- In a smaller tree a path leads to the same place or nowhere. -/
theorem walk_of_le (hle : t'.Le t) {steps : ℕ} {cur : Place} {path : List String}
    (h : t'.walk steps cur path = some q) : t.walk steps cur path = some q := by
  induction steps generalizing cur path with
  | zero => exact absurd h (by simp [walk_zero])
  | succ steps ih =>
    cases path with
    | nil => exact h
    | cons n rest =>
      rw [walk_cons_iff] at h ⊢
      obtain ⟨hn, h⟩ | ⟨hn, h⟩ | ⟨hn, hk, h⟩ | ⟨hn, absolute, target, hk, h⟩ | ⟨hn, contents, hk, h⟩ := h
      · exact .inl ⟨hn, ih h⟩
      · exact .inr (.inl ⟨hn, ih h⟩)
      · exact .inr (.inr (.inl ⟨hn, hle _ _ hk, ih h⟩))
      · exact .inr (.inr (.inr (.inl ⟨hn, absolute, target, hle _ _ hk, ih h⟩)))
      · exact .inr (.inr (.inr (.inr ⟨hn, contents, hle _ _ hk, h⟩)))

/-- A walk stops over where the first part of its path leads. -/
theorem walk_append {steps : ℕ} {cur : Place} {a b : List String}
    (h : t.walk steps cur (a ++ b) = some q) :
    ∃ r steps', t.walk steps cur a = some r ∧ t.walk steps' r b = some q := by
  induction steps generalizing cur a with
  | zero => exact absurd h (by simp [walk_zero])
  | succ steps ih =>
    cases a with
    | nil => exact ⟨cur, steps + 1, rfl, h⟩
    | cons n rest =>
      rw [List.cons_append, walk_cons_iff] at h
      simp only [walk_cons_iff]
      obtain ⟨hn, h⟩ | ⟨hn, h⟩ | ⟨hn, hk, h⟩ | ⟨hn, absolute, target, hk, h⟩ |
        ⟨hn, contents, hk, hend, hq⟩ := h
      · obtain ⟨r, steps', hr, hb⟩ := ih h
        exact ⟨r, steps', .inl ⟨hn, hr⟩, hb⟩
      · obtain ⟨r, steps', hr, hb⟩ := ih h
        exact ⟨r, steps', .inr (.inl ⟨hn, hr⟩), hb⟩
      · obtain ⟨r, steps', hr, hb⟩ := ih h
        exact ⟨r, steps', .inr (.inr (.inl ⟨hn, hk, hr⟩)), hb⟩
      · rw [← List.append_assoc] at h
        obtain ⟨r, steps', hr, hb⟩ := ih h
        exact ⟨r, steps', .inr (.inr (.inr (.inl ⟨hn, absolute, target, hk, hr⟩))), hb⟩
      · -- the whole path ends here, so there is nothing left of it
        obtain ⟨rfl, rfl⟩ := List.append_eq_nil_iff.mp hend
        exact ⟨q, 1, .inr (.inr (.inr (.inr ⟨hn, contents, hk, rfl, hq⟩))), rfl⟩

/-- Walking one more name into a directory leads there. -/
theorem walk_singleton {steps : ℕ} {n : String} (hn : IsName n)
    (hdir : t.kind (p ++ [n]) = some .dir) (h : t.walk steps p [n] = some q) : q = p ++ [n] := by
  cases steps with
  | zero => exact absurd h (by simp [walk_zero])
  | succ steps =>
    simp only [walk, if_neg hn.1, if_neg hn.2, hdir] at h
    cases steps with
    | zero => exact absurd h (by simp [walk_zero])
    | succ steps => exact (Option.some.inj h).symm

/-- A path that names a directory leads to that directory. -/
theorem walk_eq_of_locate {steps : ℕ} {path : List String} (hloc : t.locate steps path = some p)
    (hdir : t.kind p = some .dir) (h : t.walk steps [] path = some q) : q = p := by
  obtain rfl | ⟨init, n, rfl⟩ := path.eq_nil_or_concat
  · have hp : p = [] := (Option.some.inj hloc).symm
    cases steps with
    | zero => exact absurd h (by simp [walk_zero])
    | succ steps => exact (Option.some.inj h).symm.trans hp.symm
  · rw [List.concat_eq_append] at hloc h
    simp only [locate, List.getLast?_append, List.getLast?_singleton, Option.some_or,
      List.dropLast_concat] at hloc
    split at hloc
    next hn =>
      obtain ⟨r, hr, rfl⟩ := Option.map_eq_some_iff.mp hloc
      obtain ⟨r', steps', hr', hlast⟩ := walk_append h
      obtain rfl : r = r' := Option.some.inj (hr.symm.trans hr')
      exact walk_singleton hn hdir hlast
    next => exact Option.some.inj (h.symm.trans hloc)

/-- Behind a name, the place is one below where the path before it leads. -/
theorem locate_concat {steps : ℕ} {path : List String} {n : String} (hn : IsName n) :
    t.locate steps (path ++ [n]) = (t.walk steps [] path).map (· ++ [n]) := by
  simp [locate, hn]

theorem locate_of_le (hle : t'.Le t) {steps : ℕ} {path : List String}
    (h : t'.locate steps path = some p) : t.locate steps path = some p := by
  simp only [locate] at h ⊢
  split
  · rename_i hlast
    rw [hlast] at h
    exact h
  · rename_i n hlast
    rw [hlast] at h
    dsimp only at h
    split
    next hn =>
      rw [if_pos hn] at h
      obtain ⟨r, hr, rfl⟩ := Option.map_eq_some_iff.mp h
      rw [walk_of_le hle hr]
      rfl
    next hn =>
      rw [if_neg hn] at h
      exact walk_of_le hle h

end FileTree

end Tlm
