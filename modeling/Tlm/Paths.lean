import Tlm.Watch
import Mathlib.Data.List.DropRight

/-!
# Absolute paths in normal form

The watcher takes paths apart with `g_path_get_dirname` and `g_path_get_basename`
and puts them together again with `g_build_filename`. The two directions are
inverse to each other on the absolute paths in **normal form** — one separator
between two names, none at the end, no `.` and no `..` — and on no larger class
that the watcher could rely on: any other spelling comes back as a different
string. A directory and a name are got back from the path they make in any spelling
that `g_path_get_dirname` gives (`IsDirname`).
-/

namespace Tlm

/-- `G_IS_DIR_SEPARATOR`. -/
def isDirSeparator (c : Char) : Bool := c = '/'

/-- `g_build_filename` of two elements: empty elements are ignored, the separators
at the boundary collapse into one, those in front of the first element and behind
the last are kept. -/
def buildFilename (dir name : List Char) : List Char :=
  if dir = [] then name
  else if name = [] then dir
  else
    let stem := (dir.dropWhile isDirSeparator).rdropWhile isDirSeparator
    let leaf := (name.dropWhile isDirSeparator).rdropWhile isDirSeparator
    dir.takeWhile isDirSeparator ++ stem ++ (if stem = [] ∨ leaf = [] then [] else ['/']) ++ leaf ++
      name.rtakeWhile isDirSeparator

/-- What the kernel accepts as the name of a new directory entry. -/
structure IsName (name : List Char) : Prop where
  nonempty : name ≠ []
  noSlash : '/' ∉ name
  notDot : name ≠ ['.']
  notDots : name ≠ ['.', '.']

/-- An absolute path in normal form: a chain of names from the root. -/
inductive Normal : List Char → Prop where
  | root : Normal ['/']
  | child {dir name : List Char} : Normal dir → IsName name → Normal (buildFilename dir name)

/-- The directory as it stands in front of a separator. -/
def beforeSlash (dir : List Char) : List Char := if dir = ['/'] then [] else dir

/-- A path that is either the root or has no separator but one at its beginning
and those between its names. -/
def Tight (dir : List Char) : Prop :=
  ∃ rest : List Char, dir = '/' :: rest ∧
    (∀ h : rest ≠ [], rest.head h ≠ '/' ∧ rest.getLast h ≠ '/')

variable {dir name : List Char}

/-- A name of one character. -/
theorem isName_singleton {c : Char} (hslash : c ≠ '/') (hdot : c ≠ '.') : IsName [c] where
  nonempty := List.cons_ne_nil c []
  noSlash h := hslash (List.mem_singleton.mp h).symm
  notDot h := hdot (List.singleton_inj.mp h)
  notDots h := by simp at h

theorem IsName.dropWhile (h : IsName name) : name.dropWhile isDirSeparator = name := by
  rcases name with _ | ⟨c, cs⟩
  · rfl
  · apply List.dropWhile_cons_of_neg
    have hc : c ≠ '/' := fun hc => h.noSlash (hc ▸ List.mem_cons_self)
    simp [isDirSeparator, hc]

theorem IsName.getLast_ne (h : IsName name) : name.getLast h.nonempty ≠ '/' := by
  intro hl
  exact h.noSlash (hl ▸ List.getLast_mem h.nonempty)

theorem IsName.rdropWhile (h : IsName name) : name.rdropWhile isDirSeparator = name := by
  rw [List.rdropWhile_eq_self_iff]
  intro hne
  simpa [isDirSeparator] using h.getLast_ne

theorem IsName.rtakeWhile (h : IsName name) : name.rtakeWhile isDirSeparator = [] := by
  rw [List.rtakeWhile_eq_nil_iff]
  intro hne
  simpa [isDirSeparator] using h.getLast_ne

/-- Below a tight directory `g_build_filename` adds one separator and the name. -/
theorem buildFilename_of_tight (hd : Tight dir) (hn : IsName name) :
    buildFilename dir name = beforeSlash dir ++ '/' :: name := by
  obtain ⟨rest, rfl, hrest⟩ := hd
  simp only [buildFilename, beforeSlash, hn.dropWhile, hn.rdropWhile, hn.rtakeWhile]
  rw [if_neg (by simp), if_neg hn.nonempty]
  rcases rest with _ | ⟨c, cs⟩
  · simp [isDirSeparator, List.rdropWhile]
  · obtain ⟨hc, hl⟩ := hrest (by simp)
    have hhead : List.dropWhile isDirSeparator (c :: cs) = c :: cs :=
      List.dropWhile_cons_of_neg (by simpa [isDirSeparator] using hc)
    have hlast : List.rdropWhile isDirSeparator (c :: cs) = c :: cs := by
      rw [List.rdropWhile_eq_self_iff]
      intro hne
      simpa [isDirSeparator] using hl
    have hdrop : List.dropWhile isDirSeparator ('/' :: c :: cs) = c :: cs := by
      rw [List.dropWhile_cons_of_pos rfl, hhead]
    have htake : List.takeWhile isDirSeparator ('/' :: c :: cs) = ['/'] := by
      rw [List.takeWhile_cons_of_pos rfl, List.takeWhile_cons_of_neg]
      simpa [isDirSeparator] using hc
    rw [hdrop, hlast, htake, if_neg (by simp [hn.nonempty]), if_neg (by simp)]
    simp

/-- Paths in normal form are tight. -/
theorem Normal.tight (h : Normal dir) : Tight dir := by
  induction h with
  | root => exact ⟨[], rfl, fun h => absurd rfl h⟩
  | @child dir name _ hn ih =>
    rw [buildFilename_of_tight ih hn]
    obtain ⟨rest, rfl, hrest⟩ := ih
    rcases rest with _ | ⟨c, cs⟩
    · refine ⟨name, rfl, fun h => ⟨?_, hn.getLast_ne⟩⟩
      exact fun hc => hn.noSlash (hc ▸ List.head_mem h)
    · refine ⟨c :: cs ++ '/' :: name, by simp [beforeSlash], fun h => ⟨?_, ?_⟩⟩
      · exact (hrest (by simp)).1
      · rw [List.getLast_append_of_ne_nil _ (by simp), List.getLast_cons hn.nonempty]
        exact hn.getLast_ne

theorem Normal.buildFilename (hd : Normal dir) (hn : IsName name) :
    buildFilename dir name = beforeSlash dir ++ '/' :: name := buildFilename_of_tight hd.tight hn

theorem reverse_path (name before : List Char) :
    (before ++ '/' :: name).reverse = name.reverse ++ '/' :: before.reverse := by
  simp

/-! ## Directories in any spelling -/

/-- What `g_path_get_dirname` gives, whatever it is given: the root, or a path without a
separator at its end. -/
def IsDirname (dir : List Char) : Prop := dir = ['/'] ∨ ∃ h : dir ≠ [], dir.getLast h ≠ '/'

theorem isDirname_pathGetDirname (path : List Char) : IsDirname (pathGetDirname path) := by
  simp only [Tlm.pathGetDirname]
  rcases path.reverse.dropWhile (· ≠ '/') with _ | ⟨c, cs⟩
  · exact Or.inr ⟨by simp, by simp⟩
  · simp only
    rcases hd : (c :: cs).dropWhile (· = '/') with _ | ⟨x, xs⟩
    · exact Or.inl rfl
    · have hx := List.head?_dropWhile_not (fun x => decide (x = '/')) (c :: cs)
      rw [hd] at hx
      exact Or.inr ⟨by simp, by simpa using hx⟩

/-- `g_path_get_basename` gives a name without a separator, but for the root. -/
theorem pathGetBasename_cases (path : List Char) :
    (Tlm.pathGetBasename path ≠ [] ∧ '/' ∉ Tlm.pathGetBasename path) ∨
      (Tlm.pathGetDirname path = ['/'] ∧ Tlm.pathGetBasename path = ['/']) := by
  by_cases hpath : path = []
  · exact Or.inl (by simp [Tlm.pathGetBasename, hpath])
  · simp only [Tlm.pathGetBasename, if_neg hpath]
    rcases hd : path.reverse.dropWhile (· = '/') with _ | ⟨c, cs⟩
    · refine Or.inr ⟨?_, rfl⟩
      have hall : ∀ c ∈ path.reverse, c = '/' := by
        simpa using List.dropWhile_eq_nil_iff.mp hd
      obtain ⟨c, cs, hr⟩ := List.exists_cons_of_ne_nil (mt List.reverse_eq_nil_iff.mp hpath)
      obtain rfl : c = '/' := hall c (hr ▸ List.mem_cons_self)
      have hskip : ('/' :: cs).dropWhile (· ≠ '/') = '/' :: cs :=
        List.dropWhile_cons_of_neg (by simp)
      rw [hr] at hd
      simp only [Tlm.pathGetDirname, hr, hskip, hd]
    · have hc := List.head?_dropWhile_not (fun x => decide (x = '/')) path.reverse
      rw [hd] at hc
      have hc : c ≠ '/' := by simpa using hc
      refine Or.inl ⟨by simp [hc], fun hmem => ?_⟩
      simpa using List.mem_takeWhile_imp (List.mem_reverse.mp hmem)

section Spelling

variable (hd : IsDirname dir) (hne : name ≠ []) (hs : '/' ∉ name)

include hd hne hs

theorem IsDirname.buildFilename : buildFilename dir name = beforeSlash dir ++ '/' :: name := by
  have hfront : name.dropWhile isDirSeparator = name := by
    refine List.dropWhile_eq_self_iff.mpr fun hpos => ?_
    have hhead : name.get ⟨0, hpos⟩ ≠ '/' := fun h => hs (h ▸ List.get_mem name ⟨0, hpos⟩)
    simpa [isDirSeparator] using hhead
  have hlast : name.getLast hne ≠ '/' := fun h => hs (h ▸ List.getLast_mem hne)
  have hback : name.rdropWhile isDirSeparator = name := by
    refine List.rdropWhile_eq_self_iff.mpr fun _ => ?_
    simpa [isDirSeparator] using hlast
  have hnone : name.rtakeWhile isDirSeparator = [] := by
    refine List.rtakeWhile_eq_nil_iff.mpr fun _ => ?_
    simpa [isDirSeparator] using hlast
  simp only [Tlm.buildFilename, beforeSlash, hfront, hback, hnone]
  obtain rfl | ⟨hdne, hdlast⟩ := hd
  · simp [hne, isDirSeparator, List.rdropWhile]
  · have hroot : dir ≠ ['/'] := by
      rintro rfl
      exact hdlast rfl
    -- the separators in front of the directory are kept, and so is the rest of it
    have hrest : (dir.dropWhile isDirSeparator).rdropWhile isDirSeparator =
        dir.dropWhile isDirSeparator := by
      refine List.rdropWhile_eq_self_iff.mpr fun h => ?_
      have hsuffix : (dir.dropWhile isDirSeparator).getLast h = dir.getLast hdne :=
        (List.dropWhile_suffix isDirSeparator).getLast h
      simpa [hsuffix, isDirSeparator] using hdlast
    have hstem : dir.dropWhile isDirSeparator ≠ [] := by
      intro h
      have hall := List.dropWhile_eq_nil_iff.mp h _ (List.getLast_mem hdne)
      exact hdlast (by simpa [isDirSeparator] using hall)
    have hboth : ¬(dir.dropWhile isDirSeparator = [] ∨ name = []) := by
      rintro (h | h)
      · exact hstem h
      · exact hne h
    rw [if_neg hdne, if_neg hne, hrest, if_neg hboth, if_neg hroot, List.takeWhile_append_dropWhile]
    simp

/-- A directory and a name are got back from the path they make. -/
theorem IsDirname.pathGetBasename : Tlm.pathGetBasename (Tlm.buildFilename dir name) = name := by
  have hall : ∀ c ∈ name.reverse, decide (c ≠ '/') = true := by
    intro c hc
    simpa using fun h : c = '/' => hs (h ▸ List.mem_reverse.mp hc)
  rw [hd.buildFilename hne hs]
  simp only [Tlm.pathGetBasename]
  rw [if_neg (by simp), reverse_path]
  obtain ⟨c, cs, hr⟩ := List.exists_cons_of_ne_nil (mt List.reverse_eq_nil_iff.mp hne)
  have hc : c ≠ '/' := by simpa using hall c (hr ▸ List.mem_cons_self)
  have hskip : (name.reverse ++ '/' :: (beforeSlash dir).reverse).dropWhile (· = '/') =
      c :: (cs ++ '/' :: (beforeSlash dir).reverse) := by
    rw [hr]
    exact List.dropWhile_cons_of_neg (by simpa using hc)
  rw [hskip]
  simp only [← List.cons_append, ← hr]
  rw [List.takeWhile_append_of_pos hall, List.takeWhile_cons_of_neg (by simp)]
  simp

theorem IsDirname.pathGetDirname : Tlm.pathGetDirname (Tlm.buildFilename dir name) = dir := by
  have hall : ∀ c ∈ name.reverse, decide (c ≠ '/') = true := by
    intro c hc
    simpa using fun h : c = '/' => hs (h ▸ List.mem_reverse.mp hc)
  rw [hd.buildFilename hne hs]
  simp only [Tlm.pathGetDirname, reverse_path]
  rw [List.dropWhile_append_of_pos hall, List.dropWhile_cons_of_neg (by simp)]
  obtain rfl | ⟨hdne, hdlast⟩ := hd
  · rfl
  · have hroot : dir ≠ ['/'] := by
      rintro rfl
      exact hdlast rfl
    have hkeep : dir.reverse.dropWhile (· = '/') = dir.reverse := by
      have h : dir.rdropWhile (· = '/') = dir := by
        refine List.rdropWhile_eq_self_iff.mpr fun _ => ?_
        simpa using hdlast
      exact List.reverse_eq_iff.mp h
    simp only [beforeSlash, if_neg hroot]
    rw [List.dropWhile_cons_of_pos (by simp), hkeep]
    obtain ⟨x, xs, hr⟩ := List.exists_cons_of_ne_nil (mt List.reverse_eq_nil_iff.mp hdne)
    simp only [hr]
    rw [← hr, List.reverse_reverse]

/-- So no other directory and name make it. -/
theorem IsDirname.buildFilename_inj {dir' name' : List Char} (hd' : IsDirname dir')
    (hne' : name' ≠ []) (hs' : '/' ∉ name')
    (h : Tlm.buildFilename dir name = Tlm.buildFilename dir' name') : dir = dir' ∧ name = name' := by
  constructor
  · rw [← hd.pathGetDirname hne hs, h, hd'.pathGetDirname hne' hs']
  · rw [← hd.pathGetBasename hne hs, h, hd'.pathGetBasename hne' hs']

end Spelling

/-! ## Paths in normal form -/

theorem Normal.isDirname (h : Normal dir) : IsDirname dir := by
  obtain ⟨rest, rfl, hrest⟩ := h.tight
  rcases rest with _ | ⟨c, cs⟩
  · exact Or.inl rfl
  · exact Or.inr ⟨by simp, by simpa using (hrest (by simp)).2⟩

/-- `g_path_get_basename` gives the name back. -/
theorem Normal.pathGetBasename (hd : Normal dir) (hn : IsName name) :
    pathGetBasename (Tlm.buildFilename dir name) = name :=
  hd.isDirname.pathGetBasename hn.nonempty hn.noSlash

/-- `g_path_get_dirname` gives the directory back. -/
theorem Normal.pathGetDirname (hd : Normal dir) (hn : IsName name) :
    pathGetDirname (Tlm.buildFilename dir name) = dir :=
  hd.isDirname.pathGetDirname hn.nonempty hn.noSlash

/-- A path determines the directory and the name it was built from. -/
theorem Normal.buildFilename_inj {dir' name' : List Char} (hd : Normal dir) (hn : IsName name)
    (hd' : Normal dir') (hn' : IsName name')
    (h : Tlm.buildFilename dir name = Tlm.buildFilename dir' name') : dir = dir' ∧ name = name' :=
  hd.isDirname.buildFilename_inj hn.nonempty hn.noSlash hd'.isDirname hn'.nonempty hn'.noSlash h

theorem Normal.length_lt (hd : Normal dir) (hn : IsName name) :
    dir.length < (Tlm.buildFilename dir name).length := by
  have hpos := List.length_pos_iff.mpr hn.nonempty
  rw [hd.buildFilename hn, List.length_append, List.length_cons]
  simp only [beforeSlash]
  split
  · rename_i hroot
    simp only [hroot, List.length_cons, List.length_nil]
    omega
  · omega

theorem Normal.buildFilename_ne (hd : Normal dir) (hn : IsName name) :
    Tlm.buildFilename dir name ≠ dir := by
  intro he
  have hlt := hd.length_lt hn
  rw [he] at hlt
  omega

end Tlm
