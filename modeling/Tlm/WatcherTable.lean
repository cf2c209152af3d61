import Tlm.Watcher

/-!
# The table of the watcher

Everything a row of the table stands for is **tracked**: either a path that is
waited for, or a directory that has a row of its own and is not watched yet. The
second kind is what `pends` counts. That both kinds share one table is why a
change of it is accounted for in numbers: a path that is listed and is the
directory of another one is tracked twice.

Each operation of the watcher on the table gets here the lemma that it keeps the
`Shape` of the table, and the equation of what it does to the counts.
-/

namespace Tlm

namespace WatchInfo

variable {info : WatchInfo} {dir name p : List Char} {files : List (List Char)} {wd : ℕ}

/-- The directories that have a row. -/
def keys (info : WatchInfo) : List (List Char) := Table.keys info.dirTable

/-- The directories that are watched. -/
def dirs (info : WatchInfo) : List (List Char) := info.wdTable.map Prod.snd

/-- The paths the rows stand for. -/
def tracked (info : WatchInfo) : List (List Char) := Table.rows buildFilename info.dirTable

/-- Whether a directory has a row and is not watched. -/
def pends (info : WatchInfo) (p : List Char) : ℕ := if p ∈ info.keys ∧ p ∉ info.dirs then 1 else 0

/-- A table without conflicts: one row for a directory, one watch for a
descriptor and for a directory, and a row for whatever is watched. -/
structure Shape (info : WatchInfo) : Prop where
  keysNodup : info.keys.Nodup
  normal : ∀ d ∈ info.keys, Normal d
  names : ∀ e ∈ info.dirTable, ∀ n ∈ e.2, IsName n
  wdsNodup : (Table.keys info.wdTable).Nodup
  dirsNodup : info.dirs.Nodup
  watched : ∀ d ∈ info.dirs, d ∈ info.keys
  root : ['/'] ∈ info.keys → ['/'] ∈ info.dirs

/-- The part of it that does not say how a directory is spelt. -/
structure Keyed (info : WatchInfo) : Prop where
  keysNodup : info.keys.Nodup
  wdsNodup : (Table.keys info.wdTable).Nodup
  dirsNodup : info.dirs.Nodup
  watched : ∀ d ∈ info.dirs, d ∈ info.keys

theorem Shape.keyed (hs : info.Shape) : info.Keyed :=
  ⟨hs.keysNodup, hs.wdsNodup, hs.dirsNodup, hs.watched⟩

theorem keyed_nil : Keyed {} := ⟨List.nodup_nil, List.nodup_nil, List.nodup_nil, by simp [dirs]⟩

theorem shape_nil : Shape {} :=
  ⟨List.nodup_nil, by simp [keys, Table.keys], by simp, List.nodup_nil, List.nodup_nil,
    by simp [dirs], by simp [keys, Table.keys]⟩

theorem mem_dirs : dir ∈ info.dirs ↔ ∃ wd, (wd, dir) ∈ info.wdTable := by
  simp [dirs]

theorem mem_tracked : p ∈ info.tracked ↔
    ∃ d ns, (d, ns) ∈ info.dirTable ∧ ∃ n ∈ ns, buildFilename d n = p := Table.mem_rows

/-- A watched directory has one descriptor, which gets the event of a creation in it. -/
theorem Keyed.mem_event (h : info.Keyed) (e : ℕ × List Char) :
    (e ∈ match info.wdTable.find? fun e => e.2 = dir with
      | none => []
      | some (wd, _) => [(wd, name)]) ↔ ∃ wd, (wd, dir) ∈ info.wdTable ∧ e = (wd, name) := by
  rcases hf : info.wdTable.find? fun e => e.2 = dir with _ | ⟨wd, d⟩
  · have hnone := List.find?_eq_none.mp hf
    simp only [hf]
    constructor
    · nofun
    · rintro ⟨wd, hw, -⟩
      exact absurd (by simp) (hnone _ hw)
  · simp only [hf, List.mem_singleton]
    have hw := List.mem_of_find?_eq_some hf
    obtain rfl : d = dir := by simpa using List.find?_some hf
    constructor
    · exact fun he => ⟨wd, hw, he⟩
    · rintro ⟨w, hw', rfl⟩
      have he := List.inj_on_of_nodup_map h.dirsNodup hw hw' rfl
      cases he
      rfl

theorem pends_eq_one (h : dir ∈ info.keys) (hd : dir ∉ info.dirs) : info.pends dir = 1 :=
  if_pos ⟨h, hd⟩

theorem pends_eq_zero (h : dir ∈ info.keys → dir ∈ info.dirs) : info.pends dir = 0 :=
  if_neg fun hp => hp.2 (h hp.1)

/-! ## A row changes -/

theorem Keyed.replace (h : info.Keyed) :
    Keyed { info with dirTable := Table.replace dir files info.dirTable } := by
  have hkeys : keys { info with dirTable := Table.replace dir files info.dirTable } = info.keys :=
    Table.keys_replace
  refine ⟨?_, h.wdsNodup, h.dirsNodup, ?_⟩
  · rw [hkeys]
    exact h.keysNodup
  · rw [hkeys]
    exact h.watched

theorem Shape.replace (hs : info.Shape) (hn : ∀ n ∈ files, IsName n) :
    Shape { info with dirTable := Table.replace dir files info.dirTable } := by
  have hkeys : keys { info with dirTable := Table.replace dir files info.dirTable } = info.keys :=
    Table.keys_replace
  have hk : Keyed { info with dirTable := Table.replace dir files info.dirTable } :=
    hs.keyed.replace
  refine ⟨hk.keysNodup, ?_, ?_, hk.wdsNodup, hk.dirsNodup, hk.watched, ?_⟩
  · rw [hkeys]
    exact hs.normal
  · intro e he
    rcases Table.mem_replace he with rfl | ⟨he, -⟩
    · exact hn
    · exact hs.names e he
  · rw [hkeys]
    exact hs.root

theorem pends_replace (x : List Char) :
    pends { info with dirTable := Table.replace dir files info.dirTable } x = info.pends x := by
  simp only [pends, keys, Table.keys_replace]
  rfl

/-! ## A row is added -/

section Add

variable {wds : List (ℕ × List Char)}

theorem keys_add : keys ⟨info.dirTable ++ [(dir, files)], wds⟩ = info.keys ++ [dir] :=
  Table.keys_append

theorem dirs_add {t : List (List Char × List (List Char))} :
    dirs ⟨t, info.wdTable ++ [(wd, dir)]⟩ = info.dirs ++ [dir] := List.map_append

theorem Keyed.nodup_add (h : info.Keyed) (hnew : dir ∉ info.keys) :
    (keys ⟨info.dirTable ++ [(dir, files)], wds⟩).Nodup := by
  rw [keys_add, ← List.concat_eq_append]
  exact List.Nodup.concat hnew h.keysNodup

theorem Shape.normal_add (hs : info.Shape) (hd : Normal dir) :
    ∀ d ∈ keys ⟨info.dirTable ++ [(dir, files)], wds⟩, Normal d := by
  rw [keys_add]
  simpa [or_imp, forall_and] using ⟨hs.normal, hd⟩

theorem Shape.names_add (hs : info.Shape) (hn : ∀ n ∈ files, IsName n) :
    ∀ e ∈ info.dirTable ++ [(dir, files)], ∀ n ∈ e.2, IsName n := by
  intro e he
  rcases List.mem_append.mp he with he | he
  · exact hs.names e he
  · obtain rfl := List.mem_singleton.mp he
    exact hn

end Add

/-- A directory that does not exist yet gets a row. -/
theorem Keyed.wait (h : info.Keyed) (hnew : dir ∉ info.keys) :
    Keyed { info with dirTable := info.dirTable ++ [(dir, files)] } := by
  refine ⟨h.nodup_add hnew, h.wdsNodup, h.dirsNodup, ?_⟩
  rw [keys_add]
  exact fun d hd => List.mem_append_left _ (h.watched d hd)

theorem Shape.wait (hs : info.Shape) (hd : Normal dir) (hn : IsName name) (hnew : dir ∉ info.keys)
    (hroot : dir ≠ ['/']) : Shape { info with dirTable := info.dirTable ++ [(dir, [name])] } := by
  have hk : Keyed { info with dirTable := info.dirTable ++ [(dir, [name])] } :=
    hs.keyed.wait hnew
  refine ⟨hk.keysNodup, hs.normal_add hd, hs.names_add (by simpa using hn), hk.wdsNodup,
    hk.dirsNodup, hk.watched, ?_⟩
  · rw [keys_add]
    intro h
    rcases List.mem_append.mp h with h | h
    · exact hs.root h
    · exact absurd (List.mem_singleton.mp h).symm hroot

theorem pends_wait (hs : info.Shape) (hnew : dir ∉ info.keys) (x : List Char) :
    pends { info with dirTable := info.dirTable ++ [(dir, [name])] } x =
      info.pends x + [dir].count x := by
  have hdirs : dirs { info with dirTable := info.dirTable ++ [(dir, [name])] } = info.dirs := rfl
  simp only [pends, keys_add, hdirs, List.mem_append, List.mem_singleton]
  by_cases hx : x = dir
  · subst hx
    have hu : x ∉ info.dirs := fun h => hnew (hs.watched x h)
    simp [hnew, hu]
  · simp [hx, List.count_eq_zero_of_not_mem]

/-- A directory that exists gets a row and a watch. -/
theorem Keyed.watch (h : info.Keyed) (hnew : dir ∉ info.keys) (hwd : wd ∉ Table.keys info.wdTable) :
    Keyed ⟨info.dirTable ++ [(dir, files)], info.wdTable ++ [(wd, dir)]⟩ := by
  refine ⟨h.nodup_add hnew, ?_, ?_, ?_⟩
  · have hwds : Table.keys (info.wdTable ++ [(wd, dir)]) = Table.keys info.wdTable ++ [wd] :=
      Table.keys_append
    rw [hwds, ← List.concat_eq_append]
    exact List.Nodup.concat hwd h.wdsNodup
  · rw [dirs_add, ← List.concat_eq_append]
    exact List.Nodup.concat (fun hd => hnew (h.watched dir hd)) h.dirsNodup
  · rw [keys_add, dirs_add]
    intro d hd
    rcases List.mem_append.mp hd with hd | hd
    · exact List.mem_append_left _ (h.watched d hd)
    · exact List.mem_append_right _ hd

theorem Shape.watch (hs : info.Shape) (hd : Normal dir) (hn : ∀ n ∈ files, IsName n)
    (hnew : dir ∉ info.keys) (hwd : wd ∉ Table.keys info.wdTable) :
    Shape ⟨info.dirTable ++ [(dir, files)], info.wdTable ++ [(wd, dir)]⟩ := by
  have hk : Keyed ⟨info.dirTable ++ [(dir, files)], info.wdTable ++ [(wd, dir)]⟩ :=
    hs.keyed.watch hnew hwd
  refine ⟨hk.keysNodup, hs.normal_add hd, hs.names_add hn, hk.wdsNodup, hk.dirsNodup, hk.watched, ?_⟩
  · rw [keys_add, dirs_add]
    intro h
    rcases List.mem_append.mp h with h | h
    · exact List.mem_append_left _ (hs.root h)
    · exact List.mem_append_right _ h

theorem pends_watch (hnew : dir ∉ info.keys) (x : List Char) :
    pends ⟨info.dirTable ++ [(dir, files)], info.wdTable ++ [(wd, dir)]⟩ x = info.pends x := by
  simp only [pends, keys_add, dirs_add, List.mem_append, List.mem_singleton]
  by_cases hx : x = dir
  · subst hx
    simp [hnew]
  · simp [hx]

/-! ## A row is removed -/

section Drop

variable {wds : List (ℕ × List Char)}

theorem keys_drop : keys ⟨Table.remove p info.dirTable, wds⟩ = info.keys.filter (· ≠ p) :=
  Table.keys_remove

theorem mem_keys_drop {d : List Char} :
    d ∈ keys ⟨Table.remove p info.dirTable, wds⟩ ↔ d ∈ info.keys ∧ d ≠ p := by
  simp [keys_drop]

theorem Keyed.nodup_drop (h : info.Keyed) : (keys ⟨Table.remove p info.dirTable, wds⟩).Nodup := by
  rw [keys_drop]
  exact h.keysNodup.filter _

theorem Shape.normal_drop (hs : info.Shape) :
    ∀ d ∈ keys ⟨Table.remove p info.dirTable, wds⟩, Normal d := by
  intro d hd
  exact hs.normal d (mem_keys_drop.mp hd).1

theorem Shape.names_drop (hs : info.Shape) :
    ∀ e ∈ Table.remove p info.dirTable, ∀ n ∈ e.2, IsName n := by
  intro e he
  exact hs.names e (Table.mem_remove.mp he).1

end Drop

/-- The row of a directory that is not watched is taken out. -/
theorem Keyed.steal (h : info.Keyed) (hp : p ∉ info.dirs) :
    Keyed { info with dirTable := Table.remove p info.dirTable } := by
  refine ⟨h.nodup_drop, h.wdsNodup, h.dirsNodup, fun d hd => ?_⟩
  exact mem_keys_drop.mpr ⟨h.watched d hd, fun he => hp (he ▸ hd)⟩

theorem Shape.steal (hs : info.Shape) (hp : p ∉ info.dirs) :
    Shape { info with dirTable := Table.remove p info.dirTable } := by
  have hk := hs.keyed.steal hp
  exact ⟨hk.keysNodup, hs.normal_drop, hs.names_drop, hk.wdsNodup, hk.dirsNodup, hk.watched,
    fun h => hs.root (mem_keys_drop.mp h).1⟩

theorem pends_steal (hk : p ∈ info.keys) (hp : p ∉ info.dirs) (x : List Char) :
    info.pends x =
      pends { info with dirTable := Table.remove p info.dirTable } x + [p].count x := by
  have hdirs : dirs { info with dirTable := Table.remove p info.dirTable } = info.dirs := rfl
  simp only [pends, mem_keys_drop, hdirs]
  by_cases hx : x = p
  · subst hx
    simp [hk, hp]
  · simp [hx, List.count_eq_zero_of_not_mem]

/-- A descriptor and its directory have no other watch. -/
theorem Keyed.mem_dirs_unwatch (h : info.Keyed) (hw : (wd, dir) ∈ info.wdTable)
    {t : List (List Char × List (List Char))} {d : List Char} :
    d ∈ dirs ⟨t, Table.remove wd info.wdTable⟩ ↔ d ∈ info.dirs ∧ d ≠ dir := by
  simp only [mem_dirs, Table.mem_remove]
  constructor
  · rintro ⟨w, hwd, hne⟩
    refine ⟨⟨w, hwd⟩, ?_⟩
    rintro rfl
    have he := List.inj_on_of_nodup_map h.dirsNodup hwd hw rfl
    exact hne (congrArg Prod.fst he)
  · rintro ⟨⟨w, hwd⟩, hne⟩
    refine ⟨w, hwd, ?_⟩
    rintro rfl
    exact hne (Table.eq_of_mem h.wdsNodup hwd hw)

/-- The row of a watched directory is taken out, and its watch with it. -/
theorem Keyed.unwatch (h : info.Keyed) (hw : (wd, dir) ∈ info.wdTable) :
    Keyed ⟨Table.remove dir info.dirTable, Table.remove wd info.wdTable⟩ := by
  refine ⟨h.nodup_drop, ?_, ?_, ?_⟩
  · rw [Table.keys_remove]
    exact h.wdsNodup.filter _
  · exact h.dirsNodup.sublist (List.filter_sublist.map _)
  · intro d hd
    obtain ⟨hd, hne⟩ := (h.mem_dirs_unwatch hw).mp hd
    exact mem_keys_drop.mpr ⟨h.watched d hd, hne⟩

theorem Shape.unwatch (hs : info.Shape) (hw : (wd, dir) ∈ info.wdTable) :
    Shape ⟨Table.remove dir info.dirTable, Table.remove wd info.wdTable⟩ := by
  have hk := hs.keyed.unwatch hw
  refine ⟨hk.keysNodup, hs.normal_drop, hs.names_drop, hk.wdsNodup, hk.dirsNodup, hk.watched, ?_⟩
  · intro h
    obtain ⟨h, hne⟩ := mem_keys_drop.mp h
    exact (hs.keyed.mem_dirs_unwatch hw).mpr ⟨hs.root h, hne⟩

theorem pends_unwatch (hs : info.Shape) (hw : (wd, dir) ∈ info.wdTable) (x : List Char) :
    pends ⟨Table.remove dir info.dirTable, Table.remove wd info.wdTable⟩ x = info.pends x := by
  have hd : dir ∈ info.dirs := mem_dirs.mpr ⟨wd, hw⟩
  simp only [pends, mem_keys_drop, hs.keyed.mem_dirs_unwatch hw]
  by_cases hx : x = dir
  · subst hx
    simp [hd]
  · simp [hx]

/-! ## Striking off a name -/

theorem Keyed.strike (h : info.Keyed) (hw : (wd, dir) ∈ info.wdTable) :
    (Tlm.strike wd dir name files info).Keyed := by
  simp only [Tlm.strike]
  split
  · exact h.unwatch hw
  · exact h.replace

/-- A struck name is the one thing that is tracked once less. -/
theorem Shape.strike (hs : info.Shape) (hw : (wd, dir) ∈ info.wdTable)
    (hf : info.dirTable.lookup dir = some files) (hn : name ∈ files) :
    Shape (strike wd dir name files info) ∧
      (∀ x, info.tracked.count x =
        (strike wd dir name files info).tracked.count x + [buildFilename dir name].count x) ∧
      ∀ x, (Tlm.strike wd dir name files info).pends x = info.pends x := by
  have hrow : ∀ x, (files.map (buildFilename dir)).count x =
      ((files.erase name).map (buildFilename dir)).count x + [buildFilename dir name].count x := by
    intro x
    have hperm := (List.perm_cons_erase hn).map (buildFilename dir)
    rw [hperm.count_eq, List.map_cons, List.count_cons, List.count_singleton]
  simp only [Tlm.strike]
  split
  · rename_i hempty
    refine ⟨hs.unwatch hw, fun x => ?_, pends_unwatch hs hw⟩
    have hcount := Table.count_rows_remove (f := buildFilename) hs.keysNodup hf x
    have hx := hrow x
    rw [hempty] at hx
    simp only [tracked]
    simp only [List.map_nil, List.count_nil, Nat.zero_add] at hx
    omega
  · have hnames : ∀ n ∈ files.erase name, IsName n := by
      intro n hn
      exact hs.names _ (Table.mem_of_lookup hf) n (List.mem_of_mem_erase hn)
    refine ⟨hs.replace hnames, fun x => ?_, pends_replace⟩
    have hcount := Table.count_rows_replace (f := buildFilename) hs.keysNodup hf
      (files.erase name) x
    have hx := hrow x
    simp only [tracked]
    omega

end WatchInfo

end Tlm
