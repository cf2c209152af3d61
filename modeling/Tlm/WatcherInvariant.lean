import Tlm.WatcherFinal
import Tlm.WatcherMoves

/-!
# The invariant of the watch table

`dir_table` has rows of two kinds, for directories that are watched and for directories
that do not exist yet, and a row goes from the second kind to the first by being taken
out and put in again, name by name. `Watching.run_table` says what holds of the two
tables before and after each call of `_add_watch` and each event, for every list and
every spelling of its paths: what is watched has a row with names, no directory has two
descriptors, and a descriptor is dropped only with the last name of its directory.

That it is dropped **as soon as** the last name has come up takes more. A name that is put
on the row of a directory that is watched already is not looked for: if it exists there,
or is on the row already, no event will ever strike it. `Watching.existing_keeps_watch`
is the smallest list with such a name.
-/

namespace Tlm

/-! ## What one call of `_add_watch` does to the table -/

/-- Where the recursion can get to: as long as a directory is missing and has no row, it
goes on with the directory. -/
inductive Climbs (access : List Char → Bool) (keys : List (List Char)) :
    List Char → List Char → Prop where
  | here {p : List Char} : Climbs access keys p p
  | up {p q : List Char} : pathGetDirname p ∉ keys → access (pathGetDirname p) = false →
      Climbs access keys (pathGetDirname p) q → Climbs access keys p q

/-- The changes of a call: none, if it fails or the path is there; the name goes on the
row of its directory; a missing directory gets a row and is waited for in turn; one that
exists gets a row and a watch. -/
inductive AddWatch (access : List Char → Bool) (inotify : List Char → Option ℕ) :
    List Char → WatchInfo → WatchInfo → Prop where
  | keep {path : List Char} {info : WatchInfo} : AddWatch access inotify path info info
  | row {path : List Char} {info : WatchInfo} {files : List (List Char)} :
      info.dirTable.lookup (pathGetDirname path) = some files →
      AddWatch access inotify path info
        { info with dirTable :=
            Table.replace (pathGetDirname path) (files ++ [pathGetBasename path]) info.dirTable }
  | climb {path : List Char} {info info' : WatchInfo} :
      pathGetDirname path ∉ info.keys → access (pathGetDirname path) = false →
      AddWatch access inotify (pathGetDirname path)
        { info with dirTable := info.dirTable ++ [(pathGetDirname path, [pathGetBasename path])] }
        info' →
      AddWatch access inotify path info info'
  | watch {path : List Char} {info : WatchInfo} {wd : ℕ} :
      pathGetDirname path ∉ info.keys → access (pathGetDirname path) = true →
      inotify (pathGetDirname path) = some wd → access path = false →
      AddWatch access inotify path info
        ⟨info.dirTable ++ [(pathGetDirname path, [pathGetBasename path])],
          Table.remove wd info.wdTable ++ [(wd, pathGetDirname path)]⟩

/-- These are all. -/
theorem addWatch_mem (s : Watching) (inotify : List Char → Option ℕ) (fuel : ℕ) (path : List Char)
    (info : WatchInfo) :
    AddWatch s.access inotify path info (addWatch (s.fs inotify) fuel path info).1 := by
  induction fuel generalizing path info with
  | zero => exact .keep
  | succ fuel ih =>
    simp only [addWatch, Watching.fs, String.toList_ofList]
    rcases hrow : info.dirTable.lookup (pathGetDirname path) with _ | files
    · have hkey := Table.lookup_eq_none.mp hrow
      cases hdir : s.access (pathGetDirname path) with
      | false => exact .climb hkey hdir (ih _ _)
      | true =>
        simp only [Bool.not_true, Bool.false_eq_true, if_false]
        rcases hwd : inotify (pathGetDirname path) with _ | wd
        · exact .keep
        · cases hpath : s.access path with
          | false => exact .watch hkey hdir hwd hpath
          | true => exact .keep
    · exact .row hrow

section

variable {access : List Char → Bool} {inotify : List Char → Option ℕ} {path p q : List Char}
  {keys keys' : List (List Char)} {info info' : WatchInfo}

/-- A directory that exists is not climbed from. -/
theorem Climbs.eq (h : Climbs access keys p q) (hdir : access (pathGetDirname p) = true) :
    q = p := by
  cases h with
  | here => rfl
  | up _ hnot _ =>
    rw [hdir] at hnot
    cases hnot

theorem Climbs.anti (h : Climbs access keys' p q) (hk : ∀ d ∈ keys, d ∈ keys') :
    Climbs access keys p q := by
  induction h with
  | here => exact .here
  | up hkey hdir _ ih => exact .up (fun h => hkey (hk _ h)) hdir ih

/-- What was climbed to from a directory that has just got a row. -/
theorem Climbs.above {files : List (List Char)} {t : List (ℕ × List Char)}
    (hkey : pathGetDirname path ∉ info.keys) (hdir : access (pathGetDirname path) = false)
    (h : Climbs access (WatchInfo.keys ⟨info.dirTable ++ [(pathGetDirname path, files)], t⟩)
      (pathGetDirname path) q) : Climbs access info.keys path q := by
  refine .up hkey hdir (h.anti fun d hd => ?_)
  rw [WatchInfo.keys_add]
  exact List.mem_append_left _ hd

/-- A row is an old one, or that of a missing directory, or the one the path's name was put
on, or begins with it. -/
theorem AddWatch.rows (h : AddWatch access inotify path info info') {d : List Char}
    {files : List (List Char)} (hrow : (d, files) ∈ info'.dirTable) :
    (d, files) ∈ info.dirTable ∨ access d = false ∨
      ∃ q, Climbs access info.keys path q ∧ pathGetDirname q = d ∧
        ((∃ old, (d, old) ∈ info.dirTable ∧ files = old ++ [pathGetBasename q]) ∨
          (d ∉ info.keys ∧ access q = false ∧ files = [pathGetBasename q])) := by
  induction h with
  | keep => exact Or.inl hrow
  | @row path info files' hfiles =>
    obtain heq | ⟨hold, -⟩ := Table.mem_replace hrow
    · cases heq
      exact Or.inr (Or.inr ⟨path, .here, rfl, Or.inl ⟨files', Table.mem_of_lookup hfiles, rfl⟩⟩)
    · exact Or.inl hold
  | @climb path info info' hkey hdir _ ih =>
    have hput : ∀ {ns}, (d, ns) ∈ info.dirTable ++ [(pathGetDirname path, [pathGetBasename path])] →
        (d, ns) ∈ info.dirTable ∨ access d = false := by
      intro ns hns
      obtain hold | hnew := List.mem_append.mp hns
      · exact Or.inl hold
      · cases List.mem_singleton.mp hnew
        exact Or.inr hdir
    obtain hold | hmissing | ⟨q, hq, hd, hold | ⟨hnew, hq'⟩⟩ := ih hrow
    · exact (hput hold).imp_right Or.inl
    · exact Or.inr (Or.inl hmissing)
    · obtain ⟨old, hold, hfiles⟩ := hold
      obtain hold | hmissing := hput hold
      · exact Or.inr (Or.inr ⟨q, hq.above hkey hdir, hd, Or.inl ⟨old, hold, hfiles⟩⟩)
      · exact Or.inr (Or.inl hmissing)
    · refine Or.inr (Or.inr ⟨q, hq.above hkey hdir, hd, Or.inr ⟨fun hd => hnew ?_, hq'⟩⟩)
      rw [WatchInfo.keys_add]
      exact List.mem_append_left _ hd
  | @watch path info wd hkey hdir hwd hpath =>
    obtain hold | hnew := List.mem_append.mp hrow
    · exact Or.inl hold
    · cases List.mem_singleton.mp hnew
      exact Or.inr (Or.inr ⟨path, .here, rfl, Or.inr ⟨hkey, hpath, rfl⟩⟩)

end

/-! ## A table in order -/

namespace WatchInfo

variable {access : List Char → Bool} {inotify : List Char → Option ℕ} {info info' : WatchInfo}
  {path p d name : List Char} {files : List (List Char)} {wd : ℕ}

/-- What is promised of the table: whatever is watched has a row with names, and one
descriptor. -/
structure Consistent (info : WatchInfo) : Prop where
  awaited : ∀ wd dir, (wd, dir) ∈ info.wdTable →
    ∃ files, info.dirTable.lookup dir = some files ∧ files ≠ []
  single : ∀ wd wd' dir, (wd, dir) ∈ info.wdTable → (wd', dir) ∈ info.wdTable → wd = wd'

/-- The table in order: no two rows for a directory, no row without names, and the names are
those of paths in the directory. -/
structure Orderly (info : WatchInfo) : Prop where
  keyed : info.Keyed
  filled : info.Filled
  parted : ∀ d files, (d, files) ∈ info.dirTable → ∀ n ∈ files,
    ∃ p, pathGetDirname p = d ∧ pathGetBasename p = n

theorem orderly_nil : Orderly {} := ⟨keyed_nil, nofun, nofun⟩

theorem Keyed.wd_unique {wd' : ℕ} (h : info.Keyed) (hw : (wd, d) ∈ info.wdTable)
    (hw' : (wd', d) ∈ info.wdTable) : wd = wd' :=
  congrArg Prod.fst (List.inj_on_of_nodup_map h.dirsNodup hw hw' rfl)

theorem Keyed.exists_row (h : info.Keyed) (hw : (wd, d) ∈ info.wdTable) :
    ∃ files, (d, files) ∈ info.dirTable :=
  Table.mem_keys.mp (h.watched d (mem_dirs.mpr ⟨wd, hw⟩))

theorem Orderly.consistent (h : info.Orderly) : info.Consistent where
  awaited wd dir hw := by
    obtain ⟨files, hrow⟩ := h.keyed.exists_row hw
    exact ⟨files, Table.lookup_of_mem h.keyed.keysNodup hrow, h.filled _ hrow⟩
  single _ _ _ hw hw' := h.keyed.wd_unique hw hw'

/-- A directory with a row is in the spelling of `g_path_get_dirname`. -/
theorem Orderly.isDirname (h : info.Orderly) (hrow : (d, files) ∈ info.dirTable) : IsDirname d := by
  obtain ⟨n, hn⟩ := List.exists_mem_of_ne_nil _ (h.filled _ hrow)
  obtain ⟨p, rfl, -⟩ := h.parted d files hrow n hn
  exact isDirname_pathGetDirname p

/-- A name in a row has no separator, but for the root in the root. -/
theorem Orderly.entry (h : info.Orderly) (hrow : (d, files) ∈ info.dirTable) (hn : name ∈ files) :
    (name ≠ [] ∧ '/' ∉ name) ∨ (d = ['/'] ∧ name = ['/']) := by
  obtain ⟨p, rfl, rfl⟩ := h.parted d files hrow name hn
  exact pathGetBasename_cases p

/-- The path of a name that came up in a directory is that of no other name in a row. -/
theorem Orderly.buildFilename_inj (h : info.Orderly) (hrow : (d, files) ∈ info.dirTable)
    {n : List Char} (hn : n ∈ files) {dir : List Char} (hdir : IsDirname dir) (hname : IsName name)
    (he : buildFilename d n = buildFilename dir name) : d = dir ∧ n = name := by
  have hd := h.isDirname hrow
  obtain ⟨hne, hslash⟩ | ⟨rfl, rfl⟩ := h.entry hrow hn
  · exact hd.buildFilename_inj hne hslash hdir hname.nonempty hname.noSlash he
  · -- the root in the root is `//`, which no name makes
    have hbase := hdir.pathGetBasename hname.nonempty hname.noSlash
    rw [← he] at hbase
    have hroot : name = ['/'] := hbase.symm.trans (by decide)
    exact absurd (hroot ▸ List.mem_singleton_self '/') hname.noSlash

/-! ### The operations keep it -/

theorem Orderly.append (h : info.Orderly) (hrow : (pathGetDirname path, files) ∈ info.dirTable) :
    Orderly ⟨Table.replace (pathGetDirname path) (files ++ [pathGetBasename path]) info.dirTable,
      info.wdTable⟩ := by
  refine ⟨h.keyed.replace, h.filled.replace (by simp) _, fun d ns hns n hn => ?_⟩
  obtain heq | ⟨hold, -⟩ := Table.mem_replace hns
  · cases heq
    obtain hn | hn := List.mem_append.mp hn
    · exact h.parted _ _ hrow n hn
    · exact ⟨path, rfl, (List.mem_singleton.mp hn).symm⟩
  · exact h.parted d ns hold n hn

theorem Orderly.put (h : info.Orderly) {wds : List (ℕ × List Char)}
    (hk : Keyed ⟨info.dirTable ++ [(pathGetDirname path, [pathGetBasename path])], wds⟩) :
    Orderly ⟨info.dirTable ++ [(pathGetDirname path, [pathGetBasename path])], wds⟩ := by
  refine ⟨hk, fun e he => ?_, fun d ns hns n hn => ?_⟩
  · obtain he | he := List.mem_append.mp he
    · exact h.filled e he
    · rw [List.mem_singleton.mp he]
      exact List.cons_ne_nil _ _
  · obtain hns | hns := List.mem_append.mp hns
    · exact h.parted d ns hns n hn
    · cases List.mem_singleton.mp hns
      exact ⟨path, rfl, (List.mem_singleton.mp hn).symm⟩

/-- No two directories with one descriptor. -/
def Distinct (inotify : List Char → Option ℕ) (info : WatchInfo) : Prop :=
  ∀ dir wd, inotify dir = some wd → ∀ d, (wd, d) ∈ info.wdTable → d = dir

/-- The descriptor of a directory without a row is new. -/
theorem Distinct.fresh (hd : Distinct inotify info) (h : info.Keyed) (hkey : d ∉ info.keys)
    (hwd : inotify d = some wd) : wd ∉ Table.keys info.wdTable := by
  intro hmem
  obtain ⟨dir, hw⟩ := Table.mem_keys.mp hmem
  obtain rfl := hd d wd hwd dir hw
  exact hkey (h.watched dir (mem_dirs.mpr ⟨wd, hw⟩))

/-- **A call of `_add_watch`** keeps the table in order. -/
theorem Orderly.addWatch (h : info.Orderly) (hd : Distinct inotify info)
    (hadd : AddWatch access inotify path info info') : info'.Orderly := by
  induction hadd with
  | keep => exact h
  | row hfiles => exact h.append (Table.mem_of_lookup hfiles)
  | climb hkey _ _ ih => exact ih (h.put (h.keyed.wait hkey)) hd
  | watch hkey _ hwd _ =>
    have hfresh := hd.fresh h.keyed hkey hwd
    rw [Table.remove_of_notMem hfresh]
    exact h.put (h.keyed.watch hkey hfresh)

/-- It adds one watch at most, on a directory that exists, and drops none. -/
theorem Orderly.addWatch_wdTable (h : info.Orderly) (hd : Distinct inotify info)
    (hadd : AddWatch access inotify path info info') :
    info'.wdTable = info.wdTable ∨ ∃ q wd, Climbs access info.keys path q ∧
      pathGetDirname q ∉ info.keys ∧ access (pathGetDirname q) = true ∧
      inotify (pathGetDirname q) = some wd ∧ wd ∉ Table.keys info.wdTable ∧
      info'.wdTable = info.wdTable ++ [(wd, pathGetDirname q)] := by
  induction hadd with
  | keep => exact Or.inl rfl
  | row => exact Or.inl rfl
  | climb hkey hdir _ ih =>
    refine (ih (h.put (h.keyed.wait hkey)) hd).imp_right ?_
    rintro ⟨q, wd, hq, hnew, hrest⟩
    refine ⟨q, wd, hq.above hkey hdir, fun hk => hnew ?_, hrest⟩
    rw [keys_add]
    exact List.mem_append_left _ hk
  | @watch path info wd hkey hdir hwd _ =>
    have hfresh := hd.fresh h.keyed hkey hwd
    refine Or.inr ⟨path, wd, .here, hkey, hdir, hwd, hfresh, ?_⟩
    rw [Table.remove_of_notMem hfresh]

theorem Orderly.strike (h : info.Orderly) (hw : (wd, d) ∈ info.wdTable)
    (hrow : (d, files) ∈ info.dirTable) : (strike wd d name files info).Orderly := by
  refine ⟨h.keyed.strike hw, h.filled.strike, fun dir ns hns n hn => ?_⟩
  obtain ⟨rfl, rfl⟩ | ⟨-, hold⟩ := row_of_strike hns
  · exact h.parted _ _ hrow n (List.mem_of_mem_erase hn)
  · exact h.parted dir ns hold n hn

/-- A watch that is gone was that of the struck name, and the name was the last. -/
theorem Keyed.eq_of_strike (h : info.Keyed) (hw : (wd, d) ∈ info.wdTable) {wd' : ℕ}
    {d' : List Char} (hw' : (wd', d') ∈ info.wdTable) (hn : name ∈ files)
    (hgone : (wd, d) ∉ (Tlm.strike wd' d' name files info).wdTable) :
    wd = wd' ∧ d = d' ∧ files = [name] := by
  simp only [Tlm.strike] at hgone
  split at hgone
  · rename_i hlast
    have hwd : wd = wd' := by
      by_contra hne
      exact hgone (Table.mem_remove.mpr ⟨hw, hne⟩)
    subst hwd
    exact ⟨rfl, Table.eq_of_mem h.wdsNodup hw hw', eq_singleton_of_erase hn hlast⟩
  · exact absurd hw hgone

theorem Orderly.steal (h : info.Orderly) (hp : p ∉ info.dirs) :
    Orderly { info with dirTable := Table.remove p info.dirTable } :=
  ⟨h.keyed.steal hp, h.filled.remove p _,
    fun d ns hns => h.parted d ns (Table.mem_remove.mp hns).1⟩

end WatchInfo

/-! ## Every state of a run -/

namespace Watching

open WatchInfo (mem_dirs)

variable {s : Watching} {inotify : List Char → Option ℕ} {path p dir d name : List Char}
  {todo : List (List Char)} {queue : List (ℕ × List Char)} {wd n : ℕ}

/-- The invariant of a run. What is watched exists; an event in the queue is the only one
for its name, which exists and is not watched itself; and once the scan is over, a path
that is to be added is in a directory that exists and has no event left. -/
structure Orderly (s : Watching) : Prop where
  info : s.info.Orderly
  alive : ∀ d ∈ s.info.dirs, s.access d = true
  real : ∀ wd n d, (wd, n) ∈ s.queue → (wd, d) ∈ s.info.wdTable →
    IsName n ∧ s.access (buildFilename d n) = true ∧ buildFilename d n ∉ s.info.dirs
  once : s.queue.Nodup
  still : s.scanning = true → s.queue = []
  here : s.scanning = false → ∀ p ∈ s.todo, s.access (pathGetDirname p) = true ∧
    ∀ wd n d, (wd, n) ∈ s.queue → (wd, d) ∈ s.info.wdTable → buildFilename d n ≠ pathGetDirname p
  count : ∀ n ∈ s.nwatch, s.info.wdTable.length ≤ n

theorem start_orderly (fs : Fs) (paths : List String) : (start fs paths).Orderly :=
  ⟨WatchInfo.orderly_nil, nofun, nofun, List.nodup_nil, fun _ => rfl, nofun, by simp [start]⟩

/-! ### A call of `_add_watch` -/

theorem distinct_of_proper (hp : s.Proper (.add inotify)) : WatchInfo.Distinct inotify s.info :=
  fun dir wd hwd => (hp dir wd hwd).1

/-- A watch is an old one, or new: on a directory that had no row, exists and has no event. -/
theorem Orderly.addNext_watch (h : s.Orderly) (hp : s.Proper (.add inotify))
    (hw : (wd, d) ∈ (s.addNext inotify path todo n).info.wdTable) :
    (wd, d) ∈ s.info.wdTable ∨ (d ∉ s.info.keys ∧ s.access d = true ∧ (∀ e ∈ s.queue, e.1 ≠ wd) ∧
      (s.access (pathGetDirname path) = true → d = pathGetDirname path)) := by
  have hadd := addWatch_mem s inotify (path.length + 2) path s.info
  simp only [addNext] at hw
  obtain hsame | ⟨q, w, hq, hkey, hdir, hwd, hfresh, hnew⟩ :=
      h.info.addWatch_wdTable (distinct_of_proper hp) hadd
  · rw [hsame] at hw
    exact Or.inl hw
  · rw [hnew] at hw
    refine (List.mem_append.mp hw).imp_right fun hw => ?_
    cases List.mem_singleton.mp hw
    exact ⟨hkey, hdir, (hp _ _ hwd).2 hfresh, fun hacc => by rw [hq.eq hacc]⟩

theorem Orderly.addNext_kept (h : s.Orderly) (hp : s.Proper (.add inotify))
    (hw : (wd, d) ∈ s.info.wdTable) : (wd, d) ∈ (s.addNext inotify path todo n).info.wdTable := by
  have hadd := addWatch_mem s inotify (path.length + 2) path s.info
  simp only [addNext]
  obtain hsame | ⟨q, w, -, -, -, -, -, hnew⟩ :=
      h.info.addWatch_wdTable (distinct_of_proper hp) hadd
  · rw [hsame]
    exact hw
  · rw [hnew]
    exact List.mem_append_left _ hw

theorem Orderly.addNext (h : s.Orderly) (hp : s.Proper (.add inotify))
    (htodo : s.todo = path :: todo) (hn : s.nwatch = some n) : (s.addNext inotify path todo n).Orderly := by
  have hadd := addWatch_mem s inotify (path.length + 2) path s.info
  -- an event in the queue is about an old watch
  have hold : ∀ {wd m d}, (wd, m) ∈ s.queue →
      (wd, d) ∈ (s.addNext inotify path todo n).info.wdTable → (wd, d) ∈ s.info.wdTable := by
    intro wd m d hq hw
    obtain hw | ⟨-, -, hnone, -⟩ := h.addNext_watch hp hw
    · exact hw
    · exact absurd rfl (hnone _ hq)
  refine ⟨h.info.addWatch (distinct_of_proper hp) hadd, ?_, ?_, h.once, h.still, ?_, ?_⟩
  · intro d hd
    obtain ⟨wd, hw⟩ := mem_dirs.mp hd
    obtain hw | ⟨-, hacc, -⟩ := h.addNext_watch hp hw
    · exact h.alive d (mem_dirs.mpr ⟨wd, hw⟩)
    · exact hacc
  · intro wd m d (hq : (wd, m) ∈ s.queue) hw
    obtain ⟨hname, hacc, hdirs⟩ := h.real wd m d hq (hold hq hw)
    refine ⟨hname, hacc, fun hd => ?_⟩
    obtain ⟨wd', hw'⟩ := mem_dirs.mp hd
    obtain hw' | ⟨-, -, -, honly⟩ := h.addNext_watch hp hw'
    · exact hdirs (mem_dirs.mpr ⟨wd', hw'⟩)
    · -- a directory that comes to be watched behind the scan has no event left
      have hrun : s.scanning = false := by
        cases hsc : s.scanning with
        | false => rfl
        | true =>
          rw [h.still hsc] at hq
          cases hq
      obtain ⟨hdir, hnone⟩ := h.here hrun path (htodo ▸ List.mem_cons_self)
      exact hnone wd m d hq (hold hq hw) (honly hdir)
  · intro hrun p hp'
    obtain ⟨hdir, hnone⟩ := h.here hrun p (htodo ▸ List.mem_cons_of_mem _ hp')
    exact ⟨hdir, fun wd m d hq hw => hnone wd m d hq (hold hq hw)⟩
  · intro m hm
    have hlen := addWatch_length (s.fs inotify) (path.length + 2) path s.info
    have hcount := h.count n hn
    have hm : (if (addWatch (s.fs inotify) (path.length + 2) path s.info).2 = .added then n + 1
      else n) = m := Option.some.inj hm
    simp only [Watching.addNext]
    rw [← hm]
    by_cases hadded : (addWatch (s.fs inotify) (path.length + 2) path s.info).2 = .added
    · rw [if_pos hadded] at hlen ⊢
      omega
    · rw [if_neg hadded] at hlen ⊢
      omega

/-! ### A creation -/

theorem mem_creation (h : s.info.Keyed) (dir name : List Char) (e : ℕ × List Char) :
    e ∈ s.creation dir name ↔ ∃ wd, (wd, dir) ∈ s.info.wdTable ∧ e = (wd, name) :=
  h.mem_event e

theorem Orderly.create (h : s.Orderly) {spelt : List Char → Bool}
    (hp : s.Proper (.create dir name spelt)) : (s.step (.create dir name spelt)).Orderly := by
  obtain ⟨hrun, -, hname, hnot⟩ := hp
  have habsent : s.access (buildFilename dir name) ≠ true := by simp [hnot]
  have hmono : ∀ p, s.access p = true → (s.step (.create dir name spelt)).access p = true := by
    intro p hp
    simp [step, hp]
  have hev : ∀ {wd m}, (wd, m) ∈ (s.step (.create dir name spelt)).queue →
      (wd, m) ∈ s.queue ∨ ((wd, dir) ∈ s.info.wdTable ∧ m = name) := by
    intro wd m hq
    refine (List.mem_append.mp hq).imp_right fun hq => ?_
    obtain ⟨wd', hw, he⟩ := (mem_creation h.info.keyed dir name _).mp hq
    cases he
    exact ⟨hw, rfl⟩
  refine ⟨h.info, fun d hd => hmono d (h.alive d hd), ?_, ?_, fun hsc => ?_, ?_, h.count⟩
  · intro wd m d hq hw
    obtain hq | ⟨hw', rfl⟩ := hev hq
    · obtain ⟨hm, hacc, hdirs⟩ := h.real wd m d hq hw
      exact ⟨hm, hmono _ hacc, hdirs⟩
    · obtain rfl := Table.eq_of_mem h.info.keyed.wdsNodup hw hw'
      exact ⟨hname, by simp [step], fun hd => habsent (h.alive _ hd)⟩
  · refine h.once.append ?_ fun e hq hc => ?_
    · simp only [creation]
      split
      · exact List.nodup_nil
      · exact List.nodup_singleton _
    · obtain ⟨wd, hw, rfl⟩ := (mem_creation h.info.keyed dir name e).mp hc
      exact habsent (h.real wd name dir hq hw).2.1
  · have hsc : s.scanning = true := hsc
    rw [hsc] at hrun
    cases hrun
  · intro _ p hp
    obtain ⟨hacc, hnone⟩ := h.here hrun p hp
    refine ⟨hmono _ hacc, fun wd m d hq hw => ?_⟩
    obtain hq | ⟨hw', rfl⟩ := hev hq
    · exact hnone wd m d hq hw
    · obtain rfl := Table.eq_of_mem h.info.keyed.wdsNodup hw hw'
      exact fun he => habsent (he ▸ hacc)

/-! ### The callback -/

/-- What it is to read an event: there is nothing to read; the event is about nothing that is
waited for; it strikes a name of a row, and then the row of its path, if there is one, is
taken out to be added again. -/
theorem Orderly.read_cases (h : s.Orderly) :
    s.step .read = s ∨ ∃ wd name queue, s.queue = (wd, name) :: queue ∧ s.todo = [] ∧
      ((s.step .read = { s with queue } ∧
          ∀ d files, (wd, d) ∈ s.info.wdTable → (d, files) ∈ s.info.dirTable → name ∉ files) ∨
        ∃ dir files nwatch, (wd, dir) ∈ s.info.wdTable ∧ (dir, files) ∈ s.info.dirTable ∧
          name ∈ files ∧ (strike wd dir name files s.info).wdTable.length ≤ nwatch ∧
          let info := strike wd dir name files s.info
          let path := buildFilename dir name
          (s.step .read = { s with queue, info, nwatch := some nwatch } ∨
            ∃ pending, (path, pending) ∈ info.dirTable ∧
              s.step .read =
                { s with
                  queue
                  info := { info with dirTable := Table.remove path info.dirTable }
                  todo := pending.map (buildFilename path)
                  nwatch := some nwatch })) := by
  have hk := h.info.keyed
  rcases hn : s.nwatch with _ | _ | m
  · exact Or.inl (by simp only [step, hn])
  · exact Or.inl (by simp only [step, hn])
  · rcases ht : s.todo with _ | ⟨p, todo⟩
    · rcases hq : s.queue with _ | ⟨⟨wd, name⟩, queue⟩
      · exact Or.inl (by simp only [step, hn, ht, hq])
      · refine Or.inr ⟨wd, name, queue, rfl, rfl, ?_⟩
        simp only [step, hn, ht, hq, event]
        rcases hl : s.info.wdTable.lookup wd with _ | dir
        · refine Or.inl ⟨rfl, fun d files hw => ?_⟩
          exact absurd (Table.mem_keys_of_mem hw) (Table.lookup_eq_none.mp hl)
        · have hw := Table.mem_of_lookup hl
          obtain ⟨files, hrow⟩ := hk.exists_row hw
          simp only [Table.lookup_of_mem hk.keysNodup hrow, Option.getD_some]
          by_cases hmem : name ∈ files
          · refine Or.inr ⟨dir, files, _, hw, hrow, hmem,
              WatchInfo.length_strike hw (h.count _ hn), ?_⟩
            simp only [if_pos hmem]
            rcases hp : (strike wd dir name files s.info).dirTable.lookup
              (buildFilename dir name) with _ | pending
            · exact Or.inl rfl
            · exact Or.inr ⟨pending, Table.mem_of_lookup hp, rfl⟩
          · refine Or.inl ⟨by simp only [if_neg hmem], fun d ns hw' hr => ?_⟩
            obtain rfl := Table.eq_of_mem hk.wdsNodup hw' hw
            obtain rfl := Table.eq_of_mem hk.keysNodup hr hrow
            exact hmem
    · exact Or.inl (by simp only [step, hn, ht])

/-- An event is taken off the queue. -/
theorem Orderly.next {e : ℕ × List Char} (h : s.Orderly) (hq : s.queue = e :: queue) :
    Orderly { s with queue } := by
  have htail : ∀ {e'}, e' ∈ queue → e' ∈ s.queue := fun he => hq ▸ List.mem_cons_of_mem _ he
  refine ⟨h.info, h.alive, fun wd m d hm => h.real wd m d (htail hm),
    (List.nodup_cons.mp (hq ▸ h.once)).2, fun hsc => ?_, fun hrun p hp => ?_, h.count⟩
  · have hnil := h.still hsc
    rw [hq] at hnil
    cases hnil
  · obtain ⟨hacc, hnone⟩ := h.here hrun p hp
    exact ⟨hacc, fun wd m d hm => hnone wd m d (htail hm)⟩

theorem Orderly.strike (h : s.Orderly) {files : List (List Char)} (hw : (wd, dir) ∈ s.info.wdTable)
    (hrow : (dir, files) ∈ s.info.dirTable)
    (hlen : (strike wd dir name files s.info).wdTable.length ≤ n) :
    Orderly { s with info := Tlm.strike wd dir name files s.info, nwatch := some n } := by
  have hsub : ∀ {d}, d ∈ (Tlm.strike wd dir name files s.info).dirs → d ∈ s.info.dirs := by
    intro d hd
    obtain ⟨w, hw⟩ := mem_dirs.mp hd
    exact mem_dirs.mpr ⟨w, WatchInfo.watch_of_strike hw⟩
  refine ⟨h.info.strike hw hrow, fun d hd => h.alive d (hsub hd), fun wd m d hq hw => ?_, h.once,
    h.still, fun hrun p hp => ?_, fun m hm => Option.some.inj hm ▸ hlen⟩
  · obtain ⟨hm, hacc, hdirs⟩ := h.real wd m d hq (WatchInfo.watch_of_strike hw)
    exact ⟨hm, hacc, fun hd => hdirs (hsub hd)⟩
  · obtain ⟨hacc, hnone⟩ := h.here hrun p hp
    exact ⟨hacc, fun wd m d hq hw => hnone wd m d hq (WatchInfo.watch_of_strike hw)⟩

theorem Orderly.steal (h : s.Orderly) (hp : p ∉ s.info.dirs)
    (hhere : ∀ p ∈ todo, s.access (pathGetDirname p) = true ∧ ∀ wd n d, (wd, n) ∈ s.queue →
      (wd, d) ∈ s.info.wdTable → buildFilename d n ≠ pathGetDirname p) :
    Orderly { s with info := { s.info with dirTable := Table.remove p s.info.dirTable }, todo } :=
  ⟨h.info.steal hp, h.alive, h.real, h.once, h.still, fun _ => hhere, h.count⟩

/-- What the head of the queue says of its path. -/
theorem Orderly.head (h : s.Orderly) (hq : s.queue = (wd, name) :: queue)
    (hw : (wd, dir) ∈ s.info.wdTable) :
    IsName name ∧ s.access (buildFilename dir name) = true ∧ buildFilename dir name ∉ s.info.dirs ∧
      ∀ wd' m d, (wd', m) ∈ queue → (wd', d) ∈ s.info.wdTable →
        buildFilename d m ≠ buildFilename dir name := by
  have hmem : (wd, name) ∈ s.queue := hq ▸ List.mem_cons_self
  obtain ⟨hname, hacc, hdirs⟩ := h.real wd name dir hmem hw
  refine ⟨hname, hacc, hdirs, fun wd' m d hm hw' he => ?_⟩
  have hm' := (h.real wd' m d (hq ▸ List.mem_cons_of_mem _ hm) hw').1
  obtain ⟨files, hrow⟩ := h.info.keyed.exists_row hw
  obtain ⟨files', hrow'⟩ := h.info.keyed.exists_row hw'
  obtain ⟨rfl, rfl⟩ := (h.info.isDirname hrow').buildFilename_inj hm'.nonempty hm'.noSlash
    (h.info.isDirname hrow) hname.nonempty hname.noSlash he
  obtain rfl := h.info.keyed.wd_unique hw hw'
  exact (List.nodup_cons.mp (hq ▸ h.once)).1 hm

theorem Orderly.read (h : s.Orderly) : (s.step .read).Orderly := by
  obtain hsame | ⟨wd, name, queue, hq, htodo, ⟨hskip, -⟩ |
    ⟨dir, files, nwatch, hw, hrow, hn, hlen, hstruck | ⟨pending, hpending, hsteal⟩⟩⟩ := h.read_cases
  · rw [hsame]
    exact h
  · rw [hskip]
    exact h.next hq
  · rw [hstruck]
    exact (h.next hq).strike hw hrow hlen
  · rw [hsteal]
    obtain ⟨hname, hacc, hdirs, honce⟩ := h.head hq hw
    have hs := (h.next hq).strike hw hrow hlen
    refine hs.steal (fun hd => ?_) fun p hp => ?_
    · obtain ⟨w, hw'⟩ := mem_dirs.mp hd
      exact hdirs (mem_dirs.mpr ⟨w, WatchInfo.watch_of_strike hw'⟩)
    · obtain ⟨m, hm, rfl⟩ := List.mem_map.mp hp
      -- the path of an event is not the root, so the names in its row have no separator
      have hm' : m ≠ [] ∧ '/' ∉ m := by
        refine (hs.info.entry hpending hm).resolve_right fun hroot => ?_
        have hbase := (h.info.isDirname hrow).pathGetBasename hname.nonempty hname.noSlash
        rw [hroot.1] at hbase
        have hslash : name = ['/'] := hbase.symm
        exact hname.noSlash (hslash ▸ List.mem_singleton_self '/')
      have hdir := (hs.info.isDirname hpending).pathGetDirname hm'.1 hm'.2
      rw [hdir]
      exact ⟨hacc, fun wd' m' d hm hw' => honce wd' m' d hm (WatchInfo.watch_of_strike hw')⟩

/-- **One step** keeps everything in order. -/
theorem Orderly.step (h : s.Orderly) {m : WatchMove} (hp : s.Proper m) : (s.step m).Orderly := by
  cases m with
  | add inotify =>
    simp only [Watching.step]
    split
    · rename_i hn htodo
      exact h.addNext hp htodo hn
    · exact h
  | leave =>
    simp only [Watching.step]
    split
    · rename_i htodo
      refine ⟨WatchInfo.orderly_nil, List.forall_mem_nil _, by simp, List.nodup_nil, by simp,
        fun _ p hp => ?_, by simp⟩
      rw [htodo] at hp
      cases hp
    · rename_i htodo
      refine ⟨h.info, h.alive, h.real, h.once, by simp, fun _ p hp => ?_, by simp⟩
      rw [htodo] at hp
      cases hp
    · exact h
  | create dir name spelt => exact h.create hp
  | dispatch =>
    simp only [Watching.step]
    split
    · refine ⟨h.info, h.alive, h.real, h.once, h.still, h.here, fun n hn => ?_⟩
      exact (Option.some.inj hn).le
    · exact h
  | read => exact h.read

/-! ## When a descriptor is dropped -/

/-- A name has come up in a watched directory, and its event is not still to be read. -/
def Appeared (s : Watching) (wd : ℕ) (dir name : List Char) : Prop :=
  s.access (buildFilename dir name) = true ∧ (wd, name) ∉ s.queue

instance (s : Watching) (wd : ℕ) (dir name : List Char) : Decidable (s.Appeared wd dir name) :=
  inferInstanceAs (Decidable (_ ∧ _))

/-- A step that drops a descriptor has seen the last name of its directory. -/
def DropsAtLast (s : Watching) (m : WatchMove) : Prop :=
  ∀ wd dir files, (wd, dir) ∈ s.info.wdTable → s.info.dirTable.lookup dir = some files →
    (wd, dir) ∉ (s.step m).info.wdTable →
      ∃ name, files = [name] ∧ (s.step m).Appeared wd dir name

/-- A step drops a descriptor exactly when behind it the last name that was awaited in its
directory has appeared. -/
def DropsExactly (s : Watching) (m : WatchMove) : Prop :=
  ∀ wd dir files, (wd, dir) ∈ s.info.wdTable → s.info.dirTable.lookup dir = some files →
    ((wd, dir) ∉ (s.step m).info.wdTable ↔ ∀ name ∈ files, (s.step m).Appeared wd dir name)

theorem step_read_access (h : s.Orderly) : (s.step .read).access = s.access := by
  obtain hsame | ⟨wd, name, queue, -, -, ⟨hskip, -⟩ |
    ⟨dir, files, nwatch, -, -, -, -, hstruck | ⟨pending, -, hsteal⟩⟩⟩ := h.read_cases
  · rw [hsame]
  · rw [hskip]
  · rw [hstruck]
  · rw [hsteal]

/-- **No descriptor is dropped early.** -/
theorem Orderly.dropsAtLast (h : s.Orderly) {m : WatchMove} (hp : s.Proper m) : s.DropsAtLast m := by
  intro wd dir files hw hfiles hnot
  cases m with
  | add inotify =>
    refine absurd ?_ hnot
    simp only [Watching.step]
    split
    · exact h.addNext_kept hp hw
    · exact hw
  | leave =>
    refine absurd ?_ hnot
    simp only [Watching.step]
    split
    · rename_i hn _
      -- the table is given up when nothing is watched
      have hnil := List.eq_nil_of_length_eq_zero (Nat.le_zero.mp (h.count 0 hn))
      rw [hnil] at hw
      cases hw
    · exact hw
    · exact hw
  | create dir name spelt => exact absurd hw hnot
  | dispatch =>
    refine absurd ?_ hnot
    simp only [Watching.step]
    split
    · exact hw
    · exact hw
  | read =>
    obtain hsame | ⟨wd', name, queue, hq, -, ⟨hskip, -⟩ |
      ⟨dir', files', nwatch, hw', hrow, hn, -, hstruck⟩⟩ := h.read_cases
    · rw [hsame] at hnot
      exact absurd hw hnot
    · rw [hskip] at hnot
      exact absurd hw hnot
    · have hafter : (s.step .read).info.wdTable =
          (Tlm.strike wd' dir' name files' s.info).wdTable ∧ (s.step .read).queue = queue := by
        obtain hstruck | ⟨pending, -, hsteal⟩ := hstruck
        · rw [hstruck]
          exact ⟨rfl, rfl⟩
        · rw [hsteal]
          exact ⟨rfl, rfl⟩
      rw [hafter.1] at hnot
      obtain ⟨rfl, rfl, rfl⟩ := h.info.keyed.eq_of_strike hw hw' hn hnot
      rw [Table.lookup_of_mem h.info.keyed.keysNodup hrow] at hfiles
      refine ⟨name, (Option.some.inj hfiles).symm, ?_, ?_⟩
      · rw [step_read_access h]
        exact (h.head hq hw).2.1
      · rw [hafter.2]
        exact (List.nodup_cons.mp (hq ▸ h.once)).1

/-! ## When it is dropped in time -/

/-- The last part of a path can be waited for in its directory: if that is watched, the
name is not on its row yet and has not appeared; if it has no row, the path is not so
spelt that it is missing while the name is there. -/
structure Due (s : Watching) (path : List Char) : Prop where
  row : ∀ wd files, (wd, pathGetDirname path) ∈ s.info.wdTable →
    s.info.dirTable.lookup (pathGetDirname path) = some files →
      pathGetBasename path ∉ files ∧ ¬s.Appeared wd (pathGetDirname path) (pathGetBasename path)
  spelt : pathGetDirname path ∉ s.info.keys → s.access path = false →
    s.access (buildFilename (pathGetDirname path) (pathGetBasename path)) = false

/-- A step the table can keep up with: what is put on a row can be waited for there, and what
is waited for in a watched directory comes up by being created in it. -/
def Fits (s : Watching) : WatchMove → Prop
  | .add _ => ∀ path ∈ s.todo.head?, ∀ q, Climbs s.access s.info.keys path q → s.Due q
  | .create dir name spelt => ∀ wd d files, (wd, d) ∈ s.info.wdTable →
      s.info.dirTable.lookup d = some files → ∀ n ∈ files, spelt (buildFilename d n) = true →
        s.access (buildFilename d n) = true ∨ buildFilename d n = buildFilename dir name
  | _ => True

/-- Every name that is awaited in a watched directory is there once and has yet to appear. -/
def Expects (s : Watching) : Prop :=
  ∀ wd dir files, (wd, dir) ∈ s.info.wdTable → (dir, files) ∈ s.info.dirTable →
    files.Nodup ∧ ∀ name ∈ files, ¬s.Appeared wd dir name

/-- A call watches only a directory that had no row. -/
theorem Orderly.watch_of_row (h : s.Orderly) (hp : s.Proper (.add inotify))
    (hw : (wd, d) ∈ (s.addNext inotify path todo n).info.wdTable) {files : List (List Char)}
    (hrow : (d, files) ∈ s.info.dirTable) : (wd, d) ∈ s.info.wdTable := by
  obtain hw | ⟨hkey, -⟩ := h.addNext_watch hp hw
  · exact hw
  · exact absurd (Table.mem_keys_of_mem hrow) hkey

theorem Expects.addNext (hq : s.Expects) (h : s.Orderly) (hp : s.Proper (.add inotify))
    (hdue : ∀ q, Climbs s.access s.info.keys path q → s.Due q) :
    (s.addNext inotify path todo n).Expects := by
  intro wd dir files hw hrow
  have hadd := addWatch_mem s inotify (path.length + 2) path s.info
  obtain hold | hmissing | ⟨q, hclimb, rfl, ⟨old, hold, rfl⟩ | ⟨hkey, hpath, rfl⟩⟩ := hadd.rows hrow
  · exact hq wd dir files (h.watch_of_row hp hw hold) hold
  · -- a directory that is missing is not watched
    have hacc : s.access dir = true := by
      obtain hw | ⟨-, hacc, -⟩ := h.addNext_watch hp hw
      · exact h.alive dir (mem_dirs.mpr ⟨wd, hw⟩)
      · exact hacc
    rw [hmissing] at hacc
    cases hacc
  · have hw := h.watch_of_row hp hw hold
    obtain ⟨hnew, hnot⟩ :=
      (hdue q hclimb).row wd old hw (Table.lookup_of_mem h.info.keyed.keysNodup hold)
    obtain ⟨hnodup, hall⟩ := hq wd _ old hw hold
    refine ⟨by simpa using hnodup.concat hnew, fun name hn => ?_⟩
    obtain hn | hn := List.mem_append.mp hn
    · exact hall name hn
    · rw [List.mem_singleton.mp hn]
      exact hnot
  · refine ⟨List.nodup_singleton _, fun name hn hap => ?_⟩
    obtain rfl := List.mem_singleton.mp hn
    have hacc : s.access _ = true := hap.1
    rw [(hdue q hclimb).spelt hkey hpath] at hacc
    cases hacc

theorem Expects.create (hq : s.Expects) (h : s.Orderly) {spelt : List Char → Bool}
    (hp : s.Proper (.create dir name spelt)) (hfits : s.Fits (.create dir name spelt)) :
    (s.step (.create dir name spelt)).Expects := by
  intro wd d files hw hrow
  obtain ⟨hnodup, hall⟩ := hq wd d files hw hrow
  refine ⟨hnodup, fun m hm hap => ?_⟩
  obtain ⟨hacc, hqueue⟩ := hap
  have hkept : (wd, m) ∉ s.queue := fun hmem => hqueue (List.mem_append_left _ hmem)
  have hnow : s.access (buildFilename d m) = true ∨ buildFilename d m = buildFilename dir name := by
    simp only [step, Bool.or_eq_true, decide_eq_true_eq] at hacc
    obtain (hacc | he) | hspelt := hacc
    · exact Or.inl hacc
    · exact Or.inr he
    · exact hfits wd d files hw (Table.lookup_of_mem h.info.keyed.keysNodup hrow) m hm hspelt
  obtain hacc | he := hnow
  · exact hall m hm ⟨hacc, hkept⟩
  · -- it is the name that has been created, so its event has been queued
    obtain ⟨-, hdir, hname, -⟩ := hp
    obtain ⟨rfl, rfl⟩ := h.info.buildFilename_inj hrow hm hdir hname he
    refine hqueue (List.mem_append_right _ ?_)
    exact (mem_creation h.info.keyed d m _).mpr ⟨wd, hw, rfl⟩

/-- Behind an event the row of a watched directory is what it was, or has lost the name of the
event. -/
theorem Orderly.read_rows (h : s.Orderly) {files : List (List Char)}
    (hw : (wd, d) ∈ (s.step .read).info.wdTable) (hrow : (d, files) ∈ (s.step .read).info.dirTable) :
    (wd, d) ∈ s.info.wdTable ∧ ∃ old, (d, old) ∈ s.info.dirTable ∧ files.Sublist old ∧
      (old.Nodup → ∀ m ∈ files, (wd, m) ∈ s.queue → (wd, m) ∈ (s.step .read).queue) := by
  have htail : ∀ {e e' : ℕ × List Char} {q}, s.queue = e :: q → e' ≠ e → e' ∈ s.queue → e' ∈ q := by
    intro e e' q hq hne hmem
    rw [hq] at hmem
    exact (List.mem_cons.mp hmem).resolve_left hne
  have hstruck : ∀ {wd' name dir' files' queue}, s.queue = (wd', name) :: queue →
      (wd', dir') ∈ s.info.wdTable → (dir', files') ∈ s.info.dirTable →
      (wd, d) ∈ (Tlm.strike wd' dir' name files' s.info).wdTable →
      (d, files) ∈ (Tlm.strike wd' dir' name files' s.info).dirTable →
      (wd, d) ∈ s.info.wdTable ∧ ∃ old, (d, old) ∈ s.info.dirTable ∧ files.Sublist old ∧
        (old.Nodup → ∀ m ∈ files, (wd, m) ∈ s.queue → (wd, m) ∈ queue) := by
    intro wd' name dir' files' queue hq hw' hrow' hws hrs
    have hw := WatchInfo.watch_of_strike hws
    refine ⟨hw, ?_⟩
    obtain ⟨rfl, rfl⟩ | ⟨hne, hold⟩ := WatchInfo.row_of_strike hrs
    · refine ⟨files', hrow', List.erase_sublist, fun hnodup m hm => htail hq ?_⟩
      rintro he
      cases he
      exact hnodup.not_mem_erase hm
    · refine ⟨files, hold, List.Sublist.refl _, fun _ m _ => htail hq ?_⟩
      rintro he
      cases he
      exact hne (Table.eq_of_mem h.info.keyed.wdsNodup hw hw')
  obtain hsame | ⟨wd', name, queue, hq, -, ⟨hskip, hnone⟩ |
    ⟨dir', files', nwatch, hw', hrow', -, -, hafter | ⟨pending, -, hafter⟩⟩⟩ := h.read_cases
  · rw [hsame] at hw hrow ⊢
    exact ⟨hw, files, hrow, List.Sublist.refl _, fun _ _ _ hm => hm⟩
  · rw [hskip] at hw hrow ⊢
    refine ⟨hw, files, hrow, List.Sublist.refl _, fun _ m hm => htail hq ?_⟩
    rintro he
    cases he
    exact hnone d files hw hrow hm
  · rw [hafter] at hw hrow ⊢
    exact hstruck hq hw' hrow' hw hrow
  · rw [hafter] at hw hrow ⊢
    exact hstruck hq hw' hrow' hw (Table.mem_remove.mp hrow).1

theorem Expects.read (hq : s.Expects) (h : s.Orderly) : (s.step .read).Expects := by
  intro wd dir files hw hrow
  obtain ⟨hw', old, hold, hsub, hqueue⟩ := h.read_rows hw hrow
  obtain ⟨hnodup, hall⟩ := hq wd dir old hw' hold
  refine ⟨hnodup.sublist hsub, fun name hn hap => hall name (hsub.subset hn) ?_⟩
  obtain ⟨hacc, hgone⟩ := hap
  rw [step_read_access h] at hacc
  exact ⟨hacc, fun hmem => hgone (hqueue hnodup name hn hmem)⟩

/-- **One step** the table can keep up with. -/
theorem Expects.step (hq : s.Expects) (h : s.Orderly) {m : WatchMove} (hp : s.Proper m)
    (hfits : s.Fits m) : (s.step m).Expects := by
  cases m with
  | add inotify =>
    simp only [Watching.step]
    split
    · rename_i htodo
      exact hq.addNext h hp (hfits _ (by rw [htodo]; rfl))
    · exact hq
  | leave =>
    simp only [Watching.step]
    split
    · exact fun _ _ _ hw => absurd hw List.not_mem_nil
    · exact hq
    · exact hq
  | create dir name spelt => exact hq.create h hp hfits
  | dispatch =>
    simp only [Watching.step]
    split
    · exact hq
    · exact hq
  | read => exact hq.read h

/-- Then a descriptor is kept as long as a name of its directory has yet to appear. -/
theorem Expects.dropsExactly (hq : s.Expects) (h : s.Orderly) {m : WatchMove} (hp : s.Proper m)
    (hfits : s.Fits m) : s.DropsExactly m := by
  intro wd dir files hw hfiles
  have h' := h.step hp
  have hq' := hq.step h hp hfits
  have hrow := Table.mem_of_lookup hfiles
  constructor
  · intro hgone
    obtain ⟨name, rfl, hap⟩ := h.dropsAtLast hp wd dir files hw hfiles hgone
    simpa using hap
  · intro hall hkept
    have hsame : ∀ {files'}, (dir, files') ∈ (s.step m).info.dirTable → (∀ n ∈ files', n ∈ files) →
        False := by
      intro files' hrow' hsub
      obtain ⟨n, hn⟩ := List.exists_mem_of_ne_nil _ (h'.info.filled _ hrow')
      exact (hq' wd dir files' hkept hrow').2 n hn (hall n (hsub n hn))
    cases m with
    | add inotify =>
      -- what was awaited before the call is, too, and nothing has appeared meanwhile
      obtain ⟨n, hn⟩ := List.exists_mem_of_ne_nil _ (h.info.filled _ hrow)
      refine (hq wd dir files hw hrow).2 n hn ?_
      have hap := hall n hn
      simp only [Watching.step] at hap
      split at hap
      · exact hap
      · exact hap
    | leave =>
      simp only [Watching.step] at hkept hsame
      revert hkept hsame
      split
      · exact fun hkept _ => absurd hkept List.not_mem_nil
      · exact fun _ hsame => hsame hrow fun _ hn => hn
      · exact fun _ hsame => hsame hrow fun _ hn => hn
    | create dir name spelt => exact hsame hrow fun _ hn => hn
    | dispatch =>
      simp only [Watching.step] at hsame
      split at hsame
      · exact hsame hrow fun _ hn => hn
      · exact hsame hrow fun _ hn => hn
    | read =>
      obtain ⟨files', hrow'⟩ := h'.info.keyed.exists_row hkept
      obtain ⟨-, old, hold, hsub, -⟩ := h.read_rows hkept hrow'
      obtain rfl := Table.eq_of_mem h.info.keyed.keysNodup hold hrow
      exact hsame hrow' fun n hn => hsub.subset hn

/-! ## Every run -/

/-- **The invariant of the watch table.** In every run, for every list, whatever is watched
has a row with names and one descriptor, and a descriptor is dropped only with the last
name of its directory. If moreover each step fits, it is dropped exactly when that has
appeared. -/
theorem run_table (fs : Fs) (paths : List String) (ms : List WatchMove)
    (hproper : Along step Proper (start fs paths) ms) :
    Always step (fun s => s.info.Consistent) (start fs paths) ms ∧
      Along step DropsAtLast (start fs paths) ms ∧
      (Along step Fits (start fs paths) ms → Along step DropsExactly (start fs paths) ms) := by
  have hstart := start_orderly fs paths
  have horderly : Always step Orderly (start fs paths) ms :=
    Along.always (fun s m hs hp => hs.step hp) hstart hproper
  refine ⟨horderly.imp fun s hs => hs.info.consistent,
    hproper.imp horderly fun s m hs hp => hs.dropsAtLast hp, fun hfits => ?_⟩
  have hboth := hproper.and hfits
  have hexpects : Always step (fun s => s.Orderly ∧ s.Expects) (start fs paths) ms :=
    Along.always (fun s m hs hm => ⟨hs.1.step hm.1, hs.2.step hs.1 hm.1 hm.2⟩) ⟨hstart, nofun⟩ hboth
  exact hboth.imp hexpects fun s m hs hm => hs.2.dropsExactly hs.1 hm.1 hm.2

/-- The descriptors of two directories. -/
def descriptors (dir : List Char) : Option ℕ :=
  if dir = "/a".toList then some 1 else if dir = "/a/b".toList then some 2 else none

theorem proper_descriptors (hw : ∀ e ∈ s.info.wdTable, descriptors e.2 = some e.1)
    (hq : s.queue = []) : s.Proper (.add descriptors) := by
  intro dir wd hwd
  refine ⟨fun d hd => ?_, fun _ e he => ?_⟩
  · have hd := hw _ hd
    grind [descriptors]
  · rw [hq] at he
    cases he

/-- A directory and a file in it come up, one after the other. -/
def twoLevels : List WatchMove :=
  [.add descriptors, .leave, .create "/a".toList ['b'] fun _ => false, .dispatch, .read,
    .add descriptors, .create "/a/b".toList ['x'] fun _ => false, .read, .leave]

theorem run_table_twoLevels :
    let s := start { access := fun p => p = "/a" } ["/a/b/x"]
    Always step (fun s => s.info.Consistent) s twoLevels ∧ Along step DropsAtLast s twoLevels ∧
      Along step DropsExactly s twoLevels := by
  have ha : IsDirname "/a".toList := isDirname_pathGetDirname "/a/b".toList
  have hb : IsDirname "/a/b".toList := isDirname_pathGetDirname "/a/b/x".toList
  have hproper : Along step Proper (start { access := fun p => p = "/a" } ["/a/b/x"]) twoLevels :=
    ⟨proper_descriptors (by decide) rfl, trivial, ⟨rfl, ha, isName_singleton (by simp) (by simp), rfl⟩,
      trivial, trivial, proper_descriptors (by decide) rfl,
      ⟨rfl, hb, isName_singleton (by simp) (by simp), rfl⟩, trivial, trivial, trivial⟩
  obtain ⟨hconsistent, hlast, hexact⟩ := run_table { access := fun p => p = "/a" } ["/a/b/x"]
    twoLevels hproper
  -- when the calls are made nothing is watched, so only the spelling of the paths counts
  have hdue : ∀ {s : Watching} {q}, s.info.wdTable = [] →
      s.access (buildFilename (pathGetDirname q) (pathGetBasename q)) = false → s.Due q := by
    intro s q hnil habsent
    refine ⟨fun wd files hw => ?_, fun _ _ => habsent⟩
    rw [hnil] at hw
    cases hw
  have hcreate : ∀ {s : Watching} {dir name}, s.Fits (.create dir name fun _ => false) :=
    fun _ _ _ _ _ _ _ hspelt => nomatch hspelt
  refine ⟨hconsistent, hlast, hexact ⟨?_, trivial, hcreate, trivial, trivial, ?_, hcreate, trivial,
    trivial, trivial⟩⟩
  · rintro path hpath q hq
    cases hpath
    cases hq with
    | here => exact hdue rfl rfl
    | up _ _ hq =>
      rw [hq.eq rfl]
      exact hdue rfl rfl
  · rintro path hpath q hq
    obtain rfl : "/a/b/x".toList = path := Option.some.inj hpath
    rw [hq.eq rfl]
    exact hdue rfl rfl

/-- **The smallest list with a name that is waited for although it is there**: `/a/y` exists,
`/a/x` is before it on the list and comes up, and `/a` stays watched. -/
theorem existing_keeps_watch :
    let s := start { access := fun p => p = "/a" ∨ p = "/a/y" } ["/a/x", "/a/y"]
    let ms := [.add descriptors, .add descriptors, .leave,
      .create "/a".toList ['x'] fun _ => false, .dispatch, .read]
    Along step Proper s ms ∧ ¬Along step DropsExactly s ms := by
  have ha : IsDirname "/a".toList := isDirname_pathGetDirname "/a/x".toList
  refine ⟨⟨proper_descriptors (by decide) rfl, proper_descriptors (by decide) rfl, trivial,
    ⟨rfl, ha, isName_singleton (by simp) (by simp), rfl⟩, trivial, trivial, trivial⟩, ?_⟩
  intro h
  have hread := h.2.2.2.2.2.1 1 "/a".toList [['x'], ['y']] (by decide) (by decide)
  exact hread.mpr (by decide) (by decide)

end Watching

end Tlm
