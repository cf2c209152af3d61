import Tlm.WatcherTable

/-!
# The first scan

`addWatch_child` says what `_add_watch` does with a path below the root, unless it finds
it ready: it tracks the path, and every directory above it up to the nearest one that
exists, which it watches. `scan_suits` follows the scan through a list it can deal with.
-/

namespace Tlm

variable {fs : Fs} {info : WatchInfo} {p : List Char}

/-- Nothing tracked exists, and descriptors are those of their directories. -/
structure Scanned (fs : Fs) (info : WatchInfo) : Prop where
  shape : info.Shape
  missing : ∀ x ∈ info.tracked, fs.access (String.ofList x) = false
  wds : ∀ e ∈ info.wdTable, fs.inotifyAddWatch (String.ofList e.2) = some e.1

theorem scanned_nil : Scanned fs {} :=
  ⟨WatchInfo.shape_nil, by simp [WatchInfo.tracked, Table.rows], by simp⟩

/-- What a table has come to, once a path that does not exist is waited for. -/
structure Grows (fs : Fs) (p : List Char) (info info' : WatchInfo) : Prop where
  scanned : Scanned fs info'
  count : ∀ x, info'.tracked.count x + info.pends x =
    info.tracked.count x + [p].count x + info'.pends x
  keys : ∀ d ∈ info'.keys, d ∈ info.keys ∨ fs.access (String.ofList d) = false ∨
    Waits (fun p => fs.access (String.ofList p)) p d

/-! ## One path -/

/-- Descriptors are those of their directories. -/
structure Laid (fs : Fs) (info : WatchInfo) : Prop where
  shape : info.Shape
  wds : ∀ e ∈ info.wdTable, fs.inotifyAddWatch (String.ofList e.2) = some e.1

theorem Scanned.laid (h : Scanned fs info) : Laid fs info := ⟨h.shape, h.wds⟩

/-- What a table has come to, once a path is waited for, whether it exists or not. -/
structure Extends (fs : Fs) (p : List Char) (info info' : WatchInfo) : Prop where
  laid : Laid fs info'
  count : ∀ x, info'.tracked.count x + info.pends x =
    info.tracked.count x + [p].count x + info'.pends x
  tracked : ∀ x ∈ info'.tracked, x ∈ info.tracked ∨ x = p ∨ fs.access (String.ofList x) = false
  keys : ∀ d ∈ info'.keys, d ∈ info.keys ∨ fs.access (String.ofList d) = false ∨
    Waits (fun p => fs.access (String.ofList p)) p d
  dirs : ∀ d ∈ info'.dirs, d ∈ info.dirs ∨ fs.access (String.ofList d) = true

section Levels

variable {dir name : List Char}

/-- The directory has a row already. -/
theorem Laid.append (h : Laid fs info) (hn : IsName name) {files : List (List Char)}
    (hf : info.dirTable.lookup dir = some files) :
    Extends fs (buildFilename dir name) info
      { info with dirTable := Table.replace dir (files ++ [name]) info.dirTable } := by
  have hnames : ∀ n ∈ files ++ [name], IsName n := by
    intro n hn'
    rcases List.mem_append.mp hn' with hn' | hn'
    · exact h.shape.names _ (Table.mem_of_lookup hf) n hn'
    · obtain rfl := List.mem_singleton.mp hn'
      exact hn
  have hcount : ∀ x, (WatchInfo.tracked
      { info with dirTable := Table.replace dir (files ++ [name]) info.dirTable }).count x =
      info.tracked.count x + [buildFilename dir name].count x := by
    intro x
    have hc := Table.count_rows_replace (f := buildFilename) h.shape.keysNodup hf (files ++ [name]) x
    simp only [List.map_append, List.map_cons, List.map_nil, List.count_append] at hc
    simp only [WatchInfo.tracked]
    omega
  refine ⟨⟨h.shape.replace hnames, h.wds⟩, ?_, ?_, ?_, fun d hd => Or.inl hd⟩
  · intro x
    rw [hcount, WatchInfo.pends_replace]
  · intro x hx
    have hpos := List.count_pos_iff.mpr hx
    rw [hcount, ← List.count_append] at hpos
    rcases List.mem_append.mp (List.count_pos_iff.mp hpos) with hx | hx
    · exact Or.inl hx
    · exact Or.inr (Or.inl (List.mem_singleton.mp hx))
  · intro d hd
    rw [WatchInfo.keys, Table.keys_replace] at hd
    exact Or.inl hd

/-- The descriptor of a directory without a row is new. -/
theorem Laid.fresh (hw : fs.Works) (h : Laid fs info) (hd : Normal dir)
    (hnew : dir ∉ info.keys) {wd : ℕ} (hwd : fs.inotifyAddWatch (String.ofList dir) = some wd) :
    wd ∉ Table.keys info.wdTable := by
  intro hk
  obtain ⟨d, he⟩ := Table.mem_keys.mp hk
  have hkey := h.shape.watched d (WatchInfo.mem_dirs.mpr ⟨wd, he⟩)
  obtain rfl := hw.distinct dir d wd hd (h.shape.normal d hkey) hwd (h.wds _ he)
  exact hnew hkey

/-- The directory exists: it is watched. -/
theorem Laid.watch (hw : fs.Works) (h : Laid fs info) (hd : Normal dir) (hn : IsName name)
    (hnew : dir ∉ info.keys) (hdir : fs.access (String.ofList dir) = true) {wd : ℕ}
    (hwd : fs.inotifyAddWatch (String.ofList dir) = some wd) :
    Extends fs (buildFilename dir name) info
      ⟨info.dirTable ++ [(dir, [name])], info.wdTable ++ [(wd, dir)]⟩ := by
  have hfresh : wd ∉ Table.keys info.wdTable := h.fresh hw hd hnew hwd
  have htracked : WatchInfo.tracked ⟨info.dirTable ++ [(dir, [name])], info.wdTable ++ [(wd, dir)]⟩ =
      info.tracked ++ [buildFilename dir name] := Table.rows_concat
  refine ⟨⟨h.shape.watch hd (by simpa using hn) hnew hfresh, ?_⟩, ?_, ?_, ?_, ?_⟩
  · intro e he
    rcases List.mem_append.mp he with he | he
    · exact h.wds e he
    · obtain rfl := List.mem_singleton.mp he
      exact hwd
  · intro x
    rw [htracked, List.count_append, WatchInfo.pends_watch hnew]
  · intro x hx
    rw [htracked] at hx
    rcases List.mem_append.mp hx with hx | hx
    · exact Or.inl hx
    · exact Or.inr (Or.inl (List.mem_singleton.mp hx))
  · intro d hk
    rw [WatchInfo.keys, Table.keys_append] at hk
    rcases List.mem_append.mp hk with hk | hk
    · exact Or.inl hk
    · obtain rfl := List.mem_singleton.mp hk
      have hpar := hd.pathGetDirname hn
      refine Or.inr (Or.inr ?_)
      have hhere : Waits (fun p => fs.access (String.ofList p)) (buildFilename d name)
          (pathGetDirname (buildFilename d name)) := .here (by rw [hpar]; exact hdir)
      rwa [hpar] at hhere
  · intro d hk
    rw [WatchInfo.dirs_add] at hk
    rcases List.mem_append.mp hk with hk | hk
    · exact Or.inl hk
    · obtain rfl := List.mem_singleton.mp hk
      exact Or.inr hdir

/-- The directory does not exist: it got a row, and is waited for in its turn. -/
theorem Laid.above {info' : WatchInfo} (h : Laid fs info) (hd : Normal dir) (hn : IsName name)
    (hnew : dir ∉ info.keys) (hdir : fs.access (String.ofList dir) = false)
    (hmiss : fs.access (String.ofList (buildFilename dir name)) = false)
    (hext : Extends fs dir { info with dirTable := info.dirTable ++ [(dir, [name])] } info') :
    Extends fs (buildFilename dir name) info info' := by
  have hpar := hd.pathGetDirname hn
  refine ⟨hext.laid, ?_, ?_, ?_, hext.dirs⟩
  · -- the row that was added is paid for when the directory is tracked itself
    intro x
    have hcount := hext.count x
    rw [WatchInfo.pends_wait h.shape hnew, WatchInfo.tracked, WatchInfo.tracked,
      Table.rows_concat, List.count_append] at hcount
    simp only [WatchInfo.tracked, List.map_cons, List.map_nil] at hcount ⊢
    omega
  · intro x hx
    rcases hext.tracked x hx with hx | rfl | hx
    · rw [WatchInfo.tracked, Table.rows_concat] at hx
      rcases List.mem_append.mp hx with hx | hx
      · exact Or.inl hx
      · exact Or.inr (Or.inl (List.mem_singleton.mp hx))
    · exact Or.inr (Or.inr hdir)
    · exact Or.inr (Or.inr hx)
  · intro d hk
    rcases hext.keys d hk with hk | hk | hk
    · rw [WatchInfo.keys, Table.keys_append] at hk
      rcases List.mem_append.mp hk with hk | hk
      · exact Or.inl hk
      · obtain rfl := List.mem_singleton.mp hk
        exact Or.inr (Or.inl hdir)
    · exact Or.inr (Or.inl hk)
    · refine Or.inr (Or.inr (Waits.above ?_ ?_))
      · rw [hpar]
        exact hdir
      · rwa [hpar]

end Levels

/-- **A path below the root is found ready or it is tracked**, with every directory
above it that does not exist. -/
theorem addWatch_child (hw : fs.Works) {fuel : ℕ} (hp : Normal p) (hne : p ≠ ['/'])
    (hfuel : p.length < fuel) (h : Laid fs info) :
    (fs.access (String.ofList p) = true ∧ addWatch fs fuel p info = (info, .ready)) ∨
      ∃ info', addWatch fs fuel p info = (info', .added) ∧ Extends fs p info info' := by
  induction fuel generalizing p info with
  | zero => omega
  | succ fuel ih =>
    cases hp with
    | root => exact absurd rfl hne
    | @child dir name hd hn =>
      have hpar := hd.pathGetDirname hn
      have hbase := hd.pathGetBasename hn
      rcases hl : info.dirTable.lookup dir with _ | files
      · have hnew : dir ∉ info.keys := Table.lookup_eq_none.mp hl
        rcases hdir : fs.access (String.ofList dir) with _ | _
        · -- neither does the path exist, so the directory is not found ready
          have hmiss : fs.access (String.ofList (buildFilename dir name)) = false := by
            by_contra hacc
            have hpre := hw.parent _ (Bool.not_eq_false _ ▸ hacc)
            rw [hpar, hdir] at hpre
            cases hpre
          have hroot : dir ≠ ['/'] := by
            rintro rfl
            have hroot : fs.access (String.ofList ['/']) = true := hw.root
            rw [hroot] at hdir
            cases hdir
          have hlt := hd.length_lt hn
          have hlaid : Laid fs { info with dirTable := info.dirTable ++ [(dir, [name])] } :=
            ⟨h.shape.wait hd hn hnew hroot, h.wds⟩
          rcases ih hd hroot (by omega) hlaid with ⟨hacc, -⟩ | ⟨info', hadd, hext⟩
          · rw [hdir] at hacc
            cases hacc
          · refine Or.inr ⟨info', ?_, h.above hd hn hnew hdir hmiss hext⟩
            simp only [addWatch, hpar, hbase, hl, hdir]
            exact hadd
        · obtain ⟨wd, hwd⟩ := hw.watch _ hdir
          rcases hacc : fs.access (String.ofList (buildFilename dir name)) with _ | _
          · refine Or.inr ⟨_, ?_, h.watch hw hd hn hnew hdir hwd⟩
            have hothers : info.wdTable.filter (fun e => e.1 ≠ wd) = info.wdTable :=
              Table.remove_of_notMem (h.fresh hw hd hnew hwd)
            simp only [addWatch, hpar, hbase, hl, hdir, hwd, hacc, hothers]
            rfl
          · refine Or.inl ⟨rfl, ?_⟩
            simp only [addWatch, hpar, hl, hdir, hwd, hacc]
            rfl
      · refine Or.inr ⟨_, ?_, h.append hn hl⟩
        simp only [addWatch, hpar, hbase, hl]
        rfl

/-- **A path that does not exist is tracked**, with every directory above it that
does not exist. -/
theorem addWatch_missing (hw : fs.Works) {fuel : ℕ} (hp : Normal p)
    (hmiss : fs.access (String.ofList p) = false) (hfuel : p.length < fuel) (h : Scanned fs info) :
    ∃ info', addWatch fs fuel p info = (info', .added) ∧ Grows fs p info info' := by
  have hne : p ≠ ['/'] := by
    rintro rfl
    exact absurd (hmiss.symm.trans hw.root) (by simp)
  rcases addWatch_child hw hp hne hfuel h.laid with ⟨hacc, -⟩ | ⟨info', hadd, hext⟩
  · rw [hmiss] at hacc
    cases hacc
  · refine ⟨info', hadd, ⟨hext.laid.shape, ?_, hext.laid.wds⟩, hext.count, hext.keys⟩
    intro x hx
    rcases hext.tracked x hx with hx | rfl | hx
    · exact h.missing x hx
    · exact hmiss
    · exact hx

/-- A path that exists is found ready, if its directory has no row. -/
theorem addWatch_ready (hw : fs.Works) (fuel : ℕ) (hp : fs.access (String.ofList p) = true)
    (hnew : pathGetDirname p ∉ info.keys) : addWatch fs (fuel + 1) p info = (info, .ready) := by
  have hdir := hw.parent p hp
  obtain ⟨wd, hwd⟩ := hw.watch _ hdir
  have hl : info.dirTable.lookup (pathGetDirname p) = none := Table.lookup_eq_none.mpr hnew
  simp only [addWatch, hl, hdir, hwd, hp]
  rfl

/-! ## The whole list -/

/-- The directory of what exists exists, for paths in normal form. -/
theorem Fs.Works.closed (hw : fs.Works) {d n : List Char} (hd : Normal d) (hn : IsName n)
    (he : fs.access (String.ofList (buildFilename d n)) = true) :
    fs.access (String.ofList d) = true := by
  have hpar := hw.parent _ he
  rwa [hd.pathGetDirname hn] at hpar

/-- The paths of a list that exist. -/
def Fs.present (fs : Fs) (paths : List (List Char)) : List (List Char) :=
  paths.filter fun p => fs.access (String.ofList p)

/-- The paths of a list that do not. -/
def Fs.absent (fs : Fs) (paths : List (List Char)) : List (List Char) :=
  paths.filter fun p => !fs.access (String.ofList p)

/-- The table once the paths `done` have been scanned: what is tracked is what was
not there, and each directory with a row is waited in for one of them. -/
structure Scanning (fs : Fs) (done : List (List Char)) (info : WatchInfo) : Prop where
  scanned : Scanned fs info
  count : ∀ x, info.tracked.count x = (fs.absent done).count x + info.pends x
  keys : ∀ d ∈ info.keys, fs.access (String.ofList d) = true →
    ∃ q ∈ done, fs.access (String.ofList q) = false ∧
      Waits (fun p => fs.access (String.ofList p)) q d

/-- Nothing that exists comes behind a path that does not and that has to be waited
for in the same directory. -/
def Fs.InOrder (fs : Fs) (listed : List (List Char)) : Prop :=
  listed.Pairwise fun q p =>
    fs.access (String.ofList q) = false → fs.access (String.ofList p) = true →
      ∀ d, Waits (fun p => fs.access (String.ofList p)) q d →
        fs.inotifyAddWatch (String.ofList (pathGetDirname p)) ≠
          fs.inotifyAddWatch (String.ofList d)

variable {done : List (List Char)}

theorem Scanning.ready (h : Scanning fs done info) (hp : fs.access (String.ofList p) = true) :
    Scanning fs (done ++ [p]) info := by
  refine ⟨h.scanned, ?_, ?_⟩
  · intro x
    rw [h.count x]
    simp [Fs.absent, hp]
  · intro d hk hd
    obtain ⟨q, hq, hrest⟩ := h.keys d hk hd
    exact ⟨q, List.mem_append_left _ hq, hrest⟩

theorem Scanning.added (h : Scanning fs done info) (hp : fs.access (String.ofList p) = false)
    {info' : WatchInfo} (hg : Grows fs p info info') : Scanning fs (done ++ [p]) info' := by
  refine ⟨hg.scanned, ?_, ?_⟩
  · intro x
    have hcount := h.count x
    have hgrow := hg.count x
    have habs : fs.absent (done ++ [p]) = fs.absent done ++ [p] := by
      simp [Fs.absent, hp]
    rw [habs, List.count_append]
    omega
  · intro d hk hd
    rcases hg.keys d hk with hk | hk | hk
    · obtain ⟨q, hq, hrest⟩ := h.keys d hk hd
      exact ⟨q, List.mem_append_left _ hq, hrest⟩
    · rw [hd] at hk
      cases hk
    · exact ⟨p, by simp, hp, hk⟩

/-- The directory of a path that exists has no row when its turn comes. -/
theorem Scanning.dirname_notMem (hw : fs.Works) {rest : List (List Char)}
    (ho : fs.InOrder (done ++ p :: rest)) (h : Scanning fs done info)
    (hp : fs.access (String.ofList p) = true) : pathGetDirname p ∉ info.keys := by
  intro hk
  obtain ⟨q, hq, hmiss, hwaits⟩ := h.keys _ hk (hw.parent p hp)
  obtain ⟨-, -, horder⟩ := List.pairwise_append.mp ho
  exact horder q hq p List.mem_cons_self hmiss hp _ hwaits rfl

/-- **The scan reports what exists and tracks the rest.** -/
theorem scan_suits (hw : fs.Works) {paths : List String}
    (hn : ∀ p ∈ expanded fs paths, fs.access (String.ofList p) = false → Normal p)
    (ho : fs.InOrder (done ++ expanded fs paths)) (h : Scanning fs done info) (nwatch : ℕ) :
    (scan fs (paths.map some) nwatch info).1.map Notice.item = fs.present (expanded fs paths) ∧
      (scan fs (paths.map some) nwatch info).2.1 =
        nwatch + (fs.absent (expanded fs paths)).length ∧
      Scanning fs (done ++ expanded fs paths) (scan fs (paths.map some) nwatch info).2.2 := by
  induction paths generalizing done info nwatch with
  | nil => exact ⟨rfl, rfl, by simpa [expanded, scan] using h⟩
  | cons path rest ih =>
    have hcons : expanded fs (path :: rest) =
        expandFilePath fs path.toList :: expanded fs rest := rfl
    have happ : done ++ expanded fs (path :: rest) =
        (done ++ [expandFilePath fs path.toList]) ++ expanded fs rest := by
      rw [hcons]
      simp
    have hrest : ∀ p ∈ expanded fs rest, fs.access (String.ofList p) = false → Normal p :=
      fun p hp => hn p (hcons ▸ List.mem_cons_of_mem _ hp)
    rcases hp : fs.access (String.ofList (expandFilePath fs path.toList)) with _ | _
    · have hnormal := hn (expandFilePath fs path.toList) (by simp [hcons]) hp
      obtain ⟨info', hadd, hgrows⟩ : ∃ info', addWatch fs
          ((expandFilePath fs path.toList).length + 2) (expandFilePath fs path.toList) info =
            (info', .added) ∧ Grows fs (expandFilePath fs path.toList) info info' :=
        addWatch_missing hw hnormal hp (by omega) h.scanned
      obtain ⟨hitems, hcount, hend⟩ := ih hrest (happ ▸ ho) (h.added hp hgrows) (nwatch + 1)
      simp only [List.map_cons, scan, hadd]
      refine ⟨?_, ?_, happ ▸ hend⟩
      · rw [hitems, hcons]
        simp [Fs.present, hp]
      · rw [hcount, hcons]
        simp [Fs.absent, hp, Nat.add_assoc, Nat.add_comm]
    · have hready := addWatch_ready hw ((expandFilePath fs path.toList).length + 1) hp
        (h.dirname_notMem hw (hcons ▸ ho) hp)
      obtain ⟨hitems, hcount, hend⟩ := ih hrest (happ ▸ ho) (h.ready hp) nwatch
      simp only [List.map_cons, scan, hready]
      refine ⟨?_, ?_, happ ▸ hend⟩
      · rw [hitems, hcons]
        simp [Fs.present, hp]
      · rw [hcount, hcons]
        simp [Fs.absent, hp]

end Tlm
