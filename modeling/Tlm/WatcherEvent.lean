import Tlm.WatcherScan

/-!
# An event of the watcher

The invariant between two events says where every listed path is: reported, or
tracked. A tracked path is below a watched directory, with the chain of directories
between them tracked as well, so its coming up cannot go unnoticed
(`WatchInfo.Tracks.anchored`); and whatever of a watched directory's row has come up
has its event still in the queue. While an event is handled the account is short of a
**debt**: the struck name, then the names waited for in the directory it stood for.
-/

namespace Tlm

/-- Whether a path is still waited for. -/
def awaits (listed items : List (List Char)) (p : List Char) : ℕ :=
  if p ∈ listed ∧ p ∉ items then 1 else 0

section Awaits

variable {listed items new : List (List Char)} {p : List Char}

theorem awaits_le_one : awaits listed items p ≤ 1 := by
  simp only [awaits]
  split <;> omega

theorem awaits_pos (h : 0 < awaits listed items p) : p ∈ listed ∧ p ∉ items := by
  by_contra hn
  rw [awaits, if_neg hn] at h
  omega

theorem awaits_eq_zero (h : p ∉ listed) : awaits listed items p = 0 := if_neg fun hp => h hp.1

/-- What is reported is not waited for any more. -/
theorem awaits_append (hnd : new.Nodup) (hnew : ∀ p ∈ new, p ∈ listed ∧ p ∉ items) (x : List Char) :
    awaits listed items x = awaits listed (items ++ new) x + new.count x := by
  by_cases hx : x ∈ new
  · obtain ⟨hl, hi⟩ := hnew x hx
    rw [List.count_eq_one_of_mem hnd hx]
    simp [awaits, hl, hi, hx]
  · rw [List.count_eq_zero_of_not_mem hx]
    simp [awaits, hx]

end Awaits

/-! ## A directory comes up -/

section AddPending

variable {fs : Fs} {dir : List Char} {wd : ℕ}

/-- Once the directory has a row again, every further name is appended to it. -/
theorem addPending_behind (hd : Normal dir) {names : List (List Char)} (hn : ∀ n ∈ names, IsName n)
    {t : List (List Char × List (List Char))} (ht : dir ∉ Table.keys t) (ns : List (List Char))
    (wds : List (ℕ × List Char)) (nwatch : ℕ) :
    addPending fs dir names ⟨t ++ [(dir, ns)], wds⟩ nwatch =
      (⟨t ++ [(dir, ns ++ names)], wds⟩, nwatch + names.length, []) := by
  induction names generalizing ns nwatch with
  | nil => simp [addPending]
  | cons name rest ih =>
    obtain ⟨hname, hrest⟩ := List.forall_mem_cons.mp hn
    have hl : (t ++ [(dir, ns)]).lookup dir = some ns := by
      rw [List.lookup_append, Table.lookup_eq_none.mpr ht]
      simp
    have hadd : addWatch fs ((buildFilename dir name).length + 2) (buildFilename dir name)
        ⟨t ++ [(dir, ns)], wds⟩ = (⟨t ++ [(dir, ns ++ [name])], wds⟩, .added) := by
      simp only [addWatch, hd.pathGetDirname hname, hd.pathGetBasename hname, hl]
      have hsplit : Table.replace dir (ns ++ [name]) (t ++ [(dir, ns)]) =
          t ++ [(dir, ns ++ [name])] := Table.replace_split ht (by simp [Table.keys])
      rw [← hsplit]
      rfl
    simp only [addPending, hadd, ih hrest]
    have hlen : nwatch + 1 + rest.length = nwatch + (name :: rest).length := by
      rw [List.length_cons]
      omega
    simp [hlen]

/-- The names waited for in a directory that has come up: up to the first that does not
exist they are reported, and from there on they are watched for. -/
theorem addPending_span (hd : Normal dir) (hdir : fs.access (String.ofList dir) = true)
    (hwd : fs.inotifyAddWatch (String.ofList dir) = some wd) {names : List (List Char)}
    (hn : ∀ n ∈ names, IsName n) {info : WatchInfo} (hnew : dir ∉ info.keys)
    (hfresh : wd ∉ Table.keys info.wdTable) (nwatch : ℕ) :
    let here := names.takeWhile fun n => fs.access (String.ofList (buildFilename dir n))
    let gone := names.dropWhile fun n => fs.access (String.ofList (buildFilename dir n))
    (addPending fs dir names info nwatch).1 =
        (if gone = [] then info
          else ⟨info.dirTable ++ [(dir, gone)], info.wdTable ++ [(wd, dir)]⟩) ∧
      (addPending fs dir names info nwatch).2.1 = nwatch + gone.length ∧
      (addPending fs dir names info nwatch).2.2 =
        here.map fun n => ⟨buildFilename dir n, nwatch == 0⟩ := by
  have hl : info.dirTable.lookup dir = none := Table.lookup_eq_none.mpr hnew
  have hothers : info.wdTable.filter (fun e => e.1 ≠ wd) = info.wdTable :=
    Table.remove_of_notMem hfresh
  induction names with
  | nil => exact ⟨rfl, rfl, rfl⟩
  | cons name rest ih =>
    obtain ⟨hname, hrest⟩ := List.forall_mem_cons.mp hn
    rcases hp : fs.access (String.ofList (buildFilename dir name)) with _ | _
    · -- the first name that does not exist takes the others with it
      have hadd : addWatch fs ((buildFilename dir name).length + 2) (buildFilename dir name) info =
          (⟨info.dirTable ++ [(dir, [name])], info.wdTable ++ [(wd, dir)]⟩, .added) := by
        simp only [addWatch, hd.pathGetDirname hname, hd.pathGetBasename hname, hl, hdir, hwd, hp,
          hothers]
        rfl
      have hlen : nwatch + 1 + rest.length = nwatch + (name :: rest).length := by
        rw [List.length_cons]
        omega
      simp only [addPending, hadd, addPending_behind hd hrest hnew]
      simp [hp, hlen]
    · have hadd : addWatch fs ((buildFilename dir name).length + 2) (buildFilename dir name) info =
          (info, .ready) := by
        simp only [addWatch, hd.pathGetDirname hname, hd.pathGetBasename hname, hl, hdir, hwd, hp]
        rfl
      obtain ⟨h₁, h₂, h₃⟩ := ih hrest
      simp only [addPending, hadd]
      refine ⟨?_, ?_, ?_⟩
      · rw [h₁]
        simp [hp]
      · rw [h₂]
        simp [hp]
      · rw [h₃]
        simp [hp]

/-- A test that what stands behind passes only if what stands in front does cuts a list
in two. -/
theorem span_of_pairwise {test : List Char → Bool} {names : List (List Char)}
    (h : names.Pairwise fun n m => test m = true → test n = true) :
    names.takeWhile test = names.filter test ∧
      names.dropWhile test = names.filter fun n => !test n := by
  induction names with
  | nil => exact ⟨rfl, rfl⟩
  | cons name rest ih =>
    obtain ⟨hhead, htail⟩ := List.pairwise_cons.mp h
    obtain ⟨htake, hdrop⟩ := ih htail
    rcases hp : test name with _ | _
    · have hgone : ∀ m ∈ rest, test m = false := by
        intro m hm
        rcases htest : test m with _ | _
        · rfl
        · rw [hhead m hm htest] at hp
          cases hp
      have hnone : rest.filter test = [] :=
        List.filter_eq_nil_iff.mpr fun m hm => by simp [hgone m hm]
      have hall : rest.filter (fun n => !test n) = rest :=
        List.filter_eq_self.mpr fun m hm => by simp [hgone m hm]
      simp [hp, hnone, hall]
    · simp [hp, htake, hdrop]

/-- If those that exist stand in front, they are what is reported. -/
theorem addPending_eq (hd : Normal dir) (hdir : fs.access (String.ofList dir) = true)
    (hwd : fs.inotifyAddWatch (String.ofList dir) = some wd) {names : List (List Char)}
    (hn : ∀ n ∈ names, IsName n)
    (hord : names.Pairwise fun n m => fs.access (String.ofList (buildFilename dir m)) = true →
      fs.access (String.ofList (buildFilename dir n)) = true)
    {info : WatchInfo} (hnew : dir ∉ info.keys) (hfresh : wd ∉ Table.keys info.wdTable)
    (nwatch : ℕ) :
    let here := names.filter fun n => fs.access (String.ofList (buildFilename dir n))
    let gone := names.filter fun n => !fs.access (String.ofList (buildFilename dir n))
    (addPending fs dir names info nwatch).1 =
        (if gone = [] then info
          else ⟨info.dirTable ++ [(dir, gone)], info.wdTable ++ [(wd, dir)]⟩) ∧
      (addPending fs dir names info nwatch).2.1 = nwatch + gone.length ∧
      (addPending fs dir names info nwatch).2.2 =
        here.map fun n => ⟨buildFilename dir n, nwatch == 0⟩ := by
  obtain ⟨htake, hdrop⟩ := span_of_pairwise hord
  have hspan := addPending_span hd hdir hwd hn hnew hfresh nwatch
  rwa [htake, hdrop] at hspan

end AddPending

/-! ## The invariant -/

namespace WatchInfo

variable {listed items debt : List (List Char)} {access : List Char → Bool}
  {queue : List (ℕ × List Char)} {info : WatchInfo}

/-- The table, the queue and the reports agree. But for a `debt` that is being worked
off, what is tracked is what is waited for and the directories with a row; whatever
has come up in a watched directory has its event in the queue; and the event of a
watch tells of something that is there. -/
structure Tracks (listed items debt : List (List Char)) (access : List Char → Bool)
    (queue : List (ℕ × List Char)) (info : WatchInfo) : Prop where
  shape : info.Shape
  count : ∀ x, info.tracked.count x + debt.count x = awaits listed items x + info.pends x
  caught : ∀ wd d ns n, (wd, d) ∈ info.wdTable → (d, ns) ∈ info.dirTable → n ∈ ns →
    access (buildFilename d n) = true → (wd, n) ∈ queue
  real : ∀ wd n d, (wd, n) ∈ queue → (wd, d) ∈ info.wdTable → access (buildFilename d n) = true

/-- **A tracked path hangs on a watch**: a watched directory waits for it or for a
directory above it. -/
theorem Tracks.anchored (h : Tracks listed items [] access queue info)
    (hclosed : ∀ d n, Normal d → IsName n → access (buildFilename d n) = true → access d = true)
    {p : List Char} (hp : p ∈ info.tracked) :
    ∃ wd d ns n, (wd, d) ∈ info.wdTable ∧ (d, ns) ∈ info.dirTable ∧ n ∈ ns ∧
      (access p = true → access (buildFilename d n) = true) := by
  -- upwards, by the length of the path
  induction hlen : p.length using Nat.strongRecOn generalizing p with
  | ind len ih =>
    obtain ⟨d, ns, hrow, n, hn, rfl⟩ := mem_tracked.mp hp
    have hkey : d ∈ info.keys := Table.mem_keys_of_mem hrow
    have hd := h.shape.normal d hkey
    have hname := h.shape.names _ hrow n hn
    by_cases hw : d ∈ info.dirs
    · obtain ⟨wd, hwd⟩ := mem_dirs.mp hw
      exact ⟨wd, d, ns, n, hwd, hrow, hn, id⟩
    · have htracked : d ∈ info.tracked := by
        apply List.count_pos_iff.mp
        have hcount := h.count d
        rw [pends_eq_one hkey hw, List.count_nil] at hcount
        omega
      obtain ⟨wd, d', ns', n', hwd, hrow', hn', hacc⟩ :=
        ih d.length (hlen ▸ hd.length_lt hname) htracked rfl
      exact ⟨wd, d', ns', n', hwd, hrow', hn', fun hp => hacc (hclosed d n hd hname hp)⟩

/-- A path that is waited for is tracked. -/
theorem Tracks.mem_tracked (h : Tracks listed items [] access queue info) {p : List Char}
    (hl : p ∈ listed) (hi : p ∉ items) : p ∈ info.tracked := by
  apply List.count_pos_iff.mp
  have hcount := h.count p
  rw [awaits, if_pos ⟨hl, hi⟩, List.count_nil] at hcount
  omega

/-! ## An event is read -/

section Event

variable {wd : ℕ} {dir name : List Char} {files : List (List Char)}

/-- The rows that are left are what they were, but for the struck name. -/
theorem row_of_strike {d : List Char} {ns : List (List Char)}
    (h : (d, ns) ∈ (strike wd dir name files info).dirTable) :
    (d = dir ∧ ns = files.erase name) ∨ (d ≠ dir ∧ (d, ns) ∈ info.dirTable) := by
  simp only [strike] at h
  split at h
  · obtain ⟨h, hne⟩ := Table.mem_remove.mp h
    exact Or.inr ⟨hne, h⟩
  · rcases Table.mem_replace h with h | ⟨h, hne⟩
    · cases h
      exact Or.inl ⟨rfl, rfl⟩
    · exact Or.inr ⟨hne, h⟩

theorem watch_of_strike {e : ℕ × List Char} (h : e ∈ (strike wd dir name files info).wdTable) :
    e ∈ info.wdTable := by
  simp only [strike] at h
  split at h
  · exact (Table.mem_remove.mp h).1
  · exact h

/-- The last name of a row is the only one. -/
theorem eq_singleton_of_erase (hn : name ∈ files) (h : files.erase name = []) : files = [name] := by
  rcases List.erase_eq_nil_iff.mp h with rfl | rfl
  · exact absurd hn List.not_mem_nil
  · rfl

/-- Striking the last name of a row gives up its watch. -/
theorem length_strike (hw : (wd, dir) ∈ info.wdTable) {nwatch : ℕ}
    (hlen : info.wdTable.length ≤ nwatch) :
    (strike wd dir name files info).wdTable.length ≤
      if files.erase name = [] then nwatch - 1 else nwatch := by
  simp only [strike]
  split
  · have hlt : (Table.remove wd info.wdTable).length < info.wdTable.length :=
      List.length_filter_lt_length_iff_exists.mpr ⟨_, hw, by simp⟩
    exact Nat.le_sub_one_of_lt (hlt.trans_le hlen)
  · exact hlen

/-- A path other than the directory itself keeps its row. -/
theorem keys_of_strike {p : List Char} (hp : p ≠ dir) :
    p ∈ (strike wd dir name files info).keys ↔ p ∈ info.keys := by
  simp only [strike]
  split
  · simp [keys, Table.keys_remove, hp]
  · simp only [keys, Table.keys_replace]

/-- A path that is tracked once is not in the row any more, so what is left of the
queue still tells of everything that came up. -/
theorem Tracks.struck (h : Tracks listed items [] access ((wd, name) :: queue) info)
    (hw : (wd, dir) ∈ info.wdTable) (hf : info.dirTable.lookup dir = some files) (hn : name ∈ files)
    (hone : info.tracked.count (buildFilename dir name) ≤ 1) :
    Tracks listed items [buildFilename dir name] access queue (strike wd dir name files info) := by
  have hrow := Table.mem_of_lookup hf
  have hstruck : name ∉ files.erase name := by
    have hle : files.count name ≤ 1 :=
      calc files.count name
        _ ≤ (files.map (buildFilename dir)).count (buildFilename dir name) := List.count_le_count_map
        _ ≤ info.tracked.count (buildFilename dir name) := Table.count_row_le hrow _
        _ ≤ 1 := hone
    apply List.count_eq_zero.mp
    rw [List.count_erase_self]
    omega
  obtain ⟨hshape, htracked, hpends⟩ := h.shape.strike hw hf hn
  refine ⟨hshape, ?_, ?_, ?_⟩
  · intro x
    have hcount := h.count x
    rw [htracked x, List.count_nil] at hcount
    rw [hpends x]
    omega
  · intro w d ns n hwd hr hns hacc
    replace hwd := watch_of_strike hwd
    rcases row_of_strike hr with ⟨rfl, rfl⟩ | ⟨hne, hr⟩
    · rcases List.mem_cons.mp (h.caught w d files n hwd hrow (List.mem_of_mem_erase hns) hacc) with he | he
      · cases he
        exact absurd hns hstruck
      · exact he
    · rcases List.mem_cons.mp (h.caught w d ns n hwd hr hns hacc) with he | he
      · cases he
        exact absurd (Table.eq_of_mem h.shape.wdsNodup hwd hw) hne
      · exact he
  · exact fun w n d hq hwd => h.real w n d (List.mem_cons_of_mem _ hq) (watch_of_strike hwd)

/-- A debt that has no row is waited for, and once. -/
theorem Tracks.awaited {new : List (List Char)}
    (h : Tracks listed items (new ++ debt) access queue info) (hkeys : ∀ p ∈ new, p ∉ info.keys) :
    new.Nodup ∧ ∀ p ∈ new, p ∈ listed ∧ p ∉ items := by
  have hle : ∀ p ∈ new, new.count p ≤ awaits listed items p := by
    intro p hp
    have hcount := h.count p
    rw [pends_eq_zero fun hk => absurd hk (hkeys p hp), List.count_append] at hcount
    omega
  constructor
  · rw [List.nodup_iff_count_le_one]
    intro p
    by_cases hp : p ∈ new
    · exact (hle p hp).trans awaits_le_one
    · rw [List.count_eq_zero_of_not_mem hp]
      omega
  · intro p hp
    exact awaits_pos (lt_of_lt_of_le (List.count_pos_iff.mpr hp) (hle p hp))

theorem Tracks.perm {debt' : List (List Char)} (h : Tracks listed items debt access queue info)
    (hp : debt'.Perm debt) : Tracks listed items debt' access queue info := by
  refine ⟨h.shape, fun x => ?_, h.caught, h.real⟩
  rw [hp.count_eq]
  exact h.count x

/-- A debt is paid by reporting it. -/
theorem Tracks.pay {new : List (List Char)} (h : Tracks listed items (new ++ debt) access queue info)
    (hnd : new.Nodup) (hnew : ∀ p ∈ new, p ∈ listed ∧ p ∉ items) :
    Tracks listed (items ++ new) debt access queue info := by
  refine ⟨h.shape, ?_, h.caught, h.real⟩
  intro x
  have hcount := h.count x
  have hpaid := awaits_append hnd hnew x
  rw [List.count_append] at hcount
  omega

/-- The debt of a directory is taken over by the names it is waited for in. -/
theorem Tracks.steal {p : List Char} (h : Tracks listed items [p] access queue info)
    {pending : List (List Char)} (hp : info.dirTable.lookup p = some pending) (hu : p ∉ info.dirs) :
    Tracks listed items (pending.map (buildFilename p)) access queue
      { info with dirTable := Table.remove p info.dirTable } := by
  have hrow := Table.mem_of_lookup hp
  refine ⟨h.shape.steal hu, ?_, ?_, h.real⟩
  · intro x
    have hcount := h.count x
    have hrows := Table.count_rows_remove (f := buildFilename) h.shape.keysNodup hp x
    rw [pends_steal (Table.mem_keys_of_mem hrow) hu x] at hcount
    simp only [tracked] at hcount ⊢
    omega
  · intro w d ns n hwd hr
    exact h.caught w d ns n hwd (Table.mem_remove.mp hr).1

/-- Names that do not exist are paid for by watching their directory. -/
theorem Tracks.watch {gone : List (List Char)}
    (h : Tracks listed items (gone.map (buildFilename dir)) access queue info) (hd : Normal dir)
    (hn : ∀ n ∈ gone, IsName n) (hnew : dir ∉ info.keys) (hwd : wd ∉ Table.keys info.wdTable)
    (hq : ∀ e ∈ queue, e.1 ≠ wd) (hgone : ∀ n ∈ gone, access (buildFilename dir n) = false) :
    Tracks listed items [] access queue
      ⟨info.dirTable ++ [(dir, gone)], info.wdTable ++ [(wd, dir)]⟩ := by
  refine ⟨h.shape.watch hd hn hnew hwd, ?_, ?_, ?_⟩
  · intro x
    have hcount := h.count x
    rw [tracked, Table.rows_concat, List.count_append, pends_watch hnew, List.count_nil]
    exact hcount
  · intro w d ns n hw hr hns hacc
    rcases List.mem_append.mp hr with hr | hr
    · rcases List.mem_append.mp hw with hw | hw
      · exact h.caught w d ns n hw hr hns hacc
      · cases List.mem_singleton.mp hw
        exact absurd (Table.mem_keys_of_mem hr) hnew
    · cases List.mem_singleton.mp hr
      rw [hgone n hns] at hacc
      cases hacc
  · intro w n d hmem hw
    rcases List.mem_append.mp hw with hw | hw
    · exact h.real w n d hmem hw
    · cases List.mem_singleton.mp hw
      exact absurd rfl (hq _ hmem)

/-- An event nobody waits for is read over. -/
theorem Tracks.skip (h : Tracks listed items [] access ((wd, name) :: queue) info)
    (hskip : ∀ d ns, (wd, d) ∈ info.wdTable → (d, ns) ∈ info.dirTable → name ∉ ns) :
    Tracks listed items [] access queue info := by
  refine ⟨h.shape, h.count, ?_, fun w n d hq => h.real w n d (List.mem_cons_of_mem _ hq)⟩
  intro w d ns n hw hr hn hacc
  rcases List.mem_cons.mp (h.caught w d ns n hw hr hn hacc) with he | he
  · cases he
    exact absurd hn (hskip d ns hw hr)
  · exact he

/-- What one event may do: report paths that are waited for and exist. -/
structure Handled (listed items : List (List Char)) (access : List Char → Bool)
    (queue : List (ℕ × List Char)) (r : WatchInfo × ℕ × List Notice) : Prop where
  tracks : Tracks listed (items ++ r.2.2.map Notice.item) [] access queue r.1
  nwatch : r.1.wdTable.length ≤ r.2.1
  once : (r.2.2.map Notice.item).Nodup
  awaited : ∀ p ∈ r.2.2.map Notice.item, p ∈ listed ∧ p ∉ items
  exist : ∀ p ∈ r.2.2.map Notice.item, access p = true

theorem Tracks.handled {nwatch : ℕ} (h : Tracks listed items [] access queue info)
    (hlen : info.wdTable.length ≤ nwatch) :
    Handled listed items access queue (info, nwatch, []) :=
  ⟨by simpa using h, hlen, List.nodup_nil, by simp, by simp⟩

/-- **A path comes up that nothing is waited for in**: it is listed, and reported. -/
theorem Tracks.report {nwatch : ℕ} {final : Bool}
    (h : Tracks listed items [] access ((wd, name) :: queue) info)
    (hlen : (strike wd dir name files info).wdTable.length ≤ nwatch)
    (hw : (wd, dir) ∈ info.wdTable) (hf : info.dirTable.lookup dir = some files) (hn : name ∈ files)
    (hkey : buildFilename dir name ∉ info.keys) :
    Handled listed items access queue
      (strike wd dir name files info, nwatch, [⟨buildFilename dir name, final⟩]) := by
  have hcount := h.count (buildFilename dir name)
  rw [pends_eq_zero fun hk => absurd hk hkey, List.count_nil] at hcount
  have hpos := List.count_pos_iff.mpr
    (WatchInfo.mem_tracked.mpr ⟨dir, files, Table.mem_of_lookup hf, name, hn, rfl⟩)
  have hle : awaits listed items (buildFilename dir name) ≤ 1 := awaits_le_one
  have hawaits : buildFilename dir name ∈ listed ∧ buildFilename dir name ∉ items :=
    awaits_pos (by omega)
  have hstruck := h.struck hw hf hn (by omega)
  refine ⟨?_, hlen, List.nodup_singleton _, by simpa using hawaits, ?_⟩
  · have howed : Tracks listed items ([buildFilename dir name] ++ []) access queue
        (strike wd dir name files info) := hstruck
    exact howed.pay (List.nodup_singleton _) (by simpa using hawaits)
  · simpa using h.real wd name dir List.mem_cons_self hw

/-- The names waited for in a directory that has come up are a debt that the loop over
them settles: what exists is reported, the rest is watched for. -/
theorem Tracks.settle {fs : Fs} {names : List (List Char)} {nwatch : ℕ}
    (hacc : ∀ p, fs.access (String.ofList p) = access p) (hwatch : ∀ d, fs.inotifyAddWatch d = some wd)
    (h : Tracks listed items (names.map (buildFilename dir)) access queue info)
    (hlen : info.wdTable.length ≤ nwatch) (hd : Normal dir) (hdir : access dir = true)
    (hn : ∀ n ∈ names, IsName n) (hnew : dir ∉ info.keys) (hfresh : wd ∉ Table.keys info.wdTable)
    (hq : ∀ e ∈ queue, e.1 ≠ wd)
    (hkeys : ∀ n ∈ names, access (buildFilename dir n) = true → buildFilename dir n ∉ info.keys)
    (hord : names.Pairwise fun n m =>
      access (buildFilename dir m) = true → access (buildFilename dir n) = true) :
    Handled listed items access queue (addPending fs dir names info nwatch) := by
  obtain ⟨hinfo, hnwatch, hnotices⟩ := addPending_eq hd (by rw [hacc]; exact hdir)
    (hwatch _) hn (by simpa only [hacc] using hord) hnew hfresh nwatch
  simp only [hacc] at hinfo hnwatch hnotices
  have hitems : (addPending fs dir names info nwatch).2.2.map Notice.item =
      (names.filter fun n => access (buildFilename dir n)).map (buildFilename dir) := by
    rw [hnotices, List.map_map]
    rfl
  have hsplit : ((names.filter fun n => access (buildFilename dir n)).map (buildFilename dir) ++
      (names.filter fun n => !access (buildFilename dir n)).map (buildFilename dir)).Perm
      (names.map (buildFilename dir)) := by
    rw [← List.map_append]
    exact (List.filter_append_perm _ _).map _
  have howed := h.perm hsplit
  generalize hhere : (names.filter fun n => access (buildFilename dir n)).map (buildFilename dir) =
    here at howed hitems
  generalize hgone : (names.filter fun n => !access (buildFilename dir n)) =
    gone at howed hinfo hnwatch
  have hmem : ∀ p ∈ here, access p = true ∧ p ∉ info.keys := by
    intro p hp
    rw [← hhere] at hp
    obtain ⟨n, hn, rfl⟩ := List.mem_map.mp hp
    obtain ⟨hn, hexists⟩ := List.mem_filter.mp hn
    exact ⟨hexists, hkeys n hn hexists⟩
  obtain ⟨hnodup, hawaits⟩ := howed.awaited fun p hp => (hmem p hp).2
  have hpaid := howed.pay hnodup hawaits
  refine ⟨?_, ?_, ?_, ?_, ?_⟩
  · rw [hitems, hinfo]
    split
    · rename_i hnil
      rw [hnil] at hpaid
      exact hpaid
    · refine hpaid.watch hd ?_ hnew hfresh hq ?_
      · intro n hmem
        rw [← hgone] at hmem
        exact hn n (List.mem_filter.mp hmem).1
      · intro n hmem
        rw [← hgone] at hmem
        simpa using (List.mem_filter.mp hmem).2
  · rw [hinfo, hnwatch]
    split
    · omega
    · rename_i hne
      have hpos := List.length_pos_iff.mpr hne
      simp only [List.length_append, List.length_cons, List.length_nil]
      omega
  · rw [hitems]
    exact hnodup
  · rw [hitems]
    exact hawaits
  · rw [hitems]
    exact fun p hp => (hmem p hp).1

/-- **A directory comes up that something is waited for in.** -/
theorem Tracks.rescan {fs : Fs} {wd' nwatch : ℕ} {pending : List (List Char)}
    (hacc : ∀ p, fs.access (String.ofList p) = access p)
    (hwatch : ∀ d, fs.inotifyAddWatch d = some wd')
    (h : Tracks listed items [] access ((wd, name) :: queue) info)
    (hlen : (strike wd dir name files info).wdTable.length ≤ nwatch)
    (hw : (wd, dir) ∈ info.wdTable) (hf : info.dirTable.lookup dir = some files) (hn : name ∈ files)
    (hfresh : wd' ∉ Table.keys info.wdTable) (hq : ∀ e ∈ queue, e.1 ≠ wd')
    (hp : (strike wd dir name files info).dirTable.lookup (buildFilename dir name) = some pending)
    (hrow : (buildFilename dir name, pending) ∈ info.dirTable)
    (hlisted : buildFilename dir name ∉ listed)
    (hkeys : ∀ n ∈ pending, access (buildFilename (buildFilename dir name) n) = true →
      buildFilename (buildFilename dir name) n ∉ info.keys)
    (hord : pending.Pairwise fun n m =>
      access (buildFilename (buildFilename dir name) m) = true →
        access (buildFilename (buildFilename dir name) n) = true) :
    Handled listed items access queue
      (addPending fs (buildFilename dir name) pending
        { strike wd dir name files info with
          dirTable := Table.remove (buildFilename dir name) (strike wd dir name files info).dirTable }
        nwatch) := by
  have hd := h.shape.normal dir (Table.mem_keys_of_mem (Table.mem_of_lookup hf))
  have hname := h.shape.names _ (Table.mem_of_lookup hf) name hn
  have hcount := h.count (buildFilename dir name)
  rw [awaits_eq_zero hlisted, List.count_nil] at hcount
  have hpos := List.count_pos_iff.mpr
    (WatchInfo.mem_tracked.mpr ⟨dir, files, Table.mem_of_lookup hf, name, hn, rfl⟩)
  -- it is tracked as a directory that is not watched yet
  have hu : buildFilename dir name ∉ info.dirs := by
    intro hu
    rw [pends_eq_zero fun _ => hu] at hcount
    omega
  have hpends : info.pends (buildFilename dir name) = 1 := pends_eq_one (Table.mem_keys_of_mem hrow) hu
  have hstruck := h.struck hw hf hn (by omega)
  have hu' : buildFilename dir name ∉ (strike wd dir name files info).dirs := by
    intro hmem
    obtain ⟨w, hw⟩ := mem_dirs.mp hmem
    exact hu (mem_dirs.mpr ⟨w, watch_of_strike hw⟩)
  have hsub : ∀ d, d ∈ keys { strike wd dir name files info with
      dirTable := Table.remove (buildFilename dir name) (strike wd dir name files info).dirTable } →
      d ≠ buildFilename dir name ∧ d ∈ info.keys := by
    intro d hk
    obtain ⟨hk, hne⟩ := mem_keys_drop.mp hk
    obtain ⟨ns, hr⟩ := Table.mem_keys.mp hk
    refine ⟨hne, ?_⟩
    rcases row_of_strike hr with ⟨rfl, -⟩ | ⟨-, hr⟩
    · exact Table.mem_keys_of_mem (Table.mem_of_lookup hf)
    · exact Table.mem_keys_of_mem hr
  refine Tracks.settle hacc hwatch (hstruck.steal hp hu') hlen (hd.child hname)
    (h.real wd name dir List.mem_cons_self hw) (h.shape.names _ hrow) (fun hk => (hsub _ hk).1 rfl)
    ?_ hq (fun n hn he hk => hkeys n hn he (hsub _ hk).2) hord
  intro hk
  obtain ⟨d, hr⟩ := Table.mem_keys.mp hk
  exact hfresh (Table.mem_keys_of_mem (watch_of_strike hr))

end Event

/-- Everything the callback can do with an event: nothing, if nobody waits for it; report
the path that has come up; or go through the names waited for in the directory that
has. -/
theorem watcherEvent_cases (hs : info.Shape) (fs : Fs) (nwatch wd : ℕ) (name : List Char) :
    (watcherEvent fs info nwatch wd name = (info, nwatch, []) ∧
      ∀ d ns, (wd, d) ∈ info.wdTable → (d, ns) ∈ info.dirTable → name ∉ ns) ∨
    ∃ dir files, info.wdTable.lookup wd = some dir ∧ info.dirTable.lookup dir = some files ∧
      name ∈ files ∧
      let path := buildFilename dir name
      let count := if files.erase name = [] then nwatch - 1 else nwatch
      let struck := strike wd dir name files info
      ((path ∉ info.keys ∧ path ∉ struck.keys ∧
          watcherEvent fs info nwatch wd name = (struck, count, [⟨path, count == 0⟩])) ∨
        ∃ pending, info.dirTable.lookup path = some pending ∧
          struck.dirTable.lookup path = some pending ∧
          watcherEvent fs info nwatch wd name =
            addPending fs path pending
              { struck with dirTable := Table.remove path struck.dirTable } count) := by
  rcases hl : info.wdTable.lookup wd with _ | dir
  · refine Or.inl ⟨by simp only [watcherEvent, hl], fun d ns hw => ?_⟩
    exact absurd (Table.mem_keys_of_mem hw) (Table.lookup_eq_none.mp hl)
  · have hw := Table.mem_of_lookup hl
    obtain ⟨files, hrow⟩ := Table.mem_keys.mp (hs.watched dir (mem_dirs.mpr ⟨wd, hw⟩))
    have hf := Table.lookup_of_mem hs.keysNodup hrow
    by_cases hn : name ∈ files
    · refine Or.inr ⟨dir, files, rfl, hf, hn, ?_⟩
      have hd := hs.normal dir (Table.mem_keys_of_mem hrow)
      have hne : buildFilename dir name ≠ dir := hd.buildFilename_ne (hs.names _ hrow name hn)
      simp only [watcherEvent, hl, hf, Option.getD_some, if_pos hn]
      rcases hp : (strike wd dir name files info).dirTable.lookup (buildFilename dir name) with
        _ | pending
      · have hkey := Table.lookup_eq_none.mp hp
        exact Or.inl ⟨fun hk => hkey ((keys_of_strike hne).mpr hk), hkey, rfl⟩
      · rcases row_of_strike (Table.mem_of_lookup hp) with ⟨he, -⟩ | ⟨-, hrow'⟩
        · exact absurd he hne
        · exact Or.inr ⟨pending, Table.lookup_of_mem hs.keysNodup hrow', rfl, rfl⟩
    · refine Or.inl ⟨?_, fun d ns hw' hr => ?_⟩
      · simp only [watcherEvent, hl, hf, Option.getD_some, if_neg hn]
      · obtain rfl := Table.eq_of_mem hs.wdsNodup hw' hw
        obtain rfl := Table.eq_of_mem hs.keysNodup hr hrow
        exact hn

/-- **One event**, if the callback can deal with it. -/
theorem Tracks.watcherEvent {fs : Fs} {wd wd' nwatch : ℕ} {name : List Char}
    (hacc : ∀ p, fs.access (String.ofList p) = access p)
    (hwatch : ∀ d, fs.inotifyAddWatch d = some wd')
    (h : Tracks listed items [] access ((wd, name) :: queue) info)
    (hlen : info.wdTable.length ≤ nwatch)
    (hfresh : wd' ∉ Table.keys info.wdTable) (hq : ∀ e ∈ queue, e.1 ≠ wd')
    (hclear : info.Clear listed access wd name) :
    Handled listed items access queue (watcherEvent fs info nwatch wd name) := by
  rcases watcherEvent_cases h.shape fs nwatch wd name with
    ⟨heq, hskip⟩ | ⟨dir, files, hl, hf, hn, ⟨hkey, -, heq⟩ | ⟨pending, hrow, hp, heq⟩⟩
  · rw [heq]
    exact (h.skip hskip).handled hlen
  · have hw := Table.mem_of_lookup hl
    rw [heq]
    exact h.report (length_strike hw hlen) hw hf hn hkey
  · have hw := Table.mem_of_lookup hl
    obtain ⟨hlisted, hkeys, hord⟩ := hclear dir hl files hf hn pending hrow
    rw [heq]
    exact h.rescan hacc hwatch (length_strike hw hlen) hw hf hn hfresh hq hp
      (Table.mem_of_lookup hrow) hlisted hkeys hord

/-- Something comes up: if the directory is watched, its event is queued. -/
theorem Tracks.create {access' : List Char → Bool} {new : List (ℕ × List Char)} {dir name : List Char}
    (h : Tracks listed items [] access queue info) (hd : Normal dir) (hn : IsName name)
    (hmono : ∀ p, access p = true → access' p = true)
    (honly : ∀ p, Normal p → access' p = true → access p = true ∨ p = buildFilename dir name)
    (hnew : access' (buildFilename dir name) = true)
    (hqueued : ∀ e, e ∈ new ↔ ∃ wd, (wd, dir) ∈ info.wdTable ∧ e = (wd, name)) :
    Tracks listed items [] access' (queue ++ new) info := by
  refine ⟨h.shape, h.count, ?_, ?_⟩
  · intro wd d ns n hw hr hns hacc
    have hd' := h.shape.normal d (Table.mem_keys_of_mem hr)
    have hn' := h.shape.names _ hr n hns
    rcases honly _ (hd'.child hn') hacc with hacc | he
    · exact List.mem_append_left _ (h.caught wd d ns n hw hr hns hacc)
    · obtain ⟨rfl, rfl⟩ := hd'.buildFilename_inj hn' hd hn he
      exact List.mem_append_right _ ((hqueued _).mpr ⟨wd, hw, rfl⟩)
  · intro wd n d hq hw
    rcases List.mem_append.mp hq with hq | hq
    · exact hmono _ (h.real wd n d hq hw)
    · obtain ⟨w, hw', he⟩ := (hqueued _).mp hq
      cases he
      obtain rfl := Table.eq_of_mem h.shape.wdsNodup hw hw'
      exact hnew

end WatchInfo

end Tlm
