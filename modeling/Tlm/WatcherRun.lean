import Tlm.WatcherEvent

/-!
# Every run of the watcher

`Watcher.run_reports` is the result. What it takes is a list the scan can deal with
and events the callback can deal with; `existing_behind_missing` shows the smallest
list with a path that is there and is never reported.
-/

namespace Tlm

namespace Watcher

variable {listed : List (List Char)} {s : Watcher}

/-- The count of watches that a test of the loop finds. -/
def count (s : Watcher) (info : WatchInfo) : ℕ := s.nwatch.getD info.wdTable.length

/-- It is not below the number of watches, if the count of the callback is not. -/
theorem length_le_count {info : WatchInfo}
    (h : ∀ info n, s.source = some info → s.nwatch = some n → info.wdTable.length ≤ n)
    (hs : s.source = some info) : info.wdTable.length ≤ s.count info := by
  rcases hn : s.nwatch with _ | n
  · rw [count, hn]
    exact le_rfl
  · rw [count, hn]
    exact h info n hs hn

/-- The invariant of a run. -/
structure Sound (listed : List (List Char)) (s : Watcher) : Prop where
  root : s.access ['/'] = true
  closed : ∀ d n, Normal d → IsName n → s.access (buildFilename d n) = true → s.access d = true
  mem : ∀ p ∈ s.items, p ∈ listed
  once : s.items.Nodup
  exist : ∀ p ∈ s.items, s.access p = true
  tracks : ∀ info, s.source = some info → info.Tracks listed s.items [] s.access s.queue
  nwatch : ∀ info n, s.source = some info → s.nwatch = some n → info.wdTable.length ≤ n
  finished : s.source = none → ∀ p ∈ listed, p ∈ s.items

/-- Where the invariant holds, exactly the listed files are reported. -/
theorem Sound.reports (h : s.Sound listed) : s.Reports listed := by
  refine ⟨h.mem, h.once, h.exist, ?_⟩
  intro hq p hp hacc
  rcases hs : s.source with _ | info
  · exact h.finished hs p hp
  · by_contra hi
    have ht := h.tracks info hs
    obtain ⟨wd, d, ns, n, hw, hr, hn, he⟩ := ht.anchored h.closed (ht.mem_tracked hp hi)
    have hmem := ht.caught wd d ns n hw hr hn (he hacc)
    rw [hq] at hmem
    cases hmem

/-- A source without watches has nothing left to report. -/
theorem Sound.finished_of_nil (h : s.Sound listed) {info : WatchInfo} (hs : s.source = some info)
    (hnil : info.wdTable = []) : ∀ p ∈ listed, p ∈ s.items := by
  intro p hp
  by_contra hi
  have ht := h.tracks info hs
  obtain ⟨wd, d, ns, n, hw, -⟩ := ht.anchored h.closed (ht.mem_tracked hp hi)
  rw [hnil] at hw
  cases hw

theorem Sound.remove (h : s.Sound listed) {info : WatchInfo} (hs : s.source = some info)
    (hzero : s.count info = 0) : s.remove.Sound listed := by
  have hle := length_le_count h.nwatch hs
  rw [hzero] at hle
  have hnil : info.wdTable = [] := List.eq_nil_of_length_eq_zero (Nat.le_zero.mp hle)
  exact ⟨h.root, h.closed, h.mem, h.once, h.exist, nofun, nofun, fun _ => h.finished_of_nil hs hnil⟩

theorem Sound.leave (h : s.Sound listed) : Sound listed { s with nwatch := none } :=
  ⟨h.root, h.closed, h.mem, h.once, h.exist, h.tracks, nofun, h.finished⟩

/-- A watched directory queues one event. -/
theorem mem_creation {info : WatchInfo} (hs : s.source = some info) (hshape : info.Shape)
    {dir name : List Char} (e : ℕ × List Char) :
    e ∈ s.creation dir name ↔ ∃ wd, (wd, dir) ∈ info.wdTable ∧ e = (wd, name) := by
  simp only [creation, hs]
  exact hshape.keyed.mem_event e

theorem Sound.create (h : s.Sound listed) {dir name : List Char} {spelt : List Char → Bool}
    (hp : s.Proper (.create dir name spelt)) : (s.step (.create dir name spelt)).Sound listed := by
  obtain ⟨hd, hn, hdir, hnot, hspelt⟩ := hp
  have hmono : ∀ p, s.access p = true → (s.step (.create dir name spelt)).access p = true := by
    intro p hp
    simp [step, hp]
  have honly : ∀ p, Normal p → (s.step (.create dir name spelt)).access p = true →
      s.access p = true ∨ p = buildFilename dir name := by
    intro p hnormal hacc
    simp only [step, Bool.or_eq_true, decide_eq_true_eq] at hacc
    rcases hacc with (hacc | hacc) | hacc
    · exact Or.inl hacc
    · exact Or.inr hacc
    · exact hspelt p hnormal hacc
  refine ⟨hmono _ h.root, ?_, h.mem, h.once, fun p hp => hmono p (h.exist p hp), ?_, h.nwatch, h.finished⟩
  · intro d n hd' hn' hacc
    rcases honly _ (hd'.child hn') hacc with hacc | he
    · exact hmono d (h.closed d n hd' hn' hacc)
    · obtain ⟨rfl, -⟩ := hd'.buildFilename_inj hn' hd hn he
      exact hmono d hdir
  · intro info hs
    have ht := h.tracks info hs
    refine ht.create hd hn hmono honly ?_ (mem_creation hs ht.shape)
    simp [step]

/-- The invariant after an event. -/
theorem Sound.event (h : s.Sound listed) {queue : List (ℕ × List Char)}
    {r : WatchInfo × ℕ × List Notice} (hr : WatchInfo.Handled listed s.items s.access queue r) :
    Sound listed
      { s with source := some r.1, nwatch := some r.2.1, queue, notices := s.notices ++ r.2.2 } := by
  have hitems : Watcher.items { s with
      source := some r.1, nwatch := some r.2.1, queue, notices := s.notices ++ r.2.2 } =
      s.items ++ r.2.2.map Notice.item := List.map_append
  refine ⟨h.root, h.closed, ?_, ?_, ?_, ?_, ?_, nofun⟩
  · rw [hitems]
    intro p hp
    rcases List.mem_append.mp hp with hp | hp
    · exact h.mem p hp
    · exact (hr.awaited p hp).1
  · rw [hitems, List.nodup_append]
    exact ⟨h.once, hr.once, fun p hp q hq he => (hr.awaited q hq).2 (he ▸ hp)⟩
  · rw [hitems]
    intro p hp
    rcases List.mem_append.mp hp with hp | hp
    · exact h.exist p hp
    · exact hr.exist p hp
  · intro info hsome
    cases hsome
    rw [hitems]
    exact hr.tracks
  · intro info n hsome hn
    cases hsome
    cases hn
    exact hr.nwatch

/-- Everything a read can do: nothing, give the source up, end the dispatch, or handle
the next event. -/
theorem read_cases (s : Watcher) (wd : ℕ) :
    s.step (.read wd) = s ∨
    (∃ info, s.source = some info ∧ s.count info = 0 ∧ s.step (.read wd) = s.remove) ∨
    s.step (.read wd) = { s with nwatch := none } ∨
    ∃ info w name queue, s.source = some info ∧ s.queue = (w, name) :: queue ∧
      let r := watcherEvent (s.fs wd) info (s.count info) w name
      s.step (.read wd) =
        { s with source := some r.1, nwatch := some r.2.1, queue, notices := s.notices ++ r.2.2 } := by
  rcases hs : s.source with _ | info
  · exact Or.inl (by simp only [step, hs])
  · rcases hq : s.queue with _ | ⟨⟨w, name⟩, queue⟩
    · rcases hn : s.nwatch with _ | n
      · exact Or.inl (by simp only [step, hs, hn, hq])
      · by_cases hzero : n = 0
        · refine Or.inr (Or.inl ⟨info, rfl, by rw [count, hn]; exact hzero, ?_⟩)
          simp only [step, hs, hn, hq, Option.getD_some, if_pos hzero]
        · refine Or.inr (Or.inr (Or.inl ?_))
          simp only [step, hs, hn, hq, Option.getD_some, if_neg hzero]
    · by_cases hzero : s.count info = 0
      · refine Or.inr (Or.inl ⟨info, rfl, hzero, ?_⟩)
        rw [count] at hzero
        simp only [step, hs, hq]
        rcases hn : s.nwatch with _ | n <;> rw [hn] at hzero <;> simp only [hzero, if_true]
      · refine Or.inr (Or.inr (Or.inr ⟨info, w, name, queue, rfl, rfl, ?_⟩))
        rw [count] at hzero
        simp only [step, hs, hq, count]
        rcases hn : s.nwatch with _ | n <;> rw [hn] at hzero <;> simp only [hzero, if_false]

/-- Everything an `IN_IGNORED` can do. -/
theorem ignored_cases (s : Watcher) :
    s.step .ignored = s ∨
    (∃ info, s.source = some info ∧ s.count info = 0 ∧ s.step .ignored = s.remove) ∨
    s.step .ignored = { s with nwatch := none } := by
  rcases hs : s.source with _ | info
  · exact Or.inl (by simp only [step, hs])
  · by_cases hzero : s.count info = 0
    · refine Or.inr (Or.inl ⟨info, rfl, hzero, ?_⟩)
      rw [count] at hzero
      simp only [step, hs, if_pos hzero]
    · refine Or.inr (Or.inr ?_)
      rw [count] at hzero
      simp only [step, hs, if_neg hzero]

theorem Sound.read (h : s.Sound listed) {wd : ℕ} (hp : s.Proper (.read wd))
    (hc : s.Clear listed (.read wd)) : (s.step (.read wd)).Sound listed := by
  obtain ⟨hfresh, hused⟩ := hp
  rcases read_cases s wd with heq | ⟨info, hs, hzero, heq⟩ | heq | ⟨info, w, name, queue, hs, hq, heq⟩
  · rwa [heq]
  · rw [heq]
    exact h.remove hs hzero
  · rw [heq]
    exact h.leave
  · have ht := h.tracks info hs
    rw [hq] at ht
    have hclear := hc info hs (w, name) (by rw [hq]; rfl)
    rw [heq]
    refine h.event (ht.watcherEvent (fun p => ?_) (fun _ => rfl) (length_le_count h.nwatch hs)
      (hfresh info hs) ?_ hclear)
    · simp [fs]
    · intro e he
      exact hused e (by rw [hq]; exact List.mem_cons_of_mem _ he)

/-- **One step** keeps the invariant. -/
theorem Sound.step (h : s.Sound listed) (st : WatchStep) (hp : s.Proper st) (hc : s.Clear listed st) :
    (s.step st).Sound listed := by
  cases st with
  | create dir name spelt => exact h.create hp
  | read wd => exact h.read hp hc
  | ignored =>
    rcases ignored_cases s with heq | ⟨info, hs, hzero, heq⟩ | heq
    · rwa [heq]
    · rw [heq]
      exact h.remove hs hzero
    · rw [heq]
      exact h.leave

/-! ## Whole runs -/

/-- What the scan does not report is what is not there. -/
theorem awaits_present {fs : Fs} (hnd : listed.Nodup) (x : List Char) :
    awaits listed (fs.present listed) x = (fs.absent listed).count x := by
  by_cases hx : x ∈ fs.absent listed
  · obtain ⟨hl, hacc⟩ := List.mem_filter.mp hx
    have hone : (fs.absent listed).count x = 1 := List.count_eq_one_of_mem (hnd.filter _) hx
    rw [hone]
    refine if_pos ⟨hl, fun hp => ?_⟩
    rw [(List.mem_filter.mp hp).2] at hacc
    cases hacc
  · rw [List.count_eq_zero_of_not_mem hx]
    refine if_neg fun hp => hx (List.mem_filter.mpr ⟨hp.1, ?_⟩)
    by_contra hacc
    exact hp.2 (List.mem_filter.mpr ⟨hp.1, by simpa using hacc⟩)

/-- The table of the scan is in order: nothing tracked exists, and no event is queued. -/
theorem scanning_tracks {fs : Fs} {info : WatchInfo} {awaited items : List (List Char)}
    (h : Scanning fs listed info)
    (hawaits : ∀ x, awaits awaited items x = (fs.absent listed).count x) :
    info.Tracks awaited items [] (fun p => fs.access (String.ofList p)) [] := by
  refine ⟨h.scanned.shape, ?_, ?_, nofun⟩
  · intro x
    rw [hawaits, List.count_nil]
    exact h.count x
  · intro wd d ns n _ hrow hn he
    have hmiss := h.scanned.missing _ (WatchInfo.mem_tracked.mpr ⟨d, ns, hrow, n, hn, rfl⟩)
    exact absurd (he.symm.trans hmiss) (by simp)

/-- What the scan leaves, if it can deal with the list. -/
theorem start_eq {fs : Fs} (hw : fs.Works) {paths : List String}
    (hn : ∀ p ∈ expanded fs paths, fs.access (String.ofList p) = false → Normal p)
    (ho : fs.InOrder (expanded fs paths)) :
    let r := scan fs (paths.map some) 0 {}
    start fs paths =
        { access := fun p => fs.access (String.ofList p)
          source := if fs.absent (expanded fs paths) = [] then none else some r.2.2
          notices := r.1 } ∧
      r.1.map Notice.item = fs.present (expanded fs paths) ∧
      r.2.1 = (fs.absent (expanded fs paths)).length ∧
      Scanning fs (expanded fs paths) r.2.2 := by
  intro r
  have hnil : Scanning fs [] {} :=
    ⟨scanned_nil, by simp [WatchInfo.tracked, Table.rows, Fs.absent, WatchInfo.pends, WatchInfo.keys,
      Table.keys], by simp [WatchInfo.keys, Table.keys]⟩
  have ho' : fs.InOrder ([] ++ expanded fs paths) := ho
  obtain ⟨hitems, hcount, hscan⟩ := scan_suits hw hn ho' hnil 0
  rw [Nat.zero_add] at hcount
  refine ⟨?_, hitems, hcount, hscan⟩
  have hsource : (if r.2.1 = 0 then none else some r.2.2) =
      if fs.absent (expanded fs paths) = [] then none else some r.2.2 :=
    if_congr (by rw [hcount, List.length_eq_zero_iff]) rfl rfl
  simp only [start, watchForFiles, hw.init, if_true]
  rw [← hsource]

/-- The scan leaves the invariant behind, if it can deal with the list. -/
theorem start_sound {fs : Fs} (hw : fs.Works) {paths : List String}
    (hs : fs.Suits (expanded fs paths)) : (start fs paths).Sound (expanded fs paths) := by
  obtain ⟨hstart, hitems, -, hscan⟩ := start_eq hw hs.normal hs.order
  have hi : (start fs paths).items = fs.present (expanded fs paths) := by
    rw [hstart]
    exact hitems
  have hacc : (start fs paths).access = fun p => fs.access (String.ofList p) := by
    rw [hstart]
  refine ⟨?_, ?_, ?_, ?_, ?_, ?_, ?_, ?_⟩
  · rw [hacc]
    exact hw.root
  · rw [hacc]
    exact fun d n hd hn => hw.closed hd hn
  · rw [hi]
    exact fun p hp => (List.mem_filter.mp hp).1
  · rw [hi]
    exact hs.nodup.filter _
  · rw [hi, hacc]
    exact fun p hp => (List.mem_filter.mp hp).2
  · intro info hsome
    have hqueue : (start fs paths).queue = [] := by rw [hstart]
    rw [hi, hacc, hqueue]
    rw [hstart] at hsome
    simp only at hsome
    split at hsome
    · cases hsome
    · cases hsome
      exact scanning_tracks hscan (awaits_present hs.nodup)
  · intro info n _ hsome
    rw [hstart] at hsome
    cases hsome
  · intro hnone p hp
    rw [hstart] at hnone
    simp only at hnone
    split at hnone
    · -- nothing is waited for: everything was there
      rename_i hnil
      rw [hi]
      refine List.mem_filter.mpr ⟨hp, ?_⟩
      simpa using List.filter_eq_nil_iff.mp hnil p hp
    · cases hnone

/-- **Exactly the watched files.** If the scan can deal with the list and the callback
with every event of a run, then in every state of the run the watcher has reported
exactly what it should. -/
theorem run_reports {fs : Fs} (hw : fs.Works) {paths : List String}
    (hs : fs.Suits (expanded fs paths)) {sts : List WatchStep}
    (h : Along step (fun s st => s.Proper st ∧ s.Clear (expanded fs paths) st) (start fs paths) sts) :
    Always step (Reports (expanded fs paths)) (start fs paths) sts := by
  have hsound : Always step (Sound (expanded fs paths)) (start fs paths) sts :=
    Along.always (fun s st hs hst => hs.step st hst.1 hst.2) (start_sound hw hs) h
  exact hsound.imp fun s hs => hs.reports

/-- A file system with the given directories and files, each with the descriptor that
is its place in the list. -/
def onDisk (files : List String) : Fs where
  access p := files.contains p
  inotifyAddWatch p := files.findIdx? (· = p)

theorem onDisk_works {files : List String} (hroot : "/" ∈ files)
    (hparent : ∀ f ∈ files, String.ofList (pathGetDirname f.toList) ∈ files) :
    (onDisk files).Works := by
  refine ⟨rfl, by simpa [onDisk] using hroot, ?_, ?_, ?_⟩
  · intro p hp
    have hmem : String.ofList p ∈ files := by simpa [onDisk] using hp
    simpa [onDisk] using hparent _ hmem
  · intro p hp
    have hmem : p ∈ files := by simpa [onDisk] using hp
    have hsome : (files.findIdx? (· = p)).isSome = true := by
      rw [List.findIdx?_isSome]
      simpa using hmem
    exact Option.isSome_iff_exists.mp hsome
  · intro d d' wd _ _ h h'
    obtain ⟨hlt, hd, -⟩ := List.findIdx?_eq_some_iff_getElem.mp h
    obtain ⟨hlt', hd', -⟩ := List.findIdx?_eq_some_iff_getElem.mp h'
    simp only [decide_eq_true_eq] at hd hd'
    exact String.ofList_injective (hd.symm.trans hd')

/-- A directory comes up, and what is waited for in it, before the event is read. -/
def nested : List WatchStep :=
  [.create ['/'] ['a'] (fun _ => false), .create ['/', 'a'] ['x'] (fun _ => false), .read 1,
    .create ['/'] ['b'] (fun _ => false), .read 2, .read 3]

theorem nested_list :
    expanded (onDisk ["/"]) ["/a/x", "/b"] = [['/', 'a', '/', 'x'], ['/', 'b']] := by
  decide

/-- Both files it waits for are missing, and spelt as paths. -/
theorem nested_normal : ∀ p ∈ expanded (onDisk ["/"]) ["/a/x", "/b"],
    (onDisk ["/"]).access (String.ofList p) = false ∧ Normal p := by
  have ha : IsName ['a'] := isName_singleton (by decide) (by decide)
  have hb : IsName ['b'] := isName_singleton (by decide) (by decide)
  have hx : IsName ['x'] := isName_singleton (by decide) (by decide)
  rw [nested_list]
  intro p hp
  obtain rfl | hp := List.mem_cons.mp hp
  · exact ⟨by decide, (Normal.root.child ha).child hx⟩
  · obtain rfl := List.mem_singleton.mp hp
    exact ⟨by decide, Normal.root.child hb⟩

theorem run_reports_nested :
    Always step (Reports (expanded (onDisk ["/"]) ["/a/x", "/b"]))
        (start (onDisk ["/"]) ["/a/x", "/b"]) nested ∧
      (nested.foldl step (start (onDisk ["/"]) ["/a/x", "/b"])).items =
        ["/a/x".toList, "/b".toList] := by
  have ha : IsName ['a'] := isName_singleton (by decide) (by decide)
  have hb : IsName ['b'] := isName_singleton (by decide) (by decide)
  have hx : IsName ['x'] := isName_singleton (by decide) (by decide)
  have hna : Normal ['/', 'a'] := Normal.root.child ha
  refine ⟨run_reports (onDisk_works (by decide) (by decide)) ⟨by decide, ?_, ?_⟩ ?_, by decide⟩
  · exact fun p hp _ => (nested_normal p hp).2
  · refine List.pairwise_of_forall_mem_list fun q _ p hp _ hthere => ?_
    rw [(nested_normal p hp).1] at hthere
    exact absurd hthere (by simp)
  · exact ⟨⟨⟨.root, ha, by decide, by decide, nofun⟩, trivial⟩,
      ⟨⟨hna, hx, by decide, by decide, nofun⟩, trivial⟩,
      ⟨⟨by decide, by decide⟩, by decide⟩,
      ⟨⟨.root, hb, by decide, by decide, nofun⟩, trivial⟩,
      ⟨⟨by decide, by decide⟩, by decide⟩,
      ⟨⟨by decide, by decide⟩, by decide⟩, trivial⟩

/-- A path that exists, listed behind one that does not in the same directory, is taken
for one that is waited for: it is not reported, and it will not come up again. -/
theorem existing_behind_missing :
    (onDisk ["/", "/a", "/a/y"]).Works ∧ ["/a/x", "/a/y"].Nodup ∧
      ¬ Always step (Reports (expanded (onDisk ["/", "/a", "/a/y"]) ["/a/x", "/a/y"]))
        (start (onDisk ["/", "/a", "/a/y"]) ["/a/x", "/a/y"]) [] := by
  refine ⟨onDisk_works (by decide) (by decide), by decide, ?_⟩
  intro h
  have hy := h.head.all rfl "/a/y".toList (by decide) (by decide)
  revert hy
  decide

end Watcher

end Tlm
