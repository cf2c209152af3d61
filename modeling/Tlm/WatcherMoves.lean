import Tlm.WatcherTable

/-!
# The watcher, one call of `_add_watch` at a time

`Watcher` handles a whole event in one step, on a file system that stands still
meanwhile. What is said of the table before and after **each call** of `_add_watch`
needs a finer machine: `Watching` calls it on one path in a step, for the list that
is scanned and for the names that were waited for in a directory that has come up,
and once the scan is over anything may be created between two calls.

What the callback reports is left to `Watcher`; `scan_addAll` and `read_watcherEvent`
say that the tables are the same.
-/

namespace Tlm

/-! ## The machine -/

/-- The table, with what is still to be done to it, and the file system. -/
structure Watching where
  /-- `g_access (path, 0) == 0`, for a path in any spelling -/
  access : List Char → Bool
  /-- `tlm_utils_watch_for_files` has not returned -/
  scanning : Bool
  /-- the paths that `_add_watch` is still to be called on -/
  todo : List (List Char)
  /-- `nwatch` of the scan or of the callback, while it runs -/
  nwatch : Option ℕ
  /-- the table -/
  info : WatchInfo := {}
  /-- the creation events not yet read: descriptor and name -/
  queue : List (ℕ × List Char) := []

inductive WatchMove where
  /-- `_add_watch` is called on the next path; `inotify` is what `inotify_add_watch`
  answers. -/
  | add (inotify : List Char → Option ℕ)
  /-- The scan or the callback returns. -/
  | leave
  /-- A file or directory comes up in a directory; `spelt` are the other paths that now
  lead somewhere. -/
  | create (dir name : List Char) (spelt : List Char → Bool)
  /-- The main loop calls the callback. -/
  | dispatch
  /-- The callback tests `nwatch` and reads one event. -/
  | read

namespace Watching

/-- `tlm_utils_watch_for_files` is called on a list of paths. -/
def start (fs : Fs) (paths : List String) : Watching where
  access p := fs.access (String.ofList p)
  scanning := true
  todo := expanded fs paths
  nwatch := some 0

/-- The system during a call. -/
def fs (s : Watching) (inotify : List Char → Option ℕ) : Fs :=
  { access := fun p => s.access p.toList, inotifyAddWatch := fun p => inotify p.toList }

/-- The event of a creation, if the directory is watched. -/
def creation (s : Watching) (dir name : List Char) : List (ℕ × List Char) :=
  match s.info.wdTable.find? fun e => e.2 = dir with
  | none => []
  | some (wd, _) => [(wd, name)]

/-- `_add_watch` on a path, and the count of what it added. -/
def addNext (s : Watching) (inotify : List Char → Option ℕ) (path : List Char)
    (todo : List (List Char)) (nwatch : ℕ) : Watching :=
  let (info, result) := addWatch (s.fs inotify) (path.length + 2) path s.info
  { s with info, todo, nwatch := some (if result = .added then nwatch + 1 else nwatch) }

/-- The body of the loop in `_inotify_watcher_cb` up to the calls of `_add_watch`. -/
def event (s : Watching) (nwatch wd : ℕ) (name : List Char) : Watching :=
  match s.info.wdTable.lookup wd with
  | none => s
  | some dir =>
    let files := (s.info.dirTable.lookup dir).getD []
    if name ∈ files then
      let info := strike wd dir name files s.info
      let nwatch := some (if files.erase name = [] then nwatch - 1 else nwatch)
      let path := buildFilename dir name
      match info.dirTable.lookup path with
      | some pending =>
        { s with
          info := { info with dirTable := Table.remove path info.dirTable }
          todo := pending.map (buildFilename path)
          nwatch }
      | none => { s with info, nwatch }
    else s

def step (s : Watching) : WatchMove → Watching
  | .add inotify =>
    match s.nwatch, s.todo with
    | some nwatch, path :: todo => s.addNext inotify path todo nwatch
    | _, _ => s
  | .leave =>
    match s.nwatch, s.todo with
    -- `_watch_info_free`, which closes the descriptor with what is queued on it
    | some 0, [] => { s with scanning := false, nwatch := none, info := {}, queue := [] }
    | some _, [] => { s with scanning := false, nwatch := none }
    | _, _ => s
  | .create dir name spelt =>
    { s with
      access := fun p => s.access p || p = buildFilename dir name || spelt p
      queue := s.queue ++ s.creation dir name }
  | .dispatch =>
    match s.nwatch with
    | none => { s with nwatch := some s.info.wdTable.length }
    | some _ => s
  | .read =>
    match s.nwatch, s.todo, s.queue with
    | some (n + 1), [], (wd, name) :: queue => { s with queue }.event (n + 1) wd name
    | _, _, _ => s

/-- What the system promises. Two directories never have the same descriptor, and a new
descriptor has no events; while the list is scanned nothing is created, and what is
created later was not there before. A directory is known by the one path to it that
`g_path_get_dirname` can give. -/
def Proper (s : Watching) : WatchMove → Prop
  | .add inotify => ∀ dir wd, inotify dir = some wd →
      (∀ d, (wd, d) ∈ s.info.wdTable → d = dir) ∧
        (wd ∉ Table.keys s.info.wdTable → ∀ e ∈ s.queue, e.1 ≠ wd)
  | .create dir name _ =>
      s.scanning = false ∧ IsDirname dir ∧ IsName name ∧ s.access (buildFilename dir name) = false
  | _ => True

end Watching

/-! ## The two machines have the same table -/

section

variable {fs fs' : Fs}

/-- Of the system `_add_watch` asks two things only. -/
theorem addWatch_congr (ha : ∀ p, fs.access p = fs'.access p)
    (hw : ∀ p, fs.inotifyAddWatch p = fs'.inotifyAddWatch p) (fuel : ℕ) (path : List Char)
    (info : WatchInfo) : addWatch fs fuel path info = addWatch fs' fuel path info := by
  induction fuel generalizing path info with
  | zero => rfl
  | succ fuel ih => simp only [addWatch, ha, hw, ih]

/-- `_add_watch` on one path after the other, with the count. -/
def addAll (fs : Fs) : List (List Char) → WatchInfo → ℕ → WatchInfo × ℕ
  | [], info, nwatch => (info, nwatch)
  | path :: rest, info, nwatch =>
    let (info, result) := addWatch fs (path.length + 2) path info
    addAll fs rest info (if result = .added then nwatch + 1 else nwatch)

theorem addAll_congr (ha : ∀ p, fs.access p = fs'.access p)
    (hw : ∀ p, fs.inotifyAddWatch p = fs'.inotifyAddWatch p) (paths : List (List Char))
    (info : WatchInfo) (nwatch : ℕ) : addAll fs paths info nwatch = addAll fs' paths info nwatch := by
  induction paths generalizing info nwatch with
  | nil => rfl
  | cons path rest ih => simp only [addAll, addWatch_congr ha hw, ih]

/-- The scan is that for the listed paths. -/
theorem scan_addAll (fs : Fs) (paths : List String) (nwatch : ℕ) (info : WatchInfo) :
    addAll fs (expanded fs paths) info nwatch =
      ((scan fs (paths.map some) nwatch info).2.2, (scan fs (paths.map some) nwatch info).2.1) := by
  induction paths generalizing nwatch info with
  | nil => rfl
  | cons path rest ih =>
    simp only [expanded, List.map_cons, addAll, scan]
    rcases addWatch fs ((expandFilePath fs path.toList).length + 2) (expandFilePath fs path.toList)
      info with ⟨info', _ | _ | _⟩
    · exact ih nwatch info'
    · exact ih (nwatch + 1) info'
    · exact ih nwatch info'

/-- What the callback does about a directory is that for the names waited for in it. -/
theorem addPending_addAll (fs : Fs) (dir : List Char) (names : List (List Char)) (info : WatchInfo)
    (nwatch : ℕ) : addAll fs (names.map (buildFilename dir)) info nwatch =
      ((addPending fs dir names info nwatch).1, (addPending fs dir names info nwatch).2.1) := by
  induction names generalizing info nwatch with
  | nil => rfl
  | cons name rest ih =>
    simp only [List.map_cons, addAll, addPending]
    rcases addWatch fs ((buildFilename dir name).length + 2) (buildFilename dir name) info with
      ⟨info', _ | _ | _⟩
    · exact ih info' nwatch
    · exact ih info' (nwatch + 1)
    · exact ih info' nwatch

namespace Watching

/-- Calls on one path after the other, with nothing created between them. -/
theorem foldl_add (s : Watching) (inotify : List Char → Option ℕ) (paths : List (List Char))
    (info : WatchInfo) (nwatch : ℕ) :
    (List.replicate paths.length (WatchMove.add inotify)).foldl step
        { s with todo := paths, info, nwatch := some nwatch } =
      { s with
        todo := []
        info := (addAll (s.fs inotify) paths info nwatch).1
        nwatch := some (addAll (s.fs inotify) paths info nwatch).2 } := by
  induction paths generalizing info nwatch with
  | nil => rfl
  | cons path rest ih =>
    simp only [List.length_cons, List.replicate_succ, List.foldl_cons]
    exact ih _ _

/-- **A scan** is a run of the machine. -/
theorem foldl_scan (fs : Fs) (paths : List String) :
    ((List.replicate (expanded fs paths).length
        (WatchMove.add fun p => fs.inotifyAddWatch (String.ofList p))).foldl step (start fs paths)) =
      { start fs paths with
        todo := []
        info := (scan fs (paths.map some) 0 {}).2.2
        nwatch := some (scan fs (paths.map some) 0 {}).2.1 } := by
  have hfs : ∀ ps info n, addAll ((start fs paths).fs fun p => fs.inotifyAddWatch (String.ofList p))
      ps info n = addAll fs ps info n :=
    addAll_congr (by simp [start, Watching.fs]) (by simp [Watching.fs])
  have hrun := foldl_add (start fs paths) (fun p => fs.inotifyAddWatch (String.ofList p))
    (expanded fs paths) {} 0
  rw [hfs, scan_addAll] at hrun
  exact hrun

/-- **An event** is a run of it, up to the last call of `_add_watch`. -/
theorem foldl_read (s : Watching) (inotify : List Char → Option ℕ) {n wd : ℕ}
    {name : List Char} {queue : List (ℕ × List Char)}
    (hn : s.nwatch = some (n + 1)) (htodo : s.todo = []) (hq : s.queue = (wd, name) :: queue) :
    ((List.replicate (s.step .read).todo.length (WatchMove.add inotify)).foldl step
        (s.step .read)) =
      { s with
        info := (watcherEvent (s.fs inotify) s.info (n + 1) wd name).1
        nwatch := some (watcherEvent (s.fs inotify) s.info (n + 1) wd name).2.1
        queue } := by
  simp only [step, hn, htodo, hq, event, watcherEvent]
  rcases s.info.wdTable.lookup wd with _ | dir
  · rfl
  · simp only
    split
    · rcases (strike wd dir name ((s.info.dirTable.lookup dir).getD []) s.info).dirTable.lookup
        (buildFilename dir name) with _ | pending
      · rfl
      · refine (foldl_add { s with queue } inotify _ _ _).trans ?_
        rw [addPending_addAll]
        rfl
    · rfl

end Watching

end

end Tlm
