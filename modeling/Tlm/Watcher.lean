import Tlm.Paths
import Tlm.Run
import Tlm.Table

/-!
# The inotify source (`tlm-utils.c`)

What `tlm_utils_watch_for_files` does not find at once it leaves to an inotify
source, whose callback `_inotify_watcher_cb` reads creation events, strikes the
names they carry off the table, and reports the path — or, when the path is a
directory that something is waited for in, scans that directory again.

The machine of this module is the source together with the file system it
watches: files and directories are created, each creation in a watched directory
queues one event, and the callback reads the queue one event at a time. Anything
may be created between two reads; one read is handled on the file system as it
then is.
-/

namespace Tlm

/-! ## The callback -/

/-- The loop of `_inotify_watcher_cb` over the names that were waited for in a
directory that has come up, with the callback's count of watches. -/
def addPending (fs : Fs) (dir : List Char) :
    List (List Char) → WatchInfo → ℕ → WatchInfo × ℕ × List Notice
  | [], info, nwatch => (info, nwatch, [])
  | name :: rest, info, nwatch =>
    let path := buildFilename dir name
    match addWatch fs (path.length + 2) path info with
    | (info, .failed) => addPending fs dir rest info nwatch
    | (info, .added) => addPending fs dir rest info (nwatch + 1)
    | (info, .ready) =>
      let (info, n, notices) := addPending fs dir rest info nwatch
      (info, n, ⟨path, nwatch == 0⟩ :: notices)

/-- The table once a name is struck off the row of its directory: the last name
takes the row and the watch with it. -/
def strike (wd : ℕ) (dir name : List Char) (files : List (List Char)) (info : WatchInfo) : WatchInfo :=
  if files.erase name = [] then
    { dirTable := Table.remove dir info.dirTable, wdTable := Table.remove wd info.wdTable }
  else { info with dirTable := Table.replace dir (files.erase name) info.dirTable }

/-- The body of the loop in `_inotify_watcher_cb`, for the event of a name created
in the directory of a descriptor. -/
def watcherEvent (fs : Fs) (info : WatchInfo) (nwatch wd : ℕ) (name : List Char) :
    WatchInfo × ℕ × List Notice :=
  match info.wdTable.lookup wd with
  | none => (info, nwatch, [])
  | some dir =>
    let files := (info.dirTable.lookup dir).getD []
    if name ∈ files then
      let nwatch := if files.erase name = [] then nwatch - 1 else nwatch
      let info := strike wd dir name files info
      let path := buildFilename dir name
      match info.dirTable.lookup path with
      | some pending =>
        addPending fs path pending { info with dirTable := Table.remove path info.dirTable } nwatch
      | none => (info, nwatch, [⟨path, nwatch == 0⟩])
    else (info, nwatch, [])

/-! ## The machine -/

/-- The source, the events queued for it, and the file system. -/
structure Watcher where
  /-- `g_access (path, 0) == 0`, for a path in any spelling -/
  access : List Char → Bool
  /-- the source, while it is attached -/
  source : Option WatchInfo := none
  /-- `nwatch` of the callback, while it runs -/
  nwatch : Option ℕ := none
  /-- the creation events not yet read: descriptor and name -/
  queue : List (ℕ × List Char) := []
  /-- the calls of the callback so far -/
  notices : List Notice := []

inductive WatchStep where
  /-- A file or directory comes up in a directory; `spelt` are the paths, in any
  other spelling, that now lead to it. -/
  | create (dir name : List Char) (spelt : List Char → Bool)
  /-- The callback tests `nwatch` and reads one event; `wd` is the descriptor
  `inotify_add_watch` gives to the directory that the event is about. -/
  | read (wd : ℕ)
  /-- The callback reads the `IN_IGNORED` that a removed watch leaves in the queue:
  it has no name, so the callback returns. -/
  | ignored

namespace Watcher

/-- The paths reported so far. -/
def items (s : Watcher) : List (List Char) := s.notices.map Notice.item

/-- `tlm_utils_watch_for_files`, called on a list of paths. -/
def start (fs : Fs) (paths : List String) : Watcher :=
  let (notices, source) := watchForFiles fs (paths.map some)
  { access := fun p => fs.access (String.ofList p), source, notices }

/-- The system while an event is handled. -/
def fs (s : Watcher) (wd : ℕ) : Fs :=
  { access := fun p => s.access p.toList, inotifyAddWatch := fun _ => some wd }

/-- The event of a creation, if the directory is watched. -/
def creation (s : Watcher) (dir name : List Char) : List (ℕ × List Char) :=
  match s.source with
  | none => []
  | some info => match info.wdTable.find? fun e => e.2 = dir with
    | none => []
    | some (wd, _) => [(wd, name)]

/-- `G_SOURCE_REMOVE`: the source is destroyed, and `_watch_info_free` closes the
descriptor with what is queued on it. -/
def remove (s : Watcher) : Watcher := { s with source := none, nwatch := none, queue := [] }

def step (s : Watcher) : WatchStep → Watcher
  | .create dir name spelt =>
    { s with
      access := fun p => s.access p || p = buildFilename dir name || spelt p
      queue := s.queue ++ s.creation dir name }
  | .read wd =>
    match s.source with
    | none => s
    | some info =>
      match s.nwatch, s.queue with
      -- there is nothing to read: the main loop does not call the callback
      | none, [] => s
      | nwatch, queue =>
        let nwatch := nwatch.getD info.wdTable.length
        if nwatch = 0 then s.remove
        else match queue with
          | [] => { s with nwatch := none }
          | (w, name) :: queue =>
            let (info, nwatch, notices) := watcherEvent (s.fs wd) info nwatch w name
            { s with
              source := some info
              nwatch := some nwatch
              queue
              notices := s.notices ++ notices }
  | .ignored =>
    match s.source with
    | none => s
    | some info =>
      if s.nwatch.getD info.wdTable.length = 0 then s.remove else { s with nwatch := none }

/-! ## What is promised -/

/-- **Exactly the listed files**: only paths of the list are reported, each at most
once and none that does not exist, and when no event is left to read every listed
path that exists has been. -/
structure Reports (listed : List (List Char)) (s : Watcher) : Prop where
  mem : ∀ p ∈ s.items, p ∈ listed
  once : s.items.Nodup
  exist : ∀ p ∈ s.items, s.access p = true
  all : s.queue = [] → ∀ p ∈ listed, s.access p = true → p ∈ s.items

end Watcher

/-- The list, with the variables in its paths expanded. -/
def expanded (fs : Fs) (paths : List String) : List (List Char) :=
  paths.map fun path => expandFilePath fs path.toList

/-! ## What the system promises -/

/-- The system as the scan finds it: the directory of what exists exists, inotify can
watch it, and two directories in normal form have two descriptors. -/
structure Fs.Works (fs : Fs) : Prop where
  init : fs.inotifyInit = true
  root : fs.access "/" = true
  parent : ∀ p, fs.access (String.ofList p) = true →
    fs.access (String.ofList (pathGetDirname p)) = true
  watch : ∀ p, fs.access p = true → ∃ wd, fs.inotifyAddWatch p = some wd
  distinct : ∀ d d' wd, Normal d → Normal d' → fs.inotifyAddWatch (String.ofList d) = some wd →
    fs.inotifyAddWatch (String.ofList d') = some wd → d = d'

/-- The steps that can happen: a name that was not there before comes up in a
directory that is there, and a new descriptor is not one that is in use. -/
def Watcher.Proper (s : Watcher) : WatchStep → Prop
  | .create dir name spelt =>
    Normal dir ∧ IsName name ∧ s.access dir = true ∧
      s.access (buildFilename dir name) = false ∧
      ∀ p, Normal p → spelt p = true → s.access p = true ∨ p = buildFilename dir name
  | .read wd => (∀ info ∈ s.source, wd ∉ Table.keys info.wdTable) ∧ ∀ e ∈ s.queue, e.1 ≠ wd
  | .ignored => True

/-! ## What the watcher relies on -/

/-- `Waits access p d`: the nearest directory above `p` that exists is `d`. -/
inductive Waits (access : List Char → Bool) : List Char → List Char → Prop where
  | here {p : List Char} : access (pathGetDirname p) = true → Waits access p (pathGetDirname p)
  | above {p d : List Char} : access (pathGetDirname p) = false → Waits access (pathGetDirname p) d →
      Waits access p d

/-- A list the scan can deal with. No two of its paths expand to the same, what does
not exist is in normal form, and what exists does not come behind a path that does
not and that has to be waited for in the same directory. -/
structure Fs.Suits (fs : Fs) (listed : List (List Char)) : Prop where
  nodup : listed.Nodup
  normal : ∀ p ∈ listed, fs.access (String.ofList p) = false → Normal p
  order : listed.Pairwise fun q p =>
    fs.access (String.ofList q) = false → fs.access (String.ofList p) = true →
      ∀ d, Waits (fun p => fs.access (String.ofList p)) q d →
        fs.inotifyAddWatch (String.ofList (pathGetDirname p)) ≠
          fs.inotifyAddWatch (String.ofList d)

/-- An event the callback can deal with. If it is about a directory that something is
waited for in, then that directory is not listed itself, nothing in it that exists
by now is a directory of the same kind, and none of it stands in its row behind
something that does not exist. -/
def WatchInfo.Clear (listed : List (List Char)) (access : List Char → Bool) (info : WatchInfo)
    (wd : ℕ) (name : List Char) : Prop :=
  ∀ dir ∈ info.wdTable.lookup wd, ∀ files ∈ info.dirTable.lookup dir, name ∈ files →
    ∀ pending ∈ info.dirTable.lookup (buildFilename dir name),
      buildFilename dir name ∉ listed ∧
        (∀ n ∈ pending, access (buildFilename (buildFilename dir name) n) = true →
          buildFilename (buildFilename dir name) n ∉ Table.keys info.dirTable) ∧
        pending.Pairwise fun n m =>
          access (buildFilename (buildFilename dir name) m) = true →
            access (buildFilename (buildFilename dir name) n) = true

instance (listed : List (List Char)) (access : List Char → Bool) (info : WatchInfo) (wd : ℕ)
    (name : List Char) : Decidable (info.Clear listed access wd name) := by
  unfold WatchInfo.Clear
  infer_instance

/-- A step whose event, if it reads one, the callback can deal with. -/
def Watcher.Clear (listed : List (List Char)) (s : Watcher) : WatchStep → Prop
  | .read _ => ∀ info ∈ s.source, ∀ e ∈ s.queue.head?, info.Clear listed s.access e.1 e.2
  | _ => True

instance (listed : List (List Char)) (s : Watcher) : ∀ st, Decidable (s.Clear listed st)
  | .read _ => inferInstanceAs
    (Decidable (∀ info ∈ s.source, ∀ e ∈ s.queue.head?, info.Clear listed s.access e.1 e.2))
  | .create _ _ _ => isTrue trivial
  | .ignored => isTrue trivial

end Tlm
