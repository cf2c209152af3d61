import Mathlib.Data.List.TakeWhile

/-!
# Waiting for files (`tlm-utils.c`)

`tlm_utils_watch_for_files` is given a `NULL`-terminated list of paths and
reports each of them through a callback as soon as it exists, the last one
flagged as final. A path that exists already is reported **synchronously**,
before the function returns; only the others are left to the inotify source.
This module is that first scan, with the table it leaves behind.

The file system is an input (`Fs`): what exists, and which directories inotify
can watch.
-/

namespace Tlm

/-- Paths and names are compared character by character. -/
instance lawfulBEqPath : LawfulBEq (List Char) := inferInstance

/-- The answers of the system while paths are scanned. -/
structure Fs where
  /-- `inotify_init1` succeeded -/
  inotifyInit : Bool := true
  /-- `g_access (path, 0) == 0` -/
  access : String → Bool := fun _ => false
  /-- `inotify_add_watch`; `none` is `-1` -/
  inotifyAddWatch : String → Option ℕ := fun _ => some 1
  /-- `g_getenv` -/
  getenv : String → Option String := fun _ => none

/-! ## Paths -/

/-- `g_path_get_basename`. -/
def pathGetBasename (path : List Char) : List Char :=
  if path = [] then ['.']
  else match path.reverse.dropWhile (· = '/') with
    | [] => ['/']
    | rest => (rest.takeWhile (· ≠ '/')).reverse

/-- `g_path_get_dirname`. -/
def pathGetDirname (path : List Char) : List Char :=
  match path.reverse.dropWhile (· ≠ '/') with
  | [] => ['.']
  | upToSlash => match upToSlash.dropWhile (· = '/') with
    | [] => ['/']
    | rest => rest.reverse

/-- `g_strsplit (path, "/", -1)`, for a path that is not empty. -/
def splitPath : List Char → List (List Char)
  | [] => [[]]
  | '/' :: rest => [] :: splitPath rest
  | c :: rest => match splitPath rest with
    | [] => [[c]]
    | item :: items => (c :: item) :: items

/-- `_expand_file_path`: components that start with `$` are environment
variables. -/
def expandFilePath (fs : Fs) (path : List Char) : List Char :=
  if '$' ∈ path then
    List.intercalate ['/'] <| (splitPath path).map fun item =>
      match item with
      | '$' :: name => ((fs.getenv (String.ofList name)).getD "").toList
      | _ => item
  else path

/-! ## The scan -/

/-- `AddWatchResults`. -/
inductive AddWatchResult : Type where
  | failed
  | added
  | ready
  deriving DecidableEq, Repr

/-- `WatchInfo`. -/
structure WatchInfo where
  /-- `dir_table`: the file names awaited in a directory -/
  dirTable : List (List Char × List (List Char)) := []
  /-- `wd_table`: the directory of a watch descriptor -/
  wdTable : List (ℕ × List Char) := []
  deriving DecidableEq, Repr

/-- `_add_watch`: watch the directory of a path, or the nearest ancestor that
exists. Each level of the recursion is paid for with `fuel`. -/
def addWatch (fs : Fs) : ℕ → List Char → WatchInfo → WatchInfo × AddWatchResult
  | 0, _, info => (info, .failed)
  | fuel + 1, path, info =>
    let fileName := pathGetBasename path
    let dir := pathGetDirname path
    match info.dirTable.lookup dir with
    | some files =>
      ({ info with dirTable := info.dirTable.map fun p =>
          if p.1 = dir then (dir, files ++ [fileName]) else p }, .added)
    | none =>
      let waiting := { info with dirTable := info.dirTable ++ [(dir, [fileName])] }
      if !fs.access (String.ofList dir) then addWatch fs fuel dir waiting
      else match fs.inotifyAddWatch (String.ofList dir) with
        | none => (info, .failed)
        | some wd =>
          if fs.access (String.ofList path) then (info, .ready)
          else
            -- a descriptor that is a key already gets the new directory
            let others := waiting.wdTable.filter fun e => e.1 ≠ wd
            ({ waiting with wdTable := others ++ [(wd, dir)] }, .added)

/-- A call of the callback: the item, and whether it is the final one. -/
structure Notice where
  /-- `watch_item` -/
  item : List Char
  /-- `is_final` -/
  isFinal : Bool
  deriving DecidableEq, Repr

/-- The loop of `tlm_utils_watch_for_files`, with the number of paths watched
so far. The list ends at its first `NULL`. -/
def scan (fs : Fs) : List (Option String) → ℕ → WatchInfo → List Notice × ℕ × WatchInfo
  | [], nwatch, info => ([], nwatch, info)
  | none :: _, nwatch, info => ([], nwatch, info)
  | some item :: rest, nwatch, info =>
    let path := expandFilePath fs item.toList
    match addWatch fs (path.length + 2) path info with
    | (info, .failed) => scan fs rest nwatch info
    | (info, .added) => scan fs rest (nwatch + 1) info
    | (info, .ready) =>
      let last := match rest with
        | some _ :: _ => false
        | _ => true
      let (notices, n, info) := scan fs rest nwatch info
      (⟨path, nwatch == 0 && last⟩ :: notices, n, info)

/-- `tlm_utils_watch_for_files`: the callbacks it makes before it returns, and
the watches left to the inotify source, if any. -/
def watchForFiles (fs : Fs) (items : List (Option String)) : List Notice × Option WatchInfo :=
  if fs.inotifyInit then
    let (notices, nwatch, info) := scan fs items 0 {}
    (notices, if nwatch = 0 then none else some info)
  else ([], none)

/-! ## Enough fuel -/

/-- Going to the parent directory makes a path shorter, until the path is `.` or
`/`. -/
theorem pathGetDirname_cases (path : List Char) :
    pathGetDirname path = ['.'] ∨ pathGetDirname path = ['/'] ∨
      (pathGetDirname path).length < path.length := by
  simp only [pathGetDirname]
  rcases hd : path.reverse.dropWhile (· ≠ '/') with _ | ⟨c, cs⟩
  · exact Or.inl rfl
  · apply Or.inr
    have hlen : (c :: cs).length ≤ path.length := by
      rw [← hd, ← path.length_reverse]
      exact List.length_dropWhile_le _ _
    have hc : c = '/' := by
      have h := List.head?_dropWhile_not (fun x => decide (x ≠ '/')) path.reverse
      rw [hd] at h
      simpa using h
    have hskip : ('/' :: cs).dropWhile (· = '/') = cs.dropWhile (· = '/') :=
      List.dropWhile_cons_of_pos (by simp)
    rw [hc]
    simp only [hskip]
    rcases hrest : cs.dropWhile (· = '/') with _ | ⟨x, xs⟩
    · exact Or.inl rfl
    · apply Or.inr
      have hle : (x :: xs).length ≤ cs.length := by
        rw [← hrest]
        exact List.length_dropWhile_le _ _
      simp only [List.length_reverse]
      simp only [List.length_cons] at hlen hle ⊢
      omega

/-- The fuel of `addWatch` suffices: one level for each directory above the path,
and one to find that the topmost directory is already waited for. -/
theorem addWatch_fuel (fs : Fs) {fuel : ℕ} {path : List Char} (h : path.length + 2 ≤ fuel)
    (info : WatchInfo) : addWatch fs (fuel + 1) path info = addWatch fs fuel path info := by
  induction fuel generalizing path info with
  | zero => omega
  | succ fuel ih =>
    obtain ⟨fuel, rfl⟩ : ∃ n, fuel = n + 1 := ⟨fuel - 1, by omega⟩
    have hstop : ∀ dir files, pathGetDirname dir = dir → info.dirTable.lookup dir = none →
        addWatch fs (fuel + 1 + 1) dir
          { info with dirTable := info.dirTable ++ [(dir, files)] } =
        addWatch fs (fuel + 1) dir { info with dirTable := info.dirTable ++ [(dir, files)] } := by
      intro dir files hdir hnone
      have hsome : (info.dirTable ++ [(dir, files)]).lookup dir = some files := by
        simp [List.lookup_append, hnone]
      simp only [addWatch]
      simp only [hdir, hsome]
    have hup : ∀ files, info.dirTable.lookup (pathGetDirname path) = none →
        addWatch fs (fuel + 1 + 1) (pathGetDirname path)
          { info with dirTable := info.dirTable ++ [(pathGetDirname path, files)] } =
        addWatch fs (fuel + 1) (pathGetDirname path)
          { info with dirTable := info.dirTable ++ [(pathGetDirname path, files)] } := by
      intro files hnone
      rcases pathGetDirname_cases path with hdir | hdir | hdir
      · rw [hdir] at hnone ⊢
        exact hstop _ files rfl hnone
      · rw [hdir] at hnone ⊢
        exact hstop _ files rfl hnone
      · exact ih (by omega) _
    rw [addWatch, addWatch]
    rcases hl : info.dirTable.lookup (pathGetDirname path) with _ | files
    · simp only [hup _ hl]
    · rfl

/-! ## When the last item is there already -/

/-- Nothing has to be waited for, and the last item exists: every item is there
or cannot be watched. -/
def endsReady (fs : Fs) : List (Option String) → WatchInfo → Bool
  | some item :: rest, info =>
    let path := expandFilePath fs item.toList
    match addWatch fs (path.length + 2) path info with
    | (_, .added) => false
    | (info, .failed) => endsReady fs rest info
    | (info, .ready) => match rest with
      | some _ :: _ => endsReady fs rest info
      | _ => true
  | _, _ => false

/-- Once something is waited for, no callback of the scan is final. -/
theorem scan_waiting (fs : Fs) (items : List (Option String)) (nwatch : ℕ) (info : WatchInfo) :
    (scan fs items (nwatch + 1) info).1.any (·.isFinal) = false := by
  induction items generalizing nwatch info with
  | nil => rfl
  | cons item rest ih =>
    rcases item with _ | item
    · rfl
    · simp only [scan]
      rcases hw : addWatch fs ((expandFilePath fs item.toList).length + 2)
        (expandFilePath fs item.toList) info with ⟨info', _ | _ | _⟩
      · simpa [hw] using ih nwatch info'
      · simpa [hw] using ih (nwatch + 1) info'
      · simpa [hw] using ih nwatch info'

/-- A scan makes a final callback just when it ends ready. -/
theorem scan_final (fs : Fs) (items : List (Option String)) (info : WatchInfo) :
    (scan fs items 0 info).1.any (·.isFinal) = endsReady fs items info := by
  induction items generalizing info with
  | nil => rfl
  | cons item rest ih =>
    rcases item with _ | item
    · rfl
    · simp only [scan, endsReady]
      rcases hw : addWatch fs ((expandFilePath fs item.toList).length + 2)
        (expandFilePath fs item.toList) info with ⟨info', _ | _ | _⟩
      · simpa [hw] using ih info'
      · simpa [hw] using scan_waiting fs rest 0 info'
      · -- the item is there; whether its callback is final depends on what follows it
        rcases rest with _ | ⟨_ | next, rest⟩
        · simp
        · simp
        · simpa [hw] using ih info'

/-- The same for the whole function. -/
theorem watchForFiles_final (fs : Fs) (items : List (Option String)) :
    (watchForFiles fs items).1.any (·.isFinal) = (fs.inotifyInit && endsReady fs items {}) := by
  simp only [watchForFiles]
  cases fs.inotifyInit with
  | true => exact scan_final fs items {}
  | false => rfl

end Tlm
