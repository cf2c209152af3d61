import Mathlib.Dynamics.FixedPoints.Basic
import Tlm.Table
import Tlm.Watch

/-!
# Climbing to a directory that exists (`_add_watch`)

`_add_watch` calls itself on the directory of its path for as long as that directory
does not exist. The path gets shorter only until it is `.` or `/`, and nothing says
that these exist. What ends the recursion there is `dir_table`: one level up has put
the directory into it, and a directory that is in it already is not climbed from.

So the recursion is followed here with no bound on its depth but the fuel, no result
at all when the fuel is gone, any function for `g_path_get_dirname`, and any content of
`dir_table`, down to rows of an empty list, which `g_hash_table_lookup` cannot tell from
no row. `addWatchIn_terminates` is the result, and `addWatchIn_eq` says that this is the
`addWatch` of the scan.
-/

namespace Tlm

/-! ## Going up until nothing changes -/

section

variable {α : Type} {up : α → α} {P : α → Prop}

/-- **Induction on a climb**: what holds at a fixed point, and comes down one step, holds
wherever the climb reaches a fixed point. -/
theorem climb_induction (hfix : ∀ x, Function.IsFixedPt up x → P x)
    (hdown : ∀ x, P (up x) → P x) {x : α} (h : ∃ n, Function.IsFixedPt up (up^[n] x)) :
    P x := by
  obtain ⟨n, hn⟩ := h
  induction n generalizing x with
  | zero => exact hfix x hn
  | succ n ih =>
    rw [Function.iterate_succ_apply] at hn
    exact hdown x (ih hn)

/-- A climb that gets smaller at each step outside a fixed point reaches one. -/
theorem exists_isFixedPt_iterate (size : α → ℕ)
    (h : ∀ x, Function.IsFixedPt up (up x) ∨ size (up x) < size x) (x : α) :
    ∃ n, Function.IsFixedPt up (up^[n] x) := by
  induction hsize : size x using Nat.strong_induction_on generalizing x with
  | _ s ih =>
    obtain hfix | hlt := h x
    · exact ⟨1, hfix⟩
    · obtain ⟨n, hn⟩ := ih _ (hsize ▸ hlt) (up x) rfl
      exact ⟨n + 1, hn⟩

end

/-! ## The recursion -/

/-- The rows of `dir_table`; `g_hash_table_lookup` answers `NULL` for a directory without a
row and for one with an empty list. -/
def lookupFiles (dirTable : List (List Char × List (List Char))) (dir : List Char) :
    Option (List (List Char)) :=
  match dirTable.lookup dir with
  | some [] => none
  | files => files

/-- `g_hash_table_insert` into `dir_table`: a row that is there gets the new list. -/
def insertFiles (dirTable : List (List Char × List (List Char))) (dir : List Char)
    (files : List (List Char)) : List (List Char × List (List Char)) :=
  if dirTable.lookup dir = none then dirTable ++ [(dir, files)]
  else dirTable.map fun p => if p.1 = dir then (dir, files) else p

/-- `_add_watch`, over the functions that take a path apart. `none` is a recursion that is
not at its end. -/
def addWatchIn (dirname basename : List Char → List Char) (fs : Fs) :
    ℕ → List Char → WatchInfo → Option (WatchInfo × AddWatchResult)
  | 0, _, _ => none
  | fuel + 1, path, info =>
    let fileName := basename path
    let dir := dirname path
    match lookupFiles info.dirTable dir with
    | some files =>
      some ({ info with dirTable := insertFiles info.dirTable dir (files ++ [fileName]) }, .added)
    | none =>
      let waiting := { info with dirTable := insertFiles info.dirTable dir [fileName] }
      if !fs.access (String.ofList dir) then addWatchIn dirname basename fs fuel dir waiting
      else match fs.inotifyAddWatch (String.ofList dir) with
        | none =>
          some ({ waiting with dirTable := waiting.dirTable.filter fun p => p.1 ≠ dir }, .failed)
        | some wd =>
          if fs.access (String.ofList path) then
            some ({ waiting with dirTable := waiting.dirTable.filter fun p => p.1 ≠ dir }, .ready)
          else
            let others := waiting.wdTable.filter fun e => e.1 ≠ wd
            some ({ waiting with wdTable := others ++ [(wd, dir)] }, .added)

/-! ## It ends -/

section

variable {dirname basename : List Char → List Char} {fs : Fs}
  {dirTable : List (List Char × List (List Char))} {dir : List Char}

/-- What has been inserted is found, whatever the table. -/
theorem lookupFiles_insertFiles (dirTable : List (List Char × List (List Char)))
    (dir file : List Char) :
    lookupFiles (insertFiles dirTable dir [file]) dir = some [file] := by
  have hrow : (insertFiles dirTable dir [file]).lookup dir = some [file] := by
    rw [insertFiles]
    split
    case isTrue hnone => simp [List.lookup_append, hnone]
    case isFalse hsome =>
      induction dirTable with
      | nil => exact absurd rfl hsome
      | cons row rest ih =>
        obtain ⟨key, files⟩ := row
        by_cases hkey : key = dir
        · simp [hkey]
        · have hne : (dir == key) = false := by simpa using fun h => hkey h.symm
          simp only [List.lookup_cons, hne] at hsome
          simpa [hkey, List.lookup_cons, hne] using ih hsome
  rw [lookupFiles, hrow]

/-- One level of the recursion: it ends here, or goes on one directory up, from a table
in which that directory is. -/
theorem addWatchIn_succ (dirname basename : List Char → List Char) (fs : Fs) (path : List Char)
    (info : WatchInfo) :
    (∃ result, ∀ n, addWatchIn dirname basename fs (n + 1) path info = some result) ∨
      ∃ info', lookupFiles info'.dirTable (dirname path) = some [basename path] ∧
        ∀ n, addWatchIn dirname basename fs (n + 1) path info =
          addWatchIn dirname basename fs n (dirname path) info' := by
  simp only [addWatchIn]
  cases lookupFiles info.dirTable (dirname path) with
  | some files => exact .inl ⟨_, fun _ => rfl⟩
  | none =>
    cases fs.access (String.ofList (dirname path)) with
    | false => exact .inr ⟨_, lookupFiles_insertFiles info.dirTable _ _, fun _ => rfl⟩
    | true =>
      -- the directory exists, so the call ends, one way or another
      refine .inl ?_
      simp only [Bool.not_true, Bool.false_eq_true, if_false]
      cases fs.inotifyAddWatch (String.ofList (dirname path)) with
      | none => exact ⟨_, fun _ => rfl⟩
      | some wd =>
        cases fs.access (String.ofList path) with
        | false => exact ⟨_, fun _ => rfl⟩
        | true => exact ⟨_, fun _ => rfl⟩

/-- A directory that is in the table is not climbed from. -/
theorem addWatchIn_of_lookup (basename : List Char → List Char) (fs : Fs) {path : List Char}
    {info : WatchInfo} {files : List (List Char)}
    (h : lookupFiles info.dirTable (dirname path) = some files) :
    ∃ result, ∀ n, addWatchIn dirname basename fs (n + 1) path info = some result := by
  simp only [addWatchIn, h]
  exact ⟨_, fun _ => rfl⟩

/-- The recursion ends on a path whose climb does. -/
theorem addWatchIn_of_climb {dirname : List Char → List Char} (basename : List Char → List Char)
    (fs : Fs) {path : List Char} (hpath : ∃ n, Function.IsFixedPt dirname (dirname^[n] path))
    (info : WatchInfo) :
    ∃ result n, ∀ fuel ≥ n, addWatchIn dirname basename fs fuel path info = some result := by
  refine climb_induction (P := fun path => ∀ info, ∃ result n, ∀ fuel ≥ n,
    addWatchIn dirname basename fs fuel path info = some result) ?_ ?_ hpath info
  · intro path hpath info
    obtain ⟨result, hend⟩ | ⟨info', hrow, hup⟩ := addWatchIn_succ dirname basename fs path info
    · refine ⟨result, 1, fun fuel hfuel => ?_⟩
      obtain ⟨n, rfl⟩ := Nat.exists_eq_add_of_le' hfuel
      exact hend n
    · -- the path is its own directory, which this level has put into the table
      have hrow' : lookupFiles info'.dirTable (dirname (dirname path)) = some [basename path] :=
        (congrArg _ (congrArg dirname hpath)).trans hrow
      obtain ⟨result, hend⟩ := addWatchIn_of_lookup basename fs hrow'
      refine ⟨result, 2, fun fuel hfuel => ?_⟩
      obtain ⟨n, rfl⟩ := Nat.exists_eq_add_of_le' hfuel
      exact (hup (n + 1)).trans (hend n)
  · intro path ih info
    obtain ⟨result, hend⟩ | ⟨info', -, hup⟩ := addWatchIn_succ dirname basename fs path info
    · refine ⟨result, 1, fun fuel hfuel => ?_⟩
      obtain ⟨n, rfl⟩ := Nat.exists_eq_add_of_le' hfuel
      exact hend n
    · obtain ⟨result, n, hresult⟩ := ih info'
      refine ⟨result, n + 1, fun fuel hfuel => ?_⟩
      obtain ⟨k, rfl⟩ := Nat.exists_eq_add_of_le' hfuel
      rw [← Nat.add_assoc, hup]
      exact hresult (k + n) (by omega)

/-- **The recursion ends**, for every path, table and file system, as soon as going to the
parent directory comes to a path that is its own parent. That path need not exist. -/
theorem addWatchIn_terminates (dirname basename : List Char → List Char)
    (hdirname : ∀ path, ∃ n, Function.IsFixedPt dirname (dirname^[n] path)) (fs : Fs)
    (path : List Char) (info : WatchInfo) :
    ∃ result n, ∀ fuel ≥ n, addWatchIn dirname basename fs fuel path info = some result :=
  addWatchIn_of_climb basename fs (hdirname path) info

end

/-! ## With `g_path_get_dirname` -/

/-- `.` and `/` are where going to the parent directory stays. -/
theorem exists_isFixedPt_pathGetDirname (path : List Char) :
    ∃ n, Function.IsFixedPt pathGetDirname (pathGetDirname^[n] path) := by
  refine exists_isFixedPt_iterate List.length (fun path => ?_) path
  obtain hdot | hroot | hlt := pathGetDirname_cases path
  · rw [hdot]
    exact .inl rfl
  · rw [hroot]
    exact .inl rfl
  · exact .inr hlt

/-- In an empty directory that is gone: `a//b` is waited for in `a`, which is waited for in
`.`, which is waited for in `.`. -/
theorem addWatchIn_terminates_nowhere :
    ∃ result n, ∀ fuel ≥ n,
      addWatchIn pathGetDirname pathGetBasename { access := fun _ => false } fuel
        "a//b/".toList {} = some result :=
  addWatchIn_terminates pathGetDirname pathGetBasename exists_isFixedPt_pathGetDirname
    { access := fun _ => false } "a//b/".toList {}

/-! ## The scan's `addWatch` -/

section

variable {fs : Fs}

/-- No row of `dir_table` has an empty list. -/
def NoEmptyRow (info : WatchInfo) : Prop := ∀ row ∈ info.dirTable, row.2 ≠ []

/-- Without empty rows the two ways to look a directory up agree. -/
theorem lookupFiles_eq_lookup {info : WatchInfo} (h : NoEmptyRow info) (dir : List Char) :
    lookupFiles info.dirTable dir = info.dirTable.lookup dir := by
  rw [lookupFiles]
  split
  case h_1 hempty => exact absurd rfl (h _ (Table.mem_of_lookup hempty))
  case h_2 => rfl

/-- A row that is not empty is put in. -/
theorem NoEmptyRow.insertFiles {info : WatchInfo} (h : NoEmptyRow info) (dir file : List Char)
    (files : List (List Char)) :
    NoEmptyRow { info with dirTable := insertFiles info.dirTable dir (files ++ [file]) } := by
  intro row hrow
  simp only [Tlm.insertFiles] at hrow
  split at hrow
  case isTrue =>
    obtain hrow | hrow := List.mem_append.mp hrow
    · exact h row hrow
    · rw [List.mem_singleton.mp hrow]
      simp
  case isFalse =>
    obtain ⟨row', hrow', rfl⟩ := List.mem_map.mp hrow
    split
    case isTrue => simp
    case isFalse => exact h row' hrow'

/-- Taking a row out again that was not there. -/
theorem filter_insertFiles {files : List (List Char)} (h : dirTable.lookup dir = none) :
    (insertFiles dirTable dir files).filter (fun p => p.1 ≠ dir) = dirTable := by
  rw [insertFiles, if_pos h, List.filter_append]
  have hkeep : dirTable.filter (fun p => p.1 ≠ dir) = dirTable := by
    refine List.filter_eq_self.mpr fun row hrow => ?_
    exact decide_eq_true (Table.ne_of_notMem (Table.lookup_eq_none.mp h) hrow)
  rw [hkeep]
  simp

/-- **The recursion is the scan's `addWatch`**, when it ends. -/
theorem addWatch_of_addWatchIn {fuel : ℕ} {path : List Char} {info : WatchInfo}
    {result : WatchInfo × AddWatchResult} (h : NoEmptyRow info)
    (hend : addWatchIn pathGetDirname pathGetBasename fs fuel path info = some result) :
    addWatch fs fuel path info = result := by
  induction fuel generalizing path info with
  | zero => exact absurd hend (by simp [addWatchIn])
  | succ fuel ih =>
    simp only [addWatchIn, lookupFiles_eq_lookup h] at hend
    rw [addWatch]
    cases hrow : info.dirTable.lookup (pathGetDirname path) with
    | some files =>
      simp only [hrow, insertFiles, reduceCtorEq, if_false, Option.some.injEq] at hend
      exact hend
    | none =>
      have hput := h.insertFiles (pathGetDirname path) (pathGetBasename path) []
      have hinsert : ∀ files, insertFiles info.dirTable (pathGetDirname path) files =
          info.dirTable ++ [(pathGetDirname path, files)] := fun files => if_pos hrow
      simp only [hrow, filter_insertFiles hrow] at hend
      simp only [hinsert, List.nil_append] at hend hput ⊢
      cases haccess : fs.access (String.ofList (pathGetDirname path)) with
      | false =>
        simp only [haccess, Bool.not_false, if_true] at hend ⊢
        exact ih hput hend
      | true =>
        simp only [haccess, Bool.not_true, Bool.false_eq_true, if_false] at hend ⊢
        cases hwd : fs.inotifyAddWatch (String.ofList (pathGetDirname path)) with
        | none =>
          simp only [hwd, Option.some.injEq] at hend
          exact hend
        | some wd =>
          cases hpath : fs.access (String.ofList path) with
          | false => simpa [hwd, hpath] using hend
          | true => simpa [hwd, hpath] using hend

/-- The fuel the scan gives is enough. -/
theorem addWatchIn_eq (fs : Fs) {info : WatchInfo} (h : NoEmptyRow info) (path : List Char) :
    ∃ n, ∀ fuel ≥ n, addWatchIn pathGetDirname pathGetBasename fs fuel path info =
      some (addWatch fs (path.length + 2) path info) := by
  obtain ⟨result, n, hend⟩ :=
    addWatchIn_of_climb pathGetBasename fs (exists_isFixedPt_pathGetDirname path) info
  have hstable : ∀ k, addWatch fs (path.length + 2 + k) path info =
      addWatch fs (path.length + 2) path info := by
    intro k
    induction k with
    | zero => rfl
    | succ k ih => rw [← Nat.add_assoc, addWatch_fuel fs (Nat.le_add_right _ k), ih]
  refine ⟨n, fun fuel hfuel => ?_⟩
  rw [hend fuel hfuel, ← hstable n]
  exact congrArg some (addWatch_of_addWatchIn h (hend _ (Nat.le_add_left _ _))).symm

end

end Tlm
