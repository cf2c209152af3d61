import Tlm.FileTree

/-!
# Deleting a directory (`tlm-utils.c`)

`tlm_utils_delete_dir` runs as root on runtime directories. It opens the directory,
looks at each entry with `lstat`, recurses into what **is** a directory and removes
everything else, and then removes the directory itself. It gives up at the first
failure, and any call may fail at any time.

What keeps it inside the directory is that `lstat` does not follow a link: a path that
it recurses into names a directory, so the paths built from it stay below that
directory. The tree only shrinks on the way, and so does what paths lead to; a path
that led into the directory at the beginning still does, or leads nowhere
(`deletes`, by induction on the depth, and `deleteDir_spec`).
-/

namespace Tlm

open FileTree

/-- The file system calls: which of them fail, counted from the start, and how many steps
the walk along a path may take. -/
structure FileCalls where
  /-- does this call fail? -/
  fails : ℕ → Bool
  /-- the limit for a path -/
  steps : ℕ

/-- The file tree, and how many calls have been made. -/
structure FileState where
  /-- the tree -/
  tree : FileTree
  /-- the calls made -/
  calls : ℕ := 0

namespace FileCalls

variable (c : FileCalls)

/-- One more call, with what it did to the tree. -/
def called (s : FileState) (tree : FileTree) : FileState := ⟨tree, s.calls + 1⟩

/-- `g_dir_open`, and the names `g_dir_read_name` will give. -/
def gDirOpen (path : List String) (s : FileState) : Option (List String) × FileState :=
  if c.fails s.calls then (none, called s s.tree)
  else
    let names := (s.tree.walk c.steps [] path).bind fun p =>
      if s.tree.kind p = some .dir then some (s.tree.children p) else none
    (names, called s s.tree)

/-- `lstat`: what the path names, `none` for `-1`. -/
def lstat (path : List String) (s : FileState) : Option Kind × FileState :=
  if c.fails s.calls then (none, called s s.tree)
  else ((s.tree.locate c.steps path).bind s.tree.kind, called s s.tree)

/-- `g_remove`: whether it returned zero. A directory goes only when it is empty, and one
that is called `.` or `..`, or the root, does not go; below anything else there is
nothing. -/
def gRemove (path : List String) (s : FileState) : Bool × FileState :=
  if c.fails s.calls || !path.getLast?.any fun n => IsName n then (false, called s s.tree)
  else match s.tree.locate c.steps path with
    | none => (false, called s s.tree)
    | some p =>
      if h : s.tree.hasChild p = false then
        if (s.tree.kind p).isSome ∧ p ≠ [] then (true, called s (s.tree.erase p h))
        else (false, called s s.tree)
      else (false, called s s.tree)

/-- What the loop does with one entry, and whether `retval` is zero then; `deleteDir` is
the recursive call. -/
def deleteEntry (deleteDir : List String → FileState → Option (Bool × FileState))
    (filepath : List String) (s : FileState) : Option (Bool × FileState) :=
  match c.lstat filepath s with
  | (none, s) => some (false, s)
  | (some kind, s) => if kind = .dir then deleteDir filepath s else some (c.gRemove filepath s)

/-- The loop over the entries: whether it comes to its end. -/
def deleteEntries (deleteDir : List String → FileState → Option (Bool × FileState))
    (dir : List String) : List String → FileState → Option (Bool × FileState)
  | [], s => some (true, s)
  | fname :: rest, s =>
    if fname = "." ∨ fname = ".." then deleteEntries deleteDir dir rest s
    else (c.deleteEntry deleteDir (dir ++ [fname]) s).bind fun (ok, s) =>
      if ok then deleteEntries deleteDir dir rest s else some (false, s)

/-- `tlm_utils_delete_dir`, `none` when the recursion is deeper than allowed. -/
def deleteDir : ℕ → List String → FileState → Option (Bool × FileState)
  | 0, _, _ => none
  | depth + 1, dir, s =>
    match c.gDirOpen dir s with
    | (none, s) => some (false, s)
    | (some names, s) => (c.deleteEntries (deleteDir depth) dir names s).bind fun (ok, s) =>
        if ok then some (c.gRemove dir s) else some (false, s)

/-! ## The calls -/

variable {c} {s : FileState} {path : List String}

theorem gDirOpen_tree : (c.gDirOpen path s).2.tree = s.tree := by
  unfold gDirOpen
  split <;> rfl

theorem lstat_tree : (c.lstat path s).2.tree = s.tree := by
  unfold lstat
  split <;> rfl

theorem locate_of_lstat {k : Kind} (h : (c.lstat path s).1 = some k) :
    ∃ p, s.tree.locate c.steps path = some p ∧ s.tree.kind p = some k := by
  unfold lstat at h
  split at h
  · exact absurd h (by simp)
  · exact Option.bind_eq_some_iff.mp h

/-- A removal fails and changes nothing, or takes away the place the path names, below
which there was nothing. -/
theorem gRemove_cases (c : FileCalls) (path : List String) (s : FileState) :
    ((c.gRemove path s).1 = false ∧ (c.gRemove path s).2.tree = s.tree) ∨
      ∃ p h, s.tree.locate c.steps path = some p ∧ p ≠ [] ∧ (c.gRemove path s).1 = true ∧
        (c.gRemove path s).2.tree = s.tree.erase p h := by
  unfold gRemove
  split
  · exact .inl ⟨rfl, rfl⟩
  · cases hloc : s.tree.locate c.steps path with
    | none => exact .inl ⟨rfl, rfl⟩
    | some p =>
      dsimp only
      split
      next h =>
        split
        next hp => exact .inr ⟨p, h, rfl, hp.2, rfl, rfl⟩
        next => exact .inl ⟨rfl, rfl⟩
      next => exact .inl ⟨rfl, rfl⟩

/-! ## What a deletion does -/

/-- What deleting the directory at `p` may have done: nothing outside it, all of it or not
the directory itself. -/
structure Outcome (p : Place) (t : FileTree) (ok : Bool) (t' : FileTree) : Prop where
  le : t'.Le t
  outside : ∀ q, ¬p <+: q → t'.kind q = t.kind q
  gone : ok = true → ∀ q, p <+: q → t'.kind q = none
  kept : ok = false → t'.kind p = some .dir

/-- What the loop over the entries of `p` may have done: nothing but strictly below. -/
structure Inside (p : Place) (t t' : FileTree) : Prop where
  le : t'.Le t
  same : ∀ q, (p <+: q → q = p) → t'.kind q = t.kind q

theorem Inside.refl (p : Place) (t : FileTree) : Inside p t t := ⟨.refl t, fun _ _ => rfl⟩

theorem Inside.trans {p : Place} {t t' t'' : FileTree} (h : Inside p t t') (h' : Inside p t' t'') :
    Inside p t t'' :=
  ⟨h'.le.trans h.le, fun q hq => (h'.same q hq).trans (h.same q hq)⟩

/-- Whatever happens from an entry on happens strictly below the directory. -/
theorem Inside.of_child {p : Place} {n : String} {t t' : FileTree} (hle : t'.Le t)
    (h : ∀ q, ¬p ++ [n] <+: q → t'.kind q = t.kind q) : Inside p t t' := by
  refine ⟨hle, fun q hq => h q ?_⟩
  intro hchild
  have hlt := hchild.length_le
  rw [hq ((List.prefix_append p [n]).trans hchild), List.length_append] at hlt
  exact absurd hlt (Nat.not_succ_le_self _)

/-- A path to an entry, in a tree that has shrunk: its place is one below the directory's. -/
theorem locate_entry {p r : Place} {dir : List String} {n : String} {t t' : FileTree}
    (hloc : t.locate c.steps dir = some p) (hdir : t.kind p = some .dir) (hle : t'.Le t)
    (hn : IsName n) (h : t'.locate c.steps (dir ++ [n]) = some r) : r = p ++ [n] := by
  rw [locate_concat hn] at h
  obtain ⟨q, hq, rfl⟩ := Option.map_eq_some_iff.mp h
  rw [walk_eq_of_locate hloc hdir (walk_of_le hle hq)]

/-- Removing an entry happens strictly below the directory. -/
theorem inside_gRemove {p : Place} {dir : List String} {n : String} {t : FileTree}
    (hloc : t.locate c.steps dir = some p) (hdir : t.kind p = some .dir) (hle : s.tree.Le t)
    (hn : IsName n) : Inside p s.tree (c.gRemove (dir ++ [n]) s).2.tree := by
  obtain ⟨-, hsame⟩ | ⟨r, h, hr, hne, -, htree⟩ := gRemove_cases c (dir ++ [n]) s
  · rw [hsame]
    exact .refl p s.tree
  · obtain rfl := locate_entry hloc hdir hle hn hr
    rw [htree]
    apply Inside.of_child (erase_le hne h)
    intro q hq
    rw [kind_erase hne, if_neg]
    rintro rfl
    exact hq (List.prefix_refl _)

/-- No place of the tree is deeper than `bound`. -/
def Shallow (bound : ℕ) (t : FileTree) : Prop := ∀ p k, t.kind p = some k → p.length ≤ bound

theorem Shallow.of_le {bound : ℕ} {t t' : FileTree} (h : Shallow bound t) (hle : t'.Le t) :
    Shallow bound t' :=
  fun p k hk => h p k (hle p k hk)

/-- A deletion that may recurse `depth` deep returns, and does what it should, for every
directory above that depth. -/
def Deletes (c : FileCalls) (bound depth : ℕ) : Prop :=
  ∀ path s p, s.tree.locate c.steps path = some p → s.tree.kind p = some .dir →
    Shallow bound s.tree → bound < depth + p.length →
    ∃ ok s', c.deleteDir depth path s = some (ok, s') ∧ Outcome p s.tree ok s'.tree

section

variable {bound depth : ℕ} {p : Place} {dir : List String} {t : FileTree}

/-- One entry: the call returns, and what it does is strictly below the directory. The
tree `t` is the one the directory was opened in, and has shrunk since. -/
theorem deleteEntry_spec (hrec : c.Deletes bound depth) (hloc : t.locate c.steps dir = some p)
    (hdir : t.kind p = some .dir) (hbound : Shallow bound t)
    (hdepth : bound < depth + (p.length + 1)) {n : String} (hn : IsName n) (hle : s.tree.Le t) :
    ∃ ok s', c.deleteEntry (c.deleteDir depth) (dir ++ [n]) s = some (ok, s') ∧
      Inside p s.tree s'.tree := by
  have htree : (c.lstat (dir ++ [n]) s).2.tree = s.tree := lstat_tree
  unfold deleteEntry
  rcases hlstat : c.lstat (dir ++ [n]) s with ⟨found, s₁⟩
  rw [hlstat] at htree
  dsimp only at htree
  cases found with
  | none =>
    refine ⟨false, s₁, rfl, ?_⟩
    rw [htree]
    exact .refl p s.tree
  | some k =>
    dsimp only
    by_cases hk : k = .dir
    · -- a directory, one below `p`
      obtain ⟨r, hr, hkind⟩ := locate_of_lstat (congrArg Prod.fst hlstat)
      obtain rfl := locate_entry hloc hdir hle hn hr
      rw [hk, ← htree] at hkind
      rw [← htree] at hr
      have hdeep : bound < depth + (p ++ [n]).length := by
        rw [List.length_append]
        exact hdepth
      obtain ⟨ok, s₂, hdel, hout⟩ := hrec (dir ++ [n]) s₁ (p ++ [n]) hr hkind
        (hbound.of_le (by rw [htree]; exact hle)) hdeep
      rw [htree] at hout
      rw [if_pos hk]
      exact ⟨ok, s₂, hdel, Inside.of_child hout.le hout.outside⟩
    · rw [if_neg hk, ← htree]
      rw [← htree] at hle
      exact ⟨_, _, rfl, inside_gRemove hloc hdir hle hn⟩

/-- **The loop** ends, and stays strictly below its directory. By induction on the names. -/
theorem deleteEntries_spec (hrec : c.Deletes bound depth) (hloc : t.locate c.steps dir = some p)
    (hdir : t.kind p = some .dir) (hbound : Shallow bound t)
    (hdepth : bound < depth + (p.length + 1)) (names : List String) :
    ∀ s : FileState, s.tree.Le t → ∃ ok s',
      c.deleteEntries (c.deleteDir depth) dir names s = some (ok, s') ∧
        Inside p s.tree s'.tree := by
  induction names with
  | nil => exact fun s _ => ⟨true, s, rfl, .refl p s.tree⟩
  | cons n rest ih =>
    intro s hle
    rw [deleteEntries]
    by_cases hdots : n = "." ∨ n = ".."
    · rw [if_pos hdots]
      exact ih s hle
    · obtain ⟨ok, s₁, hentry, hinside⟩ :=
        deleteEntry_spec hrec hloc hdir hbound hdepth (not_or.mp hdots) hle
      rw [if_neg hdots, hentry, Option.bind_some]
      cases ok with
      | false => exact ⟨false, s₁, rfl, hinside⟩
      | true =>
        obtain ⟨ok, s', hrun, hrest⟩ := ih s₁ (hinside.le.trans hle)
        exact ⟨ok, s', hrun, hinside.trans hrest⟩

theorem Inside.outside {t' : FileTree} (h : Inside p t t') {q : Place} (hq : ¬p <+: q) :
    t'.kind q = t.kind q :=
  h.same q fun hpq => absurd hpq hq

/-- Giving up leaves the directory. -/
theorem Inside.giveUp {t' : FileTree} (h : Inside p t t') (hdir : t.kind p = some .dir) :
    Outcome p t false t' := by
  refine ⟨h.le, fun q hq => h.outside hq, fun hok => absurd hok (by decide), fun _ => ?_⟩
  rw [h.same p fun _ => rfl, hdir]

/-- The directory itself goes last, when nothing is below it any more. -/
theorem outcome_gRemove {s₁ : FileState} (hloc : t.locate c.steps dir = some p)
    (hdir : t.kind p = some .dir) (h : Inside p t s₁.tree) :
    Outcome p t (c.gRemove dir s₁).1 (c.gRemove dir s₁).2.tree := by
  obtain ⟨hfail, hsame⟩ | ⟨r, hempty, hr, hne, hok, htree⟩ := gRemove_cases c dir s₁
  · rw [hfail, hsame]
    exact h.giveUp hdir
  · obtain rfl : p = r := Option.some.inj (hloc.symm.trans (locate_of_le h.le hr))
    rw [hok, htree]
    refine ⟨(erase_le hne hempty).trans h.le, ?_, fun _ => ?_, fun hfalse => absurd hfalse (by decide)⟩
    · intro q hq
      have hqp : q ≠ p := by
        rintro rfl
        exact hq (List.prefix_refl _)
      rw [kind_erase hne, if_neg hqp, h.outside hq]
    · rintro q ⟨r, rfl⟩
      rw [kind_erase hne]
      split
      next => rfl
      next hqp =>
        apply kind_below_of_not_hasChild hempty
        rintro rfl
        exact hqp (List.append_nil p)

end

/-- **The recursion.** By induction on the depth that is left. -/
theorem deletes (c : FileCalls) (bound depth : ℕ) : c.Deletes bound depth := by
  induction depth with
  | zero =>
    intro path s p _ hdir hbound hdepth
    have := hbound p _ hdir
    omega
  | succ depth ih =>
    intro path s p hloc hdir hbound hdepth
    have htree : (c.gDirOpen path s).2.tree = s.tree := gDirOpen_tree
    rw [deleteDir]
    rcases hopen : c.gDirOpen path s with ⟨names, s₁⟩
    rw [hopen] at htree
    dsimp only at htree
    cases names with
    | none =>
      refine ⟨false, s₁, rfl, ?_⟩
      rw [htree]
      exact (Inside.refl p s.tree).giveUp hdir
    | some names =>
      have hle : s₁.tree.Le s.tree := by
        rw [htree]
        exact .refl s.tree
      obtain ⟨ok, s₂, hloop, hinside⟩ :=
        deleteEntries_spec ih hloc hdir hbound (by omega) names s₁ hle
      rw [htree] at hinside
      dsimp only
      rw [hloop, Option.bind_some]
      cases ok with
      | false => exact ⟨false, s₂, rfl, hinside.giveUp hdir⟩
      | true => exact ⟨_, _, rfl, outcome_gRemove hloc hdir hinside⟩

/-- **Deleting a directory removes the subtree and nothing else.** For every tree, every
path that names a directory and every pattern of failures: the call returns; nothing
outside the directory has changed; if it returned `TRUE` nothing is left at or below it,
and if it returned `FALSE` the directory is still there. -/
theorem deleteDir_spec (c : FileCalls) (t : FileTree) {dir : List String} {p : Place}
    (hloc : t.locate c.steps dir = some p) (hdir : t.kind p = some .dir) {depth : ℕ}
    (hdepth : t.height < depth) :
    ∃ ok s', c.deleteDir depth dir ⟨t, 0⟩ = some (ok, s') ∧
      (∀ q, ¬p <+: q → s'.tree.kind q = t.kind q) ∧
      (ok = true → ∀ q, p <+: q → s'.tree.kind q = none) ∧
      (ok = false → s'.tree.kind p = some .dir) := by
  obtain ⟨ok, s', hrun, hout⟩ := c.deletes t.height depth dir ⟨t, 0⟩ p hloc hdir
    (fun q k hk => length_le_height hk) (by omega)
  exact ⟨ok, s', hrun, hout.outside, hout.gone, hout.kept⟩

/-- A runtime directory with a socket, a directory and a link that leads out of it. -/
def runtimeTree : FileTree where
  entries := [(["home"], .dir), (["home", "notes"], .file [1]), (["run"], .dir),
    (["run", "bus"], .file []), (["run", "out"], .link true ["home"]), (["run", "dconf"], .dir),
    (["run", "dconf", "user"], .file [2])]
  nodup := by decide
  closed := by decide

/-- Without failures all of it goes, and what the link leads to stays. -/
theorem deleteDir_runtimeTree :
    (FileCalls.deleteDir ⟨fun _ => false, 8⟩ 4 ["run"] ⟨runtimeTree, 0⟩).any (·.1) = true ∧
      ∃ ok s', FileCalls.deleteDir ⟨fun _ => false, 8⟩ 4 ["run"] ⟨runtimeTree, 0⟩ = some (ok, s') ∧
        s'.tree.kind ["home", "notes"] = some (.file [1]) ∧
        (ok = true → s'.tree.kind ["run", "out"] = none) := by
  refine ⟨by decide, ?_⟩
  have hloc : runtimeTree.locate 8 ["run"] = some ["run"] := by decide
  have hdepth : runtimeTree.height < 4 := by decide
  obtain ⟨ok, s', hrun, houtside, hgone, -⟩ :=
    deleteDir_spec ⟨fun _ => false, 8⟩ runtimeTree hloc (by decide) hdepth
  refine ⟨ok, s', hrun, ?_, fun hok => hgone hok _ (by decide)⟩
  rw [houtside _ (by decide)]
  decide

end FileCalls

end Tlm
