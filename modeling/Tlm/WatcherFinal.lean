import Mathlib.Data.Finset.Max
import Tlm.WatcherBatch
import Tlm.WatcherRun

/-!
# The final callback

The last callback of a registration ought to carry `is_final`: both users of
`tlm_utils_watch_for_files` free their state or go on with a script when it does.
The scan decides from the position in the list, the callback of the source from its
count of watches, which is zero when the table is empty. The count is right as long
as it is the number of watches, and as long as only **one** path is reported when it
drops to zero. Both fail when a directory comes up that more than one path is waited
for in: each that exists already is reported as final, and each that does not adds
one to the count where one watch serves them all.
-/

namespace Tlm

namespace WatchInfo

variable {listed items : List (List Char)} {access : List Char → Bool}
  {queue : List (ℕ × List Char)} {info : WatchInfo} {wd : ℕ} {dir name : List Char}
  {files : List (List Char)}

/-! ## Rows are not empty -/

/-- Every row has a name. -/
def Filled (info : WatchInfo) : Prop := ∀ e ∈ info.dirTable, e.2 ≠ []

theorem Filled.remove (h : info.Filled) (p : List Char) (wds : List (ℕ × List Char)) :
    Filled ⟨Table.remove p info.dirTable, wds⟩ :=
  fun e he => h e (Table.mem_remove.mp he).1

theorem Filled.replace (h : info.Filled) {ns : List (List Char)} (hns : ns ≠ [])
    (wds : List (ℕ × List Char)) : Filled ⟨Table.replace dir ns info.dirTable, wds⟩ := by
  intro e he
  rcases Table.mem_replace he with rfl | ⟨he, -⟩
  · exact hns
  · exact h e he

theorem Filled.strike (h : info.Filled) : (strike wd dir name files info).Filled := by
  simp only [Tlm.strike]
  split
  · exact h.remove dir _
  · rename_i hne
    exact h.replace hne _

theorem Filled.addWatch (h : info.Filled) (fs : Fs) (fuel : ℕ) (path : List Char) :
    (addWatch fs fuel path info).1.Filled := by
  induction fuel generalizing path info with
  | zero => exact h
  | succ fuel ih =>
    have hadd : ∀ wds, Filled ⟨info.dirTable ++ [(pathGetDirname path, [pathGetBasename path])],
        wds⟩ := by
      intro wds e he
      rcases List.mem_append.mp he with he | he
      · exact h e he
      · rw [List.mem_singleton.mp he]
        exact List.cons_ne_nil _ _
    simp only [Tlm.addWatch]
    split
    · rename_i files _
      exact h.replace (List.append_ne_nil_of_right_ne_nil files (List.cons_ne_nil _ _)) _
    · split
      · exact ih (hadd _) _
      · split
        · exact h
        · split
          · exact h
          · exact hadd _

theorem Filled.addPending (h : info.Filled) (fs : Fs) (dir : List Char) (names : List (List Char))
    (nwatch : ℕ) : (addPending fs dir names info nwatch).1.Filled := by
  induction names generalizing info nwatch with
  | nil => exact h
  | cons name rest ih =>
    have hadd := h.addWatch fs ((buildFilename dir name).length + 2) (buildFilename dir name)
    simp only [Tlm.addPending]
    rcases hw : Tlm.addWatch fs ((buildFilename dir name).length + 2) (buildFilename dir name)
      info with ⟨info', _ | _ | _⟩
    all_goals
      rw [hw] at hadd
      exact ih hadd _

theorem Filled.watcherEvent (h : info.Filled) (fs : Fs) (nwatch wd : ℕ) (name : List Char) :
    (watcherEvent fs info nwatch wd name).1.Filled := by
  simp only [Tlm.watcherEvent]
  split
  · exact h
  · split
    · split
      · exact (h.strike.remove _ _).addPending _ _ _ _
      · exact h.strike
    · exact h

theorem Filled.scan (h : info.Filled) (fs : Fs) (paths : List (Option String)) (nwatch : ℕ) :
    (scan fs paths nwatch info).2.2.Filled := by
  induction paths generalizing info nwatch with
  | nil => exact h
  | cons path rest ih =>
    rcases path with _ | path
    · exact h
    · have hadd := h.addWatch fs ((expandFilePath fs path.toList).length + 2)
        (expandFilePath fs path.toList)
      simp only [Tlm.scan]
      rcases hw : Tlm.addWatch fs ((expandFilePath fs path.toList).length + 2)
        (expandFilePath fs path.toList) info with ⟨info', _ | _ | _⟩
      all_goals
        rw [hw] at hadd
        exact ih hadd _

/-- **Where there is a watch, something is waited for.** -/
theorem Tracks.exists_awaited (h : Tracks listed items [] access queue info) (hf : info.Filled)
    (hw : info.wdTable ≠ []) : ∃ p ∈ listed, p ∉ items := by
  obtain ⟨⟨wd, dir⟩, hwd⟩ := List.exists_mem_of_ne_nil _ hw
  obtain ⟨files, hrow⟩ := Table.mem_keys.mp (h.shape.watched dir (mem_dirs.mpr ⟨wd, hwd⟩))
  obtain ⟨name, hname⟩ := List.exists_mem_of_ne_nil _ (hf _ hrow)
  have hne : info.tracked.toFinset.Nonempty :=
    ⟨buildFilename dir name, List.mem_toFinset.mpr
      (WatchInfo.mem_tracked.mpr ⟨dir, files, hrow, name, hname, rfl⟩)⟩
  -- a longest tracked path is no directory with a row
  obtain ⟨x, hx, hmax⟩ := info.tracked.toFinset.exists_max_image List.length hne
  have hpos := List.count_pos_iff.mpr (List.mem_toFinset.mp hx)
  have hcount := h.count x
  rw [List.count_nil] at hcount
  by_cases ha : 0 < awaits listed items x
  · exact ⟨x, awaits_pos ha⟩
  · have hkey : x ∈ info.keys := by
      by_contra hk
      rw [pends_eq_zero fun hk' => absurd hk' hk] at hcount
      omega
    obtain ⟨ns, hr⟩ := Table.mem_keys.mp hkey
    obtain ⟨n, hn⟩ := List.exists_mem_of_ne_nil _ (hf _ hr)
    have hlt := (h.shape.normal x hkey).length_lt (h.shape.names _ hr n hn)
    have hle := hmax (buildFilename x n)
      (List.mem_toFinset.mpr (WatchInfo.mem_tracked.mpr ⟨x, ns, hr, n, hn, rfl⟩))
    omega

/-! ## One event -/

/-- While the count is positive nothing is final. -/
theorem addPending_open (fs : Fs) (dir : List Char) (names : List (List Char)) (info : WatchInfo)
    {nwatch : ℕ} (hpos : 0 < nwatch) :
    ∀ n ∈ (addPending fs dir names info nwatch).2.2, n.isFinal = false := by
  induction names generalizing info nwatch with
  | nil => exact fun n hn => absurd hn List.not_mem_nil
  | cons name rest ih =>
    simp only [addPending]
    rcases hw : addWatch fs ((buildFilename dir name).length + 2) (buildFilename dir name)
      info with ⟨info', _ | _ | _⟩
    · exact ih info' hpos
    · exact ih info' (Nat.succ_pos nwatch)
    · intro n hn
      rcases List.mem_cons.mp hn with rfl | hn
      · simpa using Nat.ne_of_gt hpos
      · exact ih info' hpos n hn

/-- Adding watches never leaves none. -/
theorem addWatch_watched (fs : Fs) (fuel : ℕ) (path : List Char) (h : info.wdTable ≠ []) :
    (addWatch fs fuel path info).1.wdTable ≠ [] := by
  induction fuel generalizing path info with
  | zero => exact h
  | succ fuel ih =>
    simp only [addWatch]
    split
    · exact h
    · split
      · exact ih _ h
      · split
        · exact h
        · split
          · exact h
          · exact List.append_ne_nil_of_right_ne_nil _ (List.cons_ne_nil _ _)

theorem addPending_watched (fs : Fs) (dir : List Char) (names : List (List Char)) (nwatch : ℕ)
    (h : info.wdTable ≠ []) : (addPending fs dir names info nwatch).1.wdTable ≠ [] := by
  induction names generalizing info nwatch with
  | nil => exact h
  | cons name rest ih =>
    have hadd := addWatch_watched fs ((buildFilename dir name).length + 2) (buildFilename dir name) h
    simp only [addPending]
    rcases hw : addWatch fs ((buildFilename dir name).length + 2) (buildFilename dir name)
      info with ⟨info', _ | _ | _⟩
    all_goals
      rw [hw] at hadd
      exact ih _ hadd

/-- An event that is not reported as final too early. If it strikes the last name of
the last watch and is about a directory that something is waited for in, then, where
any of that exists and the count is one, it is one path. -/
def Timely (access : List Char → Bool) (info : WatchInfo) (nwatch wd : ℕ) (name : List Char) :
    Prop :=
  ∀ dir ∈ info.wdTable.lookup wd, info.dirTable.lookup dir = some [name] →
    info.wdTable.length = 1 → ∀ pending ∈ info.dirTable.lookup (buildFilename dir name),
      (pending.filter fun n => access (buildFilename (buildFilename dir name) n)) ≠ [] →
        nwatch = 1 → pending.length = 1

/-- An event that the count is right for. If it strikes the last name of the last watch,
and nothing is left to wait for then, the count is one. -/
def Counts (access : List Char → Bool) (info : WatchInfo) (nwatch wd : ℕ) (name : List Char) :
    Prop :=
  ∀ dir ∈ info.wdTable.lookup wd, info.dirTable.lookup dir = some [name] →
    info.wdTable.length = 1 →
      (info.dirTable.lookup (buildFilename dir name) = none → nwatch = 1) ∧
      ∀ pending ∈ info.dirTable.lookup (buildFilename dir name),
        (∀ n ∈ pending, access (buildFilename (buildFilename dir name) n) = true) → nwatch = 1

instance (access : List Char → Bool) (info : WatchInfo) (nwatch wd : ℕ) (name : List Char) :
    Decidable (info.Timely access nwatch wd name) := by
  unfold Timely
  infer_instance

instance (access : List Char → Bool) (info : WatchInfo) (nwatch wd : ℕ) (name : List Char) :
    Decidable (info.Counts access nwatch wd name) := by
  unfold Counts
  infer_instance

/-- What an event reports is not final, or it is one path and nothing is watched any
more. -/
def Unhasty (r : WatchInfo × ℕ × List Notice) : Prop :=
  (∀ n ∈ r.2.2, n.isFinal = false) ∨ (r.1.wdTable = [] ∧ ∃ n, r.2.2 = [n])

/-- If something is reported and nothing is watched any more, something is final. -/
def Prompt (r : WatchInfo × ℕ × List Notice) : Prop :=
  r.1.wdTable = [] → r.2.2 ≠ [] → ∃ n ∈ r.2.2, n.isFinal = true

/-- A watch is left once a name is struck off, unless it was the last name of the
last watch. -/
theorem strike_watched (hs : info.Shape) (hw : (wd, dir) ∈ info.wdTable)
    (h : files.erase name ≠ [] ∨ info.wdTable.length ≠ 1) :
    (strike wd dir name files info).wdTable ≠ [] := by
  simp only [strike]
  split
  · rename_i hnil
    obtain ⟨t₁, t₂, ht, h₁, h₂⟩ :=
      Table.split_of_lookup hs.wdsNodup (Table.lookup_of_mem hs.wdsNodup hw)
    have hne : info.wdTable.length ≠ 1 := h.resolve_left fun hne => hne hnil
    have hremove : Table.remove wd info.wdTable = t₁ ++ t₂ := by
      rw [ht]
      exact Table.remove_split h₁ h₂
    rw [ht] at hne
    intro he
    rw [hremove] at he
    obtain ⟨rfl, rfl⟩ := List.append_eq_nil_iff.mp he
    exact hne rfl
  · exact List.ne_nil_of_mem hw

/-- A directory comes up, and with it the last watch is given up. -/
theorem addPending_flags {fs : Fs} {wd' nwatch : ℕ} {pending : List (List Char)}
    (hacc : ∀ p, fs.access (String.ofList p) = access p)
    (hwatch : ∀ d, fs.inotifyAddWatch d = some wd') (hd : Normal dir) (hdir : access dir = true)
    (hn : ∀ n ∈ pending, IsName n) (hnew : dir ∉ info.keys) (hnil : info.wdTable = [])
    (hord : pending.Pairwise fun n m =>
      access (buildFilename dir m) = true → access (buildFilename dir n) = true)
    (hearly : (pending.filter fun n => access (buildFilename dir n)) ≠ [] → nwatch = 0 →
      pending.length = 1) :
    Unhasty (addPending fs dir pending info nwatch) ∧
      (((∀ n ∈ pending, access (buildFilename dir n) = true) → nwatch = 0) →
        Prompt (addPending fs dir pending info nwatch)) := by
  have hfresh : wd' ∉ Table.keys info.wdTable := by
    rw [hnil]
    exact List.not_mem_nil
  obtain ⟨hinfo, -, hnotices⟩ := addPending_eq hd (by rw [hacc]; exact hdir) (hwatch _) hn
    (by simpa only [hacc] using hord) hnew hfresh nwatch
  simp only [hacc] at hinfo hnotices
  by_cases hgone : (pending.filter fun n => !access (buildFilename dir n)) = []
  · have hall : ∀ n ∈ pending, access (buildFilename dir n) = true := by
      intro n hn
      simpa using List.filter_eq_nil_iff.mp hgone n hn
    have hhere : (pending.filter fun n => access (buildFilename dir n)) = pending :=
      List.filter_eq_self.mpr hall
    rw [hhere] at hnotices hearly
    rw [if_pos hgone] at hinfo
    refine ⟨?_, fun hcount _ hne => ?_⟩
    · rcases Nat.eq_zero_or_pos nwatch with hzero | hpos
      · by_cases hempty : pending = []
        · subst hempty
          exact Or.inl (by simp [addPending])
        · -- one path, and nothing else is waited for
          obtain ⟨n, rfl⟩ := List.length_eq_one_iff.mp (hearly hempty hzero)
          exact Or.inr ⟨by rw [hinfo]; exact hnil, _, hnotices⟩
      · exact Or.inl (addPending_open fs dir pending info hpos)
    · obtain ⟨n, hn⟩ := List.exists_mem_of_ne_nil _ hne
      refine ⟨n, hn, ?_⟩
      rw [hnotices] at hn
      obtain ⟨m, -, rfl⟩ := List.mem_map.mp hn
      simp [hcount hall]
  · rw [if_neg hgone] at hinfo
    have hleft : (addPending fs dir pending info nwatch).1.wdTable ≠ [] := by
      rw [hinfo]
      exact List.append_ne_nil_of_right_ne_nil _ (List.cons_ne_nil _ _)
    refine ⟨Or.inl ?_, fun _ hempty => absurd hempty hleft⟩
    rcases Nat.eq_zero_or_pos nwatch with hzero | hpos
    · -- where some of it does not exist, the count is not zero unless nothing does
      have hnone : (pending.filter fun n => access (buildFilename dir n)) = [] := by
        by_contra hsome
        obtain ⟨n, rfl⟩ := List.length_eq_one_iff.mp (hearly hsome hzero)
        rcases hexists : access (buildFilename dir n) with _ | _
        · exact hsome (by simp [hexists])
        · exact hgone (by simp [hexists])
      simp [hnotices, hnone]
    · exact addPending_open fs dir pending info hpos

/-- **One event**, if the callback can deal with it: it is not final too early, and, if
the count is right, not too late either. -/
theorem Tracks.flags {fs : Fs} {wd' nwatch : ℕ}
    (hacc : ∀ p, fs.access (String.ofList p) = access p)
    (hwatch : ∀ d, fs.inotifyAddWatch d = some wd')
    (h : Tracks listed items [] access ((wd, name) :: queue) info)
    (hlen : info.wdTable.length ≤ nwatch) (hclear : info.Clear listed access wd name)
    (htimely : info.Timely access nwatch wd name) :
    Unhasty (Tlm.watcherEvent fs info nwatch wd name) ∧
      (info.Counts access nwatch wd name →
        Prompt (Tlm.watcherEvent fs info nwatch wd name)) := by
  rcases watcherEvent_cases h.shape fs nwatch wd name with
    ⟨heq, -⟩ | ⟨dir, files, hl, hf, hn, hcases⟩
  · rw [heq]
    exact ⟨Or.inl (by simp), fun _ _ hne => absurd rfl hne⟩
  · have hw := Table.mem_of_lookup hl
    have hrow := Table.mem_of_lookup hf
    have hlen' : (strike wd dir name files info).wdTable.length ≤
        if files.erase name = [] then nwatch - 1 else nwatch := length_strike hw hlen
    by_cases hlast : files.erase name = [] ∧ info.wdTable.length = 1
    · -- the last name of the last watch
      obtain ⟨herase, hone⟩ := hlast
      have hfiles : info.dirTable.lookup dir = some [name] := by
        rw [hf, eq_singleton_of_erase hn herase]
      have hnil : (strike wd dir name files info).wdTable = [] := by
        have hle : (strike wd dir name files info).wdTable.length ≤
            if files.erase name = [] then 1 - 1 else 1 := length_strike hw hone.le
        rw [if_pos herase] at hle
        exact List.eq_nil_of_length_eq_zero (Nat.le_zero.mp hle)
      rcases hcases with ⟨hkey, -, heq⟩ | ⟨pending, hpending, -, heq⟩
      · rw [heq, if_pos herase]
        refine ⟨Or.inr ⟨hnil, _, rfl⟩, fun hcounts _ _ => ⟨_, List.mem_singleton_self _, ?_⟩⟩
        simp [(hcounts dir hl hfiles hone).1 (Table.lookup_eq_none.mpr hkey)]
      · obtain ⟨-, -, hord⟩ := hclear dir hl files hf hn pending hpending
        have hpos : 0 < nwatch := (List.length_pos_of_mem hw).trans_le hlen
        have hearly : (pending.filter fun n =>
            access (buildFilename (buildFilename dir name) n)) ≠ [] →
            nwatch - 1 = 0 → pending.length = 1 :=
          fun hsome hzero => htimely dir hl hfiles hone pending hpending hsome (by omega)
        have hpath := (h.shape.normal dir (Table.mem_keys_of_mem hrow)).child
          (h.shape.names _ hrow name hn)
        rw [heq, if_pos herase]
        obtain ⟨hunhasty, hprompt⟩ := addPending_flags hacc hwatch hpath
          (h.real wd name dir List.mem_cons_self hw)
          (h.shape.names _ (Table.mem_of_lookup hpending))
          (fun hk => (mem_keys_drop.mp hk).2 rfl) hnil hord hearly
        refine ⟨hunhasty, fun hcounts => hprompt fun hall => ?_⟩
        rw [(hcounts dir hl hfiles hone).2 pending hpending hall]
    · -- a watch is left, and counted
      have hleft : (strike wd dir name files info).wdTable ≠ [] :=
        strike_watched h.shape hw (not_and_or.mp hlast)
      have hpos : 0 < if files.erase name = [] then nwatch - 1 else nwatch :=
        (List.length_pos_iff.mpr hleft).trans_le hlen'
      rcases hcases with ⟨-, -, heq⟩ | ⟨pending, -, -, heq⟩
      · rw [heq]
        refine ⟨Or.inl fun n hmem => ?_, fun _ hnil => absurd hnil hleft⟩
        rw [List.mem_singleton.mp hmem]
        simpa using Nat.ne_of_gt hpos
      · rw [heq]
        exact ⟨Or.inl (addPending_open _ _ _ _ hpos),
          fun _ hnil => absurd hnil (addPending_watched _ _ _ _ hleft)⟩

end WatchInfo

/-! ## The scan -/

/-- If something is left to wait for, no callback of the scan is final. -/
theorem scan_open (fs : Fs) (paths : List String) (info : WatchInfo)
    (h : (scan fs (paths.map some) 0 info).2.1 ≠ 0) :
    ∀ n ∈ (scan fs (paths.map some) 0 info).1, n.isFinal = false := by
  induction paths generalizing info with
  | nil => exact absurd rfl h
  | cons path rest ih =>
    simp only [List.map_cons, scan] at h ⊢
    rcases hw : addWatch fs ((expandFilePath fs path.toList).length + 2)
      (expandFilePath fs path.toList) info with ⟨info', _ | _ | _⟩
    · rw [hw] at h
      exact ih info' h
    · have hnone := List.any_eq_false.mp (scan_waiting fs (rest.map some) 0 info')
      intro n hn
      simpa using hnone n hn
    · rw [hw] at h
      intro n hn
      rcases List.mem_cons.mp hn with rfl | hn
      · -- ready, and not the last of the list
        cases rest with
        | nil => exact absurd rfl h
        | cons next rest => simp
      · exact ih info' h n hn

/-- The last callback is final, and no other. -/
def Closed (notices : List Notice) : Prop :=
  ∃ pre n, notices = pre ++ [n] ∧ n.isFinal = true ∧ ∀ m ∈ pre, m.isFinal = false

theorem Closed.prepend {notices pre : List Notice} (h : Closed notices)
    (hpre : ∀ m ∈ pre, m.isFinal = false) : Closed (pre ++ notices) := by
  obtain ⟨pre', n, rfl, hn, hpre'⟩ := h
  refine ⟨pre ++ pre', n, (List.append_assoc ..).symm, hn, fun m hm => ?_⟩
  rcases List.mem_append.mp hm with hm | hm
  · exact hpre m hm
  · exact hpre' m hm

theorem Closed.cons {notices : List Notice} {m : Notice} (h : Closed notices)
    (hm : m.isFinal = false) : Closed (m :: notices) :=
  h.prepend (List.forall_mem_singleton.mpr hm)

/-- Nothing follows the final callback. -/
theorem Closed.last {notices : List Notice} (h : Closed notices) {pre post : List Notice}
    {n : Notice} (hsplit : notices = pre ++ n :: post) (hn : n.isFinal = true) : post = [] := by
  obtain ⟨pre', n', rfl, -, hpre'⟩ := h
  rcases List.eq_nil_or_concat' post with rfl | ⟨post', z, rfl⟩
  · rfl
  · have hinit : pre' = pre ++ n :: post' := by
      have hsplit' : pre' ++ [n'] = (pre ++ n :: post') ++ [z] := by
        rw [hsplit]
        simp
      exact (List.append_inj' hsplit' rfl).1
    have hmem : n ∈ pre' := by
      rw [hinit]
      exact List.mem_append_right _ List.mem_cons_self
    rw [hpre' n hmem] at hn
    cases hn

/-- The scan makes at most one callback for each path. -/
theorem scan_length (fs : Fs) (paths : List String) (nwatch : ℕ) (info : WatchInfo) :
    (scan fs (paths.map some) nwatch info).1.length ≤ paths.length := by
  induction paths generalizing nwatch info with
  | nil => exact le_refl _
  | cons path rest ih =>
    simp only [List.map_cons, scan]
    rcases hw : addWatch fs ((expandFilePath fs path.toList).length + 2)
      (expandFilePath fs path.toList) info with ⟨info', _ | _ | _⟩
    · exact (ih nwatch info').trans (Nat.le_succ _)
    · exact (ih (nwatch + 1) info').trans (Nat.le_succ _)
    · exact Nat.succ_le_succ (ih nwatch info')

/-- If the scan reports all of the list, the last callback is final. -/
theorem scan_closed (fs : Fs) {paths : List String} (info : WatchInfo) (hne : paths ≠ [])
    (h : (scan fs (paths.map some) 0 info).1.length = paths.length) :
    Closed (scan fs (paths.map some) 0 info).1 := by
  induction paths generalizing info with
  | nil => exact absurd rfl hne
  | cons path rest ih =>
    simp only [List.map_cons, scan] at h ⊢
    rcases hw : addWatch fs ((expandFilePath fs path.toList).length + 2)
      (expandFilePath fs path.toList) info with ⟨info', _ | _ | _⟩
    · rw [hw] at h
      have hle := scan_length fs rest 0 info'
      simp only [List.length_cons] at h
      omega
    · rw [hw] at h
      have hle := scan_length fs rest (0 + 1) info'
      simp only [List.length_cons] at h
      omega
    · rw [hw] at h
      cases rest with
      | nil => exact ⟨[], _, rfl, rfl, by simp⟩
      | cons next rest =>
        have hrest := ih info' (List.cons_ne_nil _ _) (Nat.succ.inj h)
        exact hrest.cons rfl

/-- A list the scan can deal with, as far as the final callback goes: what does not
exist is in normal form and listed once, and what exists does not come behind a path
that does not and that has to be waited for in the same directory. -/
structure Fs.Takes (fs : Fs) (listed : List (List Char)) : Prop where
  nodup : (fs.absent listed).Nodup
  normal : ∀ p ∈ listed, fs.access (String.ofList p) = false → Normal p
  order : fs.InOrder listed

namespace Watcher

variable {listed : List (List Char)} {s : Watcher}

/-! ## Whole runs -/

/-- **The final callback.** No callback follows one that is final, and then every
listed path has been reported; once every listed path has been reported, and in
particular once all exist and no event is left to read, the last callback is final. -/
structure Finishes (listed : List (List Char)) (s : Watcher) : Prop where
  last : ∀ pre n post, s.notices = pre ++ n :: post → n.isFinal = true → post = []
  all : ∀ n ∈ s.notices, n.isFinal = true → ∀ p ∈ listed, p ∈ s.items
  given : listed ≠ [] → (∀ p ∈ listed, p ∈ s.items) →
    ∃ pre n, s.notices = pre ++ [n] ∧ n.isFinal = true
  complete : listed ≠ [] → s.queue = [] → (∀ p ∈ listed, s.access p = true) →
    ∃ pre n, s.notices = pre ++ [n] ∧ n.isFinal = true

/-- What holds of the event that a step reads, if it reads one, and of the count it
finds. -/
def OnEvent (P : (List Char → Bool) → WatchInfo → ℕ → ℕ → List Char → Prop) (s : Watcher) :
    WatchStep → Prop
  | .read _ => ∀ info ∈ s.source, ∀ e ∈ s.queue.head?, P s.access info (s.count info) e.1 e.2
  | _ => True

instance {P : (List Char → Bool) → WatchInfo → ℕ → ℕ → List Char → Prop}
    [∀ access info n wd name, Decidable (P access info n wd name)] (s : Watcher) :
    ∀ st, Decidable (s.OnEvent P st)
  | .read _ => inferInstanceAs
    (Decidable (∀ info ∈ s.source, ∀ e ∈ s.queue.head?, P s.access info (s.count info) e.1 e.2))
  | .create _ _ _ => isTrue trivial
  | .ignored => isTrue trivial

/-- A step that is not final too early. -/
def Timely (s : Watcher) (st : WatchStep) : Prop := s.OnEvent WatchInfo.Timely st

/-- A step that finds the count right. -/
def Counted (s : Watcher) (st : WatchStep) : Prop := s.OnEvent WatchInfo.Counts st

instance (s : Watcher) (st : WatchStep) : Decidable (s.Timely st) :=
  inferInstanceAs (Decidable (s.OnEvent WatchInfo.Timely st))

instance (s : Watcher) (st : WatchStep) : Decidable (s.Counted st) :=
  inferInstanceAs (Decidable (s.OnEvent WatchInfo.Counts st))

/-- The invariant of a run that has something to wait for: as long as it has, nothing is
final. -/
structure Ends (listed : List (List Char)) (s : Watcher) : Prop where
  filled : ∀ info, s.source = some info → info.Filled
  ongoing : (∃ p ∈ listed, p ∉ s.items) → ∀ n ∈ s.notices, n.isFinal = false

/-- When there is nothing left, the last callback was final. -/
def Ended (listed : List (List Char)) (s : Watcher) : Prop :=
  (∀ p ∈ listed, p ∈ s.items) → Closed s.notices

/-- What reports nothing keeps the invariant. -/
theorem Ends.quiet (h : s.Ends listed) {s' : Watcher} (hn : s'.notices = s.notices)
    (hs : ∀ info, s'.source = some info → s.source = some info) : s'.Ends listed := by
  have hi : s'.items = s.items := congrArg (List.map Notice.item) hn
  refine ⟨fun info hsome => h.filled info (hs info hsome), ?_⟩
  rw [hi, hn]
  exact h.ongoing

theorem Ended.quiet (h : s.Ended listed) {s' : Watcher} (hn : s'.notices = s.notices) :
    s'.Ended listed := by
  have hi : s'.items = s.items := congrArg (List.map Notice.item) hn
  rw [Ended, hi, hn]
  exact h

section Event

variable {queue : List (ℕ × List Char)} {r : WatchInfo × ℕ × List Notice}

/-- The watcher after an event. -/
def after (s : Watcher) (queue : List (ℕ × List Char)) (r : WatchInfo × ℕ × List Notice) : Watcher :=
  { s with source := some r.1, nwatch := some r.2.1, queue, notices := s.notices ++ r.2.2 }

theorem items_after : (s.after queue r).items = s.items ++ r.2.2.map Notice.item := List.map_append

/-- The invariant after an event that is not final too early. -/
theorem Ends.event (h : s.Ends listed) (hsound : s.Sound listed)
    (hr : WatchInfo.Handled listed s.items s.access queue r) (hfilled : r.1.Filled)
    (hflags : WatchInfo.Unhasty r) : (s.after queue r).Ends listed := by
  refine ⟨fun info hsome => Option.some.inj hsome ▸ hfilled, ?_⟩
  rintro ⟨p, hp, hnot⟩ n hn
  rcases List.mem_append.mp hn with hn | hn
  · rw [items_after] at hnot
    exact h.ongoing ⟨p, hp, fun hi => hnot (List.mem_append_left _ hi)⟩ n hn
  · rcases hflags with hnone | ⟨hnil, -⟩
    · exact hnone n hn
    · -- nothing is watched, so all has been reported
      exact absurd ((hsound.event hr).finished_of_nil rfl hnil p hp) hnot

/-- If it is not too late either, the last callback is final in the end. -/
theorem Ended.event (h : s.Ended listed) (hends : s.Ends listed) (hsound : s.Sound listed)
    (hr : WatchInfo.Handled listed s.items s.access queue r) (hfilled : r.1.Filled)
    (hflags : WatchInfo.Unhasty r) (hprompt : WatchInfo.Prompt r) :
    (s.after queue r).Ended listed := by
  intro hall
  by_cases hnew : r.2.2 = []
  · have hsame : (s.after queue r).notices = s.notices := by
      simp only [after, hnew, List.append_nil]
    exact h.quiet hsame hall
  · have hnil : r.1.wdTable = [] := by
      by_contra hleft
      have ht := (hsound.event hr).tracks r.1 rfl
      obtain ⟨p, hp, hnot⟩ := ht.exists_awaited hfilled hleft
      exact hnot (hall p hp)
    obtain ⟨n, hn, hfinal⟩ := hprompt hnil hnew
    rcases hflags with hnone | ⟨-, m, hone⟩
    · rw [hnone n hn] at hfinal
      cases hfinal
    · rw [hone, List.mem_singleton] at hn
      subst hn
      -- its path was not reported before
      have hawaited := hr.awaited n.item (by rw [hone]; exact List.mem_singleton_self _)
      exact ⟨s.notices, n, congrArg (s.notices ++ ·) hone, hfinal, hends.ongoing ⟨n.item, hawaited⟩⟩

end Event

/-- **One step**: a read that reports something reports what the event stands for; no
other step reports anything. -/
theorem step_event (hsound : s.Sound listed) (hends : s.Ends listed) (st : WatchStep)
    (hp : s.Proper st) (hc : s.Clear listed st) (ht : s.Timely st) :
    ((s.step st).notices = s.notices ∧
      ∀ info, (s.step st).source = some info → s.source = some info) ∨
    ∃ queue r, s.step st = s.after queue r ∧
      WatchInfo.Handled listed s.items s.access queue r ∧ r.1.Filled ∧ WatchInfo.Unhasty r ∧
      (s.Counted st → WatchInfo.Prompt r) := by
  cases st with
  | create dir name spelt => exact Or.inl ⟨rfl, fun info hs => hs⟩
  | ignored =>
    refine Or.inl ?_
    rcases ignored_cases s with heq | ⟨info, -, -, heq⟩ | heq
    · rw [heq]
      exact ⟨rfl, fun info hs => hs⟩
    · rw [heq]
      exact ⟨rfl, nofun⟩
    · rw [heq]
      exact ⟨rfl, fun info hs => hs⟩
  | read wd =>
    rcases read_cases s wd with
      heq | ⟨info, -, -, heq⟩ | heq | ⟨info, w, name, queue, hs, hq, heq⟩
    · exact Or.inl ⟨by rw [heq], fun info hs => by rwa [heq] at hs⟩
    · exact Or.inl ⟨by rw [heq]; rfl, fun info hs => by rw [heq] at hs; cases hs⟩
    · exact Or.inl ⟨by rw [heq], fun info hs => by rwa [heq] at hs⟩
    · have htracks := hsound.tracks info hs
      rw [hq] at htracks
      have hhead : (w, name) ∈ s.queue.head? := by
        rw [hq]
        rfl
      have hclear := hc info hs (w, name) hhead
      have hlen := length_le_count hsound.nwatch hs
      have hacc : ∀ p, (s.fs wd).access (String.ofList p) = s.access p := by
        intro p
        simp [fs]
      have hused : ∀ e ∈ queue, e.1 ≠ wd := by
        intro e he
        exact hp.2 e (by rw [hq]; exact List.mem_cons_of_mem _ he)
      have hflags := htracks.flags hacc (fun _ => rfl) hlen hclear (ht info hs (w, name) hhead)
      exact Or.inr ⟨queue, _, heq,
        htracks.watcherEvent hacc (fun _ => rfl) hlen (hp.1 info hs) hused hclear,
        (hends.filled info hs).watcherEvent _ _ _ _, hflags.1,
        fun hcounted => hflags.2 (hcounted info hs (w, name) hhead)⟩

theorem Ends.step (h : s.Ends listed) (hsound : s.Sound listed) (st : WatchStep)
    (hp : s.Proper st) (hc : s.Clear listed st) (ht : s.Timely st) : (s.step st).Ends listed := by
  rcases step_event hsound h st hp hc ht with ⟨hn, hs⟩ | ⟨queue, r, heq, hr, hfilled, hflags, -⟩
  · exact h.quiet hn hs
  · rw [heq]
    exact h.event hsound hr hfilled hflags

theorem Ended.step (h : s.Ended listed) (hends : s.Ends listed) (hsound : s.Sound listed)
    (st : WatchStep) (hp : s.Proper st) (hc : s.Clear listed st) (ht : s.Timely st)
    (hcounted : s.Counted st) : (s.step st).Ended listed := by
  rcases step_event hsound hends st hp hc ht with
    ⟨hn, -⟩ | ⟨queue, r, heq, hr, hfilled, hflags, hprompt⟩
  · exact h.quiet hn
  · rw [heq]
    exact h.event hends hsound hr hfilled hflags (hprompt hcounted)

/-! ## From the scan on -/

/-- The watcher with callbacks made before. -/
def earlier (notices : List Notice) (s : Watcher) : Watcher :=
  { s with notices := notices ++ s.notices }

/-- What was reported before makes no difference to a step. -/
theorem step_earlier (notices : List Notice) (s : Watcher) (st : WatchStep) :
    (s.earlier notices).step st = (s.step st).earlier notices := by
  cases st with
  | create dir name spelt => rfl
  | ignored =>
    rcases hs : s.source with _ | info
    · simp only [step, earlier, hs]
    · simp only [step, earlier, hs]
      split <;> rfl
  | read wd =>
    rcases hs : s.source with _ | info
    · simp only [step, earlier, hs]
    · rcases hn : s.nwatch with _ | n <;> rcases hq : s.queue with _ | ⟨⟨w, name⟩, queue⟩
      · simp only [step, earlier, hs, hn, hq]
      · simp only [step, earlier, hs, hn, hq]
        split
        · rfl
        · simp only [fs, List.append_assoc]
      · simp only [step, earlier, hs, hn, hq]
        split <;> rfl
      · simp only [step, earlier, hs, hn, hq]
        split
        · rfl
        · simp only [fs, List.append_assoc]

/-- The conditions on a step do not look at what was reported before. -/
theorem proper_earlier {notices : List Notice} {st : WatchStep} :
    (s.earlier notices).Proper st ↔ s.Proper st := by
  cases st <;> exact Iff.rfl

theorem onEvent_earlier {notices : List Notice} {st : WatchStep}
    {P : (List Char → Bool) → WatchInfo → ℕ → ℕ → List Char → Prop} :
    (s.earlier notices).OnEvent P st ↔ s.OnEvent P st := by
  cases st <;> exact Iff.rfl

/-- Nor does it matter what else was listed. -/
theorem clear_earlier {notices : List Notice} {listed' : List (List Char)} {st : WatchStep}
    (hsub : ∀ p ∈ listed', p ∈ listed) (h : (s.earlier notices).Clear listed st) :
    s.Clear listed' st := by
  cases st with
  | create dir name spelt => trivial
  | ignored => trivial
  | read wd =>
    intro info hs e he dir hdir files hfiles hname pending hpending
    obtain ⟨hlisted, hrest⟩ := h info hs e he dir hdir files hfiles hname pending hpending
    exact ⟨fun hmem => hlisted (hsub _ hmem), hrest⟩

theorem mem_absent {fs : Fs} {p : List Char} :
    p ∈ fs.absent listed ↔ p ∈ listed ∧ fs.access (String.ofList p) = false := by
  simp [Fs.absent]

/-- A final callback finds nothing left to wait for. -/
theorem Ends.final {awaited : List (List Char)} {notices : List Notice} (h : s.Ends awaited)
    (hopen : ∀ n ∈ notices, n.isFinal = false) (n : Notice)
    (hn : n ∈ (s.earlier notices).notices) (hfinal : n.isFinal = true) :
    ∀ p ∈ awaited, p ∈ s.items := by
  by_contra hne
  obtain ⟨p, hp, hnot⟩ : ∃ p ∈ awaited, p ∉ s.items := by
    simpa only [not_forall, exists_prop] using hne
  have hnone : n.isFinal = false := by
    rcases List.mem_append.mp hn with hn | hn
    · exact hopen n hn
    · exact h.ongoing ⟨p, hp, hnot⟩ n hn
  rw [hnone] at hfinal
  cases hfinal

/-- Everything is reported once what did not exist at the start is. -/
theorem items_earlier {fs : Fs} {notices : List Notice}
    (hitems : notices.map Notice.item = fs.present listed) :
    (∀ p ∈ listed, p ∈ (s.earlier notices).items) ↔ ∀ p ∈ fs.absent listed, p ∈ s.items := by
  have hreported : (s.earlier notices).items = fs.present listed ++ s.items := by
    rw [← hitems]
    exact List.map_append
  rw [hreported]
  constructor
  · intro hall p hp
    obtain ⟨hl, hacc⟩ := mem_absent.mp hp
    rcases List.mem_append.mp (hall p hl) with hmem | hmem
    · rw [(List.mem_filter.mp hmem).2] at hacc
      cases hacc
    · exact hmem
  · intro hall p hp
    rcases hacc : fs.access (String.ofList p) with _ | _
    · exact List.mem_append_right _ (hall p (mem_absent.mpr ⟨hp, hacc⟩))
    · exact List.mem_append_left _ (List.mem_filter.mpr ⟨hp, hacc⟩)

/-- The promise, from the invariant for what did not exist at the start. -/
theorem Ends.finishes {fs : Fs} {notices : List Notice} (h : s.Ends (fs.absent listed))
    (hended : s.Ended (fs.absent listed)) (hsound : s.Sound (fs.absent listed)) (hopen : ∀ n ∈ notices, n.isFinal = false)
    (hitems : notices.map Notice.item = fs.present listed) :
    (s.earlier notices).Finishes listed := by
  have hall := items_earlier (s := s) hitems
  have hclosed : (∀ p ∈ fs.absent listed, p ∈ s.items) → Closed (s.earlier notices).notices :=
    fun hall => (hended hall).prepend hopen
  have hgiven : (∀ p ∈ fs.absent listed, p ∈ s.items) →
      ∃ pre n, (s.earlier notices).notices = pre ++ [n] ∧ n.isFinal = true := by
    intro hall
    obtain ⟨pre, n, heq, hn, -⟩ := hclosed hall
    exact ⟨pre, n, heq, hn⟩
  refine ⟨?_, fun n hn hfin => hall.mpr (h.final hopen n hn hfin), ?_, ?_⟩
  · intro pre n post hsplit hn
    have hmem : n ∈ (s.earlier notices).notices := by
      rw [hsplit]
      exact List.mem_append_right _ List.mem_cons_self
    exact (hclosed (h.final hopen n hmem hn)).last hsplit hn
  · exact fun _ hreported => hgiven (hall.mp hreported)
  · intro _ hq hexist
    refine hgiven fun p hp => ?_
    exact hsound.reports.all hq p hp (hexist p (mem_absent.mp hp).1)

/-- The scan, if it leaves something to wait for. -/
theorem start_waiting {fs : Fs} (hw : fs.Works) {paths : List String}
    (ht : fs.Takes (expanded fs paths)) (hne : fs.absent (expanded fs paths) ≠ []) :
    ∃ s notices, start fs paths = earlier notices s ∧
      s.Sound (fs.absent (expanded fs paths)) ∧ s.Ends (fs.absent (expanded fs paths)) ∧
      s.Ended (fs.absent (expanded fs paths)) ∧ (∀ n ∈ notices, n.isFinal = false) ∧
      notices.map Notice.item = fs.present (expanded fs paths) := by
  obtain ⟨hstart, hitems, hcount, hscan⟩ := start_eq hw ht.normal ht.order
  rw [if_neg hne] at hstart
  have hopen := scan_open fs paths {} (by rw [hcount]; simpa using hne)
  have hfilled : (scan fs (paths.map some) 0 {}).2.2.Filled :=
    WatchInfo.Filled.scan (fun e he => absurd he List.not_mem_nil) fs _ _
  refine ⟨{ access := fun p => fs.access (String.ofList p)
            source := some (scan fs (paths.map some) 0 {}).2.2 }, _,
    hstart.trans (by simp [earlier]), ?_, ?_, ?_, hopen, hitems⟩
  · refine ⟨hw.root, fun d n hd hn => hw.closed hd hn, nofun, List.nodup_nil, nofun, ?_, nofun, nofun⟩
    intro info hsome
    cases hsome
    refine scanning_tracks hscan fun x => ?_
    by_cases hx : x ∈ fs.absent (expanded fs paths)
    · rw [List.count_eq_one_of_mem ht.nodup hx]
      exact if_pos ⟨hx, List.not_mem_nil⟩
    · rw [List.count_eq_zero_of_not_mem hx]
      exact if_neg fun h => hx h.1
  · exact ⟨fun info hsome => Option.some.inj hsome ▸ hfilled, fun _ => nofun⟩
  · intro hall
    obtain ⟨p, hp⟩ := List.exists_mem_of_ne_nil _ hne
    exact absurd (hall p hp) List.not_mem_nil

/-- The scan, if everything exists. -/
theorem start_finished {fs : Fs} (hw : fs.Works) {paths : List String}
    (ht : fs.Takes (expanded fs paths)) (hnil : fs.absent (expanded fs paths) = []) :
    (start fs paths).source = none ∧ (start fs paths).items = expanded fs paths ∧
      (expanded fs paths ≠ [] → Closed (start fs paths).notices) := by
  obtain ⟨hstart, hitems, -, -⟩ := start_eq hw ht.normal ht.order
  rw [if_pos hnil] at hstart
  have hpresent : fs.present (expanded fs paths) = expanded fs paths := by
    refine List.filter_eq_self.mpr fun p hp => ?_
    simpa using List.filter_eq_nil_iff.mp hnil p hp
  rw [hpresent] at hitems
  rw [hstart]
  refine ⟨rfl, hitems, fun hne => scan_closed fs {} ?_ ?_⟩
  · rintro rfl
    exact hne rfl
  · have hlength := congrArg List.length hitems
    simpa [expanded] using hlength

/-- **The final callback comes once, and last.** If the scan can deal with the list and
the callback with every event of a run, and the count is right for every event, then in
every state of the run no callback has followed a final one, a final one has found
everything reported, and once everything is reported the last callback was final. -/
theorem run_finishes {fs : Fs} (hw : fs.Works) {paths : List String}
    (ht : fs.Takes (expanded fs paths)) {sts : List WatchStep}
    (h : Along step (fun s st => s.Proper st ∧ s.Clear (expanded fs paths) st ∧ s.Timely st ∧
      s.Counted st) (start fs paths) sts) :
    Always step (Finishes (expanded fs paths)) (start fs paths) sts := by
  by_cases hnil : fs.absent (expanded fs paths) = []
  · -- everything existed: no source is attached, and no callback follows
    obtain ⟨hnone, hitems, hclosed⟩ := start_finished hw ht hnil
    have hkept : ∀ (s : Watcher) (st : WatchStep), True →
        s.source = none ∧ s.notices = (start fs paths).notices →
        (s.step st).source = none ∧ (s.step st).notices = (start fs paths).notices := by
      rintro s st - ⟨hs, hn⟩
      cases st with
      | create dir name spelt => exact ⟨hs, hn⟩
      | read wd => simpa only [step, hs] using And.intro hs hn
      | ignored => simpa only [step, hs] using And.intro hs hn
    refine (always_of_step hkept ⟨hnone, rfl⟩ fun _ _ => trivial).imp fun s hs => ?_
    have hall : ∀ p ∈ expanded fs paths, p ∈ s.items := by
      rw [← hitems, items, ← hs.2]
      exact fun p hp => hp
    have hgiven : expanded fs paths ≠ [] → ∃ pre n, s.notices = pre ++ [n] ∧ n.isFinal = true := by
      intro hne
      obtain ⟨pre, n, heq, hn, -⟩ := hclosed hne
      exact ⟨pre, n, hs.2.trans heq, hn⟩
    refine ⟨fun pre n post hsplit hn => ?_, fun _ _ _ => hall, fun hne _ => hgiven hne,
      fun hne _ _ => hgiven hne⟩
    have hne : expanded fs paths ≠ [] := by
      rw [← hitems, items, ← hs.2, hsplit]
      simp
    exact (hclosed hne).last (hs.2.symm.trans hsplit) hn
  · obtain ⟨s, notices, heq, hsound, hends, hended, hopen, hitems⟩ := start_waiting hw ht hnil
    rw [heq, along_map (step_earlier notices)] at h
    rw [heq, always_map (step_earlier notices)]
    have hinv : Always step (fun s => s.Sound (fs.absent (expanded fs paths)) ∧
        s.Ends (fs.absent (expanded fs paths)) ∧ s.Ended (fs.absent (expanded fs paths))) s sts := by
      refine Along.always ?_ ⟨hsound, hends, hended⟩ h
      rintro s st ⟨hsound, hends, hended⟩ ⟨hp, hc, ht, hcounted⟩
      have hp' := proper_earlier.mp hp
      have hc' : s.Clear (fs.absent (expanded fs paths)) st :=
        clear_earlier (fun p hp => (mem_absent.mp hp).1) hc
      have ht' : s.Timely st := onEvent_earlier.mp ht
      exact ⟨hsound.step st hp' hc', hends.step hsound st hp' hc' ht',
        hended.step hends hsound st hp' hc' ht' (onEvent_earlier.mp hcounted)⟩
    exact hinv.imp fun s hs => hs.2.1.finishes hs.2.2 hs.1 hopen hitems

theorem run_finishes_nested :
    Always step (Finishes (expanded (onDisk ["/"]) ["/a/x", "/b"]))
        (start (onDisk ["/"]) ["/a/x", "/b"]) nested ∧
      (nested.foldl step (start (onDisk ["/"]) ["/a/x", "/b"])).notices =
        [⟨"/a/x".toList, false⟩, ⟨"/b".toList, true⟩] := by
  have ha : IsName ['a'] := isName_singleton (by decide) (by decide)
  have hb : IsName ['b'] := isName_singleton (by decide) (by decide)
  have hx : IsName ['x'] := isName_singleton (by decide) (by decide)
  have hna : Normal ['/', 'a'] := Normal.root.child ha
  refine ⟨run_finishes (onDisk_works (by decide) (by decide)) ⟨by decide, ?_, ?_⟩ ?_, by decide⟩
  · exact fun p hp _ => (nested_normal p hp).2
  · refine List.pairwise_of_forall_mem_list fun q _ p hp _ hthere => ?_
    rw [(nested_normal p hp).1] at hthere
    exact absurd hthere (by simp)
  · exact ⟨⟨⟨.root, ha, by decide, by decide, nofun⟩, trivial, trivial, trivial⟩,
      ⟨⟨hna, hx, by decide, by decide, nofun⟩, trivial, trivial, trivial⟩,
      ⟨⟨by decide, by decide⟩, by decide, by decide, by decide⟩,
      ⟨⟨.root, hb, by decide, by decide, nofun⟩, trivial, trivial, trivial⟩,
      ⟨⟨by decide, by decide⟩, by decide, by decide, by decide⟩,
      ⟨⟨by decide, by decide⟩, by decide, by decide, by decide⟩, trivial⟩

/-- A directory comes up with both of the files waited for in it, before its event is
read: each of the two is reported as final. -/
theorem two_finals :
    let burst : List WatchStep :=
      [.create ['/'] ['a'] (fun _ => false), .create ['/', 'a'] ['x'] (fun _ => false),
        .create ['/', 'a'] ['y'] (fun _ => false), .read 1]
    (onDisk ["/"]).Works ∧ Along step Proper (start (onDisk ["/"]) ["/a/x", "/a/y"]) burst ∧
      (burst.foldl step (start (onDisk ["/"]) ["/a/x", "/a/y"])).notices =
        [⟨"/a/x".toList, true⟩, ⟨"/a/y".toList, true⟩] ∧
      ¬ Always step (Finishes (expanded (onDisk ["/"]) ["/a/x", "/a/y"]))
        (start (onDisk ["/"]) ["/a/x", "/a/y"]) burst := by
  intro burst
  have ha : IsName ['a'] := isName_singleton (by decide) (by decide)
  have hx : IsName ['x'] := isName_singleton (by decide) (by decide)
  have hy : IsName ['y'] := isName_singleton (by decide) (by decide)
  have hna : Normal ['/', 'a'] := Normal.root.child ha
  have hnotices : (burst.foldl step (start (onDisk ["/"]) ["/a/x", "/a/y"])).notices =
      [⟨"/a/x".toList, true⟩, ⟨"/a/y".toList, true⟩] := by decide
  refine ⟨onDisk_works (by decide) (by decide), ?_, hnotices, fun h => ?_⟩
  · exact ⟨⟨.root, ha, by decide, by decide, nofun⟩, ⟨hna, hx, by decide, by decide, nofun⟩,
      ⟨hna, hy, by decide, by decide, nofun⟩, ⟨by decide, by decide⟩, trivial⟩
  · have hlast := h.last.last [] ⟨"/a/x".toList, true⟩ [⟨"/a/y".toList, true⟩] hnotices rfl
    cases hlast

end Watcher

end Tlm
