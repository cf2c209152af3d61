import Tlm.WatcherFinal

/-!
# When a final callback can be relied on

Who goes on with something when a callback is final relies on one thing: that nothing
of what was listed is still to come. That takes less than `Watcher.run_finishes` does.
A path that is listed twice, or that exists and is taken for one that is missing,
keeps its watch for ever; then there is no final callback, but none that is wrong
either.

The account that `WatchInfo.Tracks` keeps to the last name becomes an inequality here:
what is waited for is tracked **at least** as often as it has to be. It is short
only where a path that exists is reported while it has a row itself, and a callback
is wrong only where the first of several paths in a new directory exists and
another does not. An event that does neither is `WatchInfo.Safe`.
-/

namespace Tlm

namespace WatchInfo

variable {listed items debt : List (List Char)} {access : List Char → Bool}
  {queue : List (ℕ × List Char)} {info : WatchInfo}

/-! ## The account -/

/-- But for a `debt`, whatever is waited for is tracked; what is watched exists; and each
event in the queue is the only one for its path, tells of something that is there, and
was not there when its directory came to be watched. -/
structure Guards (listed items debt : List (List Char)) (access : List Char → Bool)
    (queue : List (ℕ × List Char)) (info : WatchInfo) : Prop where
  shape : info.Shape
  count : ∀ x, awaits listed items x + info.pends x ≤ info.tracked.count x + debt.count x
  alive : ∀ d ∈ info.dirs, access d = true
  real : ∀ wd n d, (wd, n) ∈ queue → (wd, d) ∈ info.wdTable → access (buildFilename d n) = true
  once : queue.Nodup
  named : ∀ e ∈ queue, IsName e.2
  fresh : ∀ wd n d, (wd, n) ∈ queue → (wd, d) ∈ info.wdTable → buildFilename d n ∉ info.dirs

/-- **Without a watch there is nothing to wait for.** -/
theorem Guards.unwatched (h : Guards listed items [] access queue info) (hnil : info.wdTable = []) :
    ∀ p ∈ listed, p ∈ items := by
  have htracked : ∀ {x}, 0 < awaits listed items x + info.pends x → x ∈ info.tracked := by
    intro x hx
    have hcount := h.count x
    rw [List.count_nil] at hcount
    exact List.count_pos_iff.mp (by omega)
  -- what is tracked has a directory with a row, which is tracked itself
  have hnone : ∀ len (x : List Char), x.length = len → x ∉ info.tracked := by
    intro len
    induction len using Nat.strongRecOn with
    | ind len ih =>
      intro x hlen hx
      obtain ⟨d, ns, hrow, n, hn, rfl⟩ := mem_tracked.mp hx
      have hkey : d ∈ info.keys := Table.mem_keys_of_mem hrow
      have hunwatched : d ∉ info.dirs := by
        rw [dirs, hnil]
        exact List.not_mem_nil
      have hlt := (h.shape.normal d hkey).length_lt (h.shape.names _ hrow n hn)
      refine ih d.length (hlen ▸ hlt) d rfl (htracked ?_)
      rw [pends_eq_one hkey hunwatched]
      omega
  intro p hp
  by_contra hi
  refine hnone p.length p rfl (htracked ?_)
  rw [awaits, if_pos ⟨hp, hi⟩]
  omega

/-- An event is taken off the queue. -/
theorem Guards.next {e : ℕ × List Char} (h : Guards listed items debt access (e :: queue) info) :
    Guards listed items debt access queue info :=
  ⟨h.shape, h.count, h.alive, fun wd n d hq => h.real wd n d (List.mem_cons_of_mem _ hq),
    (List.nodup_cons.mp h.once).2, fun e he => h.named e (List.mem_cons_of_mem _ he),
    fun wd n d hq => h.fresh wd n d (List.mem_cons_of_mem _ hq)⟩

section Event

variable {wd : ℕ} {dir name : List Char} {files : List (List Char)}

theorem dirs_of_strike {d : List Char} (h : d ∈ (strike wd dir name files info).dirs) :
    d ∈ info.dirs := by
  obtain ⟨w, hw⟩ := mem_dirs.mp h
  exact mem_dirs.mpr ⟨w, watch_of_strike hw⟩

/-- A struck name is owed. -/
theorem Guards.struck (h : Guards listed items [] access queue info)
    (hw : (wd, dir) ∈ info.wdTable) (hf : info.dirTable.lookup dir = some files) (hn : name ∈ files) :
    Guards listed items [buildFilename dir name] access queue (strike wd dir name files info) := by
  obtain ⟨hshape, htracked, hpends⟩ := h.shape.strike hw hf hn
  refine ⟨hshape, fun x => ?_, fun d hd => h.alive d (dirs_of_strike hd),
    fun w n d hq hwd => h.real w n d hq (watch_of_strike hwd), h.once, h.named,
    fun w n d hq hwd hd => h.fresh w n d hq (watch_of_strike hwd) (dirs_of_strike hd)⟩
  have hcount := h.count x
  rw [htracked x, List.count_nil] at hcount
  rw [hpends x]
  omega

/-- Reporting pays, for what has no row. -/
theorem Guards.pay {new : List (List Char)}
    (h : Guards listed items (new ++ debt) access queue info) (hkeys : ∀ p ∈ new, p ∉ info.keys) :
    Guards listed (items ++ new) debt access queue info := by
  refine ⟨h.shape, fun x => ?_, h.alive, h.real, h.once, h.named, h.fresh⟩
  by_cases hx : x ∈ new
  · -- nothing asks for it any more, however often it was owed
    have hawaits : awaits listed (items ++ new) x = 0 :=
      if_neg fun hp => hp.2 (List.mem_append_right _ hx)
    rw [hawaits, pends_eq_zero fun hk => absurd hk (hkeys x hx)]
    exact Nat.zero_le _
  · have hawaits : awaits listed (items ++ new) x = awaits listed items x := by
      simp [awaits, hx]
    have hcount := h.count x
    rw [List.count_append, List.count_eq_zero_of_not_mem hx, Nat.zero_add] at hcount
    rw [hawaits]
    exact hcount

/-- The debt of a directory is taken over by the names it is waited for in. -/
theorem Guards.steal {p : List Char} (h : Guards listed items [p] access queue info)
    {pending : List (List Char)} (hp : info.dirTable.lookup p = some pending) (hu : p ∉ info.dirs) :
    Guards listed items (pending.map (buildFilename p)) access queue
      { info with dirTable := Table.remove p info.dirTable } := by
  refine ⟨h.shape.steal hu, fun x => ?_, h.alive, h.real, h.once, h.named, h.fresh⟩
  have hcount := h.count x
  have hrows := Table.count_rows_remove (f := buildFilename) h.shape.keysNodup hp x
  rw [pends_steal (Table.mem_keys_of_mem (Table.mem_of_lookup hp)) hu x] at hcount
  simp only [tracked] at hcount ⊢
  omega

/-- Names are paid for by watching their directory. -/
theorem Guards.watch {gone : List (List Char)}
    (h : Guards listed items (gone.map (buildFilename dir)) access queue info) (hd : Normal dir)
    (hdir : access dir = true) (hn : ∀ n ∈ gone, IsName n) (hnew : dir ∉ info.keys)
    (hwd : wd ∉ Table.keys info.wdTable) (hq : ∀ e ∈ queue, e.1 ≠ wd)
    (hover : ∀ w n d, (w, n) ∈ queue → (w, d) ∈ info.wdTable → buildFilename d n ≠ dir) :
    Guards listed items [] access queue
      ⟨info.dirTable ++ [(dir, gone)], info.wdTable ++ [(wd, dir)]⟩ := by
  -- an event in the queue is not one of the new watch
  have hold : ∀ w n d, (w, n) ∈ queue → (w, d) ∈ info.wdTable ++ [(wd, dir)] →
      (w, d) ∈ info.wdTable := by
    intro w n d hmem hw
    rcases List.mem_append.mp hw with hw | hw
    · exact hw
    · cases List.mem_singleton.mp hw
      exact absurd rfl (hq _ hmem)
  refine ⟨h.shape.watch hd hn hnew hwd, fun x => ?_, fun d hd => ?_, ?_, h.once, h.named, ?_⟩
  · have hcount := h.count x
    rw [tracked, Table.rows_concat, List.count_append, pends_watch hnew, List.count_nil]
    exact hcount
  · rw [dirs_add] at hd
    rcases List.mem_append.mp hd with hd | hd
    · exact h.alive d hd
    · rw [List.mem_singleton.mp hd]
      exact hdir
  · exact fun w n d hmem hw => h.real w n d hmem (hold w n d hmem hw)
  · intro w n d hmem hw hd
    rw [dirs_add] at hd
    rcases List.mem_append.mp hd with hd | hd
    · exact h.fresh w n d hmem (hold w n d hmem hw) hd
    · exact hover w n d hmem (hold w n d hmem hw) (List.mem_singleton.mp hd)

/-! ## One event -/

/-- An event that a final callback can be relied on for. If it is about a directory that
something is waited for in, then what is reported at once — the names up to the first
that does not exist — has no row itself; and if it strikes the last name of the last
watch, that is none of the names or all of them. -/
def Safe (access : List Char → Bool) (info : WatchInfo) (nwatch wd : ℕ) (name : List Char) : Prop :=
  ∀ dir ∈ info.wdTable.lookup wd, ∀ files ∈ info.dirTable.lookup dir, name ∈ files →
    ∀ pending ∈ info.dirTable.lookup (buildFilename dir name),
      (∀ n ∈ pending.takeWhile fun n => access (buildFilename (buildFilename dir name) n),
        buildFilename (buildFilename dir name) n ∉ Table.keys info.dirTable) ∧
      (files = [name] → nwatch = 1 →
        (pending.takeWhile fun n => access (buildFilename (buildFilename dir name) n)) = [] ∨
        (pending.takeWhile fun n => access (buildFilename (buildFilename dir name) n)) = pending)

instance (access : List Char → Bool) (info : WatchInfo) (nwatch wd : ℕ) (name : List Char) :
    Decidable (info.Safe access nwatch wd name) := by
  unfold Safe
  infer_instance

/-- What one event leaves: the account in order, and no watch if it was final. -/
def Settled (listed items : List (List Char)) (access : List Char → Bool)
    (queue : List (ℕ × List Char)) (r : WatchInfo × ℕ × List Notice) : Prop :=
  Guards listed (items ++ r.2.2.map Notice.item) [] access queue r.1 ∧
    ∀ n ∈ r.2.2, n.isFinal = true → r.1.wdTable = []

/-- The names waited for in a directory that has come up. -/
theorem Guards.settle {fs : Fs} {names : List (List Char)} {nwatch : ℕ}
    (hacc : ∀ p, fs.access (String.ofList p) = access p) (hwatch : ∀ d, fs.inotifyAddWatch d = some wd)
    (h : Guards listed items (names.map (buildFilename dir)) access queue info)
    (hd : Normal dir) (hdir : access dir = true) (hn : ∀ n ∈ names, IsName n)
    (hnew : dir ∉ info.keys) (hfresh : wd ∉ Table.keys info.wdTable) (hq : ∀ e ∈ queue, e.1 ≠ wd)
    (hover : ∀ w n d, (w, n) ∈ queue → (w, d) ∈ info.wdTable → buildFilename d n ≠ dir)
    (hkeys : ∀ n ∈ names.takeWhile fun n => access (buildFilename dir n),
      buildFilename dir n ∉ info.keys)
    (hlast : nwatch = 0 → info.wdTable = [] ∧
      ((names.takeWhile fun n => access (buildFilename dir n)) = [] ∨
        (names.takeWhile fun n => access (buildFilename dir n)) = names)) :
    Settled listed items access queue (addPending fs dir names info nwatch) := by
  obtain ⟨hinfo, -, hnotices⟩ := addPending_span hd (by rw [hacc]; exact hdir) (hwatch _) hn hnew
    hfresh nwatch
  simp only [hacc] at hinfo hnotices
  have hsplit := List.takeWhile_append_dropWhile (p := fun n => access (buildFilename dir n)) (l := names)
  generalize hhere : (names.takeWhile fun n => access (buildFilename dir n)) = here at *
  generalize hgone : (names.dropWhile fun n => access (buildFilename dir n)) = gone at *
  constructor
  · have hitems : (addPending fs dir names info nwatch).2.2.map Notice.item =
        here.map (buildFilename dir) := by
      rw [hnotices, List.map_map]
      rfl
    rw [← hsplit, List.map_append] at h
    have hpaid := h.pay fun p hp => by
      obtain ⟨n, hn, rfl⟩ := List.mem_map.mp hp
      exact hkeys n hn
    rw [hitems, hinfo]
    split
    · rename_i hnil
      rw [hnil] at hpaid
      exact hpaid
    · refine hpaid.watch hd hdir (fun n hmem => hn n ?_) hnew hfresh hq hover
      rw [← hsplit]
      exact List.mem_append_right _ hmem
  · intro n hmem hfinal
    rw [hnotices] at hmem
    obtain ⟨m, hm, rfl⟩ := List.mem_map.mp hmem
    obtain ⟨hnil, hall⟩ := hlast (by simpa using hfinal)
    -- something was reported, so everything was
    have hfull : here = names := hall.resolve_left (List.ne_nil_of_mem hm)
    have hrest : gone = [] := by
      rw [hfull] at hsplit
      exact List.append_right_eq_self.mp hsplit
    rw [hinfo, if_pos hrest]
    exact hnil

/-- An event is the only one for its path. -/
theorem Guards.only (h : Guards listed items debt access ((wd, name) :: queue) info)
    (hw : (wd, dir) ∈ info.wdTable) {w : ℕ} {n d : List Char} (hmem : (w, n) ∈ queue)
    (hwd : (w, d) ∈ info.wdTable) : buildFilename d n ≠ buildFilename dir name := by
  intro he
  have hnormal : ∀ {w d}, (w, d) ∈ info.wdTable → Normal d :=
    fun hw => h.shape.normal _ (h.shape.watched _ (mem_dirs.mpr ⟨_, hw⟩))
  have hn : IsName n := h.next.named _ hmem
  have hname : IsName name := h.named _ List.mem_cons_self
  obtain ⟨hdeq, hneq⟩ := (hnormal hwd).buildFilename_inj hn (hnormal hw) hname he
  have hsame := List.inj_on_of_nodup_map h.shape.dirsNodup hwd hw hdeq
  have hweq : w = wd := congrArg Prod.fst hsame
  have hnot := (List.nodup_cons.mp h.once).1
  rw [← hweq, ← hneq] at hnot
  exact hnot hmem

/-- A directory comes up that something is waited for in. -/
theorem Guards.rescan {fs : Fs} {wd' nwatch : ℕ} {pending : List (List Char)}
    (hacc : ∀ p, fs.access (String.ofList p) = access p)
    (hwatch : ∀ d, fs.inotifyAddWatch d = some wd')
    (h : Guards listed items [] access ((wd, name) :: queue) info)
    (hw : (wd, dir) ∈ info.wdTable) (hf : info.dirTable.lookup dir = some files) (hn : name ∈ files)
    (hfresh : wd' ∉ Table.keys info.wdTable) (hq : ∀ e ∈ queue, e.1 ≠ wd')
    (hp : (strike wd dir name files info).dirTable.lookup (buildFilename dir name) = some pending)
    (hrow : (buildFilename dir name, pending) ∈ info.dirTable)
    (hkeys : ∀ n ∈ pending.takeWhile fun n => access (buildFilename (buildFilename dir name) n),
      buildFilename (buildFilename dir name) n ∉ info.keys)
    (hlast : nwatch = 0 → (strike wd dir name files info).wdTable = [] ∧
      ((pending.takeWhile fun n => access (buildFilename (buildFilename dir name) n)) = [] ∨
        (pending.takeWhile fun n => access (buildFilename (buildFilename dir name) n)) = pending)) :
    Settled listed items access queue
      (addPending fs (buildFilename dir name) pending
        { strike wd dir name files info with
          dirTable := Table.remove (buildFilename dir name) (strike wd dir name files info).dirTable }
        nwatch) := by
  have hdir := Table.mem_of_lookup hf
  have hpath := (h.shape.normal dir (Table.mem_keys_of_mem hdir)).child (h.shape.names _ hdir name hn)
  have hu := h.fresh wd name dir List.mem_cons_self hw
  refine Guards.settle hacc hwatch
    ((h.next.struck hw hf hn).steal hp fun hd => hu (dirs_of_strike hd)) hpath
    (h.real wd name dir List.mem_cons_self hw) (h.shape.names _ hrow)
    (fun hk => (mem_keys_drop.mp hk).2 rfl) ?_ hq ?_ ?_ hlast
  · intro hk
    obtain ⟨d, hr⟩ := Table.mem_keys.mp hk
    exact hfresh (Table.mem_keys_of_mem (watch_of_strike hr))
  · exact fun w n d hmem hwd => h.only hw hmem (watch_of_strike hwd)
  · intro n hmem hk
    obtain ⟨ns, hr⟩ := Table.mem_keys.mp (mem_keys_drop.mp hk).1
    refine hkeys n hmem ?_
    rcases row_of_strike hr with ⟨he, -⟩ | ⟨-, hr⟩
    · rw [he]
      exact Table.mem_keys_of_mem hdir
    · exact Table.mem_keys_of_mem hr

/-- **One event**, if it is safe. -/
theorem Guards.watcherEvent {fs : Fs} {wd' nwatch : ℕ}
    (hacc : ∀ p, fs.access (String.ofList p) = access p)
    (hwatch : ∀ d, fs.inotifyAddWatch d = some wd')
    (h : Guards listed items [] access ((wd, name) :: queue) info)
    (hlen : info.wdTable.length ≤ nwatch) (hfresh : wd' ∉ Table.keys info.wdTable)
    (hq : ∀ e ∈ queue, e.1 ≠ wd') (hsafe : info.Safe access nwatch wd name) :
    Settled listed items access queue (Tlm.watcherEvent fs info nwatch wd name) := by
  rcases watcherEvent_cases h.shape fs nwatch wd name with
    ⟨heq, -⟩ | ⟨dir, files, hl, hf, hn, hcases⟩
  · rw [heq]
    exact ⟨by simpa using h.next, by simp⟩
  · have hw := Table.mem_of_lookup hl
    have hpos : 0 < nwatch := (List.length_pos_of_mem hw).trans_le hlen
    have hlen' : (strike wd dir name files info).wdTable.length ≤
        if files.erase name = [] then nwatch - 1 else nwatch := length_strike hw hlen
    have hnil : (if files.erase name = [] then nwatch - 1 else nwatch) = 0 →
        (strike wd dir name files info).wdTable = [] := fun hzero =>
      List.eq_nil_of_length_eq_zero (Nat.le_zero.mp (hzero ▸ hlen'))
    rcases hcases with ⟨-, hkey, heq⟩ | ⟨pending, hrow, hp, heq⟩
    · rw [heq]
      refine ⟨?_, fun n hmem hfinal => ?_⟩
      · have howed : Guards listed items ([buildFilename dir name] ++ []) access queue
            (strike wd dir name files info) := h.next.struck hw hf hn
        refine howed.pay fun p hmem => ?_
        rw [List.mem_singleton.mp hmem]
        exact hkey
      · rw [List.mem_singleton.mp hmem] at hfinal
        exact hnil (by simpa using hfinal)
    · obtain ⟨hkeys, hlast⟩ := hsafe dir hl files hf hn pending hrow
      rw [heq]
      refine h.rescan hacc hwatch hw hf hn hfresh hq hp (Table.mem_of_lookup hrow) hkeys fun hzero => ?_
      -- the count was one, and its watch is given up
      have herase : files.erase name = [] := by
        by_contra herase
        rw [if_neg herase] at hzero
        omega
      refine ⟨hnil hzero, hlast (eq_singleton_of_erase hn herase) ?_⟩
      rw [if_pos herase] at hzero
      omega

end Event

/-- Something comes up: if the directory is watched, its event is queued. -/
theorem Guards.create {access' : List Char → Bool} {new : List (ℕ × List Char)} {dir name : List Char}
    (h : Guards listed items [] access queue info) (hn : IsName name)
    (hmono : ∀ p, access p = true → access' p = true)
    (hnot : access (buildFilename dir name) = false) (hnew : access' (buildFilename dir name) = true)
    (hsingle : new.Nodup)
    (hqueued : ∀ e, e ∈ new ↔ ∃ wd, (wd, dir) ∈ info.wdTable ∧ e = (wd, name)) :
    Guards listed items [] access' (queue ++ new) info := by
  -- a new event is about the new path
  have hpath : ∀ wd n d, (wd, n) ∈ new → (wd, d) ∈ info.wdTable →
      buildFilename d n = buildFilename dir name := by
    intro wd n d hmem hw
    obtain ⟨w, hw', he⟩ := (hqueued _).mp hmem
    cases he
    rw [Table.eq_of_mem h.shape.wdsNodup hw hw']
  refine ⟨h.shape, h.count, fun d hd => hmono d (h.alive d hd), ?_, ?_, ?_, ?_⟩
  · intro wd n d hmem hw
    rcases List.mem_append.mp hmem with hmem | hmem
    · exact hmono _ (h.real wd n d hmem hw)
    · rw [hpath wd n d hmem hw]
      exact hnew
  · rw [List.nodup_append]
    refine ⟨h.once, hsingle, ?_⟩
    rintro e he e' he' rfl
    obtain ⟨wd, hw, rfl⟩ := (hqueued e).mp he'
    have hreal := h.real wd name dir he hw
    rw [hnot] at hreal
    cases hreal
  · intro e he
    rcases List.mem_append.mp he with he | he
    · exact h.named e he
    · obtain ⟨wd, -, rfl⟩ := (hqueued e).mp he
      exact hn
  · intro wd n d hmem hw
    rcases List.mem_append.mp hmem with hmem | hmem
    · exact h.fresh wd n d hmem hw
    · rw [hpath wd n d hmem hw]
      intro hd
      rw [h.alive _ hd] at hnot
      cases hnot

end WatchInfo

/-! ## The scan -/

/-- A list of paths that the table can be kept for: from the first that does not exist on
they are in normal form, and name something below the root. -/
def Fs.Spelt (fs : Fs) (listed : List (List Char)) : Prop :=
  ∀ p ∈ listed.dropWhile fun p => fs.access (String.ofList p), Normal p ∧ p ≠ ['/']

section Scan

variable {fs : Fs} {info : WatchInfo} {listed items : List (List Char)} {p : List Char}

theorem awaits_concat (x : List Char) :
    awaits (listed ++ [p]) items x ≤ awaits listed items x + [p].count x := by
  by_cases hx : x = p
  · subst hx
    rw [List.count_singleton_self]
    exact awaits_le_one.trans (Nat.le_add_left 1 _)
  · simp [awaits, hx, List.count_eq_zero_of_not_mem]

/-- A path that is reported does not have to be waited for. -/
theorem awaits_reported (x : List Char) :
    awaits (listed ++ [p]) (items ++ [p]) x ≤ awaits listed items x := by
  by_cases hx : x = p
  · subst hx
    have hzero : awaits (listed ++ [x]) (items ++ [x]) x = 0 := if_neg (by simp)
    omega
  · simp [awaits, hx]

/-- The account of the scan, at a time when no event can have happened. -/
structure Accounts (fs : Fs) (listed items : List (List Char)) (info : WatchInfo) : Prop where
  laid : Laid fs info
  count : ∀ x, awaits listed items x + info.pends x ≤ info.tracked.count x
  alive : ∀ d ∈ info.dirs, fs.access (String.ofList d) = true

theorem Accounts.guards (h : Accounts fs listed items info) :
    info.Guards listed items [] (fun p => fs.access (String.ofList p)) [] :=
  ⟨h.laid.shape, h.count, h.alive, nofun, List.nodup_nil, nofun, nofun⟩

theorem Accounts.ready (h : Accounts fs listed items info) :
    Accounts fs (listed ++ [p]) (items ++ [p]) info :=
  ⟨h.laid, fun x => (Nat.add_le_add_right (awaits_reported x) _).trans (h.count x), h.alive⟩

theorem Accounts.added (h : Accounts fs listed items info) {info' : WatchInfo}
    (hext : Extends fs p info info') : Accounts fs (listed ++ [p]) items info' := by
  refine ⟨hext.laid, fun x => ?_, fun d hd => ?_⟩
  · have hcount := h.count x
    have hgrow := hext.count x
    have hmore : awaits (listed ++ [p]) items x ≤ awaits listed items x + [p].count x :=
      awaits_concat x
    omega
  · rcases hext.dirs d hd with hd | hd
    · exact h.alive d hd
    · exact hd

/-- **The scan of paths in normal form** keeps the account, and if it counts nothing to
wait for the table is as it was. -/
theorem Accounts.scan (hw : fs.Works) {paths : List String}
    (hn : ∀ p ∈ expanded fs paths, Normal p ∧ p ≠ ['/']) (h : Accounts fs listed items info)
    (nwatch : ℕ) :
    let r := scan fs (paths.map some) nwatch info
    Accounts fs (listed ++ expanded fs paths) (items ++ r.1.map Notice.item) r.2.2 ∧
      nwatch ≤ r.2.1 ∧ (r.2.1 = nwatch → r.2.2 = info) := by
  intro r
  induction paths generalizing listed items info nwatch with
  | nil => exact ⟨by simpa [r, Tlm.scan, expanded] using h, le_rfl, fun _ => rfl⟩
  | cons path rest ih =>
    have hcons : expanded fs (path :: rest) =
        [expandFilePath fs path.toList] ++ expanded fs rest := rfl
    obtain ⟨hnormal, hne⟩ := hn _ (List.mem_cons_self)
    have hrest : ∀ p ∈ expanded fs rest, Normal p ∧ p ≠ ['/'] :=
      fun p hp => hn p (List.mem_cons_of_mem _ hp)
    rw [hcons, ← List.append_assoc]
    rcases addWatch_child hw hnormal hne (Nat.lt_add_of_pos_right Nat.two_pos) h.laid with
      ⟨-, hready⟩ | ⟨info', hadd, hext⟩
    · -- reported at once, and the table is as it was
      obtain ⟨hacc, hle, hsame⟩ := ih hrest h.ready nwatch
      simp only [r, List.map_cons, Tlm.scan, hready]
      exact ⟨by simpa using hacc, hle, hsame⟩
    · obtain ⟨hacc, hle, -⟩ := ih hrest (h.added hext) (nwatch + 1)
      simp only [r, List.map_cons, Tlm.scan, hadd]
      exact ⟨hacc, by omega, fun he => by omega⟩

/-- The same for a whole list, with what is found ready in front. -/
theorem scan_accounts (hw : fs.Works) {paths : List String} (hs : fs.Spelt (expanded fs paths))
    (h : Accounts fs listed items {}) :
    let r := scan fs (paths.map some) 0 {}
    Accounts fs (listed ++ expanded fs paths) (items ++ r.1.map Notice.item) r.2.2 ∧
      (r.2.1 = 0 → r.2.2 = {}) := by
  intro r
  induction paths generalizing listed items with
  | nil => exact ⟨by simpa [r, scan, expanded] using h, fun _ => rfl⟩
  | cons path rest ih =>
    have hcons : expanded fs (path :: rest) =
        [expandFilePath fs path.toList] ++ expanded fs rest := rfl
    rcases hacc : fs.access (String.ofList (expandFilePath fs path.toList)) with _ | _
    · have hall : ∀ p ∈ expanded fs (path :: rest), Normal p ∧ p ≠ ['/'] := by
        rw [Fs.Spelt, hcons, List.singleton_append, List.dropWhile_cons_of_neg (by simp [hacc])] at hs
        exact hs
      obtain ⟨hend, -, hsame⟩ := Accounts.scan hw hall h 0
      exact ⟨hend, hsame⟩
    · have hready := addWatch_ready hw ((expandFilePath fs path.toList).length + 1) hacc
        (by simp [WatchInfo.keys, Table.keys] : pathGetDirname _ ∉ WatchInfo.keys {})
      have hs' : fs.Spelt (expanded fs rest) := by
        rw [Fs.Spelt, hcons, List.singleton_append, List.dropWhile_cons_of_pos (by simp [hacc])] at hs
        exact hs
      obtain ⟨hend, hsame⟩ := ih hs' h.ready
      rw [hcons, ← List.append_assoc]
      simp only [r, List.map_cons, scan, hready]
      exact ⟨by simpa using hend, hsame⟩

end Scan

/-! ## Whole runs -/

namespace Watcher

variable {listed : List (List Char)} {s : Watcher}

/-- All listed files have been reported. -/
def Complete (listed : List (List Char)) (s : Watcher) : Prop := ∀ p ∈ listed, p ∈ s.items

/-- Nothing is watched any more. -/
def Unwatched (s : Watcher) : Prop := ∀ info, s.source = some info → info.wdTable = []

/-- A step whose event, if it reads one, is safe. -/
def Safe (s : Watcher) (st : WatchStep) : Prop := s.OnEvent WatchInfo.Safe st

instance (s : Watcher) (st : WatchStep) : Decidable (s.Safe st) :=
  inferInstanceAs (Decidable (s.OnEvent WatchInfo.Safe st))

/-- The invariant of a run: once nothing is watched any more everything was reported, and
that is so as soon as a callback was final. -/
structure Guarded (listed : List (List Char)) (s : Watcher) : Prop where
  guards : ∀ info, s.source = some info → info.Guards listed s.items [] s.access s.queue
  nwatch : ∀ info n, s.source = some info → s.nwatch = some n → info.wdTable.length ≤ n
  finished : s.source = none → s.Complete listed
  final : ∀ n ∈ s.notices, n.isFinal = true → s.Unwatched

/-- Without a source nothing is watched. -/
theorem unwatched_of_none (h : s.source = none) : s.Unwatched := by
  intro info hsome
  rw [h] at hsome
  exact absurd hsome (by simp)

theorem Guarded.complete (h : s.Guarded listed) (hu : s.Unwatched) : s.Complete listed := by
  rcases hs : s.source with _ | info
  · exact h.finished hs
  · exact (h.guards info hs).unwatched (hu info hs)

/-- A source that is given up has no watch left. -/
theorem Guarded.remove (h : s.Guarded listed) {info : WatchInfo} (hs : s.source = some info)
    (hzero : s.count info = 0) : s.remove.Guarded listed := by
  have hunwatched : s.Unwatched := by
    intro info' hs'
    obtain rfl : info = info' := Option.some.inj (hs.symm.trans hs')
    have hle := length_le_count h.nwatch hs
    rw [hzero] at hle
    exact List.eq_nil_of_length_eq_zero (Nat.le_zero.mp hle)
  exact ⟨by simp [Watcher.remove], by simp [Watcher.remove], fun _ => h.complete hunwatched,
    fun _ _ _ => unwatched_of_none rfl⟩

theorem Guarded.leave (h : s.Guarded listed) : Guarded listed { s with nwatch := none } :=
  ⟨h.guards, nofun, h.finished, h.final⟩

theorem nodup_creation (dir name : List Char) : (s.creation dir name).Nodup := by
  simp only [creation]
  split
  · exact List.nodup_nil
  · split
    · exact List.nodup_nil
    · exact List.nodup_singleton _

theorem Guarded.create (h : s.Guarded listed) {dir name : List Char} {spelt : List Char → Bool}
    (hp : s.Proper (.create dir name spelt)) : (s.step (.create dir name spelt)).Guarded listed := by
  obtain ⟨-, hn, -, hnot, -⟩ := hp
  refine ⟨fun info hs => ?_, h.nwatch, h.finished, h.final⟩
  have hguards := h.guards info hs
  refine hguards.create hn (fun p hp => ?_) hnot ?_ (nodup_creation dir name)
    (mem_creation hs hguards.shape)
  · simp [step, hp]
  · simp [step]

theorem Guarded.read (h : s.Guarded listed) {wd : ℕ} (hp : s.Proper (.read wd))
    (hsafe : s.Safe (.read wd)) : (s.step (.read wd)).Guarded listed := by
  obtain ⟨hfresh, hused⟩ := hp
  rcases read_cases s wd with heq | ⟨info, hs, hzero, heq⟩ | heq | ⟨info, w, name, queue, hs, hq, heq⟩
  · rwa [heq]
  · rw [heq]
    exact h.remove hs hzero
  · rw [heq]
    exact h.leave
  · have hguards := h.guards info hs
    rw [hq] at hguards
    have hlen := length_le_count h.nwatch hs
    have hacc : ∀ p, (s.fs wd).access (String.ofList p) = s.access p := by
      intro p
      simp [fs]
    have hq' : ∀ e ∈ queue, e.1 ≠ wd := by
      intro e he
      exact hused e (by rw [hq]; exact List.mem_cons_of_mem _ he)
    obtain ⟨hguards', hfinal⟩ := hguards.watcherEvent hacc (fun _ => rfl) hlen (hfresh info hs) hq'
      (hsafe info hs (w, name) (by rw [hq]; rfl))
    rw [heq]
    refine ⟨fun info' hs' => ?_, fun info' n hs' hn => ?_, by simp, fun n hn hf info' hs' => ?_⟩
    · cases hs'
      rw [items, List.map_append]
      exact hguards'
    · cases hs'
      cases hn
      exact watcherEvent_length _ _ _ _ _ hlen
    · cases hs'
      rcases List.mem_append.mp hn with hn | hn
      · -- it was final before, so there was no watch to take the event for
        have hnil := h.final n hn hf info hs
        simp only [watcherEvent, hnil, List.lookup_nil]
      · exact hfinal n hn hf

/-- **One step** keeps the invariant. -/
theorem Guarded.step (h : s.Guarded listed) (st : WatchStep) (hp : s.Proper st)
    (hsafe : s.Safe st) : (s.step st).Guarded listed := by
  cases st with
  | create dir name spelt => exact h.create hp
  | read wd => exact h.read hp hsafe
  | ignored =>
    rcases ignored_cases s with heq | ⟨info, hs, hzero, heq⟩ | heq
    · rwa [heq]
    · rw [heq]
      exact h.remove hs hzero
    · rw [heq]
      exact h.leave

/-- What is not watched reports nothing, and is not watched again. -/
theorem Unwatched.step (h : s.Unwatched) (st : WatchStep) :
    (s.step st).Unwatched ∧ (s.step st).notices = s.notices := by
  cases st with
  | create dir name spelt => exact ⟨h, rfl⟩
  | ignored =>
    rcases ignored_cases s with heq | ⟨info, -, -, heq⟩ | heq
    · rw [heq]
      exact ⟨h, rfl⟩
    · rw [heq]
      exact ⟨unwatched_of_none rfl, rfl⟩
    · rw [heq]
      exact ⟨h, rfl⟩
  | read wd =>
    rcases read_cases s wd with heq | ⟨info, -, -, heq⟩ | heq | ⟨info, w, name, queue, hs, hq, heq⟩
    · rw [heq]
      exact ⟨h, rfl⟩
    · rw [heq]
      exact ⟨unwatched_of_none rfl, rfl⟩
    · rw [heq]
      exact ⟨h, rfl⟩
    · have hnone : watcherEvent (s.fs wd) info (s.count info) w name = (info, s.count info, []) := by
        simp only [watcherEvent, h info hs, List.lookup_nil]
      rw [heq]
      simp only [hnone, List.append_nil]
      refine ⟨fun info' hs' => ?_, trivial⟩
      cases hs'
      exact h info hs

/-- Nothing that was reported is taken back. -/
theorem step_notices (s : Watcher) (st : WatchStep) :
    ∃ ns, (s.step st).notices = s.notices ++ ns := by
  cases st with
  | create dir name spelt => exact ⟨[], (List.append_nil _).symm⟩
  | ignored =>
    rcases ignored_cases s with heq | ⟨info, -, -, heq⟩ | heq
    · exact ⟨[], by rw [heq, List.append_nil]⟩
    · exact ⟨[], by rw [heq, List.append_nil]; rfl⟩
    · exact ⟨[], by rw [heq, List.append_nil]⟩
  | read wd =>
    rcases read_cases s wd with heq | ⟨info, -, -, heq⟩ | heq | ⟨info, w, name, queue, -, -, heq⟩
    · exact ⟨[], by rw [heq, List.append_nil]⟩
    · exact ⟨[], by rw [heq, List.append_nil]; rfl⟩
    · exact ⟨[], by rw [heq, List.append_nil]⟩
    · exact ⟨_, by rw [heq]⟩

/-- **The scan of a list** leaves the invariant behind, and is over, or else something is
missing and nobody was told that it is over. -/
theorem start_guarded {fs : Fs} (hw : fs.Works) {paths : List String}
    (hs : fs.Spelt (expanded fs paths)) :
    (start fs paths).Guarded (expanded fs paths) ∧
      ((start fs paths).source = none ∨ ((start fs paths).source ≠ none ∧
        fs.absent (expanded fs paths) ≠ [] ∧ (start fs paths).notices.filter Notice.isFinal = [])) := by
  have hnil : Accounts fs [] [] {} :=
    ⟨⟨WatchInfo.shape_nil, by simp⟩, by simp [awaits, WatchInfo.pends, WatchInfo.keys, Table.keys],
      List.forall_mem_nil _⟩
  obtain ⟨hacc, hempty⟩ := scan_accounts hw hs hnil
  have hstart : start fs paths =
      { access := fun p => fs.access (String.ofList p)
        source := if (scan fs (paths.map some) 0 {}).2.1 = 0 then none
          else some (scan fs (paths.map some) 0 {}).2.2
        notices := (scan fs (paths.map some) 0 {}).1 } := by
    simp only [start, watchForFiles, hw.init, if_true]
  rw [List.nil_append, List.nil_append] at hacc
  by_cases hzero : (scan fs (paths.map some) 0 {}).2.1 = 0
  · rw [if_pos hzero] at hstart
    rw [hstart]
    refine ⟨⟨by simp, by simp, fun _ => ?_, fun _ _ _ => unwatched_of_none rfl⟩, Or.inl rfl⟩
    -- the table is empty
    rw [hempty hzero] at hacc
    exact hacc.guards.unwatched rfl
  · rw [if_neg hzero] at hstart
    have hopen := scan_open fs paths {} hzero
    rw [hstart]
    refine ⟨⟨fun info hsome => ?_, by simp, by simp, fun n hn hfinal => ?_⟩,
      Or.inr ⟨Option.some_ne_none _, ?_, ?_⟩⟩
    · cases hsome
      exact hacc.guards
    · rw [hopen n hn] at hfinal
      cases hfinal
    · intro habsent
      have hall : ∀ p ∈ expanded fs paths, fs.access (String.ofList p) = true := by
        simpa [Fs.absent] using habsent
      have hnormal : ∀ p ∈ expanded fs paths, fs.access (String.ofList p) = false → Normal p := by
        intro p hp hmiss
        rw [hall p hp] at hmiss
        cases hmiss
      have horder : fs.InOrder (expanded fs paths) := by
        refine List.pairwise_of_forall_mem_list fun q hq p _ hmiss => ?_
        rw [hall q hq] at hmiss
        cases hmiss
      obtain ⟨-, -, hcount, -⟩ := start_eq hw hnormal horder
      rw [habsent] at hcount
      exact hzero hcount
    · rw [List.filter_eq_nil_iff]
      intro n hn
      simpa using hopen n hn

end Watcher

end Tlm
