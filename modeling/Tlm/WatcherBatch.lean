import Mathlib.Algebra.GroupWithZero.Nat
import Tlm.WatcherEvent

/-!
# One read, several events

`read` on an inotify descriptor returns as many of the queued events as fit into
the buffer. `_inotify_watcher_cb` leaves room for one event with the longest
name, so that several with shorter names fit, and then looks at the **first**
event of the buffer alone. The machine of this module makes the reads explicit: a
run is the sequence of what `read` returns, and how it is divided among dispatches
of the callback.

What a run reports does not depend on the division: the callback counts its
watches anew in every dispatch, and the count is never below the number of watches
(`watcherEvent_length`), so a dispatch that gives up has nothing left to wait for.
It does depend on the buffers, and `reported_batching` says when.
-/

namespace Tlm

/-! ## Events and buffers -/

/-- The name of a directory entry. -/
structure FileName where
  /-- its characters -/
  chars : List Char
  /-- a name the kernel accepts -/
  isName : IsName chars
  /-- `NAME_MAX`, in bytes -/
  short : (chars.map Char.utf8Size).sum ≤ 255

/-- An event in the queue of an inotify descriptor. -/
structure InotifyEvent where
  /-- the watch it belongs to -/
  wd : ℕ
  /-- the entry that was created; the events without a name are `IN_IGNORED` and
  `IN_Q_OVERFLOW`, whose descriptor is not in use -/
  name : Option FileName
  /-- the file system as the handling of the event finds it -/
  fs : Fs

/-- `sizeof (struct inotify_event)`. -/
def inotifyHeader : ℕ := 16

/-- What an event takes in a buffer: the name ends with a null byte and is padded to a
multiple of the header. -/
def InotifyEvent.size (e : InotifyEvent) : ℕ :=
  inotifyHeader + match e.name with
    | none => 0
    | some n => ((n.chars.map Char.utf8Size).sum + 16) / 16 * 16

/-- The `size` of `_inotify_watcher_cb`, with `PATH_MAX` 4096. -/
def inotifyBuffer : ℕ := inotifyHeader + 4096 + 1

/-- Any event fits. -/
theorem InotifyEvent.size_le (e : InotifyEvent) : e.size ≤ inotifyBuffer := by
  unfold size inotifyBuffer
  split
  · omega
  · rename_i n _
    have hshort := n.short
    omega

theorem InotifyEvent.size_named {e : InotifyEvent} {n : FileName} (h : e.name = some n) :
    inotifyHeader < e.size := by
  simp only [size, h]
  omega

/-- What a `read` returns: one or more events that fit. -/
structure Buffer where
  /-- the first event -/
  first : InotifyEvent
  /-- the events behind it -/
  behind : List InotifyEvent
  /-- they fit -/
  fits : first.size + (behind.map InotifyEvent.size).sum ≤ inotifyBuffer

namespace Buffer

/-- The events of a buffer. -/
def events (b : Buffer) : List InotifyEvent := b.first :: b.behind

/-- What `read` returns when it succeeds. -/
def size (b : Buffer) : ℕ := b.first.size + (b.behind.map InotifyEvent.size).sum

/-- An event in a buffer of its own. -/
def single (e : InotifyEvent) : Buffer where
  first := e
  behind := []
  fits := e.size_le

@[simp] theorem single_first (e : InotifyEvent) : (single e).first = e := rfl

end Buffer

/-! ## Reading -/

/-- The source with the callback of a dispatch. -/
structure Reader where
  /-- the source, while it is attached -/
  source : Option WatchInfo
  /-- `nwatch` of the callback, while it runs -/
  nwatch : Option ℕ := none
  /-- the calls of the callback so far -/
  notices : List Notice := []

namespace Reader

/-- The body of the loop, for the event at the front of the buffer. An event without a
name is about a descriptor that is not in the table. -/
def handle (e : InotifyEvent) (info : WatchInfo) (nwatch : ℕ) : WatchInfo × ℕ × List Notice :=
  match e.name with
  | none => (info, nwatch, [])
  | some n => watcherEvent e.fs info nwatch e.wd n.chars

/-- One test of the loop in `_inotify_watcher_cb`: `nwatch`, and then what `read`
returns, `none` when there is nothing. The dispatch ends when the test fails, and
the next test is the first of another dispatch. -/
def read (s : Reader) (r : Option Buffer) : Reader :=
  match s.source with
  | none => s
  | some info =>
    let nwatch := s.nwatch.getD info.wdTable.length
    if nwatch = 0 then { s with source := none, nwatch := none }
    else match r with
      | none => { s with nwatch := none }
      | some b =>
        if b.size ≤ inotifyHeader then { s with nwatch := none }
        else
          let (info, nwatch, notices) := handle b.first info nwatch
          { source := some info, nwatch := some nwatch, notices := s.notices ++ notices }

/-- The paths a run reports, from a watch state. -/
def reported (info : WatchInfo) (rs : List (Option Buffer)) : List (List Char) :=
  (rs.foldl read { source := some info }).notices.map Notice.item

/-- The events of a run, in the order of the queue. -/
def events (rs : List (Option Buffer)) : List InotifyEvent :=
  rs.flatMap fun r => r.elim [] Buffer.events

/-- Each event returned by its own `read`. -/
def singly (es : List InotifyEvent) : List (Option Buffer) := es.map fun e => some (.single e)

end Reader

/-! ## What the count has to do with it -/

/-- A path that is watched for costs at most one watch; one that is not costs none. -/
theorem addWatch_length (fs : Fs) (fuel : ℕ) (path : List Char) (info : WatchInfo) :
    (addWatch fs fuel path info).1.wdTable.length ≤
      info.wdTable.length + if (addWatch fs fuel path info).2 = .added then 1 else 0 := by
  induction fuel generalizing path info with
  | zero => exact Nat.le_add_right _ _
  | succ fuel ih =>
    simp only [addWatch]
    split
    · exact Nat.le_add_right _ _
    · split
      · exact ih (pathGetDirname path) _
      · split
        · exact Nat.le_add_right _ _
        · split
          · exact Nat.le_add_right _ _
          · simp only [List.length_append, List.length_singleton, if_true]
            exact Nat.add_le_add_right (List.length_filter_le _ _) 1

/-- The count of the callback covers the watches it adds for a directory. -/
theorem addPending_length (fs : Fs) (dir : List Char) (names : List (List Char))
    (info : WatchInfo) (nwatch : ℕ) (hlen : info.wdTable.length ≤ nwatch) :
    (addPending fs dir names info nwatch).1.wdTable.length ≤
      (addPending fs dir names info nwatch).2.1 := by
  induction names generalizing info nwatch with
  | nil => exact hlen
  | cons name rest ih =>
    have hadd := addWatch_length fs ((buildFilename dir name).length + 2)
      (buildFilename dir name) info
    simp only [addPending]
    rcases hw : addWatch fs ((buildFilename dir name).length + 2) (buildFilename dir name) info with
      ⟨info', _ | _ | _⟩
    all_goals
      rw [hw] at hadd
      simp only [reduceCtorEq, if_true, if_false, Nat.add_zero] at hadd
      exact ih info' _ (by omega)

/-- **The count is never below the number of watches.** -/
theorem watcherEvent_length (fs : Fs) (info : WatchInfo) (nwatch wd : ℕ) (name : List Char)
    (hlen : info.wdTable.length ≤ nwatch) :
    (watcherEvent fs info nwatch wd name).1.wdTable.length ≤
      (watcherEvent fs info nwatch wd name).2.1 := by
  simp only [watcherEvent]
  split
  · exact hlen
  · rename_i dir hdir
    have hstrike : (strike wd dir name ((info.dirTable.lookup dir).getD []) info).wdTable.length ≤
        if ((info.dirTable.lookup dir).getD []).erase name = [] then nwatch - 1 else nwatch :=
      WatchInfo.length_strike (Table.mem_of_lookup hdir) hlen
    split
    · split
      · exact addPending_length _ _ _ _ _ hstrike
      · exact hstrike
    · exact hlen

/-- What is reported, and what is waited for afterwards, do not depend on the count. -/
theorem addPending_count (fs : Fs) (dir : List Char) (names : List (List Char)) (info : WatchInfo)
    (n m : ℕ) :
    (addPending fs dir names info n).1 = (addPending fs dir names info m).1 ∧
      (addPending fs dir names info n).2.2.map Notice.item =
        (addPending fs dir names info m).2.2.map Notice.item := by
  induction names generalizing info n m with
  | nil => exact ⟨rfl, rfl⟩
  | cons name rest ih =>
    simp only [addPending]
    rcases hw : addWatch fs ((buildFilename dir name).length + 2) (buildFilename dir name) info with
      ⟨info', _ | _ | _⟩
    · exact ih info' n m
    · exact ih info' (n + 1) (m + 1)
    · obtain ⟨h₁, h₂⟩ := ih info' n m
      exact ⟨h₁, congrArg (buildFilename dir name :: ·) h₂⟩

theorem watcherEvent_count (fs : Fs) (info : WatchInfo) (n m wd : ℕ) (name : List Char) :
    (watcherEvent fs info n wd name).1 = (watcherEvent fs info m wd name).1 ∧
      (watcherEvent fs info n wd name).2.2.map Notice.item =
        (watcherEvent fs info m wd name).2.2.map Notice.item := by
  simp only [watcherEvent]
  split
  · exact ⟨rfl, rfl⟩
  · split
    · split
      · exact addPending_count _ _ _ _ _ _
      · exact ⟨rfl, rfl⟩
    · exact ⟨rfl, rfl⟩

namespace Reader

variable {s : Reader} {info : WatchInfo} {e : InotifyEvent}

/-! ## What a run reports -/

/-- The watch state an event leaves, and the paths it reports. -/
def effect (info : WatchInfo) (e : InotifyEvent) : WatchInfo × List (List Char) :=
  ((handle e info 0).1, (handle e info 0).2.2.map Notice.item)

/-- The paths that events report one after the other. -/
def effects : WatchInfo → List InotifyEvent → List (List Char)
  | _, [] => []
  | info, e :: es => (effect info e).2 ++ effects (effect info e).1 es

theorem handle_effect (e : InotifyEvent) (info : WatchInfo) (nwatch : ℕ) :
    (handle e info nwatch).1 = (effect info e).1 ∧
      (handle e info nwatch).2.2.map Notice.item = (effect info e).2 := by
  simp only [effect, handle]
  split
  · exact ⟨rfl, rfl⟩
  · exact watcherEvent_count _ _ _ _ _ _

theorem handle_length (e : InotifyEvent) {nwatch : ℕ} (hlen : info.wdTable.length ≤ nwatch) :
    (handle e info nwatch).1.wdTable.length ≤ (handle e info nwatch).2.1 := by
  simp only [handle]
  split
  · exact hlen
  · exact watcherEvent_length _ _ _ _ _ hlen

theorem effect_nameless (h : e.name = none) : effect info e = (info, []) := by
  simp [effect, handle, h]

/-- Without watches no event means anything. -/
theorem effect_unwatched (h : info.wdTable = []) : effect info e = (info, []) := by
  simp only [effect, handle]
  split
  · rfl
  · simp [watcherEvent, h]

/-- The source waits in this watch state: it is attached, with a count that covers the
watches; or it is gone, and there is none. -/
def At (s : Reader) (info : WatchInfo) : Prop :=
  (s.source = some info ∧ ∀ n ∈ s.nwatch, info.wdTable.length ≤ n) ∨
    (s.source = none ∧ info.wdTable = [])

theorem At.getD {info : WatchInfo} (h : ∀ n ∈ s.nwatch, info.wdTable.length ≤ n) :
    info.wdTable.length ≤ s.nwatch.getD info.wdTable.length := by
  rcases hn : s.nwatch with _ | n
  · exact le_refl _
  · exact h n hn

/-- A dispatch that finds nothing to read changes nothing. -/
theorem At.read_none (h : s.At info) :
    (s.read none).At info ∧ (s.read none).notices = s.notices := by
  rcases h with ⟨hs, hn⟩ | ⟨hs, hw⟩
  · simp only [read, hs]
    split
    · rename_i hzero
      have hnil : info.wdTable = [] := by
        rw [← List.length_eq_zero_iff]
        exact Nat.le_zero.mp (hzero ▸ At.getD hn)
      exact ⟨Or.inr ⟨rfl, hnil⟩, rfl⟩
    · exact ⟨Or.inl ⟨rfl, by simp⟩, rfl⟩
  · have hsame : s.read none = s := by simp only [read, hs]
    rw [hsame]
    exact ⟨Or.inr ⟨hs, hw⟩, rfl⟩

/-- A buffer has the effect of its first event. -/
theorem At.read_some (h : s.At info) (b : Buffer) :
    (s.read (some b)).At (effect info b.first).1 ∧
      (s.read (some b)).notices.map Notice.item =
        s.notices.map Notice.item ++ (effect info b.first).2 := by
  rcases h with ⟨hs, hn⟩ | ⟨hs, hw⟩
  · have hlen := At.getD hn
    simp only [read, hs]
    split
    · -- nothing left to wait for: the event stays unread
      rename_i hzero
      have hnil : info.wdTable = [] := by
        rw [← List.length_eq_zero_iff]
        exact Nat.le_zero.mp (hzero ▸ hlen)
      rw [effect_unwatched hnil]
      exact ⟨Or.inr ⟨rfl, hnil⟩, by simp⟩
    · split
      · -- the event has no name, and only ends the dispatch
        rename_i hsize
        have hname : b.first.name = none := by
          rcases hf : b.first.name with _ | n
          · rfl
          · have hlt := InotifyEvent.size_named hf
            have hle : b.first.size ≤ b.size := Nat.le_add_right _ _
            omega
        rw [effect_nameless hname]
        exact ⟨Or.inl ⟨rfl, by simp⟩, by simp⟩
      · obtain ⟨h₁, h₂⟩ := handle_effect b.first info (s.nwatch.getD info.wdTable.length)
        refine ⟨Or.inl ⟨congrArg some h₁, ?_⟩, ?_⟩
        · intro n hmem
          obtain rfl := Option.mem_some_iff.mp hmem
          rw [← h₁]
          exact handle_length b.first hlen
        · rw [List.map_append, h₂]
  · have hsame : s.read (some b) = s := by simp only [read, hs]
    rw [hsame, effect_unwatched hw]
    exact ⟨Or.inr ⟨hs, hw⟩, by simp⟩

/-- The events the callback looks at. -/
def firsts (rs : List (Option Buffer)) : List InotifyEvent :=
  rs.flatMap fun r => r.elim [] fun b => [b.first]

/-- The events it does not look at. -/
def behinds (rs : List (Option Buffer)) : List InotifyEvent :=
  rs.flatMap fun r => r.elim [] Buffer.behind

theorem At.foldl_read (h : s.At info) (rs : List (Option Buffer)) :
    (rs.foldl read s).notices.map Notice.item =
      s.notices.map Notice.item ++ effects info (firsts rs) := by
  induction rs generalizing s info with
  | nil => simp [firsts, effects]
  | cons r rs ih =>
    rcases r with _ | b
    · obtain ⟨hat, hnotices⟩ := h.read_none
      rw [List.foldl_cons, ih hat, hnotices]
      rfl
    · obtain ⟨hat, hnotices⟩ := h.read_some b
      rw [List.foldl_cons, ih hat, hnotices, List.append_assoc]
      rfl

/-- **A run reports what the first events of its buffers report**, however it is
divided among dispatches. -/
theorem reported_eq (info : WatchInfo) (rs : List (Option Buffer)) :
    reported info rs = effects info (firsts rs) := by
  have hat : At { source := some info } info := Or.inl ⟨rfl, by simp⟩
  simpa [reported] using hat.foldl_read rs

theorem firsts_singly (es : List InotifyEvent) : firsts (singly es) = es := by
  induction es with
  | nil => rfl
  | cons e es ih => exact congrArg (e :: ·) ih

theorem effects_nameless {es es' : List InotifyEvent} (h : ∀ e ∈ es, e.name = none) :
    effects info (es ++ es') = effects info es' := by
  induction es with
  | nil => rfl
  | cons e es ih =>
    obtain ⟨he, hes⟩ := List.forall_mem_cons.mp h
    rw [List.cons_append, effects, effect_nameless he]
    exact ih hes

/-! ## A state that tells -/

/-- A watch state in which only the creation of `n` under descriptor `w` means
something, and that `j` times. -/
def waiting (w : ℕ) (n : FileName) : ℕ → WatchInfo
  | 0 => {}
  | j + 1 => ⟨[(['/'], List.replicate (j + 1) n.chars)], [(w, ['/'])]⟩

/-- The event is the creation of `n` under descriptor `w`. -/
def isFor (w : ℕ) (n : FileName) (e : InotifyEvent) : Bool :=
  e.wd = w && e.name.map FileName.chars = some n.chars

theorem name_of_isFor {w : ℕ} {n : FileName} (h : isFor w n e = true) :
    e.wd = w ∧ ∃ m, e.name = some m ∧ m.chars = n.chars := by
  simp only [isFor, Bool.and_eq_true, decide_eq_true_eq, Option.map_eq_some_iff] at h
  exact h

/-- The creation waited for is reported, and struck off. -/
theorem effect_hit {w j : ℕ} {n : FileName} (h : isFor w n e = true) :
    effect (waiting w n (j + 1)) e = (waiting w n j, [buildFilename ['/'] n.chars]) := by
  obtain ⟨rfl, m, hm, hchars⟩ := name_of_isFor h
  have hroot : buildFilename ['/'] n.chars ≠ ['/'] := by
    have hlt := Normal.root.length_lt n.isName
    intro heq
    rw [heq] at hlt
    exact Nat.lt_irrefl _ hlt
  have hbeq : (buildFilename ['/'] n.chars == ['/']) = false := by simpa using hroot
  cases j with
  | zero =>
    simp [effect, handle, hm, hchars, watcherEvent, waiting, strike, Table.remove]
  | succ j =>
    simp [effect, handle, hm, hchars, watcherEvent, waiting, strike, Table.replace,
      List.replicate_succ, List.lookup_cons, hbeq]

/-- No other event means anything. -/
theorem effect_miss {w j : ℕ} {n : FileName} (h : isFor w n e = false) :
    effect (waiting w n j) e = (waiting w n j, []) := by
  rcases hm : e.name with _ | m
  · exact effect_nameless hm
  · cases j with
    | zero => exact effect_unwatched rfl
    | succ j =>
      by_cases hw : e.wd = w
      · have hne : m.chars ≠ n.chars := by simpa [isFor, hw, hm] using h
        simp [effect, handle, hm, watcherEvent, waiting, hw, hne]
      · have hbeq : (e.wd == w) = false := by simpa using hw
        have hlookup : (waiting w n (j + 1)).wdTable.lookup e.wd = none := by
          simp [waiting, List.lookup_cons, hbeq]
        simp only [effect, handle, hm, watcherEvent, hlookup]
        rfl

theorem effects_waiting (w : ℕ) (n : FileName) {j : ℕ} {es : List InotifyEvent}
    (h : es.countP (isFor w n) ≤ j) :
    (effects (waiting w n j) es).length = es.countP (isFor w n) := by
  induction es generalizing j with
  | nil => rfl
  | cons e es ih =>
    rw [List.countP_cons] at h ⊢
    rw [effects]
    rcases he : isFor w n e with _ | _
    · simp only [he, Bool.false_eq_true, if_false, Nat.add_zero] at h
      rw [effect_miss he]
      simpa using ih h
    · simp only [he, if_true] at h
      obtain ⟨j, rfl⟩ : ∃ i, j = i + 1 := ⟨j - 1, by omega⟩
      have hlength := ih (j := j) (by omega)
      rw [effect_hit he]
      simp only [List.length_append, List.length_singleton, if_true, hlength]
      omega

theorem countP_events (p : InotifyEvent → Bool) (rs : List (Option Buffer)) :
    (events rs).countP p = (firsts rs).countP p + (behinds rs).countP p := by
  induction rs with
  | nil => rfl
  | cons r rs ih =>
    simp only [events, firsts, behinds, List.flatMap_cons, List.countP_append] at ih ⊢
    rcases r with _ | b
    · simp only [Option.elim_none, List.countP_nil, Nat.zero_add]
      exact ih
    · simp only [Option.elim_some, Buffer.events, List.countP_cons, List.countP_nil]
      omega

/-- **When batching does not matter**: a division of events into buffers and
dispatches reports the same as single reads, in every watch state, exactly when no
event behind the first of its buffer is the creation of something. -/
theorem reported_batching (rs : List (Option Buffer)) :
    (∀ info, reported info rs = reported info (singly (events rs))) ↔
      ∀ b, some b ∈ rs → ∀ e ∈ b.behind, e.name = none := by
  simp only [reported_eq, firsts_singly]
  constructor
  · intro h b hb e he
    rcases hn : e.name with _ | n
    · rfl
    · -- wait for just this creation, as often as it happens
      have hevents := effects_waiting e.wd n (le_refl ((events rs).countP (isFor e.wd n)))
      have hcount := countP_events (isFor e.wd n) rs
      have hfirsts : (firsts rs).countP (isFor e.wd n) ≤ (events rs).countP (isFor e.wd n) := by
        omega
      have hlength := effects_waiting e.wd n hfirsts
      rw [h, hevents] at hlength
      have hmem : e ∈ behinds rs := List.mem_flatMap.mpr ⟨some b, hb, he⟩
      have hpos : 0 < (behinds rs).countP (isFor e.wd n) :=
        List.countP_pos_iff.mpr ⟨e, hmem, by simp [isFor, hn]⟩
      omega
  · intro h info
    induction rs generalizing info with
    | nil => rfl
    | cons r rs ih =>
      have hrest := ih fun b hb => h b (List.mem_cons_of_mem _ hb)
      rcases r with _ | b
      · exact hrest info
      · have hbehind := h b List.mem_cons_self
        have hfirst : effects info (firsts (some b :: rs)) =
            (effect info b.first).2 ++ effects (effect info b.first).1 (firsts rs) := rfl
        have hall : effects info (events (some b :: rs)) =
            (effect info b.first).2 ++
              effects (effect info b.first).1 (b.behind ++ events rs) := rfl
        rw [hfirst, hall, effects_nameless hbehind, hrest]

/-- Two sockets come up at once in a directory, and one `read` returns both events:
only the first is reported. -/
theorem burst_in_one_read :
    let e : FileName → InotifyEvent := fun n => ⟨1, some n, {}⟩
    let x : FileName := ⟨['x'], ⟨by decide, by decide, by decide, by decide⟩, by decide⟩
    let y : FileName := ⟨['y'], ⟨by decide, by decide, by decide, by decide⟩, by decide⟩
    let info : WatchInfo := ⟨[(['/'], [['x'], ['y']])], [(1, ['/'])]⟩
    let rs : List (Option Buffer) := [some ⟨e x, [e y], by decide⟩]
    reported info rs = [['/', 'x']] ∧
      reported info (singly (events rs)) = [['/', 'x'], ['/', 'y']] := by
  decide

/-! ## The machine with its queue -/

/-- What the watcher with its file system keeps of the source. -/
def ofWatcher (s : Watcher) : Reader := ⟨s.source, s.nwatch, s.notices⟩

/-- **The watcher reads one event at a time**: its step is a `read` that returns the
next event in a buffer of its own. -/
theorem ofWatcher_read (s : Watcher) (wd w : ℕ) (n : FileName) (queue : List (ℕ × List Char))
    (hq : s.queue = (w, n.chars) :: queue) :
    ofWatcher (s.step (.read wd)) =
      (ofWatcher s).read (some (.single ⟨w, some n, s.fs wd⟩)) := by
  have hsize : ¬ (Buffer.single ⟨w, some n, s.fs wd⟩).size ≤ inotifyHeader := by
    have hlt : inotifyHeader < InotifyEvent.size ⟨w, some n, s.fs wd⟩ :=
      InotifyEvent.size_named rfl
    exact Nat.not_le.mpr hlt
  rcases hs : s.source with _ | info
  · simp [Watcher.step, ofWatcher, read, hs]
  · rcases hn : s.nwatch with _ | k
    · by_cases hzero : info.wdTable.length = 0
      · simp [Watcher.step, ofWatcher, read, hs, hn, hq, hzero, Watcher.remove]
      · simp [Watcher.step, ofWatcher, read, hs, hn, hq, hzero, hsize, handle]
    · by_cases hzero : k = 0
      · simp [Watcher.step, ofWatcher, read, hs, hn, hq, hzero, Watcher.remove]
      · simp [Watcher.step, ofWatcher, read, hs, hn, hq, hzero, hsize, handle]

end Reader

end Tlm
