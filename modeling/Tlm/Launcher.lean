import Tlm.Script
import Tlm.WatcherGuard

/-!
# The launcher (`tlm-launcher.c`)

The launcher works its script off line by line. `M` and `L` lines start programs; a
`W` line hands a list of files to `tlm_utils_watch_for_files`, and if some are
missing `_tlm_launcher_process` returns to the main loop. The callback
`_on_socket_ready` schedules `_continue_launch` when it is told that all files are
there, and that goes on with the next line.

When **all** files of a `W` line exist, the callback runs before the watch function
returns, and schedules a continuation for a launcher that does not wait: it goes on
with the next line right away. If it then comes to a line that has to wait, the
continuation that is left over takes it past that line (`second_wait_overrun`).
`run_barrier` says that this, and what makes the watcher itself unreliable, is all
that can go wrong.
-/

namespace Tlm

/-! ## The machine -/

/-- A `W` line and the watcher it has set up. -/
structure Registration where
  /-- which line -/
  line : ℕ
  /-- the files named on it -/
  listed : List (List Char)
  /-- the source, and what it has reported -/
  watcher : Watcher

/-- What the launcher has done. -/
inductive LauncherRecord : Type where
  /-- `_on_socket_ready` was called for a file of a `W` line -/
  | ready (line : ℕ) (file : List Char)
  /-- the command of an `M` or `L` line was launched -/
  | launch (line : ℕ)
  deriving DecidableEq, Repr

/-- A `TlmLauncher` and the main loop it runs in. -/
structure Launcher where
  /-- the lines of the script that are not skipped: control character and command -/
  script : List (Char × List Char)
  /-- `g_getenv` -/
  getenv : String → Option String := fun _ => none
  /-- what exists, in any spelling -/
  access : List Char → Bool
  /-- `fp` is set -/
  fp : Bool := true
  /-- how many lines have been read -/
  pos : ℕ := 0
  /-- in `_tlm_launcher_process` -/
  running : Bool := true
  /-- the `W` lines so far -/
  regs : List Registration := []
  /-- the idle sources of `_continue_launch` -/
  idles : ℕ := 0
  /-- `childs` -/
  childs : ℕ := 0
  /-- the process has ended -/
  halted : Bool := false
  /-- what it has done, in order -/
  log : List LauncherRecord := []

/-- The answers of the system for one line. -/
structure LineAnswers where
  /-- `tlm_utils_split_command_line` gives an `argv` -/
  argv : Bool := true
  /-- `fork` succeeds -/
  fork : Bool := true
  /-- `inotify_init1` succeeds -/
  inotifyInit : Bool := true
  /-- `inotify_add_watch` -/
  inotifyAddWatch : String → Option ℕ := fun _ => some 1

/-- What happens next. -/
inductive LauncherStep : Type where
  /-- `_tlm_launcher_process` goes once through its loop -/
  | line (a : LineAnswers)
  /-- a file or directory comes up -/
  | create (dir name : List Char) (spelt : List Char → Bool)
  /-- the callback of the watcher of a `W` line reads an event -/
  | read (i wd : ℕ)
  /-- it reads an `IN_IGNORED` -/
  | ignored (i : ℕ)
  /-- `_continue_launch` -/
  | continueLaunch
  /-- `_on_child_down_cb` -/
  | childDown

namespace Launcher

/-- The launcher has opened its script. -/
def start (script : List Char) (getenv : String → Option String) (access : List Char → Bool) :
    Launcher :=
  { script := (Script.pieces (Script.text script)).filterMap Script.parse
    getenv := getenv, access := access }

/-- `g_strsplit (cmd, ",", -1)`. -/
def strsplit (cmd : List Char) : List String :=
  if cmd = [] then [] else (cmd.splitOn ',').map String.ofList

/-- The system, for a line. -/
def fs (l : Launcher) (a : LineAnswers) : Fs :=
  { inotifyInit := a.inotifyInit, access := fun p => l.access p.toList
    inotifyAddWatch := a.inotifyAddWatch, getenv := l.getenv }

/-- The files named on a `W` line. -/
def files (l : Launcher) (cmd : List Char) : List (List Char) :=
  expanded { getenv := l.getenv } (strsplit cmd)

/-- `_on_socket_ready`, for every callback of the watcher of a line. -/
def onSocketReady (l : Launcher) (line : ℕ) (notices : List Notice) : Launcher :=
  { l with
    log := l.log ++ notices.map fun n => .ready line n.item
    idles := l.idles + (notices.filter Notice.isFinal).length }

/-- `_tlm_launcher_process`, once through its loop. `ERR` aborts the process. -/
def process (l : Launcher) (a : LineAnswers) : Launcher :=
  match l.script[l.pos]? with
  | none => { l with fp := false, running := false }
  | some (control, cmd) =>
    if control = 'M' ∨ control = 'L' then
      if a.argv && a.fork then
        { l with
          pos := l.pos + 1, log := l.log ++ [.launch l.pos]
          childs := if control = 'M' then l.childs + 1 else l.childs }
      else { l with pos := l.pos + 1, halted := true }
    else if control = 'W' then
      let w := Watcher.start (l.fs a) (strsplit cmd)
      let g : Registration := ⟨l.pos, l.files cmd, w⟩
      -- without a source the loop goes on, whatever the callback has scheduled
      { l with
        pos := l.pos + 1, running := w.source.isNone
        regs := l.regs ++ [g] }.onSocketReady l.pos w.notices
    else { l with pos := l.pos + 1 }

/-- The launcher is in its main loop, and no callback of a watcher is running, unless
it is that of `except`. -/
def isCalm (l : Launcher) (except : Option ℕ) : Bool :=
  !l.halted && !l.running &&
    l.regs.zipIdx.all fun g => some g.2 = except || g.1.watcher.nwatch.isNone

/-- The callback of a watcher goes on. -/
def onWatcher (l : Launcher) (i : ℕ) (st : WatchStep) : Launcher :=
  match l.regs[i]? with
  | none => l
  | some g =>
    let w := g.watcher.step st
    -- what it has reported in this step
    { l with regs := l.regs.set i { g with watcher := w } }.onSocketReady g.line
      (w.notices.drop g.watcher.notices.length)

def step (l : Launcher) (st : LauncherStep) : Launcher :=
  match st with
  | .line a => if l.running && !l.halted then l.process a else l
  | .create dir name spelt =>
    { l with
      access := fun p => l.access p || p = buildFilename dir name || spelt p
      regs := l.regs.map fun g => { g with watcher := g.watcher.step (.create dir name spelt) } }
  | .read i wd => if l.isCalm (some i) then l.onWatcher i (.read wd) else l
  | .ignored i => if l.isCalm (some i) then l.onWatcher i .ignored else l
  | .continueLaunch =>
    -- with the script closed `_tlm_launcher_process` returns at once
    if l.isCalm none && 0 < l.idles then { l with idles := l.idles - 1, running := l.fp } else l
  | .childDown =>
    -- with the last of its children the launcher ends itself
    if l.isCalm none && 0 < l.childs then
      { l with childs := l.childs - 1, halted := l.childs = 1 }
    else l

/-- **The barrier**: what was launched was launched behind every callback for a file
named on a `W` line that stands before it in the script. -/
def Barrier (l : Launcher) : Prop :=
  ∀ before i after, l.log = before ++ .launch i :: after →
    ∀ k < i, ∀ cmd, l.script[k]? = some ('W', cmd) → ∀ p ∈ l.files cmd, .ready k p ∈ before

/-- The steps that can happen, and no file fails to be watched. -/
def Proper (l : Launcher) : LauncherStep → Prop
  | .line a => l.running = true → ∀ cmd, l.script[l.pos]? = some ('W', cmd) → (l.fs a).Works
  | .create dir name spelt => ∀ g ∈ l.regs, g.watcher.Proper (.create dir name spelt)
  | .read i wd => ∀ g, l.regs[i]? = some g → g.watcher.Proper (.read wd)
  | _ => True

/-- What the barrier relies on. When a `W` line has to wait no continuation is left over;
and a final callback can be relied on, because the missing files of the line are in
normal form, and by how the events come in. -/
def Kept (l : Launcher) : LauncherStep → Prop
  | .line a => l.running = true → ∀ cmd, l.script[l.pos]? = some ('W', cmd) →
      (l.fs a).Spelt (l.files cmd) ∧ ((l.fs a).absent (l.files cmd) ≠ [] → l.idles = 0)
  | .read i wd => ∀ g, l.regs[i]? = some g → g.watcher.Safe (.read wd)
  | _ => True

/-! ## What is kept -/

variable {l : Launcher}

/-- The invariant. Every `W` line so far has its watcher; what the watchers have reported
is in the log; and all but the last are over, as is that one whenever the launcher
goes on or is about to. -/
structure Inv (l : Launcher) : Prop where
  barrier : l.Barrier
  waited : ∀ k < l.pos, ∀ cmd, l.script[k]? = some ('W', cmd) →
    ∃ g ∈ l.regs, g.line = k ∧ g.listed = l.files cmd
  logged : ∀ g ∈ l.regs, ∀ p ∈ g.watcher.items, .ready g.line p ∈ l.log
  guarded : ∀ g ∈ l.regs, g.watcher.Guarded g.listed
  earlier : ∀ j g, l.regs[j]? = some g → j + 1 < l.regs.length → g.watcher.Unwatched
  go : l.running = true ∨ 0 < l.idles → ∀ g ∈ l.regs, g.watcher.Unwatched

/-- A longer log, if what was launched was launched behind what is needed. -/
theorem Barrier.append (h : l.Barrier) {l' : Launcher} (hscript : l'.script = l.script)
    (hgetenv : l'.getenv = l.getenv) {new : List LauncherRecord} (hlog : l'.log = l.log ++ new)
    (hnew : ∀ i, .launch i ∈ new → ∀ k < i, ∀ cmd, l.script[k]? = some ('W', cmd) →
      ∀ p ∈ l.files cmd, .ready k p ∈ l.log) : l'.Barrier := by
  intro before i after heq k hk cmd hline p hp
  rw [hscript] at hline
  have hfiles : l'.files cmd = l.files cmd := by
    simp only [files, hgetenv]
  rw [hfiles] at hp
  rw [hlog] at heq
  rcases List.append_eq_append_iff.mp heq with ⟨mid, rfl, hmid⟩ | ⟨mid, hmid, heq'⟩
  · have hmem : LauncherRecord.launch i ∈ new := by
      rw [hmid]
      exact List.mem_append_right _ List.mem_cons_self
    exact List.mem_append_left _ (hnew i hmem k hk cmd hline p hp)
  · rcases mid with _ | ⟨r, mid⟩
    · -- the launch is the first of the new records
      rw [List.append_nil] at hmid
      rw [List.nil_append] at heq'
      rw [← hmid]
      exact hnew i (by rw [← heq']; exact List.mem_cons_self) k hk cmd hline p hp
    · cases heq'
      exact h before i mid hmid k hk cmd hline p hp

/-- What the launcher goes on behind has been reported. -/
theorem Inv.ready (h : l.Inv) (hgo : l.running = true ∨ 0 < l.idles) {k : ℕ} (hk : k < l.pos)
    {cmd : List Char} (hline : l.script[k]? = some ('W', cmd)) {p : List Char} (hp : p ∈ l.files cmd) :
    .ready k p ∈ l.log := by
  obtain ⟨g, hg, rfl, hlisted⟩ := h.waited k hk cmd hline
  have hcomplete := (h.guarded g hg).complete (h.go hgo g hg)
  exact h.logged g hg p (hcomplete p (by rw [hlisted]; exact hp))

/-! ## One step -/

/-- Everything a pass of the loop can do. -/
theorem process_cases (l : Launcher) (a : LineAnswers) :
    (l.process a = { l with fp := false, running := false }) ∨
    (∃ control cmd childs, l.script[l.pos]? = some (control, cmd) ∧ control ≠ 'W' ∧
      l.process a = { l with pos := l.pos + 1, log := l.log ++ [.launch l.pos], childs := childs }) ∨
    (∃ control cmd halted, l.script[l.pos]? = some (control, cmd) ∧ control ≠ 'W' ∧
      l.process a = { l with pos := l.pos + 1, halted := halted }) ∨
    ∃ cmd, l.script[l.pos]? = some ('W', cmd) ∧
      let w := Watcher.start (l.fs a) (strsplit cmd)
      let g : Registration := ⟨l.pos, l.files cmd, w⟩
      l.process a = { l with
        pos := l.pos + 1, running := w.source.isNone
        regs := l.regs ++ [g] }.onSocketReady l.pos w.notices := by
  rcases hline : l.script[l.pos]? with _ | ⟨control, cmd⟩
  · exact Or.inl (by simp only [process, hline])
  · refine Or.inr ?_
    by_cases hlaunch : control = 'M' ∨ control = 'L'
    · have hW : control ≠ 'W' := by
        rintro rfl
        revert hlaunch
        decide
      rcases hout : a.argv && a.fork with _ | _
      · refine Or.inr (Or.inl ⟨control, cmd, true, rfl, hW, ?_⟩)
        simp only [process, hline, if_pos hlaunch, hout, Bool.false_eq_true, if_false]
      · refine Or.inl ⟨control, cmd, if control = 'M' then l.childs + 1 else l.childs, rfl, hW, ?_⟩
        simp only [process, hline, if_pos hlaunch, hout, if_true]
    · by_cases hW : control = 'W'
      · subst hW
        refine Or.inr (Or.inr ⟨cmd, rfl, ?_⟩)
        simp only [process, hline, if_neg hlaunch, if_true]
      · refine Or.inr (Or.inl ⟨control, cmd, l.halted, rfl, hW, ?_⟩)
        simp only [process, hline, if_neg hlaunch, if_neg hW]

/-- A line that is no `W` line is passed. -/
theorem Inv.pass (h : l.Inv) {control : Char} {cmd : List Char}
    (hline : l.script[l.pos]? = some (control, cmd)) (hW : control ≠ 'W') :
    ∀ k < l.pos + 1, ∀ cmd, l.script[k]? = some ('W', cmd) →
      ∃ g ∈ l.regs, g.line = k ∧ g.listed = l.files cmd := by
  intro k hk cmd' hk'
  rcases Nat.lt_succ_iff_lt_or_eq.mp hk with hk | rfl
  · exact h.waited k hk cmd' hk'
  · rw [hline] at hk'
    cases hk'
    exact absurd rfl hW

/-- A `W` line gets its watcher, which is over, or nothing is left over that could end the
wait. -/
theorem Inv.register (h : l.Inv) (hrun : l.running = true) {cmd : List Char}
    (hline : l.script[l.pos]? = some ('W', cmd)) {g : Registration} (hpos : g.line = l.pos)
    (hlisted : g.listed = l.files cmd) (hguarded : g.watcher.Guarded g.listed)
    (hover : g.watcher.source = none ∨
      (g.watcher.source ≠ none ∧ l.idles = 0 ∧ g.watcher.notices.filter Notice.isFinal = [])) :
    ({ l with
        pos := l.pos + 1, running := g.watcher.source.isNone
        regs := l.regs ++ [g] }.onSocketReady l.pos g.watcher.notices).Inv := by
  have hall := h.go (Or.inl hrun)
  have hmem : ∀ g' ∈ l.regs ++ [g], g' ∈ l.regs ∨ g' = g := by
    intro g' hg'
    rcases List.mem_append.mp hg' with hg' | hg'
    · exact Or.inl hg'
    · exact Or.inr (List.mem_singleton.mp hg')
  refine ⟨?_, ?_, ?_, ?_, ?_, ?_⟩
  · refine h.barrier.append rfl rfl rfl fun i hi => ?_
    obtain ⟨n, -, hn⟩ := List.mem_map.mp hi
    cases hn
  · intro k hk cmd' hk'
    rcases Nat.lt_succ_iff_lt_or_eq.mp hk with hk | rfl
    · obtain ⟨g', hg', hrest⟩ := h.waited k hk cmd' hk'
      exact ⟨g', List.mem_append_left _ hg', hrest⟩
    · cases hline.symm.trans hk'
      exact ⟨g, List.mem_append_right _ (List.mem_singleton_self g), hpos, hlisted⟩
  · intro g' hg' p hp
    rcases hmem g' hg' with hg' | rfl
    · exact List.mem_append_left _ (h.logged g' hg' p hp)
    · obtain ⟨n, hn, rfl⟩ := List.mem_map.mp hp
      rw [hpos]
      exact List.mem_append_right _ (List.mem_map.mpr ⟨n, hn, rfl⟩)
  · intro g' hg'
    rcases hmem g' hg' with hg' | rfl
    · exact h.guarded g' hg'
    · exact hguarded
  · intro j g' hj hlt
    have hj' : j < l.regs.length := by
      simpa [onSocketReady] using hlt
    have hold : l.regs[j]? = some g' := by
      rw [← hj]
      exact (List.getElem?_append_left hj').symm
    exact hall g' (List.mem_of_getElem? hold)
  · intro hgo g' hg'
    rcases hover with hnone | ⟨hsome, hidles, hopen⟩
    · rcases hmem g' hg' with hg' | rfl
      · exact hall g' hg'
      · intro info hs
        rw [hnone] at hs
        cases hs
    · simp [onSocketReady, hsome, hidles, hopen] at hgo

theorem Inv.process (h : l.Inv) (hrun : l.running = true) {a : LineAnswers}
    (hp : l.Proper (.line a)) (hk : l.Kept (.line a)) : (l.process a).Inv := by
  rcases process_cases l a with heq | ⟨control, cmd, childs, hline, hW, heq⟩ |
    ⟨control, cmd, halted, hline, hW, heq⟩ | ⟨cmd, hline, heq⟩
  · rw [heq]
    refine ⟨h.barrier, h.waited, h.logged, h.guarded, h.earlier, fun _ => ?_⟩
    exact h.go (Or.inl hrun)
  · rw [heq]
    refine ⟨?_, h.pass hline hW, ?_, h.guarded, h.earlier, h.go⟩
    · refine h.barrier.append rfl rfl rfl fun i hi k hk cmd hline p hp => ?_
      cases List.mem_singleton.mp hi
      exact h.ready (Or.inl hrun) hk hline hp
    · exact fun g hg p hp => List.mem_append_left _ (h.logged g hg p hp)
  · rw [heq]
    exact ⟨h.barrier, h.pass hline hW, h.logged, h.guarded, h.earlier, h.go⟩
  · obtain ⟨hspelt, hidles⟩ := hk hrun cmd hline
    obtain ⟨hguarded, hover⟩ := Watcher.start_guarded (hp hrun cmd hline) hspelt
    rw [heq]
    apply h.register (g := ⟨l.pos, l.files cmd, Watcher.start (l.fs a) (strsplit cmd)⟩) hrun hline
      rfl rfl hguarded
    rcases hover with hnone | ⟨hsome, habsent, hopen⟩
    · exact Or.inl hnone
    · exact Or.inr ⟨hsome, hidles habsent, hopen⟩

/-- A watcher that goes on is still that of its line. -/
theorem exists_mem_set {regs : List Registration} {i : ℕ} {g g' : Registration} (w : Watcher)
    (hg : regs[i]? = some g) (hg' : g' ∈ regs) :
    ∃ g'' ∈ regs.set i { g with watcher := w }, g''.line = g'.line ∧ g''.listed = g'.listed := by
  obtain ⟨j, hj⟩ := List.getElem?_of_mem hg'
  by_cases hij : i = j
  · subst hij
    obtain rfl : g = g' := Option.some.inj (hg.symm.trans hj)
    obtain ⟨hlt, -⟩ := List.getElem?_eq_some_iff.mp hg
    exact ⟨_, List.mem_of_getElem? (List.getElem?_set_self hlt), rfl, rfl⟩
  · refine ⟨g', List.mem_of_getElem? (i := j) ?_, rfl, rfl⟩
    rw [List.getElem?_set_ne hij]
    exact hj

/-- A watcher that is not over is the last, and the launcher waits for it. -/
theorem Inv.waiting (h : l.Inv) {i : ℕ} {g : Registration} (hg : l.regs[i]? = some g)
    (hu : ¬ g.watcher.Unwatched) :
    ¬ (l.running = true ∨ 0 < l.idles) ∧ l.regs.length = i + 1 := by
  obtain ⟨hi, -⟩ := List.getElem?_eq_some_iff.mp hg
  refine ⟨fun hgo => hu (h.go hgo g (List.mem_of_getElem? hg)), ?_⟩
  by_contra hlt
  exact hu (h.earlier i g hg (by omega))

/-- When the last watcher is over, all are. -/
theorem Inv.over (h : l.Inv) {i : ℕ} {g : Registration} (hi : i < l.regs.length)
    (hlast : l.regs.length = i + 1) (hu : g.watcher.Unwatched) :
    ∀ g' ∈ l.regs.set i g, g'.watcher.Unwatched := by
  intro g' hg'
  obtain ⟨j, hj⟩ := List.getElem?_of_mem hg'
  by_cases hij : i = j
  · subst hij
    rw [List.getElem?_set_self hi] at hj
    cases hj
    exact hu
  · rw [List.getElem?_set_ne hij] at hj
    obtain ⟨hlt, -⟩ := List.getElem?_eq_some_iff.mp hj
    exact h.earlier j g' hj (by omega)

/-- The callback of a watcher. -/
theorem Inv.onWatcher (h : l.Inv) {i : ℕ} {st : WatchStep}
    (hp : ∀ g, l.regs[i]? = some g → g.watcher.Proper st)
    (hk : ∀ g, l.regs[i]? = some g → g.watcher.Safe st) : (l.onWatcher i st).Inv := by
  simp only [Launcher.onWatcher]
  rcases hg : l.regs[i]? with _ | g
  · exact h
  · have hmem := List.mem_of_getElem? hg
    have hguarded := (h.guarded g hmem).step st (hp g hg) (hk g hg)
    obtain ⟨ns, hns⟩ := g.watcher.step_notices st
    simp only [hns, List.drop_left]
    have hcases : ∀ g' ∈ l.regs.set i { g with watcher := g.watcher.step st },
        g' ∈ l.regs ∨ g' = { g with watcher := g.watcher.step st } :=
      fun g' hg' => List.mem_or_eq_of_mem_set hg'
    refine ⟨?_, ?_, ?_, ?_, ?_, ?_⟩
    · refine h.barrier.append rfl rfl rfl fun i hi => ?_
      obtain ⟨n, -, hn⟩ := List.mem_map.mp hi
      cases hn
    · intro k hk cmd hline
      obtain ⟨g', hg', rfl, hlisted⟩ := h.waited k hk cmd hline
      obtain ⟨g'', hg'', hsame, hlisted'⟩ := exists_mem_set (g.watcher.step st) hg hg'
      exact ⟨g'', hg'', hsame, hlisted'.trans hlisted⟩
    · intro g' hg' p hp
      rcases hcases g' hg' with hg' | rfl
      · exact List.mem_append_left _ (h.logged g' hg' p hp)
      · rw [Watcher.items, hns, List.map_append] at hp
        rcases List.mem_append.mp hp with hp | hp
        · exact List.mem_append_left _ (h.logged g hmem p hp)
        · obtain ⟨n, hn, rfl⟩ := List.mem_map.mp hp
          exact List.mem_append_right _ (List.mem_map.mpr ⟨n, hn, rfl⟩)
    · intro g' hg'
      rcases hcases g' hg' with hg' | rfl
      · exact h.guarded g' hg'
      · exact hguarded
    · intro j g' hj hlt
      simp only [onSocketReady, List.length_set] at hj hlt
      by_cases hij : i = j
      · subst hij
        rw [List.getElem?_set_self (by omega)] at hj
        cases hj
        exact ((h.earlier i g hg hlt).step st).1
      · rw [List.getElem?_set_ne hij] at hj
        exact h.earlier j g' hj hlt
    · intro hgo
      by_cases hu : g.watcher.Unwatched
      · obtain ⟨hu', hquiet⟩ := hu.step st
        have hnil : ns = [] := List.append_right_eq_self.mp (hns.symm.trans hquiet)
        have hall := h.go (by simpa [onSocketReady, hnil] using hgo)
        intro g' hg'
        rcases hcases g' hg' with hg' | rfl
        · exact hall g' hg'
        · exact hu'
      · -- the launcher waits for this one, and was told that it need not any more
        obtain ⟨hstill, hlast⟩ := h.waiting hg hu
        have hfinal : ns.filter Notice.isFinal ≠ [] := by
          intro hnil
          exact hstill (by simpa [onSocketReady, hnil] using hgo)
        obtain ⟨n, hn⟩ := List.exists_mem_of_ne_nil _ hfinal
        obtain ⟨hn, hflag⟩ := List.mem_filter.mp hn
        obtain ⟨hi, -⟩ := List.getElem?_eq_some_iff.mp hg
        exact h.over hi hlast (hguarded.final n (by rw [hns]; exact List.mem_append_right _ hn) hflag)

/-- Something comes up. -/
theorem Inv.create (h : l.Inv) {dir name : List Char} {spelt : List Char → Bool}
    (hp : l.Proper (.create dir name spelt)) : (l.step (.create dir name spelt)).Inv := by
  have hcases : ∀ g' ∈ (l.step (.create dir name spelt)).regs, ∃ g ∈ l.regs,
      { g with watcher := g.watcher.step (.create dir name spelt) } = g' :=
    fun g' hg' => List.mem_map.mp hg'
  refine ⟨h.barrier, ?_, ?_, ?_, ?_, ?_⟩
  · intro k hk cmd hline
    obtain ⟨g, hg, hrest⟩ := h.waited k hk cmd hline
    exact ⟨_, List.mem_map_of_mem hg, hrest⟩
  · intro g' hg' p hp
    obtain ⟨g, hg, rfl⟩ := hcases g' hg'
    exact h.logged g hg p hp
  · intro g' hg'
    obtain ⟨g, hg, rfl⟩ := hcases g' hg'
    exact (h.guarded g hg).create (hp g hg)
  · intro j g' hj hlt
    simp only [Launcher.step, List.getElem?_map, List.length_map] at hj hlt
    obtain ⟨g, hg, rfl⟩ := Option.map_eq_some_iff.mp hj
    exact ((h.earlier j g hg hlt).step _).1
  · intro hgo g' hg'
    obtain ⟨g, hg, rfl⟩ := hcases g' hg'
    exact ((h.go hgo g hg).step _).1

/-- **One step** keeps the invariant. -/
theorem Inv.step (h : l.Inv) (st : LauncherStep) (hp : l.Proper st) (hk : l.Kept st) :
    (l.step st).Inv := by
  cases st with
  | line a =>
    simp only [Launcher.step]
    split
    · rename_i hrun
      simp only [Bool.and_eq_true] at hrun
      exact h.process hrun.1 hp hk
    · exact h
  | create dir name spelt => exact h.create hp
  | read i wd =>
    simp only [Launcher.step]
    split
    · exact h.onWatcher hp hk
    · exact h
  | ignored i =>
    simp only [Launcher.step]
    split
    · exact h.onWatcher (fun _ _ => trivial) (fun _ _ => trivial)
    · exact h
  | continueLaunch =>
    simp only [Launcher.step]
    split
    · rename_i hidle
      simp only [Bool.and_eq_true, decide_eq_true_eq] at hidle
      exact ⟨h.barrier, h.waited, h.logged, h.guarded, h.earlier, fun _ => h.go (Or.inr hidle.2)⟩
    · exact h
  | childDown =>
    simp only [Launcher.step]
    split
    · exact ⟨h.barrier, h.waited, h.logged, h.guarded, h.earlier, h.go⟩
    · exact h

/-! ## Whole runs -/

variable {script : List Char} {getenv : String → Option String} {access : List Char → Bool}

theorem start_inv : (start script getenv access).Inv :=
  ⟨fun before i after h => by simp [start] at h, nofun, nofun, nofun, nofun, fun _ => nofun⟩

/-- **The barrier holds** in every state of a run in which no continuation is left over
when a `W` line has to wait, and the final callback of its watcher can be relied on. -/
theorem run_barrier {sts : List LauncherStep}
    (h : Along step (fun l st => l.Proper st ∧ l.Kept st) (start script getenv access) sts) :
    Always step Barrier (start script getenv access) sts := by
  have hinv : Always step Inv (start script getenv access) sts :=
    Along.always (fun l st hl hst => Inv.step hl st hst.1 hst.2) start_inv h
  exact hinv.imp fun l hl => hl.barrier

/-- What the files of a disk answer to a line. -/
def onDisk (files : List String) : LineAnswers where
  inotifyAddWatch := (Watcher.onDisk files).inotifyAddWatch

theorem fs_onDisk {files : List String} (hl : l.access = fun p => files.contains (String.ofList p))
    (hg : l.getenv = fun _ => none) : l.fs (onDisk files) = Watcher.onDisk files := by
  simp only [fs, onDisk, hl, hg, Watcher.onDisk, String.ofList_toList]

/-- A launcher that waits for `/a`, which comes up. -/
def waits : List LauncherStep :=
  [.line (onDisk ["/"]), .create ['/'] ['a'] (fun _ => false), .read 0 5, .read 0 6,
    .continueLaunch, .line {}]

theorem run_barrier_waits :
    let l := start ['W', ':', '/', 'a', '\n', 'M', ':', 'x', '\n'] (fun _ => none)
      fun p => ["/"].contains (String.ofList p)
    Always step Barrier l waits ∧
      (waits.foldl step l).log = [.ready 0 "/a".toList, .launch 1] := by
  intro l
  have ha : IsName ['a'] := isName_singleton (by decide) (by decide)
  have hfs : l.fs (onDisk ["/"]) = Watcher.onDisk ["/"] := fs_onDisk rfl rfl
  refine ⟨run_barrier ⟨⟨?_, ?_⟩, ⟨?_, trivial⟩, ⟨?_, ?_⟩, ⟨?_, ?_⟩, ⟨trivial, trivial⟩,
    ⟨?_, ?_⟩, trivial⟩, by decide⟩
  · intro _ cmd _
    rw [hfs]
    exact Watcher.onDisk_works (by decide) (by decide)
  · intro _ cmd hline
    have hcmd : l.script[l.pos]? = some ('W', ['/', 'a']) := by decide
    cases hcmd.symm.trans hline
    have hmissing : ((l.files ['/', 'a']).dropWhile
        fun p => (l.fs (onDisk ["/"])).access (String.ofList p)) = [['/', 'a']] := by decide
    refine ⟨?_, fun _ => rfl⟩
    rw [Fs.Spelt, hmissing]
    intro p hp
    rw [List.mem_singleton.mp hp]
    exact ⟨Normal.root.child ha, by decide⟩
  · intro g hg
    rw [List.mem_singleton.mp hg]
    exact ⟨.root, ha, by decide, by decide, by simp⟩
  · rintro g ⟨⟩
    exact ⟨by decide, by decide⟩
  · rintro g ⟨⟩
    decide
  · rintro g ⟨⟩
    exact ⟨by decide, by decide⟩
  · rintro g ⟨⟩
    decide
  · rintro _ cmd ⟨⟩
  · rintro _ cmd ⟨⟩

/-- `/e` exists and `/m` does not. The continuation that the first line has scheduled
takes the launcher past the second. -/
theorem second_wait_overrun :
    let l := start
      ['W', ':', '/', 'e', '\n', 'W', ':', '/', 'm', '\n', 'M', ':', 'c', '\n'] (fun _ => none)
      fun p => ["/", "/e"].contains (String.ofList p)
    let sts := [.line (onDisk ["/", "/e"]), .line (onDisk ["/", "/e"]), .continueLaunch, .line {}]
    Along step Proper l sts ∧ (sts.foldl step l).log = [.ready 0 "/e".toList, .launch 2] ∧
      ¬ Always step Barrier l sts := by
  intro l sts
  have hlog : (sts.foldl step l).log = [.ready 0 "/e".toList, .launch 2] := by decide
  refine ⟨?_, hlog, ?_⟩
  · have hworks : ∀ l : Launcher, l.access = (fun p => ["/", "/e"].contains (String.ofList p)) →
        l.getenv = (fun _ => none) → (l.fs (onDisk ["/", "/e"])).Works := by
      intro l hl hg
      rw [fs_onDisk hl hg]
      exact Watcher.onDisk_works (by decide) (by decide)
    have hlaunch : ∀ l : Launcher, l.script[l.pos]? = some ('M', ['c']) → l.Proper (.line {}) := by
      intro l hcmd _ cmd hline
      rw [hcmd] at hline
      cases hline
    exact ⟨fun _ _ _ => hworks _ rfl rfl, fun _ _ _ => hworks _ rfl rfl, trivial,
      hlaunch _ (by decide), trivial⟩
  · intro h
    have hm := h.last [.ready 0 "/e".toList] 2 [] hlog 1 (by decide) "/m".toList (by decide)
      "/m".toList (by decide)
    revert hm
    decide

end Launcher

end Tlm
