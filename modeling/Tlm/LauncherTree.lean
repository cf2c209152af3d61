import Tlm.Run
import Tlm.Script

/-!
# The processes of the launcher (`tlm-launcher.c`)

`_tlm_launcher_process` forks for every `M` and `L` line, and the child execs. If
that fails, the child does not exit: it falls out of the `switch` and goes on
with the loop, in a **copy** of the launcher that has its own copy of the stream
buffer and shares the position in the file with all others. The processes that
run launcher code are numbered in the order they were made; zero is the
launcher itself.

Every line is processed once and in order, by the launcher, in runs in which an
exec fails only when nothing is left to be done (`run_orderly`): the file has been read
to its end, and no command is left in the child's copy of the buffer.
-/

namespace Tlm

namespace Launcher

open Script

/-- What a process is doing. -/
inductive ProcPhase : Type where
  /-- in the loop of `_tlm_launcher_process` -/
  | reading
  /-- in the main loop, waiting for the files of a `W` line -/
  | waiting
  /-- on the way to its `execvp` -/
  | execing
  /-- in the main loop, with the script closed -/
  | closed
  /-- aborted, or another program by now -/
  | gone
  deriving DecidableEq, Repr

/-- A process that runs launcher code, or has. -/
structure Proc where
  /-- what its stream has read ahead -/
  buffer : List Chr
  /-- what it is doing -/
  phase : ProcPhase
  deriving DecidableEq, Repr

/-- A line was processed. -/
structure Entry where
  /-- by whom -/
  pid : ℕ
  /-- the line -/
  line : List Chr
  /-- a process was forked for it -/
  forked : Bool
  deriving DecidableEq, Repr

/-- All processes that run launcher code. -/
structure Tree where
  /-- the processes -/
  procs : List Proc
  /-- what none of them has read from the file -/
  rest : List Chr
  /-- what they have processed, in order -/
  log : List Entry := []
  deriving DecidableEq, Repr

/-- The outcomes of the calls made for a line. -/
structure Outcome where
  /-- `tlm_utils_split_command_line` gives an `argv` -/
  argv : Bool := true
  /-- `fork` succeeds -/
  fork : Bool := true
  /-- `tlm_utils_watch_for_files` leaves a watcher -/
  watches : Bool := false
  deriving DecidableEq, Repr

/-- What happens next. -/
inductive TreeStep : Type where
  /-- a process goes once through the loop -/
  | read (pid : ℕ) (out : Outcome)
  /-- `execvp` in a process; it returns only if it fails -/
  | exec (pid : ℕ) (ok : Bool)
  /-- `_continue_launch` in a process -/
  | continueLaunch (pid : ℕ)
  deriving DecidableEq, Repr

namespace Tree

/-- The launcher has opened its script. -/
def start (script : List Char) : Tree := { procs := [⟨[], .reading⟩], rest := text script }

/-- The body of the loop for a line that is not skipped; `buffer` is what is left
ahead. `ERR` aborts the process. -/
def process (t : Tree) (pid : ℕ) (out : Outcome) (control : Char) (line buffer : List Chr) : Tree :=
  if control = 'M' ∨ control = 'L' then
    if out.argv && out.fork then
      { t with
        procs := t.procs.set pid ⟨buffer, .reading⟩ ++ [⟨buffer, .execing⟩]
        log := t.log ++ [⟨pid, line, true⟩] }
    else
      { t with
        procs := t.procs.set pid ⟨buffer, .gone⟩, log := t.log ++ [⟨pid, line, false⟩] }
  else
    let phase := if control = 'W' ∧ out.watches = true then .waiting else .reading
    { t with procs := t.procs.set pid ⟨buffer, phase⟩, log := t.log ++ [⟨pid, line, false⟩] }

/-- `while (fgets (..) != NULL)`, once. -/
def read (block : ℕ) (t : Tree) (pid : ℕ) (out : Outcome) (p : Proc) : Tree :=
  let (line, buffer, rest) := fgets block lineMax p.buffer t.rest
  let t := { t with rest := rest }
  if line.isEmpty then { t with procs := t.procs.set pid ⟨buffer, .closed⟩ }
  else match parse line with
    | none => { t with procs := t.procs.set pid ⟨buffer, .reading⟩ }
    | some (control, _) => t.process pid out control line buffer

/-- One step; `block` is the size of a stream's buffer. -/
def step (block : ℕ) (t : Tree) (st : TreeStep) : Tree :=
  match st with
  | .read pid out => match t.procs[pid]? with
    | some p => if p.phase = .reading then t.read block pid out p else t
    | none => t
  | .exec pid ok => match t.procs[pid]? with
    | some p =>
      if p.phase = .execing then
        { t with procs := t.procs.set pid ⟨p.buffer, if ok then .gone else .reading⟩ }
      else t
    | none => t
  | .continueLaunch pid => match t.procs[pid]? with
    | some p =>
      if p.phase = .waiting then { t with procs := t.procs.set pid ⟨p.buffer, .reading⟩ } else t
    | none => t

variable {block : ℕ} {script : List Char} {t : Tree} {p : Proc} {pid : ℕ}

/-- Every line that was processed was processed by the launcher itself, they are the
first of the script in the order of the file, and no line was forked for twice. -/
structure Orderly (script : List Char) (t : Tree) : Prop where
  single : ∀ e ∈ t.log, e.pid = 0
  order : t.log.map Entry.line <+: commands (text script)
  once : ((t.log.filter Entry.forked).map fun e => lineOf script e.line).Nodup

/-- Of the pieces in which a line is read, not two launch something. -/
def Whole (script : List Char) : Prop :=
  (((commands (text script)).filter launches).map (lineOf script)).Nodup

/-- Nothing is left for a process: the file has been read to its end, and what the
process itself has read ahead holds no command. -/
structure Spent (t : Tree) (p : Proc) : Prop where
  rest : t.rest = []
  buffer : commands p.buffer = []

/-- If an exec fails, nothing is left for the process. -/
def Harmless (t : Tree) (st : TreeStep) : Prop :=
  ∀ pid p, st = .exec pid false → t.procs[pid]? = some p → p.phase = .execing → t.Spent p

/-! ## What a step does -/

/-- Reading a line: the script ends, the line is skipped, or it is processed; and
then it may have left a new process on its way to `execvp`. -/
theorem read_cases (block : ℕ) (t : Tree) (pid : ℕ) (out : Outcome) (p : Proc) :
    ∃ line buffer rest, fgets block lineMax p.buffer t.rest = (line, buffer, rest) ∧
      ((∃ phase, parse line = none ∧ t.read block pid out p =
        { t with procs := t.procs.set pid ⟨buffer, phase⟩, rest := rest }) ∨
      ∃ phase kids forked, (parse line).isSome = true ∧
        (∀ k ∈ kids, k.phase = .execing) ∧ (forked = true → launches line = true) ∧
        t.read block pid out p =
          { procs := t.procs.set pid ⟨buffer, phase⟩ ++ kids, rest := rest
            log := t.log ++ [⟨pid, line, forked⟩] }) := by
  obtain ⟨line, buffer, rest, hget⟩ : ∃ line buffer rest,
      fgets block lineMax p.buffer t.rest = (line, buffer, rest) := ⟨_, _, _, rfl⟩
  refine ⟨line, buffer, rest, hget, ?_⟩
  simp only [read, hget]
  rcases line with _ | ⟨c, line⟩
  · exact Or.inl ⟨.closed, rfl, rfl⟩
  · rcases hparse : parse (c :: line) with _ | ⟨control, cmd⟩
    · exact Or.inl ⟨.reading, rfl, rfl⟩
    · refine Or.inr ?_
      simp only [List.isEmpty_cons, Bool.false_eq_true, if_false, process]
      split
      · rename_i hcontrol
        have hlaunches : launches (c :: line) = true := by
          rw [launches, hparse]
          simpa using hcontrol
        split
        · refine ⟨.reading, [⟨buffer, .execing⟩], true, rfl, ?_,
            fun _ => hlaunches, rfl⟩
          intro k hk
          rw [List.mem_singleton.mp hk]
        · exact ⟨.gone, [], false, rfl, by simp, by simp, by simp⟩
      · exact ⟨_, [], false, rfl, by simp, by simp, by rw [List.append_nil]⟩

/-! ## The invariant -/

/-- What was processed and what the launcher still has before it is the script; and
no other process has anything to process. -/
structure Inv (script : List Char) (t : Tree) : Prop where
  root : ∃ p, t.procs[0]? = some p ∧
    t.log.map Entry.line ++ commands (p.buffer ++ t.rest) = commands (text script)
  others : ∀ pid p, pid ≠ 0 → t.procs[pid]? = some p →
    p.phase = .execing ∨ p.phase = .gone ∨ t.Spent p
  single : ∀ e ∈ t.log, e.pid = 0
  launched : ∀ e ∈ t.log, e.forked = true → launches e.line = true

theorem inv_start (script : List Char) : (start script).Inv script := by
  refine ⟨⟨_, rfl, rfl⟩, ?_, by rintro e ⟨⟩, by rintro e ⟨⟩⟩
  intro pid p hpid hp
  obtain ⟨k, rfl⟩ := Nat.exists_eq_succ_of_ne_zero hpid
  cases hp

/-- A process gets `p'` before it and the file `rest`, and processes `es`; new processes
are on their way to `execvp`. What that leaves of the invariant. -/
theorem Inv.update {p' : Proc} {rest : List Chr} {kids : List Proc} {es : List Entry}
    (h : t.Inv script) (hp : t.procs[pid]? = some p)
    (hroot : pid = 0 → commands (p.buffer ++ t.rest) =
      es.map Entry.line ++ commands (p'.buffer ++ rest))
    (hother : pid ≠ 0 → (rest = t.rest ∧ es = []) ∧
      (p'.phase = .execing ∨ p'.phase = .gone ∨ t.Spent p'))
    (hrest : t.rest = [] → rest = []) (hkids : ∀ k ∈ kids, k.phase = .execing)
    (hes : ∀ e ∈ es, e.pid = pid ∧ (e.forked = true → launches e.line = true)) :
    Inv script { procs := t.procs.set pid p' ++ kids, rest := rest, log := t.log ++ es } := by
  have hlt : pid < (t.procs.set pid p').length := by
    rw [List.length_set]
    exact (List.getElem?_eq_some_iff.mp hp).1
  have hself : (t.procs.set pid p' ++ kids)[pid]? = some p' := by
    rw [List.getElem?_append_left hlt, List.getElem?_set_self (by rwa [List.length_set] at hlt)]
  have hspent : ∀ {q : Proc}, t.Spent q →
      Spent { procs := t.procs.set pid p' ++ kids, rest := rest, log := t.log ++ es } q :=
    fun hq => ⟨hrest hq.rest, hq.buffer⟩
  obtain ⟨q, hq, hscript⟩ := h.root
  refine ⟨?_, ?_, ?_, ?_⟩
  · by_cases hpid : pid = 0
    · subst hpid
      rw [hp] at hq
      obtain rfl := Option.some.inj hq
      refine ⟨p', hself, ?_⟩
      rw [List.map_append, List.append_assoc, ← hroot rfl]
      exact hscript
    · obtain ⟨⟨rfl, rfl⟩, -⟩ := hother hpid
      have hlen : 0 < (t.procs.set pid p').length := Nat.lt_of_le_of_lt (Nat.zero_le _) hlt
      refine ⟨q, ?_, by rw [List.append_nil]; exact hscript⟩
      rw [List.getElem?_append_left hlen, List.getElem?_set_ne hpid]
      exact hq
  · intro pid' q hpid' hq
    by_cases heq : pid = pid'
    · subst heq
      rw [hself] at hq
      obtain rfl := Option.some.inj hq
      exact (hother hpid').2.imp_right (Or.imp_right hspent)
    · rw [List.getElem?_append] at hq
      split at hq
      · rw [List.getElem?_set_ne heq] at hq
        exact (h.others pid' q hpid' hq).imp_right (Or.imp_right hspent)
      · exact Or.inl (hkids q (List.mem_of_getElem? hq))
  · intro e he
    rcases List.mem_append.mp he with he | he
    · exact h.single e he
    · by_cases hpid : pid = 0
      · exact (hes e he).1.trans hpid
      · obtain ⟨⟨-, rfl⟩, -⟩ := hother hpid
        cases he
  · intro e he
    rcases List.mem_append.mp he with he | he
    · exact h.launched e he
    · exact (hes e he).2

/-- A process that only changes what it is doing. -/
theorem Inv.setPhase {phase : ProcPhase} (h : t.Inv script) (hp : t.procs[pid]? = some p)
    (hother : pid ≠ 0 → phase = .gone ∨ t.Spent p) :
    Inv script { t with procs := t.procs.set pid ⟨p.buffer, phase⟩ } := by
  have hupdate : Inv script { procs := t.procs.set pid ⟨p.buffer, phase⟩ ++ [], rest := t.rest
                              log := t.log ++ [] } := by
    refine h.update hp (fun _ => rfl) ?_ id (by simp) (by simp)
    intro hpid
    refine ⟨⟨rfl, rfl⟩, Or.inr ?_⟩
    exact (hother hpid).imp_right fun hs => ⟨hs.rest, hs.buffer⟩
  simpa only [List.append_nil] using hupdate

theorem read_inv (hb : 0 < block) (h : t.Inv script) (hp : t.procs[pid]? = some p)
    (hphase : p.phase = .reading) (out : Outcome) : (t.read block pid out p).Inv script := by
  obtain ⟨line, buffer, rest, hget, hcases⟩ := read_cases block t pid out p
  have hcmd := commands_fgets hb hget
  -- another process than the launcher has nothing left, and so it gets nothing
  have hspent : pid ≠ 0 → t.rest = [] ∧ parse line = none ∧ commands buffer = [] := by
    intro hpid
    rcases h.others pid p hpid hp with hexec | hgone | hspent
    · rw [hphase] at hexec
      cases hexec
    · rw [hphase] at hgone
      cases hgone
    · rw [hspent.rest, List.append_nil, hspent.buffer, fgets_rest hget hspent.rest,
        List.append_nil] at hcmd
      obtain ⟨hline, hbuffer⟩ := List.append_eq_nil_iff.mp hcmd.symm
      refine ⟨hspent.rest, ?_, hbuffer⟩
      rcases hparse : parse line with _ | c
      · rfl
      · simp [hparse] at hline
  rcases hcases with ⟨phase, hnone, heq⟩ | ⟨phase, kids, forked, hsome, hkids, hforked, heq⟩
  · have hupdate : Inv script { procs := t.procs.set pid ⟨buffer, phase⟩ ++ [], rest := rest
                                log := t.log ++ [] } := by
      refine h.update hp ?_ ?_ (fgets_rest hget) (by simp) (by simp)
      · intro _
        rw [hcmd, hnone]
        rfl
      · intro hpid
        obtain ⟨hrest, -, hbuffer⟩ := hspent hpid
        refine ⟨⟨?_, rfl⟩, Or.inr (Or.inr ⟨hrest, hbuffer⟩)⟩
        rw [hrest, fgets_rest hget hrest]
    rw [heq]
    simpa only [List.append_nil] using hupdate
  · rw [heq]
    refine h.update hp ?_ ?_ (fgets_rest hget) hkids ?_
    · intro _
      rw [hcmd, hsome]
      rfl
    · intro hpid
      obtain ⟨-, hnone, -⟩ := hspent hpid
      rw [hnone] at hsome
      cases hsome
    · intro e he
      rw [List.mem_singleton.mp he]
      exact ⟨rfl, hforked⟩

/-- **Every harmless step keeps the invariant.** -/
theorem step_inv (hb : 0 < block) (h : t.Inv script) {st : TreeStep} (hst : t.Harmless st) :
    (t.step block st).Inv script := by
  cases st with
  | read pid out =>
    simp only [step]
    split
    · rename_i p hp
      split
      · rename_i hphase
        exact read_inv hb h hp hphase out
      · exact h
    · exact h
  | exec pid ok =>
    simp only [step]
    split
    · rename_i p hp
      split
      · rename_i hphase
        refine h.setPhase hp fun _ => ?_
        cases ok with
        | true => exact Or.inl rfl
        | false => exact Or.inr (hst pid p rfl hp hphase)
      · exact h
    · exact h
  | continueLaunch pid =>
    simp only [step]
    split
    · rename_i p hp
      split
      · rename_i hphase
        refine h.setPhase hp fun hpid => Or.inr ?_
        rcases h.others pid p hpid hp with hexec | hgone | hspent
        · rw [hphase] at hexec
          cases hexec
        · rw [hphase] at hgone
          cases hgone
        · exact hspent
      · exact h
    · exact h

/-! ## Whole runs -/

theorem Inv.orderly (hs : Whole script) (h : t.Inv script) : t.Orderly script := by
  obtain ⟨p, -, hroot⟩ := h.root
  have horder : t.log.map Entry.line <+: commands (text script) := ⟨_, hroot⟩
  have hforked : t.log.filter Entry.forked =
      (t.log.filter fun e => launches e.line).filter Entry.forked := by
    rw [List.filter_filter]
    refine List.filter_congr fun e he => ?_
    rw [Bool.eq_iff_iff, Bool.and_eq_true]
    exact ⟨fun hf => ⟨hf, h.launched e he hf⟩, fun hf => hf.1⟩
  have hlines : ((t.log.filter Entry.forked).map fun e => lineOf script e.line).Sublist
      (((commands (text script)).filter launches).map (lineOf script)) := by
    rw [hforked]
    refine (List.filter_sublist.map _).trans ?_
    have hmap : (t.log.filter fun e => launches e.line).map (fun e => lineOf script e.line) =
        ((t.log.map Entry.line).filter launches).map (lineOf script) := by
      rw [List.filter_map, List.map_map]
      rfl
    rw [hmap]
    exact (horder.sublist.filter _).map _
  exact ⟨h.single, horder, hs.sublist hlines⟩

/-- **Each command is launched once**, in runs in which an exec fails only when nothing
is left for the child: the script is processed in the order of the file, by one
process, and no line of it is forked for twice, unless it is read in two pieces
that both launch something. -/
theorem run_orderly (hb : 0 < block) (hs : Whole script) {sts : List TreeStep}
    (h : Along (step block) Harmless (start script) sts) :
    Always (step block) (Orderly script) (start script) sts := by
  have hinv : Always (step block) (Inv script) (start script) sts :=
    h.always (fun _ _ ht hst => step_inv hb ht hst) (inv_start script)
  exact hinv.imp fun _ ht => ht.orderly hs

/-- A program that does not exist is launched last, behind a wait; its process finds
nothing left to do. -/
theorem run_orderly_last :
    let script := "M:a\nW:/s\n# last\nL:b\n".toList
    let sts : List TreeStep := [.read 0 {}, .exec 1 true, .read 0 { watches := true },
      .continueLaunch 0, .read 0 {}, .read 0 {}, .exec 2 false, .read 2 {}, .read 0 {}]
    Always (step 4096) (Orderly script) (start script) sts ∧
      (sts.foldl (step 4096) (start script)).procs.length = 3 := by
  intro script sts
  have hcalm : ∀ (t : Tree) (st : TreeStep), (∀ pid, st ≠ .exec pid false) → t.Harmless st :=
    fun t st hst pid p heq => absurd heq (hst pid)
  have hspent : ∀ t : Tree, t.procs[2]? = some ⟨[], .execing⟩ → t.rest = [] →
      t.Harmless (.exec 2 false) := by
    rintro t hproc hrest pid p ⟨⟩ hp -
    obtain rfl := Option.some.inj (hproc.symm.trans hp)
    exact ⟨hrest, by decide⟩
  refine ⟨run_orderly (by decide) ?_ ⟨?_, ?_, ?_, ?_, ?_, ?_, ?_, ?_, ?_, trivial⟩, by decide⟩
  · unfold Whole
    decide
  case refine_8 => exact hspent _ (by decide) (by decide)
  all_goals
    apply hcalm
    rintro pid ⟨⟩

/-- The defect: the first program does not exist, and then both the launcher and what
should have become that program launch the second. -/
theorem second_forked_twice :
    let script := "M:bad\nM:cmd\n".toList
    let sts : List TreeStep := [.read 0 {}, .exec 1 false, .read 0 {}, .read 1 {}]
    ¬ Always (step 4096) (Orderly script) (start script) sts := by
  intro script sts h
  have hlast := h.last.once
  revert hlast
  decide

end Tree

end Launcher

end Tlm
