import Tlm.Shell

/-!
# Guest accounts (`tlm-account-plugin-default.c`)

A guest's account is set up with `useradd`, and its home directory is emptied with
`rm -rf`, both through `system`, with the name and the directory put into the command as
they are. The guards test that there is a name, and that it is not empty; what the shell
makes of it they leave to the shell.

`confined_iff` says for which names and directories the shell makes of it what is meant:
they have to be plain words, with no meaning of their own to the shell or to the program
they are given to, and match nothing but themselves. The directory must not be empty.
-/

namespace Tlm

namespace GuestAccount

open Shell

/-! ## The commands -/

/-- `_setup_guest_account`: the command it runs, if it runs one. -/
def setupGuestAccount (userName : Option (List Char)) : Option (List Char) :=
  match userName with
  | none => none
  | some userName => if userName = [] then none else some ("useradd ".toList ++ userName)

/-- `_cleanup_guest_user`, with the entry that `getpwnam_r` has for the name, and the
directory in the entry. -/
def cleanupGuestUser (userName : Option (List Char)) (pwdEntry : Option (Option (List Char))) :
    Option (List Char) :=
  match userName with
  | none => none
  | some userName =>
    if userName = [] then none
    else match pwdEntry with
      | none => none
      | some none => none
      | some (some pwDir) => some ("rm -rf ".toList ++ pwDir ++ "/*".toList)

/-! ## What is meant -/

/-- The paths that a command removes, with what is below them, if the command is one that is
known to remove nothing else: `rm -rf` with operands. -/
def removes (files : Files) (argv : List (List Char)) : Option (List (List Char)) :=
  match argv with
  | command :: flags :: operands =>
    if command = "rm".toList ∧ flags = "-rf".toList ∧ operands.all isOperand then
      some (operands.filter fun path => path ∈ files.paths)
    else none
  | _ => none

/-- A path is in the home directory, and is not the directory itself. -/
def Inside (home path : List Char) : Prop :=
  home ≠ [] ∧ ∃ rest, rest ≠ [] ∧ path = home ++ '/' :: rest

/-- Whatever files there are, the account is set up by `useradd` with the name for its
operand, and nothing else is run. -/
def SetupConfined (brackets : Brackets) (userName : List Char) : Prop :=
  ∀ command, setupGuestAccount (some userName) = some command →
    ∀ files, run brackets files command = some [["useradd".toList, userName]] ∧
      isOperand userName = true

/-- Whatever files there are, only such are removed as are in the home directory. -/
def CleanupConfined (brackets : Brackets) (userName home : List Char) : Prop :=
  ∀ command, cleanupGuestUser (some userName) (some (some home)) = some command →
    ∀ files, ∃ argvs, run brackets files command = some argvs ∧
      ∀ argv ∈ argvs, ∃ paths, removes files argv = some paths ∧ ∀ path ∈ paths, Inside home path

/-- A word that means itself to the shell, and matches nothing else. -/
structure OneWord (brackets : Brackets) (word : List Char) : Prop where
  ordinary : ∀ c ∈ word, isBlank c = false ∧ isSeparator c = false ∧ isSpecial c = false
  start : word.head? ≠ some '#' ∧ word.head? ≠ some '~'
  itself : ∀ path, Matches brackets word path → path = word

/-! ## Setting up -/

section

variable {brackets : Brackets} {userName home : List Char}

theorem useradd_ordinary : ∀ c ∈ "useradd".toList,
    (isBlank c = false ∧ isSeparator c = false ∧ isSpecial c = false) ∧
      c ≠ '*' ∧ c ≠ '?' ∧ c ≠ '[' :=
  forall_mem_of_all (by decide)

theorem expand_useradd (files : Files) :
    expand brackets files "useradd".toList = ["useradd".toList] :=
  expand_literal fun c hc => (useradd_ordinary c hc).2

theorem setupGuestAccount_eq (hne : userName ≠ []) :
    setupGuestAccount (some userName) = some ("useradd".toList ++ ' ' :: userName) := by
  have htext : "useradd ".toList = "useradd".toList ++ [' '] := by decide
  rw [setupGuestAccount, if_neg hne, htext, List.append_assoc, List.singleton_append]

/-- The command has two words. -/
theorem commands_useradd (hne : userName ≠ [])
    (h : ∀ c ∈ userName, isBlank c = false ∧ isSeparator c = false) :
    commands ("useradd".toList ++ ' ' :: userName) = [["useradd".toList, userName]] := by
  have hone : runs isSeparator ("useradd".toList ++ ' ' :: userName) =
      ["useradd".toList ++ ' ' :: userName] := by
    refine runs_of_none (by simp) fun c hc => ?_
    obtain hc | hc := List.mem_append.mp hc
    · exact (useradd_ordinary c hc).1.2.1
    · obtain rfl | hc := List.mem_cons.mp hc
      · rfl
      · exact (h c hc).2
  have hblank : isBlank ' ' = true := by decide
  rw [commands, hone, List.map_singleton, runs_append hblank,
    runs_of_none (by decide) fun c hc => (useradd_ordinary c hc).1.1,
    runs_of_none hne fun c hc => (h c hc).1]
  rfl

/-- **The name is the operand** where there are no files, and where a path it matches is the
only file. -/
theorem oneWord_of_setupConfined (hne : userName ≠ []) (h : SetupConfined brackets userName) :
    OneWord brackets userName ∧ isOperand userName = true := by
  have h := h _ (setupGuestAccount_eq hne)
  obtain ⟨hplain, hargvs⟩ := run_eq_some.mp (h ⟨[], List.nodup_nil⟩).1
  -- where there are no files, the words are the arguments
  have hcommands : commands ("useradd".toList ++ ' ' :: userName) =
      [["useradd".toList, userName]] := by
    rw [← hargvs]
    refine (List.map_congr_left fun words _ => ?_).trans (List.map_id _) |>.symm
    exact (List.flatMap_congr fun word _ => rfl).trans (List.flatMap_singleton' words)
  have hmem : userName ∈ ["useradd".toList, userName] := by simp
  have hwords : ["useradd".toList, userName] ∈ commands ("useradd".toList ++ ' ' :: userName) := by
    rw [hcommands]
    exact List.mem_singleton_self _
  obtain ⟨text, htext, hruns⟩ := List.mem_map.mp hwords
  have hrun : userName ∈ runs isBlank text := hruns ▸ hmem
  refine ⟨⟨fun c hc => ⟨(mem_runs hrun).2 c hc, ?_, ?_⟩, start_of_plain hplain hwords hmem, ?_⟩,
    (h ⟨[], List.nodup_nil⟩).2⟩
  · exact (mem_runs htext).2 c (mem_of_mem_runs hrun hc)
  · exact not_special_of_plain hplain (List.mem_append_right _ (List.mem_cons_of_mem _ hc))
  · intro path hpath
    -- where the path is the only file, it would be the operand
    let files : Files := ⟨[path], List.pairwise_singleton _ path⟩
    obtain ⟨-, hargvs⟩ := run_eq_some.mp (h files).1
    have hfound : path ∈ expand brackets files userName :=
      mem_expand_of_matches (List.mem_singleton_self path) hpath
    simp only [hcommands, List.map_cons, List.map_nil, List.flatMap_cons, List.flatMap_nil,
      expand_useradd, List.append_nil] at hargvs
    have hexp : expand brackets files userName = [userName] :=
      List.append_cancel_left (List.cons_eq_cons.mp hargvs).1
    rw [hexp] at hfound
    exact List.mem_singleton.mp hfound

theorem setupConfined_of_oneWord (hne : userName ≠ []) (hword : OneWord brackets userName)
    (hoperand : isOperand userName = true) : SetupConfined brackets userName := by
  intro command hcommand files
  rw [setupGuestAccount_eq hne] at hcommand
  obtain rfl := Option.some.inj hcommand
  have hcommands := commands_useradd hne fun c hc =>
    ⟨(hword.ordinary c hc).1, (hword.ordinary c hc).2.1⟩
  refine ⟨run_eq_some.mpr ⟨plain_of_commands ?_ hcommands ?_, ?_⟩, hoperand⟩
  · intro c hc
    obtain hc | hc := List.mem_append.mp hc
    · exact (useradd_ordinary c hc).1.2.2
    · obtain rfl | hc := List.mem_cons.mp hc
      · rfl
      · exact (hword.ordinary c hc).2.2
  · exact List.forall_mem_cons.mpr ⟨by decide, List.forall_mem_singleton.mpr hword.start⟩
  · have hname : expand brackets files userName = [userName] :=
      expand_eq_self fun path _ => hword.itself path
    simp only [hcommands, List.map_cons, List.map_nil, List.flatMap_cons, List.flatMap_nil,
      expand_useradd, hname]
    rfl

theorem setupConfined_iff (hne : userName ≠ []) :
    SetupConfined brackets userName ↔ OneWord brackets userName ∧ isOperand userName = true := by
  refine ⟨oneWord_of_setupConfined hne, ?_⟩
  rintro ⟨hword, hoperand⟩
  exact setupConfined_of_oneWord hne hword hoperand

/-! ## Cleaning up -/

/-- What is put behind the directory. -/
def everything : List Char := ['/', '*']

theorem rm_ordinary : ∀ c ∈ "rm".toList ++ ' ' :: "-rf".toList,
    isSeparator c = false ∧ isSpecial c = false ∧ c ≠ '*' ∧ c ≠ '?' ∧ c ≠ '[' :=
  forall_mem_of_all (by decide)

theorem expand_rm (files : Files) : expand brackets files "rm".toList = ["rm".toList] :=
  expand_literal fun c hc => (rm_ordinary c (List.mem_append_left _ hc)).2.2

theorem expand_rf (files : Files) : expand brackets files "-rf".toList = ["-rf".toList] :=
  expand_literal fun c hc =>
    (rm_ordinary c (List.mem_append_right _ (List.mem_cons_of_mem _ hc))).2.2

theorem everything_ordinary : ∀ c ∈ everything,
    isBlank c = false ∧ isSeparator c = false ∧ isSpecial c = false :=
  forall_mem_of_all (by decide)

theorem cleanupGuestUser_eq (hne : userName ≠ []) (home : List Char) :
    cleanupGuestUser (some userName) (some (some home)) =
      some (("rm".toList ++ ' ' :: "-rf".toList) ++ ' ' :: (home ++ everything)) := by
  have htext : "rm -rf ".toList = ("rm".toList ++ ' ' :: "-rf".toList) ++ [' '] := by decide
  have hend : "/*".toList = everything := by decide
  rw [cleanupGuestUser, if_neg hne, htext, hend]
  simp only [List.append_assoc, List.cons_append, List.nil_append]

/-- If the directory is a word, there are three. -/
theorem commands_rm (h : ∀ c ∈ home, isBlank c = false ∧ isSeparator c = false) :
    commands (("rm".toList ++ ' ' :: "-rf".toList) ++ ' ' :: (home ++ everything)) =
      [["rm".toList, "-rf".toList, home ++ everything]] := by
  have hword : ∀ c ∈ home ++ everything, isBlank c = false ∧ isSeparator c = false :=
    List.forall_mem_append.mpr ⟨h, fun c hc =>
      ⟨(everything_ordinary c hc).1, (everything_ordinary c hc).2.1⟩⟩
  have hone : runs isSeparator (("rm".toList ++ ' ' :: "-rf".toList) ++ ' ' :: (home ++ everything)) =
      [("rm".toList ++ ' ' :: "-rf".toList) ++ ' ' :: (home ++ everything)] := by
    refine runs_of_none (by simp) fun c hc => ?_
    obtain hc | hc := List.mem_append.mp hc
    · exact (rm_ordinary c hc).1
    · obtain rfl | hc := List.mem_cons.mp hc
      · rfl
      · exact (hword c hc).2
  have hblank : isBlank ' ' = true := by decide
  have hne : home ++ everything ≠ [] := by simp [everything]
  rw [commands, hone, List.map_singleton, runs_append hblank, runs_append hblank,
    runs_of_none hne fun c hc => (hword c hc).1]
  rfl

/-- A command that is known to remove what it removes. -/
theorem removes_eq_some {files : Files} {argv paths : List (List Char)} :
    removes files argv = some paths ↔ ∃ operands, argv = "rm".toList :: "-rf".toList :: operands ∧
      operands.all isOperand = true ∧ paths = operands.filter fun path => path ∈ files.paths := by
  constructor
  · intro h
    match argv with
    | [] => exact absurd h nofun
    | [_] => exact absurd h nofun
    | command :: flags :: operands =>
      rw [removes] at h
      split at h
      case isTrue hrm =>
        obtain ⟨rfl, rfl, hoperands⟩ := hrm
        exact ⟨operands, rfl, hoperands, (Option.some.inj h).symm⟩
      case isFalse => exact absurd h nofun
  · rintro ⟨operands, rfl, hoperands, rfl⟩
    exact if_pos ⟨rfl, rfl, hoperands⟩

/-- What is matched with everything behind a directory that matches itself only is inside. -/
theorem inside_of_mem_expand {files : Files} {path : List Char} (hne : home ≠ [])
    (hitself : ∀ path, Matches brackets home path → path = home)
    (h : path ∈ expand brackets files (home ++ everything)) : Inside home path := by
  refine ⟨hne, ?_⟩
  obtain hmatch | rfl := mem_expand h
  · obtain ⟨dir, rest, rfl, hdir, hrest⟩ := matches_slash.mp hmatch
    obtain rfl := hitself dir hdir
    exact ⟨rest, ne_nil_of_matches_star hrest, rfl⟩
  · exact ⟨['*'], nofun, rfl⟩

theorem head?_of_inside {path : List Char} (h : Inside home path) : path.head? = home.head? := by
  obtain ⟨hne, rest, -, rfl⟩ := h
  obtain ⟨c, cs, rfl⟩ := List.exists_cons_of_ne_nil hne
  rfl

/-- **A directory that is a plain word**: only what is inside is removed. -/
theorem cleanupConfined_of_oneWord (hne : userName ≠ []) (hword : OneWord brackets home)
    (hhome : home ≠ []) (hdash : home.head? ≠ some '-') :
    CleanupConfined brackets userName home := by
  intro command hcommand files
  rw [cleanupGuestUser_eq hne] at hcommand
  obtain rfl := Option.some.inj hcommand
  have hcommands := commands_rm fun c hc =>
    ⟨(hword.ordinary c hc).1, (hword.ordinary c hc).2.1⟩
  have hinside : Inside home (home ++ everything) := ⟨hhome, ['*'], nofun, rfl⟩
  have hplain : plain (("rm".toList ++ ' ' :: "-rf".toList) ++ ' ' :: (home ++ everything)) = true := by
    refine plain_of_commands (fun c hc => ?_) hcommands ?_
    · obtain hc | hc := List.mem_append.mp hc
      · exact (rm_ordinary c hc).2.1
      · obtain rfl | hc := List.mem_cons.mp hc
        · rfl
        · obtain hc | hc := List.mem_append.mp hc
          · exact (hword.ordinary c hc).2.2
          · exact (everything_ordinary c hc).2.2
    · refine List.forall_mem_cons.mpr ⟨by decide, List.forall_mem_cons.mpr ⟨by decide, ?_⟩⟩
      refine List.forall_mem_singleton.mpr ?_
      rw [head?_of_inside hinside]
      exact hword.start
  refine ⟨_, run_eq_some.mpr ⟨hplain, rfl⟩, ?_⟩
  simp only [hcommands, List.map_cons, List.map_nil, List.flatMap_cons, List.flatMap_nil, expand_rm,
    expand_rf, List.append_nil]
  refine List.forall_mem_singleton.mpr ?_
  have hall : ∀ path ∈ expand brackets files (home ++ everything), Inside home path :=
    fun path => inside_of_mem_expand hhome hword.itself
  refine ⟨_, removes_eq_some.mpr ⟨_, rfl, ?_, rfl⟩, fun path hpath => ?_⟩
  · refine List.all_eq_true.mpr fun path hpath => ?_
    have hhead := head?_of_inside (hall path hpath)
    simp [isOperand, hhead, hdash]
  · exact hall path (List.mem_filter.mp hpath).1

/-- A text that comes behind a blank, and ends a text without one, is the end of it at most. -/
theorem eq_of_suffix {before last : List Char} (hsuffix : last <:+ before ++ ' ' :: home)
    (hblank : ∀ c ∈ last, isBlank c = false) (hlen : home.length ≤ last.length) : last = home := by
  obtain ⟨front, rfl⟩ := List.suffix_of_suffix_length_le
    (show home <:+ before ++ ' ' :: home from ⟨before ++ [' '], by simp⟩) hsuffix hlen
  obtain rfl | ⟨front, c, rfl⟩ := List.eq_nil_or_concat' front
  · rfl
  · -- then the blank is in it
    obtain ⟨pre, hpre⟩ := hsuffix
    have heq : (pre ++ front) ++ [c] = before ++ [' '] := by
      have hcancel : (pre ++ front) ++ [c] ++ home = before ++ [' '] ++ home := by simpa using hpre
      exact List.append_cancel_right hcancel
    obtain ⟨-, hlast⟩ := List.append_inj' heq rfl
    obtain ⟨rfl, -⟩ := List.cons_eq_cons.mp hlast
    exact absurd (hblank ' ' (by simp)) (by decide)

/-- What is behind the command's name and its flags, if it has a star. -/
theorem mem_operands {word : List Char} {operands : List (List Char)} (hstar : '*' ∈ word)
    (h : word ∈ "rm".toList :: "-rf".toList :: operands) : word ∈ operands := by
  obtain rfl | h := List.mem_cons.mp h
  · exact absurd hstar (by simp)
  · obtain rfl | h := List.mem_cons.mp h
    · exact absurd hstar (by simp)
    · exact h

/-- **A directory that is matched** is the home directory, or it would lose what is in it. -/
theorem eq_of_matches (hne : userName ≠ []) (h : CleanupConfined brackets userName home)
    (hordinary : ∀ c ∈ home, isBlank c = false ∧ isSeparator c = false) {path : List Char}
    (hmatch : Matches brackets home path) : path = home := by
  let files : Files := ⟨[path ++ '/' :: ['x']], List.pairwise_singleton _ _⟩
  obtain ⟨argvs, hrun, hargvs⟩ := h _ (cleanupGuestUser_eq hne home) files
  obtain ⟨-, rfl⟩ := run_eq_some.mp hrun
  simp only [commands_rm hordinary, List.map_cons, List.map_nil, List.flatMap_cons,
    List.flatMap_nil, expand_rm, expand_rf, List.append_nil, List.mem_singleton, forall_eq] at hargvs
  obtain ⟨paths, hremoves, hpaths⟩ := hargvs
  obtain ⟨operands, heq, -, rfl⟩ := removes_eq_some.mp hremoves
  have hfound : path ++ '/' :: ['x'] ∈ expand brackets files (home ++ everything) :=
    mem_expand_of_matches (List.mem_singleton_self _)
      (matches_slash.mpr ⟨path, ['x'], rfl, hmatch, matches_star_x⟩)
  have hmem : path ++ '/' :: ['x'] ∈ operands := by
    rw [← (List.cons_eq_cons.mp (List.cons_eq_cons.mp heq).2).2]
    exact hfound
  obtain ⟨-, rest, -, hpath⟩ := hpaths _ (List.mem_filter.mpr ⟨hmem, by simp [files]⟩)
  have hcomponents := congrArg components hpath
  rw [components_append, components_append] at hcomponents
  exact components_inj (List.append_inj hcomponents hmatch.length_eq.symm).1

/-- **The last word of the command** is removed where it is the only file there is, so that
it has to be all of the directory, with everything behind. -/
theorem oneWord_of_cleanupConfined (hne : userName ≠ [])
    (h : CleanupConfined brackets userName home) :
    OneWord brackets home ∧ home ≠ [] ∧ home.head? ≠ some '-' := by
  have hend : everything ≠ [] := nofun
  have htext : ("rm".toList ++ ' ' :: "-rf".toList) ++ ' ' :: (home ++ everything) =
      (("rm".toList ++ ' ' :: "-rf".toList) ++ ' ' :: home) ++ everything := by simp
  have hcommand := h _ (cleanupGuestUser_eq hne home)
  rw [htext] at hcommand
  obtain ⟨others, last, hcommands, hlast, hseparator⟩ := exists_last_run
    (("rm".toList ++ ' ' :: "-rf".toList) ++ ' ' :: home) hend
    fun c hc => (everything_ordinary c hc).2.1
  obtain ⟨words, word, hwords, hword, hblank⟩ := exists_last_run last hend
    fun c hc => (everything_ordinary c hc).1
  have hmem : words ++ [word ++ everything] ∈
      commands ((("rm".toList ++ ' ' :: "-rf".toList) ++ ' ' :: home) ++ everything) := by
    rw [commands, hcommands, List.map_append, ← hwords]
    simp
  obtain ⟨argvs, hrun, hargvs⟩ := hcommand ⟨[word ++ everything], List.pairwise_singleton _ _⟩
  obtain ⟨hplain, hmap⟩ := run_eq_some.mp hrun
  have hargv := List.mem_map_of_mem (f := fun words => words.flatMap (expand brackets
    ⟨[word ++ everything], List.pairwise_singleton _ _⟩)) hmem
  rw [hmap] at hargv
  obtain ⟨paths, hremoves, hpaths⟩ := hargvs _ hargv
  obtain ⟨operands, heq, hoperands, rfl⟩ := removes_eq_some.mp hremoves
  -- it is an operand, being neither the command nor its flags
  have hoperand : word ++ everything ∈ operands := by
    refine mem_operands (List.mem_append_right _ (by simp [everything])) ?_
    rw [← heq, List.flatMap_append, List.flatMap_singleton, expand_only]
    exact List.mem_append_right _ (List.mem_singleton_self _)
  obtain ⟨hhome, rest, hrest, hpath⟩ := hpaths _ (List.mem_filter.mpr ⟨hoperand, by simp⟩)
  have hlen : home.length ≤ word.length := by
    have hpos := List.length_pos_iff.mpr hrest
    have hlen := congrArg List.length hpath
    simp only [everything, List.length_append, List.length_cons, List.length_nil] at hlen
    omega
  obtain rfl := eq_of_suffix (hword.trans hlast) hblank hlen
  have hordinary : ∀ c ∈ word, isBlank c = false ∧ isSeparator c = false := fun c hc =>
    ⟨hblank c hc, hseparator c (hword.subset hc)⟩
  have hhead : (word ++ everything).head? = word.head? :=
    head?_of_inside ⟨hhome, rest, hrest, hpath⟩
  refine ⟨⟨fun c hc => ⟨hblank c hc, hseparator c (hword.subset hc), ?_⟩, ?_, ?_⟩, hhome, ?_⟩
  · exact not_special_of_plain hplain (by simp [hc])
  · rw [← hhead]
    exact start_of_plain hplain hmem (List.mem_append_right _ (List.mem_singleton_self _))
  · exact fun path => eq_of_matches hne h hordinary
  · rw [← hhead]
    have hall := List.all_eq_true.mp hoperands _ hoperand
    intro hdash
    rw [isOperand, hdash] at hall
    have hbare : word ++ everything = ['-'] := by simpa using hall
    exact absurd (congrArg List.length hbare) (by simp [everything])

theorem cleanupConfined_iff (hne : userName ≠ []) :
    CleanupConfined brackets userName home ↔
      OneWord brackets home ∧ home ≠ [] ∧ home.head? ≠ some '-' := by
  refine ⟨oneWord_of_cleanupConfined hne, ?_⟩
  rintro ⟨hword, hhome, hdash⟩
  exact cleanupConfined_of_oneWord hne hword hhome hdash

end

/-- **When a guest's commands do what is meant**: the name and the home directory are words
that mean themselves to the shell and match nothing else, neither is taken for an option,
and the directory is not empty. -/
theorem confined_iff (brackets : Brackets) {userName : List Char} (hne : userName ≠ [])
    (home : List Char) :
    SetupConfined brackets userName ∧ CleanupConfined brackets userName home ↔
      (OneWord brackets userName ∧ isOperand userName = true) ∧
        OneWord brackets home ∧ home ≠ [] ∧ home.head? ≠ some '-' := by
  rw [setupConfined_iff hne, cleanupConfined_iff hne]

/-- Guest `guest` with the directory `/home/guest`. -/
theorem confined_guest :
    SetupConfined (fun _ => none) "guest".toList ∧
      CleanupConfined (fun _ => none) "guest".toList "/home/guest".toList := by
  have hname : ∀ c ∈ "guest".toList, c ≠ '*' ∧ c ≠ '?' ∧ c ≠ '[' := forall_mem_of_all (by decide)
  have hhome : ∀ c ∈ "/home/guest".toList, c ≠ '*' ∧ c ≠ '?' ∧ c ≠ '[' :=
    forall_mem_of_all (by decide)
  refine (confined_iff (fun _ => none) (by decide) _).mpr ⟨⟨?_, by decide⟩, ?_, by decide, by decide⟩
  · exact ⟨forall_mem_of_all (by decide), by decide, fun _ => (matches_literal hname).mp⟩
  · exact ⟨forall_mem_of_all (by decide), by decide, fun _ => (matches_literal hhome).mp⟩

/-- An empty directory: the command is `rm -rf /*`. And a name with a separator: what is
behind it is run as well. -/
theorem root_is_removed :
    let files : Files := ⟨["/bin".toList, "/home".toList], by decide⟩
    ¬CleanupConfined (fun _ => none) "guest".toList [] ∧
      ¬SetupConfined (fun _ => none) "a;reboot".toList ∧
      (cleanupGuestUser (some "guest".toList) (some (some []))).bind (run (fun _ => none) files) =
        some [["rm".toList, "-rf".toList, "/bin".toList, "/home".toList]] ∧
      (setupGuestAccount (some "a;reboot".toList)).bind (run (fun _ => none) files) =
        some [["useradd".toList, "a".toList], ["reboot".toList]] := by
  refine ⟨fun h => ?_, fun h => ?_, by decide⟩
  · exact ((cleanupConfined_iff (by decide)).mp h).2.1 rfl
  · have hseparator := (((setupConfined_iff (by decide)).mp h).1.ordinary ';' (by decide)).2.1
    exact absurd hseparator (by decide)

end GuestAccount

end Tlm
