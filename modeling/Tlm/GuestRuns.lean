import Tlm.DaemonSpec
import Tlm.GuestAccount
import Tlm.SeatMoves
import Tlm.SeatPrepare

/-!
# The guest's account, in every run (`tlm-manager.c`)

The manager answers the two signals of a seat, when it is told to by `PREPARE_DEFAULT`, by
asking the account plugin to set the guest's account up, or to clean it; the default plugin
does both by a command for the shell. `Accounts` are the seats of a daemon with the commands
that were run for them so far.

A request names a user, and so do the files of the daemon. **No command is ever run for a
user that a request names** (`run_commands`): each is for the default user of a seat, by the
name that a template of the configuration gives him, and `useradd` is only run for one who is
not in the passwd database. Where these names and the home directories are plain words,
therefore, the shell does what is meant and nothing else, whatever the daemon is asked for
(`run_confined`).
-/

namespace Tlm

namespace GuestAccount

open Shell

/-- The passwd database: whether a name has an entry, and the directory in it. -/
abbrev Homes : Type := List Char → Option (Option (List Char))

/-! ## The manager -/

/-- `_is_valid_user` of the default plugin. -/
def isValidUser (homes : Homes) (userName : Option (List Char)) : Bool :=
  match userName with
  | none => false
  | some userName => userName ≠ [] && (homes userName).isSome

/-- `tlm_manager_setup_guest_user`, with the default plugin: the command that is run. -/
def setupGuestUser (homes : Homes) (userName : Option (List Char)) : Option (List Char) :=
  if isValidUser homes userName then cleanupGuestUser userName (userName.bind homes)
  else setupGuestAccount userName

/-- `General/PREPARE_DEFAULT`, off unless switched on. -/
def prepareDefault (cfg : Config) : Bool :=
  cfg.getBoolean (some Config.general) "PREPARE_DEFAULT" false

/-- `_prepare_user_login_cb`. -/
def prepareUserLoginCb (cfg : Config) (homes : Homes) (userName : Option (List Char)) :
    Option (List Char) :=
  if prepareDefault cfg then setupGuestUser homes userName else none

/-- `_prepare_user_logout_cb`. -/
def prepareUserLogoutCb (cfg : Config) (homes : Homes) (userName : Option (List Char)) :
    Option (List Char) :=
  if prepareDefault cfg then cleanupGuestUser userName (userName.bind homes) else none

/-- What the manager has run for what a seat does. -/
def command (cfg : Config) (homes : Homes) : Act → Option (List Char)
  | .prepareUserLogin u => prepareUserLoginCb cfg homes (some u.toList)
  | .prepareUserLogout du => prepareUserLogoutCb cfg homes (du.map String.toList)
  | _ => none

/-- The seats, and the commands run for them. -/
structure Accounts where
  /-- the seats -/
  seats : Store Seat := .empty
  /-- what was given to `system` -/
  commands : List (List Char) := []

/-- A move of the seats, with the passwd database as it then is. -/
def Accounts.apply (a : Accounts) (move : SeatMove × Homes) : Accounts :=
  match move.1 with
  | .enter _ => { a with seats := move.1.apply a.seats }
  | .step r st =>
    let acts := Daemon.gained (a.seats.get r) ((a.seats.get r).step st)
    ⟨move.1.apply a.seats, a.commands ++ acts.filterMap (command st.cfg move.2)⟩

/-- What a sequence of moves comes to. -/
def Accounts.run (moves : List (SeatMove × Homes)) : Accounts := moves.foldl Accounts.apply {}

/-! ## What a command is -/

/-- A command for user `u`: to add one who has no entry, or to empty the directory of one who
has. -/
inductive For (homes : Homes) (u : List Char) : List Char → Prop where
  | useradd (h : homes u = none) : For homes u ("useradd ".toList ++ u)
  | rm {home : List Char} (h : homes u = some (some home)) :
      For homes u ("rm -rf ".toList ++ home ++ "/*".toList)

variable {cfg : Config} {homes : Homes} {u c : List Char} {a : Act}
  {moves : List (SeatMove × Homes)}

theorem for_of_cleanup (h : cleanupGuestUser (some u) (homes u) = some c) :
    u ≠ [] ∧ For homes u c := by
  simp only [cleanupGuestUser] at h
  split at h
  · cases h
  · rename_i hne
    rcases hhome : homes u with _ | _ | home
    · rw [hhome] at h
      cases h
    · rw [hhome] at h
      cases h
    · rw [hhome] at h
      obtain rfl := Option.some.inj h
      exact ⟨hne, .rm hhome⟩

theorem for_of_setup (h : setupGuestUser homes (some u) = some c) : u ≠ [] ∧ For homes u c := by
  simp only [setupGuestUser] at h
  split at h
  · exact for_of_cleanup h
  · rename_i hvalid
    simp only [setupGuestAccount] at h
    split at h
    · cases h
    · rename_i hne
      obtain rfl := Option.some.inj h
      refine ⟨hne, .useradd ?_⟩
      simpa [isValidUser, hne] using hvalid

/-- A command is for the user of one of the two signals. -/
theorem for_of_command (h : command cfg homes a = some c) :
    prepareDefault cfg = true ∧ ∃ u : String, u.toList ≠ [] ∧ For homes u.toList c ∧
      (a = .prepareUserLogin u ∨ a = .prepareUserLogout (some u)) := by
  cases a with
  | prepareUserLogin u =>
    simp only [command, prepareUserLoginCb] at h
    split at h
    · rename_i hon
      obtain ⟨hne, hfor⟩ := for_of_setup h
      exact ⟨hon, u, hne, hfor, .inl rfl⟩
    · cases h
  | prepareUserLogout du =>
    simp only [command, prepareUserLogoutCb] at h
    split at h
    · rename_i hon
      rcases du with _ | u
      · cases h
      · have hclean : cleanupGuestUser (some u.toList) (homes u.toList) = some c := h
        obtain ⟨hne, hfor⟩ := for_of_cleanup hclean
        exact ⟨hon, u, hne, hfor, .inr rfl⟩
    · cases h
  | _ => cases h

/-! ## Where it comes from -/

theorem run_append (moves : List (SeatMove × Homes)) (move : SeatMove × Homes) :
    Accounts.run (moves ++ [move]) = (Accounts.run moves).apply move :=
  List.foldl_append

/-- The seats move as if nobody looked on. -/
theorem run_seats (moves : List (SeatMove × Homes)) :
    (Accounts.run moves).seats = (moves.map Prod.fst).foldl SeatMove.apply .empty := by
  induction moves using List.reverseRecOn with
  | nil => rfl
  | append_singleton moves move ih =>
    rw [run_append, List.map_append, List.foldl_append, ← ih]
    obtain ⟨mv, homes⟩ := move
    cases mv <;> rfl

/-- Each seat has run, and so is well-formed. -/
theorem run_linked (moves : List (SeatMove × Homes)) (r : SeatRef) :
    ∃ Looked, ((Accounts.run moves).seats.get r).Linked Looked := by
  obtain ⟨hnew, hrun⟩ := SeatMove.seat_run (moves.map Prod.fst) r
  rw [← run_seats] at hnew hrun
  by_cases hr : r < (Accounts.run moves).seats.next
  · obtain ⟨id, sts, -, -, heq⟩ := hrun hr
    rw [heq]
    exact ⟨_, (Seat.run_wf id sts).toLinked⟩
  · rw [hnew (Nat.le_of_not_lt hr)]
    refine ⟨fun _ _ => True, ?_⟩
    have hwf : (default : Seat).Wf fun _ _ => True :=
      .of_noSession rfl (fun _ => rfl) fun _ => ⟨rfl, rfl⟩
    exact hwf.toLinked

/-- A seat never forgets what it has done. -/
theorem run_trace (moves : List (SeatMove × Homes)) (move : SeatMove × Homes) (r : SeatRef) :
    ∃ acts, ((Accounts.run (moves ++ [move])).seats.get r).trace =
      ((Accounts.run moves).seats.get r).trace ++ acts := by
  obtain ⟨mv, homes⟩ := move
  rw [run_append]
  cases mv with
  | enter id =>
    change ∃ acts, (((Accounts.run moves).seats.alloc (Seat.new id)).get r).trace = _
    by_cases hr : r = (Accounts.run moves).seats.next
    · have hnew := (SeatMove.seat_run (moves.map Prod.fst) r).1
      rw [← run_seats] at hnew
      refine ⟨[], ?_⟩
      rw [hnew (Nat.le_of_eq hr.symm), hr, Store.get_alloc_self]
      rfl
    · refine ⟨[], ?_⟩
      rw [Store.get_alloc_ne _ _ hr, List.append_nil]
  | step r' st =>
    change ∃ acts, (((Accounts.run moves).seats.set r'
      (((Accounts.run moves).seats.get r').step st)).get r).trace = _
    by_cases hr : r = r'
    · subst hr
      obtain ⟨Looked, hl⟩ := run_linked moves r
      obtain ⟨acts, ht, -⟩ := (Seat.step_grows hl st).trace
      rw [Store.get_set_self]
      exact ⟨acts, ht⟩
    · refine ⟨[], ?_⟩
      rw [Store.get_set_ne _ _ hr, List.append_nil]

/-- **Origin of a command**: a signal in the trace of a seat. -/
theorem mem_commands (h : c ∈ (Accounts.run moves).commands) :
    ∃ r st homes a, (SeatMove.step r st, homes) ∈ moves ∧
      a ∈ ((Accounts.run moves).seats.get r).trace ∧ command st.cfg homes a = some c := by
  induction moves using List.reverseRecOn with
  | nil => cases h
  | append_singleton moves move ih =>
    have hlater : c ∈ (Accounts.run moves).commands →
        ∃ r st homes a, (SeatMove.step r st, homes) ∈ moves ++ [move] ∧
          a ∈ ((Accounts.run (moves ++ [move])).seats.get r).trace ∧
          command st.cfg homes a = some c := by
      intro h
      obtain ⟨r, st, homes, a, hm, ha, hc⟩ := ih h
      obtain ⟨acts, ht⟩ := run_trace moves move r
      refine ⟨r, st, homes, a, List.mem_append_left _ hm, ?_, hc⟩
      rw [ht]
      exact List.mem_append_left _ ha
    rw [run_append] at h
    obtain ⟨mv, homes⟩ := move
    cases mv with
    | enter id => exact hlater h
    | step r st =>
      rcases List.mem_append.mp h with h | h
      · exact hlater h
      · -- the signal is among what the seat has just done
        obtain ⟨a, ha, hc⟩ := List.mem_filterMap.mp h
        refine ⟨r, st, homes, a, List.mem_append_right _ (List.mem_singleton_self _), ?_, hc⟩
        rw [run_append]
        change a ∈ (((Accounts.run moves).seats.set r
          (((Accounts.run moves).seats.get r).step st)).get r).trace
        rw [Store.get_set_self]
        exact List.mem_of_mem_drop ha

/-- The name of the default user of seat `r`: a configuration in force at one of its dispatches
has the template for the id under which the seat was entered. -/
def Configured (moves : List (SeatMove × Homes)) (r : SeatRef) (u : String) : Prop :=
  ∃ st homes t, (SeatMove.step r st, homes) ∈ moves ∧
    Seat.nameTemplate st.cfg ((Accounts.run moves).seats.get r).id = some t ∧
    u = Seat.buildUserName t ((Accounts.run moves).seats.get r).id

/-- The signals of a seat are for its default user. -/
theorem configured_of_mem {r : SeatRef} {u : String}
    (h : a ∈ ((Accounts.run moves).seats.get r).trace)
    (ha : a = .prepareUserLogin u ∨ a = .prepareUserLogout (some u)) : Configured moves r u := by
  obtain ⟨hnew, hrun⟩ := SeatMove.seat_run (moves.map Prod.fst) r
  rw [← run_seats] at hnew hrun
  have hr : r < (Accounts.run moves).seats.next := by
    by_contra hr
    rw [hnew (Nat.le_of_not_lt hr)] at h
    cases h
  obtain ⟨id, sts, -, hsts, heq⟩ := hrun hr
  rw [heq] at h
  have hbuilt : Seat.BuiltIn id sts u := by
    rcases ha with rfl | rfl
    · exact (Seat.run_signal id sts (.inl h)).2
    · exact (Seat.run_signal id sts (.inr h)).2
  obtain ⟨st, hst, t, ht, hu⟩ := hbuilt
  obtain ⟨⟨mv, homes⟩, hmv, hstep⟩ := List.mem_map.mp (hsts st hst)
  obtain rfl : mv = .step r st := hstep
  have hid : ((Accounts.run moves).seats.get r).id = id := by
    rw [heq]
    exact Seat.run_id id sts
  rw [← hid] at ht hu
  exact ⟨st, homes, t, hmv, ht, hu⟩

/-- **No command for a user that a request names**: every command that is run is for the
default user of the seat whose dispatch it is run in, whose name the configuration makes, with
`PREPARE_DEFAULT` switched on; it adds him when he has no entry in the passwd database, or else
empties the directory that he has there. -/
theorem run_commands (moves : List (SeatMove × Homes)) :
    ∀ c ∈ (Accounts.run moves).commands, ∃ u r st homes, Configured moves r u ∧
      (SeatMove.step r st, homes) ∈ moves ∧ prepareDefault st.cfg = true ∧
      u.toList ≠ [] ∧ For homes u.toList c := by
  intro c h
  obtain ⟨r, st, homes, a, hm, ha, hc⟩ := mem_commands h
  obtain ⟨hon, u, hne, hfor, ha'⟩ := for_of_command hc
  exact ⟨u, r, st, homes, configured_of_mem ha ha', hm, hon, hne, hfor⟩

/-! ## What the shell makes of it -/

/-- What is meant to be run: `useradd` for a configured user, or a removal of what is inside
the home directory of one. -/
def Meant (moves : List (SeatMove × Homes)) (files : Files) (argv : List (List Char)) : Prop :=
  ∃ r u, Configured moves r u ∧ (argv = ["useradd".toList, u.toList] ∨
    ∃ mv homes home paths, (mv, homes) ∈ moves ∧ homes u.toList = some (some home) ∧
      removes files argv = some paths ∧ ∀ path ∈ paths, Inside home path)

/-- **The shell does what is meant**: when the names that the configuration makes are plain
words, and the home directories of these users are, every command of every run adds such a
user or empties his directory, and nothing else is run. -/
theorem run_confined (brackets : Brackets) (moves : List (SeatMove × Homes))
    (hname : ∀ r u, Configured moves r u → OneWord brackets u.toList ∧ isOperand u.toList = true)
    (hhome : ∀ r u, Configured moves r u → ∀ mv homes home, (mv, homes) ∈ moves →
      homes u.toList = some (some home) →
        OneWord brackets home ∧ home ≠ [] ∧ home.head? ≠ some '-') :
    ∀ c ∈ (Accounts.run moves).commands, ∀ files, ∃ argvs, run brackets files c = some argvs ∧
      ∀ argv ∈ argvs, Meant moves files argv := by
  intro c h files
  obtain ⟨r, st, homes, a, hm, ha, hc⟩ := mem_commands h
  obtain ⟨-, u, hne, hfor, ha'⟩ := for_of_command hc
  have hu := configured_of_mem ha ha'
  cases hfor with
  | useradd _ =>
    obtain ⟨hword, hoperand⟩ := hname r u hu
    obtain ⟨hrun, -⟩ := setupConfined_of_oneWord hne hword hoperand _
      (by rw [setupGuestAccount, if_neg hne]) files
    exact ⟨_, hrun, List.forall_mem_singleton.mpr ⟨r, u, hu, .inl rfl⟩⟩
  | rm hentry =>
    obtain ⟨hword, hempty, hdash⟩ := hhome r u hu _ homes _ hm hentry
    obtain ⟨argvs, hrun, hargvs⟩ := cleanupConfined_of_oneWord hne hword hempty hdash _
      (by rw [cleanupGuestUser, if_neg hne]) files
    refine ⟨argvs, hrun, fun argv hargv => ?_⟩
    obtain ⟨paths, hpaths, hinside⟩ := hargvs argv hargv
    exact ⟨r, u, hu, .inr ⟨_, homes, _, paths, hm, hentry, hpaths, hinside⟩⟩

/-- `PREPARE_DEFAULT` is on. -/
def guestConfig : Config :=
  .ofGeneral fun key => if key = "PREPARE_DEFAULT" then some "true" else none

/-- The guest has an account. -/
def guestHomes : Homes := fun u =>
  if u = "guest".toList then some (some "/home/guest".toList) else none

/-- A guest without an account logs in, and is logged out when he has one. -/
def guestMoves : List (SeatMove × Homes) :=
  [(.enter "seat0", fun _ => none), (.step 0 (Seat.loginStep guestConfig none 0), fun _ => none),
    (.step 0 ⟨guestConfig, {}, .terminateSession⟩, guestHomes)]

/-- The account is added for the guest. -/
theorem run_commands_guest :
    ∃ u r st homes, Configured guestMoves r u ∧ (SeatMove.step r st, homes) ∈ guestMoves ∧
      prepareDefault st.cfg = true ∧ u.toList ≠ [] ∧ For homes u.toList "useradd guest".toList :=
  run_commands guestMoves _ (by decide)

theorem mem_guestMoves {mv : SeatMove} (h : (mv, homes) ∈ guestMoves) :
    (mv = .enter "seat0" ∨ ∃ r st, mv = .step r st ∧ st.cfg = guestConfig) ∧
      ∀ u home, homes u = some (some home) → home = "/home/guest".toList := by
  have hnone : ∀ u home, (fun _ => none : Homes) u = some (some home) →
      home = "/home/guest".toList := by
    intro u home h
    cases h
  have hsome : ∀ u home, guestHomes u = some (some home) → home = "/home/guest".toList := by
    intro u home h
    simp only [guestHomes] at h
    split at h
    · exact (Option.some.inj (Option.some.inj h)).symm
    · cases h
  rcases List.mem_cons.mp h with h | h
  · obtain ⟨rfl, rfl⟩ := Prod.ext_iff.mp h
    exact ⟨.inl rfl, hnone⟩
  · rcases List.mem_cons.mp h with h | h
    · obtain ⟨rfl, rfl⟩ := Prod.ext_iff.mp h
      exact ⟨.inr ⟨_, _, rfl, rfl⟩, hnone⟩
    · obtain ⟨rfl, rfl⟩ := Prod.ext_iff.mp (List.mem_singleton.mp h)
      exact ⟨.inr ⟨_, _, rfl, rfl⟩, hsome⟩

theorem configured_guestMoves {r : SeatRef} {u : String} (h : Configured guestMoves r u) :
    u = "guest" := by
  obtain ⟨st, homes, t, hst, ht, rfl⟩ := h
  have hr : r = 0 := by
    rcases List.mem_cons.mp hst with h | h
    · cases (Prod.ext_iff.mp h).1
    rcases List.mem_cons.mp h with h | h
    · exact (SeatMove.step.inj (Prod.ext_iff.mp h).1).1
    · exact (SeatMove.step.inj (Prod.ext_iff.mp (List.mem_singleton.mp h)).1).1
  have hseat : ((Accounts.run guestMoves).seats.get r).id = "seat0" := by
    rw [hr]
    decide
  have hcfg : st.cfg = guestConfig := by
    rcases (mem_guestMoves hst).1 with h | ⟨r, st, h, hcfg⟩
    · cases h
    · rw [(SeatMove.step.inj h).2, hcfg]
  rw [hseat, hcfg] at ht
  have hguest : Seat.nameTemplate guestConfig "seat0" = some "guest" := by decide
  rw [Option.some.inj (ht.symm.trans hguest)]
  rw [hseat]
  decide

/-- His account is added, and then his directory emptied. -/
theorem run_confined_guest :
    (Accounts.run guestMoves).commands =
      ["useradd guest".toList, "rm -rf /home/guest/*".toList] ∧
    ∀ c ∈ (Accounts.run guestMoves).commands, ∀ files, ∃ argvs,
      run (fun _ => none) files c = some argvs ∧ ∀ argv ∈ argvs, Meant guestMoves files argv := by
  have hliteral : ∀ word : List Char,
      (∀ c ∈ word, isBlank c = false ∧ isSeparator c = false ∧ isSpecial c = false) →
      (word.head? ≠ some '#' ∧ word.head? ≠ some '~') →
      (∀ c ∈ word, c ≠ '*' ∧ c ≠ '?' ∧ c ≠ '[') → OneWord (fun _ => none) word :=
    fun word h₁ h₂ h₃ => ⟨h₁, h₂, fun _ => (matches_literal h₃).mp⟩
  refine ⟨by decide, run_confined (fun _ => none) guestMoves (fun r u hu => ?_)
    fun r u hu mv homes home hm hhome => ?_⟩
  · rw [configured_guestMoves hu]
    exact ⟨hliteral _ (forall_mem_of_all (by decide)) (by decide) (forall_mem_of_all (by decide)),
      by decide⟩
  · rw [(mem_guestMoves hm).2 _ home hhome]
    exact ⟨hliteral _ (forall_mem_of_all (by decide)) (by decide) (forall_mem_of_all (by decide)),
      by decide, by decide⟩

end GuestAccount

end Tlm
