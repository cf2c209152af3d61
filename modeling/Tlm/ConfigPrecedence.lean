import Tlm.ConfigStore
import Tlm.Session
import Tlm.SessionExec
import Tlm.Seat

/-!
# Seat over General over built-in (`tlm-seat.c`, `tlm-session.c`)

A setting of a seat is meant to be found in three places: the seat's group, else
`General`, else a constant of the program. The source writes this out for every
setting anew, in three idioms:

* **ask and ask again** (`PAM_SERVICE`, `DEFAULT_PAM_SERVICE`, `RUNTIME_MODE`,
  `SESSION_CMD`, `SESSION_TYPE`): `get_string` on the seat, and on `General` if that
  gave `NULL`;
* **look first** (`SETUP_RUNTIME_DIR`, `SETUP_TERMINAL`): `has_key` on the seat says
  which of the two groups is read;
* **ask with a default** (`DEFAULT_USER`): `get_string_default` on the seat, and on
  `General` if that gave `NULL`. But the default is what it gives when the **key** is
  missing; `NULL` is for a missing **group**. A seat with a group of its own and no
  `DEFAULT_USER` in it never gets to `General`, and where there is neither group there
  is no user at all.

`inherited` is the law. The first two idioms keep it always; `precedence_iff` says for
which configurations all of them do.
-/

namespace Tlm

namespace Config

/-- **The law**: the seat's text for a key if it has one, else that of `General`. -/
def inherited (cfg : Config) (seatId key : String) : Option String :=
  (cfg.entry seatId key).or (cfg.entry general key)

/-- The conversion `tlm_config_get_boolean` makes of a text. -/
def textBoolean (s : String) (retval : Bool) : Bool :=
  if hasPrefixNoCase "false".toList s.toList || hasPrefixNoCase "no".toList s.toList then false
  else if hasPrefixNoCase "true".toList s.toList || hasPrefixNoCase "yes".toList s.toList then true
  else match scanInt s with
    | none => retval
    | some v => decide (v ≠ 0)

theorem getBoolean_eq_textBoolean {cfg : Config} {group : Option String} {key : String}
    {retval : Bool} :
    cfg.getBoolean group key retval = (cfg.getString group key).elim retval (textBoolean · retval) := by
  unfold getBoolean
  cases cfg.getString group key <;> rfl

end Config

/-- `sscanf (s, "%o", &value)`: the octal digits after blanks and a sign, with the
overflow of `strtoul`. -/
def scanOctal (s : String) : Option ℕ :=
  let rest := s.toList.dropWhile isSpace
  let (neg, rest) := match rest with
    | '-' :: t => (true, t)
    | '+' :: t => (false, t)
    | t => (false, t)
  match rest.takeWhile fun c => '0' ≤ c && c ≤ '7' with
  | [] => none
  | ds => some (strtoul neg (ds.foldl (fun n c => 8 * n + (c.toNat - '0'.toNat)) 0) % 2 ^ 32)

/-- The mode `_exec_user_session` makes the runtime directory with: `rtdir_perm` starts
as `0700`, and stays so when the text does not convert. -/
def Session.runtimeMode (cfg : Config) (seatId : Option String) : ℕ :=
  ((seatString cfg seatId "RUNTIME_MODE").bind scanOctal).getD 0o700

/-! ## The settings -/

open Config in
/-- Every setting of a seat is the one the law gives. -/
structure Precedence (cfg : Config) (seatId : String) : Prop where
  pamService : ∀ args : LoginArgs, args.service = none → args.username.isSome →
    Seat.pamService cfg seatId args = (cfg.inherited seatId "PAM_SERVICE").getD "tlm-login"
  defaultPamService : ∀ args : LoginArgs, args.service = none → args.username = none →
    Seat.pamService cfg seatId args =
      (cfg.inherited seatId "DEFAULT_PAM_SERVICE").getD "tlm-default-login"
  defaultUser : Seat.nameTemplate cfg seatId =
    some ((cfg.inherited seatId "DEFAULT_USER").getD "guest")
  setupRuntimeDir : Session.seatBoolean cfg (some seatId) "SETUP_RUNTIME_DIR" =
    (cfg.inherited seatId "SETUP_RUNTIME_DIR").elim false (textBoolean · false)
  runtimeMode : Session.runtimeMode cfg (some seatId) =
    ((cfg.inherited seatId "RUNTIME_MODE").bind scanOctal).getD 0o700
  setupTerminal : Session.seatBoolean cfg (some seatId) "SETUP_TERMINAL" =
    (cfg.inherited seatId "SETUP_TERMINAL").elim false (textBoolean · false)
  sessionCmd : ∀ host : ChildHost, host.command cfg (some seatId) =
    ((cfg.inherited seatId "SESSION_CMD").bind host.splitCommandLine).getD
      (host.shell.elim ["systemd", "--user"] fun shell => [shell])
  sessionType : Session.seatString cfg (some seatId) "SESSION_TYPE" =
    cfg.inherited seatId "SESSION_TYPE"

section

variable {cfg : Config} {seatId key : String}

/-- Asking `General` where the seat had nothing to say is the law. -/
theorem seatString_eq_inherited (hk : key ≠ "") :
    Session.seatString cfg (some seatId) key = cfg.inherited seatId key := by
  unfold Session.seatString Config.inherited
  rw [Config.getString_eq_entry hk, Config.getString_eq_entry hk]
  cases cfg.entry seatId key <;> rfl

/-- Looking first which group has the key is the law. -/
theorem seatBoolean_eq_inherited (hk : key ≠ "") :
    Session.seatBoolean cfg (some seatId) key =
      (cfg.inherited seatId key).elim false (Config.textBoolean · false) := by
  simp only [Session.seatBoolean, Config.inherited, Config.getBoolean_eq_textBoolean,
    Config.getString_eq_entry hk]
  cases cfg.entry seatId key <;> rfl

theorem pamService_eq_inherited {args : LoginArgs} (hservice : args.service = none) :
    Seat.pamService cfg seatId args =
      if args.username.isSome then (cfg.inherited seatId "PAM_SERVICE").getD "tlm-login"
      else (cfg.inherited seatId "DEFAULT_PAM_SERVICE").getD "tlm-default-login" := by
  have hkey : ∀ {key builtin : String}, key ≠ "" →
      (cfg.getString (some seatId) key).getD
        ((cfg.getString (some Config.general) key).getD builtin) =
      (cfg.inherited seatId key).getD builtin := by
    intro key builtin hk
    rw [Config.getString_eq_entry hk, Config.getString_eq_entry hk, Config.inherited]
    cases cfg.entry seatId key <;> rfl
  unfold Seat.pamService
  rw [hservice]
  split
  · exact hkey (by decide)
  · exact hkey (by decide)

theorem command_eq_inherited (host : ChildHost) :
    host.command cfg (some seatId) =
      ((cfg.inherited seatId "SESSION_CMD").bind host.splitCommandLine).getD
        (host.shell.elim ["systemd", "--user"] fun shell => [shell]) := by
  unfold ChildHost.command
  rw [seatString_eq_inherited (by decide)]
  cases (cfg.inherited seatId "SESSION_CMD").bind host.splitCommandLine with
  | some argv => rfl
  | none => cases host.shell <;> rfl

/-- All settings but one keep the law whatever the configuration. -/
theorem precedence_iff_defaultUser :
    Precedence cfg seatId ↔
      Seat.nameTemplate cfg seatId = some ((cfg.inherited seatId "DEFAULT_USER").getD "guest") := by
  constructor
  · intro h
    exact h.defaultUser
  · intro h
    constructor
    · intro args hservice huser
      rw [pamService_eq_inherited hservice, if_pos huser]
    · intro args hservice huser
      rw [pamService_eq_inherited hservice, huser]
      rfl
    · exact h
    · exact seatBoolean_eq_inherited (by decide)
    · rw [Session.runtimeMode, seatString_eq_inherited (by decide)]
    · exact seatBoolean_eq_inherited (by decide)
    · exact command_eq_inherited
    · exact seatString_eq_inherited (by decide)

end

/-! ## The default user -/

/-- The configurations in which the default user is the one of the law. A seat with a
group names a user itself, or `General` names none but the built-in one; for a seat
without a group there is a `General`. -/
def DefaultUserFound (cfg : Config) (seatId : String) : Prop :=
  match cfg.getGroup (some seatId) with
  | some table => (table "DEFAULT_USER").isSome ∨
      ∀ user, cfg.entry Config.general "DEFAULT_USER" = some user → user = "guest"
  | none => (cfg.getGroup (some Config.general)).isSome

theorem nameTemplate_iff {cfg : Config} {seatId : String} :
    Seat.nameTemplate cfg seatId = some ((cfg.inherited seatId "DEFAULT_USER").getD "guest") ↔
      DefaultUserFound cfg seatId := by
  have hkey : "DEFAULT_USER".isEmpty = false := by decide
  simp only [Seat.nameTemplate, Config.getStringDefault, Config.inherited, Config.entry, hkey,
    DefaultUserFound]
  cases hseat : cfg.getGroup (some seatId) with
  | some table =>
    -- the seat's group decides; `General` is not asked
    cases huser : table "DEFAULT_USER" with
    | some user => simp [huser]
    | none =>
      cases hgeneral : (cfg.getGroup (some Config.general)).bind fun t => t "DEFAULT_USER" with
      | none => simp [huser]
      | some user => simp [huser, eq_comm]
  | none =>
    cases cfg.getGroup (some Config.general) with
    | none => simp
    | some table => simp

/-- **Where all settings keep the precedence.** -/
theorem precedence_iff (cfg : Config) (seatId : String) :
    Precedence cfg seatId ↔ DefaultUserFound cfg seatId :=
  precedence_iff_defaultUser.trans nameTemplate_iff

/-- `General` names a default user and the seat's group, which is there for something
else, does not: the seat logs in the built-in one. -/
theorem seat_group_hides_default_user :
    let cfg := (Config.empty.setString (some Config.general) "DEFAULT_USER" "tizen").setString
      (some "seat0") "ACTIVE" "1"
    cfg.inherited "seat0" "DEFAULT_USER" = some "tizen" ∧
      Seat.nameTemplate cfg "seat0" = some "guest" := by
  decide

end Tlm
