import Tlm.Session

/-!
# The child of `_exec_user_session`

Behind the `fork` the child looks up the user, leaves the session of its parent,
and gives up its privileges — groups first, then the group, then the user — before
it executes the command. The outcome of each call is an input. A call that fails
is **warned about and no more**, an id that could not be looked up is `-1`, which
`setregid` and `setreuid` take for "leave it as it is", and the look-up of a user
that does not exist is the end of the child: `getpwnam_r` succeeds there without an
entry.

`child_drops_iff` says when the command runs as the user, exactly: each of the
three must have been set, or have been right from the beginning.
-/

namespace Tlm

/-- `(uid_t) -1`, and `(gid_t) -1`. -/
def noId : ℕ := 2 ^ 32 - 1

/-- An entry of the passwd database. -/
structure Passwd where
  /-- `pw_uid` -/
  uid : ℕ
  /-- `pw_gid` -/
  gid : ℕ
  deriving DecidableEq, Repr

/-- What `getpwnam_r` comes to, once its buffer is large enough. -/
inductive Lookup : Type where
  /-- it returned zero, with an entry -/
  | entry (pw : Passwd)
  /-- it returned zero, and there is none -/
  | missing
  /-- it returned an error -/
  | failed
  deriving DecidableEq, Repr

/-- `tlm_user_get_uid`; `none` is a `NULL` dereference. -/
def userGetUid : Lookup → Option ℕ
  | .entry pw => some pw.uid
  | .missing => none
  | .failed => some noId

/-- `tlm_user_get_gid`; `none` is a `NULL` dereference. -/
def userGetGid : Lookup → Option ℕ
  | .entry pw => some pw.gid
  | .missing => none
  | .failed => some noId

/-- The credentials of a process. -/
structure Creds where
  /-- real uid -/
  ruid : ℕ
  /-- effective uid -/
  euid : ℕ
  /-- real gid -/
  rgid : ℕ
  /-- effective gid -/
  egid : ℕ
  /-- supplementary groups -/
  groups : List ℕ
  deriving DecidableEq, Repr

/-- What the child finds: the databases, and the outcomes of its calls. -/
structure ChildHost where
  /-- the passwd database -/
  passwd : String → Option Passwd
  /-- the groups that list a user as a member -/
  memberships : String → List ℕ := fun _ => []
  /-- `getpwnam_r` fails in `tlm_user_get_uid` -/
  uidFails : Bool := false
  /-- `getpwnam_r` fails in `tlm_user_get_gid` -/
  gidFails : Bool := false
  /-- `setsid` succeeds -/
  setsid : Bool := true
  /-- `initgroups` succeeds -/
  initgroups : Bool := true
  /-- `setregid` succeeds -/
  setregid : Bool := true
  /-- `setreuid` succeeds -/
  setreuid : Bool := true
  /-- `tlm_utils_split_command_line` -/
  splitCommandLine : String → Option (List String) := fun _ => none
  /-- `getenv ("SHELL")`, behind `_set_environment` -/
  shell : Option String := none

/-- How the child ends up. -/
inductive ChildEnd : Type where
  /-- it crashed -/
  | crashed
  /-- it came to `execvp`, with these arguments and credentials, as the leader of a
  process group of its own or not -/
  | exec (argv : List String) (leader : Bool) (creds : Creds)
  deriving DecidableEq, Repr

namespace ChildHost

variable (host : ChildHost) (username : String)

/-- `getpwnam_r`. -/
def getpwnam (fails : Bool) : Lookup :=
  if fails then .failed else match host.passwd username with
    | some pw => .entry pw
    | none => .missing

/-- `initgroups (username, gid)`. -/
def initgroupsTo (gid : ℕ) (c : Creds) : Creds :=
  if host.initgroups ∧ gid ≠ noId then { c with groups := gid :: host.memberships username } else c

/-- `setregid (gid, gid)`. -/
def setregidTo (gid : ℕ) (c : Creds) : Creds :=
  if host.setregid ∧ gid ≠ noId then { c with rgid := gid, egid := gid } else c

/-- `setreuid (uid, uid)`. -/
def setreuidTo (uid : ℕ) (c : Creds) : Creds :=
  if host.setreuid ∧ uid ≠ noId then { c with ruid := uid, euid := uid } else c

/-- The command: the configured one, else the user's shell, else
`systemd --user`. -/
def command (cfg : Config) (seatId : Option String) : List String :=
  match (Session.seatString cfg seatId "SESSION_CMD").bind host.splitCommandLine with
  | some argv => argv
  | none => match host.shell with
    | some shell => [shell]
    | none => ["systemd", "--user"]

/-- `_exec_user_session` in the child. -/
def execUserSession (cfg : Config) (seatId : Option String) (c : Creds) : ChildEnd :=
  match userGetUid (host.getpwnam username host.uidFails),
    userGetGid (host.getpwnam username host.gidFails) with
  | some uid, some gid =>
    let c := host.initgroupsTo username gid c
    let c := host.setregidTo gid c
    let c := host.setreuidTo uid c
    .exec (host.command cfg seatId) host.setsid c
  | _, _ => .crashed

/-- The credentials are the user's. -/
def IsUser (c : Creds) : Prop :=
  ∃ pw, host.passwd username = some pw ∧ (c.ruid = pw.uid ∧ c.euid = pw.uid) ∧
    (c.rgid = pw.gid ∧ c.egid = pw.gid) ∧ ∀ g, g ∈ c.groups ↔ g ∈ pw.gid :: host.memberships username

/-- `execvp` is reached only as the user. -/
def Dropped (r : ChildEnd) : Prop :=
  ∀ argv leader c, r = .exec argv leader c → host.IsUser username c

/-- When that is so: the user does not exist, and one of the look-ups says so; or
the uid, the gid and the groups were each looked up and set, or right before. -/
def Drops (c : Creds) : Prop :=
  match host.passwd username with
  | none => ¬ (host.uidFails = true ∧ host.gidFails = true)
  | some pw =>
    ((host.uidFails = false ∧ host.setreuid = true ∧ pw.uid ≠ noId) ∨
      (c.ruid = pw.uid ∧ c.euid = pw.uid)) ∧
    ((host.gidFails = false ∧ host.setregid = true ∧ pw.gid ≠ noId) ∨
      (c.rgid = pw.gid ∧ c.egid = pw.gid)) ∧
    ((host.gidFails = false ∧ host.initgroups = true ∧ pw.gid ≠ noId) ∨
      ∀ g, g ∈ c.groups ↔ g ∈ pw.gid :: host.memberships username)

/-! ## Proof -/

variable {host username}

/-- The id a look-up of an existing user comes to. -/
theorem userGetUid_getpwnam {pw : Passwd} (h : host.passwd username = some pw) (fails : Bool) :
    userGetUid (host.getpwnam username fails) = some (if fails then noId else pw.uid) := by
  cases fails <;> simp [getpwnam, h, userGetUid]

theorem userGetGid_getpwnam {pw : Passwd} (h : host.passwd username = some pw) (fails : Bool) :
    userGetGid (host.getpwnam username fails) = some (if fails then noId else pw.gid) := by
  cases fails <;> simp [getpwnam, h, userGetGid]

/-- An id is set if it was looked up and the call succeeded; otherwise it stays. -/
theorem set_cond {fails ok : Bool} {id : ℕ} :
    (ok = true ∧ (if fails then noId else id) ≠ noId) ↔ fails = false ∧ ok = true ∧ id ≠ noId := by
  cases fails <;> simp

theorem setreuidTo_iff {pw : Passwd} {fails : Bool} (c : Creds) :
    ((host.setreuidTo (if fails then noId else pw.uid) c).ruid = pw.uid ∧
      (host.setreuidTo (if fails then noId else pw.uid) c).euid = pw.uid) ↔
    (fails = false ∧ host.setreuid = true ∧ pw.uid ≠ noId) ∨ (c.ruid = pw.uid ∧ c.euid = pw.uid) := by
  simp only [setreuidTo, set_cond]
  split
  · rename_i hset
    simp [hset]
  · rename_i hset
    simp only [hset, false_or]

theorem setregidTo_iff {pw : Passwd} {fails : Bool} (c : Creds) :
    ((host.setregidTo (if fails then noId else pw.gid) c).rgid = pw.gid ∧
      (host.setregidTo (if fails then noId else pw.gid) c).egid = pw.gid) ↔
    (fails = false ∧ host.setregid = true ∧ pw.gid ≠ noId) ∨ (c.rgid = pw.gid ∧ c.egid = pw.gid) := by
  simp only [setregidTo, set_cond]
  split
  · rename_i hset
    simp [hset]
  · rename_i hset
    simp only [hset, false_or]

theorem initgroupsTo_iff {pw : Passwd} {fails : Bool} (c : Creds) :
    (∀ g, g ∈ (host.initgroupsTo username (if fails then noId else pw.gid) c).groups ↔
      g ∈ pw.gid :: host.memberships username) ↔
    (fails = false ∧ host.initgroups = true ∧ pw.gid ≠ noId) ∨
      ∀ g, g ∈ c.groups ↔ g ∈ pw.gid :: host.memberships username := by
  simp only [initgroupsTo, set_cond]
  split
  · rename_i hset
    simp [hset]
  · rename_i hset
    simp only [hset, false_or]

/-- Each call leaves the others' ids alone. -/
theorem setreuidTo_gid (host : ChildHost) (uid : ℕ) (c : Creds) :
    (host.setreuidTo uid c).rgid = c.rgid ∧ (host.setreuidTo uid c).egid = c.egid ∧
      (host.setreuidTo uid c).groups = c.groups := by
  simp only [setreuidTo]
  split <;> exact ⟨rfl, rfl, rfl⟩

theorem setregidTo_uid (host : ChildHost) (gid : ℕ) (c : Creds) :
    (host.setregidTo gid c).ruid = c.ruid ∧ (host.setregidTo gid c).euid = c.euid ∧
      (host.setregidTo gid c).groups = c.groups := by
  simp only [setregidTo]
  split <;> exact ⟨rfl, rfl, rfl⟩

theorem initgroupsTo_ids (host : ChildHost) (username : String) (gid : ℕ) (c : Creds) :
    (host.initgroupsTo username gid c).ruid = c.ruid ∧
    (host.initgroupsTo username gid c).euid = c.euid ∧
    (host.initgroupsTo username gid c).rgid = c.rgid ∧
    (host.initgroupsTo username gid c).egid = c.egid := by
  simp only [initgroupsTo]
  split <;> exact ⟨rfl, rfl, rfl, rfl⟩

theorem dropped_exec {argv : List String} {leader : Bool} {c : Creds} :
    host.Dropped username (.exec argv leader c) ↔ host.IsUser username c := by
  constructor
  · exact fun h => h argv leader c rfl
  · rintro h argv' leader' c' heq
    obtain ⟨-, -, rfl⟩ := ChildEnd.exec.inj heq
    exact h

theorem isUser_iff {pw : Passwd} (h : host.passwd username = some pw) {c : Creds} :
    host.IsUser username c ↔ (c.ruid = pw.uid ∧ c.euid = pw.uid) ∧
      (c.rgid = pw.gid ∧ c.egid = pw.gid) ∧
      ∀ g, g ∈ c.groups ↔ g ∈ pw.gid :: host.memberships username := by
  constructor
  · rintro ⟨pw', hpw', hrest⟩
    obtain rfl := Option.some.inj (h.symm.trans hpw')
    exact hrest
  · exact fun hrest => ⟨pw, h, hrest⟩

/-- **Privileges are dropped before the command runs, exactly when `Drops`.** For
every user, every content of the databases, every combination of outcomes and
whatever credentials the child begins with. -/
theorem child_drops_iff (host : ChildHost) (username : String) (cfg : Config)
    (seatId : Option String) (c : Creds) :
    host.Dropped username (host.execUserSession username cfg seatId c) ↔ host.Drops username c := by
  simp only [Drops]
  cases hpw : host.passwd username with
  | none =>
    -- only two failed look-ups get past a user who does not exist
    cases huid : host.uidFails <;> cases hgid : host.gidFails <;>
      simp [execUserSession, getpwnam, userGetUid, userGetGid, huid, hgid, hpw, Dropped, IsUser]
  | some pw =>
    simp only [execUserSession, userGetUid_getpwnam hpw, userGetGid_getpwnam hpw]
    rw [dropped_exec, isUser_iff hpw, setreuidTo_iff]
    obtain ⟨hrgid, hegid, hgroups⟩ := setreuidTo_gid host
      (if host.uidFails then noId else pw.uid) (host.setregidTo (if host.gidFails then noId else pw.gid)
        (host.initgroupsTo username (if host.gidFails then noId else pw.gid) c))
    rw [hrgid, hegid, hgroups, setregidTo_iff]
    obtain ⟨hruid, heuid, hgroups⟩ := setregidTo_uid host
      (if host.gidFails then noId else pw.gid)
      (host.initgroupsTo username (if host.gidFails then noId else pw.gid) c)
    rw [hruid, heuid, hgroups, initgroupsTo_iff]
    obtain ⟨hruid, heuid, hrgid, hegid⟩ := initgroupsTo_ids host username
      (if host.gidFails then noId else pw.gid) c
    rw [hruid, heuid, hrgid, hegid]

/-- `setreuid` fails, as it may where the user has too many processes: the
command runs as root. -/
theorem failed_setreuid_runs_as_root :
    ¬ (ChildHost.Dropped
      { passwd := fun u => if u = "user" then some ⟨1000, 1000⟩ else none, setreuid := false } "user"
      (ChildHost.execUserSession
        { passwd := fun u => if u = "user" then some ⟨1000, 1000⟩ else none, setreuid := false } "user"
        ⟨fun _ => none⟩ (some "seat0") ⟨0, 0, 0, 0, [0]⟩)) := by
  intro h
  obtain ⟨pw, hpw, ⟨hruid, -⟩, -⟩ := h _ _ _ rfl
  obtain rfl : (⟨1000, 1000⟩ : Passwd) = pw := Option.some.inj hpw
  revert hruid
  decide

end ChildHost

end Tlm
