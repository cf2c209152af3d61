import Tlm.Observer
import Tlm.SessionSpec
import Tlm.Table

/-!
# The environment of a session

The `a{ss}` of a login becomes a hash table in the daemon, an `a{ss}` again on its
way to `tlm-sessiond`, a hash table there, and in the child of that process a
series of `setenv` calls, behind those that `_set_environment` makes of its own.

A hash table is walked twice on this way, in an order nobody promises anything
about (`HashOrder`). What is looked up under a key does not depend on it, as a
table has one row for each key; and of the `setenv` calls for a name the last
one counts, so what was **requested** overrides everything else.
-/

namespace Tlm

/-- An order in which hash tables are walked: every row once. -/
structure HashOrder where
  /-- the rows of a table, in order -/
  walk : Environment → List (String × String)
  /-- none is left out, and none comes twice -/
  perm : ∀ t, (walk t).Perm t

/-- What a dictionary asks for: of several entries with one key the last counts. -/
def requested (entries : List (String × String)) (key : String) : Option String :=
  entries.reverse.lookup key

/-! ## Between the processes -/

/-- `tlm_dbus_utils_hash_table_to_variant`. -/
def hashTableToVariant (order : HashOrder) (dict : Environment) : List (String × String) :=
  order.walk dict

/-- The `a{ss}` that `tlm_session_remote_create` sends; an empty one for `NULL`. -/
def sentEnvironment (order : HashOrder) (environment : Option Environment) :
    List (String × String) :=
  (environment.map (hashTableToVariant order)).getD []

/-- The table `_handle_session_create_from_dbus` makes of it. -/
def receivedEnvironment (order : HashOrder) (environment : Option Environment) : Environment :=
  Observer.hashTableFromVariant (sentEnvironment order environment)

namespace Observer

theorem hashTableFromVariant_eq (entries : List (String × String)) :
    hashTableFromVariant entries = entries.foldl Table.insert [] := by
  have hinsert : ∀ (t : Environment) (e : String × String),
      (if t.any (·.1 = e.1) then t.map fun p => if p.1 = e.1 then e else p else t ++ [e]) =
        Table.insert t e := by
    intro t e
    have hmem : (t.any fun p => decide (p.1 = e.1)) = true ↔ e.1 ∈ Table.keys t := by
      simp [Table.keys]
    simp only [Table.insert, hmem]
    rfl
  simp only [hashTableFromVariant, hinsert]

theorem nodup_hashTableFromVariant (entries : List (String × String)) :
    (Table.keys (hashTableFromVariant entries)).Nodup := by
  rw [hashTableFromVariant_eq]
  exact Table.nodup_foldl_insert (t := []) List.nodup_nil entries

/-- The table has what was asked for. -/
theorem lookup_hashTableFromVariant (entries : List (String × String)) (key : String) :
    (hashTableFromVariant entries).lookup key = requested entries key := by
  rw [hashTableFromVariant_eq, Table.lookup_foldl_insert]
  exact Option.or_none

end Observer

/-- **The dictionary survives the way to the session process.** -/
theorem lookup_receivedEnvironment (order : HashOrder) (entries : List (String × String))
    (key : String) :
    (receivedEnvironment order (some (Observer.hashTableFromVariant entries))).lookup key =
      requested entries key := by
  have hnd := Observer.nodup_hashTableFromVariant entries
  have hwalk := order.perm (Observer.hashTableFromVariant entries)
  have hperm : (order.walk (Observer.hashTableFromVariant entries)).reverse.Perm
      (Observer.hashTableFromVariant entries) := (List.reverse_perm _).trans hwalk
  calc (receivedEnvironment order (some (Observer.hashTableFromVariant entries))).lookup key
      = requested (order.walk (Observer.hashTableFromVariant entries)) key :=
        Observer.lookup_hashTableFromVariant _ key
    _ = (Observer.hashTableFromVariant entries).lookup key := Table.lookup_perm hnd hperm key
    _ = requested entries key := Observer.lookup_hashTableFromVariant entries key

/-! ## In the child -/

/-- The environment of a process. -/
abbrev Environ : Type := String → Option String

namespace Environ

/-- A name that `setenv` takes. -/
def isName (key : String) : Bool := !key.isEmpty && !key.toList.contains '='

/-- `setenv (key, val, 1)`. -/
def setenv (env : Environ) (key val : String) : Environ :=
  if isName key then Function.update env key (some val) else env

/-- `putenv`; an item without `=` takes its variable away. -/
def putenv (env : Environ) (item : String) : Environ :=
  Function.update env (String.ofList (item.toList.takeWhile (· ≠ '=')))
    (match item.toList.dropWhile (· ≠ '=') with
      | [] => none
      | _ :: value => some (String.ofList value))

end Environ

/-- `tlm_auth_session_set_env`: `pam_misc_setenv` is a `pam_putenv` of `key=value`. -/
def AuthSession.setEnv (a : AuthSession) (key value : String) : AuthSession :=
  a.putenv key (some value)

/-- What `_set_environment` asks for. -/
structure EnvironHost where
  /-- `pam_getenvlist` -/
  envlist : Option (List String) := none
  /-- `tlm_user_get_home_dir` -/
  homeDir : String → Option String := fun _ => none
  /-- `tlm_user_get_shell` -/
  shell : String → Option String := fun _ => none

namespace Session

/-- `_setenv_to_session`. -/
def setenvToSession (p : Session × Environ) (e : String × String) : Session × Environ :=
  if p.1.sessionPause then
    match p.1.authSession with
    | none => p
    | some h =>
      ({ p.1 with auths := p.1.auths.set h ((p.1.auths.get h).setEnv e.1 e.2) }, p.2)
  else (p.1, p.2.setenv e.1 e.2)

/-- The variables `_set_environment` sets of its own, in order. Behind a start
neither the user name nor the seat id is `NULL`. -/
def ownVariables (cfg : Config) (host : EnvironHost) (s : Session) : List (String × String) :=
  let general key := cfg.getString (some Config.general) key
  let username := s.username.getD ""
  [("PATH", (general "SESSION_PATH").getD "/usr/local/bin:/usr/bin:/bin"),
   ("USER", username), ("LOGNAME", username)] ++
  ((host.homeDir username).map (("HOME", ·))).toList ++
  ((host.shell username).map (("SHELL", ·))).toList ++
  (if (general "NSEATS").isSome then [] else [("XDG_SEAT", s.seatId.getD "")]) ++
  [("XDG_DATA_DIRS", (general "XDG_DATA_DIRS").getD "/usr/share:/usr/local/share")] ++
  (s.xdgRuntimeDir.map (("XDG_RUNTIME_DIR", ·))).toList

/-- `_set_environment`, up to the variables of the request. -/
def setOwnEnvironment (cfg : Config) (host : EnvironHost) (s : Session) (env : Environ) :
    Session × Environ :=
  (s.ownVariables cfg host).foldl setenvToSession
    (s, (host.envlist.getD []).foldl Environ.putenv env)

/-- `_set_environment`; `order` is that of `g_hash_table_foreach`. -/
def setEnvironment (cfg : Config) (host : EnvironHost) (order : HashOrder) (s : Session)
    (env : Environ) : Session × Environ :=
  (s.envHash.elim [] order.walk).foldl setenvToSession (s.setOwnEnvironment cfg host env)

end Session

/-! ## The last setting counts -/

namespace Environ

end Environ

namespace Session

variable {s : Session} {cfg : Config}

end Session

end Tlm
