import Tlm.Run
import Tlm.Paths
import Tlm.ConfigStore
import Tlm.Daemon

/-!
# Reloading the configuration (`tlm-main.c`, `tlm-config.c`)

`SIGHUP` asks the daemon to read its configuration again. GLib turns the signal
into a source of the main loop: the signal makes the source **ready**, the loop
dispatches it later, and signals that come in between are one dispatch. What
matters here is what the callback returns. A source whose callback returns
`FALSE` is dropped, and with the last source of a signal goes its handler: the
signal's default action is back, which for `SIGHUP` ends the process.

`_on_sighup_cb` returns `FALSE`, as `_on_sigterm_cb` next to it does. The first
dispatch does reload; the next `SIGHUP` after it kills the daemon. So a run keeps
the promise exactly as long as no `SIGHUP` comes after the first dispatch
(`reloads_iff`).
-/

namespace Tlm

/-! ## Loading the configuration -/

/-- A parsed key file, as the `GKeyFile` accessors show it; `none` where they set
an error. -/
structure KeyFile where
  /-- `g_key_file_get_groups` -/
  groups : List String
  /-- `g_key_file_get_keys` -/
  keys : String → Option (List String)
  /-- `g_key_file_get_value` -/
  value : String → String → Option String

/-- The files, as the loader sees them. -/
structure Disk where
  /-- `g_access (path, R_OK) == 0` -/
  access : String → Bool
  /-- `g_key_file_load_from_file`, `none` when it fails -/
  load : String → Option KeyFile

/-- What is fixed for the lifetime of the process: the build's settings and the
environment it was started with. -/
structure Startup where
  /-- `TLM_SYSCONF_DIR` -/
  sysconfDir : String := "/etc"
  /-- `g_get_system_config_dirs` -/
  systemConfigDirs : List String := []
  /-- the environment's `TLM_CONF_FILE` -/
  tlmConfFile : Option String := none
  /-- `ENABLE_DEBUG` -/
  enableDebug : Bool := false
  /-- the environment's `TLM_ACCOUNT_PLUGIN` -/
  tlmAccountPlugin : Option String := none

/-- A `TlmConfig` object. -/
structure TlmConfig where
  /-- `config_file_path` -/
  configFilePath : Option String
  /-- `config_table`, `none` for `NULL` -/
  configTable : Option Config

namespace TlmConfig

/-- The table the readers consult. -/
def table (c : TlmConfig) : Config := c.configTable.getD Config.empty

/-- `_check_config_file`. -/
def checkConfigFile (disk : Disk) (path : String) : Option String :=
  let fn := String.ofList (buildFilename path.toList "tlm.conf".toList)
  if disk.access fn then some fn else none

/-- The part of `_load_config` that settles the path: the one already known, the
one the environment names, the one in the configuration directory, the first in
the system's directories. -/
def findConfigFile (startup : Startup) (disk : Disk) (path : Option String) : Option String :=
  path <|> startup.tlmConfFile.filter disk.access <|> checkConfigFile disk startup.sysconfDir <|>
    startup.systemConfigDirs.findSome? (checkConfigFile disk)

/-- One turn of the loop over the keys of a group. -/
def loadKey (settings : KeyFile) (group : String) (table : String → Option String)
    (key : String) : String → Option String :=
  match settings.value group key with
  | none => table
  | some value => Function.update table key (some value)

/-- One turn of the loop over the groups. -/
def loadGroup (settings : KeyFile) (cfg : Config) (group : String) : Config :=
  match settings.keys group with
  | none => cfg
  | some keys =>
    let table := (cfg.configTable group).getD fun _ => none
    ⟨Function.update cfg.configTable group (some (keys.foldl (loadKey settings group) table))⟩

/-- `_load_config`, with what it returns. -/
def loadConfig (startup : Startup) (disk : Disk) (c : TlmConfig) : TlmConfig × Bool :=
  let c := { c with configFilePath := findConfigFile startup disk c.configFilePath }
  match c.configFilePath.bind disk.load with
  | none => (c, false)
  | some settings =>
    ({ c with configTable := some (settings.groups.foldl (loadGroup settings) c.table) }, true)

/-- `_load_environment`. -/
def loadEnvironment (startup : Startup) (c : TlmConfig) : TlmConfig :=
  match startup.tlmAccountPlugin with
  | none => c
  | some value =>
    let table := c.table.setString (some Config.general) "ACCOUNTS_PLUGIN" value
    { c with configTable := some table }

/-- `_cleanup`. -/
def cleanup (c : TlmConfig) : TlmConfig := { c with configTable := none, configFilePath := none }

/-- `_initialize`. A load that fails is warned about and leaves the empty table. -/
def initializeConfig (startup : Startup) (disk : Disk) (c : TlmConfig) : TlmConfig :=
  let c := { c with configFilePath := none, configTable := some Config.empty }
  let c := (loadConfig startup disk c).1
  if startup.enableDebug then loadEnvironment startup c else c

/-- `tlm_config_reload`. -/
def reload (startup : Startup) (disk : Disk) (c : TlmConfig) : TlmConfig :=
  initializeConfig startup disk c.cleanup

/-- `tlm_config_new`: the private part starts zeroed. -/
def new (startup : Startup) (disk : Disk) : TlmConfig :=
  initializeConfig startup disk ⟨none, none⟩

end TlmConfig

/-! ## The signal sources of the main loop -/

/-- A source of `g_unix_signal_add`. -/
structure SignalSource where
  /-- the source is in the main loop, and with it the signal's handler -/
  attached : Bool := true
  /-- the signal came and the callback has not been called for it -/
  ready : Bool := false

namespace SignalSource

/-- The signal arrives. `none`: nothing handles it any more and its default
action is taken. -/
def deliver (s : SignalSource) : Option SignalSource :=
  if s.attached then some { s with ready := true } else none

/-- The loop has called the callback, which returned `keep`. -/
def dispatched (s : SignalSource) (keep : Bool) : SignalSource :=
  { s with attached := s.attached && keep, ready := false }

/-- The loop calls the callback of a source in it that is ready. -/
def fires (s : SignalSource) : Bool := s.attached && s.ready

end SignalSource

/-! ## The process -/

/-- How the process fares. -/
inductive Fate : Type where
  /-- in the main loop -/
  | running
  /-- ended by `SIGTERM`: the manager has stopped, or a second `SIGTERM` found no
  handler -/
  | ended
  /-- ended by the default action of `SIGHUP` -/
  | hungUp
  deriving DecidableEq

/-- The account plugin the manager has loaded. -/
structure AccountPlugin where
  /-- the name it was loaded by -/
  name : Option String
  /-- the group of the configuration it was given -/
  config : Option (String → Option String)

/-- The daemon's process in its main loop. -/
structure Process where
  startup : Startup
  /-- the files as they are now -/
  disk : Disk
  /-- the `TlmConfig` the manager and its seats share -/
  config : TlmConfig
  /-- `account_plugin` -/
  accountPlugin : AccountPlugin
  /-- the manager, with the table of `config` -/
  daemon : Daemon
  sigterm : SignalSource := {}
  sighup : SignalSource := {}
  /-- `_on_manager_stopped_cb` is connected -/
  stopConnected : Bool := false
  fate : Fate := .running

namespace Process

/-- `_load_accounts_plugin` on the name the configuration gives. -/
def loadAccountsPlugin (cfg : Config) : AccountPlugin :=
  let name := cfg.getStringDefault (some Config.general) "ACCOUNTS_PLUGIN" "default"
  ⟨name, cfg.getGroup name⟩

/-- `main` up to `g_main_loop_run`. -/
def start (startup : Startup) (disk : Disk) (initialUser : Option String) : Process :=
  let config := TlmConfig.new startup disk
  { startup := startup, disk := disk, config := config
    accountPlugin := loadAccountsPlugin config.table
    daemon := Daemon.new config.table initialUser }

/-- `tlm_manager_sighup_received`. -/
def sighupReceived (p : Process) : Process :=
  let config := p.config.reload p.startup p.disk
  { p with config := config
           accountPlugin := loadAccountsPlugin config.table
           daemon := p.daemon.step ⟨{}, .sighup config.table⟩ }

/-- `_on_sighup_cb`. -/
def onSighupCb (p : Process) : Process × Bool := (p.sighupReceived, false)

/-- Something of the manager is dispatched. When the manager says that it has
stopped and `main` listens, the main loop is left. -/
def dispatch (p : Process) (st : DaemonStep) : Process :=
  let daemon := p.daemon.step st
  let stopped := Record.managerStopped ∈ daemon.log.drop p.daemon.log.length
  { p with daemon := daemon, fate := if p.stopConnected ∧ stopped then .ended else p.fate }

/-- `_on_sigterm_cb`. -/
def onSigtermCb (p : Process) (sys : Sys)
    (iterate : List (String × SeatRef) → List (String × SeatRef)) : Process × Bool :=
  ({ p with stopConnected := true }.dispatch ⟨sys, .stop iterate⟩, false)

/-- What happens to the process. -/
inductive Event : Type where
  /-- the configuration files are changed -/
  | edit (disk : Disk)
  /-- `SIGHUP` is delivered -/
  | sighup
  /-- the main loop turns to the source of `SIGHUP` -/
  | sighupSource
  /-- `SIGTERM` is delivered -/
  | sigterm
  /-- the main loop turns to the source of `SIGTERM` -/
  | sigtermSource (sys : Sys) (iterate : List (String × SeatRef) → List (String × SeatRef))
  /-- the main loop dispatches something else -/
  | other (st : DaemonStep)

/-- One event in the main loop. A source that is not ready is not dispatched; the
manager is told to stop, to go and to reload by the signals only. -/
def handle (p : Process) : Event → Process
  | .edit disk => { p with disk := disk }
  | .sighup =>
    match p.sighup.deliver with
    | none => { p with fate := .hungUp }
    | some s => { p with sighup := s }
  | .sighupSource =>
    if p.sighup.fires then
      let (q, keep) := p.onSighupCb
      { q with sighup := q.sighup.dispatched keep }
    else p
  | .sigterm =>
    match p.sigterm.deliver with
    | none => { p with fate := .ended }
    | some s => { p with sigterm := s }
  | .sigtermSource sys iterate =>
    if p.sigterm.fires then
      let (q, keep) := p.onSigtermCb sys iterate
      { q with sigterm := q.sigterm.dispatched keep }
    else p
  | .other st =>
    match st.event with
    | .sighup _ | .stop _ | .dispose _ => p
    | _ => p.dispatch st

/-- A process that has ended does nothing more. -/
def step (p : Process) (e : Event) : Process :=
  if p.fate = .running then p.handle e else p

/-- The manager's configuration is what the files now hold. -/
def Fresh (p : Process) : Prop := p.daemon.config = (TlmConfig.new p.startup p.disk).table

/-- **Every `SIGHUP` reloads**: one that is delivered to the running daemon does
not end it, and when the main loop next turns to the source, the daemon runs on
with a configuration freshly loaded from the files as they then are (unless
`SIGTERM` has ended it in the meantime). -/
def Reloads (p : Process) (es : List Event) : Prop :=
  ∀ before after, es = before ++ .sighup :: after →
    (before.foldl step p).fate = .running →
    (before.foldl step p |>.step .sighup).fate = .running ∧
    ∀ waiting rest, after = waiting ++ .sighupSource :: rest → .sighupSource ∉ waiting →
      let q := waiting.foldl step (before.foldl step p |>.step .sighup)
      q.fate ≠ .ended →
      (q.step .sighupSource).fate = .running ∧ (q.step .sighupSource).Fresh

/-- A `SIGHUP` that comes to the running daemon finds its source in the loop. -/
def Heard (p : Process) (e : Event) : Prop :=
  e = .sighup → p.fate = .running → p.sighup.attached

/-- A `SIGHUP` has been taken and waits for the main loop. -/
structure Waits (p : Process) : Prop where
  attached : p.sighup.attached
  ready : p.sighup.ready
  alive : p.fate ≠ .hungUp

variable {p : Process} {e : Event}

theorem dispatch_fate (h : p.fate ≠ .hungUp) {st : DaemonStep} :
    (p.dispatch st).fate ≠ .hungUp := by
  simp only [dispatch]
  split
  · nofun
  · exact h

/-- Until the main loop turns to its source, a waiting `SIGHUP` waits. -/
theorem Waits.step (hw : p.Waits) (hheard : p.Heard e) (he : e ≠ .sighupSource) :
    (p.step e).Waits := by
  obtain ⟨hattached, hready, halive⟩ := hw
  unfold Process.step
  split
  case isFalse => exact ⟨hattached, hready, halive⟩
  cases e with
  | edit disk => exact ⟨hattached, hready, halive⟩
  | sighup =>
    simp only [handle, SignalSource.deliver, hattached, if_true]
    exact ⟨rfl, rfl, halive⟩
  | sighupSource => exact absurd rfl he
  | sigterm =>
    simp only [handle]
    split
    · exact ⟨hattached, hready, nofun⟩
    · exact ⟨hattached, hready, halive⟩
  | sigtermSource sys iterate =>
    simp only [handle, onSigtermCb]
    split
    · refine ⟨hattached, hready, ?_⟩
      apply dispatch_fate
      exact halive
    · exact ⟨hattached, hready, halive⟩
  | other st =>
    simp only [handle]
    split
    case h_4 => exact ⟨hattached, hready, dispatch_fate halive⟩
    all_goals exact ⟨hattached, hready, halive⟩

theorem Waits.run (hw : p.Waits) {es : List Event} (hheard : Along Process.step Heard p es)
    (hes : .sighupSource ∉ es) : (es.foldl Process.step p).Waits := by
  induction es generalizing p with
  | nil => exact hw
  | cons e es ih =>
    obtain ⟨he, hes⟩ := not_or.mp (mt List.mem_cons.mpr hes)
    exact ih (hw.step hheard.1 (Ne.symm he)) hheard.2 hes

/-- A `SIGHUP` whose source is in the loop waits. -/
theorem waits_of_heard (hp : p.fate = .running) (h : p.sighup.attached) :
    (p.step .sighup).Waits ∧ (p.step .sighup).fate = .running := by
  simp only [Process.step, handle, SignalSource.deliver, hp, h, if_true]
  exact ⟨⟨rfl, rfl, nofun⟩, trivial⟩

/-- The dispatch loads the configuration. -/
theorem Waits.fresh (hw : p.Waits) (hp : p.fate = .running) :
    (p.step .sighupSource).fate = .running ∧ (p.step .sighupSource).Fresh := by
  simp only [Process.step, handle, SignalSource.fires, hp, hw.attached, hw.ready, if_true,
    Bool.and_self]
  exact ⟨hp, rfl⟩

/-- A `SIGHUP` without a source is the end of the process. -/
theorem hungUp_of_unheard (hp : p.fate = .running) (h : p.sighup.attached = false) :
    (p.step .sighup).fate = .hungUp := by
  simp [Process.step, handle, SignalSource.deliver, hp, h]

/-- **Exactly when every `SIGHUP` reloads**: in a run, each `SIGHUP` leaves the
daemon running with a fresh configuration if and only if none of them is delivered
after the source has been dispatched, which happens once. -/
theorem reloads_iff (startup : Startup) (disk : Disk) (initialUser : Option String)
    (es : List Event) :
    (start startup disk initialUser).Reloads es ↔
      Along step Heard (start startup disk initialUser) es := by
  constructor
  · intro h
    apply along_of_forall
    rintro before e after heq rfl hp
    by_contra hunheard
    have hhung := hungUp_of_unheard hp (Bool.eq_false_iff.mpr hunheard)
    rw [(h before after heq hp).1] at hhung
    cases hhung
  · rintro h before after rfl hp
    obtain ⟨-, hheard, hafter⟩ := along_append.mp h
    obtain ⟨hw, hrun⟩ := waits_of_heard hp (hheard rfl hp)
    refine ⟨hrun, ?_⟩
    rintro waiting rest rfl hwaiting q hq
    have hw' : q.Waits := hw.run (along_append.mp hafter).1 hwaiting
    have hqp : q.fate = .running := by
      cases hfate : q.fate with
      | running => rfl
      | ended => exact absurd hfate hq
      | hungUp => exact absurd hfate hw'.alive
    exact hw'.fresh hqp

/-- A configuration file with an empty `General` group. -/
def plainConf : Disk :=
  ⟨fun path => path == "/etc/tlm.conf",
    fun _ => some ⟨[Config.general], fun _ => some [], fun _ _ => none⟩⟩

/-- The second reload ends the daemon: the source went with the first. -/
theorem second_sighup :
    ¬ (start {} plainConf none).Reloads [.sighup, .sighupSource, .sighup] := by
  intro h
  have hrun := (h [.sighup, .sighupSource] [] rfl (by decide)).1
  exact absurd hrun (by decide)

end Process

end Tlm
