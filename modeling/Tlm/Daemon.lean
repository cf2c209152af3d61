import Mathlib.Logic.Function.Iterate
import Tlm.ObserverSpec
import Tlm.SeatRun
import Tlm.Watch

/-!
# The daemon (`tlm-manager.c`, and `_process_request` of `tlm-dbus-observer.c`)

The manager with its seats and all observers, as one machine. A seat is changed
only by `onSeat`: one dispatch of the seat machine, after which what the seat
did — the entries its trace has gained — is carried out on the rest of the
daemon. Nothing of this reaches back into the seat within the same dispatch:
the handlers of its signals belong to observers, which touch only themselves,
and the one answer that matters, that of the manager's stop handler, the seat
knows already.

`log` records, in order, what statements about whole runs refer to: requests a
seat accepted, sessions that were started, creations of seats, signals of the manager,
and memory that it freed and does not own.
-/

namespace Tlm

/-- A seat that was never created: nobody has a reference to it. -/
instance : Inhabited Seat := ⟨{ id := "", refs := 0 }⟩

/-- Name of an observer: the one on the root socket, or one of those a seat
created. -/
inductive ObserverId : Type where
  | root
  | ofSeat (r : SeatRef) (o : ObserverRef)
  deriving DecidableEq, Repr

/-- Whom a session is for: what a request brings and a start uses. -/
structure Credentials where
  /-- user name -/
  username : Option String
  /-- password -/
  password : Option String
  /-- environment -/
  environment : Option Environment
  deriving DecidableEq, Repr

/-- The credentials among the arguments of a login. -/
def LoginArgs.credentials (args : LoginArgs) : Credentials :=
  ⟨args.username, args.password, args.environment⟩

/-- An entry of the log. -/
inductive Record : Type where
  /-- a login or switch request was accepted by seat `r` -/
  | accepted (r : SeatRef) (creds : Credentials)
  /-- `tlm_session_remote_create` on seat `r` -/
  | started (r : SeatRef) (creds : Credentials)
  /-- `_create_seat`, with whether the id was a key of the table already -/
  | createSeat (id : String) (registered : Bool)
  /-- signal `seat-removed` -/
  | seatRemoved (id : String)
  /-- a handler of a logind signal freed the strings of the signal, seat `id` and its path,
  which lie in the memory of its parameters, and dropped the caller's reference to these -/
  | borrowedFreed (id : String)
  /-- signal `manager-stopped` -/
  | managerStopped
  deriving DecidableEq, Repr

/-- The manager, its seats and all observers. -/
structure Daemon where
  /-- `config` -/
  config : Config
  /-- `initial_user` -/
  initialUser : Option String := none
  /-- `seats`: the table of managed seats -/
  seatTable : List (String × SeatRef) := []
  /-- `is_started` -/
  isStarted : Bool := false
  /-- the seats ever created -/
  seats : Store Seat := Store.empty
  /-- the observers; one that was never created serves nobody -/
  observers : ObserverId → Observer := fun _ => {}
  /-- the seat ids of the watch closures left to inotify -/
  watches : List String := []
  /-- what has happened so far -/
  log : List Record := []

namespace Daemon

/-! ## Seats and what they do to the rest -/

/-- Append to the log. -/
def record (d : Daemon) (e : Record) : Daemon := { d with log := d.log ++ [e] }

/-- Change one observer. -/
def setObserver (d : Daemon) (oid : ObserverId) (o : Observer) : Daemon :=
  { d with observers := Function.update d.observers oid o }

/-- Seat `r` emits a signal. -/
def signal (d : Daemon) (r : SeatRef) (g : Observer.SeatSignal) : Daemon :=
  { d with observers := fun oid => (d.observers oid).onSeatSignal r g }

/-- Carry out one thing that seat `r` did. -/
def perform (r : SeatRef) (d : Daemon) (a : Act) : Daemon :=
  match a with
  | .sessionCreated => d.signal r .created
  | .sessionTerminated => d.signal r .terminated
  | .sessionError code => d.signal r (.error code)
  | .observerNew o args =>
    d.setObserver (.ofSeat r o) (Observer.new false (some r) args.enableFlags)
  | .observerDispose o => d.setObserver (.ofSeat r o) (d.observers (.ofSeat r o)).dispose
  | .sessionRemoteCreate _ user password environment =>
    d.record (.started r ⟨user, password, environment⟩)
  | _ => d

/-- What a seat has done from `s` to `s'`. -/
def gained (s s' : Seat) : List Act := s'.trace.drop s.trace.length

/-- A dispatch of seat `r`. When its last reference goes, so do the weak
references on it. -/
def onSeat (d : Daemon) (sys : Sys) (r : SeatRef) (ev : SeatEvent) : Daemon :=
  let s := d.seats.get r
  let s' := s.step ⟨d.config, sys, ev⟩
  let d := (gained s s').foldl (perform r) { d with seats := d.seats.set r s' }
  if s.refs ≠ 0 ∧ s'.refs = 0 then
    { d with observers := fun oid => (d.observers oid).onSeatDispose r }
  else d

/-- The `gboolean` a seat operation returns. -/
def accepts (cfg : Config) (sys : Sys) (ev : SeatEvent) (s : Seat) : Bool :=
  s.refs ≠ 0 && match ev with
    | .createSession args => (s.createSession cfg sys args).2
    | .switchUser args => (s.switchUser cfg sys args).2
    | .terminateSession => s.terminateSession.2
    | _ => false

/-- The credentials a login or switch request brings. -/
def requestCredentials : SeatEvent → Option Credentials
  | .createSession args => some args.credentials
  | .switchUser args => some args.credentials
  | _ => none

/-- A request reaches seat `r`; that a login or switch was accepted is recorded. -/
def request (d : Daemon) (sys : Sys) (r : SeatRef) (ev : SeatEvent) : Daemon :=
  let d := match requestCredentials ev with
    | some creds =>
      if accepts d.config sys ev (d.seats.get r) then d.record (.accepted r creds) else d
    | none => d
  d.onSeat sys r ev

/-! ## The seat table -/

/-- `g_hash_table_lookup (seats, id)`; also `tlm_manager_get_seat`. -/
def getSeat (d : Daemon) (id : String) : Option SeatRef := d.seatTable.lookup id

/-- `g_hash_table_remove (seats, id)`: the table drops its reference. -/
def removeSeat (d : Daemon) (sys : Sys) (id : String) : Daemon :=
  match d.getSeat id with
  | none => d
  | some r => { d with seatTable := d.seatTable.filter (·.1 ≠ id) }.onSeat sys r .unref

/-- `g_hash_table_insert (seats, id, seat)`: a seat that was there under the
same id is replaced, and the table drops its reference. -/
def insertSeat (d : Daemon) (sys : Sys) (id : String) (r : SeatRef) : Daemon :=
  match d.getSeat id with
  | none => { d with seatTable := d.seatTable ++ [(id, r)] }
  | some old =>
    let table := d.seatTable.map fun p => if p.1 = id then (id, r) else p
    { d with seatTable := table }.onSeat sys old .unref

/-- `_create_seat`. -/
def createSeat (d : Daemon) (sys : Sys) (id : String) : Daemon :=
  let r := d.seats.next
  let d := d.record (.createSeat id (d.getSeat id).isSome)
  let d := { d with seats := d.seats.alloc (Seat.new id) }.insertSeat sys id r
  if d.config.autoLogin || d.initialUser.isSome then
    d.onSeat sys r (.createSession { username := d.initialUser })
  else d

/-- `_seat_watch_cb`. -/
def seatWatchCb (d : Daemon) (sys : Sys) (id : String) (isFinal : Bool) : Daemon :=
  if isFinal then d.createSeat sys id else d

/-- The items `_add_seat` collects for the watcher. -/
def watchItems (cfg : Config) (id : String) : List (Option String) :=
  (List.range (cfg.seatNwatch id)).map fun x => cfg.getString (some id) ("WATCH" ++ toString x)

/-- `_add_seat`. Registering the watches does not end the function: the `return`
behind it is commented out. -/
def addSeat (d : Daemon) (sys : Sys) (fs : Fs) (id : String) : Daemon :=
  if !d.config.seatActive id then d
  else
    let d := if d.config.seatNwatch id ≠ 0 then
        let (notices, info) := watchForFiles fs (watchItems d.config id)
        let d := notices.foldl (fun d n => d.seatWatchCb sys id n.isFinal) d
        if info.isSome then { d with watches := d.watches ++ [id] } else d
      else d
    d.createSeat sys id

/-- `_manager_on_seat_added`. What it frees at the end is not its own: from then on the process
may do anything, and the model goes on as if nothing had happened. -/
def onSeatAdded (d : Daemon) (sys : Sys) (fs : Fs) (id : String) : Daemon :=
  let d := if (d.getSeat id).isSome then d else d.addSeat sys fs id
  d.record (.borrowedFreed id)

/-- `_manager_on_seat_removed`. The test is the wrong way round: only a seat
that is **not** in the table is removed from it, and said to be. It frees as
`_manager_on_seat_added` does. -/
def onSeatRemoved (d : Daemon) (sys : Sys) (id : String) : Daemon :=
  let d := if (d.getSeat id).isSome then d else (d.removeSeat sys id).record (.seatRemoved id)
  d.record (.borrowedFreed id)

/-- `_manager_authenticate_cb`. -/
def authenticate (d : Daemon) (sys : Sys) (seatId : String)
    (service username password : Option String) : Daemon :=
  match d.getSeat seatId with
  | none => d
  | some r => d.request sys r (.switchUser ⟨service, username, password, none⟩)

/-! ## Stopping -/

/-- `_session_terminated_cb`. -/
def sessionTerminatedCb (sys : Sys) (id : String) (d : Daemon) : Daemon :=
  let d := d.removeSeat sys id
  if d.seatTable.isEmpty then d.record .managerStopped else d

/-- An event of a session handle; if the seat announces the end of its session,
the manager's stop handlers run last. -/
def sessionEvent (d : Daemon) (sys : Sys) (r : SeatRef) (x : SessionRef) (e : SessionEvent) :
    Daemon :=
  let s := d.seats.get r
  let s' := s.step ⟨d.config, sys, .session x e⟩
  let d := d.onSeat sys r (.session x e)
  if .sessionTerminated ∈ gained s s' then (sessionTerminatedCb sys s.id)^[s.stopHandlers] d else d

/-- One pass of the loop of `tlm_manager_stop`, up to the first seat that refuses
to terminate its session; whether some seat accepted, and whether the pass was
cut short. -/
def stopPass (sys : Sys) : List (String × SeatRef) → Daemon × Bool → (Daemon × Bool) × Bool
  | [], acc => (acc, false)
  | (id, r) :: rest, (d, delayed) =>
    let d := d.onSeat sys r .connectStop
    let ok := accepts d.config sys .terminateSession (d.seats.get r)
    let d := d.onSeat sys r .terminateSession
    if ok then stopPass sys rest (d, true) else ((d.removeSeat sys id, delayed), true)

/-- The loop of `tlm_manager_stop`: the iterator is set up anew after every
removal. `iterate` is the order in which the table is walked. -/
def stopLoop (sys : Sys) (iterate : List (String × SeatRef) → List (String × SeatRef)) :
    ℕ → Daemon × Bool → Daemon × Bool
  | 0, acc => acc
  | fuel + 1, acc =>
    match stopPass sys (iterate acc.1.seatTable) acc with
    | (acc, false) => acc
    | (acc, true) => stopLoop sys iterate fuel acc

/-- `tlm_manager_stop`. -/
def stop (d : Daemon) (sys : Sys)
    (iterate : List (String × SeatRef) → List (String × SeatRef)) : Daemon :=
  let (d, delayed) := stopLoop sys iterate (d.seatTable.length + 1) (d, false)
  let d := if delayed then d else d.record .managerStopped
  { d with isStarted := false }

/-- `tlm_manager_dispose`. -/
def dispose (d : Daemon) (sys : Sys)
    (iterate : List (String × SeatRef) → List (String × SeatRef)) : Daemon :=
  let d := d.setObserver .root (d.observers .root).dispose
  let d := if d.isStarted then d.stop sys iterate else d
  (d.seatTable.map Prod.fst).foldl (fun d id => d.removeSeat sys id) d

/-! ## Processing a request -/

/-- `_is_valid_switch_user_dbus_request`. -/
def isValidSwitchUserDbusRequest (q : DbusRequest) (s : Seat) : Bool :=
  q.username ≠ s.getOccupyingUsername

/-- The seat operation a request asks for; `none` when it is refused before the
seat is called. -/
def operation (q : DbusRequest) (s : Seat) : Option SeatEvent :=
  match q.type with
  | .loginUser => some (.createSession ⟨none, q.username, q.password, q.environment⟩)
  | .logoutUser => some .terminateSession
  | .switchUser =>
    if isValidSwitchUserDbusRequest q s then
      some (.switchUser ⟨none, q.username, q.password, q.environment⟩)
    else none

/-- The `ret` of `_process_request` for a request handed to seat `s`. -/
def operationResult (cfg : Config) (sys : Sys) (q : DbusRequest) (s : Seat) : Bool :=
  match operation q s with
  | none => false
  | some ev => accepts cfg sys ev s

/-- The last part of `_process_request`: carry the active request out, and
dispose of it if nobody has completed it meanwhile. -/
def processActive (d : Daemon) (sys : Sys) (oid : ObserverId) : Daemon :=
  match (d.observers oid).activeRequest with
  | none => d
  | some req =>
    let d := match req.dbusRequest, req.seat with
      | some q, some r => match operation q (d.seats.get r) with
        | some ev => d.request sys r ev
        | none => d
      | _, _ => d
    let o := d.observers oid
    d.setObserver oid { o.activeRequest.elim o o.disposeRequest with activeRequest := none }

/-- The seat a request is for: the observer's own, else the one the manager has
under the request's seat id. A seat found in the second way is connected for
the time of the request. -/
def resolveSeat (d : Daemon) (oid : ObserverId) (req : Request) (q : DbusRequest) :
    Daemon × Request × Option SeatRef :=
  let o := d.observers oid
  match o.seat with
  | some r => (d, req, some r)
  | none =>
    if o.manager then
      match q.seatId.bind d.getSeat with
      | some r =>
        (d.setObserver oid ((o.connectSeat r).weakRef r), { req with seat := some r }, some r)
      | none => (d, { req with seat := none }, none)
    else (d, req, none)

/-- A request that does not have the seat yet takes a reference to it. -/
def holdSeat (d : Daemon) (sys : Sys) (req : Request) (r : SeatRef) : Daemon × Request :=
  if req.seat = some r then (d, req)
  else
    let d := req.seat.elim d fun old => d.onSeat sys old .unref
    (d.onSeat sys r .ref, { req with seat := some r })

/-- `_process_request`. -/
def processRequest (d : Daemon) (sys : Sys) (oid : ObserverId) : Daemon :=
  let o := { d.observers oid with requestId := 0 }
  let d := d.setObserver oid o
  if o.activeRequest.isSome then d.processActive sys oid
  else match o.requestQueue with
    | some (req :: rest) =>
      let o := { o with requestQueue := some rest }
      let d := d.setObserver oid o
      match req.dbusRequest with
      | none => d
      | some q =>
        if !o.isRequestSupported q.type then
          d.setObserver oid (o.completeRequest req (some TlmError.dbusReqNotSupported.code))
        else match d.resolveSeat oid req q with
          | (d, req, none) =>
            d.setObserver oid
              ((d.observers oid).completeRequest req (some TlmError.seatNotFound.code))
          | (d, req, some r) =>
            let (d, req) := d.holdSeat sys req r
            (d.setObserver oid { d.observers oid with activeRequest := some req }).processActive
              sys oid
    | _ => d

/-! ## The machine -/

/-- `tlm_manager_new`. -/
def new (config : Config) (initialUser : Option String) : Daemon :=
  { config := config, initialUser := initialUser
    observers := fun oid => if oid = .root then Observer.new true none enableAll else {} }

end Daemon

/-- What the main loop of the daemon dispatches. -/
inductive DaemonEvent : Type where
  /-- `tlm_manager_start` calls `_add_seat` for a configured seat or one that
  logind lists -/
  | addSeat (id : String) (fs : Fs)
  /-- `tlm_manager_start` is done -/
  | started
  /-- logind's `SeatNew` -/
  | seatAdded (id : String) (fs : Fs)
  /-- logind's `SeatRemoved` -/
  | seatRemoved (id : String)
  /-- the inotify source reports an item for a seat -/
  | seatWatch (id : String) (isFinal : Bool)
  /-- an authentication plugin asks for a login -/
  | authenticate (seatId : String) (service username password : Option String)
  /-- a client connects to a socket -/
  | clientAdded (oid : ObserverId)
  /-- a client disconnects -/
  | clientRemoved (oid : ObserverId) (a : AdapterRef)
  /-- a client calls a method -/
  | call (oid : ObserverId) (a : AdapterRef) (c : Call)
  /-- the idle source of an observer -/
  | idle (oid : ObserverId)
  /-- the timer of a delay closure -/
  | delayedSession (r : SeatRef) (k : ℕ)
  /-- an event of a session handle -/
  | session (r : SeatRef) (x : SessionRef) (e : SessionEvent)
  /-- `SIGHUP`, with the configuration then read -/
  | sighup (config : Config)
  /-- `tlm_manager_stop` -/
  | stop (iterate : List (String × SeatRef) → List (String × SeatRef))
  /-- the last reference to the manager is dropped -/
  | dispose (iterate : List (String × SeatRef) → List (String × SeatRef))

/-- One dispatch, with the answers of the system calls made while it runs. -/
structure DaemonStep where
  /-- the answers of the system calls -/
  sys : Sys := {}
  /-- the event -/
  event : DaemonEvent

namespace Daemon

/-- One step. An idle source that is not scheduled and a watch that is not
registered do not fire. -/
def step (d : Daemon) (st : DaemonStep) : Daemon :=
  match st.event with
  | .addSeat id fs => d.addSeat st.sys fs id
  | .started => { d with isStarted := true }
  | .seatAdded id fs => d.onSeatAdded st.sys fs id
  | .seatRemoved id => d.onSeatRemoved st.sys id
  | .seatWatch id isFinal => if id ∈ d.watches then d.seatWatchCb st.sys id isFinal else d
  | .authenticate seatId service username password =>
    d.authenticate st.sys seatId service username password
  | .clientAdded oid => d.setObserver oid (d.observers oid).handleDbusClientAdded
  | .clientRemoved oid a => d.setObserver oid ((d.observers oid).handleDbusClientRemoved a)
  | .call oid a c => d.setObserver oid ((d.observers oid).handleCall a c)
  | .idle oid => if (d.observers oid).requestId = 0 then d else d.processRequest st.sys oid
  | .delayedSession r k => d.onSeat st.sys r (.delayedSession k)
  | .session r x e => d.sessionEvent st.sys r x e
  | .sighup config => { d with config := config }
  | .stop iterate => d.stop st.sys iterate
  | .dispose iterate => d.dispose st.sys iterate

/-- The daemon after a run. -/
def run (d : Daemon) (sts : List DaemonStep) : Daemon := sts.foldl step d

end Daemon

end Tlm
