import Tlm.Seat

/-!
# The D-Bus observer (`tlm-dbus-observer.c`)

An observer serves one socket. A method call on it passes through the login
adapter of its connection (`tlm-dbus-login-adapter.c`), becomes a request in a
queue, and is handed to a seat by an idle callback. Everything an observer owns
is part of `Observer`: the queue, the idle source, the adapters with the
handlers connected to them, the seats whose signals **it** is connected to, and
the replies it has sent. Method invocations are numbered per observer, in the
order they arrive.

The part of `_process_request` that calls into a seat is not here but with the
daemon as a whole; this module has everything an observer does to itself.

A queued request holds a reference to its adapter, so an adapter is disposed
only when no request refers to it: the search of `_on_dbus_adapter_dispose` for
requests of a dead adapter finds none, and what is left of that function is the
disconnection of the adapter.
-/

namespace Tlm

/-- Name of a seat among those ever created. -/
abbrev SeatRef : Type := ℕ

/-- Name of a login adapter among those of its observer. -/
abbrev AdapterRef : Type := ℕ

/-- Name of a method invocation among those received by its observer. -/
abbrev Invocation : Type := ℕ

/-- `TlmDbusRequestType`. -/
inductive RequestType : Type where
  | loginUser
  | logoutUser
  | switchUser
  deriving DecidableEq, Repr

/-- The flag that enables requests of a type. -/
def RequestType.flag : RequestType → ℕ
  | .loginUser => enableLoginUser
  | .logoutUser => enableLogoutUser
  | .switchUser => enableSwitchUser

/-- A method call on the login interface, as it arrives. -/
structure Call where
  /-- which method -/
  type : RequestType
  /-- argument `seatid` -/
  seatId : Option String := none
  /-- argument `username`; not an argument of `logoutUser` -/
  username : Option String := none
  /-- argument `password`; not an argument of `logoutUser` -/
  password : Option String := none
  /-- argument `environment`, an `a{ss}`; not an argument of `logoutUser` -/
  environment : Option (List (String × String)) := none
  deriving DecidableEq, Repr

/-- The adapter's input check. -/
def Call.valid (c : Call) : Bool :=
  match c.type with
  | .logoutUser => c.seatId.isSome
  | _ => c.seatId.isSome && c.username.isSome && c.password.isSome

/-- `TlmDbusRequest`. -/
structure DbusRequest where
  /-- `type` -/
  type : RequestType
  /-- `dbus_adapter` -/
  dbusAdapter : AdapterRef
  /-- `invocation` -/
  invocation : Invocation
  /-- `seat_id` -/
  seatId : Option String := none
  /-- `username` -/
  username : Option String := none
  /-- `password` -/
  password : Option String := none
  /-- `environment` -/
  environment : Option Environment := none
  deriving DecidableEq, Repr

/-- `TlmRequest`. -/
structure Request where
  /-- `dbus_request` -/
  dbusRequest : Option DbusRequest := none
  /-- `seat` -/
  seat : Option SeatRef := none
  deriving DecidableEq, Repr

/-- What is sent back for an invocation. -/
inductive Reply : Type where
  | success
  | error (code : ℤ)
  deriving DecidableEq, Repr

/-- A `TlmDbusObserver` and everything it owns. -/
structure Observer where
  /-- `manager` is set -/
  manager : Bool := false
  /-- `seat` -/
  seat : Option SeatRef := none
  /-- `request_queue`; `NULL` once the server was stopped -/
  requestQueue : Option (List Request) := none
  /-- `request_id`: the idle source of `_process_request`, zero when none is scheduled -/
  requestId : ℕ := 0
  /-- `active_request` -/
  activeRequest : Option Request := none
  /-- `enable_flags` -/
  enableFlags : ℕ := 0
  /-- the adapters of the clients that are connected -/
  adapters : List AdapterRef := []
  /-- the handlers connected to an adapter -/
  handlers : AdapterRef → List RequestType := fun _ => []
  /-- the seats whose three signals are connected, with multiplicity -/
  connected : List SeatRef := []
  /-- the weak references on seats, with multiplicity -/
  weakRefs : List SeatRef := []
  /-- how many clients there have been -/
  clients : ℕ := 0
  /-- how many idle sources it has created; ids start at one -/
  sources : ℕ := 0
  /-- how many method calls its adapters have taken -/
  received : ℕ := 0
  /-- the replies sent, in order -/
  replies : List (Invocation × Reply) := []

namespace Observer

/-! ## Requests -/

/-- `tlm_dbus_observer_new`, with its server up. -/
def new (manager : Bool) (seat : Option SeatRef) (enableFlags : ℕ) : Observer :=
  { manager := manager, seat := seat, enableFlags := enableFlags, requestQueue := some [],
    weakRefs := seat.toList }

/-- Whether `enable_flags` has the flag of a request type. -/
def isRequestSupported (o : Observer) (t : RequestType) : Bool := o.enableFlags &&& t.flag ≠ 0

/-- The request types it connects handlers for. -/
def supported (o : Observer) : List RequestType :=
  [.loginUser, .logoutUser, .switchUser].filter o.isRequestSupported

/-- Send a reply. -/
def reply (o : Observer) (i : Invocation) (r : Reply) : Observer :=
  { o with replies := o.replies ++ [(i, r)] }

/-- `_connect_seat`. -/
def connectSeat (o : Observer) (r : SeatRef) : Observer := { o with connected := o.connected ++ [r] }

/-- `_disconnect_seat`. -/
def disconnectSeat (o : Observer) (r : SeatRef) : Observer :=
  { o with connected := o.connected.filter (· ≠ r) }

/-- `g_object_weak_ref` on a seat, with `_on_seat_dispose`. -/
def weakRef (o : Observer) (r : SeatRef) : Observer := { o with weakRefs := o.weakRefs ++ [r] }

/-- `g_object_weak_unref`, of one reference if there is one. -/
def weakUnref (o : Observer) (r : SeatRef) : Observer := { o with weakRefs := o.weakRefs.erase r }

/-- `tlm_dbus_login_adapter_request_completed` and `tlm_dbus_utils_dispose_request`:
the invocation of a request, if it still has one, is answered. -/
def completeDbusRequest (o : Observer) (d : Option DbusRequest) (error : Option ℤ) : Observer :=
  match d with
  | none => o
  | some d => o.reply d.invocation (match error with
    | none => .success
    | some code => .error code)

/-- `_dispose_request`: whatever is left unanswered is answered with success. -/
def disposeRequest (o : Observer) (req : Request) : Observer :=
  let o := o.completeDbusRequest req.dbusRequest none
  match req.seat with
  | none => o
  | some r => (o.disconnectSeat r).weakUnref r

/-- `_complete_request`. -/
def completeRequest (o : Observer) (req : Request) (error : Option ℤ) : Observer :=
  (o.completeDbusRequest req.dbusRequest error).disposeRequest { req with dbusRequest := none }

/-- `_clear_request`. -/
def clearRequest (o : Observer) (req : Request) : Observer :=
  o.completeRequest req (some TlmError.dbusReqAborted.code)

/-- `_process_next_request_in_idle`. -/
def processNextRequestInIdle (o : Observer) : Observer :=
  if o.requestId = 0 ∧ o.requestQueue.getD [] ≠ [] then
    { o with requestId := o.sources + 1, sources := o.sources + 1 }
  else o

/-- `_add_request`. -/
def addRequest (o : Observer) (req : Request) : Observer :=
  { o with requestQueue := o.requestQueue.map (· ++ [req]) }.processNextRequestInIdle

/-! ## Method calls -/

/-- `_connect_dbus_adapter`. -/
def connectDbusAdapter (o : Observer) (a : AdapterRef) : Observer :=
  { o with handlers := Function.update o.handlers a (o.handlers a ++ o.supported) }

/-- `_disconnect_dbus_adapter`. -/
def disconnectDbusAdapter (o : Observer) (a : AdapterRef) : Observer :=
  { o with handlers :=
      Function.update o.handlers a ((o.handlers a).filter fun t => !o.isRequestSupported t) }

/-- A client connects: `client-added` and `_handle_dbus_client_added`. A stopped
server takes no clients. -/
def handleDbusClientAdded (o : Observer) : Observer :=
  match o.requestQueue with
  | none => o
  | some _ => { o with adapters := o.adapters ++ [o.clients], clients := o.clients + 1 }.connectDbusAdapter
      o.clients

/-- A client disconnects: `client-removed` and `_handle_dbus_client_removed`. -/
def handleDbusClientRemoved (o : Observer) (a : AdapterRef) : Observer :=
  if a ∈ o.adapters then { o.disconnectDbusAdapter a with adapters := o.adapters.erase a } else o

/-- `tlm_dbus_utils_hash_table_from_variant`: a later entry replaces an earlier
one of the same key. -/
def hashTableFromVariant (entries : List (String × String)) : Environment :=
  entries.foldl (fun env e =>
    if env.any (·.1 = e.1) then env.map fun p => if p.1 = e.1 then e else p
    else env ++ [e]) []

/-- `tlm_dbus_utils_create_request`, with the arguments each handler passes. -/
def createDbusRequest (a : AdapterRef) (i : Invocation) (c : Call) : DbusRequest :=
  match c.type with
  | .logoutUser => { type := .logoutUser, dbusAdapter := a, invocation := i, seatId := c.seatId }
  | t => { type := t, dbusAdapter := a, invocation := i, seatId := c.seatId,
           username := c.username, password := c.password,
           environment := c.environment.map hashTableFromVariant }

/-- `_handle_login_user`, `_handle_logout_user` and `_handle_switch_user` of the
adapter, with the observer's handlers `_handle_dbus_login_user` and so on: bad
input is answered at once, other calls become a request **for every handler
that is connected** to the signal of their type. -/
def handleCall (o : Observer) (a : AdapterRef) (c : Call) : Observer :=
  if a ∈ o.adapters then
    let i := o.received
    let o := { o with received := o.received + 1 }
    if c.valid then
      ((o.handlers a).filter (· = c.type)).foldl
        (fun o _ => o.addRequest { dbusRequest := some (createDbusRequest a i c) }) o
    else o.reply i (.error TlmError.invalidInput.code)
  else o

/-! ## Signals of a seat -/

/-- The seat signals an observer connects to. -/
inductive SeatSignal : Type where
  /-- `session-created` -/
  | created
  /-- `session-terminated` -/
  | terminated
  /-- `session-error` -/
  | error (code : ℤ)
  deriving DecidableEq, Repr

/-- Answer the active request and go on to the next. -/
def completeActive (o : Observer) (req : Request) (error : Option ℤ) : Observer :=
  ({ o.completeRequest req error with activeRequest := none }).processNextRequestInIdle

/-- `_handle_seat_session_created`, `_handle_seat_session_terminated` and
`_handle_seat_session_error`. -/
def handleSeatSignal (g : SeatSignal) (o : Observer) : Observer :=
  match o.activeRequest with
  | none => o
  | some req =>
    match g with
    | .created =>
      match req.dbusRequest with
      | none => o
      | some d => if d.type = .logoutUser then o else o.completeActive req none
    | .terminated =>
      match req.dbusRequest with
      | none => o
      | some d =>
        if d.type ≠ .logoutUser then o
        else (o.disconnectDbusAdapter d.dbusAdapter).completeActive req none
    | .error code => o.completeActive req (some code)

/-- Seat `r` emits a signal: every connection to it runs the handler, unless it
has been disconnected by then. -/
def onSeatSignal (r : SeatRef) (g : SeatSignal) (o : Observer) : Observer :=
  (o.connected.filter (· = r)).foldl
    (fun o _ => if r ∈ o.connected then o.handleSeatSignal g else o) o

/-- `_on_seat_dispose`, for every weak reference on seat `r`. -/
def onSeatDispose (r : SeatRef) (o : Observer) : Observer :=
  if r ∈ o.weakRefs then
    { o.disconnectSeat r with
        weakRefs := o.weakRefs.filter (· ≠ r)
        activeRequest := o.activeRequest.map fun req =>
          if req.seat = some r then { req with seat := none } else req
        seat := if o.seat = some r then none else o.seat }
  else o

/-! ## Shutdown -/

/-- `_stop_dbus_server`: every request is aborted, then the clients go. -/
def stopDbusServer (o : Observer) : Observer :=
  let o := o.activeRequest.elim o o.clearRequest
  let o := (o.requestQueue.getD []).foldl clearRequest { o with activeRequest := none }
  { o with requestQueue := none, adapters := [], handlers := fun _ => [] }

/-- `tlm_dbus_observer_dispose`. -/
def dispose (o : Observer) : Observer :=
  let o := { o with requestId := 0 }.stopDbusServer
  { o with manager := false, seat := none, weakRefs := o.seat.elim o.weakRefs o.weakRefs.erase }

end Observer

end Tlm
