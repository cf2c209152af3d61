import Tlm.ObserverNested
import Tlm.ObserverDispose
import Tlm.References

/-!
# The clients of an observer (`tlm-dbus-server-p2p.c`)

The server of an observer makes a login adapter for every connection and keeps it in a
table; a request holds a reference to the adapter it came through as well. Who hears of a
client's end is a matter of three kinds of watches, all put up when the client connects: the
`closed` signal of the connection and a weak reference on the adapter for the server, and
another weak reference for the observer. The server takes its own down before it drops the
adapter, the observer takes its down when it is told that the client went.

`Observer` knows nothing of this: a request goes and its adapter with it. Here every function
is followed that takes or drops a reference, with what the watches do when an adapter goes.
The seats are as in `Nested`, and what is dispatched is the same.

The connection over which a client came has the number of its adapter.
-/

namespace Tlm

open Observer

/-- An observer with its server. -/
structure Served where
  nested : Nested
  /-- `login_object_adapters`; `NULL` once stopped -/
  loginObjectAdapters : Option (List AdapterRef) := some []
  /-- the connections whose `closed` is connected to `_on_connection_closed` -/
  closed : List AdapterRef := []
  /-- the adapters with a weak reference, with `_on_login_object_dispose` -/
  serverWatch : List AdapterRef := []
  /-- the adapters with a weak reference, with `_on_dbus_adapter_dispose` -/
  observerWatch : List AdapterRef := []
  /-- the references to adapters -/
  adapters : References AdapterRef := {}
  /-- the runs of `_on_login_object_dispose` -/
  loginObjectDisposed : List AdapterRef := []
  /-- the runs of `_on_dbus_adapter_dispose`, with the requests each has removed -/
  dbusAdapterDisposed : List (AdapterRef × List Request) := []
  /-- the same runs, with the requests in the queue each has walked -/
  walked : List (AdapterRef × List Request) := []

namespace Served

/-- The observer. -/
def observer (s : Served) : Observer := s.nested.observer

/-- Change the observer. -/
def on (s : Served) (o : Observer) : Served := { s with nested := s.nested.on o }

/-- The table. -/
def table (s : Served) : List AdapterRef := s.loginObjectAdapters.getD []

/-! ## An adapter goes -/

/-- `_on_login_object_dispose`: what is left of the adapter in the table is taken out, and
not dropped. -/
def onLoginObjectDispose (dead : AdapterRef) (s : Served) : Served :=
  { s with
    loginObjectAdapters := s.loginObjectAdapters.map (·.filter (· ≠ dead))
    serverWatch := s.serverWatch.erase dead
    loginObjectDisposed := s.loginObjectDisposed ++ [dead] }

/-- The end of `_on_dbus_adapter_dispose`: the active request. -/
def removeActive (dead : AdapterRef) (o : Observer) : Observer :=
  match o.activeRequest with
  | none => o
  | some req =>
    if ofAdapter dead req then
      ({ o.disposeRequest req with activeRequest := none, requestId := 0 }).processNextRequestInIdle
    else o

/-- `_on_dbus_adapter_dispose`. The requests it disposes of have their references to the
adapter that is going. The queue is a list here, and the requests are taken out of it; what
the loop over its links does to the header is in `onDbusAdapterDispose_removeDead`. -/
def onDbusAdapterDispose (dead : AdapterRef) (s : Served) : Served :=
  let o := s.observer.disconnectDbusAdapter dead
  let queued := (o.requestQueue.getD []).filter (ofAdapter dead)
  let active := o.activeRequest.toList.filter (ofAdapter dead)
  let o := queued.foldl disposeRequest
    { o with requestQueue := o.requestQueue.map (·.filter fun r => !ofAdapter dead r) }
  { s.on (removeActive dead o) with
    observerWatch := s.observerWatch.erase dead
    dbusAdapterDisposed := s.dbusAdapterDisposed ++ [(dead, queued ++ active)]
    walked := s.walked ++ [(dead, s.observer.requestQueue.getD [])] }

/-- `_dispose` of the adapter and `g_object_real_dispose`: the connection is closed, the
handlers go, and the weak references are notified in the order in which they were taken. -/
def disposeAdapter (a : AdapterRef) (s : Served) : Served :=
  let s := s.on { s.observer with handlers := Function.update s.observer.handlers a [] }
  let s := if a ∈ s.serverWatch then s.onLoginObjectDispose a else s
  if a ∈ s.observerWatch then s.onDbusAdapterDispose a else s

/-- `g_object_unref` of an adapter. -/
def unref (a : AdapterRef) (s : Served) : Served :=
  let s' := { s with adapters := s.adapters.release a }
  if s.adapters.count a = 1 then s'.disposeAdapter a else s'

/-! ## Requests -/

/-- `_complete_dbus_request`: the request is answered, and `tlm_dbus_utils_dispose_request`
drops its adapter. -/
def completeDbusRequest (s : Served) (d : Option DbusRequest) (error : Option ℤ) : Served :=
  let s := s.on (s.observer.completeDbusRequest d error)
  d.elim s fun d => s.unref d.dbusAdapter

/-- `_dispose_request`. -/
def disposeRequest (s : Served) (req : Request) : Served :=
  let s := s.completeDbusRequest req.dbusRequest none
  match req.seat with
  | none => s
  | some r => s.on ((s.observer.disconnectSeat r).weakUnref r)

/-- `_complete_request`. -/
def completeRequest (s : Served) (req : Request) (error : Option ℤ) : Served :=
  (s.completeDbusRequest req.dbusRequest error).disposeRequest { req with dbusRequest := none }

/-- `_clear_request`. -/
def clearRequest (s : Served) (req : Request) : Served :=
  s.completeRequest req (some TlmError.dbusReqAborted.code)

/-- Answer the active request and go on to the next. -/
def completeActive (s : Served) (req : Request) (error : Option ℤ) : Served :=
  let s := s.completeRequest req error
  s.on { s.observer with activeRequest := none }.processNextRequestInIdle

/-! ## Clients -/

/-- `_add_login_object_watchers` for a new adapter, and `client-added`. -/
def onClientRequest (s : Served) : Served :=
  match s.loginObjectAdapters with
  | none => s
  | some table =>
    let a := s.observer.clients
    { s.on s.observer.handleDbusClientAdded with
      loginObjectAdapters := some (table ++ [a])
      closed := s.closed ++ [a]
      serverWatch := s.serverWatch ++ [a]
      observerWatch := s.observerWatch ++ [a]
      adapters := s.adapters.retain a }

/-- `_clear_login_object_watchers`. -/
def clearLoginObjectWatchers (s : Served) (a : AdapterRef) : Served :=
  { s with closed := s.closed.filter (· ≠ a), serverWatch := s.serverWatch.erase a }

/-- `_on_connection_closed`, with `client-removed`. A connection that is not watched has no
handler. -/
def onConnectionClosed (s : Served) (a : AdapterRef) : Served :=
  if a ∈ s.closed ∧ a ∈ s.table then
    let s := s.clearLoginObjectWatchers a
    let s := { s.on (s.observer.handleDbusClientRemoved a) with
               observerWatch := s.observerWatch.erase a }
    unref a { s with loginObjectAdapters := s.loginObjectAdapters.map (·.erase a) }
  else s

/-- `_handle_dbus_login_user` and its two siblings: a request for a call. -/
def handleRequest (s : Served) (a : AdapterRef) (i : Invocation) (c : Call) : Served :=
  let s' := { s with adapters := s.adapters.retain a }
  s'.on (s.observer.addRequest { dbusRequest := some (createDbusRequest a i c) })

/-- A method call over a connection of the server. -/
def handleCall (s : Served) (a : AdapterRef) (c : Call) : Served :=
  if a ∈ s.table then
    let i := s.observer.received
    let s := s.on { s.observer with received := s.observer.received + 1 }
    if c.valid then
      ((s.observer.handlers a).filter (· = c.type)).foldl (fun s _ => s.handleRequest a i c) s
    else s.on (s.observer.reply i (.error TlmError.invalidInput.code))
  else s

/-! ## Signals of a seat -/

/-- `_handle_seat_session_created`, `_handle_seat_session_terminated` and
`_handle_seat_session_error`. -/
def handleSeatSignal (g : SeatSignal) (s : Served) : Served :=
  match s.observer.activeRequest with
  | none => s
  | some req =>
    match g with
    | .created =>
      match req.dbusRequest with
      | none => s
      | some d => if d.type = .logoutUser then s else s.completeActive req none
    | .terminated =>
      match req.dbusRequest with
      | none => s
      | some d =>
        if d.type ≠ .logoutUser then s
        else (s.on (s.observer.disconnectDbusAdapter d.dbusAdapter)).completeActive req none
    | .error code => s.completeActive req (some code)

/-- Seat `r` emits a signal. -/
def onSeatSignal (r : SeatRef) (g : SeatSignal) (s : Served) : Served :=
  (s.observer.connected.filter (· = r)).foldl
    (fun s _ => if r ∈ s.observer.connected then s.handleSeatSignal g else s) s

/-- The seat emits signals while it is called. -/
def emits (seat : Option SeatRef) (signals : List SeatSignal) (s : Served) : Served :=
  match seat with
  | none => s
  | some r => signals.foldl (fun s g => s.onSeatSignal r g) s

/-! ## The idle source -/

/-- The end of `_process_request`. -/
def finish (s : Served) : Served :=
  let s := s.observer.activeRequest.elim s s.disposeRequest
  s.on { s.observer with activeRequest := none }

/-- The last part of `_process_request`, up to the wait if there is one. -/
def processActive (s : Served) (op : Op) : Served :=
  match s.observer.activeRequest with
  | none => s
  | some req =>
    match req.dbusRequest with
    | none => s.finish
    | some q =>
      let calls := s.nested.calls ++ [q]
      match op.on q req.seat with
      | .refused => s.finish
      | .returns signals =>
        (emits req.seat signals { s with nested := { s.nested with calls := calls } }).finish
      | .waits error =>
        let frames := req.seat.toList.map (·, error) ++ s.nested.frames
        { s with nested := { s.nested with calls := calls, frames := frames } }

/-- `_process_request`, with the seats the manager has. -/
def processRequest (s : Served) (getSeat : String → Option SeatRef) (op : Op) : Served :=
  let o := { s.observer with requestId := 0 }
  if o.activeRequest.isSome then (s.on o).processActive op
  else match o.requestQueue with
    | some (req :: rest) =>
      let o := { o with requestQueue := some rest }
      match req.dbusRequest with
      | none => s.on o
      | some q =>
        if !o.isRequestSupported q.type then
          (s.on o).completeRequest req (some TlmError.dbusReqNotSupported.code)
        else match o.seat with
          | some r => (s.on { o with activeRequest := some { req with seat := some r } }).processActive op
          | none =>
            match if o.manager then q.seatId.bind getSeat else none with
            | some r =>
              (s.on { (o.connectSeat r).weakRef r with
                activeRequest := some { req with seat := some r } }).processActive op
            | none => (s.on o).completeRequest req (some TlmError.seatNotFound.code)
    | _ => s.on o

/-! ## Shutdown -/

/-- `_tlm_dbus_server_p2p_stop`: the watches of the server go, and then the table. -/
def stop (s : Served) : Served :=
  let s := s.table.foldl clearLoginObjectWatchers s
  let s := s.table.foldl (fun s a => s.unref a) s
  { s.on { s.observer with adapters := [] } with loginObjectAdapters := none }

/-- `_stop_dbus_server`: every request is aborted, then the server is stopped. -/
def stopDbusServer (s : Served) : Served :=
  let s := s.observer.activeRequest.elim s s.clearRequest
  let s := s.on { s.observer with activeRequest := none }
  let s := (s.observer.requestQueue.getD []).foldl clearRequest s
  (s.on { s.observer with requestQueue := none }).stop

/-- `tlm_dbus_observer_dispose`. -/
def dispose (s : Served) : Served :=
  let s := (s.on { s.observer with requestId := 0 }).stopDbusServer
  s.on { s.observer with
    manager := false, seat := none
    weakRefs := s.observer.seat.elim s.observer.weakRefs s.observer.weakRefs.erase }

/-! ## Runs -/

/-- One dispatch. -/
def step (s : Served) : Nested.Event → Served
  | .clientAdded => s.onClientRequest
  | .clientRemoved a => s.onConnectionClosed a
  | .call a c => s.handleCall a c
  | .signal r g => s.onSeatSignal r g
  | .seatDispose r => s.on (s.observer.onSeatDispose r)
  | .dispose => s.dispose
  | .idle getSeat op => if s.observer.requestId = 0 then s else s.processRequest getSeat op
  | .reaped =>
    match s.nested.frames with
    | [] => s
    | (r, error) :: frames =>
      let s := { s with nested := { s.nested with frames := frames } }
      (s.onSeatSignal r (.error error.code)).finish

/-- An observer that was just created. -/
def start (manager : Bool) (seat : Option SeatRef) (flags : ℕ) : Served :=
  { nested := Nested.start manager seat flags }

end Served

end Tlm
