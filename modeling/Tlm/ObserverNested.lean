import Tlm.Run
import Tlm.DaemonRequest
import Mathlib.Data.List.Flatten

/-!
# Requests under a nested main loop

`_process_request` hands a request to a seat and disposes of it when the seat's
function returns. In between, `active_request` is set. A login that fails after
its session process was spawned disposes of the session handle, and
`tlm_session_remote_dispose` **waits** there for the process to go, by iterating
the main context: everything the main loop dispatches may be dispatched from
inside the wait, the idle source of the same observer included. It is a new
source, which a call that came in meanwhile has scheduled, and it finds
`active_request` set. What it then does is what `_process_request` does with an
active request: carry it out.

This module follows one observer through such interleavings, for every behaviour
of the seats. A call into a seat either returns at once, after it has emitted
some signals, or it waits; the calls that wait are a stack, and only the
innermost can go on. Invocations are numbered in the order of their arrival, so
that "at most once, and in order" is: the invocations whose requests were carried
out are strictly increasing. That is so exactly as long as the observer's idle
source is not dispatched while a request is active (`run_inOrder`).
-/

namespace Tlm

namespace Observer

/-- How a call of `tlm_seat_create_session`, `tlm_seat_terminate_session` or
`tlm_seat_switch_user` goes. -/
inductive Op : Type where
  /-- there is no call: the user to switch to is the one who occupies the seat -/
  | refused
  /-- the seat emits signals, and the function returns -/
  | returns (signals : List SeatSignal)
  /-- a session handle is disposed of and its process awaited; the error is
  emitted afterwards -/
  | waits (error : TlmError)

/-- Only a switch is checked beforehand, and only a new session on a seat that is
still there can fail in a way that waits. -/
def Op.on (op : Op) (q : DbusRequest) (seat : Option SeatRef) : Op :=
  match op with
  | .refused => if q.type = .switchUser then .refused else .returns []
  | .returns signals => .returns signals
  | .waits error => if q.type = .logoutUser ∨ seat = none then .returns [] else .waits error

/-- An observer, the calls into seats that wait inside of it, innermost first,
and the requests it has made calls for. -/
structure Nested where
  observer : Observer
  /-- the seat and the error of every call that waits -/
  frames : List (SeatRef × TlmError) := []
  /-- the requests a seat was called for, in order -/
  calls : List DbusRequest := []

namespace Nested

/-- Change the observer. -/
def on (m : Nested) (o : Observer) : Nested := { m with observer := o }

/-- The seat emits signals while it is called. -/
def emits (seat : Option SeatRef) (signals : List SeatSignal) (o : Observer) : Observer :=
  match seat with
  | none => o
  | some r => signals.foldl (fun o g => o.onSeatSignal r g) o

/-- The end of `_process_request`: a request that is still active is disposed
of. -/
def finish (m : Nested) : Nested := m.on (Daemon.settle m.observer)

/-- The last part of `_process_request`, up to the wait if there is one. -/
def processActive (m : Nested) (op : Op) : Nested :=
  match m.observer.activeRequest with
  | none => m
  | some req =>
    match req.dbusRequest with
    | none => m.finish
    | some q =>
      let m' := { m with calls := m.calls ++ [q] }
      match op.on q req.seat with
      | .refused => m.finish
      | .returns signals => (m'.on (emits req.seat signals m.observer)).finish
      | .waits error => { m' with frames := req.seat.toList.map (·, error) ++ m.frames }

/-- The request becomes the active one. -/
def activate (m : Nested) (o : Observer) (req : Request) (r : SeatRef) : Nested :=
  m.on { o with activeRequest := some { req with seat := some r } }

/-- `_process_request`, with the seats the manager has. -/
def processRequest (m : Nested) (getSeat : String → Option SeatRef) (op : Op) : Nested :=
  let o := { m.observer with requestId := 0 }
  if o.activeRequest.isSome then (m.on o).processActive op
  else match o.requestQueue with
    | some (req :: rest) =>
      let o := { o with requestQueue := some rest }
      match req.dbusRequest with
      | none => m.on o
      | some q =>
        if !o.isRequestSupported q.type then
          m.on (o.completeRequest req (some TlmError.dbusReqNotSupported.code))
        else match o.seat with
          | some r => (m.activate o req r).processActive op
          | none =>
            match if o.manager then q.seatId.bind getSeat else none with
            | some r => (m.activate ((o.connectSeat r).weakRef r) req r).processActive op
            | none => m.on (o.completeRequest req (some TlmError.seatNotFound.code))
    | _ => m.on o

/-- What is dispatched, by the main loop or from inside a wait. -/
inductive Event : Type where
  /-- a client connects -/
  | clientAdded
  /-- a client disconnects -/
  | clientRemoved (a : AdapterRef)
  /-- a client calls a method -/
  | call (a : AdapterRef) (c : Call)
  /-- a seat emits a signal -/
  | signal (r : SeatRef) (g : SeatSignal)
  /-- a seat dies -/
  | seatDispose (r : SeatRef)
  /-- the observer is disposed of -/
  | dispose
  /-- the idle source; the manager's seats, and how the call into a seat goes -/
  | idle (getSeat : String → Option SeatRef) (op : Op)
  /-- the process that the innermost wait is for is gone -/
  | reaped

/-- One dispatch. An idle source that is not scheduled does not fire. After a
wait the call emits its error and returns. -/
def step (m : Nested) : Event → Nested
  | .clientAdded => m.on m.observer.handleDbusClientAdded
  | .clientRemoved a => m.on (m.observer.handleDbusClientRemoved a)
  | .call a c => m.on (m.observer.handleCall a c)
  | .signal r g => m.on (m.observer.onSeatSignal r g)
  | .seatDispose r => m.on (m.observer.onSeatDispose r)
  | .dispose => m.on m.observer.dispose
  | .idle getSeat op => if m.observer.requestId = 0 then m else m.processRequest getSeat op
  | .reaped =>
    match m.frames with
    | [] => m
    | (r, error) :: frames =>
      ({ m with frames := frames }.on (m.observer.onSeatSignal r (.error error.code))).finish

/-- An observer that was just created. -/
def start (manager : Bool) (seat : Option SeatRef) (flags : ℕ) : Nested :=
  { observer := Observer.new manager seat flags }

/-- **Every request is carried out at most once, in the order of arrival.** -/
def InOrder (m : Nested) : Prop := (m.calls.map DbusRequest.invocation).Pairwise (· < ·)

instance (m : Nested) : Decidable m.InOrder :=
  inferInstanceAs (Decidable ((m.calls.map DbusRequest.invocation).Pairwise (· < ·)))

/-- The idle source is dispatched while a request is active, and the seat is
called. -/
def Reenters (m : Nested) (e : Event) : Prop :=
  ∃ getSeat op q seat, e = .idle getSeat op ∧ m.observer.requestId ≠ 0 ∧
    m.observer.activeRequest = some ⟨some q, seat⟩ ∧ op.on q seat ≠ .refused

end Nested

/-! ## What is not a request keeps the order -/

/-- From `o` to `o'` requests are answered and handlers disconnected, and nothing
is added. -/
structure Yields (o o' : Observer) : Prop where
  queue : (o'.requestQueue.getD []).Sublist (o.requestQueue.getD [])
  received : o'.received = o.received
  clients : o'.clients = o.clients
  handlers : ∀ a, (o'.handlers a).Sublist (o.handlers a)
  active : ∀ req', o'.activeRequest = some req' →
    ∃ req, o.activeRequest = some req ∧ req'.dbusRequest = req.dbusRequest

variable {o o' o'' : Observer}

theorem Yields.refl (o : Observer) : Yields o o :=
  ⟨.refl _, rfl, rfl, fun _ => .refl _, fun req h => ⟨req, h, rfl⟩⟩

theorem Yields.trans (h : Yields o o') (h' : Yields o' o'') : Yields o o'' := by
  refine ⟨h'.queue.trans h.queue, h'.received.trans h.received, h'.clients.trans h.clients,
    fun a => (h'.handlers a).trans (h.handlers a), fun req'' h'' => ?_⟩
  obtain ⟨req', hreq', heq'⟩ := h'.active req'' h''
  obtain ⟨req, hreq, heq⟩ := h.active req' hreq'
  exact ⟨req, hreq, heq'.trans heq⟩

theorem completeRequest_yields (o : Observer) (req : Request) (error : Option ℤ) :
    Yields o (o.completeRequest req error) := by
  obtain ⟨cs, ws, heq, -⟩ := completeRequest_eq o req error
  rw [heq]
  exact ⟨.refl _, rfl, rfl, fun _ => .refl _, fun req h => ⟨req, h, rfl⟩⟩

theorem completeActive_yields (o : Observer) (req : Request) (error : Option ℤ) :
    Yields o (o.completeActive req error) := by
  obtain ⟨cs, ws, heq, -⟩ := completeRequest_eq o req error
  obtain ⟨id, n, hnext⟩ := processNextRequestInIdle_frame
    { o.completeRequest req error with activeRequest := none }
  rw [completeActive, hnext, heq]
  exact ⟨.refl _, rfl, rfl, fun _ => .refl _, by simp⟩

theorem disconnectDbusAdapter_yields (o : Observer) (a : AdapterRef) :
    Yields o (o.disconnectDbusAdapter a) := by
  refine ⟨.refl _, rfl, rfl, fun a' => ?_, fun req h => ⟨req, h, rfl⟩⟩
  simp only [disconnectDbusAdapter, Function.update_apply]
  split
  · rename_i heq
    rw [heq]
    exact List.filter_sublist
  · exact .refl _

theorem handleSeatSignal_yields (g : SeatSignal) (o : Observer) :
    Yields o (o.handleSeatSignal g) := by
  simp only [handleSeatSignal]
  split
  · exact .refl o
  split
  · split
    · exact .refl o
    · split
      · exact .refl o
      · exact completeActive_yields _ _ _
  · split
    · exact .refl o
    · split
      · exact .refl o
      · exact (disconnectDbusAdapter_yields _ _).trans (completeActive_yields _ _ _)
  · exact completeActive_yields _ _ _

theorem onSeatSignal_yields (r : SeatRef) (g : SeatSignal) (o : Observer) :
    Yields o (o.onSeatSignal r g) := by
  simp only [onSeatSignal]
  generalize o.connected.filter (· = r) = rs
  induction rs generalizing o with
  | nil => exact .refl o
  | cons r' rs ih =>
    rw [List.foldl_cons]
    refine Yields.trans ?_ (ih _)
    split
    · exact handleSeatSignal_yields g o
    · exact .refl o

theorem onSeatDispose_yields (r : SeatRef) (o : Observer) : Yields o (o.onSeatDispose r) := by
  simp only [onSeatDispose]
  split
  · refine ⟨.refl _, rfl, rfl, fun _ => .refl _, fun req' hreq' => ?_⟩
    obtain ⟨req, hreq, rfl⟩ := Option.map_eq_some_iff.mp hreq'
    refine ⟨req, hreq, ?_⟩
    split
    · rfl
    · rfl
  · exact .refl o

theorem dispose_yields (o : Observer) : Yields o o.dispose := by
  obtain ⟨cs, ws, rs, heq, -⟩ := dispose_eq o
  rw [heq]
  exact ⟨List.nil_sublist _, rfl, rfl, fun _ => List.nil_sublist _, nofun⟩

theorem settle_yields (o : Observer) : Yields o (Daemon.settle o) := by
  simp only [Daemon.settle]
  rcases o.activeRequest with _ | req
  · exact ⟨.refl _, rfl, rfl, fun _ => .refl _, by simp⟩
  · obtain ⟨cs, ws, heq, -⟩ := disposeRequest_eq o req
    rw [Option.elim_some, heq]
    exact ⟨.refl _, rfl, rfl, fun _ => .refl _, by simp⟩

theorem settle_inactive (o : Observer) : (Daemon.settle o).activeRequest = none := rfl

namespace Nested

variable {m : Nested}

theorem emits_yields (seat : Option SeatRef) (signals : List SeatSignal) (o : Observer) :
    Yields o (emits seat signals o) := by
  rcases seat with _ | r
  · exact .refl o
  · simp only [emits]
    induction signals generalizing o with
    | nil => exact .refl o
    | cons g signals ih => exact (onSeatSignal_yields r g o).trans (ih _)

/-! ## Calls without a wait -/

/-- The active request of an observer whose seats do not wait. -/
theorem processActive_observer (m : Nested) {q : DbusRequest} {r : SeatRef}
    (ha : m.observer.activeRequest = some ⟨some q, some r⟩) (signals : List SeatSignal) :
    (m.processActive (.returns signals)).observer =
      Daemon.settle (emits (some r) signals m.observer) := by
  simp [processActive, ha, Op.on, on, finish]

/-- What a seat does with a request in the model of the daemon is an operation here. -/
theorem processActive_reaction {oid : ObserverId} {o : Observer} {q : DbusRequest} {r : SeatRef}
    (ho : o.activeRequest = some ⟨some q, some r⟩) (config : Config) (sys : Sys) {s : Seat}
    (hk : ∀ k, oid = .ofSeat r k → k < s.observers.next) (frames : List (SeatRef × TlmError))
    (calls : List DbusRequest) : ∃ op : Op, (processActive ⟨o, frames, calls⟩ op).observer =
      Daemon.settle (Daemon.reaction config sys r oid q s o) := by
  rcases Daemon.reaction_cases config sys q hk o with ⟨-, hquiet⟩ | ⟨-, code, hloud⟩
  · exact ⟨.returns [], by rw [hquiet, processActive_observer _ ho]; rfl⟩
  · exact ⟨.returns [.error code], by rw [hloud, processActive_observer _ ho]; rfl⟩

/-- **The daemon's model without waits is a special case**: what its idle source
does to an observer is what happens here, for some outcome of the call. -/
theorem idle_refines {d : Daemon} (h : d.Tidy) (sys : Sys) (oid : ObserverId)
    (frames : List (SeatRef × TlmError)) (calls : List DbusRequest) :
    ∃ op, (step ⟨d.observers oid, frames, calls⟩ (.idle d.getSeat op)).observer =
      (d.step ⟨sys, .idle oid⟩).observers oid := by
  have hactive := (h.rests oid).active
  rcases Daemon.idle_cases h sys oid with ⟨hid, heq⟩ | ⟨hq, heq⟩ | ⟨q, rest, hid, hq, heq⟩
  · refine ⟨.refused, ?_⟩
    rw [heq]
    simp [step, hid]
  · refine ⟨.refused, ?_⟩
    rw [heq, Daemon.setObserver_observers]
    by_cases hid : (d.observers oid).requestId = 0
    · rw [step, if_pos hid, ← hid]
    · rcases hq' : (d.observers oid).requestQueue with _ | _ | ⟨req, rest⟩
      · simp [step, hid, processRequest, hactive, hq', on]
      · simp [step, hid, processRequest, hactive, hq', on]
      · rw [hq'] at hq
        cases hq
  · have hborn := h.hears (by rw [hq]; rfl : (d.observers oid).requestQueue.isSome = true)
    obtain ⟨hsupp, -⟩ := (h.rests oid).head hq
    have hflag : decide ((d.observers oid).enableFlags &&& q.type.flag ≠ 0) = true := hsupp
    rw [heq]
    rcases Daemon.processRequest_eq h sys hq with
      ⟨ht, hproc⟩ | ⟨r, hs, -, hproc⟩ | ⟨r, hs, hm, hget, -, hproc⟩
    · refine ⟨.refused, ?_⟩
      rw [hproc, Daemon.setObserver_observers, step, if_neg hid]
      have ht' : (d.observers oid).seat = none ∧
          (if (d.observers oid).manager then q.seatId.bind d.getSeat else none) = none := by
        simp only [Daemon.target] at ht
        rcases hs : (d.observers oid).seat with _ | r
        · rw [hs] at ht
          exact ⟨rfl, ht⟩
        · rw [hs] at ht
          cases ht
      simp only [processRequest, Daemon.popped, hactive, hq, isRequestSupported, hflag, ht'.1,
        ht'.2]
      rfl
    · rw [hproc, Daemon.setObserver_observers]
      have hs' : (d.observers oid).seat = some r := hs
      have hborn' : ∀ k, oid = .ofSeat r k →
          k < ((d.seats.get r).step ⟨d.config, sys, .ref⟩).observers.next := by
        intro k hk
        exact lt_of_lt_of_le (hborn r k hk)
          (Seat.step_grows (h.seats r).toLinked ⟨d.config, sys, .ref⟩).observersNext
      obtain ⟨op, hop⟩ := processActive_reaction (o := { Daemon.popped (d.observers oid) rest with
        activeRequest := some ⟨some q, some r⟩ }) rfl d.config sys hborn' frames calls
      refine ⟨op, ?_⟩
      rw [step, if_neg hid, ← hop]
      simp only [processRequest, Daemon.popped, hactive, hq, isRequestSupported, hflag, hs']
      rfl
    · rw [hproc, Daemon.setObserver_observers]
      have hs' : (d.observers oid).seat = none := hs
      have hm' : (d.observers oid).manager = true := hm
      obtain ⟨op, hop⟩ := processActive_reaction
        (o := { ((Daemon.popped (d.observers oid) rest).connectSeat r).weakRef r with
          activeRequest := some ⟨some q, some r⟩ }) rfl d.config sys (hborn r) frames calls
      refine ⟨op, ?_⟩
      rw [step, if_neg hid, ← hop]
      simp only [processRequest, Daemon.popped, hactive, hq, isRequestSupported, hflag, hs', hm',
        hget, if_true]
      rfl

/-! ## The order -/

/-- The invocations in the queue. -/
def queued (o : Observer) : List Invocation :=
  (o.requestQueue.getD []).flatMap Request.invocations

/-- The invocations that were carried out, followed by those that wait in the
queue. -/
def line (calls : List DbusRequest) (o : Observer) : List Invocation :=
  calls.map DbusRequest.invocation ++ queued o

/-- What carries the order through a run: the numbers of what was carried out and
of what waits are increasing and have been given out, no adapter has two handlers
of one kind. -/
structure Sorted (calls : List DbusRequest) (o : Observer) : Prop where
  sorted : (line calls o).Pairwise (· < ·)
  bounded : ∀ i ∈ line calls o, i < o.received
  fresh : ∀ a, o.clients ≤ a → o.handlers a = []
  nodup : ∀ a, (o.handlers a).Nodup

/-- The same in a state between two dispatches: the active request has been carried
out. -/
structure Ordered (m : Nested) : Prop where
  toSorted : Sorted m.calls m.observer
  active : ∀ req, m.observer.activeRequest = some req →
    ∃ q, req.dbusRequest = some q ∧ q ∈ m.calls

variable {calls : List DbusRequest} {o o' : Observer}

/-- Nothing is out of order when requests leave the queue and handlers go. -/
theorem Sorted.mono (h : Sorted calls o)
    (hqueue : (o'.requestQueue.getD []).Sublist (o.requestQueue.getD []))
    (hreceived : o'.received = o.received) (hclients : o'.clients = o.clients)
    (hhandlers : ∀ a, (o'.handlers a).Sublist (o.handlers a)) : Sorted calls o' := by
  have hline : (line calls o').Sublist (line calls o) :=
    (List.Sublist.refl _).append (hqueue.flatMap Request.invocations)
  refine ⟨h.sorted.sublist hline, fun i hi => ?_, fun a ha => ?_, fun a => ?_⟩
  · rw [hreceived]
    exact h.bounded i (hline.subset hi)
  · have hnil := hhandlers a
    rw [h.fresh a (hclients ▸ ha)] at hnil
    exact List.sublist_nil.mp hnil
  · exact (h.nodup a).sublist (hhandlers a)

theorem Sorted.yields (h : Sorted calls o) (hy : Yields o o') : Sorted calls o' :=
  h.mono hy.queue hy.received hy.clients hy.handlers

theorem Ordered.yields (h : m.Ordered) (hy : Yields m.observer o') : (m.on o').Ordered := by
  refine ⟨h.toSorted.yields hy, fun req' hreq' => ?_⟩
  obtain ⟨req, hreq, heq⟩ := hy.active req' hreq'
  obtain ⟨q, hq, hmem⟩ := h.active req hreq
  exact ⟨q, heq.trans hq, hmem⟩

/-- Once `_process_request` is through, no request is active. -/
theorem Sorted.finish (h : Sorted m.calls m.observer) : m.finish.Ordered := by
  refine ⟨h.yields (settle_yields _), fun req hreq => ?_⟩
  cases (settle_inactive _).symm.trans hreq

theorem ordered_start (manager : Bool) (seat : Option SeatRef) (flags : ℕ) :
    (start manager seat flags).Ordered :=
  ⟨⟨List.Pairwise.nil, nofun, fun _ _ => rfl, fun _ => List.nodup_nil⟩, nofun⟩

theorem Ordered.inOrder (h : m.Ordered) : m.InOrder :=
  (List.pairwise_append.mp h.toSorted.sorted).1

/-- A request with the next number joins the line, at its end. -/
theorem Sorted.add (h : Sorted calls o) {req : Request} (hreq : req.invocations = [o.received])
    (hqueue : o'.requestQueue = o.requestQueue.map (· ++ [req]))
    (hreceived : o'.received = o.received + 1) (hclients : o'.clients = o.clients)
    (hhandlers : o'.handlers = o.handlers) : Sorted calls o' := by
  have hlt : ∀ i ∈ line calls o, i < o'.received := fun i hi =>
    hreceived ▸ Nat.lt_succ_of_lt (h.bounded i hi)
  have hrest : (∀ a, o'.clients ≤ a → o'.handlers a = []) ∧ ∀ a, (o'.handlers a).Nodup := by
    rw [hclients, hhandlers]
    exact ⟨h.fresh, h.nodup⟩
  rcases hq : o.requestQueue with _ | queue
  · -- the server is stopped, and the request goes nowhere
    have hline : line calls o' = line calls o := by
      simp [line, queued, hqueue, hq]
    exact ⟨hline ▸ h.sorted, hline ▸ hlt, hrest.1, hrest.2⟩
  · have hline : line calls o' = line calls o ++ [o.received] := by
      simp [line, queued, hqueue, hq, hreq]
    refine ⟨?_, ?_, hrest.1, hrest.2⟩
    · rw [hline, List.pairwise_append]
      refine ⟨h.sorted, List.pairwise_singleton _ _, fun i hi j hj => ?_⟩
      rw [List.mem_singleton.mp hj]
      exact h.bounded i hi
    · intro i hi
      rw [hline, List.mem_append, List.mem_singleton] at hi
      rcases hi with hi | rfl
      · exact hlt i hi
      · rw [hreceived]
        exact Nat.lt_succ_self _

theorem filter_eq_of_nodup (t : RequestType) {ts : List RequestType} (h : ts.Nodup) :
    ts.filter (· = t) = [] ∨ ts.filter (· = t) = [t] := by
  rw [List.filter_eq]
  rcases Nat.le_one_iff_eq_zero_or_eq_one.mp (List.nodup_iff_count.mp h t) with hc | hc
  · exact Or.inl (by rw [hc]; rfl)
  · exact Or.inr (by rw [hc]; rfl)

/-- A new client's adapter gets one handler of each kind. -/
theorem Ordered.clientAdded (h : m.Ordered) : (m.step .clientAdded).Ordered := by
  obtain ⟨⟨hsorted, hbounded, hfresh, hnodup⟩, hactive⟩ := h
  simp only [Nested.step, handleDbusClientAdded]
  split
  · exact ⟨⟨hsorted, hbounded, hfresh, hnodup⟩, hactive⟩
  · have hnew : m.observer.handlers m.observer.clients = [] := hfresh _ le_rfl
    refine ⟨⟨hsorted, hbounded, fun a ha => ?_, fun a => ?_⟩, hactive⟩
    · have hne : a ≠ m.observer.clients := fun heq =>
        absurd (heq ▸ ha) (Nat.not_succ_le_self m.observer.clients)
      simp only [on, connectDbusAdapter, Function.update_of_ne hne]
      exact hfresh a (Nat.le_of_succ_le ha)
    · simp only [on, connectDbusAdapter, Function.update_apply, hnew, List.nil_append]
      split
      · have hkinds : [RequestType.loginUser, .logoutUser, .switchUser].Nodup := by decide
        exact hkinds.sublist List.filter_sublist
      · exact hnodup a

/-- A call takes the next number, to the end of the line. -/
theorem Ordered.call (h : m.Ordered) (a : AdapterRef) (c : Call) :
    (m.step (.call a c)).Ordered := by
  obtain ⟨hs, hactive⟩ := h
  simp only [Nested.step, handleCall]
  split
  case isFalse => exact ⟨hs, hactive⟩
  have hlt : ∀ i ∈ line m.calls m.observer, i < m.observer.received + 1 :=
    fun i hi => Nat.lt_succ_of_lt (hs.bounded i hi)
  split
  case isFalse => exact ⟨⟨hs.sorted, hlt, hs.fresh, hs.nodup⟩, hactive⟩
  -- at most one handler is connected, so at most one request comes of the call
  rcases filter_eq_of_nodup c.type (hs.nodup a) with hnone | hone
  · rw [hnone]
    exact ⟨⟨hs.sorted, hlt, hs.fresh, hs.nodup⟩, hactive⟩
  · rw [hone, List.foldl_cons, List.foldl_nil]
    obtain ⟨id, n, hadd⟩ := addRequest_eq { m.observer with received := m.observer.received + 1 }
      { dbusRequest := some (createDbusRequest a m.observer.received c) }
    rw [hadd]
    have hreq : Request.invocations
        { dbusRequest := some (createDbusRequest a m.observer.received c) } =
        [m.observer.received] := by
      simp only [Request.invocations, createDbusRequest]
      split
      · rfl
      · rfl
    exact ⟨hs.add hreq rfl rfl rfl rfl, hactive⟩

/-! ## Requests -/

/-- The request at the head of the queue is the next in line. -/
theorem Sorted.pop {req : Request} {q : DbusRequest} {rest : List Request} (h : Sorted calls o)
    (hq : o.requestQueue = some (req :: rest)) (hreq : req.dbusRequest = some q)
    (hqueue : o'.requestQueue = some rest) (hreceived : o'.received = o.received)
    (hclients : o'.clients = o.clients) (hhandlers : o'.handlers = o.handlers) :
    Sorted (calls ++ [q]) o' := by
  have hline : line (calls ++ [q]) o' = line calls o := by
    simp [line, queued, hq, hqueue, Request.invocations, hreq]
  refine ⟨hline ▸ h.sorted, hline ▸ hreceived ▸ h.bounded, ?_, ?_⟩
  · rw [hclients, hhandlers]
    exact h.fresh
  · rw [hhandlers]
    exact h.nodup

theorem Sorted.drop {q : DbusRequest} (h : Sorted (calls ++ [q]) o) : Sorted calls o := by
  have hline : (line calls o).Sublist (line (calls ++ [q]) o) := by
    simp only [line, List.map_append]
    exact (List.sublist_append_left _ _).append (.refl _)
  exact ⟨h.sorted.sublist hline, fun i hi => h.bounded i (hline.subset hi), h.fresh, h.nodup⟩

/-- The active request is the next in line. -/
theorem processActive_ordered {q : DbusRequest} {seat : Option SeatRef}
    (hactive : m.observer.activeRequest = some ⟨some q, seat⟩)
    (hs : Sorted (m.calls ++ [q]) m.observer) (op : Op) : (m.processActive op).Ordered := by
  simp only [processActive, hactive]
  split
  · exact hs.drop.finish
  · refine Sorted.finish ?_
    exact hs.yields (emits_yields _ _ _)
  · refine ⟨hs, fun req hreq => ?_⟩
    obtain rfl := Option.some.inj (hactive.symm.trans hreq)
    exact ⟨q, rfl, List.mem_append_right _ (List.mem_singleton_self q)⟩

/-- Everything `_process_request` can do with the request at the head of the
queue. -/
theorem processRequest_take {req : Request} {q : DbusRequest} {rest : List Request}
    (ha : m.observer.activeRequest = none) (hq : m.observer.requestQueue = some (req :: rest))
    (hreq : req.dbusRequest = some q) (getSeat : String → Option SeatRef) (op : Op) :
    let o := Daemon.popped m.observer rest
    (∃ code, m.processRequest getSeat op = m.on (o.completeRequest req (some code))) ∨
    ∃ o' r, Yields o o' ∧ m.processRequest getSeat op = (m.activate o' req r).processActive op := by
  intro o
  simp only [processRequest, ha, hq, hreq, Option.isSome_none, Bool.false_eq_true, if_false]
  split
  · exact Or.inl ⟨_, rfl⟩
  split
  · exact Or.inr ⟨o, _, .refl o, rfl⟩
  split
  · refine Or.inr ⟨_, _, ?_, rfl⟩
    exact ⟨.refl _, rfl, rfl, fun _ => .refl _, fun req h => ⟨req, h, rfl⟩⟩
  · exact Or.inl ⟨_, rfl⟩

/-- **`_process_request`** keeps the order, unless it carries the active request
out again. -/
theorem Ordered.processRequest (h : m.Ordered) (hid : m.observer.requestId ≠ 0)
    (getSeat : String → Option SeatRef) (op : Op) (hn : ¬ m.Reenters (.idle getSeat op)) :
    (m.processRequest getSeat op).Ordered := by
  obtain ⟨hs, hactive⟩ := h
  rcases ha : m.observer.activeRequest with _ | req
  · have hnone : ∀ o : Observer, o.activeRequest = none → Sorted m.calls o → (m.on o).Ordered :=
      fun o ho hs => ⟨hs, fun req hreq => by cases ho.symm.trans hreq⟩
    have hidle : ∀ rest, rest.Sublist (m.observer.requestQueue.getD []) →
        Sorted m.calls { m.observer with
          requestId := 0, requestQueue := some rest, activeRequest := none } :=
      fun rest hrest => hs.mono hrest rfl rfl fun _ => .refl _
    rcases hq : m.observer.requestQueue with _ | _ | ⟨req, rest⟩
    · simp only [Nested.processRequest, ha, hq]
      exact hnone _ rfl (hs.mono (by rw [hq]) rfl rfl fun _ => .refl _)
    · simp only [Nested.processRequest, ha, hq]
      exact hnone _ rfl (hidle [] (List.nil_sublist _))
    rcases hreq : req.dbusRequest with _ | q
    · simp only [Nested.processRequest, ha, hq, hreq]
      exact hnone _ rfl (hidle rest (by rw [hq]; exact List.sublist_cons_self _ _))
    have hpop : Sorted (m.calls ++ [q]) (Daemon.popped m.observer rest) :=
      hs.pop hq hreq rfl rfl rfl rfl
    obtain ⟨code, heq⟩ | ⟨o', r, hy, heq⟩ := processRequest_take ha hq hreq getSeat op
    · rw [heq]
      have hpopped : (m.on (Daemon.popped m.observer rest)).Ordered := hnone _ rfl hpop.drop
      exact hpopped.yields (completeRequest_yields _ req _)
    · rw [heq]
      obtain ⟨_, seat⟩ := req
      obtain rfl := hreq
      refine processActive_ordered (q := q) rfl ?_ op
      exact (hpop.yields hy).mono (.refl _) rfl rfl fun _ => .refl _
  · obtain ⟨q, hq, -⟩ := hactive req ha
    obtain ⟨_, seat⟩ := req
    obtain rfl := hq
    have hop : op.on q seat = .refused := by
      by_contra hop
      exact hn ⟨getSeat, op, q, seat, rfl, hid, ha, hop⟩
    simp only [Nested.processRequest, ha, Option.isSome_some, if_true, processActive, on, hop]
    apply Sorted.finish
    exact hs.mono (.refl _) rfl rfl fun _ => .refl _

/-- Every dispatch keeps the order, unless it carries the active request out
again. -/
theorem Ordered.step (h : m.Ordered) (e : Event) (hn : ¬ m.Reenters e) : (m.step e).Ordered := by
  cases e with
  | clientAdded => exact h.clientAdded
  | clientRemoved a =>
    simp only [Nested.step, handleDbusClientRemoved]
    split
    · exact h.yields ⟨.refl _, rfl, rfl, (disconnectDbusAdapter_yields _ a).handlers,
        fun req hreq => ⟨req, hreq, rfl⟩⟩
    · exact h.yields (.refl _)
  | call a c => exact h.call a c
  | signal r g => exact h.yields (onSeatSignal_yields r g _)
  | seatDispose r => exact h.yields (onSeatDispose_yields r _)
  | dispose => exact h.yields (dispose_yields _)
  | idle getSeat op =>
    simp only [Nested.step]
    split
    · exact h
    · rename_i hid
      exact h.processRequest hid getSeat op hn
  | reaped =>
    simp only [Nested.step]
    split
    · exact h
    · exact Sorted.finish (h.toSorted.yields (onSeatSignal_yields _ _ _))

/-- Carrying the active request out again is out of order. -/
theorem not_inOrder_of_reenters (h : m.Ordered) {e : Event} (hr : m.Reenters e) :
    ¬ (m.step e).InOrder := by
  obtain ⟨getSeat, op, q, seat, rfl, hid, ha, hop⟩ := hr
  obtain ⟨q', hq', hmem⟩ := h.active _ ha
  obtain rfl := Option.some.inj hq'
  have hcalls : (m.step (.idle getSeat op)).calls = m.calls ++ [q] := by
    simp only [Nested.step, if_neg hid, Nested.processRequest, ha, Option.isSome_some, if_true,
      processActive, on]
    split
    · rename_i heq
      exact absurd heq hop
    · rfl
    · rfl
  rw [InOrder, hcalls, List.map_append, List.pairwise_append]
  rintro ⟨-, -, hlt⟩
  have hself := hlt q.invocation (List.mem_map_of_mem hmem) q.invocation (List.mem_singleton_self _)
  exact lt_irrefl _ hself

/-- **Exactly when every request is carried out at most once and in order**: in a
run of an observer, with whatever is dispatched from inside the waits, if and only
if its idle source never finds a request active and calls a seat for it again. -/
theorem run_inOrder (manager : Bool) (seat : Option SeatRef) (flags : ℕ) (es : List Event) :
    Always step InOrder (start manager seat flags) es ↔
      Along step (fun m e => ¬ m.Reenters e) (start manager seat flags) es := by
  have hstart := ordered_start manager seat flags
  generalize start manager seat flags = m at hstart
  constructor
  · intro h
    induction es generalizing m with
    | nil => trivial
    | cons e es ih =>
      have he : ¬ m.Reenters e := fun hr => not_inOrder_of_reenters hstart hr h.2.head
      exact ⟨he, ih (m.step e) (hstart.step e he) h.2⟩
  · intro h
    have halways : Always step Ordered m es :=
      h.always (fun m e hm hn => hm.step e hn) hstart
    exact halways.imp fun _ hm => hm.inOrder

/-- Two logins on a seat whose observer's server cannot be started. The second call comes in
while the first waits for its session process to go, and the idle source it schedules carries
the first request out again. -/
def twoLogins : List Event :=
  let login : Call := { type := .loginUser, seatId := some "seat0", username := some "guest",
                        password := some "" }
  let seats : String → Option SeatRef := fun id => if id = "seat0" then some 0 else none
  [.clientAdded, .call 0 login, .idle seats (.waits .dbusServerStartFailure), .call 0 login,
    .idle seats (.waits .dbusServerStartFailure), .reaped, .reaped]

theorem login_repeated :
    ¬ Always step InOrder (start true none enableAll) twoLogins ∧
      (twoLogins.foldl step (start true none enableAll)).calls.map DbusRequest.invocation =
        [0, 0] := by
  refine ⟨fun h => ?_, by decide⟩
  have hlast := h.last
  exact absurd hlast (by decide)

end Nested

end Observer

end Tlm
