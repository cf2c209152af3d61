import Tlm.DaemonInvariant
import Tlm.SeatAnswer

/-!
# Processing a request

`_process_request` interleaves changes of its own observer with calls into a
seat, which in turn may call back into the observer. A change of one observer
commutes with a dispatch of a seat (`setObserver_onSeat`) — the observer just
hears the dispatch in its new state — so the whole function is **one** operation
on the seat followed by **one** change of the observer (`processRequest_eq`).

What that change is depends on whether the observer is connected to the seat. It
is for a request on the root socket, and then a refusal the seat signals
completes the request with that error and schedules the next one. On a seat's
own socket nothing is connected, so nothing the seat says is ever heard there.
-/

namespace Tlm

namespace Daemon

variable {d : Daemon} {sys : Sys} {r : SeatRef} {oid : ObserverId} {q : DbusRequest}
  {o : Observer} {cfg : Config} {s : Seat}

/-! ## Changing an observer -/

@[simp] theorem setObserver_setObserver (d : Daemon) (oid : ObserverId) (o o' : Observer) :
    (d.setObserver oid o).setObserver oid o' = d.setObserver oid o' := by
  simp [setObserver]

@[simp] theorem setObserver_observers (d : Daemon) (oid : ObserverId) (o : Observer) :
    (d.setObserver oid o).observers oid = o :=
  Function.update_self ..

@[simp] theorem setObserver_seats (d : Daemon) (oid : ObserverId) (o : Observer) :
    (d.setObserver oid o).seats = d.seats := rfl

/-- An observer hears a dispatch in whatever state it is. -/
theorem setObserver_onSeat (d : Daemon) (oid : ObserverId) (o : Observer) (sys : Sys)
    (r : SeatRef) (ev : SeatEvent) :
    (d.setObserver oid o).onSeat sys r ev = (d.onSeat sys r ev).setObserver oid
      (heard r oid (d.seats.get r) ((d.seats.get r).step ⟨d.config, sys, ev⟩) o) := by
  rw [onSeat_eq, onSeat_eq]
  simp only [setObserver]
  congr 1
  funext oid'
  by_cases hoid : oid' = oid
  · rw [hoid, Function.update_self, Function.update_self]
  · rw [Function.update_of_ne hoid, Function.update_of_ne hoid]

/-- The request is given to the seat. -/
def handOver (d : Daemon) (sys : Sys) (r : SeatRef) (q : DbusRequest) : Daemon :=
  match operation q (d.seats.get r) with
  | some ev => d.request sys r ev
  | none => d

/-- What observer `oid` hears while seat `r`, in state `s`, carries a request
out. -/
def reaction (cfg : Config) (sys : Sys) (r : SeatRef) (oid : ObserverId) (q : DbusRequest)
    (s : Seat) (o : Observer) : Observer :=
  match operation q s with
  | some ev => heard r oid s (s.step ⟨cfg, sys, ev⟩) o
  | none => o

theorem setObserver_handOver (d : Daemon) (oid : ObserverId) (o : Observer) (sys : Sys)
    (r : SeatRef) (q : DbusRequest) :
    (d.setObserver oid o).handOver sys r q = (d.handOver sys r q).setObserver oid
      (reaction d.config sys r oid q (d.seats.get r) o) := by
  simp only [handOver, reaction]
  rw [setObserver_seats]
  split
  · -- whether the request is accepted is recorded first, and does not depend on observers
    rename_i ev _
    rw [request_eq, request_eq]
    exact setObserver_onSeat
      { d with log := d.log ++ acceptance d.config sys r ev (d.seats.get r) } oid o sys r ev
  · rfl

/-- The end of `_process_request`: a request that is still active is disposed
of. -/
def settle (o : Observer) : Observer :=
  { o.activeRequest.elim o o.disposeRequest with activeRequest := none }

theorem processActive_eq (d : Daemon) (sys : Sys) (oid : ObserverId)
    (ho : o.activeRequest = some ⟨some q, some r⟩) :
    (d.setObserver oid o).processActive sys oid = (d.handOver sys r q).setObserver oid
      (settle (reaction d.config sys r oid q (d.seats.get r) o)) := by
  have hdef : (d.setObserver oid o).processActive sys oid =
      let d' := (d.setObserver oid o).handOver sys r q
      d'.setObserver oid (settle (d'.observers oid)) := by
    simp only [processActive]
    simp only [setObserver_observers, ho]
    rfl
  rw [hdef, setObserver_handOver]
  simp only [setObserver_observers, setObserver_setObserver]

/-! ## The seat of a request -/

/-- The seat a request is for: the observer's own, else the one registered under
the request's seat id. -/
def target (d : Daemon) (oid : ObserverId) (q : DbusRequest) : Option SeatRef :=
  match (d.observers oid).seat with
  | some r => some r
  | none => if (d.observers oid).manager then q.seatId.bind d.getSeat else none

/-- An observer at rest that has taken the first request off its queue. -/
def popped (o : Observer) (rest : List Request) : Observer :=
  { o with requestId := 0, requestQueue := some rest, activeRequest := none }

/-- A seat that does nothing, and stays alive if it was, is heard by nobody. -/
theorem heard_of_idle {s' : Seat} (ht : s'.trace = s.trace) (hrefs : s'.refs = 0 → s.refs = 0) :
    heard r oid s s' o = o := by
  have hgained : gained s s' = [] := gained_eq (by rw [ht, List.append_nil])
  have halive : ¬ (s.refs ≠ 0 ∧ s'.refs = 0) := fun h => h.1 (hrefs h.2)
  simp only [heard]
  rw [hgained, if_neg halive]
  rfl

/-- Taking a reference is heard by nobody. -/
theorem heard_ref (cfg : Config) (sys : Sys) (r : SeatRef) (oid : ObserverId) (s : Seat)
    (o : Observer) : heard r oid s (s.step ⟨cfg, sys, .ref⟩) o = o := by
  by_cases hrefs : s.refs = 0
  · have hstep : s.step ⟨cfg, sys, .ref⟩ = s := if_pos hrefs
    rw [hstep]
    exact heard_of_idle rfl id
  · have hstep : s.step ⟨cfg, sys, .ref⟩ = s.dispatch ⟨cfg, sys, .ref⟩ := if_neg hrefs
    rw [hstep]
    exact heard_of_idle rfl fun h => absurd h (Nat.succ_ne_zero _)

/-- Once its first request is taken off the queue, what is left for an observer
at rest is the search for the seat, and the request itself. -/
theorem processRequest_pop (h : d.Tidy) (sys : Sys) {rest : List Request}
    (hq : (d.observers oid).requestQueue = some ({ dbusRequest := some q } :: rest)) :
    d.processRequest sys oid =
      match (d.setObserver oid (popped (d.observers oid) rest)).resolveSeat oid
        { dbusRequest := some q } q with
      | (d, req, none) =>
        d.setObserver oid
          ((d.observers oid).completeRequest req (some TlmError.seatNotFound.code))
      | (d, req, some r) =>
        let (d, req) := d.holdSeat sys req r
        (d.setObserver oid { d.observers oid with activeRequest := some req }).processActive
          sys oid := by
  have hactive := (h.rests oid).active
  obtain ⟨hsupp, -⟩ := (h.rests oid).head hq
  simp only [processRequest]
  simp only [hactive, Option.isSome_none, Bool.false_eq_true, if_false, hq,
    setObserver_setObserver]
  rw [if_neg]
  · rfl
  · change ¬ (!(d.observers oid).isRequestSupported q.type) = true
    rw [hsupp]
    simp

/-- Everything `_process_request` can do with a request: answer that there is no
such seat, hand it to the observer's own seat, or hand it to the seat the
manager has under that id. -/
theorem processRequest_eq (h : d.Tidy) (sys : Sys) {rest : List Request}
    (hq : (d.observers oid).requestQueue = some ({ dbusRequest := some q } :: rest)) :
    let o := popped (d.observers oid) rest
    (d.target oid q = none ∧ d.processRequest sys oid =
      d.setObserver oid (o.reply q.invocation (.error TlmError.seatNotFound.code))) ∨
    (∃ r, o.seat = some r ∧ d.target oid q = some r ∧ d.processRequest sys oid =
      ((d.onSeat sys r .ref).handOver sys r q).setObserver oid
        (settle (reaction d.config sys r oid q ((d.seats.get r).step ⟨d.config, sys, .ref⟩)
          { o with activeRequest := some ⟨some q, some r⟩ }))) ∨
    (∃ r, o.seat = none ∧ o.manager = true ∧ q.seatId.bind d.getSeat = some r ∧
      d.target oid q = some r ∧ d.processRequest sys oid =
      (d.handOver sys r q).setObserver oid
        (settle (reaction d.config sys r oid q (d.seats.get r)
          { (o.connectSeat r).weakRef r with activeRequest := some ⟨some q, some r⟩ }))) := by
  intro o
  have hpop := processRequest_pop h sys hq
  rw [show popped (d.observers oid) rest = o from rfl] at hpop
  have htarget : d.target oid q = match o.seat with
      | some r => some r
      | none => if o.manager then q.seatId.bind d.getSeat else none := rfl
  rcases hs : o.seat with _ | r
  · cases hm : o.manager with
    | false =>
      refine Or.inl ⟨by rw [htarget, hs, hm]; rfl, ?_⟩
      rw [hpop]
      simp only [resolveSeat, setObserver_observers, hs, hm, Bool.false_eq_true, if_false,
        setObserver_setObserver]
      rfl
    | true =>
      have hget : q.seatId.bind (d.setObserver oid o).getSeat = q.seatId.bind d.getSeat := rfl
      rcases hr : q.seatId.bind d.getSeat with _ | r
      · refine Or.inl ⟨by rw [htarget, hs, hm]; exact hr, ?_⟩
        rw [hpop]
        simp only [resolveSeat, setObserver_observers, hs, hm, if_true, hget, hr,
          setObserver_setObserver]
        rfl
      · refine Or.inr (Or.inr ⟨r, rfl, rfl, rfl, by rw [htarget, hs, hm]; exact hr, ?_⟩)
        rw [hpop]
        simp only [resolveSeat, setObserver_observers, hs, hm, if_true, hget, hr, holdSeat,
          setObserver_setObserver]
        exact processActive_eq d sys oid rfl
  · refine Or.inr (Or.inl ⟨r, rfl, by rw [htarget, hs], ?_⟩)
    rw [hpop]
    simp only [resolveSeat, setObserver_observers, hs, holdSeat, reduceCtorEq, if_false,
      Option.elim_none, setObserver_onSeat, heard_ref, setObserver_setObserver]
    refine (processActive_eq (d.onSeat sys r .ref) sys oid rfl).trans ?_
    have hseat : (d.onSeat sys r .ref).seats.get r =
        (d.seats.get r).step ⟨d.config, sys, .ref⟩ := by
      rw [onSeat_eq]
      exact Store.get_set_self ..
    have hconfig : (d.onSeat sys r .ref).config = d.config := by rw [onSeat_eq]
    rw [hseat, hconfig]

/-! ## What the observer hears -/

/-- The arguments a login or switch request is handed over with. -/
def loginArgs (q : DbusRequest) : LoginArgs := ⟨none, q.username, q.password, q.environment⟩

/-- A request is not refused before the seat looks at it: a switch must be to
another user, and to one who can be authenticated. -/
def Passes (cfg : Config) (sys : Sys) (q : DbusRequest) (s : Seat) : Prop :=
  q.type = .switchUser → q.username ≠ s.getOccupyingUsername ∧
    Seat.authenticateUser cfg sys q.username q.password = true

/-- The seat carries the request out. -/
def Accepted (cfg : Config) (sys : Sys) (q : DbusRequest) (s : Seat) : Prop :=
  s.refs ≠ 0 ∧ Passes cfg sys q s ∧ match q.type with
    | .loginUser => s.CanCreate cfg sys (loginArgs q)
    | .logoutUser => s.CanTerminate
    | .switchUser => s.CanCreate cfg sys (loginArgs q) ∨ s.CanTerminate

/-- The seat looks at the request and refuses it. -/
def Refused (cfg : Config) (sys : Sys) (q : DbusRequest) (s : Seat) : Prop :=
  s.refs ≠ 0 ∧ Passes cfg sys q s ∧ ¬ Accepted cfg sys q s

/-- Acts that nobody hears. -/
theorem foldl_hear_quiet {acts : List Act} (hq : ∀ a ∈ acts, a.isQuiet = true)
    (hnew : ∀ k args, Act.observerNew k args ∈ acts → oid ≠ .ofSeat r k) :
    acts.foldl (hear r oid) o = o := by
  induction acts with
  | nil => rfl
  | cons a acts ih =>
    obtain ⟨ha, hq⟩ := List.forall_mem_cons.mp hq
    have hfirst : hear r oid o a = o := by
      cases a with
      | observerNew k args =>
        simp only [hear]
        rw [if_neg (hnew k args List.mem_cons_self)]
      | sessionCreated => cases ha
      | sessionTerminated => cases ha
      | sessionError code => cases ha
      | observerDispose k => cases ha
      | _ => rfl
    rw [List.foldl_cons, hfirst]
    exact ih hq fun k args hm => hnew k args (List.mem_cons_of_mem _ hm)

/-- An operation is heard as its report: not at all, or as one error. -/
theorem heard_of_answers {s' : Seat} {ok : Bool} {P : Act → Prop} (h : s.Answers s' ok)
    (hg : Seat.Grows P s s') (hborn : ∀ k, oid = .ofSeat r k → k < s.observers.next) :
    (ok = true ∧ heard r oid s s' o = o) ∨
      (ok = false ∧ ∃ code, heard r oid s s' o = o.onSeatSignal r (.error code)) := by
  obtain ⟨hrefs, acts, ht, hrep⟩ := h
  have hnew : ∀ k args, Act.observerNew k args ∈ acts → oid ≠ .ofSeat r k := by
    rintro k args hm hoid
    have hle := (hg.news acts ht k args hm).1
    exact absurd (hborn k hoid) (Nat.not_lt.mpr hle)
  have hheard : heard r oid s s' o = acts.foldl (hear r oid) o := by
    simp only [heard]
    rw [gained_eq ht]
    exact if_neg (by omega)
  rw [hheard]
  rcases hrep with ⟨hok, hq⟩ | ⟨hok, pre, code, post, rfl, hpre, hpost⟩
  · exact Or.inl ⟨hok, foldl_hear_quiet hq hnew⟩
  · refine Or.inr ⟨hok, code, ?_⟩
    have hnew₁ : ∀ k args, Act.observerNew k args ∈ pre → oid ≠ .ofSeat r k :=
      fun k args hm => hnew k args (List.mem_append_left _ hm)
    have hnew₂ : ∀ k args, Act.observerNew k args ∈ post → oid ≠ .ofSeat r k :=
      fun k args hm => hnew k args (List.mem_append_right _ (List.mem_cons_of_mem _ hm))
    rw [List.foldl_append, List.foldl_cons, foldl_hear_quiet hpre hnew₁]
    exact foldl_hear_quiet hpost hnew₂

/-- What `_process_request` takes for the outcome is whether the request is
accepted. -/
theorem operationResult_iff (cfg : Config) (sys : Sys) (q : DbusRequest) (s : Seat) :
    operationResult cfg sys q s = true ↔ Accepted cfg sys q s := by
  simp only [operationResult, operation, Accepted, Passes, accepts]
  cases hq : q.type with
  | loginUser => simp [Seat.createSession_ok, loginArgs]
  | logoutUser => simp [Seat.terminateSession_ok]
  | switchUser =>
    by_cases hv : q.username = s.getOccupyingUsername
    · simp [isValidSwitchUserDbusRequest, hv]
    · simp [isValidSwitchUserDbusRequest, hv, Seat.switchUser_ok, loginArgs]

/-- An operation that reports what it returns: the observer hears whether the
request is refused. -/
theorem reaction_of_answers {ev : SeatEvent} (hrefs : s.refs ≠ 0) (hpass : Passes cfg sys q s)
    (hop : operation q s = some ev)
    (hans : s.Answers (s.step ⟨cfg, sys, ev⟩) (accepts cfg sys ev s))
    (hgrows : Seat.Grows (fun a => a.isEnd = false) s (s.step ⟨cfg, sys, ev⟩))
    (hborn : ∀ k, oid = .ofSeat r k → k < s.observers.next) :
    (¬ Refused cfg sys q s ∧ reaction cfg sys r oid q s o = o) ∨
      (Refused cfg sys q s ∧ ∃ code, reaction cfg sys r oid q s o =
        o.onSeatSignal r (.error code)) := by
  have hacc : accepts cfg sys ev s = true ↔ Accepted cfg sys q s := by
    rw [← operationResult_iff, operationResult, hop]
  have hreaction : reaction cfg sys r oid q s o = heard r oid s (s.step ⟨cfg, sys, ev⟩) o := by
    rw [reaction, hop]
  rw [hreaction]
  rcases heard_of_answers hans hgrows hborn with ⟨hok, heq⟩ | ⟨hok, hcode⟩
  · exact Or.inl ⟨fun h => h.2.2 (hacc.mp hok), heq⟩
  · refine Or.inr ⟨⟨hrefs, hpass, fun h => ?_⟩, hcode⟩
    rw [hacc.mpr h] at hok
    cases hok

/-- What the observer hears of a request: nothing, unless the seat refuses it. -/
theorem reaction_cases (cfg : Config) (sys : Sys) (q : DbusRequest)
    (hborn : ∀ k, oid = .ofSeat r k → k < s.observers.next) (o : Observer) :
    (¬ Refused cfg sys q s ∧ reaction cfg sys r oid q s o = o) ∨
      (Refused cfg sys q s ∧ ∃ code, reaction cfg sys r oid q s o =
        o.onSeatSignal r (.error code)) := by
  by_cases hrefs : s.refs = 0
  · refine Or.inl ⟨fun h => h.1 hrefs, ?_⟩
    have hdead : ∀ ev, s.step ⟨cfg, sys, ev⟩ = s := fun ev => if_pos hrefs
    simp only [reaction]
    split
    · rw [hdead]
      exact heard_of_idle rfl id
    · rfl
  · have haccepts : ∀ b, (s.refs ≠ 0 && b) = b := by simp [hrefs]
    have hstep : ∀ ev, s.step ⟨cfg, sys, ev⟩ = s.dispatch ⟨cfg, sys, ev⟩ :=
      fun ev => if_neg hrefs
    cases hq : q.type with
    | loginUser =>
      have hop : operation q s = some (.createSession (loginArgs q)) := by
        rw [operation, hq]
        rfl
      refine reaction_of_answers hrefs (fun h => ?_) hop ?_ ?_ hborn
      · rw [hq] at h
        cases h
      · rw [accepts, haccepts, hstep]
        exact Seat.createSession_answers cfg sys (loginArgs q) s
      · rw [hstep]
        exact Seat.createSession_grows cfg sys (loginArgs q) s
    | logoutUser =>
      have hop : operation q s = some .terminateSession := by rw [operation, hq]
      refine reaction_of_answers hrefs (fun h => ?_) hop ?_ ?_ hborn
      · rw [hq] at h
        cases h
      · rw [accepts, haccepts, hstep]
        exact Seat.terminateSession_answers s
      · rw [hstep]
        exact (Seat.terminateSession_grows s).imp fun _ ha => ha.1
    | switchUser =>
      by_cases hv : q.username = s.getOccupyingUsername
      · refine Or.inl ⟨fun h => (h.2.1 hq).1 hv, ?_⟩
        simp [reaction, operation, hq, isValidSwitchUserDbusRequest, hv]
      · have hop : operation q s = some (.switchUser (loginArgs q)) := by
          simp [operation, hq, isValidSwitchUserDbusRequest, hv, loginArgs]
        cases ha : Seat.authenticateUser cfg sys q.username q.password with
        | false =>
          refine Or.inl ⟨fun h => ?_, ?_⟩
          · have hauth := (h.2.1 hq).2
            rw [ha] at hauth
            cases hauth
          · -- the seat returns before it does anything
            have hsame : s.step ⟨cfg, sys, .switchUser (loginArgs q)⟩ = s := by
              rw [hstep]
              simp [Seat.dispatch, Seat.switchUser, loginArgs, ha]
            rw [reaction, hop]
            simp only [hsame]
            exact heard_of_idle rfl id
        | true =>
          refine reaction_of_answers hrefs (fun _ => ⟨hv, ha⟩) hop ?_ ?_ hborn
          · rw [accepts, haccepts, hstep]
            exact Seat.switchUser_answers cfg sys (loginArgs q) s ha
          · rw [hstep]
            exact Seat.switchUser_grows cfg sys (loginArgs q) s

/-! ## The outcome for the observer -/

theorem settle_active {req : Request} (ho : o.activeRequest = some req) :
    settle o = { o.disposeRequest req with activeRequest := none } := by
  simp only [settle]
  rw [ho]
  rfl

theorem settle_none (ho : o.activeRequest = none) : settle o = o := by
  simp only [settle]
  rw [ho]
  cases o
  simp only at ho
  rw [ho]
  rfl

/-- A request that nobody has completed is answered with success. -/
theorem settle_success (hc : ∀ r' ∈ o.connected, r' = r) :
    settle { o with activeRequest := some ⟨some q, some r⟩ } =
      { o.reply q.invocation .success with
        activeRequest := none, connected := [], weakRefs := o.weakRefs.erase r } := by
  have hreq : ({ o with activeRequest := some ⟨some q, some r⟩ } : Observer).activeRequest =
      some ⟨some q, some r⟩ := rfl
  rw [settle_active hreq]
  simp [Observer.disposeRequest, Observer.completeDbusRequest, Observer.disconnectSeat,
    Observer.weakUnref, Observer.reply]
  exact hc

/-- A connected observer whose seat refuses answers with that error, and goes on
to the next request. -/
theorem settle_error (hc : o.connected = [r]) (code : ℤ) :
    settle (({ o with activeRequest := some ⟨some q, some r⟩ } : Observer).onSeatSignal r
        (.error code)) =
      { o.reply q.invocation (.error code) with
        activeRequest := none, connected := []
        weakRefs := o.weakRefs.erase r }.processNextRequestInIdle := by
  have hsignal : ({ o with activeRequest := some ⟨some q, some r⟩ } : Observer).onSeatSignal r
      (.error code) = { o.reply q.invocation (.error code) with
        activeRequest := none, connected := []
        weakRefs := o.weakRefs.erase r }.processNextRequestInIdle := by
    simp [Observer.onSeatSignal, hc, Observer.handleSeatSignal, Observer.completeActive,
      Observer.completeRequest, Observer.disposeRequest, Observer.completeDbusRequest,
      Observer.disconnectSeat, Observer.weakUnref, Observer.reply]
  rw [hsignal]
  apply settle_none
  obtain ⟨id, n, heq⟩ := Observer.processNextRequestInIdle_frame
    { o.reply q.invocation (.error code) with
      activeRequest := none, connected := [], weakRefs := o.weakRefs.erase r }
  rw [heq]

/-- The seat a per-seat observer knows has created it, so it does not take a new
observer of that seat for itself; neither does the one on the root socket. -/
theorem Tidy.hears (h : d.Tidy) (hq : (d.observers oid).requestQueue.isSome = true)
    (r : SeatRef) : ∀ k, oid = .ofSeat r k → k < (d.seats.get r).observers.next := by
  rintro k rfl
  exact h.born hq

/-- The whole of `_process_request` for the request at the head of the queue of
an observer at rest. -/
theorem processRequest_cases (h : d.Tidy) (sys : Sys) {rest : List Request}
    (hq : (d.observers oid).requestQueue = some ({ dbusRequest := some q } :: rest)) :
    let o := popped (d.observers oid) rest
    (d.target oid q = none ∧ d.processRequest sys oid =
      d.setObserver oid (o.reply q.invocation (.error TlmError.seatNotFound.code))) ∨
    (∃ r, o.seat = some r ∧ d.target oid q = some r ∧ d.processRequest sys oid =
      ((d.onSeat sys r .ref).handOver sys r q).setObserver oid
        { o.reply q.invocation .success with weakRefs := o.weakRefs.erase r }) ∨
    (∃ r, o.seat = none ∧ o.manager = true ∧ q.seatId.bind d.getSeat = some r ∧
      d.target oid q = some r ∧ ¬ Refused d.config sys q (d.seats.get r) ∧
      d.processRequest sys oid = (d.handOver sys r q).setObserver oid
        { o.reply q.invocation .success with weakRefs := (o.weakRefs ++ [r]).erase r }) ∨
    (∃ r code, o.seat = none ∧ o.manager = true ∧ q.seatId.bind d.getSeat = some r ∧
      d.target oid q = some r ∧ Refused d.config sys q (d.seats.get r) ∧
      d.processRequest sys oid = (d.handOver sys r q).setObserver oid
        { o.reply q.invocation (.error code) with
          weakRefs := (o.weakRefs ++ [r]).erase r }.processNextRequestInIdle) := by
  intro o
  have hconn : o.connected = [] := (h.rests oid).connected
  have hactive : o.activeRequest = none := rfl
  have hborn := h.hears (by rw [hq]; rfl : (d.observers oid).requestQueue.isSome = true)
  have hrest : ∀ (o' : Observer) ws, o'.connected = [] → o'.activeRequest = none →
      ({ o' with activeRequest := none, connected := [], weakRefs := ws } : Observer) =
        { o' with weakRefs := ws } := by
    intro o' ws h₁ h₂
    rw [← h₁, ← h₂]
  rcases processRequest_eq h sys hq with
    ⟨ht, heq⟩ | ⟨r, hs, ht, heq⟩ | ⟨r, hs, hm, hget, ht, heq⟩
  · exact Or.inl ⟨ht, heq⟩
  · refine Or.inr (Or.inl ⟨r, hs, ht, heq.trans ?_⟩)
    congr 1
    -- nothing is connected, so nothing is heard
    have hquiet : reaction d.config sys r oid q ((d.seats.get r).step ⟨d.config, sys, .ref⟩)
        { o with activeRequest := some ⟨some q, some r⟩ } =
        { o with activeRequest := some ⟨some q, some r⟩ } := by
      have hborn' : ∀ k, oid = .ofSeat r k →
          k < ((d.seats.get r).step ⟨d.config, sys, .ref⟩).observers.next := by
        intro k hk
        exact lt_of_lt_of_le (hborn r k hk)
          (Seat.step_grows (h.seats r).toLinked ⟨d.config, sys, .ref⟩).observersNext
      rcases reaction_cases d.config sys q hborn'
        { o with activeRequest := some ⟨some q, some r⟩ } with ⟨-, heq⟩ | ⟨-, code, heq⟩
      · exact heq
      · rw [heq]
        refine Observer.onSeatSignal_of_unconnected ?_ _
        exact hconn
    rw [hquiet, settle_success (by rw [hconn]; simp)]
    exact hrest (o.reply q.invocation .success) _ hconn hactive
  · have hconn' : ((o.connectSeat r).weakRef r).connected = [r] := by
      simp [Observer.connectSeat, Observer.weakRef, hconn]
    rcases reaction_cases d.config sys q (hborn r)
      { (o.connectSeat r).weakRef r with activeRequest := some ⟨some q, some r⟩ } with
      ⟨hn, hquiet⟩ | ⟨hr, code, hloud⟩
    · refine Or.inr (Or.inr (Or.inl ⟨r, hs, hm, hget, ht, hn, heq.trans ?_⟩))
      congr 1
      rw [hquiet, settle_success (by rw [hconn']; simp)]
      exact hrest (o.reply q.invocation .success) _ hconn hactive
    · refine Or.inr (Or.inr (Or.inr ⟨r, code, hs, hm, hget, ht, hr, heq.trans ?_⟩))
      congr 1
      rw [hloud, settle_error hconn']
      exact congrArg Observer.processNextRequestInIdle
        (hrest (o.reply q.invocation (.error code)) _ hconn hactive)

/-! ## What processing keeps -/

/-- The seat after a request was handed to it. -/
def served (cfg : Config) (sys : Sys) (q : DbusRequest) (s : Seat) : Seat :=
  match operation q s with
  | some ev => s.step ⟨cfg, sys, ev⟩
  | none => s

/-- Handing a request over touches one seat. -/
theorem handOver_seats (d : Daemon) (sys : Sys) (r : SeatRef) (q : DbusRequest) :
    (d.handOver sys r q).seats = d.seats.set r (served d.config sys q (d.seats.get r)) := by
  simp only [handOver, served]
  split
  · rw [request_eq, onSeat_eq]
  · exact (Store.set_get_self ..).symm

theorem handOver_moves {E : SeatEvent → Prop} {O : Observer → Observer → Prop}
    {L : Record → Prop} (hname : q.type = .loginUser → q.username.isSome = true) (d : Daemon)
    (sys : Sys) (r : SeatRef) : Moves E O L d (d.handOver sys r q) := by
  simp only [handOver]
  split
  · rename_i ev hop
    refine .request d sys r fun args hargs => ?_
    -- only a login request asks for a new session
    rw [hargs] at hop
    cases ht : q.type with
    | loginUser =>
      simp only [operation, ht, Option.some.injEq, SeatEvent.createSession.injEq] at hop
      rw [← hop]
      exact hname ht
    | logoutUser => simp [operation, ht] at hop
    | switchUser => simp [operation, ht] at hop
  · exact .refl d

theorem handOver_observersNext (h : d.Tidy) (sys : Sys) (r : SeatRef) (q : DbusRequest)
    (r' : SeatRef) :
    (d.seats.get r').observers.next ≤ ((d.handOver sys r q).seats.get r').observers.next := by
  rw [handOver_seats, Store.get_set]
  split
  · rename_i heq
    rw [heq, served]
    split
    · exact (Seat.step_grows (h.seats r).toLinked _).observersNext
    · exact le_refl _
  · exact le_refl _

theorem onSeat_observersNext (h : d.Tidy) (sys : Sys) (r : SeatRef) (ev : SeatEvent)
    (r' : SeatRef) :
    (d.seats.get r').observers.next ≤ ((d.onSeat sys r ev).seats.get r').observers.next := by
  rw [onSeat_eq]
  simp only [Store.get_set]
  split
  · rename_i heq
    rw [heq]
    exact (Seat.step_grows (h.seats r).toLinked _).observersNext
  · exact le_refl _

/-- An observer once its first request has been answered with `rep`. -/
def answered (o : Observer) (rest : List Request) (q : DbusRequest) (rep : Reply)
    (ws : List SeatRef) (id sources : ℕ) : Observer :=
  { popped o rest with
    replies := o.replies ++ [(q.invocation, rep)], weakRefs := ws
    requestId := id, sources := sources }

/-- In short: some seat is given the request, and the observer answers it. -/
theorem processRequest_answered {E : SeatEvent → Prop} {O : Observer → Observer → Prop}
    {L : Record → Prop} (hE : E .ref) (h : d.Tidy) (sys : Sys) {rest : List Request}
    (hq : (d.observers oid).requestQueue = some ({ dbusRequest := some q } :: rest)) :
    ∃ d' rep ws id n, Moves E O L d d' ∧
      (∀ r, (d.seats.get r).observers.next ≤ (d'.seats.get r).observers.next) ∧
      d.processRequest sys oid = d'.setObserver oid
        (answered (d.observers oid) rest q rep ws id n) := by
  obtain ⟨-, hname⟩ := (h.rests oid).head hq
  obtain ⟨-, heq⟩ | ⟨r, -, -, heq⟩ | ⟨r, -, -, -, -, -, heq⟩ | ⟨r, code, -, -, -, -, -, heq⟩ :=
    processRequest_cases h sys hq
  · exact ⟨d, _, _, _, _, .refl d, fun _ => le_refl _, heq⟩
  · refine ⟨_, .success, _, 0, _, ?_, fun r' => ?_, heq⟩
    · exact (Moves.onSeat d sys r hE).trans (handOver_moves hname _ sys r)
    · exact (onSeat_observersNext h sys r .ref r').trans
        (handOver_observersNext (onSeat_tidy h sys r .ref) sys r q r')
  · exact ⟨_, .success, _, 0, _, handOver_moves hname d sys r, handOver_observersNext h sys r q, heq⟩
  · obtain ⟨id, n, hnext⟩ := Observer.processNextRequestInIdle_frame
      { (popped (d.observers oid) rest).reply q.invocation (.error code) with
        weakRefs := ((popped (d.observers oid) rest).weakRefs ++ [r]).erase r }
    rw [hnext] at heq
    exact ⟨_, .error code, _, id, n, handOver_moves hname d sys r,
      handOver_observersNext h sys r q, heq⟩

theorem answered_rests (h : o.Rests) {rest : List Request}
    (hq : o.requestQueue = some ({ dbusRequest := some q } :: rest)) (rep : Reply)
    (ws : List SeatRef) (id n : ℕ) : (answered o rest q rep ws id n).Rests := by
  refine ⟨rfl, h.connected, h.wired.congr rfl rfl rfl rfl ?_, ?_⟩
  · rw [hq]
    rfl
  · intro req hreq
    apply h.queued req
    rw [hq]
    exact List.mem_cons_of_mem _ hreq

/-- Everything an idle source can do. -/
theorem idle_cases (h : d.Tidy) (sys : Sys) (oid : ObserverId) :
    ((d.observers oid).requestId = 0 ∧ d.step ⟨sys, .idle oid⟩ = d) ∨
    ((d.observers oid).requestQueue.getD [] = [] ∧ d.step ⟨sys, .idle oid⟩ =
      d.setObserver oid { d.observers oid with requestId := 0 }) ∨
    (∃ q rest, (d.observers oid).requestId ≠ 0 ∧
      (d.observers oid).requestQueue = some ({ dbusRequest := some q } :: rest) ∧
      d.step ⟨sys, .idle oid⟩ = d.processRequest sys oid) := by
  have hactive := (h.rests oid).active
  by_cases hid : (d.observers oid).requestId = 0
  · exact Or.inl ⟨hid, if_pos hid⟩
  · have hstep : d.step ⟨sys, .idle oid⟩ = d.processRequest sys oid := if_neg hid
    rcases hq : (d.observers oid).requestQueue with _ | _ | ⟨req, rest⟩
    · refine Or.inr (Or.inl ⟨rfl, ?_⟩)
      rw [hstep]
      simp [processRequest, hq, hactive]
    · refine Or.inr (Or.inl ⟨rfl, ?_⟩)
      rw [hstep]
      simp [processRequest, hq, hactive]
    · obtain ⟨q, rfl, -⟩ := (h.rests oid).queued req (by rw [hq]; simp)
      exact Or.inr (Or.inr ⟨q, rest, hid, rfl, hstep⟩)

/-- An idle source keeps the daemon tidy, and a lasting property of every other
observer. -/
theorem idle_keeps {K : Observer → Prop} (hK : Lasting K) (h : d.Tidy)
    (hd : ∀ oid, K (d.observers oid)) (sys : Sys) (oid : ObserverId) :
    (d.step ⟨sys, .idle oid⟩).Tidy ∧
      ∀ oid', oid' ≠ oid → K ((d.step ⟨sys, .idle oid⟩).observers oid') := by
  have hset : ∀ (d' : Daemon) (o' : Observer), (∀ oid, K (d'.observers oid)) →
      ∀ oid', oid' ≠ oid → K ((d'.setObserver oid o').observers oid') := by
    intro d' o' hd' oid' hne
    change K (Function.update d'.observers oid o' oid')
    rw [Function.update_of_ne hne]
    exact hd' oid'
  rcases idle_cases h sys oid with ⟨-, heq⟩ | ⟨-, heq⟩ | ⟨q, rest, -, hq, heq⟩
  · rw [heq]
    exact ⟨h, fun oid' _ => hd oid'⟩
  · rw [heq]
    refine ⟨h.setObserver ?_ ?_ ?_, hset d _ hd⟩
    · exact (h.rests oid).of_wired ((h.rests oid).wired.congr rfl rfl rfl rfl rfl) rfl rfl rfl rfl
    · have hp := h.placed oid
      cases oid with
      | root => exact hp
      | ofSeat r k => exact hp
    · rintro r k rfl hk
      rw [h.unborn r k hk]
  · obtain ⟨d', rep, ws, id, n, hmoves, hnext, hproc⟩ := processRequest_answered
      (E := fun _ => True) (O := fun o o' => o' = o.dispose) (L := fun _ => True) trivial h sys hq
    obtain ⟨ht', hd'⟩ := hmoves.keeps hK h hd
    rw [heq, hproc]
    refine ⟨ht'.setObserver (answered_rests (h.rests oid) hq rep ws id n) ?_ ?_, hset d' _ hd'⟩
    · have hp := h.placed oid
      cases oid with
      | root => exact hp
      | ofSeat r k => exact hp
    · rintro r k rfl hk
      have hborn := h.hears (by rw [hq]; rfl) r k rfl
      exact absurd (lt_of_lt_of_le hborn (hnext r)) (Nat.not_lt.mpr hk)

/-! ## The invariant over runs -/

/-- Every step keeps the invariant. -/
theorem step_tidy (h : d.Tidy) (st : DaemonStep) : (d.step st).Tidy := by
  have hK : Lasting fun _ => True := ⟨fun _ _ _ => trivial, fun _ _ => trivial, fun _ _ _ _ => trivial⟩
  cases hst : st.event.isManagers with
  | true => exact (step_keeps hK hst h fun _ => trivial).1
  | false =>
    obtain ⟨sys, event⟩ := st
    cases event with
    | clientAdded oid => exact h.serves (Observer.handleDbusClientAdded_serves _)
    | clientRemoved oid a => exact h.serves (Observer.handleDbusClientRemoved_serves _ a)
    | call oid a c => exact h.serves (Observer.handleCall_serves (h.rests oid) a c)
    | idle oid => exact (idle_keeps hK h (fun _ => trivial) sys oid).1
    | sighup config => exact h.congr rfl rfl
    | _ => cases hst

/-- Every state of a run is tidy. -/
theorem run_tidy (config : Config) (initialUser : Option String) (sts : List DaemonStep) :
    ((Daemon.new config initialUser).run sts).Tidy := by
  have hstep : ∀ (d : Daemon) (st : DaemonStep), True → d.Tidy → (d.step st).Tidy :=
    fun _ st _ h => step_tidy h st
  exact (always_of_step hstep (tidy_new config initialUser) fun _ _ => trivial).last

end Daemon

end Tlm
