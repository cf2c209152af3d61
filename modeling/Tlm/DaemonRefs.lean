import Tlm.DaemonReplies

/-!
# The references an observer holds on seats

A request holds its seat in two ways. The observer registers a **weak**
notification, `_on_seat_dispose`, so that it forgets the seat when the seat dies;
and `_process_request` may take a **strong** reference, with `g_object_ref`. Both
are booked here, per observer.

The references come from four places and go in one:

* an observer created for a seat registers one notification for its lifetime;
* a seat looked up in the manager's table is connected and gets a notification
  for the time of the request, and no strong reference;
* the observer's own seat, which overrides whatever the request says, gets a
  strong reference and no notification;
* `_create_request` would register a notification, but is never given a seat;
* `_dispose_request` removes one notification, whoever registered it, and gives
  no reference back.

So the books balance for requests that go through the manager's table. A request
on the observer's own seat leaves a strong reference behind, for ever, and takes
away the notification that the observer registered for itself
(`run_balanced`).
-/

namespace Tlm

namespace Daemon

variable {d : Daemon} {oid : ObserverId} {q : DbusRequest} {rest : List Request}

/-- The reference `_process_request` takes with `g_object_ref`, and the one it
gives back with `g_object_unref`, for the request it takes off the queue. -/
def refTaken (d : Daemon) (oid : ObserverId) : Option (SeatRef × Option SeatRef) :=
  let o := d.observers oid
  match o.activeRequest, o.requestQueue with
  | none, some (req :: _) =>
    match req.dbusRequest with
    | none => none
    | some q =>
      if !o.isRequestSupported q.type then none
      else match d.resolveSeat oid req q with
        | (_, _, none) => none
        | (_, req, some r) => if req.seat = some r then none else some (r, req.seat)
  | _, _ => none

/-- The daemon with the books of its observers. -/
structure Books where
  daemon : Daemon
  /-- how many of the references taken on a seat for requests of an observer have
  not been given back -/
  strong : ObserverId → SeatRef → ℤ := fun _ _ => 0

namespace Books

/-- Book a reference taken, and one given back. -/
def exchange (strong : SeatRef → ℤ) (r : SeatRef) (old : Option SeatRef) : SeatRef → ℤ := fun r' =>
  strong r' + (if r' = r then 1 else 0) - (if old = some r' then 1 else 0)

/-- One step of the daemon, with the books kept. -/
def step (b : Books) (st : DaemonStep) : Books where
  daemon := b.daemon.step st
  strong := match st.event with
    | .idle oid =>
      if (b.daemon.observers oid).requestId = 0 then b.strong
      else match b.daemon.refTaken oid with
        | none => b.strong
        | some (r, old) => Function.update b.strong oid (exchange (b.strong oid) r old)
    | _ => b.strong

/-- A daemon that has just come up. -/
def new (config : Config) (initialUser : Option String) : Books :=
  { daemon := Daemon.new config initialUser }

/-- The weak notifications of an observer on a seat. -/
def weak (b : Books) (oid : ObserverId) (r : SeatRef) : ℕ :=
  (b.daemon.observers oid).weakRefs.count r

/-- **A request restores the books**: an idle source that takes a request up, and
has disposed of it when it returns, leaves the strong references and the weak
notifications of its observer as they were. -/
def Restores (b : Books) (st : DaemonStep) : Prop :=
  ∀ oid, st.event = .idle oid →
    ∀ r, (b.step st).strong oid r = b.strong oid r ∧ (b.step st).weak oid r = b.weak oid r

/-- An observer created for a seat has its one notification on it, as long as it
has the seat; others have none. -/
def Kept (b : Books) : Prop := ∀ oid, (b.daemon.observers oid).weakRefs =
  (b.daemon.observers oid).seat.toList

end Books

/-- The idle source of an observer with a seat of its own takes a request up. -/
def TakesOwn (d : Daemon) (oid : ObserverId) : Prop :=
  (d.observers oid).requestId ≠ 0 ∧ (d.observers oid).seat ≠ none ∧
    (d.observers oid).requestQueue.getD [] ≠ []

/-! ## What a request takes -/

/-- Only the observer's own seat is referenced. -/
theorem refTaken_eq (h : d.Tidy)
    (hq : (d.observers oid).requestQueue = some ({ dbusRequest := some q } :: rest)) :
    d.refTaken oid = (d.observers oid).seat.map fun r => (r, none) := by
  have hactive := (h.rests oid).active
  obtain ⟨hsupp, -⟩ := (h.rests oid).head hq
  simp only [refTaken, hactive, hq, hsupp, resolveSeat]
  rcases hs : (d.observers oid).seat with _ | r
  · cases hm : (d.observers oid).manager with
    | false => simp
    | true => rcases q.seatId.bind d.getSeat with _ | r <;> simp
  · simp

/-- The books say what happens: the request is handed to a seat that got a
reference if one is booked, and to a seat that did not if none is. -/
theorem processRequest_refTaken (h : d.Tidy) (sys : Sys) (r : SeatRef)
    (ht : d.target oid q = some r)
    (hq : (d.observers oid).requestQueue = some ({ dbusRequest := some q } :: rest)) :
    ∃ o, d.processRequest sys oid =
      ((if d.refTaken oid = none then d else d.onSeat sys r .ref).handOver sys r q).setObserver
        oid o := by
  rw [refTaken_eq h hq]
  obtain ⟨ht', -⟩ | ⟨r', hown, ht', heq⟩ | ⟨r', hown, -, -, ht', heq⟩ := processRequest_eq h sys hq
  · cases ht'.symm.trans ht
  · obtain rfl : r' = r := Option.some.inj (ht'.symm.trans ht)
    have hown' : (d.observers oid).seat = some r' := hown
    rw [hown', Option.map_some, if_neg (Option.some_ne_none _)]
    exact ⟨_, heq⟩
  · obtain rfl : r' = r := Option.some.inj (ht'.symm.trans ht)
    have hown' : (d.observers oid).seat = none := hown
    rw [hown', Option.map_none, if_pos rfl]
    exact ⟨_, heq⟩

end Daemon

namespace Observer

/-! ## What an observer keeps -/

/-- Aborting a request removes a notification on its seat, if it has one. -/
theorem clearRequest_weakRefs (o : Observer) (req : Request) :
    (o.clearRequest req).weakRefs.Sublist o.weakRefs ∧ (o.clearRequest req).seat = o.seat := by
  obtain ⟨_ | q, _ | r⟩ := req
  · exact ⟨.refl _, rfl⟩
  · exact ⟨List.erase_sublist, rfl⟩
  · exact ⟨.refl _, rfl⟩
  · exact ⟨List.erase_sublist, rfl⟩

theorem foldl_clearRequest_weakRefs (reqs : List Request) (o : Observer) :
    (reqs.foldl clearRequest o).weakRefs.Sublist o.weakRefs ∧
      (reqs.foldl clearRequest o).seat = o.seat := by
  induction reqs generalizing o with
  | nil => exact ⟨.refl _, rfl⟩
  | cons req reqs ih =>
    obtain ⟨hsub, hseat⟩ := ih (o.clearRequest req)
    obtain ⟨hsub', hseat'⟩ := o.clearRequest_weakRefs req
    exact ⟨hsub.trans hsub', hseat.trans hseat'⟩

theorem stopDbusServer_weakRefs (o : Observer) :
    o.stopDbusServer.weakRefs.Sublist o.weakRefs ∧ o.stopDbusServer.seat = o.seat := by
  have hactive : (o.activeRequest.elim o o.clearRequest).weakRefs.Sublist o.weakRefs ∧
      (o.activeRequest.elim o o.clearRequest).seat = o.seat := by
    rcases o.activeRequest with _ | req
    · exact ⟨.refl _, rfl⟩
    · exact o.clearRequest_weakRefs req
  obtain ⟨hsub, hseat⟩ := foldl_clearRequest_weakRefs
    ((o.activeRequest.elim o o.clearRequest).requestQueue.getD [])
    { o.activeRequest.elim o o.clearRequest with activeRequest := none }
  exact ⟨hsub.trans hactive.1, hseat.trans hactive.2⟩

/-- A disposed observer has removed its own notification. -/
theorem dispose_weakRefs {o : Observer} (ho : o.weakRefs = o.seat.toList) :
    o.dispose.weakRefs = [] := by
  obtain ⟨hsub, hseat⟩ := stopDbusServer_weakRefs { o with requestId := 0 }
  have hsub' : (stopDbusServer { o with requestId := 0 }).weakRefs.Sublist o.seat.toList :=
    ho ▸ hsub
  simp only [dispose, hseat]
  rcases hs : o.seat with _ | r
  · rw [hs] at hsub'
    exact List.sublist_nil.mp hsub'
  · rw [hs] at hsub'
    rcases List.sublist_singleton.mp hsub' with heq | heq
    · simp [heq]
    · simp [heq]

end Observer

namespace Daemon

variable {d : Daemon} {oid : ObserverId} {q : DbusRequest} {rest : List Request}

theorem lasting_kept : Lasting fun o => o.weakRefs = o.seat.toList := by
  refine ⟨fun _ _ _ => rfl, ?_, ?_⟩
  · intro o ho
    rw [Observer.dispose_weakRefs ho]
    rfl
  · intro o r hr ho
    rcases Observer.onSeatDispose_eq hr r with heq | heq
    · rw [heq]
      exact ho
    · rw [heq]
      change o.weakRefs.filter (· ≠ r) = (if o.seat = some r then none else o.seat).toList
      rw [ho]
      rcases o.seat with _ | r'
      · rfl
      · by_cases hr' : r' = r
        · simp [hr']
        · simp [hr']

/-- What an idle source does to the notifications: nothing, or it takes away the
observer's own. -/
theorem idle_weakRefs (h : d.Tidy) (sys : Sys)
    (hk : (d.observers oid).weakRefs = (d.observers oid).seat.toList) :
    let o := d.observers oid
    let o' := (d.step ⟨sys, .idle oid⟩).observers oid
    o'.seat = o.seat ∧ ((¬ d.TakesOwn oid ∧ o'.weakRefs = o.weakRefs) ∨
      (d.TakesOwn oid ∧ ∃ r, o.seat = some r ∧ o'.weakRefs = [])) := by
  intro o o'
  have hnil : ∀ r, o.seat = none → (o.weakRefs ++ [r]).erase r = o.weakRefs := by
    intro r hs
    rw [hk, hs]
    simp
  have ho' : o' = (d.step ⟨sys, .idle oid⟩).observers oid := rfl
  rcases idle_cases h sys oid with ⟨hid, heq⟩ | ⟨hq, heq⟩ | ⟨q, rest, hid, hq, heq⟩
  · rw [ho', heq]
    exact ⟨rfl, Or.inl ⟨fun ht => ht.1 hid, rfl⟩⟩
  · rw [ho', heq, setObserver_observers]
    exact ⟨rfl, Or.inl ⟨fun ht => ht.2.2 hq, rfl⟩⟩
  · rw [ho', heq]
    have hfree : o.seat = none → ¬ d.TakesOwn oid := fun hs ht => ht.2.1 hs
    obtain ⟨ht, hproc⟩ | ⟨r, hown, -, hproc⟩ | ⟨r, hown, -, -, -, -, hproc⟩ |
      ⟨r, code, hown, -, -, -, -, hproc⟩ := processRequest_cases h sys hq
    · rw [hproc, setObserver_observers]
      have hs : o.seat = none := by
        rcases hs : o.seat with _ | r
        · rfl
        · rw [target, hs] at ht
          cases ht
      exact ⟨rfl, Or.inl ⟨hfree hs, rfl⟩⟩
    · rw [hproc, setObserver_observers]
      have hs : o.seat = some r := hown
      refine ⟨rfl, Or.inr ⟨⟨hid, ?_, ?_⟩, r, hs, ?_⟩⟩
      · exact hs ▸ Option.some_ne_none r
      · rw [hq]
        exact List.cons_ne_nil _ _
      · change o.weakRefs.erase r = []
        rw [hk, hs]
        simp
    · rw [hproc, setObserver_observers]
      exact ⟨rfl, Or.inl ⟨hfree hown, hnil r hown⟩⟩
    · obtain ⟨id, n, hnext⟩ := Observer.processNextRequestInIdle_frame
        { (popped (d.observers oid) rest).reply q.invocation (.error code) with
          weakRefs := ((popped (d.observers oid) rest).weakRefs ++ [r]).erase r }
      rw [hproc, setObserver_observers, hnext]
      exact ⟨rfl, Or.inl ⟨hfree hown, hnil r hown⟩⟩

theorem idle_kept (h : d.Tidy) (sys : Sys)
    (hk : (d.observers oid).weakRefs = (d.observers oid).seat.toList) :
    ((d.step ⟨sys, .idle oid⟩).observers oid).weakRefs =
        ((d.step ⟨sys, .idle oid⟩).observers oid).seat.toList ↔ ¬ d.TakesOwn oid := by
  obtain ⟨hseat, ⟨hn, hw⟩ | ⟨ht, r, hs, hw⟩⟩ := idle_weakRefs h sys hk
  · rw [hseat, hw]
    exact ⟨fun _ => hn, fun _ => hk⟩
  · rw [hseat, hw, hs]
    exact ⟨fun hc => (by cases hc), fun hn => absurd ht hn⟩

/-- A notification is kept exactly as long as no observer takes up a request for
its own seat. -/
theorem run_kept (config : Config) (initialUser : Option String) (sts : List DaemonStep) :
    Always step (fun d => ∀ oid, (d.observers oid).weakRefs = (d.observers oid).seat.toList)
        (Daemon.new config initialUser) sts ↔
      Along step (fun d st => ∀ oid, st.event = .idle oid → ¬ d.TakesOwn oid)
        (Daemon.new config initialUser) sts := by
  refine always_iff_along (E := fun _ => True) (I := Tidy) ?_ (tidy_new config initialUser) ?_
    fun _ _ => trivial
  · intro d st _ ht hk
    refine ⟨step_tidy ht st, ?_⟩
    have hexact := step_exact (B := fun _ _ _ => False) (C := fun d _ oid => d.TakesOwn oid)
      lasting_kept ?_ ?_ ?_ (fun d sys oid h hk => idle_kept h sys hk) ht hk st
    · exact hexact.trans ⟨fun h => h.2, fun h => ⟨fun _ _ _ _ hf => hf, h⟩⟩
    · intro o _ hk
      simp only [Observer.handleDbusClientAdded]
      split
      · exact hk
      · exact hk
    · intro o a _ hk
      simp only [Observer.handleDbusClientRemoved]
      split
      · exact hk
      · exact hk
    · intro o a c hr hk
      refine ⟨fun _ hf => hf, fun _ => ?_⟩
      rcases Observer.handleCall_cases hr.wired a c with
        ⟨-, heq⟩ | ⟨-, -, heq⟩ | ⟨-, -, -, heq⟩ | ⟨-, -, -, heq⟩
      · rw [heq]
        exact hk
      · rw [heq]
        exact hk
      · rw [heq]
        exact hk
      · obtain ⟨id, n, hadd⟩ := Observer.addRequest_eq { o with received := o.received + 1 }
          { dbusRequest := some (Observer.createDbusRequest a o.received c) }
        rw [heq, hadd]
        exact hk
  · rintro (_ | ⟨r, k⟩)
    · rfl
    · rfl

namespace Books

/-- A request that is not for the observer's own seat leaves the books as they
were. -/
theorem restores (b : Books) (h : b.daemon.Tidy) (hk : b.Kept) (st : DaemonStep)
    (hown : ∀ oid, st.event = .idle oid → ¬ b.daemon.TakesOwn oid) : b.Restores st := by
  obtain ⟨sys, event⟩ := st
  rintro oid rfl r
  have hfree := hown oid rfl
  constructor
  · simp only [step]
    split
    · rfl
    · rename_i hid
      rcases idle_cases h sys oid with ⟨hid', -⟩ | ⟨hq, -⟩ | ⟨q, rest, -, hq, -⟩
      · exact absurd hid' hid
      · have hnone : b.daemon.refTaken oid = none := by
          rcases hq' : (b.daemon.observers oid).requestQueue with _ | _ | ⟨req, rest⟩
          · simp [refTaken, hq']
          · simp [refTaken, hq']
          · simp [hq'] at hq
        rw [hnone]
      · have hs : (b.daemon.observers oid).seat = none := by
          by_contra hs
          exact hfree ⟨hid, hs, by rw [hq]; exact List.cons_ne_nil _ _⟩
        rw [refTaken_eq h hq, hs]
        rfl
  · obtain ⟨-, ⟨-, hw⟩ | ⟨ht, -⟩⟩ := idle_weakRefs h sys (hk oid)
    · exact congrArg (List.count r) hw
    · exact absurd ht hfree

/-- **Exactly when the books balance**: in a run every request leaves the strong
references and the weak notifications of its observer as they were, and every
observer created for a seat keeps its one notification, if and only if no
observer takes up a request for a seat of its own. -/
theorem run_balanced (config : Config) (initialUser : Option String) (sts : List DaemonStep) :
    Along step Restores (new config initialUser) sts ∧
        Always step Kept (new config initialUser) sts ↔
      Along step (fun b st => ∀ oid, st.event = .idle oid → ¬ b.daemon.TakesOwn oid)
        (new config initialUser) sts := by
  have hdaemon : ∀ (b : Books) (st : DaemonStep), b.daemon.step st = (b.step st).daemon :=
    fun _ _ => rfl
  have hkept : Always step Kept (new config initialUser) sts ↔ Along step
      (fun b st => ∀ oid, st.event = .idle oid → ¬ b.daemon.TakesOwn oid)
      (new config initialUser) sts := by
    have hrun := run_kept config initialUser sts
    rw [show Daemon.new config initialUser = (new config initialUser).daemon from rfl,
      always_map hdaemon, along_map hdaemon] at hrun
    exact hrun
  refine ⟨fun h => hkept.mp h.2, fun h => ⟨?_, hkept.mpr h⟩⟩
  have htidy : Always step (fun b => b.daemon.Tidy) (new config initialUser) sts := by
    have hstep : ∀ (b : Books) (st : DaemonStep), True → b.daemon.Tidy → (b.step st).daemon.Tidy :=
      fun _ st _ h => step_tidy h st
    exact always_of_step hstep (tidy_new config initialUser) fun _ _ => trivial
  exact h.imp (htidy.and (hkept.mpr h)) fun b st hb hown => restores b hb.1 hb.2 st hown

/-- A login on `seat0` that comes up, and a logout on the socket of its session. -/
def sessionLogout : List DaemonStep :=
  let login : Call := { type := .loginUser, seatId := some "seat0", username := some "bob",
                        password := some "secret" }
  let logout : Call := { type := .logoutUser, seatId := some "seat0" }
  rootCall login ++
    [⟨{ now := 5000000, getUid := fun _ => some 1000 }, .idle .root⟩,
      ⟨{}, .clientAdded (.ofSeat 0 0)⟩, ⟨{}, .call (.ofSeat 0 0) 0 logout⟩,
      ⟨{}, .idle (.ofSeat 0 0)⟩]

/-- The observer of the session is left with a reference on the seat that nobody
gives back, and without the notification it was created with. -/
theorem logout_unbalanced :
    ¬ (Along step Restores (new quietConfig none) sessionLogout ∧
        Always step Kept (new quietConfig none) sessionLogout) ∧
      (sessionLogout.foldl step (new quietConfig none)).strong (.ofSeat 0 0) 0 = 1 := by
  refine ⟨fun h => ?_, by decide⟩
  have hlast := h.2.last (.ofSeat 0 0)
  exact absurd hlast (by decide)

end Books

end Daemon

end Tlm
