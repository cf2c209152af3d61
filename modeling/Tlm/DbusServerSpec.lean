import Tlm.DbusServer

/-!
# What follows a client to its end

`Tracks m owners s` says that a served observer `s` has done what `Nested` says an observer
does, is in the state `m`, and that the references to its adapters are those of the table and
of the `owners`: the adapters of the requests that are still to be dropped. Every function
keeps it. Inside of a function the owners are given by hand, because a request is dropped
before the observer has forgotten it; between the functions they are the `requesters` of the
observer.

The watches are part of it. They are up for the adapters of the table and for no other, and
so nobody is told of an adapter that goes when its last request does (`Tracks.unref`).
-/

namespace Tlm

open Observer LinkedQueue

/-- The adapter a request came through, if it still has its invocation. -/
def Request.requester (req : Request) : List AdapterRef :=
  req.dbusRequest.toList.map DbusRequest.dbusAdapter

/-- The adapters of all requests, queued or active. -/
def Observer.requesters (o : Observer) : List AdapterRef :=
  (o.requestQueue.getD []).flatMap Request.requester ++
    o.activeRequest.toList.flatMap Request.requester

namespace Observer

/-- From `o` to `o'` the clients are the same, with no more handlers than before. -/
structure SameClients (o o' : Observer) : Prop where
  adapters : o'.adapters = o.adapters
  clients : o'.clients = o.clients
  flags : o'.enableFlags = o.enableFlags
  serving : o'.requestQueue.isSome = o.requestQueue.isSome
  handlers : ∀ a, (o'.handlers a).Sublist (o.handlers a)

variable {o o' o'' : Observer} {req : Request}

theorem SameClients.trans (h : SameClients o o') (h' : SameClients o' o'') :
    SameClients o o'' :=
  ⟨h'.adapters.trans h.adapters, h'.clients.trans h.clients, h'.flags.trans h.flags,
    h'.serving.trans h.serving, fun a => (h'.handlers a).trans (h.handlers a)⟩

/-- All that is about clients is untouched. -/
theorem SameClients.of_eq (h₁ : o'.adapters = o.adapters) (h₂ : o'.clients = o.clients)
    (h₃ : o'.enableFlags = o.enableFlags) (h₄ : o'.requestQueue.isSome = o.requestQueue.isSome)
    (h₅ : o'.handlers = o.handlers) : SameClients o o' :=
  ⟨h₁, h₂, h₃, h₄, fun a => by rw [h₅]⟩

theorem completeDbusRequest_sameClients (d : Option DbusRequest) (error : Option ℤ) :
    SameClients o (o.completeDbusRequest d error) := by
  rw [completeDbusRequest_eq]
  exact .of_eq rfl rfl rfl rfl rfl

theorem processNextRequestInIdle_sameClients : SameClients o o.processNextRequestInIdle := by
  obtain ⟨id, n, heq⟩ := processNextRequestInIdle_frame o
  rw [heq]
  exact .of_eq rfl rfl rfl rfl rfl

theorem onSeatDispose_sameClients (r : SeatRef) : SameClients o (o.onSeatDispose r) := by
  simp only [onSeatDispose]
  split
  · exact .of_eq rfl rfl rfl rfl rfl
  · exact .of_eq rfl rfl rfl rfl rfl

theorem disconnectDbusAdapter_sameClients (a : AdapterRef) :
    SameClients o (o.disconnectDbusAdapter a) := by
  refine ⟨rfl, rfl, rfl, rfl, fun a' => ?_⟩
  simp only [disconnectDbusAdapter, Function.update_apply]
  split
  · subst a'
    exact List.filter_sublist
  · exact .refl _

end Observer

namespace Served

/-- What `s` has in common with the state `m` of an observer that knows nothing of
references. -/
structure Tracks (m : Nested) (owners : List AdapterRef) (s : Served) : Prop where
  nested : s.nested = m
  table : s.table = m.observer.adapters
  nodup : m.observer.adapters.Nodup
  known : ∀ a ∈ m.observer.adapters ++ owners ++ s.adapters.gone, a < m.observer.clients
  handlers : ∀ a, a ∉ m.observer.adapters → m.observer.handlers a = []
  supported : ∀ a, ∀ t ∈ m.observer.handlers a, m.observer.isRequestSupported t = true
  backs : s.adapters.Backs (m.observer.adapters ++ owners)
  once : s.adapters.GoOnce
  /-- no adapter is left behind -/
  kept : ∀ a < m.observer.clients, a ∈ s.adapters.gone ∨ a ∈ m.observer.adapters ++ owners
  running : s.loginObjectAdapters.isSome = m.observer.requestQueue.isSome
  closed : s.closed = m.observer.adapters
  serverWatch : s.serverWatch = m.observer.adapters
  observerWatch : s.observerWatch = m.observer.adapters
  loginObjectDisposed : s.loginObjectDisposed = []
  dbusAdapterDisposed : ∀ p ∈ s.dbusAdapterDisposed, p.2 = []
  /-- the observer is told of an adapter when it goes, and only after the server was stopped -/
  told : (s.dbusAdapterDisposed.map Prod.fst).Sublist s.adapters.gone
  untold : s.loginObjectAdapters.isSome = true → s.dbusAdapterDisposed = []
  /-- there is no queue any more when it is told -/
  walked : ∀ p ∈ s.walked, p.2 = []

variable {m m' : Nested} {s : Served} {owners owners' : List AdapterRef} {a : AdapterRef}
  {o' : Observer} {req : Request}

/-! ## The loop over the links -/

/-- Disposing of requests is nothing to the queue. -/
theorem foldl_disposeRequest_on (queue : Option (List Request)) (reqs : List Request)
    (o : Observer) :
    reqs.foldl Observer.disposeRequest { o with requestQueue := queue } =
      { reqs.foldl Observer.disposeRequest o with requestQueue := queue } := by
  induction reqs generalizing o with
  | nil => rfl
  | cons req reqs ih =>
    have hfirst : Observer.disposeRequest { o with requestQueue := queue } req =
        { o.disposeRequest req with requestQueue := queue } := by
      obtain ⟨_ | d, _ | r⟩ := req <;> rfl
    rw [List.foldl_cons, hfirst, ih]
    rfl

/-- What becomes of the active request is nothing to the queue either. -/
theorem removeActive_requestQueue (dead : AdapterRef) (o : Observer) :
    (removeActive dead o).requestQueue = o.requestQueue := by
  simp only [removeActive]
  split
  · rfl
  split
  swap
  · rfl
  rename_i req _ _
  obtain ⟨id, n, hnext⟩ := processNextRequestInIdle_frame
    { o.disposeRequest req with activeRequest := none, requestId := 0 }
  obtain ⟨cs, ws, hd, -⟩ := disposeRequest_eq o req
  rw [hnext, hd]

/-- **What `_on_dbus_adapter_dispose` does to the links of the queue**, wherever they are in
memory. The loop comes to its end, and what it has done to the observer is what
`onDbusAdapterDispose` says. The links that are left hold the queue as it is afterwards, and
the header tells of them exactly if no request was removed. -/
theorem onDbusAdapterDispose_removeDead (s : Served) (dead : AdapterRef) {q : RequestQueue}
    (hq : q.requests = s.observer.requestQueue.getD []) :
    ∃ r, (∀ fuel > q.requests.length,
        q.removeDead (s.observer.disconnectDbusAdapter dead) dead fuel = some r) ∧
      (s.onDbusAdapterDispose dead).observer = removeActive dead { r.observer with
        requestQueue := s.observer.requestQueue.map (·.filter fun req => !ofAdapter dead req) } ∧
      (∃ cells, Linked r.heap none cells none ∧ r.head = firstOf cells none ∧
        cells.map Prod.snd = (s.onDbusAdapterDispose dead).observer.requestQueue.getD []) ∧
      (LeavesQueueIntact q (s.observer.disconnectDbusAdapter dead) dead ↔ r.disposed = []) := by
  obtain ⟨r, hrun, hlinked, hhead, hdisposed, hobserver⟩ :=
    q.removeDead_spec (s.observer.disconnectDbusAdapter dead) dead
  have hsame : (s.onDbusAdapterDispose dead).observer = removeActive dead { r.observer with
      requestQueue := s.observer.requestQueue.map (·.filter fun req => !ofAdapter dead req) } := by
    rw [hobserver, hq, ← foldl_disposeRequest_on]
    rfl
  refine ⟨r, hrun, hsame, ⟨_, hlinked, hhead, ?_⟩, ?_⟩
  · have hrest : (others dead q.cells).map Prod.snd =
        q.requests.filter fun req => !ofAdapter dead req := by
      rw [RequestQueue.requests, List.filter_map]
      rfl
    rw [hrest, hsame, removeActive_requestQueue, hq]
    cases s.observer.requestQueue <;> rfl
  · rw [queueIntact_iff, hdisposed, List.filter_eq_nil_iff]
    simp only [Bool.not_eq_true]

/-! ## Inside of a function -/

theorem Tracks.observer_eq (h : Tracks m owners s) : s.observer = m.observer := by
  rw [observer, h.nested]

theorem Tracks.perm (h : Tracks m owners s) (hp : owners.Perm owners') : Tracks m owners' s :=
  { h with
    known := fun a ha => h.known a (by simpa [hp.mem_iff] using ha)
    backs := h.backs.perm (hp.append_left _)
    kept := fun a ha => by simpa [hp.mem_iff] using h.kept a ha }

/-- What leaves the clients alone, the references do not notice. -/
theorem Tracks.moved (h : Tracks m owners s) (hm : SameClients m.observer m'.observer) :
    Tracks m' owners { s with nested := m' } where
  nested := rfl
  table := h.table.trans hm.adapters.symm
  nodup := hm.adapters ▸ h.nodup
  known := by rw [hm.adapters, hm.clients]; exact h.known
  handlers := fun a ha => by
    rw [hm.adapters] at ha
    exact List.sublist_nil.mp (h.handlers a ha ▸ hm.handlers a)
  supported := fun a t ht => by
    rw [isRequestSupported, hm.flags]
    exact h.supported a t ((hm.handlers a).subset ht)
  backs := by rw [hm.adapters]; exact h.backs
  once := h.once
  kept := by rw [hm.adapters, hm.clients]; exact h.kept
  running := h.running.trans hm.serving.symm
  closed := h.closed.trans hm.adapters.symm
  serverWatch := h.serverWatch.trans hm.adapters.symm
  observerWatch := h.observerWatch.trans hm.adapters.symm
  loginObjectDisposed := h.loginObjectDisposed
  dbusAdapterDisposed := h.dbusAdapterDisposed
  told := h.told
  untold := h.untold
  walked := h.walked

theorem Tracks.on (h : Tracks m owners s) (ho : SameClients m.observer o') :
    Tracks (m.on o') owners (s.on o') := by
  rw [Served.on, h.nested]
  exact h.moved ho

theorem disposeAdapter_of_unwatched (hs : a ∉ s.serverWatch) (ho : a ∉ s.observerWatch) :
    s.disposeAdapter a =
      s.on { s.observer with handlers := Function.update s.observer.handlers a [] } := by
  simp [disposeAdapter, Served.on, hs, ho]

/-- **A reference is dropped.** If it was the last one, the adapter is not in the table, and
nobody watches. -/
theorem Tracks.unref (h : Tracks m (a :: owners) s) : Tracks m owners (s.unref a) := by
  have hbacks : s.adapters.Backs (a :: (m.observer.adapters ++ owners)) :=
    h.backs.perm List.perm_middle
  have hknown : ∀ b ∈ m.observer.adapters ++ owners ++ (s.adapters.release a).gone,
      b < m.observer.clients := by
    intro b hb
    apply h.known
    simp only [References.release] at hb
    split at hb
    · simpa [or_assoc, or_comm, or_left_comm] using hb
    · simp only [List.mem_append, List.mem_cons] at hb ⊢
      tauto
  have htold : s.adapters.gone.Sublist (s.adapters.release a).gone := by
    simp only [References.release]
    split
    · exact List.sublist_append_left _ _
    · exact .refl _
  have hreleased : Tracks m owners { s with adapters := s.adapters.release a } := by
    refine { h with
      known := hknown, backs := hbacks.release, once := h.once.release a
      kept := fun b hb => ?_, told := h.told.trans htold }
    rcases h.kept b hb with hgone | hmem
    · exact .inl (htold.subset hgone)
    · by_cases hin : b ∈ m.observer.adapters ++ owners
      · exact .inr hin
      · refine .inl ?_
        have hba : b = a := by
          simp only [List.mem_append, List.mem_cons] at hmem hin
          tauto
        subst hba
        have hone : s.adapters.count b = 1 := hbacks.count_eq_one_iff.mpr hin
        simp [References.release, hone]
  simp only [Served.unref]
  split
  · rename_i hone
    have hnot : a ∉ m.observer.adapters := fun hin =>
      hbacks.count_eq_one_iff.mp hone (List.mem_append_left _ hin)
    -- it has no handlers any more, and no watches
    have hhandlers : Function.update s.observer.handlers a [] = s.observer.handlers := by
      rw [Function.update_eq_self_iff, h.observer_eq, h.handlers a hnot]
    have hsame : { s.observer with handlers := Function.update s.observer.handlers a [] } =
        s.observer := by rw [hhandlers]
    have hdispose : disposeAdapter a { s with adapters := s.adapters.release a } =
        { s with adapters := s.adapters.release a } := by
      refine (disposeAdapter_of_unwatched (h.serverWatch ▸ hnot) (h.observerWatch ▸ hnot)).trans ?_
      exact congrArg (fun o => { s with adapters := s.adapters.release a, nested := s.nested.on o })
        hsame
    rw [hdispose]
    exact hreleased
  · exact hreleased

/-! ## Requests -/

theorem Tracks.completeDbusRequest {d : Option DbusRequest}
    (h : Tracks m (d.toList.map DbusRequest.dbusAdapter ++ owners) s) (error : Option ℤ) :
    Tracks (m.on (m.observer.completeDbusRequest d error)) owners
      (s.completeDbusRequest d error) := by
  have hreplied := h.on (completeDbusRequest_sameClients d error)
  rw [← h.observer_eq] at hreplied ⊢
  cases d with
  | none => exact hreplied
  | some d => exact hreplied.unref

theorem Tracks.disposeRequest (h : Tracks m (req.requester ++ owners) s) :
    Tracks (m.on (m.observer.disposeRequest req)) owners (s.disposeRequest req) := by
  have hd := h.completeDbusRequest none
  simp only [Served.disposeRequest, Observer.disposeRequest]
  rcases req.seat with _ | r
  · exact hd
  · change Tracks _ owners ((s.completeDbusRequest req.dbusRequest none).on _)
    rw [hd.observer_eq]
    exact hd.on (.of_eq rfl rfl rfl rfl rfl)

theorem Tracks.completeRequest (h : Tracks m (req.requester ++ owners) s) (error : Option ℤ) :
    Tracks (m.on (m.observer.completeRequest req error)) owners (s.completeRequest req error) := by
  have hd : Tracks _ (({ req with dbusRequest := none } : Request).requester ++ owners) _ :=
    h.completeDbusRequest error
  exact hd.disposeRequest

theorem Tracks.clearRequest (h : Tracks m (req.requester ++ owners) s) :
    Tracks (m.on (m.observer.clearRequest req)) owners (s.clearRequest req) :=
  h.completeRequest _

theorem Tracks.clearRequests {reqs : List Request}
    (h : Tracks m (reqs.flatMap Request.requester ++ owners) s) :
    Tracks (m.on (reqs.foldl Observer.clearRequest m.observer)) owners
      (reqs.foldl Served.clearRequest s) := by
  induction reqs generalizing m s with
  | nil => exact h
  | cons req reqs ih =>
    rw [List.flatMap_cons, List.append_assoc] at h
    exact ih h.clearRequest

theorem Tracks.completeActive (h : Tracks m (req.requester ++ owners) s) (error : Option ℤ) :
    Tracks (m.on (m.observer.completeActive req error)) owners (s.completeActive req error) := by
  have hc := h.completeRequest error
  have hidle : SameClients (m.observer.completeRequest req error)
      { m.observer.completeRequest req error with activeRequest := none } :=
    .of_eq rfl rfl rfl rfl rfl
  simp only [Served.completeActive]
  rw [hc.observer_eq]
  exact hc.on (hidle.trans processNextRequestInIdle_sameClients)

/-! ## Between functions -/

/-- The owners are the requests that the observer has. -/
def Follows (m : Nested) (s : Served) : Prop := Tracks m m.observer.requesters s

theorem Follows.on (h : Follows m s) (ho : SameClients m.observer o')
    (hr : o'.requesters = m.observer.requesters) : Follows (m.on o') (s.on o') := by
  have ht : Tracks (m.on o') m.observer.requesters (s.on o') := Tracks.on h ho
  rwa [← hr] at ht

/-- The active request is no longer among the owners once it is answered. -/
theorem requesters_completeActive {o : Observer} (ha : o.activeRequest = some req)
    (error : Option ℤ) :
    o.requesters.Perm (req.requester ++ (o.completeActive req error).requesters) := by
  obtain ⟨cs, ws, hc, -⟩ := completeRequest_eq o req error
  obtain ⟨id, n, hnext⟩ := processNextRequestInIdle_frame
    { o.completeRequest req error with activeRequest := none }
  have hqueue : (o.completeActive req error).requesters =
      (o.requestQueue.getD []).flatMap Request.requester := by
    rw [Observer.completeActive, hnext, hc]
    exact List.append_nil _
  have hall : o.requesters =
      (o.requestQueue.getD []).flatMap Request.requester ++ req.requester := by
    rw [Observer.requesters, ha]
    simp
  rw [hall, hqueue]
  exact List.perm_append_comm

theorem Follows.completeActive (h : Follows m s) (ha : m.observer.activeRequest = some req)
    (error : Option ℤ) :
    Follows (m.on (m.observer.completeActive req error)) (s.completeActive req error) :=
  Tracks.completeActive (Tracks.perm h (requesters_completeActive ha error)) error

theorem Follows.handleSeatSignal (h : Follows m s) (g : SeatSignal) :
    Follows (m.on (m.observer.handleSeatSignal g)) (s.handleSeatSignal g) := by
  simp only [Served.handleSeatSignal, Observer.handleSeatSignal, h.observer_eq]
  rcases ha : m.observer.activeRequest with _ | ⟨d, seat⟩
  · exact h
  cases g with
  | created =>
    rcases d with _ | d
    · exact h
    · by_cases ht : d.type = .logoutUser
      · simp only [ht, if_true]
        exact h
      · simp only [ht, if_false]
        exact h.completeActive ha none
  | terminated =>
    rcases d with _ | d
    · exact h
    · by_cases ht : d.type = .logoutUser
      · have hd := h.on (disconnectDbusAdapter_sameClients d.dbusAdapter) rfl
        simp only [ht, ne_eq, not_true_eq_false, if_false]
        exact hd.completeActive ha none
      · simp only [ht, ne_eq, not_false_eq_true, if_true]
        exact h
  | error code => exact h.completeActive ha (some code)

theorem Follows.onSeatSignal (h : Follows m s) (r : SeatRef) (g : SeatSignal) :
    Follows (m.on (m.observer.onSeatSignal r g)) (s.onSeatSignal r g) := by
  simp only [Served.onSeatSignal, Observer.onSeatSignal, h.observer_eq]
  generalize m.observer.connected.filter (· = r) = rs
  induction rs generalizing m s with
  | nil => exact h
  | cons r' rs ih =>
    rw [List.foldl_cons, List.foldl_cons, h.observer_eq]
    split
    · exact ih (h.handleSeatSignal g)
    · exact ih h

theorem Follows.emits (h : Follows m s) (seat : Option SeatRef) (signals : List SeatSignal) :
    Follows (m.on (Nested.emits seat signals m.observer)) (s.emits seat signals) := by
  rcases seat with _ | r
  · exact h
  simp only [Served.emits, Nested.emits]
  induction signals generalizing m s with
  | nil => exact h
  | cons g signals ih => exact ih (h.onSeatSignal r g)

/-! ## The idle source -/

theorem Follows.finish (h : Follows m s) : Follows m.finish s.finish := by
  have hsettled : ∀ {m' : Nested} {s' : Served},
      Tracks m' (m.observer.requestQueue.getD [] |>.flatMap Request.requester) s' →
      m'.observer.requestQueue = m.observer.requestQueue →
      Follows (m'.on { m'.observer with activeRequest := none })
        (s'.on { s'.observer with activeRequest := none }) := by
    intro m' s' ht hq
    have hnone : Tracks (m'.on { m'.observer with activeRequest := none }) _
        (s'.on { m'.observer with activeRequest := none }) := ht.on (.of_eq rfl rfl rfl rfl rfl)
    rw [ht.observer_eq]
    refine Tracks.perm hnone ?_
    simp [requesters, Nested.on, hq]
  simp only [Served.finish, Nested.finish, Daemon.settle, h.observer_eq]
  rcases ha : m.observer.activeRequest with _ | req
  · refine hsettled ?_ rfl
    simpa [Follows, requesters, ha] using h
  · have howners : m.observer.requesters.Perm
        (req.requester ++ (m.observer.requestQueue.getD []).flatMap Request.requester) := by
      rw [requesters, ha]
      simpa using List.perm_append_comm
    obtain ⟨cs, ws, hd, -⟩ := disposeRequest_eq m.observer req
    refine hsettled (Tracks.perm h howners).disposeRequest ?_
    simp only [Nested.on]
    rw [hd]

theorem Follows.processActive (h : Follows m s) (op : Op) :
    Follows (m.processActive op) (s.processActive op) := by
  obtain rfl := h.nested
  simp only [Served.processActive, Nested.processActive, Served.observer]
  rcases ha : s.nested.observer.activeRequest with _ | ⟨_ | q, seat⟩
  · exact h
  · exact h.finish
  · have hcalled : Follows { s.nested with calls := s.nested.calls ++ [q] }
        { s with nested := { s.nested with calls := s.nested.calls ++ [q] } } :=
      Tracks.moved h (.of_eq rfl rfl rfl rfl rfl)
    dsimp only
    cases op.on q seat with
    | refused => exact h.finish
    | returns signals => exact (hcalled.emits seat signals).finish
    | waits error => exact Tracks.moved h (.of_eq rfl rfl rfl rfl rfl)

/-- Everything `_process_request` can do with the request at the head of the queue: it is
answered, or it becomes the active one and is carried out. -/
theorem processRequest_take {q : DbusRequest} {rest : List Request}
    (ha : s.observer.activeRequest = none) (hq : s.observer.requestQueue = some (req :: rest))
    (hreq : req.dbusRequest = some q) (getSeat : String → Option SeatRef) (op : Op) :
    ∃ o', SameClients s.observer o' ∧ o'.requestQueue = some rest ∧
      ((o'.activeRequest = none ∧ ∃ code,
          s.nested.processRequest getSeat op = s.nested.on (o'.completeRequest req (some code)) ∧
          s.processRequest getSeat op = (s.on o').completeRequest req (some code)) ∨
        ((∃ r, o'.activeRequest = some { req with seat := some r }) ∧
          s.nested.processRequest getSeat op = (s.nested.on o').processActive op ∧
          s.processRequest getSeat op = (s.on o').processActive op)) := by
  obtain ⟨_, seat⟩ := req
  obtain rfl := hreq
  simp only [Served.observer] at ha hq ⊢
  have hsame : ∀ o' : Observer, o'.adapters = s.nested.observer.adapters →
      o'.clients = s.nested.observer.clients → o'.enableFlags = s.nested.observer.enableFlags →
      o'.requestQueue = some rest → o'.handlers = s.nested.observer.handlers →
      SameClients s.nested.observer o' :=
    fun o' h₁ h₂ h₃ h₄ h₅ => .of_eq h₁ h₂ h₃ (by rw [h₄, hq]; rfl) h₅
  simp only [Served.processRequest, Nested.processRequest, Served.observer, ha, hq,
    Option.isSome_none, Bool.false_eq_true, if_false]
  simp only [isRequestSupported]
  by_cases hs : s.nested.observer.enableFlags &&& q.type.flag = 0
  · simp only [hs, ne_eq, not_true_eq_false, decide_false, Bool.not_false, if_true]
    refine ⟨_, ?_, ?_, .inl ⟨?_, _, rfl, rfl⟩⟩
    · exact hsame _ rfl rfl rfl rfl rfl
    · rfl
    · rfl
  simp only [hs, ne_eq, not_false_eq_true, decide_true, Bool.not_true, Bool.false_eq_true, if_false]
  rcases s.nested.observer.seat with _ | r
  · by_cases hm : s.nested.observer.manager = true
    swap
    · simp only [hm, Bool.false_eq_true, if_false]
      refine ⟨_, ?_, ?_, .inl ⟨?_, _, rfl, rfl⟩⟩
      · exact hsame _ rfl rfl rfl rfl rfl
      · rfl
      · rfl
    simp only [hm, if_true]
    rcases q.seatId.bind getSeat with _ | r
    · refine ⟨_, ?_, ?_, .inl ⟨?_, _, rfl, rfl⟩⟩
      · exact hsame _ rfl rfl rfl rfl rfl
      · rfl
      · rfl
    · refine ⟨_, ?_, ?_, .inr ⟨⟨r, ?_⟩, rfl, rfl⟩⟩
      · exact hsame _ rfl rfl rfl rfl rfl
      · rfl
      · rfl
  · refine ⟨_, ?_, ?_, .inr ⟨⟨r, ?_⟩, rfl, rfl⟩⟩
    · exact hsame _ rfl rfl rfl rfl rfl
    · rfl
    · rfl

theorem Follows.processRequest (h : Follows m s) (getSeat : String → Option SeatRef) (op : Op) :
    Follows (m.processRequest getSeat op) (s.processRequest getSeat op) := by
  obtain rfl := h.nested
  have hidle : Follows (s.nested.on { s.nested.observer with requestId := 0 })
      (s.on { s.nested.observer with requestId := 0 }) := h.on (.of_eq rfl rfl rfl rfl rfl) rfl
  rcases ha : s.observer.activeRequest with _ | active
  swap
  · have hsome : s.nested.observer.activeRequest.isSome = true := Option.isSome_of_eq_some ha
    simp only [Served.processRequest, Nested.processRequest, Served.observer, hsome, if_true]
    exact hidle.processActive op
  rcases hq : s.observer.requestQueue with _ | _ | ⟨req, rest⟩
  · simp only [Served.observer] at ha hq
    simp only [ha, hq] at hidle
    simp only [Served.processRequest, Nested.processRequest, Served.observer, ha, hq]
    exact hidle
  · simp only [Served.observer] at ha hq
    simp only [ha, hq] at hidle
    simp only [Served.processRequest, Nested.processRequest, Served.observer, ha, hq]
    exact hidle
  -- the request is an owner, whether it is queued, in hand or active
  have hpopped : ∀ o', SameClients s.observer o' →
      Tracks (s.nested.on o') (req.requester ++ rest.flatMap Request.requester) (s.on o') := by
    intro o' ho
    refine Tracks.perm (Tracks.on h ho) ?_
    simp only [Served.observer] at ha hq
    simp [requesters, ha, hq]
  rcases hd : req.dbusRequest with _ | q
  · have hsame : SameClients s.observer
        { s.observer with requestId := 0, requestQueue := some rest } :=
      .of_eq rfl rfl rfl (by rw [hq]; rfl) rfl
    have ht := hpopped _ hsame
    rw [Request.requester, hd] at ht
    simp only [Served.observer] at ha hq ht
    simp only [Served.processRequest, Nested.processRequest, Served.observer, ha, hq, hd]
    simp only [ha] at ht
    refine Tracks.perm ht ?_
    simp [requesters, Nested.on]
  obtain ⟨o', hsame, hrest, hend⟩ := processRequest_take ha hq hd getSeat op
  have ht := hpopped o' hsame
  rcases hend with ⟨hnone, code, hm, hs⟩ | ⟨⟨r, hactive⟩, hm, hs⟩
  · rw [hm, hs]
    obtain ⟨cs, ws, hc, -⟩ := completeRequest_eq o' req (some code)
    refine Tracks.perm (ht.completeRequest (some code)) ?_
    simp only [Nested.on, requesters]
    rw [hc]
    simp [hnone, hrest]
  · rw [hm, hs]
    refine Follows.processActive (Tracks.perm ht ?_) op
    simp only [Nested.on, requesters, hrest, hactive, Option.getD_some, Option.toList_some,
      List.flatMap_cons, List.flatMap_nil, List.append_nil]
    exact List.perm_append_comm

end Served

end Tlm
