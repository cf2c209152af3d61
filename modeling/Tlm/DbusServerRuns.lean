import Tlm.Run
import Tlm.DbusServerClients

/-!
# From the first client to the end of the server

The shutdown of an observer, and what holds over its whole life. The references make no
difference to what an observer does (`run_nested`): it answers and carries out the requests
that the model without them says. An adapter lives exactly as long as its client is connected
or has a request (`run_adapters`). And of the three who watch a client's end, the server is
told by the connection alone, and the observer of an adapter that goes by itself only at the
end, when there is no request to remove (`run_watches`). So the loop over the links of the
queue in `_on_dbus_adapter_dispose` never deletes one, and its header is right after every
run of the loop (`run_queueIntact`).
-/

namespace Tlm

open Observer

namespace Served

variable {m : Nested} {s : Served} {a : AdapterRef}

/-! ## Shutdown -/

theorem foldl_clearLoginObjectWatchers {as : List AdapterRef} (hnodup : as.Nodup)
    (hc : s.closed = as) (hw : s.serverWatch = as) :
    as.foldl clearLoginObjectWatchers s = { s with closed := [], serverWatch := [] } := by
  induction as generalizing s with
  | nil =>
    rw [List.foldl_nil, ← hc]
    obtain ⟨⟩ := s
    simp_all
  | cons a as ih =>
    obtain ⟨hnot, hrest⟩ := List.nodup_cons.mp hnodup
    rw [List.foldl_cons, ih hrest]
    · rfl
    · have hne : ∀ b ∈ as, b ≠ a := fun b hb heq => hnot (heq ▸ hb)
      simpa [clearLoginObjectWatchers, hc, List.filter_eq_self] using hne
    · simp only [clearLoginObjectWatchers]
      rw [hw, List.erase_cons_head]

/-- The table drops an adapter at the end, when only the observer watches. It finds no
requests. -/
theorem unref_stopped {as : List AdapterRef} (hbacks : s.adapters.Backs (a :: as)) (hnot : a ∉ as)
    (hs : s.serverWatch = []) (ho : s.observerWatch = a :: as)
    (hq : s.observer.requestQueue = none) (ha : s.observer.activeRequest = none) :
    s.unref a =
      { s.on { s.observer with handlers := Function.update s.observer.handlers a [] } with
        adapters := s.adapters.release a, observerWatch := as
        dbusAdapterDisposed := s.dbusAdapterDisposed ++ [(a, [])]
        walked := s.walked ++ [(a, [])] } := by
  simp only [Served.observer] at hq ha
  simp only [Served.unref, if_pos (hbacks.count_eq_one_iff.mpr hnot), disposeAdapter, Served.on, hs,
    ho, List.not_mem_nil, if_false, List.mem_cons_self, if_true, onDbusAdapterDispose,
    Served.observer, Nested.on, disconnectDbusAdapter, hq, ha, List.erase_cons_head]
  simp [removeActive]

/-- The table is dropped as a whole. -/
theorem foldl_unref_stopped {as : List AdapterRef} (hnodup : as.Nodup)
    (hbacks : s.adapters.Backs as) (hs : s.serverWatch = []) (ho : s.observerWatch = as)
    (hq : s.observer.requestQueue = none) (ha : s.observer.activeRequest = none) :
    as.foldl (fun s a => s.unref a) s =
      { s.on { s.observer with
          handlers := fun a => if a ∈ as then [] else s.observer.handlers a } with
        adapters := as.foldl (fun c a => c.release a) s.adapters, observerWatch := []
        dbusAdapterDisposed := s.dbusAdapterDisposed ++ as.map (·, [])
        walked := s.walked ++ as.map (·, []) } := by
  induction as generalizing s with
  | nil =>
    have hsame : s = { s with observerWatch := [] } := by rw [← ho]
    simp only [List.foldl_nil, List.map_nil, List.append_nil, List.not_mem_nil, if_false]
    exact hsame
  | cons a as ih =>
    obtain ⟨hnot, hrest⟩ := List.nodup_cons.mp hnodup
    have hhandlers : (fun b => if b ∈ as then [] else
        Function.update s.observer.handlers a [] b) =
        fun b => if b ∈ a :: as then [] else s.observer.handlers b := by
      funext b
      by_cases hb : b = a
      · subst hb
        simp
      · simp [hb]
    have hfirst := unref_stopped hbacks hnot hs ho hq ha
    set s' := s.unref a with hs'
    have hall := @ih s' hrest (by rw [hfirst]; exact hbacks.release) (by rw [hfirst]; exact hs)
      (by rw [hfirst]) (by rw [hfirst]; exact hq) (by rw [hfirst]; exact ha)
    have hcons : ∀ ps : List (AdapterRef × List Request),
        ps ++ (a :: as).map (·, ([] : List Request)) = ps ++ [(a, [])] ++ as.map (·, []) :=
      fun ps => List.append_cons ..
    rw [List.foldl_cons, ← hs', hall, hfirst, ← hhandlers, hcons, hcons]
    rfl

/-- The server stops. -/
theorem stop_eq (hnodup : s.table.Nodup) (hbacks : s.adapters.Backs s.table)
    (hc : s.closed = s.table) (hs : s.serverWatch = s.table) (ho : s.observerWatch = s.table)
    (hq : s.observer.requestQueue = none) (ha : s.observer.activeRequest = none) :
    s.stop = { s.on { s.observer with
        adapters := [], handlers := fun a => if a ∈ s.table then [] else s.observer.handlers a } with
      loginObjectAdapters := none, closed := [], serverWatch := [], observerWatch := []
      adapters := s.table.foldl (fun c a => c.release a) s.adapters
      dbusAdapterDisposed := s.dbusAdapterDisposed ++ s.table.map (·, [])
      walked := s.walked ++ s.table.map (·, []) } := by
  have hclear := foldl_clearLoginObjectWatchers hnodup hc hs
  set s₁ := s.table.foldl clearLoginObjectWatchers s with hs₁
  have htable : s₁.table = s.table := by
    rw [hclear]
    rfl
  have hall : s.table.foldl (fun s a => s.unref a) s₁ = _ :=
    foldl_unref_stopped hnodup (by rw [hclear]; exact hbacks) (by rw [hclear])
      (by rw [hclear]; exact ho) (by rw [hclear]; exact hq) (by rw [hclear]; exact ha)
  rw [Served.stop, ← hs₁, htable, hall, hclear]
  rfl

/-- **The server is stopped** when there are no more requests: every adapter that is left
goes, and the observer hears of each. -/
theorem Tracks.stop (h : Tracks m [] s) (ha : m.observer.activeRequest = none) :
    Tracks (m.on { m.observer with
        requestQueue := none, adapters := [], handlers := fun _ => [] }) []
      (s.on { s.observer with requestQueue := none }).stop ∧
    (s.on { s.observer with requestQueue := none }).stop.dbusAdapterDisposed =
      s.dbusAdapterDisposed ++ s.table.map (·, []) := by
  obtain rfl := h.nested
  have htable : s.table = s.observer.adapters := h.table
  have hbacks : s.adapters.Backs s.table := htable ▸ h.backs.perm (List.append_nil _ ▸ .refl _)
  have hnodup : s.table.Nodup := htable ▸ h.nodup
  obtain ⟨hnone, hgone⟩ := hbacks.releaseAll hnodup
  have hhandlers : (fun a => if a ∈ s.table then [] else s.observer.handlers a) = fun _ => [] := by
    funext a
    split
    · rfl
    · rename_i hnot
      exact h.handlers a fun hmem => hnot (htable ▸ hmem)
  have hstop := stop_eq (s := s.on { s.observer with requestQueue := none }) hnodup hbacks
    (h.closed.trans htable.symm) (h.serverWatch.trans htable.symm)
    (h.observerWatch.trans htable.symm) rfl ha
  rw [hstop]
  refine ⟨?_, rfl⟩
  refine
    { nested := by simp only [Served.on, Nested.on, ← hhandlers]; rfl
      table := rfl
      nodup := .nil
      known := fun a hmem => ?_
      handlers := fun _ _ => rfl
      supported := fun _ _ hat => by cases hat
      backs := hnone
      once := h.once.releaseAll _
      kept := fun a hlt => .inl ?_
      running := rfl
      closed := rfl
      serverWatch := rfl
      observerWatch := rfl
      loginObjectDisposed := h.loginObjectDisposed
      dbusAdapterDisposed := fun p hp => ?_
      told := ?_
      untold := fun hs => by cases hs
      walked := fun p hp => ?_ }
  · have hmem' : a ∈ s.adapters.gone ++ s.table := hgone ▸ hmem
    refine h.known a ?_
    rcases List.mem_append.mp hmem' with hmem | hmem
    · exact List.mem_append_right _ hmem
    · exact List.mem_append_left _ (List.mem_append_left _ (htable ▸ hmem))
  · refine hgone.symm ▸ List.mem_append.mpr ((h.kept a hlt).imp_right fun hmem => ?_)
    exact htable ▸ (List.mem_append.mp hmem).resolve_right List.not_mem_nil
  · rcases List.mem_append.mp hp with hp | hp
    · exact h.dbusAdapterDisposed p hp
    · obtain ⟨a, -, rfl⟩ := List.mem_map.mp hp
      rfl
  · have hnames : (s.table.map fun a => (a, ([] : List Request))).map Prod.fst = s.table := by
      simp [Function.comp_def]
    change ((s.dbusAdapterDisposed ++ s.table.map (·, [])).map Prod.fst).Sublist _
    rw [List.map_append, hnames]
    exact hgone.symm ▸ h.told.append_right _
  · rcases List.mem_append.mp hp with hp | hp
    · exact h.walked p hp
    · obtain ⟨a, -, rfl⟩ := List.mem_map.mp hp
      rfl

/-- Every request is aborted and drops its adapter, before the server is stopped. -/
theorem Follows.clearAll (h : Follows m s) :
    ∃ o' s', SameClients m.observer o' ∧ o'.activeRequest = none ∧ Tracks (m.on o') [] s' ∧
      m.observer.stopDbusServer =
        { o' with requestQueue := none, adapters := [], handlers := fun _ => [] } ∧
      s.stopDbusServer = (s'.on { s'.observer with requestQueue := none }).stop := by
  obtain rfl := h.nested
  set o := s.nested.observer with ho
  have hactive : SameClients o (o.activeRequest.elim o o.clearRequest) ∧
      (o.activeRequest.elim o o.clearRequest).requestQueue = o.requestQueue ∧
      Tracks (s.nested.on (o.activeRequest.elim o o.clearRequest))
        ((o.requestQueue.getD []).flatMap Request.requester)
        (s.observer.activeRequest.elim s s.clearRequest) := by
    rw [h.observer_eq, ← ho]
    rcases ha : o.activeRequest with _ | req
    · refine ⟨.of_eq rfl rfl rfl rfl rfl, rfl, Tracks.perm h ?_⟩
      simp [requesters, ← ho, ha]
    · obtain ⟨cs, ws, hc, -⟩ := completeRequest_eq o req (some TlmError.dbusReqAborted.code)
      have howners : o.requesters.Perm
          (req.requester ++ (o.requestQueue.getD []).flatMap Request.requester) := by
        simp only [requesters, ha]
        simpa using List.perm_append_comm
      refine ⟨?_, ?_, (Tracks.perm h howners).clearRequest⟩
      · simp only [Option.elim_some, Observer.clearRequest]
        rw [hc]
        exact .of_eq rfl rfl rfl rfl rfl
      · simp only [Option.elim_some, Observer.clearRequest]
        rw [hc]
  obtain ⟨hsame, hq, ht⟩ := hactive
  set o₁ := o.activeRequest.elim o o.clearRequest with ho₁
  set s₁ := s.observer.activeRequest.elim s s.clearRequest with hs₁
  rw [← hq] at ht
  have hidle : SameClients o₁ { o₁ with activeRequest := none } := .of_eq rfl rfl rfl rfl rfl
  have hnone : Tracks (s.nested.on { o₁ with activeRequest := none })
      ((o₁.requestQueue.getD []).flatMap Request.requester ++ [])
      (s₁.on { o₁ with activeRequest := none }) := by
    rw [List.append_nil]
    exact ht.on hidle
  obtain ⟨cs', ws', rs', hfold, -⟩ := foldl_clearRequest_eq (o₁.requestQueue.getD [])
    { o₁ with activeRequest := none }
  refine ⟨_, _, hsame.trans (hidle.trans ?_), ?_, hnone.clearRequests, rfl, ?_⟩
  · simp only [Nested.on]
    rw [hfold]
    exact .of_eq rfl rfl rfl rfl rfl
  · simp only [Nested.on]
    rw [hfold]
  · simp only [Served.stopDbusServer]
    rw [← hs₁, ht.observer_eq]
    rfl

/-- The observer stops its server. The clients that are left are those it is told of. -/
theorem Follows.stopDbusServer (h : Follows m s) :
    Follows (m.on m.observer.stopDbusServer) s.stopDbusServer ∧
      (s.loginObjectAdapters.isSome = true →
        s.stopDbusServer.dbusAdapterDisposed = s.table.map (·, [])) := by
  obtain ⟨o', s', hsame, hnone, ht, ho', hs'⟩ := h.clearAll
  obtain ⟨hstop, htold⟩ := ht.stop hnone
  rw [ho', hs']
  refine ⟨Tracks.perm hstop ?_, fun hrunning => ?_⟩
  · simp only [Nested.on, requesters] at hnone ⊢
    simp [hnone]
  · have hseen : s'.loginObjectAdapters.isSome = true := by
      rw [ht.running]
      exact hsame.serving.trans (h.running.symm.trans hrunning)
    have htable : s'.table = s.table := by
      rw [ht.table, h.table]
      exact hsame.adapters
    rw [htold, ht.untold hseen, htable, List.nil_append]

theorem Follows.dispose (h : Follows m s) :
    Follows (m.on m.observer.dispose) s.dispose ∧
      (s.loginObjectAdapters.isSome = true →
        s.dispose.dbusAdapterDisposed = s.table.map (·, [])) := by
  have hidle : Follows (m.on { m.observer with requestId := 0 })
      (s.on { m.observer with requestId := 0 }) := h.on (.of_eq rfl rfl rfl rfl rfl) rfl
  obtain ⟨hstop, htold⟩ := hidle.stopDbusServer
  rw [← h.observer_eq] at hstop htold
  refine ⟨?_, htold⟩
  rw [← h.observer_eq]
  simp only [Served.dispose, hstop.observer_eq]
  exact hstop.on (.of_eq rfl rfl rfl rfl rfl) rfl

/-! ## Steps -/

/-- **Every dispatch** is followed. -/
theorem Follows.step (h : Follows m s) (e : Nested.Event) : Follows (m.step e) (s.step e) := by
  cases e with
  | clientAdded => exact h.onClientRequest
  | clientRemoved a => exact h.onConnectionClosed a
  | call a c => exact h.handleCall a c
  | signal r g => exact h.onSeatSignal r g
  | seatDispose r =>
    simp only [Served.step, Nested.step, h.observer_eq]
    refine h.on (onSeatDispose_sameClients r) ?_
    simp only [onSeatDispose, requesters]
    split
    · rcases m.observer.activeRequest with _ | ⟨d, seat⟩
      · rfl
      · simp only [Option.map_some, Option.toList_some, List.flatMap_cons, List.flatMap_nil]
        split <;> rfl
    · rfl
  | dispose => exact h.dispose.1
  | idle getSeat op =>
    simp only [Served.step, Nested.step, h.observer_eq]
    split
    · exact h
    · exact h.processRequest getSeat op
  | reaped =>
    obtain rfl := h.nested
    simp only [Served.step, Nested.step]
    rcases s.nested.frames with _ | ⟨⟨r, error⟩, frames⟩
    · exact h
    · have hframes : Follows { s.nested with frames := frames }
          { s with nested := { s.nested with frames := frames } } :=
        Tracks.moved h (.of_eq rfl rfl rfl rfl rfl)
      exact (hframes.onSeatSignal r (.error error.code)).finish

theorem follows_start (manager : Bool) (seat : Option SeatRef) (flags : ℕ) :
    Follows (Nested.start manager seat flags) (start manager seat flags) where
  nested := rfl
  table := rfl
  nodup := .nil
  known := fun _ ha => by cases ha
  handlers := fun _ _ => rfl
  supported := fun _ _ ht => by cases ht
  backs := References.backs_nil
  once := ⟨.nil, fun _ ha => by cases ha⟩
  kept := fun _ ha => by cases ha
  running := rfl
  closed := rfl
  serverWatch := rfl
  observerWatch := rfl
  loginObjectDisposed := rfl
  dbusAdapterDisposed := fun _ hp => by cases hp
  told := .refl _
  untold := fun _ => rfl
  walked := fun _ hp => by cases hp

/-! ## Runs -/

theorem run_follows (h : Follows m s) (es : List Nested.Event) :
    Follows (es.foldl Nested.step m) (es.foldl step s) := by
  induction es generalizing m s with
  | nil => exact h
  | cons e es ih => exact ih (h.step e)

/-- In every state of a run. -/
theorem always_of_follows {Q : Served → Prop} (hQ : ∀ m s, Follows m s → Q s) (h : Follows m s)
    (es : List Nested.Event) : Always step Q s es := by
  induction es generalizing m s with
  | nil => exact hQ m s h
  | cons e es ih => exact ⟨hQ m s h, ih (h.step e)⟩

/-- **The references make no difference.** Whatever is dispatched, in whatever order and from
inside whichever waits, an observer with its server does what the observer does whose requests
and adapters go of themselves. -/
theorem run_nested (manager : Bool) (seat : Option SeatRef) (flags : ℕ) (es : List Nested.Event) :
    (es.foldl step (start manager seat flags)).nested =
      es.foldl Nested.step (Nested.start manager seat flags) :=
  (run_follows (follows_start manager seat flags) es).nested

/-- The count of every adapter is that of the table and the requests, and an adapter that has
neither is gone, once. -/
structure Counted (s : Served) : Prop where
  count : ∀ a, s.adapters.count a = s.table.count a + s.observer.requesters.count a
  gone : ∀ a, a ∈ s.adapters.gone ↔
    a < s.observer.clients ∧ a ∉ s.table ∧ a ∉ s.observer.requesters
  once : s.adapters.gone.Nodup

/-- **An adapter lives as long as its client is connected or has a request**, queued or
active. -/
theorem run_adapters (manager : Bool) (seat : Option SeatRef) (flags : ℕ)
    (es : List Nested.Event) : Always step Counted (start manager seat flags) es := by
  refine always_of_follows (fun m s h => ?_) (follows_start manager seat flags) es
  obtain rfl := h.nested
  refine ⟨fun a => ?_, fun a => ?_, h.once.nodup⟩
  · rw [h.table, h.backs a, List.count_append]
    rfl
  · rw [h.table]
    constructor
    · intro hgone
      have hzero : a ∉ s.nested.observer.adapters ++ s.nested.observer.requesters := by
        rw [← h.backs.pos_iff a, h.once.dead a hgone]
        exact lt_irrefl 0
      refine ⟨h.known a (List.mem_append_right _ hgone), ?_, ?_⟩
      · exact fun hmem => hzero (List.mem_append_left _ hmem)
      · exact fun hmem => hzero (List.mem_append_right _ hmem)
    · rintro ⟨hlt, htable, hrequests⟩
      refine (h.kept a hlt).resolve_right fun hmem => ?_
      exact (List.mem_append.mp hmem).elim htable hrequests

/-- The watches are up for the clients that are connected, and nobody is told more than once
or for nothing. -/
structure Watched (s : Served) : Prop where
  closed : s.closed = s.table
  serverWatch : s.serverWatch = s.table
  observerWatch : s.observerWatch = s.table
  loginObjectDisposed : s.loginObjectDisposed = []
  running : s.loginObjectAdapters.isSome = true → s.dbusAdapterDisposed = []
  removed : ∀ p ∈ s.dbusAdapterDisposed, p.2 = []
  once : (s.dbusAdapterDisposed.map Prod.fst).Nodup

/-- **Who hears of a client's end.** The watches of the server and of the observer are up for
the clients in the table and for no other. An adapter that goes is never in the table. The
observer is told of an adapter only when its server is stopped, once, and then of those that
were in the table; none of them has a request that it would have to remove. -/
theorem run_watches (manager : Bool) (seat : Option SeatRef) (flags : ℕ)
    (es : List Nested.Event) :
    Always step Watched (start manager seat flags) es ∧
      Along step (fun s e => e = .dispose → s.loginObjectAdapters.isSome = true →
        (s.step e).dbusAdapterDisposed = s.table.map (·, [])) (start manager seat flags) es := by
  have hstart := follows_start manager seat flags
  refine ⟨always_of_follows (fun m s h => ?_) hstart es, ?_⟩
  · obtain rfl := h.nested
    exact
      { closed := h.closed.trans h.table.symm
        serverWatch := h.serverWatch.trans h.table.symm
        observerWatch := h.observerWatch.trans h.table.symm
        loginObjectDisposed := h.loginObjectDisposed
        running := h.untold
        removed := h.dbusAdapterDisposed
        once := h.told.nodup h.once.nodup }
  · generalize start manager seat flags = s at hstart
    generalize Nested.start manager seat flags = m at hstart
    induction es generalizing m s with
    | nil => trivial
    | cons e es ih =>
      refine ⟨?_, ih _ _ (hstart.step e)⟩
      rintro rfl hrunning
      exact hstart.dispose.2 hrunning

/-- The loop over the links leaves the queue intact, whatever memory holds it: in every run of
`_on_dbus_adapter_dispose` there has been, and for every adapter that is gone by now. -/
structure QueuesIntact (s : Served) : Prop where
  walked : ∀ p ∈ s.walked, ∀ q : RequestQueue, q.requests = p.2 →
    ∀ o, LeavesQueueIntact q o p.1
  gone : ∀ dead ∈ s.adapters.gone, ∀ q : RequestQueue,
    q.requests = s.observer.requestQueue.getD [] → LeavesQueueIntact q s.observer dead

/-- A request in the queue has a reference to its adapter, so none is of an adapter that is
gone. -/
theorem Follows.forall_not_ofAdapter (h : Follows m s) {dead : AdapterRef}
    (hdead : dead ∈ s.adapters.gone) {req : Request}
    (hreq : req ∈ s.observer.requestQueue.getD []) : ofAdapter dead req = false := by
  obtain ⟨_ | d, seat⟩ := req
  · rfl
  refine decide_eq_false fun heq => ?_
  have howner : dead ∈ m.observer.adapters ++ m.observer.requesters := by
    rw [h.observer_eq] at hreq
    refine List.mem_append_right _ (List.mem_append_left _ (List.mem_flatMap.mpr ⟨_, hreq, ?_⟩))
    exact List.mem_map.mpr ⟨d, List.mem_singleton_self d, heq⟩
  have hpos := (h.backs.pos_iff dead).mpr howner
  rw [h.once.dead dead hdead] at hpos
  exact lt_irrefl 0 hpos

/-- **Dead clients leave the queue intact.** Whatever the clients do and in whatever order,
head, tail and length of the queue say after every run of the loop which requests are left:
those of the other adapters, in their order. -/
theorem run_queueIntact (manager : Bool) (seat : Option SeatRef) (flags : ℕ)
    (es : List Nested.Event) : Always step QueuesIntact (start manager seat flags) es := by
  refine always_of_follows (fun m s h => ?_) (follows_start manager seat flags) es
  constructor
  · intro p hp q hq o
    rw [queueIntact_iff, hq, h.walked p hp]
    exact List.forall_mem_nil _
  · intro dead hdead q hq
    rw [queueIntact_iff, hq]
    exact fun req hreq => h.forall_not_ofAdapter hdead hreq

/-- A login and a logout. -/
def calls : Call × Call :=
  ({ type := .loginUser, seatId := some "seat0", username := some "bob", password := some "" },
    { type := .logoutUser, seatId := some "seat0" })

/-- A client calls, is answered and goes, while the calls of two others are waiting. -/
def threeClients : List Nested.Event :=
  [.clientAdded, .clientAdded, .clientAdded, .call 0 calls.1, .call 1 calls.1, .call 2 calls.2,
    .idle (fun _ => none) .refused, .clientRemoved 0]

/-- Their requests in memory. -/
def twoRequests : RequestQueue where
  heap a := match a with
    | 1 => some ⟨{ dbusRequest := some (createDbusRequest 1 1 calls.1) }, none, some 2⟩
    | 2 => some ⟨{ dbusRequest := some (createDbusRequest 2 2 calls.2) }, some 1, none⟩
    | _ => none
  queue := ⟨some 1, some 2, 2⟩
  cells := [(1, { dbusRequest := some (createDbusRequest 1 1 calls.1) }),
    (2, { dbusRequest := some (createDbusRequest 2 2 calls.2) })]
  represents := ⟨by decide, ⟨rfl, rfl, trivial⟩, rfl, rfl, rfl⟩

theorem run_queueIntact_threeClients :
    LeavesQueueIntact twoRequests
      (threeClients.foldl step (start true none enableAll)).observer 0 :=
  (run_queueIntact true none enableAll threeClients).last.gone 0 (by decide) twoRequests
    (by decide)

end Served

end Tlm
