import Tlm.DbusServerSpec

/-!
# Clients that come, call and go

The three ways in which a reference to an adapter comes about or goes without an answer to a
request: a client connects, and the table has the first one (`Follows.onClientRequest`); a
call becomes a request, which takes another (`Follows.handleRequest`); the connection is
closed, and the table drops its own (`Follows.onConnectionClosed`). Requests of a client that
is gone stay in the queue, and keep the adapter until they are answered.
-/

namespace Tlm

open Observer

namespace Served

variable {m : Nested} {s : Served} {owners : List AdapterRef} {a : AdapterRef}

/-! ## Clients -/

theorem Tracks.alive (h : Tracks m owners s) (ha : a ∈ m.observer.adapters) :
    a ∉ s.adapters.gone := by
  intro hgone
  have hpos : 0 < s.adapters.count a := (h.backs.pos_iff a).mpr (List.mem_append_left _ ha)
  rw [h.once.dead a hgone] at hpos
  exact lt_irrefl _ hpos

/-- A client connects. Its adapter is new, and the table has the only reference. -/
theorem Follows.onClientRequest (h : Follows m s) :
    Follows (m.on m.observer.handleDbusClientAdded) s.onClientRequest := by
  obtain rfl := h.nested
  have hrunning := h.running
  rcases ht : s.loginObjectAdapters with _ | table
  · rcases hq : s.nested.observer.requestQueue with _ | queue
    · simp only [Served.onClientRequest, handleDbusClientAdded, ht, hq]
      exact h
    · simp [ht, hq] at hrunning
  rcases hq : s.nested.observer.requestQueue with _ | queue
  · simp [ht, hq] at hrunning
  set o := s.nested.observer with ho
  have htable : table = o.adapters := by simpa [Served.table, ht] using h.table
  have hnew : o.clients ∉ o.adapters ++ o.requesters ++ s.adapters.gone :=
    fun hmem => lt_irrefl _ (h.known _ hmem)
  have hfresh : o.clients ∉ o.adapters := fun hmem =>
    hnew (List.mem_append_left _ (List.mem_append_left _ hmem))
  have hadded : o.handleDbusClientAdded = { o with
      adapters := o.adapters ++ [o.clients], clients := o.clients + 1
      handlers := Function.update o.handlers o.clients (o.handlers o.clients ++ o.supported) } := by
    simp only [handleDbusClientAdded, hq, connectDbusAdapter]
    rfl
  have hperm : (o.adapters ++ [o.clients] ++ o.requesters).Perm
      (o.clients :: (o.adapters ++ o.requesters)) := by
    rw [List.append_assoc]
    exact List.perm_middle
  have hstep : s.onClientRequest = { s.on o.handleDbusClientAdded with
      loginObjectAdapters := some (table ++ [o.clients]), closed := s.closed ++ [o.clients]
      serverWatch := s.serverWatch ++ [o.clients], observerWatch := s.observerWatch ++ [o.clients]
      adapters := s.adapters.retain o.clients } := by
    simp only [Served.onClientRequest, ht]
    rfl
  rw [Follows, hstep, hadded]
  refine
    { nested := rfl
      table := congrArg (· ++ [o.clients]) htable
      nodup := List.concat_eq_append ▸ List.Nodup.concat hfresh h.nodup
      known := fun a ha => ?_
      handlers := fun a ha => ?_
      supported := fun a t hat => ?_
      backs := (h.backs.retain o.clients).perm hperm.symm
      once := h.once.retain fun hmem => hnew (List.mem_append_right _ hmem)
      kept := fun a ha => ?_
      running := by simp [Nested.on, hq]
      closed := congrArg (· ++ [o.clients]) h.closed
      serverWatch := congrArg (· ++ [o.clients]) h.serverWatch
      observerWatch := congrArg (· ++ [o.clients]) h.observerWatch
      loginObjectDisposed := h.loginObjectDisposed
      dbusAdapterDisposed := h.dbusAdapterDisposed
      told := h.told
      untold := fun _ => h.untold (by rw [ht]; rfl)
      walked := h.walked }
  · rcases (List.mem_append.mp ha).imp_left hperm.mem_iff.mp with hmem | hgone
    · rcases List.mem_cons.mp hmem with rfl | hmem
      · exact Nat.lt_succ_self _
      · exact (h.known a (List.mem_append_left _ hmem)).trans (Nat.lt_succ_self _)
    · exact (h.known a (List.mem_append_right _ hgone)).trans (Nat.lt_succ_self _)
  · have hne : a ≠ o.clients := fun heq => ha (by simp [Nested.on, heq])
    have hnot : a ∉ o.adapters := fun hmem => ha (List.mem_append_left _ hmem)
    exact (Function.update_of_ne hne _ _).trans (h.handlers a hnot)
  · simp only [Nested.on, Function.update_apply] at hat
    split at hat
    · rw [h.handlers _ hfresh, List.nil_append] at hat
      exact (List.mem_filter.mp hat).2
    · exact h.supported a t hat
  · rcases Nat.lt_succ_iff_lt_or_eq.mp ha with hlt | rfl
    · exact (h.kept a hlt).imp_right fun hmem =>
        hperm.mem_iff.mpr (List.mem_cons_of_mem _ hmem)
    · exact .inr (hperm.mem_iff.mpr List.mem_cons_self)

/-- A connection is closed. The watches go before the table drops the adapter. -/
theorem Follows.onConnectionClosed (h : Follows m s) (a : AdapterRef) :
    Follows (m.on (m.observer.handleDbusClientRemoved a)) (s.onConnectionClosed a) := by
  obtain rfl := h.nested
  set o := s.nested.observer with ho
  by_cases ha : a ∈ o.adapters
  swap
  · have hnot : ¬ (a ∈ s.closed ∧ a ∈ s.table) := fun hmem => ha (h.table ▸ hmem.2)
    simp only [Served.onConnectionClosed, handleDbusClientRemoved, if_neg ha, if_neg hnot]
    exact h
  have hgone : (o.handlers a).filter (fun t => !o.isRequestSupported t) = [] :=
    List.filter_eq_nil_iff.mpr fun t ht => by simpa using h.supported a t ht
  have hremoved : o.handleDbusClientRemoved a = { o with
      adapters := o.adapters.erase a, handlers := Function.update o.handlers a [] } := by
    simp only [handleDbusClientRemoved, if_pos ha, disconnectDbusAdapter, hgone]
  have hperm : (o.adapters.erase a ++ a :: o.requesters).Perm (o.adapters ++ o.requesters) :=
    List.perm_middle.trans ((List.perm_cons_erase ha).symm.append_right _)
  have htable : (s.loginObjectAdapters.map (·.erase a)).getD [] = o.adapters.erase a := by
    rw [← h.table, Served.table]
    cases s.loginObjectAdapters <;> rfl
  have hfilter : s.closed.filter (· ≠ a) = o.adapters.erase a := by
    rw [h.closed, h.nodup.erase_eq_filter]
    refine List.filter_congr fun b _ => ?_
    by_cases hb : b = a
    · simp [hb]
    · simp [hb]
  have hstep : s.onConnectionClosed a = unref a { s.on (o.handleDbusClientRemoved a) with
      loginObjectAdapters := s.loginObjectAdapters.map (·.erase a)
      closed := s.closed.filter (· ≠ a), serverWatch := s.serverWatch.erase a
      observerWatch := s.observerWatch.erase a } := by
    have hboth : a ∈ s.closed ∧ a ∈ s.table := ⟨h.closed ▸ ha, h.table ▸ ha⟩
    simp only [Served.onConnectionClosed, if_pos hboth]
    rfl
  rw [Follows, hstep, hremoved]
  refine Tracks.unref (a := a)
    { nested := rfl
      table := htable
      nodup := h.nodup.erase a
      known := fun b hb => ?_
      handlers := fun b hb => ?_
      supported := fun b t hbt => ?_
      backs := h.backs.perm hperm.symm
      once := h.once
      kept := fun b hb => (h.kept b hb).imp_right hperm.mem_iff.mpr
      running := (Option.isSome_map ..).trans h.running
      closed := hfilter
      serverWatch := congrArg (·.erase a) h.serverWatch
      observerWatch := congrArg (·.erase a) h.observerWatch
      loginObjectDisposed := h.loginObjectDisposed
      dbusAdapterDisposed := h.dbusAdapterDisposed
      told := h.told
      untold := fun hs => h.untold ((Option.isSome_map ..).symm.trans hs)
      walked := h.walked }
  · rcases List.mem_append.mp hb with hmem | hmem
    · exact h.known b (List.mem_append_left _ (hperm.mem_iff.mp hmem))
    · exact h.known b (List.mem_append_right _ hmem)
  · simp only [Nested.on, Function.update_apply]
    split
    · rfl
    · rename_i hne
      exact h.handlers b fun hmem => hb ((List.mem_erase_of_ne hne).mpr hmem)
  · simp only [Nested.on, Function.update_apply] at hbt
    split at hbt
    · cases hbt
    · exact h.supported b t hbt

/-! ## Method calls -/

/-- A request takes a reference to an adapter of the table. -/
theorem Tracks.retain (h : Tracks m owners s) (ha : a ∈ m.observer.adapters) :
    Tracks m (a :: owners) { s with adapters := s.adapters.retain a } :=
  { h with
    known := fun b hb => by
      rcases List.mem_append.mp hb with hmem | hgone
      · rcases List.mem_cons.mp (List.perm_middle.mem_iff.mp hmem) with rfl | hmem
        · exact h.known b (List.mem_append_left _ (List.mem_append_left _ ha))
        · exact h.known b (List.mem_append_left _ hmem)
      · exact h.known b (List.mem_append_right _ hgone)
    backs := (h.backs.retain a).perm List.perm_middle.symm
    once := h.once.retain (h.alive ha)
    kept := fun b hb => (h.kept b hb).imp_right fun hmem =>
      List.perm_middle.mem_iff.mpr (List.mem_cons_of_mem _ hmem) }

theorem Follows.handleRequest (h : Follows m s) (ha : a ∈ m.observer.adapters)
    (hq : m.observer.requestQueue.isSome = true) (i : Invocation) (c : Call) :
    Follows (m.on (m.observer.addRequest { dbusRequest := some (createDbusRequest a i c) }))
      (s.handleRequest a i c) := by
  have hadapter : (createDbusRequest a i c).dbusAdapter = a := by
    simp only [createDbusRequest]
    split <;> rfl
  obtain ⟨queue, hqueue⟩ := Option.isSome_iff_exists.mp hq
  obtain ⟨id, n, hadd⟩ := addRequest_eq m.observer
    { dbusRequest := some (createDbusRequest a i c) }
  have hsame : SameClients m.observer
      (m.observer.addRequest { dbusRequest := some (createDbusRequest a i c) }) := by
    rw [hadd]
    exact .of_eq rfl rfl rfl (Option.isSome_map ..) rfl
  simp only [Served.handleRequest, h.observer_eq]
  refine Tracks.perm ((Tracks.retain h ha).on hsame) ?_
  rw [hadd]
  simp only [Nested.on, requesters, hqueue, Option.map_some, Option.getD_some, List.flatMap_append]
  simp [Request.requester, hadapter, List.perm_middle.symm]

/-- Every handler that is connected makes a request. -/
theorem Follows.handleRequests (h : Follows m s) (ha : a ∈ m.observer.adapters)
    (hq : m.observer.requestQueue.isSome = true) (i : Invocation) (c : Call)
    (ts : List RequestType) :
    Follows
      (m.on (ts.foldl (fun o _ => o.addRequest { dbusRequest := some (createDbusRequest a i c) })
        m.observer))
      (ts.foldl (fun s _ => s.handleRequest a i c) s) := by
  induction ts generalizing m s with
  | nil => exact h
  | cons t ts ih =>
    have hr := h.handleRequest ha hq i c
    obtain ⟨id, n, hadd⟩ := addRequest_eq m.observer
      { dbusRequest := some (createDbusRequest a i c) }
    refine ih hr ?_ ?_
    · simp only [Nested.on]
      rw [hadd]
      exact ha
    · simp only [Nested.on]
      rw [hadd]
      exact (Option.isSome_map ..).trans hq

theorem Follows.handleCall (h : Follows m s) (a : AdapterRef) (c : Call) :
    Follows (m.on (m.observer.handleCall a c)) (s.handleCall a c) := by
  obtain rfl := h.nested
  simp only [Served.handleCall, Observer.handleCall, h.table]
  split
  swap
  · exact h
  rename_i ha
  have hq : s.nested.observer.requestQueue.isSome = true := by
    rw [← h.running]
    rcases ht : s.loginObjectAdapters with _ | table
    · rw [← h.table, Served.table, ht] at ha
      cases ha
    · rfl
  have htaken : Follows
      (s.nested.on { s.nested.observer with received := s.nested.observer.received + 1 })
      (s.on { s.nested.observer with received := s.nested.observer.received + 1 }) :=
    h.on (.of_eq rfl rfl rfl rfl rfl) rfl
  split
  · exact htaken.handleRequests ha hq _ c _
  · exact htaken.on (.of_eq rfl rfl rfl rfl rfl) rfl

end Served

end Tlm
