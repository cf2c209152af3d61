import Tlm.DaemonSpec

/-!
# The daemon between two dispatches

`Tidy` is the invariant of the daemon: every seat is well-formed, every observer
is at rest and of its kind — the one on the root socket has no seat of its own,
one on a seat's socket knows no manager, no **other** seat, and takes no logins —
and the observers a seat has yet to create do not exist.

`Moves` says once what the manager's side of the daemon can do, as a relation
generated by a few primitive changes. Every event other than those of clients
and of idle sources is such a move (`step_moves`), so what the primitives keep
these events keep: `Tidy` itself, and any `Lasting` property of the observers.
-/

namespace Tlm

/-- The kind of observer a name stands for. -/
def ObserverId.Placed : ObserverId → Observer → Prop
  | .root, o => o.seat = none
  | .ofSeat r _, o => o.manager = false ∧ (o.seat = none ∨ o.seat = some r) ∧
      o.isRequestSupported .loginUser = false

/-- If it is a login, it names its user. -/
def SeatEvent.Named (ev : SeatEvent) : Prop :=
  ∀ args, ev = .createSession args → args.username.isSome = true

namespace Daemon

variable {d d' d'' : Daemon} {sys : Sys} {r : SeatRef} {ev : SeatEvent} {oid : ObserverId}
  {K : Observer → Prop}

/-! ## The invariant -/

/-- The daemon between two dispatches. -/
structure Tidy (d : Daemon) : Prop where
  seats : ∀ r, (d.seats.get r).Wf fun _ _ => True
  rests : ∀ oid, (d.observers oid).Rests
  placed : ∀ oid : ObserverId, oid.Placed (d.observers oid)
  fresh : ∀ r, d.seats.next ≤ r → d.seats.get r = default
  unborn : ∀ r k, (d.seats.get r).observers.next ≤ k → d.observers (.ofSeat r k) = {}

theorem wf_default : (default : Seat).Wf fun _ _ => True :=
  (Seat.wf_new "").congr rfl rfl rfl rfl rfl rfl

theorem tidy_new (config : Config) (initialUser : Option String) :
    (Daemon.new config initialUser).Tidy := by
  refine ⟨fun _ => wf_default, ?_, ?_, ?_, ?_⟩
  · rintro (_ | ⟨r, k⟩)
    · exact Observer.rests_new true none enableAll
    · exact Observer.rests_empty
  · rintro (_ | ⟨r, k⟩)
    · rfl
    · exact ⟨rfl, Or.inl rfl, by simp [Daemon.new, Observer.isRequestSupported]⟩
  · exact fun r _ => rfl
  · exact fun r k _ => rfl

/-- The fields the invariant reads; the others may change freely. -/
theorem Tidy.congr (h : d.Tidy) (h₁ : d'.seats = d.seats) (h₂ : d'.observers = d.observers) :
    d'.Tidy := by
  refine ⟨?_, ?_, ?_, ?_, ?_⟩
  · rw [h₁]; exact h.seats
  · rw [h₂]; exact h.rests
  · rw [h₂]; exact h.placed
  · rw [h₁]; exact h.fresh
  · rw [h₁, h₂]; exact h.unborn

/-- An observer with something in it belongs to a seat that has created it. -/
theorem Tidy.born (h : d.Tidy) {k : ObserverRef}
    (hq : (d.observers (.ofSeat r k)).requestQueue.isSome = true) :
    k < (d.seats.get r).observers.next := by
  by_contra hk
  rw [h.unborn r k (Nat.not_lt.mp hk)] at hq
  cases hq

theorem placed_dispose {o : Observer} (h : oid.Placed o) : oid.Placed o.dispose := by
  obtain ⟨cs, ws, rs, heq, -, -⟩ := Observer.dispose_eq o
  rw [heq]
  cases oid with
  | root => rfl
  | ofSeat r k => exact ⟨rfl, Or.inl rfl, h.2.2⟩

theorem placed_onSeatDispose {o : Observer} (hr : o.Rests) (h : oid.Placed o) (r : SeatRef) :
    oid.Placed (o.onSeatDispose r) := by
  rcases Observer.onSeatDispose_eq hr r with heq | heq
  · rw [heq]
    exact h
  · rw [heq]
    cases oid with
    | root =>
      have hs : o.seat = none := h
      simp [ObserverId.Placed, hs]
    | ofSeat r' k =>
      refine ⟨h.1, ?_, h.2.2⟩
      simp only
      split
      · exact Or.inl rfl
      · exact h.2.1

/-- Replacing an observer by another of its kind; one that a seat has yet to
create stays as it is. -/
theorem Tidy.setObserver (h : d.Tidy) {o : Observer} (hr : o.Rests) (hp : oid.Placed o)
    (hnew : ∀ r k, oid = .ofSeat r k → (d.seats.get r).observers.next ≤ k → o = {}) :
    (d.setObserver oid o).Tidy := by
  have hget : ∀ oid', (d.setObserver oid o).observers oid' =
      if oid' = oid then o else d.observers oid' := fun _ => Function.update_apply ..
  refine ⟨h.seats, ?_, ?_, h.fresh, ?_⟩
  · intro oid'
    rw [hget]
    split
    · exact hr
    · exact h.rests oid'
  · intro oid'
    rw [hget]
    split
    · rename_i heq
      rw [heq]
      exact hp
    · exact h.placed oid'
  · intro r k hk
    rw [hget]
    split
    · rename_i heq
      exact hnew r k heq.symm hk
    · exact h.unborn r k hk

/-- A dispatch of a seat. -/
theorem onSeat_tidy (h : d.Tidy) (sys : Sys) (r : SeatRef) (ev : SeatEvent) :
    (d.onSeat sys r ev).Tidy := by
  have hgrows := Seat.step_grows (h.seats r).toLinked ⟨d.config, sys, ev⟩
  rw [onSeat_eq]
  -- what an observer of either kind is keeps through everything it hears
  have hkeep : ∀ oid, (heard r oid (d.seats.get r)
        ((d.seats.get r).step ⟨d.config, sys, ev⟩) (d.observers oid)).Rests ∧
      oid.Placed (heard r oid (d.seats.get r)
        ((d.seats.get r).step ⟨d.config, sys, ev⟩) (d.observers oid)) := by
    intro oid
    refine heard_induct (J := fun o => o.Rests ∧ oid.Placed o) (fun o ho => ho.1.connected)
      (fun o ho => ⟨Observer.dispose_rests ho.1, placed_dispose ho.2⟩)
      (fun o ho => ⟨Observer.onSeatDispose_rests ho.1 r, placed_onSeatDispose ho.1 ho.2 r⟩)
      ?_ ⟨h.rests oid, h.placed oid⟩
    rintro k args hm rfl
    obtain ⟨-, -, hflags⟩ := hgrows.gained hm
    refine ⟨Observer.rests_new _ _ _, rfl, Or.inr rfl, ?_⟩
    simp only [Observer.isRequestSupported, Observer.new, hflags]
    decide
  refine ⟨?_, fun oid => (hkeep oid).1, fun oid => (hkeep oid).2, ?_, ?_⟩
  · intro r'
    rw [Store.get_set]
    split
    · exact Seat.step_wf (h.seats r) fun _ _ _ => trivial
    · exact h.seats r'
  · intro r' hr'
    rw [Store.get_set]
    split
    · -- nothing can be done to a seat that does not exist
      rename_i heq
      rw [← heq, h.fresh r' hr']
      rfl
    · exact h.fresh r' hr'
  · intro r' k hk
    refine heard_induct (J := fun o => o = {}) (by rintro o rfl; rfl) (by rintro o rfl; rfl)
      (by rintro o rfl; rfl) ?_ ?_
    · rintro k' args hm heq
      injection heq with hr hk'
      obtain ⟨-, hlt, -⟩ := hgrows.gained hm
      rw [hr, Store.get_set_self, hk'] at hk
      exact absurd hlt (Nat.not_lt.mpr hk)
    · apply h.unborn r' k
      by_cases hr : r' = r
      · rw [hr, Store.get_set_self] at hk
        rw [hr]
        exact hgrows.observersNext.trans hk
      · rwa [Store.get_set_ne _ _ hr] at hk

/-- What a request adds to the log before it is dispatched. -/
def acceptance (cfg : Config) (sys : Sys) (r : SeatRef) (ev : SeatEvent) (s : Seat) :
    List Record :=
  match requestCredentials ev with
  | some creds => if accepts cfg sys ev s then [.accepted r creds] else []
  | none => []

/-- A request is recorded, then dispatched. -/
theorem request_eq (d : Daemon) (sys : Sys) (r : SeatRef) (ev : SeatEvent) :
    d.request sys r ev = { d with
      log := d.log ++ acceptance d.config sys r ev (d.seats.get r) }.onSeat sys r ev := by
  simp only [request, acceptance]
  rcases requestCredentials ev with _ | creds
  · simp
  · simp only
    split
    · rfl
    · rw [List.append_nil]

theorem request_tidy (h : d.Tidy) (sys : Sys) (r : SeatRef) (ev : SeatEvent) :
    (d.request sys r ev).Tidy := by
  rw [request_eq]
  refine onSeat_tidy ?_ sys r ev
  exact h.congr rfl rfl

theorem alloc_tidy (h : d.Tidy) (id : String) :
    Tidy { d with seats := d.seats.alloc (Seat.new id) } := by
  refine ⟨?_, h.rests, h.placed, ?_, ?_⟩
  · intro r
    rw [Store.get_alloc]
    split
    · exact Seat.wf_new id
    · exact h.seats r
  · intro r hr
    have hr' : d.seats.next + 1 ≤ r := hr
    rw [Store.get_alloc_ne _ _ (by omega)]
    exact h.fresh r (by omega)
  · intro r k hk
    apply h.unborn r k
    by_cases hr : r = d.seats.next
    · rw [hr, h.fresh _ (le_refl _)]
      exact Nat.zero_le k
    · rwa [Store.get_alloc_ne _ _ hr] at hk

/-! ## What the manager's side can do -/

/-- One daemon becomes another by primitive changes: dispatches of seats with
events in `E`, requests that name a user, changes of single observers in `O`, entries of the log
in `L`, and what else the manager does for itself. -/
inductive Moves (E : SeatEvent → Prop) (O : Observer → Observer → Prop) (L : Record → Prop) :
    Daemon → Daemon → Prop where
  | refl (d : Daemon) : Moves E O L d d
  | trans {d d' d'' : Daemon} : Moves E O L d d' → Moves E O L d' d'' → Moves E O L d d''
  | onSeat (d : Daemon) (sys : Sys) (r : SeatRef) {ev : SeatEvent} :
      E ev → Moves E O L d (d.onSeat sys r ev)
  | request (d : Daemon) (sys : Sys) (r : SeatRef) {ev : SeatEvent} :
      ev.Named → Moves E O L d (d.request sys r ev)
  | alloc (d : Daemon) (id : String) :
      Moves E O L d { d with seats := d.seats.alloc (Seat.new id) }
  | observer (d : Daemon) (oid : ObserverId) {o : Observer} :
      O (d.observers oid) o → Moves E O L d (d.setObserver oid o)
  | record (d : Daemon) {e : Record} : L e → Moves E O L d (d.record e)
  | frame (d : Daemon) (table : List (String × SeatRef)) (started : Bool)
      (watches : List String) :
      Moves E O L d { d with seatTable := table, isStarted := started, watches := watches }

section Moves

variable {E : SeatEvent → Prop} {O : Observer → Observer → Prop} {L : Record → Prop}
  (hE : ∀ ev, requestCredentials ev = none → E ev) (hO : ∀ o, O o o.dispose)
  (hL : L .managerStopped) (hC : ∀ id registered, L (.createSeat id registered))

/-- No move changes the configuration or the initial user. -/
theorem Moves.settings (h : Moves E O L d d') :
    d'.config = d.config ∧ d'.initialUser = d.initialUser := by
  induction h with
  | trans _ _ ih₁ ih₂ => exact ⟨ih₂.1.trans ih₁.1, ih₂.2.trans ih₁.2⟩
  | onSeat d sys r _ =>
    rw [onSeat_eq]
    exact ⟨rfl, rfl⟩
  | request d sys r _ =>
    rw [request_eq, onSeat_eq]
    exact ⟨rfl, rfl⟩
  | _ => exact ⟨rfl, rfl⟩

/-- What moves leave in the log. -/
theorem Moves.log (h : Moves E O L d d') : ∃ lg, d'.log = d.log ++ lg ∧
    ∀ e ∈ lg, L e ∨ ∃ r creds, e = .accepted r creds ∨ e = .started r creds := by
  have hstarted : ∀ (r : SeatRef) (acts : List Act), ∀ e ∈ acts.filterMap (Act.record r),
      L e ∨ ∃ r creds, e = .accepted r creds ∨ e = .started r creds := by
    intro r acts e he
    obtain ⟨a, -, ha⟩ := List.mem_filterMap.mp he
    cases a with
    | sessionRemoteCreate x user password environment =>
      exact Or.inr ⟨r, _, Or.inr (Option.some.inj ha).symm⟩
    | _ => cases ha
  induction h with
  | trans _ _ ih₁ ih₂ =>
    obtain ⟨lg₁, h₁, hL₁⟩ := ih₁
    obtain ⟨lg₂, h₂, hL₂⟩ := ih₂
    refine ⟨lg₁ ++ lg₂, by rw [h₂, h₁, List.append_assoc], fun e he => ?_⟩
    rcases List.mem_append.mp he with he | he
    · exact hL₁ e he
    · exact hL₂ e he
  | onSeat d sys r _ =>
    rw [onSeat_eq]
    exact ⟨_, rfl, hstarted r _⟩
  | request d sys r _ =>
    rw [request_eq, onSeat_eq]
    refine ⟨_, List.append_assoc .., fun e he => ?_⟩
    rcases List.mem_append.mp he with he | he
    · refine Or.inr ⟨r, ?_⟩
      simp only [acceptance] at he
      split at he
      · split at he
        · exact ⟨_, Or.inl (List.mem_singleton.mp he)⟩
        · cases he
      · cases he
    · exact hstarted r _ e he
  | record d hLe => exact ⟨_, rfl, fun e he => Or.inl (List.mem_singleton.mp he ▸ hLe)⟩
  | _ => exact ⟨[], (List.append_nil _).symm, by simp⟩

include hE

theorem removeSeat_moves (d : Daemon) (sys : Sys) (id : String) :
    Moves E O L d (d.removeSeat sys id) := by
  simp only [removeSeat]
  split
  · exact .refl d
  · exact (Moves.frame d _ _ _).trans (.onSeat _ sys _ (hE .unref rfl))

theorem insertSeat_moves (d : Daemon) (sys : Sys) (id : String) (r : SeatRef) :
    Moves E O L d (d.insertSeat sys id r) := by
  simp only [insertSeat]
  split
  · exact .frame d _ _ _
  · exact (Moves.frame d _ _ _).trans (.onSeat _ sys _ (hE .unref rfl))

/-- What `_create_seat` does once its execution is recorded. A new seat is logged
in only when the settings ask for it. -/
theorem createSeat_rest (d : Daemon) (sys : Sys) (id : String)
    (hlogin : (d.config.autoLogin || d.initialUser.isSome) = true →
      ∀ args, E (.createSession args)) :
    Moves E O L (d.record (.createSeat id (d.getSeat id).isSome)) (d.createSeat sys id) := by
  have hmoves : Moves E O L (d.record (.createSeat id (d.getSeat id).isSome))
      ({ d.record (.createSeat id (d.getSeat id).isSome) with
        seats := d.seats.alloc (Seat.new id) }.insertSeat sys id d.seats.next) :=
    (Moves.alloc _ id).trans (insertSeat_moves hE _ sys id _)
  have hconfig : _ = d.config := hmoves.settings.1
  have huser : _ = d.initialUser := hmoves.settings.2
  simp only [createSeat]
  split
  · rename_i hl
    refine hmoves.trans (.onSeat _ sys _ (hlogin ?_ _))
    rw [← hconfig, ← huser]
    exact hl
  · exact hmoves

section Creating

include hC

theorem createSeat_moves (d : Daemon) (sys : Sys) (id : String)
    (hlogin : (d.config.autoLogin || d.initialUser.isSome) = true →
      ∀ args, E (.createSession args)) : Moves E O L d (d.createSeat sys id) :=
  (Moves.record d (hC id _)).trans (createSeat_rest hE d sys id hlogin)

theorem seatWatchCb_moves (d : Daemon) (sys : Sys) (id : String) (isFinal : Bool)
    (hlogin : (d.config.autoLogin || d.initialUser.isSome) = true →
      ∀ args, E (.createSession args)) : Moves E O L d (d.seatWatchCb sys id isFinal) := by
  simp only [seatWatchCb]
  split
  · exact createSeat_moves hE hC d sys id hlogin
  · exact .refl d

/-- The callbacks the watcher makes before it returns. -/
theorem foldl_seatWatchCb_moves (notices : List Notice) (d : Daemon) (sys : Sys) (id : String)
    (hlogin : (d.config.autoLogin || d.initialUser.isSome) = true →
      ∀ args, E (.createSession args)) :
    Moves E O L d (notices.foldl (fun d n => d.seatWatchCb sys id n.isFinal) d) := by
  induction notices generalizing d with
  | nil => exact .refl d
  | cons n notices ih =>
    have hfirst : Moves E O L d (d.seatWatchCb sys id n.isFinal) :=
      seatWatchCb_moves hE hC d sys id n.isFinal hlogin
    refine hfirst.trans (ih _ ?_)
    rw [hfirst.settings.1, hfirst.settings.2]
    exact hlogin

theorem addSeat_moves (d : Daemon) (sys : Sys) (fs : Fs) (id : String)
    (hlogin : (d.config.autoLogin || d.initialUser.isSome) = true →
      ∀ args, E (.createSession args)) : Moves E O L d (d.addSeat sys fs id) := by
  unfold addSeat
  split
  · exact .refl d
  · -- whatever the watcher did first, `_create_seat` follows
    have hthen : ∀ d₁, Moves E O L d d₁ → Moves E O L d (d₁.createSeat sys id) := by
      intro d₁ h₁
      refine h₁.trans (createSeat_moves hE hC d₁ sys id ?_)
      rw [h₁.settings.1, h₁.settings.2]
      exact hlogin
    simp only
    apply hthen _
    split
    · have hfold : Moves E O L d ((watchForFiles fs (watchItems d.config id)).1.foldl
          (fun d n => d.seatWatchCb sys id n.isFinal) d) :=
        foldl_seatWatchCb_moves hE hC _ d sys id hlogin
      split
      · exact hfold.trans (.frame _ _ _ _)
      · exact hfold
    · exact .refl d

end Creating

/-- One pass of the stop loop. -/
theorem stopPass_moves (sys : Sys) (table : List (String × SeatRef)) (d : Daemon)
    (delayed : Bool) : Moves E O L d (stopPass sys table (d, delayed)).1.1 := by
  induction table generalizing d delayed with
  | nil => exact .refl d
  | cons entry rest ih =>
    obtain ⟨id, r⟩ := entry
    have hboth : Moves E O L d ((d.onSeat sys r .connectStop).onSeat sys r .terminateSession) :=
      (Moves.onSeat d sys r (hE .connectStop rfl)).trans
        (.onSeat _ sys r (hE .terminateSession rfl))
    simp only [stopPass]
    split
    · exact hboth.trans (ih _ _)
    · exact hboth.trans (removeSeat_moves hE _ sys id)

theorem stopLoop_moves (sys : Sys) (iterate : List (String × SeatRef) → List (String × SeatRef))
    (fuel : ℕ) (d : Daemon) (delayed : Bool) :
    Moves E O L d (stopLoop sys iterate fuel (d, delayed)).1 := by
  induction fuel generalizing d delayed with
  | zero => exact .refl d
  | succ fuel ih =>
    have hpass : Moves E O L d (stopPass sys (iterate d.seatTable) (d, delayed)).1.1 :=
      stopPass_moves hE sys _ d delayed
    simp only [stopLoop]
    split
    · rename_i acc heq
      rw [heq] at hpass
      exact hpass
    · rename_i acc heq
      rw [heq] at hpass
      exact hpass.trans (ih acc.1 acc.2)

section Stopping

include hL

theorem sessionTerminatedCb_moves (sys : Sys) (id : String) (d : Daemon) :
    Moves E O L d (sessionTerminatedCb sys id d) := by
  have hremove : Moves E O L d (d.removeSeat sys id) := removeSeat_moves hE d sys id
  simp only [sessionTerminatedCb]
  split
  · exact hremove.trans (.record _ hL)
  · exact hremove

theorem sessionEvent_moves (d : Daemon) (sys : Sys) (r : SeatRef) (x : SessionRef)
    (e : SessionEvent) : Moves E O L d (d.sessionEvent sys r x e) := by
  have hiter : ∀ n (d : Daemon) id, Moves E O L d ((sessionTerminatedCb sys id)^[n] d) := by
    intro n
    induction n with
    | zero => exact fun d id => .refl d
    | succ n ih => exact fun d id => (sessionTerminatedCb_moves hE hL sys id d).trans (ih _ id)
  have hseat : Moves E O L d (d.onSeat sys r (.session x e)) :=
    .onSeat d sys r (hE (.session x e) rfl)
  simp only [sessionEvent]
  split
  · exact hseat.trans (hiter _ _ _)
  · exact hseat

theorem stop_moves (d : Daemon) (sys : Sys)
    (iterate : List (String × SeatRef) → List (String × SeatRef)) :
    Moves E O L d (d.stop sys iterate) := by
  have hloop : Moves E O L d (stopLoop sys iterate (d.seatTable.length + 1) (d, false)).1 :=
    stopLoop_moves hE sys iterate _ d false
  simp only [stop]
  split
  · exact hloop.trans (.frame _ _ _ _)
  · exact (hloop.trans (.record _ hL)).trans (.frame _ _ _ _)

include hO in
theorem dispose_moves (d : Daemon) (sys : Sys)
    (iterate : List (String × SeatRef) → List (String × SeatRef)) :
    Moves E O L d (d.dispose sys iterate) := by
  have hremove : ∀ (ids : List String) (d : Daemon),
      Moves E O L d (ids.foldl (fun d id => d.removeSeat sys id) d) := by
    intro ids
    induction ids with
    | nil => exact .refl
    | cons id ids ih => exact fun d => (removeSeat_moves hE d sys id).trans (ih _)
  have hroot : Moves E O L d (d.setObserver .root (d.observers .root).dispose) :=
    .observer d .root (hO _)
  simp only [dispose]
  refine Moves.trans ?_ (hremove _ _)
  split
  · exact hroot.trans (stop_moves hE hL _ sys iterate)
  · exact hroot

end Stopping

end Moves

end Daemon

/-- The events of the manager's side: not those of clients, idle sources or a
new configuration. -/
def DaemonEvent.isManagers : DaemonEvent → Bool
  | .clientAdded _ => false
  | .clientRemoved _ _ => false
  | .call _ _ _ => false
  | .idle _ => false
  | .sighup _ => false
  | _ => true

/-- The events on which a seat may be created. -/
def DaemonEvent.createsSeat : DaemonEvent → Bool
  | .addSeat _ _ => true
  | .seatAdded _ _ => true
  | .seatWatch _ _ => true
  | _ => false

namespace Daemon

variable {d d' : Daemon} {oid : ObserverId} {K : Observer → Prop}

/-- Every event of the manager's side is a move. -/
theorem step_moves {E : SeatEvent → Prop} {O : Observer → Observer → Prop} {L : Record → Prop}
    (hE : ∀ ev, requestCredentials ev = none → E ev) (hO : ∀ o, O o o.dispose)
    (hL : L .managerStopped) (hR : ∀ id, L (.seatRemoved id) ∧ L (.borrowedFreed id))
    {st : DaemonStep}
    (hst : st.event.isManagers = true)
    (hC : st.event.createsSeat = true → ∀ id registered, L (.createSeat id registered))
    (hlogin : (d.config.autoLogin || d.initialUser.isSome) = true →
      ∀ args, E (.createSession args)) : Moves E O L d (d.step st) := by
  simp only [step]
  cases he : st.event with
  | addSeat id fs => exact addSeat_moves hE (hC (by rw [he]; rfl)) d st.sys fs id hlogin
  | started => exact .frame d _ _ _
  | seatAdded id fs =>
    refine Moves.trans ?_ (.record _ (hR id).2)
    split
    · exact .refl d
    · exact addSeat_moves hE (hC (by rw [he]; rfl)) d st.sys fs id hlogin
  | seatRemoved id =>
    refine Moves.trans ?_ (.record _ (hR id).2)
    split
    · exact .refl d
    · exact (removeSeat_moves hE d st.sys id).trans (.record _ (hR id).1)
  | seatWatch id isFinal =>
    simp only
    split
    · exact seatWatchCb_moves hE (hC (by rw [he]; rfl)) d st.sys id isFinal hlogin
    · exact .refl d
  | authenticate seatId service username password =>
    simp only [authenticate]
    split
    · exact .refl d
    · exact .request d st.sys _ fun _ h => (by cases h)
  | delayedSession r k => exact .onSeat d st.sys r (hE (.delayedSession k) rfl)
  | session r x e => exact sessionEvent_moves hE hL d st.sys r x e
  | stop iterate => exact stop_moves hE hL d st.sys iterate
  | dispose iterate => exact dispose_moves hE hO hL d st.sys iterate
  | clientAdded oid => simp [he, DaemonEvent.isManagers] at hst
  | clientRemoved oid a => simp [he, DaemonEvent.isManagers] at hst
  | call oid a c => simp [he, DaemonEvent.isManagers] at hst
  | idle oid => simp [he, DaemonEvent.isManagers] at hst
  | sighup config => simp [he, DaemonEvent.isManagers] at hst

/-! ## What moves keep -/

/-- A property of observers that every new one has, and that its disposal and
the death of a seat do not take away. -/
structure Lasting (K : Observer → Prop) : Prop where
  new : ∀ manager seat flags, K (Observer.new manager seat flags)
  dispose : ∀ o, K o → K o.dispose
  forget : ∀ o r, o.Rests → K o → K (o.onSeatDispose r)

/-- A dispatch of a seat keeps a lasting property of every observer. -/
theorem onSeat_lasting (hK : Lasting K) (h : d.Tidy) (hd : ∀ oid, K (d.observers oid)) (sys : Sys)
    (r : SeatRef) (ev : SeatEvent) (oid : ObserverId) : K ((d.onSeat sys r ev).observers oid) := by
  rw [onSeat_eq]
  refine (heard_induct (J := fun o => o.Rests ∧ K o) (fun o ho => ho.1.connected)
    (fun o ho => ⟨Observer.dispose_rests ho.1, hK.dispose o ho.2⟩)
    (fun o ho => ⟨Observer.onSeatDispose_rests ho.1 r, hK.forget o r ho.1 ho.2⟩)
    ?_ ⟨h.rests oid, hd oid⟩).2
  exact fun k args _ _ => ⟨Observer.rests_new _ _ _, hK.new _ _ _⟩

/-- So does every move that changes single observers only by disposal. -/
theorem Moves.keeps {E : SeatEvent → Prop} {L : Record → Prop} (hK : Lasting K)
    (h : Moves E (fun o o' => o' = o.dispose) L d d') (ht : d.Tidy)
    (hd : ∀ oid, K (d.observers oid)) : d'.Tidy ∧ ∀ oid, K (d'.observers oid) := by
  induction h with
  | refl d => exact ⟨ht, hd⟩
  | trans _ _ ih₁ ih₂ =>
    obtain ⟨ht₁, hd₁⟩ := ih₁ ht hd
    exact ih₂ ht₁ hd₁
  | onSeat d sys r _ =>
    exact ⟨onSeat_tidy ht sys r _, onSeat_lasting hK ht hd sys r _⟩
  | request d sys r _ =>
    refine ⟨request_tidy ht sys r _, ?_⟩
    rw [request_eq]
    have hlog : ∀ lg, Tidy { d with log := d.log ++ lg } := fun _ => ht.congr rfl rfl
    exact onSeat_lasting hK (hlog _) hd sys r _
  | alloc d id => exact ⟨alloc_tidy ht id, hd⟩
  | observer d oid ho =>
    subst ho
    refine ⟨ht.setObserver (Observer.dispose_rests (ht.rests oid)) (placed_dispose (ht.placed oid))
      ?_, ?_⟩
    · rintro r k rfl hk
      rw [ht.unborn r k hk]
      rfl
    · intro oid'
      change K (Function.update d.observers oid _ oid')
      rw [Function.update_apply]
      split
      · exact hK.dispose _ (hd oid)
      · exact hd oid'
  | record d _ => exact ⟨ht.congr rfl rfl, hd⟩
  | frame d table started watches => exact ⟨ht.congr rfl rfl, hd⟩

/-- What an event of the manager's side keeps. -/
theorem step_keeps (hK : Lasting K) {st : DaemonStep} (hst : st.event.isManagers = true)
    (ht : d.Tidy) (hd : ∀ oid, K (d.observers oid)) :
    (d.step st).Tidy ∧ ∀ oid, K ((d.step st).observers oid) :=
  (step_moves (E := fun _ => True) (O := fun o o' => o' = o.dispose) (L := fun _ => True)
    (fun _ _ => trivial) (fun _ => rfl) trivial (fun _ => ⟨trivial, trivial⟩) hst (fun _ _ _ => trivial)
    fun _ _ => trivial).keeps hK ht hd

end Daemon

namespace Observer

variable {o o' : Observer}

/-! ## Clients -/

/-- What a client does to an observer at rest: it is still the same kind of
observer and at rest, and one that does not exist does not come into being. -/
structure Serves (o o' : Observer) : Prop where
  rests : o.Rests → o'.Rests
  manager : o'.manager = o.manager
  seat : o'.seat = o.seat
  flags : o'.enableFlags = o.enableFlags
  empty : o = {} → o' = {}

theorem Rests.of_wired (h : o.Rests) (hw : o'.Wired) (h₁ : o'.activeRequest = o.activeRequest)
    (h₂ : o'.connected = o.connected) (h₃ : o'.requestQueue = o.requestQueue)
    (h₄ : o'.enableFlags = o.enableFlags) : o'.Rests := by
  refine ⟨h₁.trans h.active, h₂.trans h.connected, hw, ?_⟩
  intro req hreq
  rw [h₃] at hreq
  obtain ⟨q, hq, hs, hname⟩ := h.queued req hreq
  refine ⟨q, hq, ?_, hname⟩
  simp only [isRequestSupported, h₄]
  exact hs

theorem handleDbusClientAdded_serves (o : Observer) : Serves o o.handleDbusClientAdded := by
  refine ⟨fun h => ?_, ?_, ?_, ?_, by rintro rfl; rfl⟩
  · refine h.of_wired (handleDbusClientAdded_wired h.wired) ?_ ?_ ?_ ?_
    all_goals
      simp only [handleDbusClientAdded]
      split <;> rfl
  all_goals
    simp only [handleDbusClientAdded]
    split <;> rfl

theorem handleDbusClientRemoved_serves (o : Observer) (a : AdapterRef) :
    Serves o (o.handleDbusClientRemoved a) := by
  refine ⟨fun h => ?_, ?_, ?_, ?_, by rintro rfl; simp [handleDbusClientRemoved]⟩
  · refine h.of_wired (handleDbusClientRemoved_wired h.wired a) ?_ ?_ ?_ ?_
    all_goals
      simp only [handleDbusClientRemoved]
      split <;> rfl
  all_goals
    simp only [handleDbusClientRemoved]
    split <;> rfl

theorem createDbusRequest_type (a : AdapterRef) (i : Invocation) (c : Call) :
    (createDbusRequest a i c).type = c.type := by
  simp only [createDbusRequest]
  cases c.type <;> rfl

/-- The adapter lets no login pass that does not name its user. -/
theorem createDbusRequest_username {c : Call} (hv : c.valid = true) (a : AdapterRef)
    (i : Invocation) (ht : (createDbusRequest a i c).type = .loginUser) :
    (createDbusRequest a i c).username.isSome = true := by
  rw [createDbusRequest_type] at ht
  simp only [Call.valid, ht, Bool.and_eq_true] at hv
  simp only [createDbusRequest, ht]
  exact hv.1.2

theorem handleCall_serves (h : o.Rests) (a : AdapterRef) (c : Call) :
    Serves o (o.handleCall a c) := by
  have hwired := handleCall_wired h.wired a c
  have hempty : o = {} → o.handleCall a c = {} := by
    rintro rfl
    simp [handleCall]
  rcases handleCall_cases h.wired a c with
    ⟨-, heq⟩ | ⟨-, -, heq⟩ | ⟨-, -, -, heq⟩ | ⟨-, hv, hs, heq⟩
  · rw [heq]
    exact ⟨fun h => h, rfl, rfl, rfl, fun h => h⟩
  · rw [heq] at hwired hempty ⊢
    exact ⟨fun h => h.of_wired hwired rfl rfl rfl rfl, rfl, rfl, rfl, hempty⟩
  · rw [heq] at hwired hempty ⊢
    exact ⟨fun h => h.of_wired hwired rfl rfl rfl rfl, rfl, rfl, rfl, hempty⟩
  · obtain ⟨id, n, hadd⟩ := addRequest_eq { o with received := o.received + 1 }
      { dbusRequest := some (createDbusRequest a o.received c) }
    rw [heq, hadd] at hwired hempty ⊢
    refine ⟨fun h => ⟨h.active, h.connected, hwired, ?_⟩, rfl, rfl, rfl, hempty⟩
    intro req hreq
    -- the new request is of a supported type, the others are in the queue already
    rcases hq : o.requestQueue with _ | queue
    · simp [hq] at hreq
    · simp only [hq, Option.map_some, Option.getD_some, List.mem_append,
        List.mem_singleton] at hreq
      rcases hreq with hreq | rfl
      · exact h.queued req (by rw [hq]; exact hreq)
      · refine ⟨_, rfl, ?_, createDbusRequest_username hv a _⟩
        rw [createDbusRequest_type]
        exact hs

end Observer

namespace Daemon

variable {d : Daemon} {oid : ObserverId}

/-- A client changes one observer. -/
theorem Tidy.serves (h : d.Tidy) {o : Observer} (ho : Observer.Serves (d.observers oid) o) :
    (d.setObserver oid o).Tidy := by
  refine h.setObserver (ho.rests (h.rests oid)) ?_ ?_
  swap
  · rintro r k rfl hk
    exact ho.empty (h.unborn r k hk)
  have hp := h.placed oid
  cases oid with
  | root => exact ho.seat.trans hp
  | ofSeat r k =>
    refine ⟨ho.manager.trans hp.1, ?_, ?_⟩
    · rw [ho.seat]
      exact hp.2.1
    · simp only [Observer.isRequestSupported, ho.flags]
      exact hp.2.2

end Daemon

end Tlm
