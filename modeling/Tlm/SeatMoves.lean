import Mathlib.Data.List.Induction
import Tlm.DaemonRequest
import Tlm.DaemonTable

/-!
# The seats of a daemon, and nothing else

Of all that the daemon is, many statements are about its seats alone, whatever observers,
clients and the table make them do. `SeatMove` is what can happen to the seats of a daemon:
a new one is made, or one of them is given an event. A sequence of moves is an interleaving of
the runs of all seats, and **every run of the daemon is one** (`run_moves`), under the
configurations and the answers of the system that the run has. What holds for all sequences
of moves therefore holds in the daemon.
-/

namespace Tlm

/-- What can happen to the seats. -/
inductive SeatMove : Type where
  /-- `tlm_seat_new` -/
  | enter (id : String)
  /-- a dispatch of seat `r` -/
  | step (r : SeatRef) (st : SeatStep)

namespace SeatMove

/-- The seats after a move. -/
def apply (seats : Store Seat) : SeatMove → Store Seat
  | .enter id => seats.alloc (Seat.new id)
  | .step r st => seats.set r ((seats.get r).step st)

/-- A dispatch of a seat is under a configuration and answers of the system in `P`. -/
def Under (P : Config → Sys → Prop) : SeatMove → Prop
  | .enter _ => True
  | .step _ st => P st.cfg st.sys

/-! ## Each seat runs -/

/-- **Each seat runs by itself**: a seat that was entered is what a run of a new seat leaves,
on dispatches that are among the moves; and a seat that was not has no references. -/
theorem seat_run (mvs : List SeatMove) (r : SeatRef) :
    let seats := mvs.foldl apply .empty
    (seats.next ≤ r → seats.get r = default) ∧
      (r < seats.next → ∃ id sts, .enter id ∈ mvs ∧ (∀ st ∈ sts, .step r st ∈ mvs) ∧
        seats.get r = (Seat.new id).run sts) := by
  induction mvs using List.reverseRecOn with
  | nil => exact ⟨fun _ => rfl, fun h => absurd h (Nat.not_lt_zero r)⟩
  | append_singleton mvs mv ih =>
    obtain ⟨hnew, hrun⟩ := ih
    simp only [List.foldl_append, List.foldl_cons, List.foldl_nil]
    generalize mvs.foldl apply .empty = seats at hnew hrun
    have hlater : r < seats.next → ∃ id sts, .enter id ∈ mvs ++ [mv] ∧
        (∀ st ∈ sts, .step r st ∈ mvs ++ [mv]) ∧ seats.get r = (Seat.new id).run sts := by
      intro hr
      obtain ⟨id, sts, hid, hsts, heq⟩ := hrun hr
      exact ⟨id, sts, List.mem_append_left _ hid,
        fun st hst => List.mem_append_left _ (hsts st hst), heq⟩
    cases mv with
    | enter id =>
      simp only [apply, Store.next_alloc]
      by_cases hr : r = seats.next
      · subst hr
        refine ⟨fun h => absurd h (Nat.not_succ_le_self _), fun _ => ⟨id, [], ?_, ?_, ?_⟩⟩
        · exact List.mem_append_right _ (List.mem_singleton_self _)
        · exact fun _ h => absurd h List.not_mem_nil
        · exact Store.get_alloc_self ..
      · rw [Store.get_alloc_ne _ _ hr]
        exact ⟨fun h => hnew (Nat.le_of_succ_le h),
          fun h => hlater (Nat.lt_of_le_of_ne (Nat.le_of_lt_succ h) hr)⟩
    | step r' st =>
      simp only [apply, Store.next_set]
      by_cases hr : r = r'
      · subst hr
        rw [Store.get_set_self]
        refine ⟨fun h => ?_, fun h => ?_⟩
        · -- nothing reaches a seat that is not there
          rw [hnew h]
          rfl
        · obtain ⟨id, sts, hid, hsts, heq⟩ := hlater h
          refine ⟨id, sts ++ [st], hid, fun st' hst' => ?_, ?_⟩
          · rcases List.mem_append.mp hst' with hst' | hst'
            · exact hsts st' hst'
            · rw [List.mem_singleton.mp hst']
              exact List.mem_append_right _ (List.mem_singleton_self _)
          · rw [heq, Seat.run, Seat.run, List.foldl_append]
            rfl
      · rw [Store.get_set_ne _ _ hr]
        exact ⟨hnew, hlater⟩

end SeatMove

namespace Daemon

/-- The daemon has only moved its seats, all at one configuration and with the answers `sys`
of the system. -/
structure Moved (sys : Sys) (d d' : Daemon) : Prop where
  config : d'.config = d.config
  seats : ∃ mvs : List SeatMove, d'.seats = mvs.foldl SeatMove.apply d.seats ∧
    ∀ mv ∈ mvs, mv.Under fun cfg sys' => cfg = d.config ∧ sys' = sys

variable {d d' d'' : Daemon} {sys : Sys}

/-! ## Primitive moves -/

theorem Moved.same (h₁ : d'.config = d.config) (h₂ : d'.seats = d.seats) : Moved sys d d' :=
  ⟨h₁, [], h₂, fun _ h => absurd h List.not_mem_nil⟩

theorem Moved.refl (d : Daemon) : Moved sys d d := .same rfl rfl

theorem Moved.trans (h : Moved sys d d') (h' : Moved sys d' d'') : Moved sys d d'' := by
  obtain ⟨hc, mvs, hs, hu⟩ := h
  obtain ⟨hc', mvs', hs', hu'⟩ := h'
  refine ⟨hc'.trans hc, mvs ++ mvs', ?_, fun mv hmv => ?_⟩
  · rw [hs', hs, List.foldl_append]
  · rcases List.mem_append.mp hmv with hmv | hmv
    · exact hu mv hmv
    · rw [← hc]
      exact hu' mv hmv

theorem moved_onSeat (d : Daemon) (r : SeatRef) (ev : SeatEvent) :
    Moved sys d (d.onSeat sys r ev) := by
  refine ⟨by rw [onSeat_eq], [.step r ⟨d.config, sys, ev⟩], ?_, fun mv hmv => ?_⟩
  · rw [onSeat_seats]
    rfl
  · rw [List.mem_singleton.mp hmv]
    exact ⟨rfl, rfl⟩

theorem moved_alloc (d : Daemon) (id : String) :
    Moved sys d { d with seats := d.seats.alloc (Seat.new id) } :=
  ⟨rfl, [.enter id], rfl, fun mv hmv => by rw [List.mem_singleton.mp hmv]; trivial⟩

theorem moved_request (d : Daemon) (r : SeatRef) (ev : SeatEvent) :
    Moved sys d (d.request sys r ev) := by
  have hlog : Moved sys d
      { d with log := d.log ++ acceptance d.config sys r ev (d.seats.get r) } := .same rfl rfl
  rw [request_eq]
  exact hlog.trans (moved_onSeat _ r ev)

/-! ## The manager -/

theorem moved_removeSeat (d : Daemon) (id : String) : Moved sys d (d.removeSeat sys id) := by
  simp only [removeSeat]
  split
  · exact .refl d
  · have htable : Moved sys d
        { d with seatTable := d.seatTable.filter fun p => p.1 ≠ id } := .same rfl rfl
    exact htable.trans (moved_onSeat _ _ .unref)

theorem moved_createSeat (d : Daemon) (id : String) : Moved sys d (d.createSeat sys id) := by
  have hinsert : ∀ (d : Daemon) r, Moved sys d (d.insertSeat sys id r) := by
    intro d r
    simp only [insertSeat]
    split
    · exact .same rfl rfl
    · have htable : Moved sys d
          { d with seatTable := d.seatTable.map fun p => if p.1 = id then (id, r) else p } :=
        .same rfl rfl
      exact htable.trans (moved_onSeat _ _ .unref)
  have hrecord : Moved sys d (d.record (.createSeat id (d.getSeat id).isSome)) := .same rfl rfl
  have hentered := (hrecord.trans (moved_alloc _ id)).trans (hinsert _ d.seats.next)
  simp only [createSeat]
  split
  · exact hentered.trans (moved_onSeat _ _ _)
  · exact hentered

theorem moved_seatWatchCb (d : Daemon) (id : String) (isFinal : Bool) :
    Moved sys d (d.seatWatchCb sys id isFinal) := by
  simp only [seatWatchCb]
  split
  · exact moved_createSeat d id
  · exact .refl d

theorem moved_addSeat (d : Daemon) (fs : Fs) (id : String) :
    Moved sys d (d.addSeat sys fs id) := by
  have hnotices : ∀ (notices : List Notice) (d : Daemon),
      Moved sys d (notices.foldl (fun d n => d.seatWatchCb sys id n.isFinal) d) := by
    intro notices
    induction notices with
    | nil => exact .refl
    | cons n notices ih => exact fun d => (moved_seatWatchCb d id _).trans (ih _)
  simp only [addSeat]
  split
  · exact .refl d
  · refine Moved.trans ?_ (moved_createSeat _ id)
    split
    · split
      · exact (hnotices _ d).trans (.same rfl rfl)
      · exact hnotices _ d
    · exact .refl d

theorem moved_sessionTerminatedCb (id : String) (n : ℕ) (d : Daemon) :
    Moved sys d ((sessionTerminatedCb sys id)^[n] d) := by
  induction n generalizing d with
  | zero => exact .refl d
  | succ n ih =>
    rw [Function.iterate_succ_apply]
    refine Moved.trans ?_ (ih _)
    simp only [sessionTerminatedCb]
    split
    · exact (moved_removeSeat d id).trans (.same rfl rfl)
    · exact moved_removeSeat d id

theorem moved_stopPass (entries : List (String × SeatRef)) (d : Daemon) (delayed : Bool) :
    Moved sys d (stopPass sys entries (d, delayed)).1.1 := by
  induction entries generalizing d delayed with
  | nil => exact .refl d
  | cons p entries ih =>
    obtain ⟨id, r⟩ := p
    have hasked : Moved sys d ((d.onSeat sys r .connectStop).onSeat sys r .terminateSession) :=
      (moved_onSeat d r _).trans (moved_onSeat _ r _)
    simp only [stopPass]
    split
    · exact hasked.trans (ih _ _)
    · exact hasked.trans (moved_removeSeat _ id)

theorem moved_stop (d : Daemon) (iterate : List (String × SeatRef) → List (String × SeatRef)) :
    Moved sys d (d.stop sys iterate) := by
  have hloop : ∀ n (acc : Daemon × Bool), Moved sys acc.1 (stopLoop sys iterate n acc).1 := by
    intro n
    induction n with
    | zero => exact fun acc => .refl _
    | succ n ih =>
      rintro ⟨d, delayed⟩
      have hpass : Moved sys d (stopPass sys (iterate d.seatTable) (d, delayed)).1.1 :=
        moved_stopPass _ d delayed
      simp only [stopLoop]
      split
      · rename_i acc heq
        rw [heq] at hpass
        exact hpass
      · rename_i acc heq
        rw [heq] at hpass
        exact hpass.trans (ih acc)
  have hend := hloop (d.seatTable.length + 1) (d, false)
  simp only [stop]
  refine hend.trans ?_
  split
  · exact .same rfl rfl
  · exact .same rfl rfl

theorem moved_dispose (d : Daemon)
    (iterate : List (String × SeatRef) → List (String × SeatRef)) :
    Moved sys d (d.dispose sys iterate) := by
  have hremove : ∀ (ids : List String) (d : Daemon),
      Moved sys d (ids.foldl (fun d id => d.removeSeat sys id) d) := by
    intro ids
    induction ids with
    | nil => exact .refl
    | cons id ids ih => exact fun d => (moved_removeSeat d id).trans (ih _)
  have hroot : Moved sys d (d.setObserver .root (d.observers .root).dispose) := .same rfl rfl
  simp only [dispose]
  refine Moved.trans ?_ (hremove _ _)
  split
  · exact hroot.trans (moved_stop _ iterate)
  · exact hroot

/-! ## A request -/

theorem moved_handOver (d : Daemon) (r : SeatRef) (q : DbusRequest) :
    Moved sys d (d.handOver sys r q) := by
  simp only [handOver]
  split
  · exact moved_request d r _
  · exact .refl d

theorem moved_setObserver (d : Daemon) (oid : ObserverId) (o : Observer) :
    Moved sys d (d.setObserver oid o) := .same rfl rfl

theorem moved_idle (h : d.Tidy) (oid : ObserverId) : Moved sys d (d.step ⟨sys, .idle oid⟩) := by
  rcases idle_cases h sys oid with ⟨-, heq⟩ | ⟨-, heq⟩ | ⟨q, rest, -, hq, heq⟩
  · rw [heq]
    exact .refl d
  · rw [heq]
    exact moved_setObserver d oid _
  · rw [heq]
    rcases processRequest_eq h sys hq with ⟨-, heq⟩ | ⟨r, -, -, heq⟩ | ⟨r, -, -, -, -, heq⟩
    · rw [heq]
      exact moved_setObserver d oid _
    · rw [heq]
      exact ((moved_onSeat d r .ref).trans (moved_handOver _ r q)).trans
        (moved_setObserver _ oid _)
    · rw [heq]
      exact (moved_handOver d r q).trans (moved_setObserver _ oid _)

/-! ## A step, and a run -/

/-- **What a step does to the seats** is a sequence of moves; only `SIGHUP` does more than
that, and makes none. -/
theorem step_moved (h : d.Tidy) (st : DaemonStep) :
    Moved st.sys d (d.step st) ∨
      ∃ config, st.event = .sighup config ∧ d.step st = { d with config := config } := by
  obtain ⟨sys, event⟩ := st
  cases event with
  | addSeat id fs => exact .inl (moved_addSeat d fs id)
  | seatAdded id fs =>
    simp only [step, onSeatAdded]
    split
    · exact .inl (.same rfl rfl)
    · exact .inl ((moved_addSeat d fs id).trans (.same rfl rfl))
  | seatRemoved id =>
    simp only [step, onSeatRemoved]
    split
    · exact .inl (.same rfl rfl)
    · exact .inl ((moved_removeSeat d id).trans (.same rfl rfl))
  | seatWatch id isFinal =>
    simp only [step]
    split
    · exact .inl (moved_seatWatchCb d id isFinal)
    · exact .inl (.refl d)
  | authenticate seatId service username password =>
    simp only [step, authenticate]
    split
    · exact .inl (.refl d)
    · exact .inl (moved_request d _ _)
  | idle oid => exact .inl (moved_idle h oid)
  | delayedSession r k => exact .inl (moved_onSeat d r _)
  | session r x e =>
    simp only [step, sessionEvent]
    split
    · exact .inl ((moved_onSeat d r _).trans (moved_sessionTerminatedCb _ _ _))
    · exact .inl (moved_onSeat d r _)
  | stop iterate => exact .inl (moved_stop d iterate)
  | dispose iterate => exact .inl (moved_dispose d iterate)
  | sighup config => exact .inr ⟨config, rfl, rfl⟩
  | started => exact .inl (.same rfl rfl)
  | clientAdded oid => exact .inl (.same rfl rfl)
  | clientRemoved oid a => exact .inl (.same rfl rfl)
  | call oid a c => exact .inl (.same rfl rfl)

/-- The configurations a run has in force, and the answers of the system it brings. -/
def Brings (config : Config) (sts : List DaemonStep) (cfg : Config) (sys : Sys) : Prop :=
  (cfg = config ∨ ∃ st ∈ sts, st.event = .sighup cfg) ∧ ∃ st ∈ sts, st.sys = sys

theorem Brings.tail {config : Config} {st : DaemonStep} {sts : List DaemonStep} {cfg : Config}
    (hconfig : config = d.config ∨ st.event = .sighup config)
    (h : Brings config sts cfg sys) : Brings d.config (st :: sts) cfg sys := by
  obtain ⟨hcfg, st', hst', hsys⟩ := h
  refine ⟨?_, st', List.mem_cons_of_mem _ hst', hsys⟩
  rcases hcfg with rfl | ⟨st', hst', hev⟩
  · exact hconfig.imp_right fun hev => ⟨st, List.mem_cons_self, hev⟩
  · exact .inr ⟨st', List.mem_cons_of_mem _ hst', hev⟩

/-- From any tidy state on. -/
theorem run_moves_from (h : d.Tidy) (sts : List DaemonStep) :
    ∃ mvs : List SeatMove, (d.run sts).seats = mvs.foldl SeatMove.apply d.seats ∧
      ∀ mv ∈ mvs, mv.Under (Brings d.config sts) := by
  induction sts generalizing d with
  | nil => exact ⟨[], rfl, fun _ h => absurd h List.not_mem_nil⟩
  | cons st sts ih =>
    obtain ⟨later, hlater, hunder⟩ := ih (step_tidy h st)
    have hbrings : ∀ {config}, config = d.config ∨ st.event = .sighup config →
        ∀ {mv : SeatMove}, mv.Under (Brings config sts) →
          mv.Under (Brings d.config (st :: sts)) := by
      intro config hconfig mv hmv
      cases mv with
      | enter id => trivial
      | step r sst => exact hmv.tail hconfig
    rcases step_moved h st with ⟨hconfig, mvs, hmvs, hnow⟩ | ⟨config, hev, heq⟩
    · refine ⟨mvs ++ later, ?_, fun mv hmv => ?_⟩
      · rw [List.foldl_append, ← hmvs]
        exact hlater
      · rcases List.mem_append.mp hmv with hmv | hmv
        · have hmv := hnow mv hmv
          cases mv with
          | enter id => trivial
          | step r sst => exact ⟨.inl hmv.1, st, List.mem_cons_self, hmv.2.symm⟩
        · exact hbrings (.inl hconfig) (hunder mv hmv)
    · refine ⟨later, ?_, fun mv hmv => ?_⟩
      · rw [show d.seats = (d.step st).seats by rw [heq]]
        exact hlater
      · refine hbrings (.inr ?_) (hunder mv hmv)
        rw [heq]
        exact hev

/-- **Every run of the daemon moves its seats** and does nothing else to them. What a step does
to them is a sequence of moves, under the configuration then in force and the answers of the
system to this step; and the seats that a run ends with are those of some sequence of new seats
and dispatches of single seats. -/
theorem run_moves (config : Config) (initialUser : Option String) (sts : List DaemonStep) :
    Along step (fun d st => ∃ mvs : List SeatMove,
        (d.step st).seats = mvs.foldl SeatMove.apply d.seats ∧
        ∀ mv ∈ mvs, mv.Under fun cfg sys => cfg = d.config ∧ sys = st.sys)
      (Daemon.new config initialUser) sts ∧
    ∃ mvs : List SeatMove,
      ((Daemon.new config initialUser).run sts).seats = mvs.foldl SeatMove.apply .empty ∧
      ∀ mv ∈ mvs, mv.Under (Brings config sts) := by
  have htidy : Always step Tidy (Daemon.new config initialUser) sts :=
    always_of_step (E := fun _ => True) (I := Tidy) (fun d st _ h => step_tidy h st)
      (tidy_new config initialUser) fun _ _ => trivial
  refine ⟨htidy.along fun d st h => ?_, run_moves_from (tidy_new config initialUser) sts⟩
  rcases step_moved h st with hmoved | ⟨config, -, heq⟩
  · exact hmoved.seats
  · exact ⟨[], by rw [heq]; rfl, fun _ h => absurd h List.not_mem_nil⟩

end Daemon

end Tlm
