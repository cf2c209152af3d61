import Tlm.DaemonTable
import Tlm.Restart

/-!
# Stopping the manager

`tlm_manager_stop` walks the table of seats: it connects its handler to the end
of the seat's session and asks the seat to terminate it. A seat that has none
refuses; its entry is removed, and the walk **starts over**. The order in which
a hash table is walked is anybody's guess, also from one pass to the next, so
it is a parameter here (`iterate`) of which nothing is known but that it
forgets no entry.

What a visit does depends only on whether the seat has a live session, and no
visit changes that of any seat; so the loop is the `walk` of the entries with
the live seats for good ones (`stopLoop_eq`).

* `stop_ends` — the loop ends, whatever the order; exactly the live seats are
  left in the table, and the manager has stopped at once iff there are none.
-/

namespace Tlm

namespace Seat

variable {s : Seat}

/-- The seat has a session, and its child runs. -/
def isLive (s : Seat) : Bool := s.session.any fun x => (s.sessions.get x).isSessiondUp

theorem canTerminate_iff (s : Seat) : s.CanTerminate ↔ s.isLive = true := by
  simp [CanTerminate, isLive, Option.any_eq_true]

/-- The manager's stop request, first part: connect the handler, terminate the
session. -/
def askedToStop (s : Seat) : Seat := { s with stopHandlers := s.stopHandlers + 1 }.terminateSession.1

theorem askedToStop_isLive (s : Seat) : s.askedToStop.isLive = s.isLive := by
  simp only [askedToStop]
  obtain ⟨acts, -, ⟨x, hx, hup, heq⟩ | ⟨-, heq⟩⟩ :=
    terminateSession_cases { s with stopHandlers := s.stopHandlers + 1 }
  · rw [heq]
    simp only at hx hup
    simp [isLive, hx, hup, SessionRemote.terminate, SessionRemote.sendSignal]
  · rw [heq]
    rfl

theorem askedToStop_endures (s : Seat) :
    Endures { s with stopHandlers := s.stopHandlers + 1 } s.askedToStop :=
  terminateSession_endures _

/-- A seat that is not live does not come alive by losing a reference. -/
theorem unref_isLive (h : s.isLive = false) : s.unref.isLive = false := by
  rcases unref_cases s with ⟨-, heq⟩ | ⟨-, ss, acts, heq⟩
  · rw [heq]
    exact h
  · rw [heq]
    rfl

end Seat

namespace Daemon

variable {d d' : Daemon} {sys : Sys} {p b : String × SeatRef} {delayed : Bool}
  {iterate : List (String × SeatRef) → List (String × SeatRef)}

/-- The seat of an entry has a live session. -/
def isLive (d : Daemon) (p : String × SeatRef) : Bool := (d.seats.get p.2).isLive

/-- What the loop does with an entry. -/
def visit (sys : Sys) (d : Daemon) (p : String × SeatRef) : Daemon :=
  let d' := (d.onSeat sys p.2 .connectStop).onSeat sys p.2 .terminateSession
  if d.isLive p then d' else d'.removeSeat sys p.1

/-! ## One visit -/

/-- The seat of an entry is asked to stop, and no other seat. -/
theorem asked_seats (hr : d.Registered) (hp : p ∈ d.seatTable) (sys : Sys) :
    ((d.onSeat sys p.2 .connectStop).onSeat sys p.2 .terminateSession).seats =
      d.seats.set p.2 (d.seats.get p.2).askedToStop := by
  have hrefs := (hr.held p hp).refs_ne_zero
  rw [onSeat_seats, onSeat_seats, Store.get_set_self, Store.set_set_self]
  simp only [Seat.step, Seat.dispatch, if_neg hrefs]
  rfl

/-- The answer of the seat is whether it is live. -/
theorem accepts_terminate (hr : d.Registered) (hp : p ∈ d.seatTable) (sys : Sys) :
    accepts (d.onSeat sys p.2 .connectStop).config sys .terminateSession
      ((d.onSeat sys p.2 .connectStop).seats.get p.2) = d.isLive p := by
  have hrefs := (hr.held p hp).refs_ne_zero
  rw [onSeat_seats, Store.get_set_self]
  simp only [Seat.step, Seat.dispatch, if_neg hrefs, accepts]
  rw [Bool.eq_iff_iff, Bool.and_eq_true, Seat.terminateSession_ok, Seat.canTerminate_iff]
  simp [hrefs, isLive, Seat.isLive]

/-- A pass goes on behind a live seat and is cut short by any other. -/
theorem stopPass_cons (hr : d.Registered) (hp : p ∈ d.seatTable) (sys : Sys)
    (rest : List (String × SeatRef)) (delayed : Bool) :
    stopPass sys (p :: rest) (d, delayed) =
      if d.isLive p then stopPass sys rest (visit sys d p, true)
      else ((visit sys d p, delayed), true) := by
  have hok := accepts_terminate hr hp sys
  obtain ⟨id, r⟩ := p
  simp only [stopPass, visit]
  rw [hok]
  cases d.isLive (id, r) with
  | true => rfl
  | false => rfl

/-- A removed entry is the one that was removed. -/
theorem Registered.filter_eq_erase (hr : d.Registered) (hp : p ∈ d.seatTable) :
    d.seatTable.filter (·.1 ≠ p.1) = d.seatTable.erase p := by
  rw [hr.keys.of_map.erase_eq_filter]
  refine List.filter_congr fun q hq => ?_
  rw [Bool.eq_iff_iff]
  simp only [ne_eq, decide_not, Bool.not_eq_eq_eq_not, Bool.not_true, decide_eq_false_iff_not,
    bne_iff_ne]
  refine not_congr ⟨fun h => ?_, fun h => by rw [h]⟩
  exact List.inj_on_of_nodup_map hr.keys hq hp h

/-- Removing an entry drops the reference to its seat. -/
theorem removeSeat_entry (hr : d.Registered) (hp : p ∈ d.seatTable) (sys : Sys) :
    (d.removeSeat sys p.1).seatTable = d.seatTable.erase p ∧
      (d.removeSeat sys p.1).seats = d.seats.set p.2 (d.seats.get p.2).unref := by
  have hget : d.getSeat p.1 = some p.2 := hr.getSeat_iff.mpr hp
  have hrefs := (hr.held p hp).refs_ne_zero
  simp only [removeSeat, hget]
  rw [onSeat_table, onSeat_seats]
  refine ⟨hr.filter_eq_erase hp, ?_⟩
  simp only [Seat.step, Seat.dispatch, if_neg hrefs]

/-- What a visit leaves of an entry's daemon. -/
structure Visited (d : Daemon) (p : String × SeatRef) (d' : Daemon) : Prop where
  registered : d'.Registered
  isLive : d'.isLive = d.isLive
  table : d'.seatTable = if d.isLive p then d.seatTable else d.seatTable.erase p
  others : ∀ r, r ≠ p.2 → d'.seats.get r = d.seats.get r
  seat : d'.seats.get p.2 = if d.isLive p then (d.seats.get p.2).askedToStop
    else (d.seats.get p.2).askedToStop.unref

/-- A visit asks the seat to stop, and drops it if it refuses. -/
theorem visit_visited (hr : d.Registered) (hp : p ∈ d.seatTable) (sys : Sys) :
    Visited d p (visit sys d p) := by
  have hasked := hr.evolves (asked_evolves d sys p.2)
  have htable := (asked_evolves d sys p.2).table
  have hseats := asked_seats hr hp sys
  simp only [visit]
  generalize (d.onSeat sys p.2 .connectStop).onSeat sys p.2 .terminateSession = d₁ at *
  -- no seat comes alive or dies, whether the entry is removed or not
  have hlive : ∀ (s' : Seat) (d' : Daemon), s'.isLive = d.isLive p →
      d'.seats = d.seats.set p.2 s' → d'.isLive = d.isLive := by
    intro s' d' hs' hd'
    funext q
    simp only [isLive, hd', Store.get_set] at hs' ⊢
    split
    · rename_i hq
      rw [hs', hq]
    · rfl
  cases hl : d.isLive p with
  | true =>
    simp only [if_true]
    refine ⟨hasked, hlive _ d₁ ?_ hseats, by rw [htable, if_pos hl], fun r hne => ?_, ?_⟩
    · rw [Seat.askedToStop_isLive]
      rfl
    · rw [hseats, Store.get_set_ne _ _ hne]
    · rw [hseats, Store.get_set_self, if_pos hl]
  | false =>
    simp only [Bool.false_eq_true, if_false]
    have hp₁ : p ∈ d₁.seatTable := by
      rw [htable]
      exact hp
    obtain ⟨hleft, hremoved⟩ := removeSeat_entry hasked hp₁ sys
    rw [hseats, Store.get_set_self, Store.set_set_self] at hremoved
    refine ⟨removeSeat_registered hasked sys p.1, hlive _ _ ?_ hremoved, ?_, fun r hne => ?_, ?_⟩
    · rw [hl]
      apply Seat.unref_isLive
      rw [Seat.askedToStop_isLive]
      exact hl
    · rw [hleft, htable, if_neg (by rw [hl]; nofun)]
    · rw [hremoved, Store.get_set_ne _ _ hne]
    · rw [hremoved, Store.get_set_self, if_neg (by rw [hl]; nofun)]

/-! ## The loop is a walk -/

/-- One pass: the live seats up to the first that is not, and that one. -/
theorem stopPass_eq (sys : Sys) {l : List (String × SeatRef)} (hr : d.Registered)
    (hl : ∀ p ∈ l, p ∈ d.seatTable) (delayed : Bool) :
    stopPass sys l (d, delayed) = match l.dropWhile d.isLive with
      | [] => ((l.foldl (visit sys) d, delayed || l.any d.isLive), false)
      | b :: _ => ((visit sys ((l.takeWhile d.isLive).foldl (visit sys) d) b,
          delayed || (l.takeWhile d.isLive).any d.isLive), true) := by
  induction l generalizing d delayed with
  | nil => simp [stopPass]
  | cons p l ih =>
    obtain ⟨hp, hl⟩ := List.forall_mem_cons.mp hl
    have hv := visit_visited hr hp sys
    rw [stopPass_cons hr hp]
    cases hlive : d.isLive p with
    | false => simp [hlive]
    | true =>
      have htable := hv.table
      rw [if_pos hlive] at htable
      have hrest := ih hv.registered (by rw [htable]; exact hl) true
      rw [hv.isLive] at hrest
      rw [if_pos rfl, hrest]
      simp [hlive]

/-- Visits of live seats leave the table as it is. -/
theorem foldl_visit_live (sys : Sys) {l : List (String × SeatRef)} (hr : d.Registered)
    (hl : ∀ p ∈ l, p ∈ d.seatTable ∧ d.isLive p = true) :
    (l.foldl (visit sys) d).Registered ∧ (l.foldl (visit sys) d).isLive = d.isLive ∧
      (l.foldl (visit sys) d).seatTable = d.seatTable := by
  induction l generalizing d with
  | nil => exact ⟨hr, rfl, rfl⟩
  | cons p l ih =>
    obtain ⟨⟨hp, hlive⟩, hl⟩ := List.forall_mem_cons.mp hl
    obtain ⟨hreg, hsame, htable, -, -⟩ := visit_visited hr hp sys
    rw [if_pos hlive] at htable
    obtain ⟨hreg', hsame', htable'⟩ := ih hreg (by rw [htable, hsame]; exact hl)
    exact ⟨hreg', hsame'.trans hsame, htable'.trans htable⟩

/-- A pass that was cut short at `b`: everything is as before, less that entry. -/
theorem cut_visited (hperm : ∀ t, (iterate t).Perm t) (hr : d.Registered) {rest} (sys : Sys)
    (hcut : (iterate d.seatTable).dropWhile d.isLive = b :: rest) :
    let d' := visit sys (((iterate d.seatTable).takeWhile d.isLive).foldl (visit sys) d) b
    d'.Registered ∧ d'.isLive = d.isLive ∧ d'.seatTable = d.seatTable.erase b := by
  have hmem : ∀ p ∈ (iterate d.seatTable).takeWhile d.isLive,
      p ∈ d.seatTable ∧ d.isLive p = true := by
    intro p hp
    refine ⟨(hperm _).mem_iff.mp ((List.takeWhile_sublist _).subset hp), ?_⟩
    exact List.mem_takeWhile_imp hp
  obtain ⟨hreg, hsame, htable⟩ := foldl_visit_live sys hr hmem
  have hb : b ∈ (((iterate d.seatTable).takeWhile d.isLive).foldl (visit sys) d).seatTable := by
    rw [htable]
    exact mem_of_dropWhile hperm hcut
  obtain ⟨hreg', hsame', htable', -, -⟩ := visit_visited hreg hb sys
  refine ⟨hreg', hsame'.trans hsame, ?_⟩
  rw [htable', hsame, (bad_of_dropWhile hcut).1, htable]
  simp

/-- The loop visits the entries of the walk, and is delayed by the live ones. -/
theorem stopLoop_eq (hperm : ∀ t, (iterate t).Perm t) (hr : d.Registered) (sys : Sys) (n : ℕ)
    (delayed : Bool) :
    stopLoop sys iterate n (d, delayed) =
      ((walk d.isLive iterate n d.seatTable).foldl (visit sys) d,
        delayed || (walk d.isLive iterate n d.seatTable).any d.isLive) := by
  induction n generalizing d delayed with
  | zero => simp [stopLoop, walk]
  | succ n ih =>
    have hpass := stopPass_eq sys hr (fun p hp => (hperm d.seatTable).mem_iff.mp hp) delayed
    simp only [stopLoop, walk]
    rcases hcut : (iterate d.seatTable).dropWhile d.isLive with _ | ⟨b, rest⟩
    · rw [hcut] at hpass
      simp only [hpass]
    · rw [hcut] at hpass
      obtain ⟨hreg, hsame, htable⟩ := cut_visited hperm hr sys hcut
      simp only [hpass]
      rw [ih hreg, hsame, htable]
      simp [(bad_of_dropWhile hcut).1, Bool.or_assoc]

/-! ## The end of the loop -/

/-- The loop of `tlm_manager_stop`, with as many passes as it takes. -/
inductive StopEnds (sys : Sys) (iterate : List (String × SeatRef) → List (String × SeatRef)) :
    Daemon × Bool → Daemon × Bool → Prop
  | done {acc acc' : Daemon × Bool}
    (h : stopPass sys (iterate acc.1.seatTable) acc = (acc', false)) :
    StopEnds sys iterate acc acc'
  | again {acc acc' acc'' : Daemon × Bool}
    (h : stopPass sys (iterate acc.1.seatTable) acc = (acc', true))
    (hrest : StopEnds sys iterate acc' acc'') : StopEnds sys iterate acc acc''

/-- The loop ends in one way only. -/
theorem StopEnds.unique {acc a c : Daemon × Bool} (h : StopEnds sys iterate acc a)
    (h' : StopEnds sys iterate acc c) : a = c := by
  induction h with
  | done h =>
    cases h' with
    | done h' =>
      rw [h] at h'
      exact (Prod.mk.inj h').1
    | again h' _ =>
      rw [h] at h'
      cases (Prod.mk.inj h').2
  | again h _ ih =>
    cases h' with
    | done h' =>
      rw [h] at h'
      cases (Prod.mk.inj h').2
    | again h' hrest =>
      rw [h] at h'
      obtain ⟨rfl, -⟩ := Prod.mk.inj h'
      exact ih hrest

/-- Without a seat that is not live, there are the live ones. -/
theorem filter_erase_of_false {good : String × SeatRef → Bool} {t : List (String × SeatRef)}
    (hnodup : t.Nodup) (hb : good b = false) : (t.erase b).filter good = t.filter good := by
  rw [hnodup.erase_eq_filter, List.filter_filter]
  refine List.filter_congr fun p _ => ?_
  cases hp : good p with
  | false => rfl
  | true =>
    have hne : p ≠ b := by
      rintro rfl
      rw [hb] at hp
      cases hp
    simp [hne]

/-- One pass for every seat that is not live, and one more, are enough. -/
theorem stopLoop_ends (hperm : ∀ t, (iterate t).Perm t) (hr : d.Registered) (sys : Sys) {n : ℕ}
    (hn : d.seatTable.countP (fun p => !d.isLive p) < n) (delayed : Bool) :
    StopEnds sys iterate (d, delayed) (stopLoop sys iterate n (d, delayed)) ∧
      (stopLoop sys iterate n (d, delayed)).1.seatTable = d.seatTable.filter d.isLive := by
  induction n generalizing d delayed with
  | zero => omega
  | succ n ih =>
    have hpass := stopPass_eq sys hr (fun p hp => (hperm d.seatTable).mem_iff.mp hp) delayed
    simp only [stopLoop]
    rcases hcut : (iterate d.seatTable).dropWhile d.isLive with _ | ⟨b, rest⟩
    · rw [hcut] at hpass
      have hall : ∀ p ∈ iterate d.seatTable, d.isLive p = true := forall_good_of_dropWhile hcut
      have hlive : ∀ p ∈ iterate d.seatTable, p ∈ d.seatTable ∧ d.isLive p = true :=
        fun p hp => ⟨(hperm _).mem_iff.mp hp, hall p hp⟩
      simp only [hpass]
      refine ⟨.done hpass, (foldl_visit_live sys hr hlive).2.2.trans ?_⟩
      exact (List.filter_eq_self.mpr fun p hp => hall p ((hperm _).mem_iff.mpr hp)).symm
    · rw [hcut] at hpass
      obtain ⟨hreg, hsame, htable⟩ := cut_visited hperm hr sys hcut
      have hless := countP_bad_erase (bad_of_dropWhile hcut).1 (mem_of_dropWhile hperm hcut)
      obtain ⟨hends, hleft⟩ := ih hreg (by rw [hsame, htable]; omega)
        (delayed || ((iterate d.seatTable).takeWhile d.isLive).any d.isLive)
      simp only [hpass]
      refine ⟨.again hpass hends, hleft.trans ?_⟩
      rw [hsame, htable]
      exact filter_erase_of_false hr.keys.of_map (bad_of_dropWhile hcut).1

/-- There are passes enough. -/
theorem countP_lt (d : Daemon) :
    d.seatTable.countP (fun p => !d.isLive p) < d.seatTable.length + 1 :=
  Nat.lt_succ_of_le List.countP_le_length

/-- The loop is delayed by the live seats, and leaves them. -/
theorem stopLoop_delayed (hperm : ∀ t, (iterate t).Perm t) (hr : d.Registered) (sys : Sys) :
    (stopLoop sys iterate (d.seatTable.length + 1) (d, false)).2 = false ↔
      d.seatTable.filter d.isLive = [] := by
  rw [stopLoop_eq hperm hr, Bool.false_or, List.any_eq_false, List.filter_eq_nil_iff]
  constructor
  · exact fun h p hp => h p (walk_mem hperm d.countP_lt hp)
  · exact fun h p hp => h p (mem_of_walk hperm hp)

/-- While the loop runs nobody is told that the manager has stopped. -/
theorem stopLoop_log (sys : Sys) (iterate : List (String × SeatRef) → List (String × SeatRef))
    (n : ℕ) (d : Daemon) (delayed : Bool) :
    (stopLoop sys iterate n (d, delayed)).1.log.count .managerStopped =
      d.log.count .managerStopped := by
  have hmoves : Moves (fun _ => True) (fun _ _ => True) (fun _ => False) d
      (stopLoop sys iterate n (d, delayed)).1 :=
    stopLoop_moves (fun _ _ => trivial) sys iterate n d delayed
  obtain ⟨lg, hlog, hlg⟩ := hmoves.log
  have hnone : lg.count .managerStopped = 0 := by
    refine List.count_eq_zero.mpr fun hm => ?_
    obtain h | ⟨r, creds, h | h⟩ := hlg _ hm
    · exact h
    · cases h
    · cases h
  rw [hlog, List.count_append, hnone, Nat.add_zero]

/-- **The stop loop ends with the right table**: in every state of every run and
for every order, there is exactly one way in which the loop ends. What it leaves
in the table are the seats with a live session, and `tlm_manager_stop` itself
says that the manager has stopped just when there are none. -/
theorem stop_ends (config : Config) (initialUser : Option String) (pre : List DaemonStep)
    (sys : Sys) (iterate : List (String × SeatRef) → List (String × SeatRef))
    (hperm : ∀ t, (iterate t).Perm t) :
    let d := (Daemon.new config initialUser).run pre
    (∃ d' delayed, StopEnds sys iterate (d, false) (d', delayed) ∧
      (∀ acc, StopEnds sys iterate (d, false) acc → acc = (d', delayed)) ∧
      d.stop sys iterate =
        { (if delayed then d' else d'.record .managerStopped) with isStarted := false } ∧
      ∀ p, p ∈ d'.seatTable ↔ p ∈ d.seatTable ∧ d.isLive p = true) ∧
    (d.stop sys iterate).log.count .managerStopped = d.log.count .managerStopped +
      if (d.stop sys iterate).seatTable = [] then 1 else 0 := by
  intro d
  have hr : d.Registered := run_registered config initialUser pre
  obtain ⟨hends, htable⟩ := stopLoop_ends hperm hr sys d.countP_lt false
  have hdelayed := stopLoop_delayed hperm hr sys
  have hlog := stopLoop_log sys iterate (d.seatTable.length + 1) d false
  rw [← htable] at hdelayed
  have hstop : d.stop sys iterate = { (if (stopLoop sys iterate (d.seatTable.length + 1)
      (d, false)).2 then (stopLoop sys iterate (d.seatTable.length + 1) (d, false)).1 else
        (stopLoop sys iterate (d.seatTable.length + 1) (d, false)).1.record .managerStopped) with
      isStarted := false } := rfl
  rw [hstop]
  generalize stopLoop sys iterate (d.seatTable.length + 1) (d, false) = acc at *
  obtain ⟨d', delayed⟩ := acc
  refine ⟨⟨d', delayed, hends, fun acc h => h.unique hends, rfl, fun p => ?_⟩, ?_⟩
  · rw [htable]
    exact List.mem_filter
  · cases delayed with
    | false =>
      have hnil : d'.seatTable = [] := hdelayed.mp rfl
      simp [record, hnil, hlog]
    | true =>
      have hne : d'.seatTable ≠ [] := fun h => (by cases hdelayed.mpr h)
      simp [hne, hlog]

/-- A daemon without automatic logins. -/
def manual : Config :=
  ⟨fun g => if g = "General" then
    some fun key => if key = "AUTO_LOGIN" then some "false" else none else none⟩

/-- Two seats, on the second of which somebody is logged in. -/
def twoSeats : List DaemonStep :=
  [⟨{}, .addSeat "seat0" {}⟩, ⟨{}, .addSeat "seat1" {}⟩,
    ⟨{ getUid := fun _ => some 1000, pam := fun _ _ _ => true },
      .authenticate "seat1" none (some "alice") (some "secret")⟩]

/-- Walked backwards, the live seat is visited twice, and stays. -/
theorem stop_ends_backwards :
    let d := (Daemon.new manual none).run twoSeats
    (∀ t : List (String × SeatRef), t.reverse.Perm t) ∧
      d.seatTable = [("seat0", 0), ("seat1", 1)] ∧
      (d.stop {} List.reverse).seatTable = [("seat1", 1)] ∧
      (d.stop {} List.reverse).log.count .managerStopped = 0 := by
  intro d
  have hperm : ∀ t : List (String × SeatRef), t.reverse.Perm t := List.reverse_perm
  have htable : (d.stop {} List.reverse).seatTable = [("seat1", 1)] := by decide
  refine ⟨hperm, by decide, htable, ?_⟩
  rw [(stop_ends manual none twoSeats {} List.reverse hperm).2, if_neg (by rw [htable]; nofun)]
  decide

end Daemon

end Tlm
