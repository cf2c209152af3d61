import Tlm.DaemonStop

/-!
# Once per seat

A seat that is visited twice by the stop loop is asked twice to terminate its
session, and the manager's handler is connected to it twice. When the session
ends, the handler runs as often: the first time it removes the seat, the second
time it finds the table as empty as before — and says once more that the
manager has stopped.

`shutdown_once_iff` says when that cannot happen: exactly if in every pass a seat
without a live session comes first, as long as there is one. The loop has no
control over that; the order is that of the hash table.
-/

namespace Tlm

namespace Seat

variable {Looked : String → ℕ → Prop} {cfg : Config} {sys : Sys} {s : Seat} {x : SessionRef}
  {e : SessionEvent}

/-! ## The end of a session -/

/-- Dropping an observer is not the end of a session. -/
theorem clearDbusObserver_silent (s : Seat) : ∃ acts, s.clearDbusObserver.trace = s.trace ++ acts ∧
    Act.sessionTerminated ∉ acts := by
  simp only [clearDbusObserver]
  split
  · exact ⟨[], by simp, by simp⟩
  · exact ⟨_, rfl, by simp⟩

theorem clearPrevDbusObserver_silent (s : Seat) :
    ∃ acts, s.clearPrevDbusObserver.trace = s.trace ++ acts ∧ Act.sessionTerminated ∉ acts := by
  simp only [clearPrevDbusObserver]
  split
  · exact ⟨[], by simp, by simp⟩
  · exact ⟨_, rfl, by simp⟩

theorem handleError_silent (code : ℤ) (x : SessionRef) (s : Seat) :
    ∃ acts, (s.handleError code x).trace = s.trace ++ acts ∧ Act.sessionTerminated ∉ acts := by
  simp only [handleError]
  split
  · obtain ⟨acts, hacts, hsilent⟩ :=
      clearDbusObserver_silent ((s.emit (.sessionError code)).closeActiveSession x)
    rw [hacts]
    rcases hs : s.session with _ | y
    · rw [closeActiveSession_none (s := s.emit (.sessionError code)) hs]
      exact ⟨[.sessionError code] ++ acts, by simp [emit], by simpa using hsilent⟩
    · obtain ⟨m, -, heq⟩ := closeActiveSession_eq (s := s.emit (.sessionError code)) hs x
      rw [heq]
      exact ⟨[.sessionError code, .closed x] ++ acts, by simp [emit], by simpa using hsilent⟩
  · exact ⟨[.sessionError code], rfl, by simp⟩

/-- What happens to a seat with a stop handler when one of its handles has
something to say: if the seat announces the end of its session, that session is
gone and there is no other. -/
theorem step_session_stopped (hl : s.Linked Looked) (hrefs : s.refs ≠ 0)
    (hstop : 0 < s.stopHandlers)
    (hm : .sessionTerminated ∈ Daemon.gained s (s.step ⟨cfg, sys, .session x e⟩)) :
    (s.step ⟨cfg, sys, .session x e⟩).session = none := by
  have hstep : s.step ⟨cfg, sys, .session x e⟩ = s.sessionEvent cfg sys x e := if_neg hrefs
  rw [hstep] at hm ⊢
  have hsame : ∀ m, Act.sessionTerminated ∉ Daemon.gained s (s.setSession x m) := by
    intro m
    have hgained : Daemon.gained s (s.setSession x m) = [] :=
      Daemon.gained_eq (by simp [setSession])
    rw [hgained]
    simp
  by_cases hx : s.session = some x
  · rcases sessionEvent_current hl hx cfg sys e with ⟨-, heq⟩ | ⟨g, -, heq⟩
    · rw [heq] at hm
      exact absurd hm (hsame _)
    · rw [heq] at hm ⊢
      generalize hm' : ((s.sessions.get x).handle e).1 = m at hm ⊢
      obtain ⟨ss, hend, -⟩ := released_frame x ((s.setSession x m).runHandler cfg sys x g)
      rw [hend] at hm ⊢
      change .sessionTerminated ∈ Daemon.gained s ((s.setSession x m).runHandler cfg sys x g) at hm
      change ((s.setSession x m).runHandler cfg sys x g).session = none
      cases g with
      | created =>
        obtain ⟨acts, hacts, hsilent⟩ :=
          clearPrevDbusObserver_silent ((s.setSession x m).emit .sessionCreated)
        have hgained : Daemon.gained s ((s.setSession x m).runHandler cfg sys x .created) =
            [.sessionCreated] ++ acts := by
          apply Daemon.gained_eq
          simp only [runHandler, handleSessionCreated]
          rw [hacts]
          simp [emit, setSession]
        rw [hgained] at hm
        exact absurd hm (by simpa using hsilent)
      | terminated =>
        rcases handleSessionTerminated_eq cfg sys x (s.setSession x m) with
          ⟨hr, -⟩ | ⟨-, ⟨-, heq'⟩ | ⟨hz, -⟩ | ⟨-, heq'⟩⟩
        · have hne : (s.setSession x m).stopHandlers = 0 := by
            simp only [relogs, Bool.and_eq_true, beq_iff_eq] at hr
            exact hr.1.1
          exact absurd hne (Nat.ne_of_gt hstop)
        · simp only [runHandler]
          rw [heq']
          exact (closed_cleared _ x).session
        · exact absurd hz (Nat.ne_of_gt hstop)
        · simp only [runHandler]
          rw [heq']
          obtain ⟨ss, acts, hframe⟩ := closeActiveSession_frame (s.setSession x m) x
          rw [hframe]
          rfl
      | error code =>
        obtain ⟨acts, hacts, hsilent⟩ := handleError_silent code x (s.setSession x m)
        have hgained : Daemon.gained s ((s.setSession x m).runHandler cfg sys x (.error code)) =
            acts := Daemon.gained_eq hacts
        rw [hgained] at hm
        exact absurd hm hsilent
  · rw [sessionEvent_stale hl hx] at hm
    exact absurd hm (hsame _)

/-- A seat without a session has nothing to hear from its old handles. -/
theorem step_session_none (hl : s.Linked Looked) (hs : s.session = none) :
    (s.step ⟨cfg, sys, .session x e⟩).session = none ∧
      Daemon.gained s (s.step ⟨cfg, sys, .session x e⟩) = [] := by
  by_cases hrefs : s.refs = 0
  · have hstep : s.step ⟨cfg, sys, .session x e⟩ = s := if_pos hrefs
    rw [hstep]
    exact ⟨hs, Daemon.gained_eq (by simp)⟩
  · have hstep : s.step ⟨cfg, sys, .session x e⟩ = s.sessionEvent cfg sys x e := if_neg hrefs
    rw [hstep, sessionEvent_stale hl (by rw [hs]; nofun)]
    exact ⟨hs, Daemon.gained_eq (by simp [setSession])⟩

/-! ## Being asked to stop -/

theorem askedToStop_iterate (n : ℕ) (s : Seat) :
    (askedToStop^[n] s).stopHandlers = s.stopHandlers + n := by
  induction n generalizing s with
  | zero => rfl
  | succ n ih =>
    rw [Function.iterate_succ_apply, ih, (askedToStop_endures s).stopHandlers]
    simp only
    omega

/-- The child of a live seat is sent `SIGHUP`. -/
theorem askedToStop_kills (hx : s.session = some x) (hlive : s.isLive = true) :
    (s.askedToStop.sessions.get x).kills = (s.sessions.get x).kills ++ [(.hup, true)] := by
  have hup : (s.sessions.get x).isSessiondUp = true := by simpa [isLive, hx] using hlive
  simp only [askedToStop]
  obtain ⟨acts, -, ⟨y, hy, -, heq⟩ | ⟨hdown, -⟩⟩ :=
    terminateSession_cases { s with stopHandlers := s.stopHandlers + 1 }
  · obtain rfl : x = y := Option.some.inj (hx.symm.trans hy)
    rw [heq]
    simp [SessionRemote.terminate, SessionRemote.sendSignal, hup]
  · have hdown' := hdown x hx
    simp only at hdown'
    rw [hup] at hdown'
    cases hdown'

/-- A seat that is not live has no session, before and after. -/
theorem session_none_of_dead (h : s.Wf Looked) (hdead : s.isLive = false) : s.session = none := by
  rcases hs : s.session with _ | x
  · rfl
  · have hup := (h.live x hs).1
    simp [isLive, hs, hup] at hdead

theorem askedToStop_session (s : Seat) : s.askedToStop.session = s.session := by
  simp only [askedToStop]
  obtain ⟨acts, -, ⟨x, -, -, heq⟩ | ⟨-, heq⟩⟩ :=
    terminateSession_cases { s with stopHandlers := s.stopHandlers + 1 }
  all_goals rw [heq]

theorem unref_session_none (hs : s.session = none) : s.unref.session = none := by
  rcases unref_cases s with ⟨-, heq⟩ | ⟨-, ss, acts, heq⟩
  · rw [heq]
    exact hs
  · rw [heq]

end Seat

namespace Daemon

variable {d d' d'' : Daemon} {sys : Sys} {p q : String × SeatRef} {l : List (String × SeatRef)}
  {iterate : List (String × SeatRef) → List (String × SeatRef)} {r : SeatRef}

/-! ## Counting visits -/

/-- Visits one after the other, each of an entry that is in the table then. -/
inductive Visiting (sys : Sys) : Daemon → List (String × SeatRef) → Daemon → Prop
  | nil (d : Daemon) : Visiting sys d [] d
  | cons {d d' : Daemon} {p : String × SeatRef} {l : List (String × SeatRef)}
    (hp : p ∈ d.seatTable) (h : Visiting sys (visit sys d p) l d') : Visiting sys d (p :: l) d'

theorem Visiting.append {l' : List (String × SeatRef)} (h : Visiting sys d l d')
    (h' : Visiting sys d' l' d'') : Visiting sys d (l ++ l') d'' := by
  induction h with
  | nil d => exact h'
  | cons hp _ ih => exact .cons hp (ih h')

/-- Live seats stay where they are while they are visited. -/
theorem visiting_live (sys : Sys) (hr : d.Registered)
    (hl : ∀ p ∈ l, p ∈ d.seatTable ∧ d.isLive p = true) :
    Visiting sys d l (l.foldl (visit sys) d) := by
  induction l generalizing d with
  | nil => exact .nil d
  | cons p l ih =>
    obtain ⟨⟨hp, hlive⟩, hl⟩ := List.forall_mem_cons.mp hl
    obtain ⟨hreg, hsame, htable, -, -⟩ := visit_visited hr hp sys
    rw [if_pos hlive] at htable
    exact .cons hp (ih hreg (by rw [htable, hsame]; exact hl))

/-- The loop consists of such visits. -/
theorem walk_visiting (hperm : ∀ t, (iterate t).Perm t) (hr : d.Registered) (sys : Sys) (n : ℕ) :
    Visiting sys d (walk d.isLive iterate n d.seatTable)
      ((walk d.isLive iterate n d.seatTable).foldl (visit sys) d) := by
  induction n generalizing d with
  | zero => exact .nil d
  | succ n ih =>
    simp only [walk]
    rcases hcut : (iterate d.seatTable).dropWhile d.isLive with _ | ⟨b, rest⟩
    · refine visiting_live sys hr fun p hp => ⟨(hperm _).mem_iff.mp hp, ?_⟩
      exact forall_good_of_dropWhile hcut p hp
    · have hlive : ∀ p ∈ (iterate d.seatTable).takeWhile d.isLive,
          p ∈ d.seatTable ∧ d.isLive p = true := fun p hp =>
        ⟨(hperm _).mem_iff.mp ((List.takeWhile_sublist _).subset hp), List.mem_takeWhile_imp hp⟩
      obtain ⟨hreg, hsame, htable⟩ := cut_visited hperm hr sys hcut
      have hrest := ih hreg
      rw [hsame, htable] at hrest
      rw [List.foldl_append, List.foldl_cons]
      refine (visiting_live sys hr hlive).append (.cons ?_ hrest)
      rw [(foldl_visit_live sys hr hlive).2.2]
      exact mem_of_dropWhile hperm hcut

/-- Entries of one seat are one entry. -/
theorem Registered.entry_eq (hr : d.Registered) (hp : p ∈ d.seatTable) (hq : q ∈ d.seatTable)
    (h : p.2 = q.2) : p = q :=
  List.inj_on_of_nodup_map hr.refs hp hq h

/-- A seat that is not in the table is not visited. -/
theorem Visiting.other (hv : Visiting sys d l d') (hr : d.Registered)
    (hne : ∀ p ∈ d.seatTable, p.2 ≠ r) :
    d'.seats.get r = d.seats.get r ∧ ∀ p ∈ l, p.2 ≠ r := by
  induction hv with
  | nil d => exact ⟨rfl, nofun⟩
  | @cons d d' q l hq _ ih =>
    obtain ⟨hreg, -, htable, hothers, -⟩ := visit_visited hr hq sys
    have hsub : ∀ p ∈ (visit sys d q).seatTable, p ∈ d.seatTable := by
      intro p hp
      rw [htable] at hp
      split at hp
      · exact hp
      · exact List.mem_of_mem_erase hp
    obtain ⟨hget, hmem⟩ := ih hreg fun p hp => hne p (hsub p hp)
    refine ⟨hget.trans (hothers r (hne q hq).symm), ?_⟩
    exact List.forall_mem_cons.mpr ⟨hne q hq, hmem⟩

/-- A live seat is asked to stop at each visit. -/
theorem Visiting.live (hv : Visiting sys d l d') (hr : d.Registered) (hp : p ∈ d.seatTable)
    (hlive : d.isLive p = true) :
    d'.seats.get p.2 = Seat.askedToStop^[l.count p] (d.seats.get p.2) := by
  induction hv with
  | nil d => rfl
  | @cons d d' q l hq _ ih =>
    obtain ⟨hreg, hsame, htable, hothers, hseat⟩ := visit_visited hr hq sys
    have hp' : p ∈ (visit sys d q).seatTable := by
      rw [htable]
      split
      · exact hp
      · rename_i hdead
        refine (List.mem_erase_of_ne ?_).mpr hp
        rintro rfl
        exact hdead hlive
    have hrest := ih hreg hp' (by rw [hsame]; exact hlive)
    rw [hrest, List.count_cons]
    by_cases hpq : q = p
    · subst hpq
      rw [hseat, if_pos hlive]
      simp [Function.iterate_succ_apply]
    · have hne : p.2 ≠ q.2 := fun h => hpq (hr.entry_eq hp hq h).symm
      rw [hothers p.2 hne]
      simp [hpq]

/-- Any other seat is visited, and dropped with it. -/
theorem Visiting.dead (hv : Visiting sys d l d') (hr : d.Registered) (hp : p ∈ d.seatTable)
    (hdead : d.isLive p = false) (hmem : p ∈ l) :
    d'.seats.get p.2 = (d.seats.get p.2).askedToStop.unref ∧ l.count p = 1 := by
  induction hv with
  | nil d => cases hmem
  | @cons d d' q l hq hv ih =>
    obtain ⟨hreg, hsame, htable, hothers, hseat⟩ := visit_visited hr hq sys
    rw [List.count_cons]
    by_cases hpq : q = p
    · subst hpq
      rw [hdead] at htable hseat
      have hgone : ∀ p ∈ (visit sys d q).seatTable, p.2 ≠ q.2 := by
        intro p hp' h
        rw [htable] at hp'
        have hpe := hr.entry_eq (List.mem_of_mem_erase hp') hq h
        subst hpe
        exact hr.keys.of_map.not_mem_erase hp'
      obtain ⟨hget, hnot⟩ := hv.other hreg hgone
      have hzero : l.count q = 0 := List.count_eq_zero.mpr fun h => hnot q h rfl
      rw [hget, hseat, hzero]
      simp
    · have hne : p.2 ≠ q.2 := fun h => hpq (hr.entry_eq hp hq h).symm
      have hp' : p ∈ (visit sys d q).seatTable := by
        rw [htable]
        split
        · exact hp
        · exact (List.mem_erase_of_ne (Ne.symm hpq)).mpr hp
      have hmem' : p ∈ l := by
        rcases List.mem_cons.mp hmem with h | h
        · exact absurd h.symm hpq
        · exact h
      obtain ⟨hget, hone⟩ := ih hreg hp' (by rw [hsame]; exact hdead) hmem'
      rw [hget, hone, hothers p.2 hne]
      simp [hpq]

/-- What `tlm_manager_stop` does to the seats, to the table and to the log. -/
theorem stop_visiting (hperm : ∀ t, (iterate t).Perm t) (hr : d.Registered) (sys : Sys) :
    ∃ d', Visiting sys d (walk d.isLive iterate (d.seatTable.length + 1) d.seatTable) d' ∧
      (d.stop sys iterate).seats = d'.seats ∧
      (d.stop sys iterate).seatTable = d.seatTable.filter d.isLive ∧
      (d.stop sys iterate).log.count .managerStopped = d.log.count .managerStopped +
        if d.seatTable.filter d.isLive = [] then 1 else 0 := by
  obtain ⟨-, htable⟩ := stopLoop_ends hperm hr sys d.countP_lt false
  have hdelayed := stopLoop_delayed hperm hr sys
  have hlog := stopLoop_log sys iterate (d.seatTable.length + 1) d false
  have hvisits : Visiting sys d (walk d.isLive iterate (d.seatTable.length + 1) d.seatTable)
      (stopLoop sys iterate (d.seatTable.length + 1) (d, false)).1 := by
    rw [stopLoop_eq hperm hr]
    exact walk_visiting hperm hr sys _
  refine ⟨_, hvisits, ?_, ?_, ?_⟩
  all_goals
    simp only [stop]
    cases hflag : (stopLoop sys iterate (d.seatTable.length + 1) (d, false)).2 with
    | false => simp [record, htable, hlog, hdelayed.mp hflag]
    | true =>
      have hne : d.seatTable.filter d.isLive ≠ [] := by
        intro h
        rw [hdelayed.mpr h] at hflag
        cases hflag
      simp [htable, hlog, hne]

/-! ## Before the manager is stopped -/

/-- The manager was never stopped: no handler is connected, and nobody was told. -/
structure Unstopped (d : Daemon) : Prop where
  handlers : ∀ r, (d.seats.get r).stopHandlers = 0
  log : .managerStopped ∉ d.log

theorem unstopped_new (config : Config) (initialUser : Option String) :
    (Daemon.new config initialUser).Unstopped :=
  ⟨fun _ => rfl, nofun⟩

theorem Unstopped.of_eq (h : d.Unstopped) (h₁ : d'.seats = d.seats) (h₂ : d'.log = d.log) :
    d'.Unstopped := by
  refine ⟨fun r => ?_, ?_⟩
  · rw [h₁]
    exact h.handlers r
  · rw [h₂]
    exact h.log

/-- A session that starts is not the end of the manager. -/
theorem managerStopped_notMem (r : SeatRef) (acts : List Act) :
    Record.managerStopped ∉ acts.filterMap (Act.record r) := by
  intro hm
  obtain ⟨a, -, ha⟩ := List.mem_filterMap.mp hm
  cases a <;> cases ha

theorem onSeat_unstopped {ev : SeatEvent} (hev : ev ≠ .connectStop) (h : d.Unstopped) (sys : Sys)
    (r : SeatRef) : (d.onSeat sys r ev).Unstopped := by
  refine ⟨fun r' => ?_, ?_⟩
  · rw [onSeat_seats, Store.get_set]
    split
    · rw [(Seat.step_frame _ _).2, h.handlers r]
      simp [Seat.connects, hev]
    · exact h.handlers r'
  · rw [onSeat_eq]
    simp only [List.mem_append, not_or]
    exact ⟨h.log, managerStopped_notMem r _⟩

theorem removeSeat_unstopped (h : d.Unstopped) (sys : Sys) (id : String) :
    (d.removeSeat sys id).Unstopped := by
  simp only [removeSeat]
  split
  · exact h
  · refine onSeat_unstopped (by simp) ?_ sys _
    exact h.of_eq rfl rfl

theorem enter_unstopped (h : d.Unstopped) (sys : Sys) (id : String) :
    ({ d with seats := d.seats.alloc (Seat.new id) }.insertSeat sys id d.seats.next).Unstopped := by
  have halloc : Unstopped { d with seats := d.seats.alloc (Seat.new id) } := by
    refine ⟨fun r => ?_, h.log⟩
    simp only [Store.get_alloc]
    split
    · rfl
    · exact h.handlers r
  simp only [insertSeat]
  split
  · exact halloc.of_eq rfl rfl
  · refine onSeat_unstopped (by simp) ?_ sys _
    exact halloc.of_eq rfl rfl

theorem Goes.unstopped {E : SeatRef → SeatEvent → Prop} {L : Record → Prop}
    (hE : ∀ r, ¬ E r .connectStop) (hL : ¬ L .managerStopped) (h : Goes E L d d')
    (hu : d.Unstopped) : d'.Unstopped := by
  induction h with
  | refl d => exact hu
  | trans _ _ ih₁ ih₂ => exact ih₂ (ih₁ hu)
  | onSeat d sys hev =>
    refine onSeat_unstopped ?_ hu sys _
    rintro rfl
    exact hE _ hev
  | enter d sys id => exact enter_unstopped hu sys id
  | remove d sys id => exact removeSeat_unstopped hu sys id
  | log d es hes =>
    refine ⟨hu.handlers, fun hm => ?_⟩
    rcases List.mem_append.mp hm with hm | hm
    · exact hu.log hm
    · exact hL (hes _ hm)
  | same _ h₂ h₃ => exact hu.of_eq h₂ h₃

end Daemon

/-- The events on which the manager is stopped. -/
def DaemonEvent.stops : DaemonEvent → Bool
  | .stop _ => true
  | .dispose _ => true
  | _ => false

namespace Daemon

variable {d d' : Daemon} {sys : Sys} {p : String × SeatRef}
  {iterate : List (String × SeatRef) → List (String × SeatRef)} {r : SeatRef}

/-- Nothing but stopping the manager stops it. -/
theorem step_unstopped (ht : d.Tidy) (h : d.Unstopped) {st : DaemonStep}
    (hst : st.event.stops = false) : (d.step st).Unstopped := by
  obtain ⟨sys, event⟩ := st
  have hgoes := step_goes ht ⟨sys, event⟩
  cases event with
  | session r x e =>
    -- no handler is connected, so none runs
    have hseat : (d.onSeat sys r (.session x e)).Unstopped := onSeat_unstopped (by nofun) h sys r
    simp only [step, sessionEvent]
    split
    · rw [h.handlers r]
      exact hseat
    · exact hseat
  | idle oid =>
    refine hgoes.unstopped ?_ (by simp [DaemonEvent.Notes]) h
    rintro r (hev | ⟨q, s, hop⟩)
    · cases hev
    · cases htype : q.type <;> simp [operation, htype] at hop
  | stop iterate => cases hst
  | dispose iterate => cases hst
  | _ =>
    exact hgoes.unstopped (by simp [DaemonEvent.Gives]) (by simp [DaemonEvent.Notes]) h

/-! ## Shutting down -/

/-- The manager is shutting down: it has one handler on each seat that is left,
none that could still run on any other, and has said that it has stopped once
there was no seat left. -/
structure ShuttingDown (d : Daemon) : Prop where
  tidy : d.Tidy
  registered : d.Registered
  handlers : ∀ p ∈ d.seatTable, (d.seats.get p.2).stopHandlers = 1
  others : ∀ r, (∀ p ∈ d.seatTable, p.2 ≠ r) →
    (d.seats.get r).stopHandlers = 0 ∨ (d.seats.get r).session = none
  log : d.log.count .managerStopped = if d.seatTable = [] then 1 else 0

/-- Sessions may come and go meanwhile. -/
theorem onSeat_shuttingDown (h : d.ShuttingDown) (sys : Sys) (r : SeatRef) (x : SessionRef)
    (e : SessionEvent) : (d.onSeat sys r (.session x e)).ShuttingDown := by
  have hstop : ∀ r', ((d.onSeat sys r (.session x e)).seats.get r').stopHandlers =
      (d.seats.get r').stopHandlers := by
    intro r'
    rw [onSeat_seats, Store.get_set]
    split
    · rename_i hr'
      rw [(Seat.step_frame _ _).2, hr']
      simp [Seat.connects]
    · rfl
  refine ⟨onSeat_tidy h.tidy sys r _, h.registered.evolves (onSeat_evolves (by simp) d sys r),
    ?_, ?_, ?_⟩
  · rw [onSeat_table]
    intro p hp
    rw [hstop]
    exact h.handlers p hp
  · rw [onSeat_table]
    intro r' hr'
    rcases h.others r' hr' with hz | hnone
    · exact Or.inl ((hstop r').trans hz)
    · right
      rw [onSeat_seats, Store.get_set]
      split
      · rename_i heq
        rw [heq] at hnone
        exact (Seat.step_session_none (h.tidy.seats r).toLinked hnone).1
      · exact hnone
  · rw [onSeat_table, ← h.log, onSeat_eq]
    simp only [List.count_append]
    rw [List.count_eq_zero.mpr (managerStopped_notMem r _), Nat.add_zero]

/-- The handler removes the seat, and tells when it was the last. -/
theorem sessionTerminatedCb_shuttingDown (h : d.ShuttingDown) (hp : p ∈ d.seatTable)
    (hnone : (d.seats.get p.2).session = none) (sys : Sys) :
    (sessionTerminatedCb sys p.1 d).ShuttingDown := by
  obtain ⟨htable, hseats⟩ := removeSeat_entry h.registered hp sys
  have hget : d.getSeat p.1 = some p.2 := h.registered.getSeat_iff.mpr hp
  have htidy : (d.removeSeat sys p.1).Tidy := by
    simp only [removeSeat, hget]
    refine onSeat_tidy ?_ sys p.2 .unref
    exact h.tidy.congr rfl rfl
  have hlog : (d.removeSeat sys p.1).log.count .managerStopped = 0 := by
    have hzero : d.log.count .managerStopped = 0 := by
      rw [h.log, if_neg (List.ne_nil_of_mem hp)]
    simp only [removeSeat, hget]
    rw [onSeat_eq]
    simp only [List.count_append]
    rw [List.count_eq_zero.mpr (managerStopped_notMem p.2 _), hzero]
  have hreg := removeSeat_registered h.registered sys p.1
  have hmem : ∀ q ∈ d.seatTable.erase p, q ∈ d.seatTable ∧ q.2 ≠ p.2 := by
    intro q hq
    refine ⟨List.mem_of_mem_erase hq, fun heq => ?_⟩
    obtain rfl := h.registered.entry_eq (List.mem_of_mem_erase hq) hp heq
    exact h.registered.keys.of_map.not_mem_erase hq
  have hhandlers : ∀ q ∈ (d.removeSeat sys p.1).seatTable,
      ((d.removeSeat sys p.1).seats.get q.2).stopHandlers = 1 := by
    intro q hq
    rw [htable] at hq
    obtain ⟨hq, hne⟩ := hmem q hq
    rw [hseats, Store.get_set_ne _ _ hne]
    exact h.handlers q hq
  have hothers : ∀ r, (∀ q ∈ (d.removeSeat sys p.1).seatTable, q.2 ≠ r) →
      ((d.removeSeat sys p.1).seats.get r).stopHandlers = 0 ∨
        ((d.removeSeat sys p.1).seats.get r).session = none := by
    intro r hr
    rw [hseats, Store.get_set]
    split
    · -- the seat that was removed had no session any more
      exact Or.inr (Seat.unref_session_none hnone)
    · rename_i hne
      refine h.others r fun q hq heq => ?_
      have hqp : q ≠ p := by
        rintro rfl
        exact hne heq.symm
      refine hr q ?_ heq
      rw [htable]
      exact (List.mem_erase_of_ne hqp).mpr hq
  simp only [sessionTerminatedCb]
  split
  · rename_i hempty
    rw [List.isEmpty_iff] at hempty
    refine ⟨htidy.congr rfl rfl, hreg.evolves (.of_eq rfl rfl), hhandlers, hothers, ?_⟩
    simp [record, hlog, hempty]
  · rename_i hempty
    rw [List.isEmpty_iff] at hempty
    exact ⟨htidy, hreg, hhandlers, hothers, by rw [hlog, if_neg hempty]⟩

/-- Whatever a session has to say, the shutdown goes on in good order. -/
theorem sessionEvent_shuttingDown (h : d.ShuttingDown) (sys : Sys) (r : SeatRef) (x : SessionRef)
    (e : SessionEvent) : (d.sessionEvent sys r x e).ShuttingDown := by
  have hseat := onSeat_shuttingDown h sys r x e
  have hlinked := (h.tidy.seats r).toLinked
  simp only [sessionEvent]
  split
  · rename_i hend
    by_cases hr : ∀ p ∈ d.seatTable, p.2 ≠ r
    · rcases h.others r hr with hz | hnone
      · rw [hz]
        exact hseat
      · rw [(Seat.step_session_none hlinked hnone).2] at hend
        cases hend
    · simp only [not_forall, not_not] at hr
      obtain ⟨p, hp, rfl⟩ := hr
      have hone := h.handlers p hp
      have hid := h.registered.id p hp
      have hgone : ((d.onSeat sys p.2 (.session x e)).seats.get p.2).session = none := by
        rw [onSeat_seats, Store.get_set_self]
        refine Seat.step_session_stopped hlinked ?_ ?_ hend
        · exact (h.registered.held p hp).refs_ne_zero
        · rw [hone]
          exact Nat.one_pos
      rw [hone, hid, Function.iterate_one]
      refine sessionTerminatedCb_shuttingDown hseat ?_ hgone sys
      rw [onSeat_table]
      exact hp
  · exact hseat

/-- One call has reached each seat once: one handler, and one signal to the child
of its session. -/
def StopsOnce (d d' : Daemon) : Prop :=
  ∀ p ∈ d.seatTable,
    (d'.seats.get p.2).stopHandlers = (d.seats.get p.2).stopHandlers + 1 ∧
    ∀ x, (d.seats.get p.2).session = some x → ((d'.seats.get p.2).sessions.get x).kills =
      ((d.seats.get p.2).sessions.get x).kills ++ [(.hup, true)]

/-- The manager has said as often as it should that it has stopped. -/
def SaysOnce (d : Daemon) : Prop :=
  d.log.count .managerStopped = if d.seatTable = [] then 1 else 0

/-- Each seat is reached once just when live seats do not come too early. -/
theorem stop_once_iff (hperm : ∀ t, (iterate t).Perm t) (ht : d.Tidy) (hr : d.Registered)
    (sys : Sys) : StopsOnce d (d.stop sys iterate) ↔ Orderly d.isLive iterate d.seatTable := by
  rw [← walk_once_iff hperm d.countP_lt hr.keys.of_map]
  obtain ⟨d', hv, hseats, -, -⟩ := stop_visiting hperm hr sys
  simp only [StopsOnce, hseats]
  refine forall₂_congr fun p hp => ?_
  cases hlive : d.isLive p with
  | true =>
    rw [hv.live hr hp hlive, Seat.askedToStop_iterate]
    refine ⟨fun h => Nat.add_left_cancel h.1, fun h => ⟨by rw [h], fun x hx => ?_⟩⟩
    rw [h, Function.iterate_one]
    exact Seat.askedToStop_kills hx hlive
  | false =>
    obtain ⟨hget, hone⟩ := hv.dead hr hp hlive (walk_mem hperm d.countP_lt hp)
    have hnone := Seat.session_none_of_dead (ht.seats p.2) hlive
    refine ⟨fun _ => hone, fun _ => ⟨?_, fun x hx => ?_⟩⟩
    · rw [hget, (Seat.unref_frame _).2.1]
      exact (Seat.askedToStop_endures _).stopHandlers
    · rw [hnone] at hx
      cases hx

/-- If it was the first call, the shutdown is in good order. -/
theorem stop_shuttingDown (hperm : ∀ t, (iterate t).Perm t) (ht : d.Tidy) (hr : d.Registered)
    (hu : d.Unstopped) (sys : Sys) (honce : StopsOnce d (d.stop sys iterate)) :
    (d.stop sys iterate).ShuttingDown := by
  obtain ⟨d', hv, hseats, htable, hlog⟩ := stop_visiting hperm hr sys
  refine ⟨step_tidy ht ⟨sys, .stop iterate⟩, step_registered ht hr ⟨sys, .stop iterate⟩, ?_, ?_, ?_⟩
  · intro p hp
    rw [htable] at hp
    have hp' := (List.mem_filter.mp hp).1
    rw [(honce p hp').1, hu.handlers]
  · intro r hne
    rw [hseats]
    by_cases hin : ∀ p ∈ d.seatTable, p.2 ≠ r
    · rw [(hv.other hr hin).1]
      exact Or.inl (hu.handlers r)
    · simp only [not_forall, not_not] at hin
      obtain ⟨p, hp, rfl⟩ := hin
      have hdead : d.isLive p = false := by
        by_contra hlive
        refine hne p ?_ rfl
        rw [htable]
        exact List.mem_filter.mpr ⟨hp, (Bool.not_eq_false _).mp hlive⟩
      obtain ⟨hget, -⟩ := hv.dead hr hp hdead (walk_mem hperm d.countP_lt hp)
      rw [hget]
      right
      apply Seat.unref_session_none
      rw [Seat.askedToStop_session]
      exact Seat.session_none_of_dead (ht.seats p.2) hdead
  · rw [hlog, htable, List.count_eq_zero.mpr hu.log, Nat.zero_add]

end Daemon

/-- The events of session handles. -/
def DaemonEvent.isSession : DaemonEvent → Bool
  | .session _ _ _ => true
  | _ => false

namespace Daemon

/-- **Shutdown once per seat, exactly**: the first call of `tlm_manager_stop` asks
every seat once to terminate its session and connects one handler to it, and in
whatever order sessions end afterwards the manager says once that it has
stopped, when its table has become empty — just when in every pass a seat
without a live session comes first as long as there is one. -/
theorem shutdown_once_iff (config : Config) (initialUser : Option String) (pre : List DaemonStep)
    (hpre : ∀ st ∈ pre, st.event.stops = false) (sys : Sys)
    (iterate : List (String × SeatRef) → List (String × SeatRef))
    (hperm : ∀ t, (iterate t).Perm t) (post : List DaemonStep)
    (hpost : ∀ st ∈ post, st.event.isSession = true) :
    let d := (Daemon.new config initialUser).run pre
    (StopsOnce d (d.stop sys iterate) ∧ Always step SaysOnce (d.stop sys iterate) post) ↔
      Orderly d.isLive iterate d.seatTable := by
  intro d
  have ht : d.Tidy := run_tidy config initialUser pre
  have hr : d.Registered := run_registered config initialUser pre
  have hu : d.Unstopped := by
    have hstep : ∀ (d : Daemon) (st : DaemonStep), st.event.stops = false → d.Tidy ∧ d.Unstopped →
        (d.step st).Tidy ∧ (d.step st).Unstopped :=
      fun _ st hst h => ⟨step_tidy h.1 st, step_unstopped h.1 h.2 hst⟩
    exact (always_of_step hstep ⟨tidy_new config initialUser, unstopped_new config initialUser⟩
      hpre).last.2
  rw [← stop_once_iff hperm ht hr sys]
  refine ⟨fun h => h.1, fun honce => ⟨honce, ?_⟩⟩
  have hstep : ∀ (d : Daemon) (st : DaemonStep), st.event.isSession = true → d.ShuttingDown →
      (d.step st).ShuttingDown := by
    rintro d ⟨sys, event⟩ hst h
    cases event with
    | session r x e => exact sessionEvent_shuttingDown h sys r x e
    | _ => cases hst
  exact (always_of_step hstep (stop_shuttingDown hperm ht hr hu sys honce) hpost).imp
    fun d h => h.log

/-- The empty seat comes first: all is well. -/
theorem shutdown_once_idle_first :
    let d := (Daemon.new manual none).run twoSeats
    StopsOnce d (d.stop {} id) ∧
      Always step SaysOnce (d.stop {} id) [⟨{}, .session 1 0 .childDown⟩] := by
  intro d
  refine (shutdown_once_iff manual none twoSeats (by decide) {} id (fun _ => List.Perm.refl _)
    [⟨{}, .session 1 0 .childDown⟩] (by decide)).mpr ?_
  have hperm : ∀ t : List (String × SeatRef), (id t).Perm t := fun _ => List.Perm.refl _
  have hcut : (id d.seatTable).dropWhile d.isLive = [("seat0", 0), ("seat1", 1)] := by decide
  have hrest : (id (d.seatTable.erase ("seat0", 0))).dropWhile d.isLive = [] := by decide
  exact (orderly_cut hperm hcut).mpr ⟨by decide, orderly_of_good hperm hrest⟩

/-- The live seat comes first: it is asked twice, and at the end the manager says
twice that it has stopped. -/
theorem live_seat_stopped_twice :
    let d := (Daemon.new manual none).run twoSeats
    let d' := d.stop {} List.reverse
    ¬ StopsOnce d d' ∧ ¬ Always step SaysOnce d' [⟨{}, .session 1 0 .childDown⟩] ∧
      (d'.run [⟨{}, .session 1 0 .childDown⟩]).log.count .managerStopped = 2 := by
  intro d d'
  refine ⟨fun h => ?_, fun h => ?_, by decide⟩
  · have hone := (h ("seat1", 1) (by decide)).1
    revert hone
    decide
  · have hlast : ((d'.run [⟨{}, .session 1 0 .childDown⟩])).SaysOnce := h.last
    revert hlast
    unfold SaysOnce
    decide

end Daemon

end Tlm
