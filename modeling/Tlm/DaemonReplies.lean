import Tlm.DaemonRequest

/-!
# Requests and their replies

What becomes of the requests of clients, over whole runs of the daemon, each
with the defect that limits it:

* `run_scheduled` — a queue that is not empty has an idle source, **iff** no
  idle dispatch leaves requests behind without anybody signalling an error;
* `run_accounted` — every call an adapter has taken is answered or held, once,
  **iff** no client makes a well-formed call of a type the socket does not
  serve;
* `run_reply` — the reply tells the outcome of the operation **iff** the
  operation was accepted, or the request came through the root socket and the
  seat itself refused it;
* `run_isolation` — a request changes no seat but the one it is for. This one
  holds without exception.
-/

namespace Tlm

namespace Daemon

variable {d : Daemon} {oid : ObserverId} {K : Observer → Prop} {q : DbusRequest}

/-! ## One step -/

/-- What holds of all observers but one holds of all once it holds of that one. -/
theorem forall_setObserver_iff {o : Observer} (hd : ∀ oid, K (d.observers oid)) :
    (∀ oid', K ((d.setObserver oid o).observers oid')) ↔ K o := by
  constructor
  · intro h
    have ho := h oid
    rwa [setObserver_observers] at ho
  · intro ho oid'
    change K (Function.update d.observers oid o oid')
    rw [Function.update_apply]
    split
    · exact ho
    · exact hd oid'

/-- **Exactness for observers**: a lasting property that clients keep, except by
a call that meets `B`, and that idle sources keep, except when they meet `C`,
survives exactly the steps that do neither. -/
theorem step_exact (hK : Lasting K) {B : Observer → AdapterRef → Call → Prop}
    {C : Daemon → Sys → ObserverId → Prop}
    (hadded : ∀ o, Observer.Rests o → K o → K o.handleDbusClientAdded)
    (hremoved : ∀ o a, Observer.Rests o → K o → K (o.handleDbusClientRemoved a))
    (hcall : ∀ o a c, Observer.Rests o → K o → (K (o.handleCall a c) ↔ ¬ B o a c))
    (hidle : ∀ d sys oid, Tidy d → K (d.observers oid) →
      (K ((d.step ⟨sys, .idle oid⟩).observers oid) ↔ ¬ C d sys oid))
    (h : d.Tidy) (hd : ∀ oid, K (d.observers oid)) (st : DaemonStep) :
    (∀ oid, K ((d.step st).observers oid)) ↔
      (∀ oid a c, st.event = .call oid a c → ¬ B (d.observers oid) a c) ∧
        ∀ oid, st.event = .idle oid → ¬ C d st.sys oid := by
  cases hst : st.event.isManagers with
  | true =>
    refine ⟨fun _ => ⟨?_, ?_⟩, fun _ => (step_keeps hK hst h hd).2⟩
    · rintro oid a c he
      rw [he] at hst
      cases hst
    · rintro oid he
      rw [he] at hst
      cases hst
  | false =>
    obtain ⟨sys, event⟩ := st
    cases event with
    | clientAdded oid =>
      refine (forall_setObserver_iff hd).trans ⟨fun _ => ⟨?_, ?_⟩, fun _ => hadded _ (h.rests oid) (hd oid)⟩
      · rintro oid a c ⟨⟩
      · rintro oid ⟨⟩
    | clientRemoved oid a =>
      refine (forall_setObserver_iff hd).trans
        ⟨fun _ => ⟨?_, ?_⟩, fun _ => hremoved _ a (h.rests oid) (hd oid)⟩
      · rintro oid a c ⟨⟩
      · rintro oid ⟨⟩
    | call oid a c =>
      refine ((forall_setObserver_iff hd).trans (hcall _ a c (h.rests oid) (hd oid))).trans
        ⟨fun hB => ⟨?_, ?_⟩, fun hB => hB.1 oid a c rfl⟩
      · rintro oid a c ⟨⟩
        exact hB
      · rintro oid ⟨⟩
    | idle oid =>
      have hothers := (idle_keeps hK h hd sys oid).2
      refine Iff.trans ⟨fun h => h oid, fun h oid' => ?_⟩
        ((hidle d sys oid h (hd oid)).trans ⟨fun hC => ⟨?_, ?_⟩, fun hC => hC.2 oid rfl⟩)
      · by_cases hoid : oid' = oid
        · rw [hoid]
          exact h
        · exact hothers oid' hoid
      · rintro oid a c ⟨⟩
      · rintro oid ⟨⟩
        exact hC
    | sighup config =>
      refine ⟨fun _ => ⟨?_, ?_⟩, fun _ => hd⟩
      · rintro oid a c ⟨⟩
      · rintro oid ⟨⟩
    | _ => cases hst

/-! ## No stranded request -/

/-- The idle source of `oid` takes one of several requests, and nothing will make
the observer look at the others: the request is not one of the root socket that
its seat refuses with a signal. -/
def Strands (d : Daemon) (sys : Sys) (oid : ObserverId) : Prop :=
  (d.observers oid).requestId ≠ 0 ∧ ∃ q req rest,
    (d.observers oid).requestQueue = some ({ dbusRequest := some q } :: req :: rest) ∧
    ¬ ∃ r, (d.observers oid).seat = none ∧ (d.observers oid).manager = true ∧
      q.seatId.bind d.getSeat = some r ∧ Refused d.config sys q (d.seats.get r)

theorem lasting_scheduled : Lasting Observer.Scheduled := by
  refine ⟨fun _ _ _ h => absurd rfl h, fun o _ => Observer.dispose_scheduled o, ?_⟩
  intro o r hr h
  rcases Observer.onSeatDispose_eq hr r with heq | heq
  · rw [heq]
    exact h
  · rw [heq]
    exact h

/-- An observer without idle source is as it should be only if its queue is
empty. -/
theorem scheduled_iff_of_unscheduled {o : Observer} {rest : List Request}
    (hq : o.requestQueue = some rest) (hid : o.requestId = 0) : o.Scheduled ↔ rest = [] := by
  simp only [Observer.Scheduled]
  rw [hq, hid]
  simp

/-- For the request at the head of the queue: it strands others if there are any,
and nobody signals an error. -/
theorem strands_iff {sys : Sys} {rest : List Request} (hid : (d.observers oid).requestId ≠ 0)
    (hq : (d.observers oid).requestQueue = some ({ dbusRequest := some q } :: rest)) :
    d.Strands sys oid ↔ rest ≠ [] ∧
      ¬ ∃ r, (d.observers oid).seat = none ∧ (d.observers oid).manager = true ∧
        q.seatId.bind d.getSeat = some r ∧ Refused d.config sys q (d.seats.get r) := by
  constructor
  · rintro ⟨-, q', req, rest', hq', hn⟩
    rw [hq] at hq'
    obtain ⟨hhead, rfl⟩ := List.cons.inj (Option.some.inj hq')
    obtain rfl := Option.some.inj (Request.mk.inj hhead).1
    exact ⟨List.cons_ne_nil _ _, hn⟩
  · rintro ⟨hne, hn⟩
    obtain ⟨req, rest', rfl⟩ := List.exists_cons_of_ne_nil hne
    exact ⟨hid, q, req, rest', hq, hn⟩

theorem idle_scheduled (h : d.Tidy) (sys : Sys) (hs : (d.observers oid).Scheduled) :
    ((d.step ⟨sys, .idle oid⟩).observers oid).Scheduled ↔ ¬ d.Strands sys oid := by
  rcases idle_cases h sys oid with ⟨hid, heq⟩ | ⟨hq, heq⟩ | ⟨q, rest, hid, hq, heq⟩
  · rw [heq]
    exact ⟨fun _ hs => hs.1 hid, fun _ => hs⟩
  · rw [heq, setObserver_observers]
    refine ⟨?_, fun _ hne => absurd hq hne⟩
    rintro - ⟨-, q, req, rest, hq', -⟩
    rw [hq'] at hq
    cases hq
  · -- one request is gone, and unless the seat signals an error no idle source is set up
    have hunscheduled : ∀ {o : Observer}, o.requestQueue = some rest → o.requestId = 0 →
        (¬ ∃ r, (d.observers oid).seat = none ∧ (d.observers oid).manager = true ∧
          q.seatId.bind d.getSeat = some r ∧ Refused d.config sys q (d.seats.get r)) →
        (o.Scheduled ↔ ¬ d.Strands sys oid) := by
      intro o hrest hid' hn
      rw [scheduled_iff_of_unscheduled hrest hid', strands_iff hid hq]
      exact ⟨fun hnil hs => hs.1 hnil, fun hs => by_contra fun hne => hs ⟨hne, hn⟩⟩
    rw [heq]
    obtain ⟨ht, hproc⟩ | ⟨r, hown, -, hproc⟩ | ⟨r, hown, hm, hget, -, hnr, hproc⟩ |
      ⟨r, code, hown, hm, hget, -, hr, hproc⟩ := processRequest_cases h sys hq
    · rw [hproc, setObserver_observers]
      apply hunscheduled rfl rfl
      rintro ⟨r, hown, hm, hget, -⟩
      rw [target, hown] at ht
      simp [hm, hget] at ht
    · rw [hproc, setObserver_observers]
      apply hunscheduled rfl rfl
      rintro ⟨r', hown', -⟩
      exact absurd (hown.symm.trans hown') (by simp)
    · rw [hproc, setObserver_observers]
      apply hunscheduled rfl rfl
      rintro ⟨r', -, -, hget', hr'⟩
      rw [hget] at hget'
      obtain rfl := Option.some.inj hget'
      exact hnr hr'
    · rw [hproc, setObserver_observers, strands_iff hid hq]
      exact ⟨fun _ hs => hs.2 ⟨r, hown, hm, hget, hr⟩,
        fun _ => Observer.processNextRequestInIdle_scheduled _⟩

/-- **No stranded request, exactly**: in a run every observer whose queue is not
empty has an idle source scheduled, in every state, iff no idle dispatch of the
run strands requests. -/
theorem run_scheduled (config : Config) (initialUser : Option String) (sts : List DaemonStep) :
    Always step (fun d => ∀ oid, (d.observers oid).Scheduled) (Daemon.new config initialUser) sts ↔
      Along step (fun d st => ∀ oid, st.event = .idle oid → ¬ d.Strands st.sys oid)
        (Daemon.new config initialUser) sts := by
  refine always_iff_along (E := fun _ => True) (I := Tidy) ?_ (tidy_new config initialUser) ?_
    fun _ _ => trivial
  · intro d st _ ht hs
    refine ⟨step_tidy ht st, ?_⟩
    have hexact := step_exact (B := fun _ _ _ => False) (C := Strands) lasting_scheduled
      ?_ ?_ ?_ (fun d sys oid h hs => idle_scheduled h sys hs) ht hs st
    · exact hexact.trans ⟨fun h => h.2, fun h => ⟨fun _ _ _ _ hf => hf, h⟩⟩
    · intro o _ hs
      simp only [Observer.handleDbusClientAdded]
      split
      · exact hs
      · exact hs
    · intro o a _ hs
      simp only [Observer.handleDbusClientRemoved]
      split
      · exact hs
      · exact hs
    · exact fun o a c hr hs => ⟨fun _ hf => hf, fun _ => Observer.handleCall_scheduled hr.wired hs a c⟩
  · rintro (_ | ⟨r, k⟩)
    · exact fun h => absurd rfl h
    · exact fun h => absurd rfl h

/-- The run of the defect: two requests arrive before the idle source runs. It
takes the first, and the second waits for a third to come. -/
theorem run_scheduled_stranded :
    let logout : Call := { type := .logoutUser, seatId := some "seat0" }
    let sts : List DaemonStep := [⟨{}, .clientAdded .root⟩, ⟨{}, .call .root 0 logout⟩,
      ⟨{}, .call .root 0 logout⟩, ⟨{}, .idle .root⟩]
    ¬ Always step (fun d => ∀ oid, (d.observers oid).Scheduled) (Daemon.new Config.empty none) sts := by
  intro logout sts h
  have hlast : (((Daemon.new Config.empty none).run sts).observers .root).Scheduled := h.last .root
  exact hlast (by decide) (by decide)

/-! ## Every call is answered once -/

theorem lasting_accounted : Lasting Observer.Accounted := by
  refine ⟨Observer.accounted_new, fun o h => Observer.dispose_accounted h, ?_⟩
  intro o r hr h
  rcases Observer.onSeatDispose_eq hr r with heq | heq
  · rw [heq]
    exact h
  · rw [heq]
    exact h.congr rfl rfl rfl

/-- Answering the first request of the queue keeps the accounts in order. -/
theorem answered_accounted {o : Observer} (ha : o.activeRequest = none) (h : o.Accounted)
    {rest : List Request} (hq : o.requestQueue = some ({ dbusRequest := some q } :: rest))
    (rep : Reply) (ws : List SeatRef) (id n : ℕ) : (answered o rest q rep ws id n).Accounted := by
  intro i
  have hi := h i
  have hreplied : (answered o rest q rep ws id n).replied = o.replied ++ [q.invocation] := by
    simp [Observer.replied, answered]
  have hheld : o.held = q.invocation :: (answered o rest q rep ws id n).held := by
    simp [Observer.held, answered, popped, hq, ha, Request.invocations]
  rw [hheld, List.count_cons] at hi
  rw [hreplied, List.count_append, List.count_singleton]
  change _ = if i < o.received then 1 else 0
  omega

theorem idle_accounted (h : d.Tidy) (sys : Sys) (ha : (d.observers oid).Accounted) :
    ((d.step ⟨sys, .idle oid⟩).observers oid).Accounted := by
  rcases idle_cases h sys oid with ⟨-, heq⟩ | ⟨-, heq⟩ | ⟨q, rest, -, hq, heq⟩
  · rw [heq]
    exact ha
  · rw [heq, setObserver_observers]
    exact ha.congr rfl rfl rfl
  · obtain ⟨d', rep, ws, id, n, -, -, hproc⟩ := processRequest_answered
      (E := fun _ => True) (O := fun _ _ => True) (L := fun _ => True) trivial h sys hq
    rw [heq, hproc, setObserver_observers]
    exact answered_accounted (h.rests oid).active ha hq rep ws id n

/-- **Every call is answered once, exactly**: in a run every invocation an
adapter has taken is answered or held by a request, and never both nor twice, in
every state, iff no connected client of the run makes a well-formed call of a
type its socket does not serve. -/
theorem run_accounted (config : Config) (initialUser : Option String) (sts : List DaemonStep) :
    Always step (fun d => ∀ oid, (d.observers oid).Accounted) (Daemon.new config initialUser) sts ↔
      Along step (fun d st => ∀ oid a c, st.event = .call oid a c →
          a ∈ (d.observers oid).adapters → c.valid = true →
          (d.observers oid).isRequestSupported c.type = true)
        (Daemon.new config initialUser) sts := by
  refine always_iff_along (E := fun _ => True) (I := Tidy) ?_ (tidy_new config initialUser) ?_
    fun _ _ => trivial
  · intro d st _ ht ha
    refine ⟨step_tidy ht st, ?_⟩
    have hexact := step_exact (C := fun _ _ _ => False)
      (B := fun o a c => ¬ (a ∈ o.adapters → c.valid = true → o.isRequestSupported c.type = true))
      lasting_accounted ?_ ?_ ?_
      (fun d sys oid h ha => ⟨fun _ hf => hf, fun _ => idle_accounted h sys ha⟩) ht ha st
    · refine hexact.trans ⟨fun h oid a c he => not_not.mp (h.1 oid a c he), fun h => ⟨?_, ?_⟩⟩
      · exact fun oid a c he => not_not.mpr (h oid a c he)
      · exact fun _ _ hf => hf
    · intro o _ ha
      simp only [Observer.handleDbusClientAdded]
      split
      · exact ha
      · exact ha.congr rfl rfl rfl
    · intro o a _ ha
      simp only [Observer.handleDbusClientRemoved]
      split
      · exact ha.congr rfl rfl rfl
      · exact ha
    · intro o a c hr ha
      rw [not_not]
      exact Observer.handleCall_accounted hr.wired ha a c
  · rintro (_ | ⟨r, k⟩)
    · exact Observer.accounted_new _ _ _
    · exact fun _ => rfl

/-- The run of the defect: on the socket of the user a seat has logged in, a
client calls `loginUser`. The adapter takes the call, no handler is connected to
its signal, and nobody ever answers. -/
theorem run_accounted_ignored :
    let login : Call := { type := .loginUser, seatId := some "seat0", username := some "bob",
                          password := some "secret" }
    let sts : List DaemonStep :=
      [⟨{ now := 5000000, getUid := fun _ => some 1000 }, .addSeat "seat0" {}⟩,
       ⟨{}, .clientAdded (.ofSeat 0 0)⟩, ⟨{}, .call (.ofSeat 0 0) 0 login⟩]
    ¬ Always step (fun d => ∀ oid, (d.observers oid).Accounted)
      (Daemon.new (Config.ofGeneral fun _ => none) none) sts := by
  intro login sts h
  have hlast : (((Daemon.new (Config.ofGeneral fun _ => none) none).run sts).observers
    (.ofSeat 0 0)).Accounted := h.last (.ofSeat 0 0)
  exact absurd (hlast 0) (by decide)

/-! ## What a reply tells -/

/-- The seat as it is when the operation is called: for a request on a seat's own
socket a reference to it has been taken. -/
def calledOn (d : Daemon) (sys : Sys) (oid : ObserverId) (r : SeatRef) : Seat :=
  if (d.observers oid).seat = some r then (d.seats.get r).step ⟨d.config, sys, .ref⟩
  else d.seats.get r

/-- The reference does not matter to the operation. -/
theorem accepted_ref (cfg : Config) (sys : Sys) (q : DbusRequest) (s : Seat) :
    Accepted cfg sys q (s.step ⟨cfg, sys, .ref⟩) ↔ Accepted cfg sys q s := by
  simp only [Seat.step]
  split
  · rfl
  · rename_i hrefs
    have hrefs' : (s.dispatch ⟨cfg, sys, .ref⟩).refs ≠ 0 := Nat.succ_ne_zero _
    have hlogin : ∀ args, (s.dispatch ⟨cfg, sys, .ref⟩).CanCreate cfg sys args ↔
        s.CanCreate cfg sys args := by
      intro args
      have huser : (s.dispatch ⟨cfg, sys, .ref⟩).loginUser cfg args = s.loginUser cfg args :=
        Seat.loginUser_congr rfl rfl rfl
      have hthrottle : ((s.dispatch ⟨cfg, sys, .ref⟩).throttle sys).2 = (s.throttle sys).2 :=
        Seat.throttle_congr rfl rfl
      simp only [Seat.CanCreate]
      rw [huser, hthrottle]
      rfl
    simp only [Accepted]
    simp only [hlogin, ne_eq, hrefs, hrefs', not_false_eq_true, true_and]
    rfl

/-- **What a reply tells, exactly**: in every state of every run, the reply to a
request that is handed to a seat says success just when the operation of the
seat returns `TRUE`, iff the seat accepts the request, or the request came
through the root socket and it is the seat that refuses it. On the socket of a
seat every refusal, and on the root socket a switch that fails its pre-check, is
answered with success. -/
theorem run_reply (config : Config) (initialUser : Option String) (sts : List DaemonStep)
    (sys : Sys) (oid : ObserverId) (q : DbusRequest) (rest : List Request) (r : SeatRef)
    (hid : (((Daemon.new config initialUser).run sts).observers oid).requestId ≠ 0)
    (hq : (((Daemon.new config initialUser).run sts).observers oid).requestQueue =
      some ({ dbusRequest := some q } :: rest))
    (hr : ((Daemon.new config initialUser).run sts).target oid q = some r) :
    let d := (Daemon.new config initialUser).run sts
    ∃ rep, ((d.step ⟨sys, .idle oid⟩).observers oid).replies =
        (d.observers oid).replies ++ [(q.invocation, rep)] ∧
      ((rep = .success ↔ operationResult d.config sys q (d.calledOn sys oid r) = true) ↔
        Accepted d.config sys q (d.seats.get r) ∨
          ((d.observers oid).seat = none ∧ Refused d.config sys q (d.seats.get r))) := by
  intro d
  have h : d.Tidy := run_tidy config initialUser sts
  have hstep : d.step ⟨sys, .idle oid⟩ = d.processRequest sys oid := if_neg hid
  have hresult : operationResult d.config sys q (d.calledOn sys oid r) = true ↔
      Accepted d.config sys q (d.seats.get r) := by
    rw [operationResult_iff, calledOn]
    split
    · exact accepted_ref ..
    · exact Iff.rfl
  rw [hstep, hresult]
  obtain ⟨ht, heq⟩ | ⟨r', hown, ht, heq⟩ | ⟨r', hown, hm, hget, ht, hnr, heq⟩ |
    ⟨r', code, hown, hm, hget, ht, hrf, heq⟩ := processRequest_cases h sys hq
  · exact absurd (ht.symm.trans hr) (by simp)
  · obtain rfl : r' = r := Option.some.inj (ht.symm.trans hr)
    have hown' : (d.observers oid).seat ≠ none := by
      intro hn
      exact absurd (hown.symm.trans hn) (by simp)
    refine ⟨.success, by rw [heq, setObserver_observers]; rfl, ?_⟩
    simp [hown']
  · obtain rfl : r' = r := Option.some.inj (ht.symm.trans hr)
    refine ⟨.success, by rw [heq, setObserver_observers]; rfl, ?_⟩
    simp [hnr]
  · obtain rfl : r' = r := Option.some.inj (ht.symm.trans hr)
    have hown' : (d.observers oid).seat = none := hown
    refine ⟨.error code, ?_, ?_⟩
    · obtain ⟨id, n, hnext⟩ := Observer.processNextRequestInIdle_frame
        { (popped (d.observers oid) rest).reply q.invocation (.error code) with
          weakRefs := ((popped (d.observers oid) rest).weakRefs ++ [r']).erase r' }
      rw [heq, setObserver_observers, hnext]
      rfl
    · simp [hown', hrf, hrf.2.2]

/-- A configuration without automatic logins. -/
def quietConfig : Config :=
  Config.ofGeneral fun key => if key = "AUTO_LOGIN" then some "false" else none

/-- A call a root client makes for `seat0`, on a daemon that has this seat and
nobody logged in. -/
def rootCall (c : Call) : List DaemonStep :=
  [⟨{}, .addSeat "seat0" {}⟩, ⟨{}, .clientAdded .root⟩, ⟨{}, .call .root 0 c⟩]

/-- A login that comes up is answered with success. -/
theorem run_reply_login :
    let login : Call := { type := .loginUser, seatId := some "seat0", username := some "bob",
                          password := some "secret" }
    let d := (Daemon.new quietConfig none).run (rootCall login)
    let sys : Sys := { now := 5000000, getUid := fun _ => some 1000 }
    ∃ rep, ((d.step ⟨sys, .idle .root⟩).observers .root).replies =
        (d.observers .root).replies ++ [(0, rep)] ∧
      (rep = .success ↔ operationResult d.config sys (Observer.createDbusRequest 0 0 login)
        (d.calledOn sys .root 0) = true) := by
  intro login d sys
  obtain ⟨rep, hrep, hiff⟩ := run_reply quietConfig none (rootCall login) sys .root
    (Observer.createDbusRequest 0 0 login) [] 0 (by decide) (by decide) (by decide)
  refine ⟨rep, hrep, hiff.mpr (Or.inl ⟨by decide, ?_, ?_⟩)⟩
  · exact fun h => absurd h (by decide)
  · exact ⟨rfl, Or.inr ⟨rfl, rfl, ⟨1000, rfl⟩, rfl⟩⟩

/-- The defect: a switch with a wrong password is refused, and answered with
success. -/
theorem run_reply_wrong_password :
    let switch : Call := { type := .switchUser, seatId := some "seat0", username := some "bob",
                           password := some "wrong" }
    let d := (Daemon.new quietConfig none).run (rootCall switch)
    ((d.step ⟨{}, .idle .root⟩).observers .root).replies = [(0, .success)] ∧
      operationResult d.config {} (Observer.createDbusRequest 0 0 switch)
        (d.calledOn {} .root 0) = false := by
  decide

/-! ## Whom a request concerns -/

/-- Processing a request changes at most one seat: its target. -/
theorem idle_seats (h : d.Tidy) (sys : Sys) (oid : ObserverId) {r' : SeatRef}
    (hr : ∀ q rest, (d.observers oid).requestQueue = some ({ dbusRequest := some q } :: rest) →
      d.target oid q ≠ some r') :
    (d.step ⟨sys, .idle oid⟩).seats.get r' = d.seats.get r' := by
  rcases idle_cases h sys oid with ⟨-, heq⟩ | ⟨-, heq⟩ | ⟨q, rest, -, hq, heq⟩
  · rw [heq]
  · rw [heq]
    rfl
  · have hne : ∀ r, d.target oid q = some r → r' ≠ r := by
      rintro r ht rfl
      exact hr q rest hq ht
    rw [heq]
    obtain ⟨-, heq⟩ | ⟨r, -, ht, heq⟩ | ⟨r, -, -, -, ht, -, heq⟩ |
      ⟨r, code, -, -, -, ht, -, heq⟩ := processRequest_cases h sys hq
    · rw [heq]
      rfl
    · rw [heq, setObserver_seats, handOver_seats, Store.get_set_ne _ _ (hne r ht), onSeat_eq]
      exact Store.get_set_ne _ _ (hne r ht)
    · rw [heq, setObserver_seats, handOver_seats]
      exact Store.get_set_ne _ _ (hne r ht)
    · rw [heq, setObserver_seats, handOver_seats]
      exact Store.get_set_ne _ _ (hne r ht)

/-- What a per-seat socket may ask of its seat. -/
def Permitted (ev : SeatEvent) : Prop :=
  ev = .terminateSession ∨ ∃ args, ev = .switchUser args

/-- A per-seat socket asks for no login. -/
theorem operation_permitted (h : d.Tidy) {r : SeatRef} {k : ObserverRef} {rest : List Request}
    (hq : (d.observers (.ofSeat r k)).requestQueue = some ({ dbusRequest := some q } :: rest))
    {s : Seat} {ev : SeatEvent} (hop : operation q s = some ev) : Permitted ev := by
  obtain ⟨hsupp, -⟩ := (h.rests (.ofSeat r k)).head hq
  simp only [operation] at hop
  cases htype : q.type with
  | loginUser =>
    -- the socket does not serve logins, so none is in its queue
    rw [htype, (h.placed (.ofSeat r k)).2.2] at hsupp
    cases hsupp
  | logoutUser =>
    rw [htype] at hop
    exact Or.inl (Option.some.inj hop).symm
  | switchUser =>
    rw [htype] at hop
    obtain ⟨-, hev⟩ := Option.ite_none_right_eq_some.mp hop
    exact Or.inr ⟨_, (Option.some.inj hev).symm⟩

/-- What a request on a per-seat socket does to its own seat. -/
theorem idle_ownSeat (h : d.Tidy) (sys : Sys) (r : SeatRef) (k : ObserverRef) :
    ∃ evs : List SeatEvent, (∀ ev ∈ evs, ev = .ref ∨ Permitted ev) ∧
      (d.step ⟨sys, .idle (.ofSeat r k)⟩).seats.get r =
        (d.seats.get r).run (evs.map fun ev => ⟨d.config, sys, ev⟩) := by
  rcases idle_cases h sys (.ofSeat r k) with ⟨-, heq⟩ | ⟨-, heq⟩ | ⟨q, rest, -, hq, heq⟩
  · exact ⟨[], by simp, by rw [heq]; rfl⟩
  · exact ⟨[], by simp, by rw [heq]; rfl⟩
  · rw [heq]
    have hmanager : (d.observers (.ofSeat r k)).manager = false := (h.placed (.ofSeat r k)).1
    obtain ⟨-, heq⟩ | ⟨r', hown, -, heq⟩ | ⟨r', -, hm, -⟩ | ⟨r', code, -, hm, -⟩ :=
      processRequest_cases h sys hq
    · exact ⟨[], by simp, by rw [heq]; rfl⟩
    · -- the seat it knows is its own
      obtain rfl : r' = r := by
        have hown' : (d.observers (.ofSeat r k)).seat = some r' := hown
        rcases (h.placed (.ofSeat r k)).2.1 with hs | hs
        · rw [hs] at hown'
          cases hown'
        · exact Option.some.inj (hown'.symm.trans hs)
      rw [heq, setObserver_seats, handOver_seats, Store.get_set_self, onSeat_eq]
      simp only [Store.get_set_self, served]
      rcases hop : operation q ((d.seats.get r').step ⟨d.config, sys, .ref⟩) with _ | ev
      · exact ⟨[.ref], by simp, rfl⟩
      · refine ⟨[.ref, ev], ?_, rfl⟩
        intro ev' hev'
        simp only [List.mem_cons, List.not_mem_nil, or_false] at hev'
        rcases hev' with rfl | rfl
        · exact Or.inl rfl
        · exact Or.inr (operation_permitted h hq hop)
    · have hm' : (d.observers (.ofSeat r k)).manager = true := hm
      rw [hmanager] at hm'
      cases hm'
    · have hm' : (d.observers (.ofSeat r k)).manager = true := hm
      rw [hmanager] at hm'
      cases hm'

/-- **Socket authorisation and seat isolation**: in every state of every run,
whatever a request carries — its arrival changes no seat; processing it on the
socket of a seat changes that seat alone, and by nothing but a reference taken, a
logout or a switch, never a login; processing it on the root socket changes no seat but the one registered
under the request's seat id. -/
theorem run_isolation (config : Config) (initialUser : Option String) (sts : List DaemonStep)
    (sys : Sys) :
    let d := (Daemon.new config initialUser).run sts
    (∀ oid a c, (d.step ⟨sys, .call oid a c⟩).seats = d.seats) ∧
    (∀ r k, (∀ r', r' ≠ r →
        (d.step ⟨sys, .idle (.ofSeat r k)⟩).seats.get r' = d.seats.get r') ∧
      ∃ evs : List SeatEvent, (∀ ev ∈ evs, ev = .ref ∨ Permitted ev) ∧
        (d.step ⟨sys, .idle (.ofSeat r k)⟩).seats.get r =
          (d.seats.get r).run (evs.map fun ev => ⟨d.config, sys, ev⟩)) ∧
    ∀ q rest, (d.observers .root).requestQueue = some ({ dbusRequest := some q } :: rest) →
      ∀ r', q.seatId.bind d.getSeat ≠ some r' →
        (d.step ⟨sys, .idle .root⟩).seats.get r' = d.seats.get r' := by
  intro d
  have h : d.Tidy := run_tidy config initialUser sts
  refine ⟨fun _ _ _ => rfl, fun r k => ⟨?_, idle_ownSeat h sys r k⟩, ?_⟩
  · intro r' hr'
    refine idle_seats h sys (.ofSeat r k) fun q rest _ ht => ?_
    -- a per-seat observer knows no seat but its own, and no manager to ask
    obtain ⟨hm, hs, -⟩ := h.placed (.ofSeat r k)
    simp only [target] at ht
    rcases hs with hs | hs
    · simp [hs, hm] at ht
    · rw [hs] at ht
      exact hr' (Option.some.inj ht).symm
  · intro q rest hq r' hr'
    refine idle_seats h sys .root fun q' rest' hq' ht => ?_
    rw [hq] at hq'
    obtain ⟨hhead, -⟩ := List.cons.inj (Option.some.inj hq')
    obtain rfl := Option.some.inj (Request.mk.inj hhead).1
    have hs : (d.observers .root).seat = none := h.placed .root
    simp only [target] at ht
    rw [hs] at ht
    simp only [Option.ite_none_right_eq_some] at ht
    exact hr' ht.2

/-- A root client's login on `seat1` leaves `seat0` as it is. -/
theorem run_isolation_other_seat :
    let login : Call := { type := .loginUser, seatId := some "seat1", username := some "bob",
                          password := some "secret" }
    let d := (Daemon.new quietConfig none).run (⟨{}, .addSeat "seat1" {}⟩ :: rootCall login)
    let sys : Sys := { now := 5000000, getUid := fun _ => some 1000 }
    d.getSeat "seat0" = some 1 ∧
      (d.step ⟨sys, .idle .root⟩).seats.get 1 = d.seats.get 1 := by
  intro login d sys
  refine ⟨by decide, ?_⟩
  exact (run_isolation quietConfig none (⟨{}, .addSeat "seat1" {}⟩ :: rootCall login) sys).2.2
    (Observer.createDbusRequest 0 0 login) [] (by decide) 1 (by decide)

end Daemon

end Tlm
