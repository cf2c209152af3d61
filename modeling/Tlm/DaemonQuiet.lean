import Tlm.DaemonShutdown

/-!
# No session after stop

The handler that `tlm_manager_stop` connects to a seat answers the end of a
session with "stop", and then there is no relogin, neither an automatic one nor
that of a pending switch. But nothing keeps the seat from logging in when it is
**asked** to: a seat that has left the table lives on as long as a delay closure
has a reference to it, one that waits for its session to end is still in the
table, and both still have their sockets.

`run_quiet_iff` says that these are the only ways: after the stop no session is
started on a seat that was managed then, **iff** no delay closure, no queued
request and no authentication plugin asks such a seat for a login while it has
no session and could start one.
-/

namespace Tlm

namespace Seat

variable {Looked : String → ℕ → Prop} {cfg : Config} {sys : Sys} {args : LoginArgs} {s : Seat}

/-- The dispatch starts a session: it comes to a call of `tlm_seat_create_session`
on a seat without one, which is not put off and for which everything comes up. -/
def Launches (s : Seat) (st : SeatStep) : Prop :=
  ∃ args, s.attempt st = some args ∧ s.Starts st.cfg st.sys args

/-- A call that starts a session calls `tlm_session_remote_create`. -/
theorem createSession_creates (hs : s.session = none) (h : s.Starts cfg sys args) :
    ∃ acts x user, (s.createSession cfg sys args).1.trace = s.trace ++ acts ∧
      .sessionRemoteCreate x user args.password args.environment ∈ acts := by
  obtain ⟨s₀, htrace, -, hcan, heq⟩ := createSession_of_starts hs h
  obtain ⟨acts, hsel, -⟩ := (selectUser_grows cfg args s₀).trace
  rcases startSession_cases cfg sys args s₀ with ⟨hn, -⟩ | ⟨hn, -⟩ | ⟨-, uid, -, heq'⟩
  · exact absurd hcan hn
  · exact absurd hcan hn
  · rw [heq, heq']
    simp only [hsel, htrace, List.append_assoc]
    exact ⟨_, (s₀.selectUser cfg args).sessions.next,
      (s₀.selectUser cfg args).sessionUser args.username, rfl, by simp⟩

/-- What a dispatch leaves in the log of the daemon: nothing, unless it starts a
session. -/
theorem step_record (hl : s.Linked Looked) (st : SeatStep) (r : SeatRef) :
    (Daemon.gained s (s.step st)).filterMap (Act.record r) = [] ↔ ¬ s.Launches st := by
  have hquiet : ∀ {s' : Seat}, Grows (fun a => a.isStart = false) s s' →
      (Daemon.gained s s').filterMap (Act.record r) = [] := by
    intro s' hg
    obtain ⟨acts, ht, hacts⟩ := hg.trace
    rw [Daemon.gained_eq ht, List.filterMap_eq_nil_iff]
    intro a ha
    have hfalse := hacts a ha
    cases a with
    | sessionRemoteCreate x user password environment => cases hfalse
    | _ => rfl
  rcases ha : s.attempt st with _ | args
  · refine ⟨fun _ => ?_, fun _ => hquiet (step_noStart hl ha)⟩
    rintro ⟨args, ha', -⟩
    rw [ha] at ha'
    cases ha'
  · obtain ⟨s₁, hc, hg⟩ := step_attempt hl ha
    by_cases hstart : s₁.Starts st.cfg st.sys args
    · refine ⟨fun hnil => ?_, fun hn => absurd ⟨args, ha, hc.starts_iff.mp hstart⟩ hn⟩
      exfalso
      obtain ⟨acts, x, user, ht, hm⟩ := createSession_creates hc.session hstart
      obtain ⟨acts₁, ht₁, -⟩ := hc.grows.trace
      obtain ⟨acts₂, ht₂, -⟩ := hg.trace
      have hgained : Daemon.gained s (s.step st) = acts₁ ++ acts ++ acts₂ := by
        apply Daemon.gained_eq
        rw [ht₂, ht, ht₁]
        simp
      rw [hgained, List.filterMap_eq_nil_iff] at hnil
      have hnone := hnil _ (List.mem_append_left _ (List.mem_append_right _ hm))
      cases hnone
    · have hg' := (hc.grows.trans (createSession_noStart hc.session hstart)).trans hg
      refine ⟨fun _ => ?_, fun _ => hquiet hg'⟩
      rintro ⟨args', ha', hst⟩
      rw [ha] at ha'
      obtain rfl := Option.some.inj ha'
      exact hstart (hc.starts_iff.mpr hst)

/-- With a stop handler connected, the end of a session is not followed by
another. -/
theorem not_launches_session (hstop : 0 < s.stopHandlers) (x : SessionRef) (e : SessionEvent) :
    ¬ s.Launches ⟨cfg, sys, .session x e⟩ := by
  rintro ⟨args, ha, -⟩
  have hrelogs : s.relogs cfg = false := by
    have hne : (s.stopHandlers == 0) = false := by
      rw [beq_eq_false_iff_ne]
      exact Nat.ne_of_gt hstop
    simp [relogs, hne]
  simp [attempt, hrelogs] at ha

end Seat

/-- An event on which a seat never logs in. -/
def SeatEvent.isCalm : SeatEvent → Bool
  | .terminateSession => true
  | .connectStop => true
  | .ref => true
  | .unref => true
  | _ => false

theorem Seat.not_launches_calm {s : Seat} {cfg : Config} {sys : Sys} {ev : SeatEvent}
    (h : ev.isCalm = true) : ¬ s.Launches ⟨cfg, sys, ev⟩ := by
  rintro ⟨args, ha, -⟩
  cases ev with
  | terminateSession => simp [Seat.attempt] at ha
  | connectStop => simp [Seat.attempt] at ha
  | ref => simp [Seat.attempt] at ha
  | unref => simp [Seat.attempt] at ha
  | _ => cases h

namespace Daemon

variable {d d' : Daemon} {sys : Sys} {r : SeatRef}
  {iterate : List (String × SeatRef) → List (String × SeatRef)}

/-- The entry of a session that was started on seat `r`. -/
def isStartOn (r : SeatRef) : Record → Bool
  | .started r' _ => r' = r
  | _ => false

/-- How many sessions were started on seat `r` so far. -/
def starts (d : Daemon) (r : SeatRef) : ℕ := d.log.countP (isStartOn r)

/-! ## Starts of one seat -/

/-- What another seat does is not counted, and what this one does is. -/
theorem countP_record (r r' : SeatRef) (acts : List Act) :
    (acts.filterMap (Act.record r')).countP (isStartOn r) =
      if r' = r then (acts.filterMap (Act.record r')).length else 0 := by
  have hstart : ∀ e ∈ acts.filterMap (Act.record r'), isStartOn r e = decide (r' = r) := by
    intro e he
    obtain ⟨a, -, ha⟩ := List.mem_filterMap.mp he
    cases a with
    | sessionRemoteCreate x user password environment =>
      obtain rfl := Option.some.inj ha
      rfl
    | _ => cases ha
  split
  · rename_i hr
    rw [List.countP_eq_length]
    intro e he
    rw [hstart e he]
    simp [hr]
  · rename_i hr
    rw [List.countP_eq_zero]
    intro e he
    rw [hstart e he]
    simp [hr]

theorem onSeat_starts (d : Daemon) (sys : Sys) (r' : SeatRef) (ev : SeatEvent) (r : SeatRef) :
    (d.onSeat sys r' ev).starts r = d.starts r + if r' = r then
      ((gained (d.seats.get r') ((d.seats.get r').step ⟨d.config, sys, ev⟩)).filterMap
        (Act.record r')).length else 0 := by
  rw [onSeat_eq]
  simp only [starts, List.countP_append]
  rw [countP_record]

/-- A dispatch that does not start a session on seat `r`. -/
theorem onSeat_starts_eq (hw : (d.seats.get r).Wf fun _ _ => True) (sys : Sys) {r' : SeatRef}
    {ev : SeatEvent} (h : r' = r → ¬ (d.seats.get r).Launches ⟨d.config, sys, ev⟩) :
    (d.onSeat sys r' ev).starts r = d.starts r := by
  rw [onSeat_starts]
  split
  · rename_i hr
    subst hr
    have hnil := (Seat.step_record hw.toLinked ⟨d.config, sys, ev⟩ r').mpr (h rfl)
    rw [hnil]
    rfl
  · rfl

/-- One that does. -/
theorem onSeat_starts_lt (hw : (d.seats.get r).Wf fun _ _ => True) (sys : Sys) {ev : SeatEvent}
    (h : (d.seats.get r).Launches ⟨d.config, sys, ev⟩) :
    d.starts r < (d.onSeat sys r ev).starts r := by
  have hne : (gained (d.seats.get r) ((d.seats.get r).step ⟨d.config, sys, ev⟩)).filterMap
      (Act.record r) ≠ [] :=
    fun hnil => (Seat.step_record hw.toLinked _ r).mp hnil h
  rw [onSeat_starts, if_pos rfl]
  exact Nat.lt_add_of_pos_right (List.length_pos_iff.mpr hne)

/-- A seat that exists. -/
structure Present (r : SeatRef) (d : Daemon) : Prop where
  allocated : r < d.seats.next
  wf : (d.seats.get r).Wf fun _ _ => True

/-- What `d` knows of a seat that `d'` knows too: it exists and has all its stop
handlers, and as long as it is only given `calm` events no session is started on
it. -/
structure Spares (r : SeatRef) (calm : Prop) (d d' : Daemon) : Prop where
  present : Present r d'
  handlers : (d.seats.get r).stopHandlers ≤ (d'.seats.get r).stopHandlers
  starts : calm → d'.starts r = d.starts r

/-- Nothing concerns a seat but what is done to it. -/
theorem Present.spares {calm : Prop} (h : Present r d) (h₁ : d'.seats = d.seats)
    (h₂ : d'.starts r = d.starts r) : Spares r calm d d' := by
  refine ⟨⟨?_, ?_⟩, ?_, fun _ => h₂⟩
  all_goals rw [h₁]
  · exact h.allocated
  · exact h.wf

theorem Spares.trans {calm : Prop} {d'' : Daemon} (h₁ : Spares r calm d d')
    (h₂ : Spares r calm d' d'') : Spares r calm d d'' :=
  ⟨h₂.present, h₁.handlers.trans h₂.handlers, fun h => (h₂.starts h).trans (h₁.starts h)⟩

theorem Present.onSeat (h : Present r d) (sys : Sys) (r' : SeatRef) {ev : SeatEvent} {calm : Prop}
    (hcalm : calm → r' = r → ev.isCalm = true) : Spares r calm d (d.onSeat sys r' ev) := by
  refine ⟨⟨by rw [onSeat_seats]; exact h.allocated, ?_⟩, ?_, fun hc =>
    onSeat_starts_eq h.wf sys fun hr => Seat.not_launches_calm (hcalm hc hr)⟩
  all_goals
    rw [onSeat_seats, Store.get_set]
    split
  · rename_i hr
    rw [← hr]
    exact Seat.step_wf h.wf fun _ _ _ => trivial
  · exact h.wf
  · rename_i hr
    rw [(Seat.step_frame _ _).2, ← hr]
    exact Nat.le_add_right _ _
  · exact le_refl _

/-- Whatever the daemon does spares a seat that it gives calm events only. -/
theorem Goes.spares {E : SeatRef → SeatEvent → Prop} {L : Record → Prop} (h : Goes E L d d')
    (hL : ∀ creds, ¬ L (.started r creds)) (hp : Present r d) :
    Spares r (∀ ev, E r ev → ev.isCalm = true) d d' := by
  induction h with
  | refl d => exact hp.spares rfl rfl
  | trans _ _ ih₁ ih₂ =>
    have hfirst := ih₁ hp
    exact hfirst.trans (ih₂ hfirst.present)
  | @onSeat d sys r' ev hev =>
    refine hp.onSeat sys r' fun hE hr => hE ev ?_
    rw [← hr]
    exact hev
  | enter d sys id =>
    have hget : (d.seats.alloc (Seat.new id)).get r = d.seats.get r :=
      Store.get_alloc_ne _ _ (Nat.ne_of_lt hp.allocated)
    have halloc : Spares r (∀ ev, E r ev → ev.isCalm = true) d
        { d with seats := d.seats.alloc (Seat.new id) } := by
      refine ⟨⟨Nat.lt_succ_of_lt hp.allocated, ?_⟩, ?_, fun _ => rfl⟩
      all_goals
        simp only
        rw [hget]
      exact hp.wf
    simp only [insertSeat]
    split
    · exact halloc.trans (halloc.present.spares rfl rfl)
    · have hput : Spares r (∀ ev, E r ev → ev.isCalm = true) d { d with
          seats := d.seats.alloc (Seat.new id)
          seatTable := Table.replace id d.seats.next d.seatTable } :=
        halloc.trans (halloc.present.spares rfl rfl)
      exact hput.trans (hput.present.onSeat sys _ fun _ _ => rfl)
  | remove d sys id =>
    simp only [removeSeat]
    split
    · exact hp.spares rfl rfl
    · have hput : Spares r (∀ ev, E r ev → ev.isCalm = true) d
          { d with seatTable := d.seatTable.filter (·.1 ≠ id) } := hp.spares rfl rfl
      exact hput.trans (hput.present.onSeat sys _ fun _ _ => rfl)
  | log d es hes =>
    have hnone : es.countP (isStartOn r) = 0 := by
      rw [List.countP_eq_zero]
      intro e he hstart
      cases e with
      | started r' creds =>
        obtain rfl : r' = r := by simpa [isStartOn] using hstart
        exact hL creds (hes _ he)
      | _ => cases hstart
    refine hp.spares rfl ?_
    simp only [starts, List.countP_append, hnone, Nat.add_zero]
  | same _ h₂ h₃ => exact hp.spares h₂ (by rw [starts, starts, h₃])

/-! ## One step -/

/-- The dispatch starts a session on seat `r` because somebody asks it to: a delay
closure, an authentication plugin, or a request that was waiting in the queue of
an observer. -/
def Relaunches (d : Daemon) (r : SeatRef) (st : DaemonStep) : Prop :=
  match st.event with
  | .delayedSession r' k =>
    r' = r ∧ (d.seats.get r).Launches ⟨d.config, st.sys, .delayedSession k⟩
  | .authenticate seatId service username password =>
    d.getSeat seatId = some r ∧ (d.seats.get r).Launches
      ⟨d.config, st.sys, .switchUser ⟨service, username, password, none⟩⟩
  | .idle oid => ∃ q rest ev, (d.observers oid).requestId ≠ 0 ∧
    (d.observers oid).requestQueue = some ({ dbusRequest := some q } :: rest) ∧
    d.target oid q = some r ∧ operation q (d.seats.get r) = some ev ∧
    (d.seats.get r).Launches ⟨d.config, st.sys, ev⟩
  | _ => False

/-- A step starts sessions on seat `r`, or it does not. -/
def Decides (d d' : Daemon) (r : SeatRef) (launches : Prop) : Prop :=
  (launches → d.starts r < d'.starts r) ∧ (¬ launches → d'.starts r = d.starts r)

/-- A dispatch of seat `r'`, as far as seat `r` is concerned. -/
theorem onSeat_decides (hw : (d.seats.get r).Wf fun _ _ => True) (sys : Sys) (r' : SeatRef)
    (ev : SeatEvent) : Decides d (d.onSeat sys r' ev) r
      (r' = r ∧ (d.seats.get r).Launches ⟨d.config, sys, ev⟩) := by
  refine ⟨?_, fun h => onSeat_starts_eq hw sys fun hr hl => h ⟨hr, hl⟩⟩
  rintro ⟨rfl, hl⟩
  exact onSeat_starts_lt hw sys hl

/-- A request is recorded first, which is no start. -/
theorem request_decides (hw : (d.seats.get r).Wf fun _ _ => True) (sys : Sys) (r' : SeatRef)
    (ev : SeatEvent) : Decides d (d.request sys r' ev) r
      (r' = r ∧ (d.seats.get r).Launches ⟨d.config, sys, ev⟩) := by
  have hzero : (acceptance d.config sys r' ev (d.seats.get r')).countP (isStartOn r) = 0 := by
    rw [List.countP_eq_zero]
    intro e he
    simp only [acceptance] at he
    split at he
    · split at he
      · rw [List.mem_singleton.mp he]
        simp [isStartOn]
      · cases he
    · cases he
  have hstarts : starts
      { d with log := d.log ++ acceptance d.config sys r' ev (d.seats.get r') } r = d.starts r := by
    simp only [starts, List.countP_append, hzero, Nat.add_zero]
  rw [request_eq, Decides, ← hstarts]
  exact onSeat_decides
    (d := { d with log := d.log ++ acceptance d.config sys r' ev (d.seats.get r') }) hw sys r' ev

/-- Taking a reference first changes nothing about a login. -/
theorem launches_ref (cfg : Config) (sys : Sys) (s : Seat) (ev : SeatEvent) :
    (s.step ⟨cfg, sys, .ref⟩).Launches ⟨cfg, sys, ev⟩ ↔ s.Launches ⟨cfg, sys, ev⟩ := by
  by_cases hrefs : s.refs = 0
  · rw [show s.step ⟨cfg, sys, .ref⟩ = s from if_pos hrefs]
  · rw [show s.step ⟨cfg, sys, .ref⟩ = { s with refs := s.refs + 1 } from if_neg hrefs]
    have hattempt : Seat.attempt { s with refs := s.refs + 1 } ⟨cfg, sys, ev⟩ =
        s.attempt ⟨cfg, sys, ev⟩ := by
      simp only [Seat.attempt, if_neg hrefs, Nat.succ_ne_zero, if_false]
      rfl
    have hstarts : ∀ args, Seat.Starts cfg sys args { s with refs := s.refs + 1 } ↔
        s.Starts cfg sys args := by
      intro args
      have hlogin : ({ s with refs := s.refs + 1 } : Seat).loginUser cfg args =
          s.loginUser cfg args := Seat.loginUser_congr rfl rfl rfl
      have hth : (({ s with refs := s.refs + 1 } : Seat).throttle sys).2 = (s.throttle sys).2 :=
        Seat.throttle_congr rfl rfl
      simp only [Seat.Starts]
      rw [hlogin, hth]
    simp only [Seat.Launches, hattempt, hstarts]

/-- What is handed to a seat. -/
theorem handOver_decides (hw : (d.seats.get r).Wf fun _ _ => True) (sys : Sys) (r' : SeatRef)
    (q : DbusRequest) : Decides d (d.handOver sys r' q) r
      (r' = r ∧ ∃ ev, operation q (d.seats.get r) = some ev ∧
        (d.seats.get r).Launches ⟨d.config, sys, ev⟩) := by
  simp only [handOver]
  split
  · rename_i ev hop
    have hreq := request_decides hw sys r' ev
    refine ⟨?_, fun h => hreq.2 ?_⟩
    · rintro ⟨rfl, ev', hop', hl⟩
      rw [hop] at hop'
      obtain rfl := Option.some.inj hop'
      exact hreq.1 ⟨rfl, hl⟩
    · rintro ⟨rfl, hl⟩
      exact h ⟨rfl, ev, hop, hl⟩
  · rename_i hop
    refine ⟨?_, fun _ => rfl⟩
    rintro ⟨rfl, ev, hop', -⟩
    rw [hop] at hop'
    cases hop'

/-- Nor does it change what a request asks for. -/
theorem operation_ref (cfg : Config) (sys : Sys) (s : Seat) (q : DbusRequest) :
    operation q (s.step ⟨cfg, sys, .ref⟩) = operation q s := by
  by_cases hrefs : s.refs = 0
  · rw [show s.step ⟨cfg, sys, .ref⟩ = s from if_pos hrefs]
  · rw [show s.step ⟨cfg, sys, .ref⟩ = { s with refs := s.refs + 1 } from if_neg hrefs]
    rfl

/-- The request at the head of the queue decides. -/
theorem relaunches_idle_iff {oid : ObserverId} {q : DbusRequest} {rest : List Request}
    (hid : (d.observers oid).requestId ≠ 0)
    (hq : (d.observers oid).requestQueue = some ({ dbusRequest := some q } :: rest)) (sys : Sys) :
    d.Relaunches r ⟨sys, .idle oid⟩ ↔ d.target oid q = some r ∧
      ∃ ev, operation q (d.seats.get r) = some ev ∧
        (d.seats.get r).Launches ⟨d.config, sys, ev⟩ := by
  constructor
  · rintro ⟨q', rest', ev, -, hq', htarget, hop, hl⟩
    rw [hq] at hq'
    obtain ⟨hreq, -⟩ := List.cons.inj (Option.some.inj hq')
    obtain rfl := Option.some.inj (Request.mk.inj hreq).1
    exact ⟨htarget, ev, hop, hl⟩
  · rintro ⟨htarget, ev, hop, hl⟩
    exact ⟨q, rest, ev, hid, hq, htarget, hop, hl⟩

/-- On a seat's own socket the request takes a reference first. -/
theorem handOver_ref_decides (ht : d.Tidy) (sys : Sys) (r' : SeatRef) (q : DbusRequest) :
    Decides d ((d.onSeat sys r' .ref).handOver sys r' q) r
      (r' = r ∧ ∃ ev, operation q (d.seats.get r) = some ev ∧
        (d.seats.get r).Launches ⟨d.config, sys, ev⟩) := by
  have href : (d.onSeat sys r' .ref).starts r = d.starts r :=
    onSeat_starts_eq (ht.seats r) sys fun _ => Seat.not_launches_calm rfl
  have hseat : r' = r → (d.onSeat sys r' .ref).seats.get r =
      (d.seats.get r).step ⟨d.config, sys, .ref⟩ := by
    rintro rfl
    rw [onSeat_seats, Store.get_set_self]
  have hconfig : (d.onSeat sys r' .ref).config = d.config := by rw [onSeat_eq]
  have hsame : (r' = r ∧ ∃ ev, operation q (d.seats.get r) = some ev ∧
        (d.seats.get r).Launches ⟨d.config, sys, ev⟩) ↔
      r' = r ∧ ∃ ev, operation q ((d.onSeat sys r' .ref).seats.get r) = some ev ∧
        ((d.onSeat sys r' .ref).seats.get r).Launches
          ⟨(d.onSeat sys r' .ref).config, sys, ev⟩ := by
    refine and_congr_right fun hr => exists_congr fun ev => ?_
    rw [hseat hr, hconfig, launches_ref, operation_ref]
  rw [Decides, hsame, ← href]
  exact handOver_decides ((onSeat_tidy ht sys r' .ref).seats r) sys r' q

/-- An idle source. -/
theorem idle_decides (ht : d.Tidy) (sys : Sys) (oid : ObserverId) :
    Decides d (d.step ⟨sys, .idle oid⟩) r (d.Relaunches r ⟨sys, .idle oid⟩) := by
  rcases idle_cases ht sys oid with ⟨hid, heq⟩ | ⟨hq, heq⟩ | ⟨q, rest, hid, hq, heq⟩
  · rw [heq]
    refine ⟨?_, fun _ => rfl⟩
    rintro ⟨q, rest, ev, hid', -⟩
    exact absurd hid hid'
  · rw [heq]
    refine ⟨?_, fun _ => rfl⟩
    rintro ⟨q, rest, ev, -, hq', -⟩
    rw [hq'] at hq
    cases hq
  · rw [heq, Decides, relaunches_idle_iff hid hq]
    rcases processRequest_eq ht sys hq with
      ⟨htarget, heq⟩ | ⟨r', -, htarget, heq⟩ | ⟨r', -, -, -, htarget, heq⟩
    · rw [heq, htarget]
      refine ⟨fun h => ?_, fun _ => rfl⟩
      cases h.1
    · rw [heq, htarget, Option.some.injEq]
      exact handOver_ref_decides ht sys r' q
    · rw [heq, htarget, Option.some.injEq]
      exact handOver_decides (ht.seats r) sys r' q

/-- **One step of the daemon** starts a session on a seat that is being stopped
just when somebody asks for it. -/
theorem step_decides (ht : d.Tidy) (hs : Present r d) (hh : 0 < (d.seats.get r).stopHandlers)
    (st : DaemonStep) : Decides d (d.step st) r (d.Relaunches r st) := by
  obtain ⟨sys, event⟩ := st
  have hgoes := step_goes ht ⟨sys, event⟩
  -- what gives the seat nothing but calm events
  have hcalm : (∀ ev, event.Gives d.seats.next r ev → ev.isCalm = true) →
      (∀ creds, ¬ event.Notes (.started r creds)) → ¬ d.Relaunches r ⟨sys, event⟩ →
      Decides d (d.step ⟨sys, event⟩) r (d.Relaunches r ⟨sys, event⟩) :=
    fun hE hL hno => ⟨fun h => absurd h hno, fun _ => (hgoes.spares hL hs).starts hE⟩
  have hnew : ∀ ev, d.seats.next ≤ r ∧ (∃ args, ev = SeatEvent.createSession args) →
      ev.isCalm = true := fun ev h => absurd hs.allocated (Nat.not_lt.mpr h.1)
  have hstop : ∀ ev, ev = SeatEvent.connectStop ∨ ev = .terminateSession → ev.isCalm = true := by
    rintro ev (rfl | rfl)
    · rfl
    · rfl
  cases event with
  | addSeat id fs => exact hcalm hnew (by simp [DaemonEvent.Notes]) (fun h => h)
  | seatAdded id fs => exact hcalm hnew (by simp [DaemonEvent.Notes]) (fun h => h)
  | seatWatch id isFinal => exact hcalm hnew (by simp [DaemonEvent.Notes]) (fun h => h)
  | stop iterate => exact hcalm hstop (by simp [DaemonEvent.Notes]) (fun h => h)
  | dispose iterate => exact hcalm hstop (by simp [DaemonEvent.Notes]) (fun h => h)
  | authenticate seatId service username password =>
    simp only [step, authenticate]
    split
    · rename_i hnone
      refine ⟨?_, fun _ => rfl⟩
      rintro ⟨hsome, -⟩
      rw [hnone] at hsome
      cases hsome
    · rename_i r' hr'
      have hreq := request_decides hs.wf sys r'
        (.switchUser ⟨service, username, password, none⟩)
      refine ⟨?_, fun h => hreq.2 ?_⟩
      · rintro ⟨hsome, hl⟩
        rw [hr'] at hsome
        exact hreq.1 ⟨Option.some.inj hsome, hl⟩
      · rintro ⟨rfl, hl⟩
        exact h ⟨hr', hl⟩
  | idle oid => exact idle_decides ht sys oid
  | delayedSession r' k => exact onSeat_decides hs.wf sys r' (.delayedSession k)
  | session r' x e =>
    refine ⟨fun h => absurd h id, fun _ => ?_⟩
    have hseat : (d.onSeat sys r' (.session x e)).starts r = d.starts r :=
      onSeat_starts_eq hs.wf sys fun _ => Seat.not_launches_session hh x e
    have hpresent : Present r (d.onSeat sys r' (.session x e)) :=
      (hs.onSeat sys r' (False.elim : False → _)).present
    -- the handlers only remove seats
    have hhandlers := fun n => ((sessionTerminatedCb_goes (E := fun _ _ => False)
      (L := fun e => e = .managerStopped) rfl sys (d.seats.get r').id n
      (d.onSeat sys r' (.session x e))).spares (by simp) hpresent).starts (by simp)
    simp only [step, sessionEvent]
    split
    · exact (hhandlers _).trans hseat
    · exact hseat
  | _ => exact hcalm (by simp [DaemonEvent.Gives]) (by simp [DaemonEvent.Notes]) (fun h => h)

/-! ## After the stop -/

/-- A seat that is being stopped. -/
def Stopping (r : SeatRef) (d : Daemon) : Prop :=
  Present r d ∧ 0 < (d.seats.get r).stopHandlers

/-- Every seat that was managed is being stopped, and the call itself has started
nothing. -/
theorem stop_stopping (hperm : ∀ t, (iterate t).Perm t) (ht : d.Tidy) (hr : d.Registered)
    (sys : Sys) {p : String × SeatRef} (hp : p ∈ d.seatTable) :
    Stopping p.2 (d.stop sys iterate) ∧ (d.stop sys iterate).starts p.2 = d.starts p.2 := by
  have hspares := (step_goes ht ⟨sys, .stop iterate⟩).spares (r := p.2)
    (by simp [DaemonEvent.Notes]) ⟨hr.allocated p hp, ht.seats p.2⟩
  refine ⟨⟨hspares.present, ?_⟩, hspares.starts ?_⟩
  · obtain ⟨d', hv, hseats, -, -⟩ := stop_visiting hperm hr sys
    have hmem := walk_mem hperm d.countP_lt hp
    rw [hseats]
    cases hlive : d.isLive p with
    | true =>
      rw [hv.live hr hp hlive, Seat.askedToStop_iterate]
      exact Nat.lt_add_left _ (List.count_pos_iff.mpr hmem)
    | false =>
      rw [(hv.dead hr hp hlive hmem).1, (Seat.unref_frame _).2.1,
        (Seat.askedToStop_endures _).stopHandlers]
      exact Nat.succ_pos _
  · rintro ev (rfl | rfl)
    · rfl
    · rfl

/-- **No session after stop, exactly**: whatever happened before the call of
`tlm_manager_stop` and whatever happens after it, no session is ever started on
a seat that was managed at that moment, iff no dispatch after it is one in which
a delay closure, an authentication plugin or a queued request starts one. -/
theorem run_quiet_iff (config : Config) (initialUser : Option String) (pre : List DaemonStep)
    (sys : Sys) (iterate : List (String × SeatRef) → List (String × SeatRef))
    (hperm : ∀ t, (iterate t).Perm t) (post : List DaemonStep) :
    let d := (Daemon.new config initialUser).run pre
    Always step (fun d' => ∀ p ∈ d.seatTable, d'.starts p.2 = d.starts p.2)
        (d.stop sys iterate) post ↔
      Along step (fun d' st => ∀ p ∈ d.seatTable, ¬ d'.Relaunches p.2 st)
        (d.stop sys iterate) post := by
  intro d
  have ht : d.Tidy := run_tidy config initialUser pre
  have hr : d.Registered := run_registered config initialUser pre
  refine always_iff_along (E := fun _ => True)
    (I := fun d' => d'.Tidy ∧ ∀ p ∈ d.seatTable, Stopping p.2 d') ?_ ?_ ?_ fun _ _ => trivial
  · rintro d' st - ⟨ht', hs'⟩ hsame
    refine ⟨⟨step_tidy ht' st, fun p hp => ?_⟩, ?_⟩
    · obtain ⟨hpresent, hhandlers⟩ := hs' p hp
      have hspares := (step_goes ht' st).spares (r := p.2) ?_ hpresent
      · exact ⟨hspares.present, lt_of_lt_of_le hhandlers hspares.handlers⟩
      · obtain ⟨sys, event⟩ := st
        cases event <;> simp [DaemonEvent.Notes]
    · refine forall₂_congr fun p hp => ?_
      obtain ⟨hlaunch, hquiet⟩ := step_decides ht' (hs' p hp).1 (hs' p hp).2 st
      rw [← hsame p hp]
      refine ⟨fun heq hl => ?_, hquiet⟩
      exact absurd (hlaunch hl) (by rw [heq]; exact lt_irrefl _)
  · exact ⟨step_tidy ht ⟨sys, .stop iterate⟩, fun p hp => (stop_stopping hperm ht hr sys hp).1⟩
  · exact fun p hp => (stop_stopping hperm ht hr sys hp).2

/-- The session that is running at the stop ends, and that is it. -/
theorem run_quiet_session_ends :
    let d := (Daemon.new manual none).run twoSeats
    Always step (fun d' => ∀ p ∈ d.seatTable, d'.starts p.2 = d.starts p.2)
      (d.stop {} List.reverse) [⟨{}, .session 1 0 .childDown⟩] := by
  intro d
  refine (run_quiet_iff manual none twoSeats {} List.reverse List.reverse_perm
    [⟨{}, .session 1 0 .childDown⟩]).mpr ?_
  exact ⟨fun _ _ h => h, trivial⟩

/-- Somebody is logged in on one seat. On the other three logins have failed, so that a fourth
one waits for ten seconds. The manager is stopped meanwhile: the seat without a session leaves
the table, and the manager waits for the session of the other one to end — and then the session
that was put off starts. -/
theorem delayed_login_after_stop :
    let fails : DaemonStep := ⟨{ spawns := false, pam := fun _ _ _ => true },
      .authenticate "seat0" none (some "alice") (some "secret")⟩
    let d := (Daemon.new manual none).run (twoSeats ++ [fails, fails, fails, fails])
    let d' := d.stop { now := 9000000 } id
    let later : DaemonStep :=
      ⟨{ now := 10000000, getUid := fun _ => some 1000 }, .delayedSession 0 0⟩
    ("seat0", 0) ∈ d.seatTable ∧ d'.seatTable = [("seat1", 1)] ∧ .managerStopped ∉ d'.log ∧
      ¬ Always step (fun d' => ∀ p ∈ d.seatTable, d'.starts p.2 = d.starts p.2) d' [later] ∧
      d.starts 0 = 0 ∧ (d'.run [later]).starts 0 = 1 := by
  intro fails d d' later
  have hmem : ("seat0", 0) ∈ d.seatTable := by decide
  have hbefore : d.starts 0 = 0 := by decide
  have hafter : (d'.run [later]).starts 0 = 1 := by decide
  refine ⟨hmem, by decide, by decide, fun h => ?_, hbefore, hafter⟩
  have hlast : (d'.run [later]).starts 0 = d.starts 0 := h.last ("seat0", 0) hmem
  rw [hbefore, hafter] at hlast
  cases hlast

end Daemon

end Tlm
