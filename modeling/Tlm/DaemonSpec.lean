import Tlm.Daemon
import Tlm.SeatLogin

/-!
# What a dispatch of a seat does to the daemon

`onSeat` folds `perform` over the trace a seat has gained. Seen from **one**
observer that is a fold of its own (`hear`), and seen from the log it is a
filter (`Act.record`), so `onSeat_eq` splits a dispatch into three independent
parts: the seat, each observer, and the log. Everything proved about the daemon
goes through it.

An observer that is at rest — no request active, no seat connected — hears
nothing but its own creation and disposal, and the death of its seat. That this
is the state of every observer between two dispatches is the invariant `Tidy`.
-/

namespace Tlm

/-- What an act of seat `r` adds to the log. -/
def Act.record (r : SeatRef) : Act → Option Record
  | .sessionRemoteCreate _ user password environment => some (.started r ⟨user, password, environment⟩)
  | _ => none

namespace Daemon

variable {d : Daemon} {sys : Sys} {r : SeatRef} {ev : SeatEvent}

/-- What an act of seat `r` does to observer `oid`. -/
def hear (r : SeatRef) (oid : ObserverId) (o : Observer) (a : Act) : Observer :=
  match a with
  | .sessionCreated => o.onSeatSignal r .created
  | .sessionTerminated => o.onSeatSignal r .terminated
  | .sessionError code => o.onSeatSignal r (.error code)
  | .observerNew k args =>
    if oid = .ofSeat r k then Observer.new false (some r) args.enableFlags else o
  | .observerDispose k => if oid = .ofSeat r k then o.dispose else o
  | _ => o

/-- An act reaches every observer and the log. -/
theorem perform_eq (r : SeatRef) (d : Daemon) (a : Act) :
    perform r d a = { d with
      observers := fun oid => hear r oid (d.observers oid) a
      log := d.log ++ (a.record r).toList } := by
  have hupdate : ∀ oid' o, Function.update d.observers oid' o =
      fun oid => if oid = oid' then o else d.observers oid := by
    intro oid' o
    funext oid
    rw [Function.update_apply]
  cases a with
  | observerNew k args =>
    simp only [perform, setObserver, hupdate, hear, Act.record, Option.toList_none,
      List.append_nil]
  | observerDispose k =>
    have hobs : ∀ oid, (if oid = ObserverId.ofSeat r k then
        (d.observers (.ofSeat r k)).dispose else d.observers oid) =
        if oid = .ofSeat r k then (d.observers oid).dispose else d.observers oid := by
      intro oid
      split
      · rename_i h
        rw [h]
      · rfl
    simp only [perform, setObserver, hupdate, hear, Act.record, Option.toList_none,
      List.append_nil, hobs]
  | _ => simp [perform, signal, record, hear, Act.record]

/-- So does a list of them. -/
theorem foldl_perform_eq (r : SeatRef) (acts : List Act) (d : Daemon) :
    acts.foldl (perform r) d = { d with
      observers := fun oid => acts.foldl (hear r oid) (d.observers oid)
      log := d.log ++ acts.filterMap (Act.record r) } := by
  induction acts generalizing d with
  | nil => simp
  | cons a acts ih =>
    rw [List.foldl_cons, ih, perform_eq]
    have hfilter : (a :: acts).filterMap (Act.record r) =
        (a.record r).toList ++ acts.filterMap (Act.record r) := by
      cases h : a.record r <;> simp [h]
    simp only [hfilter, List.foldl_cons, List.append_assoc]

theorem gained_eq {s s' : Seat} {acts : List Act} (h : s'.trace = s.trace ++ acts) :
    gained s s' = acts := by
  rw [gained, h, List.drop_left]

/-- What a dispatch of seat `r` that leads from `s` to `s'` does to an observer. -/
def heard (r : SeatRef) (oid : ObserverId) (s s' : Seat) (o : Observer) : Observer :=
  let o := (gained s s').foldl (hear r oid) o
  if s.refs ≠ 0 ∧ s'.refs = 0 then o.onSeatDispose r else o

/-- A dispatch of a seat: the seat itself, every observer, and the log. -/
theorem onSeat_eq (d : Daemon) (sys : Sys) (r : SeatRef) (ev : SeatEvent) :
    let s := d.seats.get r
    let s' := s.step ⟨d.config, sys, ev⟩
    d.onSeat sys r ev = { d with
      seats := d.seats.set r s'
      observers := fun oid => heard r oid s s' (d.observers oid)
      log := d.log ++ (gained s s').filterMap (Act.record r) } := by
  intro s s'
  simp only [onSeat]
  simp only [foldl_perform_eq]
  change (if s.refs ≠ 0 ∧ s'.refs = 0 then _ else _) = _
  by_cases h : s.refs ≠ 0 ∧ s'.refs = 0
  · rw [if_pos h]
    simp only [heard, if_pos h]
    rfl
  · rw [if_neg h]
    simp only [heard, if_neg h]
    rfl

end Daemon

namespace Observer

variable {o : Observer} {r : SeatRef}

/-! ## Observers at rest -/

/-- An observer between two dispatches: no request is active, no seat is
connected, and every queued request is of a supported type, names a user if it
is a login, and is not yet bound to a seat. -/
structure Rests (o : Observer) : Prop where
  active : o.activeRequest = none
  connected : o.connected = []
  wired : o.Wired
  queued : ∀ req ∈ o.requestQueue.getD [], ∃ q, req = { dbusRequest := some q } ∧
    o.isRequestSupported q.type = true ∧ (q.type = .loginUser → q.username.isSome = true)

/-- What is known of the request at the head of the queue. -/
theorem Rests.head (h : o.Rests) {q : DbusRequest} {rest : List Request}
    (hq : o.requestQueue = some ({ dbusRequest := some q } :: rest)) :
    o.isRequestSupported q.type = true ∧ (q.type = .loginUser → q.username.isSome = true) := by
  obtain ⟨q', hq', hsupp, hname⟩ := h.queued { dbusRequest := some q } (by rw [hq]; simp)
  obtain rfl := Option.some.inj (Request.mk.inj hq').1
  exact ⟨hsupp, hname⟩

theorem rests_new (manager : Bool) (seat : Option SeatRef) (flags : ℕ) :
    (Observer.new manager seat flags).Rests := by
  refine ⟨rfl, rfl, wired_new manager seat flags, ?_⟩
  intro req hreq
  cases hreq

/-- An observer that was never created is at rest, too. -/
theorem rests_empty : ({} : Observer).Rests := by
  refine ⟨rfl, rfl, ⟨List.nodup_nil, ?_, fun _ _ => rfl, ?_, ?_⟩, ?_⟩
  all_goals
    intro a ha
    cases ha

/-- Without a connection a signal is not heard. -/
theorem onSeatSignal_of_unconnected (h : o.connected = []) (g : SeatSignal) :
    o.onSeatSignal r g = o := by
  simp [onSeatSignal, h]

theorem dispose_rests (h : o.Rests) : o.dispose.Rests := by
  obtain ⟨cs, ws, rs, heq, -, hcs⟩ := dispose_eq o
  refine ⟨by rw [heq], by rw [heq]; exact hcs h.connected, dispose_wired o, ?_⟩
  rw [heq]
  intro req hreq
  cases hreq

/-- When a seat dies, an observer at rest forgets it and nothing else. -/
theorem onSeatDispose_eq (h : o.Rests) (r : SeatRef) :
    o.onSeatDispose r = o ∨ o.onSeatDispose r = { o with
      weakRefs := o.weakRefs.filter (· ≠ r)
      seat := if o.seat = some r then none else o.seat } := by
  simp only [onSeatDispose]
  split
  · right
    rw [disconnectSeat, h.connected, h.active, ← h.connected, ← h.active]
    simp [h.active, h.connected]
  · exact Or.inl rfl

theorem onSeatDispose_rests (h : o.Rests) (r : SeatRef) : (o.onSeatDispose r).Rests := by
  rcases onSeatDispose_eq h r with heq | heq
  · rw [heq]
    exact h
  · rw [heq]
    exact ⟨h.active, h.connected, h.wired.congr rfl rfl rfl rfl rfl, h.queued⟩

end Observer

namespace Daemon

variable {r : SeatRef} {oid : ObserverId} {o : Observer} {J : Observer → Prop}

/-- **What an observer keeps**: a property of unconnected observers that new ones
have and disposed ones keep survives whatever a seat does. -/
theorem foldl_hear_induct (hrest : ∀ o, J o → o.connected = [])
    (hdispose : ∀ o, J o → J o.dispose) {acts : List Act}
    (hnew : ∀ k args, Act.observerNew k args ∈ acts → oid = .ofSeat r k →
      J (Observer.new false (some r) args.enableFlags))
    (ho : J o) : J (acts.foldl (hear r oid) o) := by
  induction acts generalizing o with
  | nil => exact ho
  | cons a acts ih =>
    rw [List.foldl_cons]
    refine ih (fun k args hm => hnew k args (List.mem_cons_of_mem _ hm)) ?_
    have hsignal : ∀ g, J (o.onSeatSignal r g) := by
      intro g
      rw [Observer.onSeatSignal_of_unconnected (hrest o ho)]
      exact ho
    cases a with
    | sessionCreated => exact hsignal .created
    | sessionTerminated => exact hsignal .terminated
    | sessionError code => exact hsignal (.error code)
    | observerNew k args =>
      simp only [hear]
      split
      · rename_i hoid
        exact hnew k args List.mem_cons_self hoid
      · exact ho
    | observerDispose k =>
      simp only [hear]
      split
      · exact hdispose o ho
      · exact ho
    | _ => exact ho

/-- The same for a whole dispatch of the seat. -/
theorem heard_induct (hrest : ∀ o, J o → o.connected = [])
    (hdispose : ∀ o, J o → J o.dispose) (hdead : ∀ o, J o → J (o.onSeatDispose r))
    {s s' : Seat}
    (hnew : ∀ k args, Act.observerNew k args ∈ gained s s' → oid = .ofSeat r k →
      J (Observer.new false (some r) args.enableFlags))
    (ho : J o) : J (heard r oid s s' o) := by
  have hfold : J ((gained s s').foldl (hear r oid) o) :=
    foldl_hear_induct hrest hdispose hnew ho
  simp only [heard]
  split
  · exact hdead _ hfold
  · exact hfold

end Daemon

namespace Seat

variable {Looked : String → ℕ → Prop} {s : Seat}

/-- A dispatch of a seat only adds to its history. -/
theorem step_grows (hl : s.Linked Looked) (st : SeatStep) : Grows (fun _ => True) s (s.step st) := by
  rcases ha : s.attempt st with _ | args
  · exact (step_noStart hl ha).imp fun _ _ => trivial
  · obtain ⟨s₁, hc, hg⟩ := step_attempt hl ha
    have hcreate : Grows (fun _ => True) s₁ (s₁.createSession st.cfg st.sys args).1 :=
      (createSession_grows st.cfg st.sys args s₁).imp fun _ _ => trivial
    exact ((hc.grows.imp fun _ _ => trivial).trans hcreate).trans (hg.imp fun _ _ => trivial)

/-- An observer that came up in a growth of the seat is a new one. -/
theorem Grows.gained {P : Act → Prop} {s' : Seat} (h : Grows P s s') {k : ObserverRef}
    {args : ObserverArgs} (hm : Act.observerNew k args ∈ Daemon.gained s s') :
    s.observers.next ≤ k ∧ k < s'.observers.next ∧
      args.enableFlags = enableLogoutUser ||| enableSwitchUser := by
  obtain ⟨acts, ht, -⟩ := h.trace
  rw [Daemon.gained_eq ht] at hm
  exact h.news acts ht k args hm

end Seat

end Tlm
