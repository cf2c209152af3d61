import Tlm.DaemonRequest
import Tlm.Matching
import Tlm.SeatCredentials

/-!
# No unsolicited login

The log of the daemon has an entry for every login or switch request a seat has
accepted, and for every session that was started. With automatic logins switched
off and no initial user, the sessions of a seat are paid for by the requests it
has accepted: at any time, for each seat and each set of credentials, the
sessions started and the logins still owed are at most the requests accepted
(`Funded.balance`). Since a request enters the log before anything is started
for it, this holds of every prefix of the log as well, and the sessions can be
**matched** with requests, each with one of its own (`run_solicited`).
-/

namespace Tlm

namespace Daemon

variable {d d' : Daemon} {sys : Sys} {r : SeatRef} {ev : SeatEvent}

/-- The key of an accepted request or a started session: the seat, and whom it
is for. -/
abbrev Login : Type := SeatRef × Credentials

/-- An accepted request. -/
def accepted (k : Login) : Record := .accepted k.1 k.2

/-- A started session. -/
def startedFor (k : Login) : Record := .started k.1 k.2

/-- All sessions started, and all logins owed, are covered by accepted requests;
and no login comes without one. -/
structure Funded (d : Daemon) : Prop where
  wf : ∀ r, (d.seats.get r).Wf fun _ _ => True
  modest : ∀ r, (d.seats.get r).Modest
  balance : ∀ k : Login, d.log.count (startedFor k) + (d.seats.get k.1).owed.count k.2 ≤
    d.log.count (accepted k)
  covered : Covered accepted startedFor d.log
  autoLogin : d.config.autoLogin = false
  initialUser : d.initialUser = none

theorem funded_new {config : Config} (hauto : config.autoLogin = false) :
    (Daemon.new config none).Funded :=
  ⟨fun _ => wf_default, fun _ => ⟨rfl, by rintro args ⟨⟩⟩, fun _ => le_refl _, covered_nil, hauto,
    rfl⟩

/-! ## What a dispatch adds to the log -/

theorem acceptance_eq (cfg : Config) (sys : Sys) (r : SeatRef) (ev : SeatEvent) (s : Seat) :
    acceptance cfg sys r ev s = (s.granted cfg sys ev).map (.accepted r) := by
  simp only [acceptance, Seat.granted]
  rcases requestCredentials ev with _ | creds
  · simp
  · simp only
    split <;> rfl

theorem filterMap_record_eq (r : SeatRef) (acts : List Act) :
    acts.filterMap (Act.record r) = (acts.filterMap Act.credentials).map (.started r) := by
  have hrecord : Act.record r = fun a => a.credentials.map (.started r) := by
    funext a
    cases a <;> rfl
  rw [hrecord, List.map_filterMap]

/-- Counting the entries of one login among those of one seat. -/
theorem count_map_seat {f : SeatRef → Credentials → Record}
    (hf : ∀ r r' c c', f r c = f r' c' → r = r' ∧ c = c') (r : SeatRef) (cs : List Credentials)
    (k : Login) :
    (cs.map (f r)).count (f k.1 k.2) = if k.1 = r then cs.count k.2 else 0 := by
  split
  · rename_i hk
    rw [hk]
    exact List.count_map_of_injective cs (f r) (fun c c' h => (hf r r c c' h).2) k.2
  · rename_i hk
    rw [List.count_eq_zero]
    intro hm
    obtain ⟨c, -, hc⟩ := List.mem_map.mp hm
    exact hk (hf r k.1 c k.2 hc).1.symm

/-- The sessions a dispatch of seat `r` has started. -/
theorem count_startedFor (l : List Record) (r : SeatRef) (g cs : List Credentials) (k : Login) :
    (l ++ g.map (Record.accepted r) ++ cs.map (Record.started r)).count (startedFor k) =
      l.count (startedFor k) + if k.1 = r then cs.count k.2 else 0 := by
  have hzero : (g.map (Record.accepted r)).count (startedFor k) = 0 := by
    rw [List.count_eq_zero]
    intro hm
    obtain ⟨c, -, hc⟩ := List.mem_map.mp hm
    cases hc
  rw [List.count_append, List.count_append, hzero, Nat.add_zero]
  congr 1
  exact count_map_seat (fun _ _ _ _ h => Record.started.inj h) r cs k

/-- The requests it has accepted. -/
theorem count_accepted (l : List Record) (r : SeatRef) (g cs : List Credentials) (k : Login) :
    (l ++ g.map (Record.accepted r) ++ cs.map (Record.started r)).count (accepted k) =
      l.count (accepted k) + if k.1 = r then g.count k.2 else 0 := by
  have hzero : (cs.map (Record.started r)).count (accepted k) = 0 := by
    rw [List.count_eq_zero]
    intro hm
    obtain ⟨c, -, hc⟩ := List.mem_map.mp hm
    cases hc
  rw [List.count_append, List.count_append, hzero, Nat.add_zero]
  congr 1
  exact count_map_seat (fun _ _ _ _ h => Record.accepted.inj h) r g k

/-! ## Keeping the balance -/

/-- A request, accepted or not, keeps the daemon funded. -/
theorem request_funded (h : d.Funded) (sys : Sys) (r : SeatRef) (hev : ev.Named) :
    (d.request sys r ev).Funded := by
  obtain ⟨hmodest, acts, ht, hpaid⟩ := Seat.step_pays (h.wf r) (h.modest r) h.autoLogin sys hev
  rw [request_eq, onSeat_eq]
  simp only [acceptance_eq, gained_eq ht, filterMap_record_eq]
  generalize acts.filterMap Act.credentials = cs at hpaid ⊢
  generalize (d.seats.get r).granted d.config sys ev = g at hpaid ⊢
  have hbalance : ∀ k : Login,
      (d.log ++ g.map (Record.accepted r) ++ cs.map (Record.started r)).count (startedFor k) +
        ((d.seats.set r ((d.seats.get r).step ⟨d.config, sys, ev⟩)).get k.1).owed.count k.2 ≤
      (d.log ++ g.map (Record.accepted r) ++ cs.map (Record.started r)).count (accepted k) := by
    intro k
    have hk := h.balance k
    rw [count_startedFor, count_accepted, Store.get_set]
    by_cases hr : k.1 = r
    · rw [if_pos hr, if_pos hr, if_pos hr]
      rw [hr] at hk
      have hp := hpaid k.2
      omega
    · rw [if_neg hr, if_neg hr, if_neg hr]
      exact hk
  refine ⟨?_, ?_, hbalance, h.covered.append ?_ ?_ fun k => ?_, h.autoLogin, h.initialUser⟩
  · intro r'
    rw [Store.get_set]
    split
    · exact Seat.step_wf (h.wf r) fun _ _ _ => trivial
    · exact h.wf r'
  · intro r'
    rw [Store.get_set]
    split
    · exact hmodest
    · exact h.modest r'
  · intro k hm
    obtain ⟨c, -, hc⟩ := List.mem_map.mp hm
    cases hc
  · intro k hm
    obtain ⟨c, -, hc⟩ := List.mem_map.mp hm
    cases hc
  · exact (Nat.le_add_right _ _).trans (hbalance k)

/-- A dispatch that is no request is not granted anything, and needs nothing. -/
theorem onSeat_funded (h : d.Funded) (sys : Sys) (r : SeatRef)
    (hev : requestCredentials ev = none) : (d.onSeat sys r ev).Funded := by
  have hrequest : d.request sys r ev = d.onSeat sys r ev := by
    rw [request, hev]
  rw [← hrequest]
  refine request_funded h sys r fun args hargs => ?_
  rw [hargs] at hev
  cases hev

/-- An entry of the log that is about no login. -/
theorem record_funded (h : d.Funded) {e : Record} (he : ∀ k, e ≠ accepted k ∧ e ≠ startedFor k) :
    (d.record e).Funded := by
  have hcount : ∀ k, (d.log ++ [e]).count (startedFor k) = d.log.count (startedFor k) ∧
      (d.log ++ [e]).count (accepted k) = d.log.count (accepted k) := by
    intro k
    rw [List.count_append, List.count_append]
    simp [(he k).1, (he k).2]
  have hcovered : Covered accepted startedFor (d.log ++ [e] ++ []) := by
    refine h.covered.append ?_ (by simp) fun k => ?_
    · intro k hm
      exact (he k).2 (List.mem_singleton.mp hm).symm
    · rw [List.append_nil, (hcount k).1, (hcount k).2]
      exact (Nat.le_add_right _ _).trans (h.balance k)
  refine ⟨h.wf, h.modest, fun k => ?_, ?_, h.autoLogin, h.initialUser⟩
  · change (d.log ++ [e]).count (startedFor k) + _ ≤ (d.log ++ [e]).count (accepted k)
    rw [(hcount k).1, (hcount k).2]
    exact h.balance k
  · rwa [List.append_nil] at hcovered

/-- A new seat owes nothing. -/
theorem alloc_funded (h : d.Funded) (id : String) :
    Funded { d with seats := d.seats.alloc (Seat.new id) } := by
  refine ⟨?_, ?_, fun k => ?_, h.covered, h.autoLogin, h.initialUser⟩
  · intro r
    rw [Store.get_alloc]
    split
    · exact Seat.wf_new id
    · exact h.wf r
  · intro r
    rw [Store.get_alloc]
    split
    · exact ⟨rfl, by rintro args ⟨⟩⟩
    · exact h.modest r
  · rw [Store.get_alloc]
    split
    · exact (Nat.add_le_add_left (Nat.zero_le _) _).trans (h.balance k)
    · exact h.balance k

/-- So does every move without logins of its own. -/
theorem Moves.funded {O : Observer → Observer → Prop}
    (hm : Moves (fun ev => requestCredentials ev = none) O
      (fun e => ∀ k, e ≠ accepted k ∧ e ≠ startedFor k) d d') (h : d.Funded) : d'.Funded := by
  induction hm with
  | refl d => exact h
  | trans _ _ ih₁ ih₂ => exact ih₂ (ih₁ h)
  | onSeat d sys r hev => exact onSeat_funded h sys r hev
  | request d sys r hev => exact request_funded h sys r hev
  | alloc d id => exact alloc_funded h id
  | observer d oid _ => exact ⟨h.wf, h.modest, h.balance, h.covered, h.autoLogin, h.initialUser⟩
  | record d he => exact record_funded h he
  | frame d table started watches =>
    exact ⟨h.wf, h.modest, h.balance, h.covered, h.autoLogin, h.initialUser⟩

/-! ## Whole runs -/

/-- Every step with automatic logins off keeps the daemon funded. -/
theorem step_funded (ht : d.Tidy) (h : d.Funded) {st : DaemonStep}
    (hst : ∀ config, st.event = .sighup config → config.autoLogin = false) :
    (d.step st).Funded := by
  have hset : ∀ (d : Daemon) oid o, d.Funded → (d.setObserver oid o).Funded :=
    fun d oid o h => ⟨h.wf, h.modest, h.balance, h.covered, h.autoLogin, h.initialUser⟩
  cases hm : st.event.isManagers with
  | true =>
    refine Moves.funded (step_moves (fun _ hev => hev) (O := fun _ _ => True) (fun _ => trivial) ?_
      ?_ hm ?_ ?_) h
    · exact fun k => ⟨by rintro ⟨⟩, by rintro ⟨⟩⟩
    · exact fun id => ⟨fun k => ⟨by rintro ⟨⟩, by rintro ⟨⟩⟩, fun k => ⟨by rintro ⟨⟩, by rintro ⟨⟩⟩⟩
    · exact fun _ id registered k => ⟨by rintro ⟨⟩, by rintro ⟨⟩⟩
    · rw [h.autoLogin, h.initialUser]
      rintro ⟨⟩
  | false =>
    obtain ⟨sys, event⟩ := st
    cases event with
    | clientAdded oid => exact hset d oid _ h
    | clientRemoved oid a => exact hset d oid _ h
    | call oid a c => exact hset d oid _ h
    | sighup config =>
      exact ⟨h.wf, h.modest, h.balance, h.covered, hst config rfl, h.initialUser⟩
    | idle oid =>
      rcases idle_cases ht sys oid with ⟨-, heq⟩ | ⟨-, heq⟩ | ⟨q, rest, -, hq, heq⟩
      · rw [heq]
        exact h
      · rw [heq]
        exact hset d oid _ h
      · obtain ⟨d', rep, ws, id, n, hmoves, -, hproc⟩ := processRequest_answered
          (E := fun ev => requestCredentials ev = none) (O := fun _ _ => True)
          (L := fun e => ∀ k, e ≠ accepted k ∧ e ≠ startedFor k) rfl ht sys hq
        rw [heq, hproc]
        exact hset d' oid _ (hmoves.funded h)
    | _ => cases hm

/-- **No unsolicited login**: with automatic logins off throughout and no initial
user, in every run the sessions that were started can be matched, each with one
of its own, with requests for the same seat that were accepted earlier and
brought exactly the user name, password and environment the session was started
with. -/
theorem run_solicited (config : Config) (sts : List DaemonStep)
    (hauto : config.autoLogin = false)
    (hsts : ∀ st ∈ sts, ∀ config, st.event = .sighup config → config.autoLogin = false) :
    let log := ((Daemon.new config none).run sts).log
    ∃ f : ℕ → ℕ,
      (∀ i r creds, log[i]? = some (.started r creds) →
        f i < i ∧ log[f i]? = some (.accepted r creds)) ∧
      Set.InjOn f {i | ∃ r creds, log[i]? = some (.started r creds)} := by
  intro log
  have hstep : ∀ (d : Daemon) (st : DaemonStep),
      (∀ config, st.event = .sighup config → config.autoLogin = false) →
      d.Tidy ∧ d.Funded → (d.step st).Tidy ∧ (d.step st).Funded :=
    fun d st hst h => ⟨step_tidy h.1 st, step_funded h.1 h.2 hst⟩
  have hfunded : ((Daemon.new config none).run sts).Funded :=
    (always_of_step hstep ⟨tidy_new config none, funded_new hauto⟩ hsts).last.2
  obtain ⟨f, hf, hinj⟩ := hfunded.covered.matching
    (fun k k' h => Prod.ext (Record.accepted.inj h).1 (Record.accepted.inj h).2)
    (fun k k' h => Prod.ext (Record.started.inj h).1 (Record.started.inj h).2)
    (fun _ _ h => by cases h)
  refine ⟨f, fun i r creds hi => hf i (r, creds) hi, ?_⟩
  rintro i ⟨r, creds, hi⟩ i' ⟨r', creds', hi'⟩ heq
  exact hinj ⟨(r, creds), hi⟩ ⟨(r', creds'), hi'⟩ heq

/-- A plugin logs `bob` in and then switches to `alice`; once the session of `bob`
has gone, one for `alice` is started. Both sessions have their requests. -/
theorem run_solicited_switch :
    let config := Config.ofGeneral fun key => if key = "AUTO_LOGIN" then some "false" else none
    let sys (now : ℤ) : Sys :=
      { now := now, getUid := fun _ => some 1000, pam := fun _ _ _ => true }
    let sts : List DaemonStep := [⟨{}, .addSeat "seat0" {}⟩,
      ⟨sys 5000000, .authenticate "seat0" none (some "bob") (some "b")⟩,
      ⟨sys 7000000, .authenticate "seat0" none (some "alice") (some "a")⟩,
      ⟨sys 9000000, .session 0 0 .childDown⟩]
    let log := ((Daemon.new config none).run sts).log
    log[2]? = some (.started 0 ⟨some "bob", some "b", none⟩) ∧
      log[4]? = some (.started 0 ⟨some "alice", some "a", none⟩) ∧
      ∃ f : ℕ → ℕ, f 2 < 2 ∧ log[f 2]? = some (.accepted 0 ⟨some "bob", some "b", none⟩) ∧
        f 4 < 4 ∧ log[f 4]? = some (.accepted 0 ⟨some "alice", some "a", none⟩) := by
  intro config sys sts log
  have h₂ : log[2]? = some (.started 0 ⟨some "bob", some "b", none⟩) := by decide
  have h₄ : log[4]? = some (.started 0 ⟨some "alice", some "a", none⟩) := by decide
  obtain ⟨f, hf, -⟩ := run_solicited config sts (by decide) (by
    intro st hst config he
    simp only [sts, List.mem_cons, List.not_mem_nil, or_false] at hst
    rcases hst with rfl | rfl | rfl | rfl <;> cases he)
  exact ⟨h₂, h₄, f, (hf 2 _ _ h₂).1, (hf 2 _ _ h₂).2, (hf 4 _ _ h₄).1, (hf 4 _ _ h₄).2⟩

end Daemon

end Tlm
