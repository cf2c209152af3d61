import Mathlib.Data.List.Nodup
import Tlm.DaemonRequest
import Tlm.SeatStop
import Tlm.Table

/-!
# The table of seats

The manager's table has one entry for each id, and each entry is a seat of its
own that carries this id. `Registered` says so, together with the fact that
the table holds a reference to every seat in it; it is true in every state of
every run (`run_registered`).

Most of what the daemon does leaves the table alone and only lets its seats
evolve (`Evolves`). The table itself is changed by `_create_seat`, which puts a
**new** seat into it, and by removals. `step_goes` says once and for all of what
each step of the daemon is made; what all of these keep, every step keeps.
-/

namespace Tlm

namespace Daemon

variable {d d' d'' : Daemon} {sys : Sys} {r : SeatRef} {ev : SeatEvent} {id : String}

/-- The table is what it was, and so are the seats in it as far as it cares. -/
structure Evolves (d d' : Daemon) : Prop where
  table : d'.seatTable = d.seatTable
  next : d'.seats.next = d.seats.next
  id : ∀ r, (d'.seats.get r).id = (d.seats.get r).id
  held : ∀ r, (d.seats.get r).IsHeld → (d'.seats.get r).IsHeld

/-- One entry for each id, one seat for each entry, and a reference to it. -/
structure Registered (d : Daemon) : Prop where
  keys : (d.seatTable.map Prod.fst).Nodup
  refs : (d.seatTable.map Prod.snd).Nodup
  allocated : ∀ p ∈ d.seatTable, p.2 < d.seats.next
  id : ∀ p ∈ d.seatTable, (d.seats.get p.2).id = p.1
  held : ∀ p ∈ d.seatTable, (d.seats.get p.2).IsHeld

theorem registered_new (config : Config) (initialUser : Option String) :
    (Daemon.new config initialUser).Registered := by
  refine ⟨List.nodup_nil, List.nodup_nil, ?_, ?_, ?_⟩
  all_goals
    intro p hp
    cases hp

/-! ## What leaves the table alone -/

theorem Evolves.refl (d : Daemon) : Evolves d d := ⟨rfl, rfl, fun _ => rfl, fun _ h => h⟩

theorem Evolves.trans (h₁ : Evolves d d') (h₂ : Evolves d' d'') : Evolves d d'' :=
  ⟨h₂.table.trans h₁.table, h₂.next.trans h₁.next, fun r => (h₂.id r).trans (h₁.id r),
    fun r h => h₂.held r (h₁.held r h)⟩

/-- Whatever is neither the table nor a seat may change freely. -/
theorem Evolves.of_eq (h₁ : d'.seatTable = d.seatTable) (h₂ : d'.seats = d.seats) :
    Evolves d d' := by
  refine ⟨h₁, by rw [h₂], fun r => by rw [h₂], fun r h => ?_⟩
  rw [h₂]
  exact h

theorem Registered.evolves (h : d.Registered) (h' : Evolves d d') : d'.Registered := by
  refine ⟨?_, ?_, ?_, ?_, ?_⟩
  · rw [h'.table]
    exact h.keys
  · rw [h'.table]
    exact h.refs
  · intro p hp
    rw [h'.table] at hp
    rw [h'.next]
    exact h.allocated p hp
  · intro p hp
    rw [h'.table] at hp
    exact (h'.id p.2).trans (h.id p hp)
  · intro p hp
    rw [h'.table] at hp
    exact h'.held p.2 (h.held p hp)

theorem onSeat_table (d : Daemon) (sys : Sys) (r : SeatRef) (ev : SeatEvent) :
    (d.onSeat sys r ev).seatTable = d.seatTable := by
  rw [onSeat_eq]

theorem onSeat_seats (d : Daemon) (sys : Sys) (r : SeatRef) (ev : SeatEvent) :
    (d.onSeat sys r ev).seats = d.seats.set r ((d.seats.get r).step ⟨d.config, sys, ev⟩) := by
  rw [onSeat_eq]

/-- So may seats, unless a reference is dropped. -/
theorem onSeat_evolves (hev : ev ≠ .unref) (d : Daemon) (sys : Sys) (r : SeatRef) :
    Evolves d (d.onSeat sys r ev) := by
  refine ⟨onSeat_table d sys r ev, by rw [onSeat_seats]; rfl, fun r' => ?_, fun r' h => ?_⟩
  · rw [onSeat_seats, Store.get_set]
    split
    · rename_i hr
      rw [hr]
      exact (Seat.step_frame _ _).1
    · rfl
  · rw [onSeat_seats, Store.get_set]
    split
    · rename_i hr
      rw [hr] at h
      exact Seat.step_held h hev
    · exact h

/-- What a visit of the stop loop does before it looks at the answer. -/
theorem asked_evolves (d : Daemon) (sys : Sys) (r : SeatRef) :
    Evolves d ((d.onSeat sys r .connectStop).onSeat sys r .terminateSession) := by
  have hconnect : Evolves d (d.onSeat sys r .connectStop) := onSeat_evolves (by nofun) d sys r
  exact hconnect.trans (onSeat_evolves (by nofun) _ sys r)

/-! ## Looking a seat up -/

theorem getSeat_mem (h : d.getSeat id = some r) : (id, r) ∈ d.seatTable := Table.mem_of_lookup h

theorem getSeat_none (h : d.getSeat id = none) : id ∉ d.seatTable.map Prod.fst :=
  Table.lookup_eq_none.mp h

/-- What is found under an id is the entry for it. -/
theorem Registered.getSeat_iff (h : d.Registered) :
    d.getSeat id = some r ↔ (id, r) ∈ d.seatTable :=
  ⟨getSeat_mem, Table.lookup_of_mem h.keys⟩

/-! ## Changes of the table -/

/-- A seat that is not in the table may lose a reference. -/
theorem Registered.unref (h : d.Registered) (hr : ∀ p ∈ d.seatTable, p.2 ≠ r) (sys : Sys) :
    (d.onSeat sys r .unref).Registered := by
  have hget : ∀ p ∈ d.seatTable, (d.onSeat sys r .unref).seats.get p.2 = d.seats.get p.2 := by
    intro p hp
    rw [onSeat_seats, Store.get_set_ne _ _ (hr p hp)]
  have htable := onSeat_table d sys r .unref
  refine ⟨by rw [htable]; exact h.keys, by rw [htable]; exact h.refs, ?_, ?_, ?_⟩
  all_goals
    intro p hp
    rw [htable] at hp
  · rw [onSeat_seats]
    exact h.allocated p hp
  · rw [hget p hp]
    exact h.id p hp
  · rw [hget p hp]
    exact h.held p hp

theorem Registered.drop (h : d.Registered) (id : String) :
    Registered { d with seatTable := d.seatTable.filter (·.1 ≠ id) } := by
  have hsub : (d.seatTable.filter (·.1 ≠ id)).Sublist d.seatTable := List.filter_sublist
  exact ⟨h.keys.sublist (hsub.map _), h.refs.sublist (hsub.map _),
    fun p hp => h.allocated p (hsub.subset hp), fun p hp => h.id p (hsub.subset hp),
    fun p hp => h.held p (hsub.subset hp)⟩

theorem removeSeat_registered (h : d.Registered) (sys : Sys) (id : String) :
    (d.removeSeat sys id).Registered := by
  simp only [removeSeat]
  split
  · exact h
  · rename_i r hr
    refine (h.drop id).unref ?_ sys
    intro p hp hpr
    obtain ⟨hmem, hne⟩ := List.mem_filter.mp hp
    have hsame : p = (id, r) := List.inj_on_of_nodup_map h.refs hmem (getSeat_mem hr) hpr
    rw [hsame] at hne
    simp at hne

/-- A seat comes under a key that is free. -/
theorem Registered.append (h : d.Registered) (hr : r < d.seats.next)
    (hid : (d.seats.get r).id = id) (hheld : (d.seats.get r).IsHeld)
    (hnew : ∀ p ∈ d.seatTable, p.2 ≠ r) (hkey : id ∉ d.seatTable.map Prod.fst) :
    Registered { d with seatTable := d.seatTable ++ [(id, r)] } := by
  have hmem : ∀ p ∈ d.seatTable ++ [(id, r)], p ∈ d.seatTable ∨ p = (id, r) := by
    intro p hp
    simpa using hp
  refine ⟨?_, ?_, ?_, ?_, ?_⟩
  · simp only [List.map_append, List.map_cons, List.map_nil]
    exact h.keys.append (List.nodup_singleton id) (by simpa using hkey)
  · simp only [List.map_append, List.map_cons, List.map_nil]
    refine h.refs.append (List.nodup_singleton r) ?_
    intro r' hr' hr''
    obtain ⟨p, hp, rfl⟩ := List.mem_map.mp hr'
    exact hnew p hp (List.mem_singleton.mp hr'')
  all_goals
    intro p hp
    rcases hmem p hp with hp | rfl
  · exact h.allocated p hp
  · exact hr
  · exact h.id p hp
  · exact hid
  · exact h.held p hp
  · exact hheld

/-- A seat takes the place of the one under its key. -/
theorem Registered.replace (h : d.Registered) (hr : r < d.seats.next)
    (hid : (d.seats.get r).id = id) (hheld : (d.seats.get r).IsHeld)
    (hnew : ∀ p ∈ d.seatTable, p.2 ≠ r) :
    Registered { d with seatTable := Table.replace id r d.seatTable } := by
  refine ⟨?_, ?_, ?_, ?_, ?_⟩
  · have hkeys : (Table.replace id r d.seatTable).map Prod.fst = d.seatTable.map Prod.fst :=
      Table.keys_replace
    rw [hkeys]
    exact h.keys
  · rw [Table.replace, List.map_map]
    refine List.Nodup.map_on ?_ h.keys.of_map
    intro p hp q hq heq
    simp only [Function.comp] at heq
    split at heq <;> split at heq
    · rename_i hp' hq'
      exact List.inj_on_of_nodup_map h.keys hp hq (hp'.trans hq'.symm)
    · exact absurd heq.symm (hnew q hq)
    · exact absurd heq (hnew p hp)
    · exact List.inj_on_of_nodup_map h.refs hp hq heq
  all_goals
    intro p hp
    rcases Table.mem_replace hp with rfl | ⟨hp, -⟩
  · exact hr
  · exact h.allocated p hp
  · exact hid
  · exact h.id p hp
  · exact hheld
  · exact h.held p hp

/-- A seat that is in no entry yet is put into the table. -/
theorem insertSeat_registered (h : d.Registered) (hr : r < d.seats.next)
    (hid : (d.seats.get r).id = id) (hheld : (d.seats.get r).IsHeld)
    (hnew : ∀ p ∈ d.seatTable, p.2 ≠ r) (sys : Sys) : (d.insertSeat sys id r).Registered := by
  simp only [insertSeat]
  split
  · rename_i hnone
    exact h.append hr hid hheld hnew (getSeat_none hnone)
  · -- the entry of the old seat becomes that of the new one
    rename_i old hold
    have holdmem := getSeat_mem hold
    refine (h.replace hr hid hheld hnew).unref ?_ sys
    intro p hp hpold
    rcases Table.mem_replace hp with rfl | ⟨hp, hne⟩
    · exact hnew _ holdmem hpold.symm
    · have hsame : p = (id, old) := List.inj_on_of_nodup_map h.refs hp holdmem hpold
      exact hne (by rw [hsame])

/-- So is a new one. -/
theorem enter_registered (h : d.Registered) (sys : Sys) (id : String) :
    ({ d with seats := d.seats.alloc (Seat.new id) }.insertSeat sys id d.seats.next).Registered := by
  have hne : ∀ p ∈ d.seatTable, p.2 ≠ d.seats.next := fun p hp => Nat.ne_of_lt (h.allocated p hp)
  have halloc : Registered { d with seats := d.seats.alloc (Seat.new id) } := by
    refine ⟨h.keys, h.refs, fun p hp => Nat.lt_succ_of_lt (h.allocated p hp), ?_, ?_⟩
    all_goals
      intro p hp
      simp only
      rw [Store.get_alloc_ne _ _ (hne p hp)]
    · exact h.id p hp
    · exact h.held p hp
  have hseat : (d.seats.alloc (Seat.new id)).get d.seats.next = Seat.new id :=
    Store.get_alloc_self ..
  have hid : ((d.seats.alloc (Seat.new id)).get d.seats.next).id = id := by
    rw [hseat]
    rfl
  have hheld : ((d.seats.alloc (Seat.new id)).get d.seats.next).IsHeld := by
    rw [hseat]
    exact Nat.one_pos
  exact insertSeat_registered halloc (Nat.lt_succ_self d.seats.next) hid hheld hne sys

/-! ## Everything the daemon does, in the same few ways -/

/-- One daemon becomes another by dispatches of seats in `E`, by new seats that
enter the table, by removals from it, by entries of the log in `L`, and by what
concerns neither seats nor table nor log. -/
inductive Goes (E : SeatRef → SeatEvent → Prop) (L : Record → Prop) : Daemon → Daemon → Prop where
  | refl (d : Daemon) : Goes E L d d
  | trans {d d' d'' : Daemon} : Goes E L d d' → Goes E L d' d'' → Goes E L d d''
  | onSeat (d : Daemon) (sys : Sys) {r : SeatRef} {ev : SeatEvent} (h : E r ev) :
      Goes E L d (d.onSeat sys r ev)
  | enter (d : Daemon) (sys : Sys) (id : String) :
      Goes E L d
        ({ d with seats := d.seats.alloc (Seat.new id) }.insertSeat sys id d.seats.next)
  | remove (d : Daemon) (sys : Sys) (id : String) : Goes E L d (d.removeSeat sys id)
  | log (d : Daemon) (es : List Record) (h : ∀ e ∈ es, L e) :
      Goes E L d { d with log := d.log ++ es }
  | same {d d' : Daemon} (h₁ : d'.seatTable = d.seatTable) (h₂ : d'.seats = d.seats)
      (h₃ : d'.log = d.log) : Goes E L d d'

section Goes

variable {E : SeatRef → SeatEvent → Prop} {L : Record → Prop}

/-- No seat is ever forgotten. -/
theorem Goes.next (h : Goes E L d d') : d.seats.next ≤ d'.seats.next := by
  have hunref : ∀ (d : Daemon) sys r ev, (d.onSeat sys r ev).seats.next = d.seats.next := by
    intro d sys r ev
    rw [onSeat_seats]
    rfl
  induction h with
  | refl d => exact le_refl _
  | trans _ _ ih₁ ih₂ => exact ih₁.trans ih₂
  | onSeat d sys _ => rw [hunref]
  | enter d sys id =>
    simp only [insertSeat]
    split
    · exact Nat.le_succ _
    · rw [hunref]
      exact Nat.le_succ _
  | remove d sys id =>
    simp only [removeSeat]
    split
    · exact le_refl _
    · rw [hunref]
  | log d es _ => exact le_refl _
  | same _ h₂ _ => rw [h₂]

theorem Goes.record (d : Daemon) {e : Record} (h : L e) : Goes E L d (d.record e) :=
  .log d [e] fun e' he' => by rwa [List.mem_singleton.mp he']

section Creating

variable (hC : ∀ id registered, L (.createSeat id registered))

include hC

theorem createSeat_goes (d : Daemon) (sys : Sys) (id : String)
    (hE : ∀ r, d.seats.next ≤ r → ∀ username, E r (.createSession { username := username })) :
    Goes E L d (d.createSeat sys id) := by
  have hrecord : Goes E L d (d.record (.createSeat id (d.getSeat id).isSome)) :=
    .record d (hC id _)
  have henter := hrecord.trans (.enter _ sys id)
  simp only [createSeat]
  split
  · exact henter.trans (.onSeat _ sys (hE _ (le_refl _) _))
  · exact henter

theorem addSeat_goes (d : Daemon) (sys : Sys) (fs : Fs) (id : String)
    (hE : ∀ r, d.seats.next ≤ r → ∀ username, E r (.createSession { username := username })) :
    Goes E L d (d.addSeat sys fs id) := by
  have hcreate : ∀ {d' : Daemon}, Goes E L d d' → Goes E L d (d'.createSeat sys id) :=
    fun hd' => hd'.trans (createSeat_goes hC _ sys id fun r hr => hE r (hd'.next.trans hr))
  have hnotices : ∀ (notices : List Notice) (d' : Daemon), Goes E L d d' →
      Goes E L d (notices.foldl (fun d n => d.seatWatchCb sys id n.isFinal) d') := by
    intro notices
    induction notices with
    | nil => exact fun d' h => h
    | cons n notices ih =>
      intro d' h
      refine ih _ ?_
      simp only [seatWatchCb]
      split
      · exact hcreate h
      · exact h
  unfold addSeat
  split
  · exact .refl d
  · apply hcreate
    split
    · have hfold := hnotices (watchForFiles fs (watchItems d.config id)).1 d (.refl d)
      simp only
      split
      · exact hfold.trans (.same rfl rfl rfl)
      · exact hfold
    · exact .refl d

end Creating

section Stopping

variable (hL : L .managerStopped)

include hL in
theorem sessionTerminatedCb_goes (sys : Sys) (id : String) (n : ℕ) (d : Daemon) :
    Goes E L d ((sessionTerminatedCb sys id)^[n] d) := by
  induction n generalizing d with
  | zero => exact .refl d
  | succ n ih =>
    rw [Function.iterate_succ_apply]
    refine Goes.trans ?_ (ih _)
    simp only [sessionTerminatedCb]
    split
    · exact (Goes.remove d sys id).trans (.record _ hL)
    · exact .remove d sys id

variable (hE : ∀ r, E r .connectStop ∧ E r .terminateSession)

include hE

theorem stopPass_goes (sys : Sys) (entries : List (String × SeatRef)) (d : Daemon)
    (delayed : Bool) : Goes E L d (stopPass sys entries (d, delayed)).1.1 := by
  induction entries generalizing d delayed with
  | nil => exact .refl d
  | cons entry rest ih =>
    obtain ⟨id, r⟩ := entry
    have hasked : Goes E L d ((d.onSeat sys r .connectStop).onSeat sys r .terminateSession) :=
      (Goes.onSeat d sys (hE r).1).trans (.onSeat _ sys (hE r).2)
    simp only [stopPass]
    split
    · exact hasked.trans (ih _ true)
    · exact hasked.trans (.remove _ sys id)

theorem stopLoop_goes (sys : Sys) (iterate : List (String × SeatRef) → List (String × SeatRef))
    (n : ℕ) (d : Daemon) (delayed : Bool) :
    Goes E L d (stopLoop sys iterate n (d, delayed)).1 := by
  induction n generalizing d delayed with
  | zero => exact .refl d
  | succ n ih =>
    have hpass : Goes E L d (stopPass sys (iterate d.seatTable) (d, delayed)).1.1 :=
      stopPass_goes hE sys _ d delayed
    simp only [stopLoop]
    split
    · rename_i acc heq
      rw [heq] at hpass
      exact hpass
    · rename_i acc heq
      rw [heq] at hpass
      exact hpass.trans (ih acc.1 acc.2)

include hL

theorem stop_goes (d : Daemon) (sys : Sys)
    (iterate : List (String × SeatRef) → List (String × SeatRef)) :
    Goes E L d (d.stop sys iterate) := by
  have hloop : Goes E L d (stopLoop sys iterate (d.seatTable.length + 1) (d, false)).1 :=
    stopLoop_goes hE sys iterate _ d false
  simp only [stop]
  split
  · exact hloop.trans (.same rfl rfl rfl)
  · exact (hloop.trans (.record _ hL)).trans (.same rfl rfl rfl)

theorem dispose_goes (d : Daemon) (sys : Sys)
    (iterate : List (String × SeatRef) → List (String × SeatRef)) :
    Goes E L d (d.dispose sys iterate) := by
  have hremove : ∀ (ids : List String) (d : Daemon),
      Goes E L d (ids.foldl (fun d id => d.removeSeat sys id) d) := by
    intro ids
    induction ids with
    | nil => exact .refl
    | cons id ids ih => exact fun d => (Goes.remove d sys id).trans (ih _)
  have hroot : Goes E L d (d.setObserver .root (d.observers .root).dispose) := .same rfl rfl rfl
  simp only [dispose]
  refine Goes.trans ?_ (hremove _ _)
  split
  · exact hroot.trans (stop_goes hL hE _ sys iterate)
  · exact hroot

end Stopping

end Goes

end Daemon

/-- What seats are given on an event of the daemon; `next` is the name of the next
new seat. -/
def DaemonEvent.Gives (next : SeatRef) : DaemonEvent → SeatRef → SeatEvent → Prop
  | .addSeat _ _, r, ev => next ≤ r ∧ ∃ args, ev = .createSession args
  | .seatAdded _ _, r, ev => next ≤ r ∧ ∃ args, ev = .createSession args
  | .seatWatch _ _, r, ev => next ≤ r ∧ ∃ args, ev = .createSession args
  | .authenticate _ _ _ _, _, ev => ∃ args, ev = .switchUser args
  | .idle _, _, ev => ev = .ref ∨ ∃ q s, Daemon.operation q s = some ev
  | .delayedSession r k, r', ev => r' = r ∧ ev = .delayedSession k
  | .session r x e, r', ev => r' = r ∧ ev = .session x e
  | .stop _, _, ev => ev = .connectStop ∨ ev = .terminateSession
  | .dispose _, _, ev => ev = .connectStop ∨ ev = .terminateSession
  | _, _, _ => False

/-- A record that `st` may leave besides the sessions that were started. -/
def DaemonEvent.Notes : DaemonEvent → Record → Prop
  | .addSeat _ _, e => ∃ id registered, e = .createSeat id registered
  | .seatAdded id _, e => (∃ id registered, e = .createSeat id registered) ∨ e = .borrowedFreed id
  | .seatWatch _ _, e => ∃ id registered, e = .createSeat id registered
  | .seatRemoved id, e => e = .seatRemoved id ∨ e = .borrowedFreed id
  | .authenticate _ _ _ _, e => ∃ r creds, e = .accepted r creds
  | .idle _, e => ∃ r creds, e = .accepted r creds
  | .session _ _ _, e => e = .managerStopped
  | .stop _, e => e = .managerStopped
  | .dispose _, e => e = .managerStopped
  | _, _ => False

namespace Daemon

variable {d d' : Daemon}

theorem request_goes {E : SeatRef → SeatEvent → Prop} {L : Record → Prop} {r : SeatRef}
    {ev : SeatEvent} (hE : E r ev) (hL : ∀ r creds, L (.accepted r creds)) (d : Daemon)
    (sys : Sys) : Goes E L d (d.request sys r ev) := by
  rw [request_eq]
  refine (Goes.log d (acceptance d.config sys r ev (d.seats.get r)) ?_).trans (.onSeat _ sys hE)
  intro e he
  simp only [acceptance] at he
  split at he
  · split at he
    · rw [List.mem_singleton.mp he]
      exact hL _ _
    · cases he
  · cases he

theorem idle_goes {E : SeatRef → SeatEvent → Prop} {L : Record → Prop} (h : d.Tidy) {oid : ObserverId}
    (href : ∀ r, E r .ref)
    (hE : ∀ q rest, (d.observers oid).requestQueue = some ({ dbusRequest := some q } :: rest) →
      ∀ r s ev, operation q s = some ev → E r ev)
    (hL : ∀ r creds, L (.accepted r creds)) (sys : Sys) :
    Goes E L d (d.step ⟨sys, .idle oid⟩) := by
  rcases idle_cases h sys oid with ⟨-, heq⟩ | ⟨-, heq⟩ | ⟨q, rest, -, hq, heq⟩
  · rw [heq]
    exact .refl d
  · rw [heq]
    exact .same rfl rfl rfl
  · have hhand : ∀ (d' : Daemon) r, Goes E L d' (d'.handOver sys r q) := by
      intro d' r
      simp only [handOver]
      split
      · rename_i ev hop
        exact request_goes (hE q rest hq r _ ev hop) hL d' sys
      · exact .refl d'
    rw [heq]
    rcases processRequest_eq h sys hq with ⟨-, heq⟩ | ⟨r, -, -, heq⟩ | ⟨r, -, -, -, -, heq⟩
    · rw [heq]
      exact .same rfl rfl rfl
    · rw [heq]
      exact ((Goes.onSeat d sys (href r)).trans (hhand _ r)).trans (.same rfl rfl rfl)
    · rw [heq]
      exact (hhand d r).trans (.same rfl rfl rfl)

/-- **Every step goes that way.** -/
theorem step_goes (h : d.Tidy) (st : DaemonStep) :
    Goes (st.event.Gives d.seats.next) st.event.Notes d (d.step st) := by
  obtain ⟨sys, event⟩ := st
  cases event with
  | addSeat id fs =>
    exact addSeat_goes (fun id registered => ⟨id, registered, rfl⟩) d sys fs id
      fun r hr username => ⟨hr, { username := username }, rfl⟩
  | seatAdded id fs =>
    refine Goes.trans ?_ (.record _ (.inr rfl))
    split
    · exact .refl d
    · exact addSeat_goes (fun id registered => .inl ⟨id, registered, rfl⟩) d sys fs id
        fun r hr username => ⟨hr, { username := username }, rfl⟩
  | seatRemoved id =>
    refine Goes.trans ?_ (.record _ (.inr rfl))
    split
    · exact .refl d
    · exact (Goes.remove d sys id).trans (.record _ (.inl rfl))
  | seatWatch id isFinal =>
    simp only [step, seatWatchCb]
    split
    · split
      · exact createSeat_goes (fun id registered => ⟨id, registered, rfl⟩) d sys id
          fun r hr username => ⟨hr, { username := username }, rfl⟩
      · exact .refl d
    · exact .refl d
  | authenticate seatId service username password =>
    simp only [step, authenticate]
    split
    · exact .refl d
    · exact request_goes ⟨_, rfl⟩ (fun r creds => ⟨r, creds, rfl⟩) d sys
  | idle oid =>
    exact idle_goes h (fun _ => Or.inl rfl) (fun q _ _ _ s _ hop => Or.inr ⟨q, s, hop⟩)
      (fun r creds => ⟨r, creds, rfl⟩) sys
  | delayedSession r k => exact .onSeat d sys ⟨rfl, rfl⟩
  | session r x e =>
    have hseat : Goes ((DaemonEvent.session r x e).Gives d.seats.next)
        (DaemonEvent.session r x e).Notes d (d.onSeat sys r (.session x e)) :=
      .onSeat d sys ⟨rfl, rfl⟩
    simp only [step, sessionEvent]
    split
    · refine hseat.trans (sessionTerminatedCb_goes ?_ sys _ _ _)
      exact rfl
    · exact hseat
  | stop iterate =>
    refine stop_goes ?_ ?_ d sys iterate
    · exact rfl
    · exact fun r => ⟨Or.inl rfl, Or.inr rfl⟩
  | dispose iterate =>
    refine dispose_goes ?_ ?_ d sys iterate
    · exact rfl
    · exact fun r => ⟨Or.inl rfl, Or.inr rfl⟩
  | _ => exact .same rfl rfl rfl

/-! ## The table in every run -/

/-- Whoever drops a reference to a seat of the table takes it out first. -/
theorem Goes.registered {E : SeatRef → SeatEvent → Prop} {L : Record → Prop}
    (hE : ∀ r, ¬ E r .unref) (h : Goes E L d d') (hr : d.Registered) : d'.Registered := by
  induction h with
  | refl d => exact hr
  | trans _ _ ih₁ ih₂ => exact ih₂ (ih₁ hr)
  | onSeat d sys hev =>
    refine hr.evolves (onSeat_evolves ?_ d sys _)
    rintro rfl
    exact hE _ hev
  | enter d sys id => exact enter_registered hr sys id
  | remove d sys id => exact removeSeat_registered hr sys id
  | log d es _ => exact hr.evolves (.of_eq rfl rfl)
  | same h₁ h₂ _ => exact hr.evolves (.of_eq h₁ h₂)

/-- No seat is given an `unref` but by the table. -/
theorem DaemonEvent.not_gives_unref (ev : DaemonEvent) (next r : SeatRef) :
    ¬ ev.Gives next r .unref := by
  cases ev with
  | idle oid =>
    rintro (h | ⟨q, s, hop⟩)
    · cases h
    · cases ht : q.type <;> simp [operation, ht] at hop
  | _ => simp [DaemonEvent.Gives]

/-- Every step keeps the table in order. -/
theorem step_registered (ht : d.Tidy) (h : d.Registered) (st : DaemonStep) :
    (d.step st).Registered :=
  (step_goes ht st).registered (fun r => DaemonEvent.not_gives_unref st.event _ r) h

/-- **The table in every run**: one entry for each id, and one seat for each
entry. -/
theorem run_registered (config : Config) (initialUser : Option String) (sts : List DaemonStep) :
    ((Daemon.new config initialUser).run sts).Registered := by
  have hstep : ∀ (d : Daemon) (st : DaemonStep), True → d.Tidy ∧ d.Registered →
      (d.step st).Tidy ∧ (d.step st).Registered :=
    fun _ st _ h => ⟨step_tidy h.1 st, step_registered h.1 h.2 st⟩
  exact (always_of_step hstep ⟨tidy_new config initialUser, registered_new config initialUser⟩
    fun _ _ => trivial).last.2

end Daemon

end Tlm
