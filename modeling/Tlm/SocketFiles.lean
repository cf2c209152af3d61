import Tlm.Binding
import Tlm.DaemonSpec
import Tlm.SeatMoves
import Tlm.SeatObservers
import Tlm.SeatSocket

/-!
# The socket files (`tlm-dbus-server-p2p.c`)

An observer serves a socket, and the socket is a file: a server that is made unlinks the file
that is in its way, a server that starts makes it anew, and a server that is finalized unlinks
it once more, whoever has it by then. The directory of the sockets is shared by all seats, and
with the root socket.

`Sockets` are the seats of a daemon with these files. **The files are those of the observers
that are there** (`run_sockets`): in every interleaving of the seats no socket is lost to
another observer, and none is left behind. So the address that `tlm-client.c` makes of a seat
and a user leads to the observer of that user, if there is one (`run_clients`). That is so as
long as no two seats are there with one id, the uids are printed without a sign, and no seat is
asked for a session that the manager has stopped; an address is taken for the file it names, as
it is for ids without a slash.
-/

namespace Tlm

/-- For each observer the `address` of its server, and for each address whose socket the file
is. -/
abbrev SocketFiles : Type := Binding ObserverId String

namespace SocketFiles

/-- `tlm_dbus_server_p2p_new`: a file that exists is unlinked. -/
def dbusServerP2pNew (files : SocketFiles) (address : String) : SocketFiles :=
  files.unlink address

/-- `_tlm_dbus_server_p2p_start`, of the server of observer `oid`. -/
def dbusServerP2pStart (files : SocketFiles) (oid : ObserverId) (address : String) :
    SocketFiles := files.bind oid address

/-- `_finalize`, of the server of observer `oid`. -/
def dbusServerP2pFinalize (files : SocketFiles) (oid : ObserverId) : SocketFiles :=
  files.release oid

/-- `tlm_dbus_observer_new` with a server that does not start: it is finalized at once. -/
def dbusObserverFailed (files : SocketFiles) (address : String) : SocketFiles :=
  (files.dbusServerP2pNew address).unlink address

/-- What an act of seat `r` does to the files; the dispatch it is in leaves the seat at `s`. -/
def onAct (r : SeatRef) (sys : Sys) (s : Seat) (files : SocketFiles) : Act → SocketFiles
  | .observerNew o args =>
    (files.dbusServerP2pNew args.address).dbusServerP2pStart (.ofSeat r o) args.address
  | .observerDispose o => files.dbusServerP2pFinalize (.ofSeat r o)
  | .createSession args .noObserver =>
    match (s.sessionUser args.username).bind sys.getUid with
    | none => files
    | some uid => files.dbusObserverFailed (observerAddress s.id uid)
  | _ => files

end SocketFiles

/-- The seats, and the socket files. The manager has bound the root socket before there is any
seat. -/
structure Sockets where
  /-- the seats -/
  seats : Store Seat := .empty
  /-- the files -/
  files : SocketFiles := Binding.empty.bind .root rootSocketAddress

namespace Sockets

/-- A move of the seats. -/
def apply (k : Sockets) (mv : SeatMove) : Sockets :=
  match mv with
  | .enter _ => { k with seats := mv.apply k.seats }
  | .step r st =>
    let s := k.seats.get r
    let acts := Daemon.gained s (s.step st)
    ⟨mv.apply k.seats, acts.foldl (SocketFiles.onAct r st.sys (s.step st)) k.files⟩

/-- What a sequence of moves comes to. -/
def run (mvs : List SeatMove) : Sockets := mvs.foldl apply {}

/-- The seat has a reference, or an observer. -/
def Live (s : Seat) : Prop := s.refs ≠ 0 ∨ s.dbusObserver ≠ none

/-- A move that keeps the addresses apart: a seat is entered under an id that no other has, the
uids are printed without a sign, and a seat that was stopped is not asked for a session. -/
def Apart (k : Sockets) : SeatMove → Prop
  | .enter id => ∀ r, Live (k.seats.get r) → (k.seats.get r).id ≠ id
  | .step r st => (∀ u n, st.sys.getUid u = some n → n < 2 ^ 31) ∧
    (st.event.asks = true → (k.seats.get r).stopFired = false)

/-! ## Addresses -/

/-- What the observers of a seat are made with. -/
def Own (id : String) (args : ObserverArgs) : Prop :=
  ∃ uid < 2 ^ 31, args = Seat.sessionObserver id uid

theorem toNat_ofNat {uid : ℕ} (h : uid < 2 ^ 31) : (UInt32.ofNat uid).toNat = uid :=
  UInt32.toNat_ofNat_of_lt' (by rw [UInt32.size]; omega)

/-- The address says which seat it is, and which user. -/
theorem Own.eq {id id' : String} {args args' : ObserverArgs} (h : Own id args)
    (h' : Own id' args') (heq : args.address = args'.address) : id = id' ∧ args = args' := by
  obtain ⟨uid, hlt, rfl⟩ := h
  obtain ⟨uid', hlt', rfl⟩ := h'
  have haddress : observerAddress id (UInt32.ofNat uid).toNat =
      observerAddress id' (UInt32.ofNat uid').toNat := by
    rw [toNat_ofNat hlt, toNat_ofNat hlt']
    exact heq
  rcases address_eq haddress with ⟨rfl, huid⟩ | ⟨-, hsum, -⟩ | ⟨-, hsum, -⟩
  · obtain rfl : uid = uid' := by
      rw [← toNat_ofNat hlt, huid, toNat_ofNat hlt']
    exact ⟨rfl, rfl⟩
  · rw [toNat_ofNat hlt, toNat_ofNat hlt'] at hsum
    omega
  · rw [toNat_ofNat hlt, toNat_ofNat hlt'] at hsum
    omega

theorem Own.ne_root {id : String} {args : ObserverArgs} (h : Own id args) :
    args.address ≠ rootSocketAddress := by
  obtain ⟨uid, hlt, rfl⟩ := h
  have hne := address_ne_root id (UInt32.ofNat uid)
  rw [toNat_ofNat hlt] at hne
  exact hne

/-! ## One act -/

section Acts

variable {P : ObserverArgs → Prop} {r : SeatRef} {sys : Sys} {s : Seat} {files : SocketFiles}
  {v v' : Option (ObserverRef × ObserverArgs) × Option ObserverRef} {a : Act}

/-- Seat `r` has the address of its observer, and nobody else has one of those it may have. -/
structure Holds (P : ObserverArgs → Prop) (r : SeatRef)
    (v : Option (ObserverRef × ObserverArgs) × Option ObserverRef) (files : SocketFiles) :
    Prop where
  exact : files.Exact
  mine : ∀ o n, files.name (.ofSeat r o) = some n ↔ ∃ args, v.1 = some (o, args) ∧ args.address = n
  others : ∀ oid n, (∀ o, oid ≠ .ofSeat r o) → files.name oid = some n →
    ∀ args, P args → args.address ≠ n

theorem Holds.free (h : Holds P r v files) (hv : v.1 = none) {args : ObserverArgs}
    (hargs : P args) : files.Free args.address := by
  intro oid hname
  by_cases hoid : ∃ o, oid = .ofSeat r o
  · obtain ⟨o, rfl⟩ := hoid
    obtain ⟨args', hv', -⟩ := (h.mine o _).mp hname
    rw [hv] at hv'
    cases hv'
  · exact h.others oid _ (fun o ho => hoid ⟨o, ho⟩) hname args hargs rfl

theorem onAct_other (h : a.isObserver = false) : files.onAct r sys s a = files := by
  cases a with
  | observerNew o args => cases h
  | observerDispose o => cases h
  | createSession args verdict =>
    cases verdict with
    | noObserver => cases h
    | _ => rfl
  | _ => rfl

/-- Only the names of seat `r` have changed. -/
theorem Holds.others_of (h : Holds P r v files) {files' : SocketFiles}
    (hname : ∀ oid, (∀ o, oid ≠ .ofSeat r o) → files'.name oid = files.name oid) :
    ∀ oid n, (∀ o, oid ≠ .ofSeat r o) → files'.name oid = some n →
      ∀ args, P args → args.address ≠ n := by
  intro oid n hoid hn
  rw [hname oid hoid] at hn
  exact h.others oid n hoid hn

theorem Holds.up (h : Holds P r v files) (hv : v.1 = none) {o : ObserverRef}
    {args : ObserverArgs} (hargs : P args) :
    let files' := (files.unlink args.address).bind (.ofSeat r o) args.address
    Holds P r (some (o, args), none) files' ∧
      ∀ oid, (∀ o, oid ≠ .ofSeat r o) → files'.name oid = files.name oid := by
  intro files'
  have hfree := h.free hv hargs
  have hnone : ∀ o, files.name (.ofSeat r o) = none := by
    intro o
    rw [Option.eq_none_iff_forall_ne_some]
    intro n hn
    obtain ⟨args', hv', -⟩ := (h.mine o n).mp hn
    rw [hv] at hv'
    cases hv'
  have hname : ∀ oid, (∀ o, oid ≠ .ofSeat r o) → files'.name oid = files.name oid :=
    fun oid hoid => Binding.name_bind_of_ne _ (hoid o)
  refine ⟨⟨(h.exact.unlink hfree).bind (hnone o) hfree, fun o' n => ?_, h.others_of hname⟩, hname⟩
  by_cases ho : o' = o
  · subst ho
    have hself : files'.name (.ofSeat r o') = some args.address := Binding.name_bind_self ..
    rw [hself]
    constructor
    · intro hn
      exact ⟨args, rfl, Option.some.inj hn⟩
    · rintro ⟨args', hargs', rfl⟩
      exact congrArg (fun p => some p.2.address) (Option.some.inj hargs')
  · have hne : files'.name (.ofSeat r o') = files.name (.ofSeat r o') :=
      Binding.name_bind_of_ne _ fun h => ho (ObserverId.ofSeat.inj h).2
    rw [hne, hnone]
    refine iff_of_false (by simp) ?_
    rintro ⟨args', hargs', -⟩
    exact ho (Prod.ext_iff.mp (Option.some.inj hargs')).1.symm

theorem Holds.down (h : Holds P r v files) {o : ObserverRef} {args : ObserverArgs}
    (hv : v.1 = some (o, args)) :
    Holds P r (none, none) (files.release (.ofSeat r o)) ∧
      ∀ oid, (∀ o, oid ≠ .ofSeat r o) →
        (files.release (.ofSeat r o)).name oid = files.name oid := by
  have hname : ∀ oid, (∀ o, oid ≠ .ofSeat r o) →
      (files.release (.ofSeat r o)).name oid = files.name oid :=
    fun oid hoid => Binding.name_release_of_ne (hoid o)
  refine ⟨⟨h.exact.release _, fun o' n => ?_, h.others_of hname⟩, hname⟩
  refine iff_of_false (fun hn => ?_) (by simp)
  by_cases ho : o' = o
  · rw [ho, Binding.name_release_self] at hn
    cases hn
  · rw [Binding.name_release_of_ne fun h => ho (ObserverId.ofSeat.inj h).2] at hn
    obtain ⟨args', hv', -⟩ := (h.mine o' n).mp hn
    rw [hv] at hv'
    exact ho (Prod.ext_iff.mp (Option.some.inj hv')).1.symm

/-- **One act of a seat** changes the files for its own observer only. -/
theorem Holds.onAct (h : Holds P r v files) (hnext : Serves P v a v')
    (hfail : ∀ u n, sys.getUid u = some n → P (Seat.sessionObserver s.id n)) :
    Holds P r v' (files.onAct r sys s a) ∧
      ∀ oid, (∀ o, oid ≠ .ofSeat r o) → (files.onAct r sys s a).name oid = files.name oid := by
  cases hnext with
  | up hargs => exact h.up rfl hargs
  | down => exact h.down rfl
  | @failed args =>
    rcases hu : (s.sessionUser args.username).bind sys.getUid with _ | uid
    · have heq : files.onAct r sys s (.createSession args .noObserver) = files := by
        simp only [SocketFiles.onAct, hu]
      rw [heq]
      exact ⟨h, fun _ _ => rfl⟩
    · have heq : files.onAct r sys s (.createSession args .noObserver) =
          files.dbusObserverFailed (observerAddress s.id uid) := by
        simp only [SocketFiles.onAct, hu]
      obtain ⟨u, -, hget⟩ := Option.bind_eq_some_iff.mp hu
      have hfree : files.Free (observerAddress s.id uid) := h.free rfl (hfail u uid hget)
      rw [heq]
      exact ⟨⟨(h.exact.unlink hfree).unlink hfree, h.mine, h.others⟩, fun _ _ => rfl⟩
  | other ha =>
    rw [onAct_other ha]
    exact ⟨h, fun _ _ => rfl⟩

/-- All that a dispatch of a seat does. -/
theorem Holds.onActs {acts : List Act} (h : Holds P r v files) (hpath : Path (Serves P) v acts v')
    (hfail : ∀ u n, sys.getUid u = some n → P (Seat.sessionObserver s.id n)) :
    Holds P r v' (acts.foldl (SocketFiles.onAct r sys s) files) ∧
      ∀ oid, (∀ o, oid ≠ .ofSeat r o) →
        (acts.foldl (SocketFiles.onAct r sys s) files).name oid = files.name oid := by
  induction hpath generalizing files with
  | nil => exact ⟨h, fun _ _ => rfl⟩
  | cons hnext _ ih =>
    obtain ⟨hfirst, hname⟩ := h.onAct hnext hfail
    obtain ⟨hrest, hname'⟩ := ih hfirst
    exact ⟨hrest, fun oid hoid => (hname' oid hoid).trans (hname oid hoid)⟩

end Acts

/-! ## Every move -/

/-- The files are those of the root socket and of the observers that are there, and no two
seats come to one address. -/
structure Kept (k : Sockets) : Prop where
  /-- there are no other seats -/
  fresh : ∀ r, k.seats.next ≤ r → k.seats.get r = default
  wf : ∀ r, (k.seats.get r).Wf fun _ n => n < 2 ^ 31
  noPrev : ∀ r, (k.seats.get r).prevDbusObserver = none
  own : ∀ r o args, (k.seats.get r).serving = some (o, args) → Own (k.seats.get r).id args
  /-- one seat for an id -/
  apart : ∀ r r', Live (k.seats.get r) → Live (k.seats.get r') →
    (k.seats.get r).id = (k.seats.get r').id → r = r'
  exact : k.files.Exact
  root : k.files.name .root = some rootSocketAddress
  mine : ∀ r o n, k.files.name (.ofSeat r o) = some n ↔
    ∃ args, (k.seats.get r).serving = some (o, args) ∧ args.address = n

theorem live_of_serving {s : Seat} {p : ObserverRef × ObserverArgs} (h : s.serving = some p) :
    Live s := by
  refine .inr fun ho => ?_
  rw [Seat.serving_none ho] at h
  cases h

theorem kept_init : Kept {} := by
  have hwf : (default : Seat).Wf fun _ n => n < 2 ^ 31 :=
    .of_noSession rfl (fun _ => rfl) fun _ => ⟨rfl, rfl⟩
  have hdead : ¬ Live (default : Seat) := by
    rintro (h | h)
    · exact h rfl
    · exact h rfl
  refine ⟨fun _ _ => rfl, fun _ => hwf, fun _ => rfl, fun r o args h => ?_,
    fun r r' h => absurd h hdead, ?_, Binding.name_bind_self .., fun r o n => ?_⟩
  · cases h
  · exact Binding.exact_empty.bind rfl fun i h => by cases h
  · have hne : ObserverId.ofSeat r o ≠ .root := fun h => by cases h
    refine iff_of_false (fun h => ?_) fun h => ?_
    · change (Binding.empty.bind ObserverId.root rootSocketAddress).name _ = _ at h
      rw [Binding.name_bind_of_ne _ hne] at h
      cases h
    · obtain ⟨args, h, -⟩ := h
      cases h

/-- Seat `r` holds its address against all others. -/
theorem Kept.holds {k : Sockets} (h : k.Kept) {r : SeatRef} (hr : Live (k.seats.get r)) :
    Holds (Own (k.seats.get r).id) r
      ((k.seats.get r).serving, (k.seats.get r).prevDbusObserver) k.files := by
  refine ⟨h.exact, h.mine r, fun oid n hoid hn args hargs heq => ?_⟩
  cases oid with
  | root =>
    rw [h.root] at hn
    exact hargs.ne_root (heq.trans (Option.some.inj hn).symm)
  | ofSeat r' o =>
    obtain ⟨args', hserving, rfl⟩ := (h.mine r' o n).mp hn
    have hid := (hargs.eq (h.own r' o args' hserving) heq).1
    exact hoid o (by rw [h.apart r r' hr (live_of_serving hserving) hid])

theorem Kept.enter {k : Sockets} (h : k.Kept) {id : String} (hid : k.Apart (.enter id)) :
    (k.apply (.enter id)).Kept := by
  have hget : ∀ r, (k.apply (.enter id)).seats.get r =
      if r = k.seats.next then Seat.new id else k.seats.get r := Store.get_alloc _ _
  have hview : ∀ r, ((k.apply (.enter id)).seats.get r).serving = (k.seats.get r).serving ∧
      ((k.apply (.enter id)).seats.get r).prevDbusObserver = none := by
    intro r
    rw [hget]
    split
    · rename_i hr
      rw [h.fresh r (Nat.le_of_eq hr.symm)]
      exact ⟨rfl, rfl⟩
    · exact ⟨rfl, h.noPrev r⟩
  refine ⟨fun r hr => ?_, fun r => ?_, fun r => (hview r).2, fun r o args hs => ?_,
    fun r r' hlive hlive' heq => ?_, h.exact, h.root, fun r o n => ?_⟩
  · have hr' : k.seats.next + 1 ≤ r := hr
    rw [hget, if_neg (Nat.ne_of_gt hr')]
    exact h.fresh r (Nat.le_of_succ_le hr')
  · rw [hget]
    split
    · exact Seat.wf_new id
    · exact h.wf r
  · rw [(hview r).1] at hs
    rw [hget]
    split
    · rename_i hr
      rw [h.fresh r (Nat.le_of_eq hr.symm)] at hs
      cases hs
    · exact h.own r o args hs
  · rw [hget] at hlive heq
    rw [hget] at hlive' heq
    by_cases hr : r = k.seats.next
    · by_cases hr' : r' = k.seats.next
      · rw [hr, hr']
      · rw [if_pos hr, if_neg hr'] at heq
        rw [if_neg hr'] at hlive'
        exact absurd heq.symm (hid r' hlive')
    · rw [if_neg hr] at hlive heq
      by_cases hr' : r' = k.seats.next
      · rw [if_pos hr'] at heq
        exact absurd heq (hid r hlive)
      · rw [if_neg hr'] at hlive' heq
        exact h.apart r r' hlive hlive' heq
  · rw [(hview r).1]
    exact h.mine r o n

/-- A dispatch that does not reach the seat does nothing. -/
theorem apply_step_dead {k : Sockets} {r : SeatRef} (st : SeatStep)
    (h : (k.seats.get r).refs = 0) : k.apply (.step r st) = k := by
  have hstep : (k.seats.get r).step st = k.seats.get r := if_pos h
  have hgained : Daemon.gained (k.seats.get r) (k.seats.get r) = [] :=
    Daemon.gained_eq (List.append_nil _).symm
  simp only [apply, SeatMove.apply, hstep, hgained, List.foldl_nil, Store.set_get_self]

theorem Kept.step {k : Sockets} (h : k.Kept) {r : SeatRef} {st : SeatStep}
    (hst : k.Apart (.step r st)) : (k.apply (.step r st)).Kept := by
  obtain ⟨huid, hasks⟩ := hst
  by_cases hrefs : (k.seats.get r).refs = 0
  · rw [apply_step_dead st hrefs]
    exact h
  · have hlive : Live (k.seats.get r) := .inl hrefs
    have hid : ((k.seats.get r).step st).id = (k.seats.get r).id := (Seat.step_frame _ st).1
    have hown : ∀ u n, st.sys.getUid u = some n →
        Own (k.seats.get r).id (Seat.sessionObserver (k.seats.get r).id n) :=
      fun u n hu => ⟨n, huid u n hu, rfl⟩
    have hserves := Seat.step_serves (h.wf r) (h.noPrev r) hasks hown
    have hprev := Seat.noPrev_of_serves hserves (h.noPrev r)
    have hown' := Seat.own_of_serves hserves (h.own r)
    obtain ⟨acts, ht, hpath⟩ := hserves
    have hheld : Holds (Own (k.seats.get r).id) r
          (((k.seats.get r).step st).serving, ((k.seats.get r).step st).prevDbusObserver)
          (k.apply (.step r st)).files ∧
        ∀ oid, (∀ o, oid ≠ .ofSeat r o) →
          (k.apply (.step r st)).files.name oid = k.files.name oid := by
      simp only [apply]
      rw [Daemon.gained_eq ht]
      exact (h.holds hlive).onActs hpath (by rw [hid]; exact hown)
    obtain ⟨hholds, hname⟩ := hheld
    have hself : (k.apply (.step r st)).seats.get r = (k.seats.get r).step st :=
      Store.get_set_self ..
    have hother : ∀ {r'}, r' ≠ r → (k.apply (.step r st)).seats.get r' = k.seats.get r' :=
      fun hr => Store.get_set_ne _ _ hr
    have hids : ∀ r', ((k.apply (.step r st)).seats.get r').id = (k.seats.get r').id := by
      intro r'
      by_cases hr : r' = r
      · rw [hr, hself, hid]
      · rw [hother hr]
    have hlives : ∀ r', Live ((k.apply (.step r st)).seats.get r') → Live (k.seats.get r') := by
      intro r' hl
      by_cases hr : r' = r
      · rw [hr]
        exact hlive
      · rwa [hother hr] at hl
    refine ⟨fun r' hr' => ?_, fun r' => ?_, fun r' => ?_, fun r' o args hs => ?_,
      fun r' r'' hl hl' heq => ?_, hholds.exact, ?_, fun r' o n => ?_⟩
    · have hr : r' ≠ r := by
        rintro rfl
        have hnone := h.fresh r' hr'
        rw [hnone] at hrefs
        exact hrefs rfl
      rw [hother hr]
      exact h.fresh r' hr'
    · by_cases hr : r' = r
      · rw [hr, hself]
        exact Seat.step_wf (h.wf r) huid
      · rw [hother hr]
        exact h.wf r'
    · by_cases hr : r' = r
      · rw [hr, hself]
        exact hprev
      · rw [hother hr]
        exact h.noPrev r'
    · rw [hids]
      by_cases hr : r' = r
      · rw [hr, hself] at hs
        rw [hr]
        exact hown' o args hs
      · rw [hother hr] at hs
        exact h.own r' o args hs
    · rw [hids, hids] at heq
      exact h.apart r' r'' (hlives r' hl) (hlives r'' hl') heq
    · rw [hname .root fun o h => by cases h]
      exact h.root
    · by_cases hr : r' = r
      · rw [hr, hself]
        exact hholds.mine o n
      · rw [hother hr, hname _ fun o' h => hr (ObserverId.ofSeat.inj h).1]
        exact h.mine r' o n

theorem apply_kept {k : Sockets} (h : k.Kept) {mv : SeatMove} (hmv : k.Apart mv) :
    (k.apply mv).Kept := by
  cases mv with
  | enter id => exact h.enter hmv
  | step r st => exact h.step hmv

theorem run_kept {mvs : List SeatMove} (h : Along apply Apart {} mvs) : (run mvs).Kept := by
  have halways : Always apply Kept {} mvs :=
    Along.always (fun _ _ hk hmv => apply_kept hk hmv) kept_init h
  exact halways.last

theorem Kept.holder_root {k : Sockets} (h : k.Kept) {address : String} :
    k.files.holder address = some .root ↔ address = rootSocketAddress := by
  rw [h.exact, h.root]
  exact ⟨fun heq => (Option.some.inj heq).symm, fun heq => congrArg some heq.symm⟩

theorem Kept.holder_ofSeat {k : Sockets} (h : k.Kept) {r : SeatRef} {o : ObserverRef}
    {address : String} : k.files.holder address = some (.ofSeat r o) ↔
      (k.seats.get r).dbusObserver = some o ∧
        ((k.seats.get r).observers.get o).address = address := by
  rw [h.exact, h.mine]
  constructor
  · rintro ⟨args, hs, rfl⟩
    obtain ⟨o', ho, heq⟩ := Option.map_eq_some_iff.mp hs
    obtain ⟨rfl, rfl⟩ := Prod.ext_iff.mp heq
    exact ⟨ho, rfl⟩
  · rintro ⟨ho, rfl⟩
    exact ⟨_, Seat.serving_some ho, rfl⟩

/-- The seats move as if there were no files. -/
theorem run_seats (mvs : List SeatMove) : (run mvs).seats = mvs.foldl SeatMove.apply .empty := by
  induction mvs using List.reverseRecOn with
  | nil => rfl
  | append_singleton mvs mv ih =>
    rw [List.foldl_append, ← ih, run, List.foldl_append]
    cases mv <;> rfl

/-- The observer of a session was made for its user: with the uid that a dispatch of the seat
looked up for him. -/
theorem run_owner {mvs : List SeatMove} {r : SeatRef} {x : SessionRef}
    (hx : ((run mvs).seats.get r).session = some x) :
    ∃ o u, ((run mvs).seats.get r).dbusObserver = some o ∧
      (((run mvs).seats.get r).sessions.get x).username = some u ∧
      ∃ st, .step r st ∈ mvs ∧
        st.sys.getUid u = some (((run mvs).seats.get r).observers.get o).uid := by
  obtain ⟨hnew, hrun⟩ := SeatMove.seat_run mvs r
  rw [← run_seats] at hnew hrun
  have hr : r < (run mvs).seats.next := by
    by_contra hr
    rw [hnew (Nat.le_of_not_lt hr)] at hx
    cases hx
  obtain ⟨id, sts, -, hsts, heq⟩ := hrun hr
  rw [heq] at hx ⊢
  obtain ⟨o, u, ho, hu, ⟨st, hst, huid⟩, -⟩ := (Seat.run_wf id sts).owner x hx
  exact ⟨o, u, ho, hu, st, hsts st hst, huid⟩

/-- **The socket files are those of the observers that are there.** Whatever the seats do, in
any order, the file at an address is the socket of the root observer, if that is its address,
or of the observer that some seat has and that serves this address, and there are no other
files; and every session has its socket, at the address of its seat and of the uid that was
looked up for its user. -/
theorem run_sockets (mvs : List SeatMove) (h : Along apply Apart {} mvs) :
    let k := run mvs
    (∀ address oid, k.files.holder address = some oid ↔
      (oid = .root ∧ address = rootSocketAddress) ∨
      ∃ r o, oid = .ofSeat r o ∧ (k.seats.get r).dbusObserver = some o ∧
        ((k.seats.get r).observers.get o).address = address) ∧
    ∀ r x, (k.seats.get r).session = some x → ∃ o u uid, (k.seats.get r).dbusObserver = some o ∧
      ((k.seats.get r).sessions.get x).username = some u ∧
      (∃ st, .step r st ∈ mvs ∧ st.sys.getUid u = some uid) ∧
      ((k.seats.get r).observers.get o).uid = uid ∧
      k.files.holder (observerAddress (k.seats.get r).id uid) = some (.ofSeat r o) := by
  intro k
  have hk : k.Kept := run_kept h
  refine ⟨fun address oid => ?_, fun r x hx => ?_⟩
  · cases oid with
    | root =>
      rw [hk.holder_root]
      constructor
      · exact fun heq => .inl ⟨rfl, heq⟩
      · rintro (⟨-, rfl⟩ | ⟨r, o, h, -⟩)
        · rfl
        · cases h
    | ofSeat r o =>
      rw [hk.holder_ofSeat]
      constructor
      · exact fun ⟨ho, heq⟩ => .inr ⟨r, o, rfl, ho, heq⟩
      · rintro (⟨h, -⟩ | ⟨r', o', h, ho, heq⟩)
        · cases h
        · obtain ⟨rfl, rfl⟩ := ObserverId.ofSeat.inj h
          exact ⟨ho, heq⟩
  · obtain ⟨o, u, ho, hu, hlooked⟩ := run_owner hx
    obtain ⟨uid, -, hargs⟩ := hk.own r o _ (Seat.serving_some ho)
    refine ⟨o, u, _, ho, hu, hlooked, rfl, hk.holder_ofSeat.mpr ⟨ho, ?_⟩⟩
    rw [hargs]
    rfl

/-- The guest logs in on two seats. -/
def socketMoves : List SeatMove :=
  [.enter "seat0", .step 0 (Seat.loginStep .empty (some "guest") 0), .enter "seat1",
    .step 1 (Seat.loginStep .empty (some "guest") 0)]

theorem apart_socketMoves : Along apply Apart {} socketMoves := by
  have hlogin : ∀ (k : Sockets) r, (k.seats.get r).stopFired = false →
      k.Apart (.step r (Seat.loginStep .empty (some "guest") 0)) := by
    refine fun k r hf => ⟨fun u n hu => ?_, fun _ => hf⟩
    rw [← Option.some.inj hu]
    decide
  refine ⟨fun r hlive => ?_, hlogin _ 0 (by decide), fun r hlive => ?_, hlogin _ 1 (by decide),
    trivial⟩
  · rcases hlive with h | h
    · exact absurd rfl h
    · exact absurd rfl h
  · rcases r with _ | r
    · decide
    · rcases hlive with h | h
      · exact absurd rfl h
      · exact absurd rfl h

/-- Each of them has a socket, under one uid, and that is the guest's. -/
theorem run_sockets_guests :
    (run socketMoves).files.holder (observerAddress "seat0" 1000) = some (.ofSeat 0 0) ∧
    (∀ address oid, (run socketMoves).files.holder address = some oid ↔
      (oid = .root ∧ address = rootSocketAddress) ∨
      ∃ r o, oid = .ofSeat r o ∧ ((run socketMoves).seats.get r).dbusObserver = some o ∧
        (((run socketMoves).seats.get r).observers.get o).address = address) ∧
    ∃ o u uid, ((run socketMoves).seats.get 1).dbusObserver = some o ∧
      (((run socketMoves).seats.get 1).sessions.get 0).username = some u ∧
      (∃ st, .step 1 st ∈ socketMoves ∧ st.sys.getUid u = some uid) ∧
      (((run socketMoves).seats.get 1).observers.get o).uid = uid ∧
      (run socketMoves).files.holder (observerAddress ((run socketMoves).seats.get 1).id uid) =
        some (.ofSeat 1 o) :=
  have h := run_sockets socketMoves apart_socketMoves
  ⟨by decide, h.1, h.2 1 0 (by decide)⟩

/-- **Whom a client reaches.** Root reaches the root observer. Any other user of a seat comes
to a socket file exactly if a seat with that id has an observer, and this was made for him: it
takes his logout and his switch, and no login. -/
theorem run_clients (mvs : List SeatMove) (h : Along apply Apart {} mvs) (seatId : String)
    (userId : ℕ) (huser : userId < 2 ^ 31)
    (hfit : (socketPath seatId userId).utf8ByteSize ≤ 107) :
    ∃ address, clientAddress seatId userId = addressBytes address ∧
      ∀ oid, (run mvs).files.holder address = some oid ↔
        if userId = 0 then oid = .root
        else ∃ r o, oid = .ofSeat r o ∧ ((run mvs).seats.get r).id = seatId ∧
          ((run mvs).seats.get r).dbusObserver = some o ∧
          ((run mvs).seats.get r).observers.get o = Seat.sessionObserver seatId userId := by
  have hk : (run mvs).Kept := run_kept h
  generalize run mvs = k at hk
  by_cases hroot : userId = 0
  · refine ⟨rootSocketAddress, ?_, fun oid => ?_⟩
    · rw [clientAddress, if_pos hroot]
      decide
    · rw [if_pos hroot]
      cases oid with
      | root => exact iff_of_true (hk.holder_root.mpr rfl) rfl
      | ofSeat r o =>
        refine iff_of_false (fun hholder => ?_) fun heq => by cases heq
        obtain ⟨ho, heq⟩ := hk.holder_ofSeat.mp hholder
        exact (hk.own r o _ (Seat.serving_some ho)).ne_root heq
  · have hown : Own seatId (Seat.sessionObserver seatId userId) := ⟨userId, huser, rfl⟩
    refine ⟨observerAddress seatId userId, ?_, fun oid => ?_⟩
    · rw [clientAddress, if_neg hroot, snprintfAddress_eq hfit]
    · rw [if_neg hroot]
      cases oid with
      | root =>
        have hforeign : ¬ k.files.holder (observerAddress seatId userId) = some .root :=
          fun hholder => hown.ne_root (hk.holder_root.mp hholder)
        refine iff_of_false hforeign ?_
        rintro ⟨r, o, heq, -⟩
        cases heq
      | ofSeat r o =>
        rw [hk.holder_ofSeat]
        constructor
        · rintro ⟨ho, heq⟩
          obtain ⟨hid, hargs⟩ := (hk.own r o _ (Seat.serving_some ho)).eq hown heq
          exact ⟨r, o, rfl, hid, ho, hargs⟩
        · rintro ⟨r', o', heq, -, ho, hargs⟩
          obtain ⟨rfl, rfl⟩ := ObserverId.ofSeat.inj heq
          exact ⟨ho, congrArg ObserverArgs.address hargs⟩

/-- The guest comes to his observer on the second seat. -/
theorem run_clients_guest :
    ∃ address, clientAddress "seat1" 1000 = addressBytes address ∧
      ∀ oid, (run socketMoves).files.holder address = some oid ↔
        if 1000 = 0 then oid = .root
        else ∃ r o, oid = .ofSeat r o ∧ ((run socketMoves).seats.get r).id = "seat1" ∧
          ((run socketMoves).seats.get r).dbusObserver = some o ∧
          ((run socketMoves).seats.get r).observers.get o = Seat.sessionObserver "seat1" 1000 :=
  run_clients socketMoves apart_socketMoves "seat1" 1000 (by decide) (by decide)

end Sockets

end Tlm
