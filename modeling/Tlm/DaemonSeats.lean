import Tlm.DaemonRequest

/-!
# One seat object for each seat

`_create_seat` puts a new `TlmSeat` under its id into the manager's table; a seat
that was there is dropped, with the session it runs. The function is reached in
two ways: directly from `_add_seat`, and from the callback that the files a seat
waits for have appeared. `_add_seat` was once meant to leave the creation to the
callback when there is something to wait for, but the `return` that did so is
commented out.

`run_unique` says what that costs: no seat is created twice in a run **iff** no
callback comes for a seat that is registered — neither later, from the inotify
source, nor at once, because the files are there already — and
`tlm_manager_start` is not given an id twice.
-/

namespace Tlm

namespace Daemon

variable {d d' : Daemon} {sys : Sys} {id : String}

/-! ## The table and the log -/

/-- No seat was ever created under an id that was registered. -/
def Unique (d : Daemon) : Prop := ∀ id, Record.createSeat id true ∉ d.log

/-- Moves that record no creation leave it as it is. -/
theorem Moves.unique_iff {E : SeatEvent → Prop} {O : Observer → Observer → Prop}
    {L : Record → Prop} (hL : ∀ id, ¬ L (.createSeat id true)) (h : Moves E O L d d') :
    d'.Unique ↔ d.Unique := by
  obtain ⟨lg, hlog, hlg⟩ := h.log
  have hmem : ∀ id, Record.createSeat id true ∈ d'.log ↔ Record.createSeat id true ∈ d.log := by
    intro id
    rw [hlog, List.mem_append]
    refine ⟨fun hm => hm.resolve_right fun hm => ?_, Or.inl⟩
    rcases hlg _ hm with hbad | ⟨r, creds, he | he⟩
    · exact hL id hbad
    · cases he
    · cases he
  simp only [Unique]
  simp only [hmem]

theorem unique_borrowedFreed (d : Daemon) (id : String) :
    (d.record (.borrowedFreed id)).Unique ↔ d.Unique := by
  simp [Unique, record]

/-- A seat that was put into the table is there. -/
theorem insertSeat_getSeat (d : Daemon) (sys : Sys) (id : String) (r : SeatRef) :
    ((d.insertSeat sys id r).getSeat id).isSome = true := by
  simp only [insertSeat]
  split
  · simp [getSeat]
  · rename_i old hold
    rw [onSeat_eq]
    have hmem : ∃ p ∈ d.seatTable, (id == p.1) = true := by
      rw [← List.lookup_isSome_iff]
      rw [getSeat] at hold
      rw [hold]
      rfl
    obtain ⟨p, hp, hid⟩ := hmem
    refine List.lookup_isSome_iff.mpr ⟨(id, r), ?_, by simp⟩
    refine List.mem_map.mpr ⟨p, hp, if_pos ?_⟩
    exact (beq_iff_eq.mp hid).symm

theorem createSeat_getSeat (d : Daemon) (sys : Sys) (id : String) :
    ((d.createSeat sys id).getSeat id).isSome = true := by
  have hinsert := insertSeat_getSeat
    { d.record (.createSeat id (d.getSeat id).isSome) with
      seats := d.seats.alloc (Seat.new id) } sys id d.seats.next
  simp only [createSeat]
  split
  · rw [onSeat_eq]
    exact hinsert
  · exact hinsert

/-- Creating a seat is fine just when its id is not registered. -/
theorem createSeat_unique (d : Daemon) (sys : Sys) (id : String) :
    (d.createSeat sys id).Unique ↔ d.Unique ∧ d.getSeat id = none := by
  have hrest : Moves (fun _ => True) (fun _ _ => True) (fun _ => False)
      (d.record (.createSeat id (d.getSeat id).isSome)) (d.createSeat sys id) :=
    createSeat_rest (fun _ _ => trivial) d sys id fun _ _ => trivial
  rw [hrest.unique_iff fun _ h => h]
  simp only [Unique, record]
  simp only [List.mem_append, List.mem_singleton, Record.createSeat.injEq, not_or]
  constructor
  · intro h
    refine ⟨fun id' => (h id').1, ?_⟩
    rcases hs : d.getSeat id with _ | r
    · rfl
    · exact absurd ⟨rfl, by rw [hs]; rfl⟩ (h id).2
  · rintro ⟨h, hnone⟩ id'
    refine ⟨h id', ?_⟩
    rw [hnone]
    simp

/-! ## Adding a seat -/

/-- Callbacks none of which is final do nothing. -/
theorem foldl_seatWatchCb_of_none {notices : List Notice}
    (h : notices.any (·.isFinal) = false) (d : Daemon) :
    notices.foldl (fun d n => d.seatWatchCb sys id n.isFinal) d = d := by
  induction notices with
  | nil => rfl
  | cons n notices ih =>
    rw [List.any_cons, Bool.or_eq_false_iff] at h
    rw [List.foldl_cons, h.1]
    exact ih h.2

/-- A final one creates the seat. -/
theorem foldl_seatWatchCb_of_some {notices : List Notice} {d : Daemon}
    (h : notices.any (·.isFinal) = true ∨ (d.getSeat id).isSome = true) :
    ((notices.foldl (fun d n => d.seatWatchCb sys id n.isFinal) d).getSeat id).isSome = true := by
  induction notices generalizing d with
  | nil => exact h.resolve_left (by simp)
  | cons n notices ih =>
    rw [List.foldl_cons]
    apply ih
    simp only [seatWatchCb]
    cases hn : n.isFinal with
    | true => exact Or.inr (createSeat_getSeat d sys id)
    | false =>
      rw [List.any_cons, hn, Bool.false_or] at h
      exact h

/-- The files a seat waits for are all there. -/
def Awaited (d : Daemon) (fs : Fs) (id : String) : Prop :=
  d.config.seatNwatch id ≠ 0 ∧ fs.inotifyInit = true ∧
    endsReady fs (watchItems d.config id) {} = true

/-- Adding a seat is fine just when it is not active, or when its id is not
registered and nothing it waits for is there already. -/
theorem addSeat_unique (h : d.Unique) (sys : Sys) (fs : Fs) (id : String) :
    (d.addSeat sys fs id).Unique ↔
      (d.config.seatActive id = true → d.getSeat id = none ∧ ¬ d.Awaited fs id) := by
  simp only [addSeat]
  cases ha : d.config.seatActive id with
  | false => exact ⟨fun _ h => (by cases h), fun _ => h⟩
  | true =>
    simp only [Bool.not_true, Bool.false_eq_true, if_false, forall_const]
    rw [createSeat_unique]
    have hany := watchForFiles_final fs (watchItems d.config id)
    by_cases hn : d.config.seatNwatch id ≠ 0
    · rw [if_pos hn]
      cases hf : fs.inotifyInit && endsReady fs (watchItems d.config id) {} with
      | true =>
        -- the callback has created the seat, so `_add_seat` creates it again
        rw [hf] at hany
        have hsome : (((watchForFiles fs (watchItems d.config id)).1.foldl
            (fun d n => d.seatWatchCb sys id n.isFinal) d).getSeat id).isSome = true :=
          foldl_seatWatchCb_of_some (Or.inl hany)
        rw [Bool.and_eq_true] at hf
        refine ⟨fun hu => ?_, fun hu => absurd ⟨hn, hf⟩ hu.2⟩
        exfalso
        have hnone := hu.2
        split at hnone
        · rw [getSeat] at hnone hsome
          rw [hnone] at hsome
          cases hsome
        · rw [hnone] at hsome
          cases hsome
      | false =>
        rw [hf] at hany
        rw [foldl_seatWatchCb_of_none hany]
        have hnot : ¬ d.Awaited fs id := by
          rintro ⟨-, h₁, h₂⟩
          rw [h₁, h₂] at hf
          cases hf
        split
        · exact ⟨fun hu => ⟨hu.2, hnot⟩, fun hu => ⟨h, hu.1⟩⟩
        · exact ⟨fun hu => ⟨hu.2, hnot⟩, fun hu => ⟨h, hu.1⟩⟩
    · rw [if_neg hn]
      exact ⟨fun hu => ⟨hu.2, fun haw => hn haw.1⟩, fun hu => ⟨h, hu.1⟩⟩

/-! ## Whole runs -/

/-- The dispatch creates a seat under an id that is registered: `tlm_manager_start`
adds it once more, or a final callback comes for it — later, or at once while it
is being added. -/
def Recreates (d : Daemon) (st : DaemonStep) : Prop :=
  match st.event with
  | .addSeat id fs =>
    d.config.seatActive id = true ∧ ((d.getSeat id).isSome = true ∨ d.Awaited fs id)
  | .seatAdded id fs =>
    d.getSeat id = none ∧ d.config.seatActive id = true ∧ d.Awaited fs id
  | .seatWatch id isFinal => id ∈ d.watches ∧ isFinal = true ∧ (d.getSeat id).isSome = true
  | _ => False

/-- An idle dispatch creates no seats. -/
theorem idle_unique (h : d.Tidy) (sys : Sys) (oid : ObserverId) :
    (d.step ⟨sys, .idle oid⟩).Unique ↔ d.Unique := by
  rcases idle_cases h sys oid with ⟨-, heq⟩ | ⟨-, heq⟩ | ⟨q, rest, -, hq, heq⟩
  · rw [heq]
  · rw [heq]
    exact Iff.rfl
  · obtain ⟨d', rep, ws, id, n, hmoves, -, hproc⟩ := processRequest_answered
      (E := fun _ => True) (O := fun _ _ => True) (L := fun _ => False) trivial h sys hq
    have hall : Moves (fun _ => True) (fun _ _ => True) (fun _ => False) d
        (d'.setObserver oid (answered (d.observers oid) rest q rep ws id n)) :=
      hmoves.trans (.observer d' oid trivial)
    rw [heq, hproc]
    exact hall.unique_iff fun _ hf => hf

/-- A dispatch keeps seats unique just when it does not create one again. -/
theorem step_unique (ht : d.Tidy) (h : d.Unique) (st : DaemonStep) :
    (d.step st).Unique ↔ ¬ d.Recreates st := by
  obtain ⟨sys, event⟩ := st
  -- what creates no seat keeps them unique, whatever it is
  have hother : ∀ st : DaemonStep, st.event.isManagers = true → st.event.createsSeat = false →
      (d.step st).Unique := by
    intro st hm hc
    have hnone : st.event.createsSeat = true → ∀ id registered,
        ∀ id', Record.createSeat id registered ≠ .createSeat id' true := by
      rw [hc]
      exact fun h => (by cases h)
    have hmoves := step_moves (d := d) (E := fun _ => True) (O := fun _ _ => True)
      (L := fun e => ∀ id, e ≠ .createSeat id true) (fun _ _ => trivial) (fun _ => trivial) nofun
      (fun _ => ⟨nofun, nofun⟩) hm hnone fun _ _ => trivial
    exact (hmoves.unique_iff fun id hid => hid id rfl).mpr h
  cases event with
  | addSeat id fs =>
    refine (addSeat_unique h sys fs id).trans ⟨?_, ?_⟩
    · rintro hu ⟨ha, hs | hw⟩
      · rw [(hu ha).1] at hs
        cases hs
      · exact (hu ha).2 hw
    · intro hu ha
      refine ⟨?_, fun hw => hu ⟨ha, Or.inr hw⟩⟩
      rcases hs : d.getSeat id with _ | r
      · rfl
      · exact absurd ⟨ha, Or.inl (by rw [hs]; rfl)⟩ hu
  | seatAdded id fs =>
    refine (unique_borrowedFreed _ id).trans ?_
    rcases hs : d.getSeat id with _ | r
    · rw [if_neg (by simp), addSeat_unique h]
      refine ⟨?_, fun hu ha => ⟨hs, fun hw => hu ⟨hs, ha, hw⟩⟩⟩
      rintro hu ⟨-, ha, hw⟩
      exact (hu ha).2 hw
    · rw [if_pos (by simp)]
      refine ⟨?_, fun _ => h⟩
      rintro - ⟨hn, -⟩
      rw [hs] at hn
      cases hn
  | seatWatch id isFinal =>
    simp only [step, Recreates]
    by_cases hw : id ∈ d.watches
    · rw [if_pos hw]
      cases isFinal with
      | false =>
        refine ⟨?_, fun _ => h⟩
        rintro - ⟨-, hf, -⟩
        cases hf
      | true =>
        refine (createSeat_unique d sys id).trans ⟨?_, fun hu => ⟨h, ?_⟩⟩
        · rintro ⟨-, hn⟩ ⟨-, -, hs⟩
          rw [hn] at hs
          cases hs
        · rcases hs : d.getSeat id with _ | r
          · rfl
          · exact absurd ⟨hw, rfl, by rw [hs]; rfl⟩ hu
    · rw [if_neg hw]
      exact ⟨fun _ hr => hw hr.1, fun _ => h⟩
  | idle oid => exact (idle_unique ht sys oid).trans ⟨fun _ hr => hr, fun _ => h⟩
  | clientAdded oid => exact ⟨fun _ hr => hr, fun _ => h⟩
  | clientRemoved oid a => exact ⟨fun _ hr => hr, fun _ => h⟩
  | call oid a c => exact ⟨fun _ hr => hr, fun _ => h⟩
  | sighup config => exact ⟨fun _ hr => hr, fun _ => h⟩
  | _ => exact ⟨fun _ hr => hr, fun _ => hother _ rfl rfl⟩

/-- **One seat object for each seat, exactly**: in a run no seat is created under
an id that is registered, iff no dispatch of the run is one that does so. -/
theorem run_unique (config : Config) (initialUser : Option String) (sts : List DaemonStep) :
    Always step Unique (Daemon.new config initialUser) sts ↔
      Along step (fun d st => ¬ d.Recreates st) (Daemon.new config initialUser) sts := by
  refine always_iff_along (E := fun _ => True) (I := Tidy) ?_ (tidy_new config initialUser) ?_
    fun _ _ => trivial
  · exact fun d st _ ht h => ⟨step_tidy ht st, step_unique ht h st⟩
  · intro id hm
    cases hm

/-- The run of the defect: `seat0` waits for one file, and it exists. The seat is
created by the callback and, right after it, again. -/
theorem run_unique_twice :
    let config : Config := ⟨fun g => if g = "seat0" then
      some fun key => if key = "NWATCH" then some "1" else
        if key = "WATCH0" then some "/run/ready" else none
      else none⟩
    let fs : Fs := { access := fun _ => true }
    ¬ Always step Unique (Daemon.new config none) [⟨{}, .addSeat "seat0" fs⟩] := by
  intro config fs h
  have hlast : ((Daemon.new config none).run [⟨{}, .addSeat "seat0" fs⟩]).Unique := h.last
  exact hlast "seat0" (by decide)

end Daemon

end Tlm
