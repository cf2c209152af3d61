import Tlm.DaemonShutdown

/-!
# The table and logind

Unless virtual seats are configured, `tlm_manager_start` adds the seats logind
lists and subscribes to `SeatNew` and `SeatRemoved`. From then on the table
should follow what logind says (`attached`): the manager has exactly the seats
that are there, as far as the configuration lets it.

The table follows as long as seats only come (`table_follows_iff`). The handler of
`SeatRemoved` tests the wrong way round: a seat that the manager has stays, and
one that it does not have is announced as removed. Both handlers, moreover, free the
id and the path of the seat, which lie in the memory of the signal's parameters, and
drop a reference to these that is not theirs. So no signal of logind at all is dealt
with in a sound way (`run_follows_iff`).
-/

namespace Tlm

namespace Daemon

variable {d d' : Daemon} {sys : Sys} {r : SeatRef} {ev : SeatEvent} {id : String}

/-! ## Starting -/

/-- The seats `tlm_manager_start` adds: the virtual ones, if there are any, else
those that logind lists. -/
def startSeats (cfg : Config) (listed : List String) : List String :=
  if cfg.nseats ≠ 0 then (List.range cfg.nseats).map fun i => "seat" ++ toString i else listed

/-- `tlm_manager_start`: add them one by one, then be started. `answers` is what the
system says meanwhile. -/
def startSteps (cfg : Config) (listed : List String) (answers : String → Sys × Fs) :
    List DaemonStep :=
  (startSeats cfg listed).map (fun id => ⟨(answers id).1, .addSeat id (answers id).2⟩) ++
    [⟨{}, .started⟩]

/-! ## What logind says -/

/-- The seats that are there, according to logind, after one more event. Being
listed counts as being new. -/
def attach (seats : String → Bool) : DaemonEvent → String → Bool
  | .addSeat id _ => Function.update seats id true
  | .seatAdded id _ => Function.update seats id true
  | .seatRemoved id => Function.update seats id false
  | _ => seats

/-- The daemon, and what logind says beside it. -/
def follow (s : Daemon × (String → Bool)) (st : DaemonStep) : Daemon × (String → Bool) :=
  (s.1.step st, attach s.2 st.event)

/-- The manager has exactly the seats that are there and configured active. -/
def Agrees (cfg : Config) (s : Daemon × (String → Bool)) : Prop :=
  ∀ id, id ∈ s.1.seatTable.map Prod.fst ↔ cfg.seatActive id = true ∧ s.2 id = true

/-- When logind removes a seat, `seat-removed` is emitted for it just when the
manager has it. -/
def Announces (s : Daemon × (String → Bool)) (st : DaemonStep) : Prop :=
  ∀ id, st.event = .seatRemoved id →
    (.seatRemoved id ∈ (s.1.step st).log.drop s.1.log.length ↔ id ∈ s.1.seatTable.map Prod.fst)

/-- No memory was freed that somebody else owns. -/
def Sound (d : Daemon) : Prop := ∀ id, Record.borrowedFreed id ∉ d.log

/-! ## What frees nothing -/

theorem onSeat_sound (h : d.Sound) (sys : Sys) (r : SeatRef) (ev : SeatEvent) :
    (d.onSeat sys r ev).Sound := by
  intro id hm
  rw [onSeat_eq] at hm
  rcases List.mem_append.mp hm with hm | hm
  · exact h id hm
  · obtain ⟨a, -, ha⟩ := List.mem_filterMap.mp hm
    cases a <;> cases ha

theorem Goes.sound {E : SeatRef → SeatEvent → Prop} {L : Record → Prop}
    (hL : ∀ id, ¬ L (.borrowedFreed id)) (h : Goes E L d d') (hd : d.Sound) : d'.Sound := by
  induction h with
  | refl d => exact hd
  | trans _ _ ih₁ ih₂ => exact ih₂ (ih₁ hd)
  | onSeat d sys _ => exact onSeat_sound hd sys _ _
  | enter d sys id =>
    simp only [insertSeat]
    split
    · exact hd
    · refine onSeat_sound ?_ sys _ _
      exact hd
  | remove d sys id =>
    simp only [removeSeat]
    split
    · exact hd
    · refine onSeat_sound ?_ sys _ _
      exact hd
  | log d es hes =>
    intro id hm
    rcases List.mem_append.mp hm with hm | hm
    · exact hd id hm
    · exact hL id (hes _ hm)
  | same _ _ h₃ =>
    rw [Sound, h₃]
    exact hd

/-- Nothing but the signals of logind has a handler that frees what is not its own. -/
theorem step_sound_iff (ht : d.Tidy) (h : d.Sound) (st : DaemonStep) :
    (d.step st).Sound ↔
      (∀ id fs, st.event ≠ .seatAdded id fs) ∧ ∀ id, st.event ≠ .seatRemoved id := by
  obtain ⟨sys, event⟩ := st
  have hgoes := step_goes ht ⟨sys, event⟩
  cases event with
  | seatAdded id fs =>
    refine iff_of_false (fun hs => hs id ?_) fun hne => hne.1 id fs rfl
    exact List.mem_append_right _ (List.mem_singleton_self _)
  | seatRemoved id =>
    refine iff_of_false (fun hs => hs id ?_) fun hne => hne.2 id rfl
    exact List.mem_append_right _ (List.mem_singleton_self _)
  | _ => exact iff_of_true (hgoes.sound (by simp [DaemonEvent.Notes]) h) (by simp)

/-! ## What leaves table and settings alone -/

/-- Neither the table nor the settings change. -/
structure Idles (d d' : Daemon) : Prop where
  table : d'.seatTable = d.seatTable
  config : d'.config = d.config
  watches : d'.watches = d.watches

theorem Idles.trans {d'' : Daemon} (h₁ : Idles d d') (h₂ : Idles d' d'') : Idles d d'' :=
  ⟨h₂.table.trans h₁.table, h₂.config.trans h₁.config, h₂.watches.trans h₁.watches⟩

theorem onSeat_idles (d : Daemon) (sys : Sys) (r : SeatRef) (ev : SeatEvent) :
    Idles d (d.onSeat sys r ev) := by
  rw [onSeat_eq]
  exact ⟨rfl, rfl, rfl⟩

theorem handOver_idles (d : Daemon) (sys : Sys) (r : SeatRef) (q : DbusRequest) :
    Idles d (d.handOver sys r q) := by
  simp only [handOver]
  split
  · rw [request_eq, onSeat_eq]
    exact ⟨rfl, rfl, rfl⟩
  · exact ⟨rfl, rfl, rfl⟩

theorem idle_idles (h : d.Tidy) (sys : Sys) (oid : ObserverId) :
    Idles d (d.step ⟨sys, .idle oid⟩) := by
  rcases idle_cases h sys oid with ⟨-, heq⟩ | ⟨-, heq⟩ | ⟨q, rest, -, hq, heq⟩
  · rw [heq]
    exact ⟨rfl, rfl, rfl⟩
  · rw [heq]
    exact ⟨rfl, rfl, rfl⟩
  · rw [heq]
    rcases processRequest_eq h sys hq with ⟨-, heq⟩ | ⟨r, -, -, heq⟩ | ⟨r, -, -, -, -, heq⟩
    · rw [heq]
      exact ⟨rfl, rfl, rfl⟩
    · obtain ⟨h₁, h₂, h₃⟩ :=
        (onSeat_idles d sys r .ref).trans (handOver_idles (d.onSeat sys r .ref) sys r q)
      rw [heq]
      exact ⟨h₁, h₂, h₃⟩
    · obtain ⟨h₁, h₂, h₃⟩ := handOver_idles d sys r q
      rw [heq]
      exact ⟨h₁, h₂, h₃⟩

/-! ## New seats -/

/-- `id` is a key now, and nothing else has changed. -/
structure Enters (id : String) (d d' : Daemon) : Prop where
  keys : ∀ id', id' ∈ d'.seatTable.map Prod.fst ↔ id' = id ∨ id' ∈ d.seatTable.map Prod.fst
  config : d'.config = d.config
  watches : d'.watches = d.watches

theorem Enters.idles {d'' : Daemon} (h : Enters id d d') (h' : Idles d' d'') : Enters id d d'' := by
  refine ⟨fun id' => ?_, h'.config.trans h.config, h'.watches.trans h.watches⟩
  rw [h'.table]
  exact h.keys id'

theorem insertSeat_enters (d : Daemon) (sys : Sys) (id : String) (r : SeatRef) :
    Enters id d (d.insertSeat sys id r) := by
  simp only [insertSeat]
  split
  · refine ⟨fun id' => ?_, rfl, rfl⟩
    simp only [List.map_append, List.map_cons, List.map_nil, List.mem_append, List.mem_singleton]
    exact or_comm
  · rename_i old hold
    have hmem : id ∈ d.seatTable.map Prod.fst := List.mem_map_of_mem (getSeat_mem hold)
    have hkeys : (Table.replace id r d.seatTable).map Prod.fst = d.seatTable.map Prod.fst :=
      Table.keys_replace
    have hput : Enters id d { d with seatTable := Table.replace id r d.seatTable } := by
      refine ⟨fun id' => ?_, rfl, rfl⟩
      simp only [hkeys]
      refine ⟨Or.inr, ?_⟩
      rintro (rfl | h)
      · exact hmem
      · exact h
    exact hput.idles (onSeat_idles _ sys old .unref)

/-- A new seat is a new key, if its id was not one before. -/
theorem createSeat_enters (d : Daemon) (sys : Sys) (id : String) :
    Enters id d (d.createSeat sys id) := by
  obtain ⟨hkeys, hconfig, hwatches⟩ := insertSeat_enters
    { d.record (.createSeat id (d.getSeat id).isSome) with
      seats := d.seats.alloc (Seat.new id) } sys id d.seats.next
  have hinsert : Enters id d _ := ⟨hkeys, hconfig, hwatches⟩
  simp only [createSeat]
  split
  · exact hinsert.idles (onSeat_idles _ sys _ _)
  · exact hinsert

/-- Nothing to wait for: a seat that is active is created. -/
theorem addSeat_of_nwatch (h : d.config.seatNwatch id = 0) (sys : Sys) (fs : Fs) :
    d.addSeat sys fs id = if d.config.seatActive id then d.createSeat sys id else d := by
  unfold addSeat
  cases d.config.seatActive id with
  | true => simp [h]
  | false => rfl

/-! ## One step -/

/-- The manager runs, and waits for no file. -/
structure Ready (cfg : Config) (d : Daemon) : Prop where
  tidy : d.Tidy
  unstopped : d.Unstopped
  config : d.config = cfg
  watches : d.watches = []

/-- Whatever does not concern logind leaves the table alone. -/
theorem step_idles {cfg : Config} (h : d.Ready cfg) {st : DaemonStep}
    (hstops : st.event.stops = false) (hconfig : ∀ config, st.event ≠ .sighup config)
    (hlogind : ∀ seats, attach seats st.event = seats) : Idles d (d.step st) := by
  obtain ⟨sys, event⟩ := st
  -- an event that tells something new about a seat is one of logind's
  have hnew : ∀ id b, attach (fun _ => !b) event ≠ Function.update (fun _ => !b) id b := by
    intro id b heq
    have hsame := congrFun (heq.symm.trans (hlogind fun _ => !b)) id
    rw [Function.update_self] at hsame
    cases b <;> cases hsame
  cases event with
  | addSeat id fs => exact absurd rfl (hnew id true)
  | seatAdded id fs => exact absurd rfl (hnew id true)
  | seatRemoved id => exact absurd rfl (hnew id false)
  | seatWatch id isFinal =>
    simp only [step, h.watches]
    exact ⟨rfl, rfl, rfl⟩
  | authenticate seatId service username password =>
    simp only [step, authenticate]
    split
    · exact ⟨rfl, rfl, rfl⟩
    · rw [request_eq, onSeat_eq]
      exact ⟨rfl, rfl, rfl⟩
  | idle oid => exact idle_idles h.tidy sys oid
  | delayedSession r k => exact onSeat_idles d sys r _
  | session r x e =>
    simp only [step, sessionEvent]
    split
    · rw [h.unstopped.handlers r]
      exact onSeat_idles d sys r _
    · exact onSeat_idles d sys r _
  | sighup config => exact absurd rfl (hconfig config)
  | stop iterate => cases hstops
  | dispose iterate => cases hstops
  | _ => exact ⟨rfl, rfl, rfl⟩

/-- An event of a daemon that runs on with its configuration. -/
def RunsOn (st : DaemonStep) : Prop :=
  st.event.stops = false ∧ ∀ config, st.event ≠ .sighup config

/-- Adding a seat: it becomes a key, if it is active. -/
theorem addSeat_agrees {cfg : Config} {seats : String → Bool} (h : d.Ready cfg)
    (hw : ∀ id, cfg.seatNwatch id = 0) (ha : Agrees cfg (d, seats)) (sys : Sys) (fs : Fs)
    (id : String) :
    Agrees cfg (d.addSeat sys fs id, Function.update seats id true) ∧
      (d.addSeat sys fs id).config = cfg ∧ (d.addSeat sys fs id).watches = [] := by
  have hnwatch : d.config.seatNwatch id = 0 := by
    rw [h.config]
    exact hw id
  rw [addSeat_of_nwatch hnwatch, h.config]
  cases hactive : cfg.seatActive id with
  | true =>
    obtain ⟨hkeys, hconfig, hwatches⟩ := createSeat_enters d sys id
    refine ⟨fun id' => ?_, hconfig.trans h.config, hwatches.trans h.watches⟩
    simp only [if_true]
    rw [hkeys, ha id', Function.update_apply]
    by_cases hid : id' = id
    · simp [hid, hactive]
    · simp [hid]
  | false =>
    refine ⟨fun id' => ?_, h.config, h.watches⟩
    simp only [Bool.false_eq_true, if_false]
    rw [ha id', Function.update_apply]
    by_cases hid : id' = id
    · simp [hid, hactive]
    · simp [hid]

/-- The manager keeps up with logind. -/
structure Follows (cfg : Config) (s : Daemon × (String → Bool)) : Prop where
  ready : s.1.Ready cfg
  agrees : Agrees cfg s

/-- It does as long as no seat is removed. -/
theorem follow_follows {cfg : Config} (hw : ∀ id, cfg.seatNwatch id = 0)
    {s : Daemon × (String → Bool)} (hs : Follows cfg s) {st : DaemonStep}
    (hst : RunsOn st) (hremoved : ∀ id, st.event ≠ .seatRemoved id) :
    Follows cfg (follow s st) := by
  obtain ⟨h, ha⟩ := hs
  obtain ⟨d, seats⟩ := s
  have htidy := step_tidy h.tidy st
  have hunstopped := step_unstopped h.tidy h.unstopped hst.1
  obtain ⟨sys, event⟩ := st
  have hother : (∀ seats, attach seats event = seats) →
      Follows cfg (follow (d, seats) ⟨sys, event⟩) := by
    intro hsame
    obtain ⟨htable, hconfig, hwatches⟩ := step_idles h hst.1 hst.2 hsame
    refine ⟨⟨htidy, hunstopped, hconfig.trans h.config, hwatches.trans h.watches⟩, fun id => ?_⟩
    simp only [follow]
    rw [htable, hsame]
    exact ha id
  cases event with
  | addSeat id fs =>
    obtain ⟨hagrees, hconfig, hwatches⟩ := addSeat_agrees h hw ha sys fs id
    exact ⟨⟨htidy, hunstopped, hconfig, hwatches⟩, hagrees⟩
  | seatAdded id fs =>
    simp only [follow, step, onSeatAdded] at htidy hunstopped ⊢
    split
    · -- a seat that is in the table is active, and was there before
      rename_i hsome
      rw [if_pos hsome] at htidy hunstopped
      refine ⟨⟨htidy, hunstopped, h.config, h.watches⟩, fun id' => ?_⟩
      obtain ⟨r, hr⟩ := Option.isSome_iff_exists.mp hsome
      obtain ⟨hactive, hthere⟩ := (ha id).mp (List.mem_map_of_mem (getSeat_mem hr))
      have hsame : attach seats (.seatAdded id fs) = seats := by
        simp only [attach]
        rw [← hthere]
        exact Function.update_eq_self id seats
      rw [hsame]
      exact ha id'
    · rename_i hnone
      rw [if_neg hnone] at htidy hunstopped
      obtain ⟨hagrees, hconfig, hwatches⟩ := addSeat_agrees h hw ha sys fs id
      exact ⟨⟨htidy, hunstopped, hconfig, hwatches⟩, hagrees⟩
  | seatRemoved id => exact absurd rfl (hremoved id)
  | _ => exact hother fun _ => rfl

/-- A removal is announced in the wrong case. -/
theorem not_announces (s : Daemon × (String → Bool)) (sys : Sys) (id : String) :
    ¬ Announces s ⟨sys, .seatRemoved id⟩ := by
  intro h
  have hiff := h id rfl
  simp only [step, onSeatRemoved] at hiff
  rcases hg : s.1.getSeat id with _ | r
  · rw [hg] at hiff
    simp only [Option.isSome_none, Bool.false_eq_true, if_false] at hiff
    have hemitted : Record.seatRemoved id ∈
        (((s.1.removeSeat sys id).record (.seatRemoved id)).record (.borrowedFreed id)).log.drop
          s.1.log.length := by
      simp [removeSeat, hg, record]
    exact getSeat_none hg (hiff.mp hemitted)
  · rw [hg] at hiff
    have hmem := hiff.mpr (List.mem_map_of_mem (getSeat_mem hg))
    simp [record] at hmem

/-! ## Whole runs -/

theorem foldl_follow (sts : List DaemonStep) (s : Daemon × (String → Bool)) :
    sts.foldl follow s = (s.1.run sts, sts.foldl (fun seats st => attach seats st.event) s.2) := by
  induction sts generalizing s with
  | nil => rfl
  | cons st sts ih =>
    rw [List.foldl_cons, ih]
    rfl

/-- Whoever is listed is there. -/
theorem foldl_attach_listed (answers : String → Sys × Fs) (listed : List String)
    (seats : String → Bool) :
    (listed.map fun id => (⟨(answers id).1, .addSeat id (answers id).2⟩ : DaemonStep)).foldl
      (fun seats st => attach seats st.event) seats = fun id => decide (id ∈ listed) || seats id := by
  induction listed generalizing seats with
  | nil => simp
  | cons id listed ih =>
    rw [List.map_cons, List.foldl_cons, ih]
    funext id'
    simp only [attach, Function.update_apply, List.mem_cons]
    by_cases hid : id' = id
    · simp [hid]
    · simp [hid]

theorem always_follows {cfg : Config} (hw : ∀ id, cfg.seatNwatch id = 0)
    {s : Daemon × (String → Bool)} (hs : Follows cfg s) {sts : List DaemonStep}
    (hsts : ∀ st ∈ sts, RunsOn st ∧ ∀ id, st.event ≠ .seatRemoved id) :
    Always follow (Follows cfg) s sts := by
  have hstep : ∀ (s : Daemon × (String → Bool)) (st : DaemonStep),
      RunsOn st ∧ (∀ id, st.event ≠ .seatRemoved id) → Follows cfg s → Follows cfg (follow s st) :=
    fun _ _ hst h => follow_follows hw h hst.1 hst.2
  exact always_of_step hstep hs hsts

/-- When the manager is started it has the listed seats that are active. -/
theorem start_follows (config : Config) (initialUser : Option String) (listed : List String)
    (answers : String → Sys × Fs) (hn : config.nseats = 0) (hw : ∀ id, config.seatNwatch id = 0) :
    Follows config ((Daemon.new config initialUser).run (startSteps config listed answers),
      fun id => decide (id ∈ listed)) := by
  have hnew : Follows config (Daemon.new config initialUser, fun _ => false) := by
    refine ⟨⟨tidy_new config initialUser, unstopped_new config initialUser, rfl, rfl⟩, fun id => ?_⟩
    simp [Daemon.new]
  have hstart : ∀ st ∈ startSteps config listed answers,
      RunsOn st ∧ ∀ id, st.event ≠ .seatRemoved id := by
    intro st hst
    rcases List.mem_append.mp hst with hst | hst
    · obtain ⟨id, -, rfl⟩ := List.mem_map.mp hst
      exact ⟨⟨rfl, by simp⟩, by simp⟩
    · rw [List.mem_singleton.mp hst]
      exact ⟨⟨rfl, by simp⟩, by simp⟩
  have hlast := (always_follows hw hnew hstart).last
  have hseats : (startSteps config listed answers).foldl
      (fun seats st => attach seats st.event) (fun _ => false) = fun id => decide (id ∈ listed) := by
    have hlisted : startSeats config listed = listed := if_neg (by rw [hn]; exact fun h => h rfl)
    rw [startSteps, hlisted, List.foldl_append, foldl_attach_listed]
    simp [attach]
  rw [foldl_follow, hseats] at hlast
  exact hlast

/-- The only dispatches that announce wrongly are removals. -/
theorem along_announces_iff (s : Daemon × (String → Bool)) (sts : List DaemonStep) :
    Along follow Announces s sts ↔ ∀ st ∈ sts, ∀ id, st.event ≠ .seatRemoved id := by
  induction sts generalizing s with
  | nil => exact ⟨fun _ _ hst => absurd hst List.not_mem_nil, fun _ => trivial⟩
  | cons st sts ih =>
    rw [along_cons, ih, List.forall_mem_cons]
    refine and_congr_left fun _ => ⟨fun h id hid => ?_, fun h id hid => absurd hid (h id)⟩
    obtain ⟨sys, event⟩ := st
    subst hid
    exact not_announces s sys id h

/-- The table follows logind, exactly as long as no seat is removed: with no
virtual seats and nothing to wait for, whatever logind lists first and signals
later, and whatever else happens, the keys of the table are the active seats
whose last event is that they are there, and `seat-removed` is emitted for the
seats in the table only, iff there is no `SeatRemoved` at all. -/
theorem table_follows_iff (config : Config) (initialUser : Option String) (listed : List String)
    (answers : String → Sys × Fs) (hn : config.nseats = 0) (hw : ∀ id, config.seatNwatch id = 0)
    (post : List DaemonStep) (hpost : ∀ st ∈ post, RunsOn st) :
    let s := ((Daemon.new config initialUser).run (startSteps config listed answers),
      fun id => decide (id ∈ listed))
    (Always follow (Agrees config) s post ∧ Along follow Announces s post) ↔
      ∀ st ∈ post, ∀ id, st.event ≠ .seatRemoved id := by
  intro s
  rw [along_announces_iff]
  refine ⟨fun h => h.2, fun hnone => ⟨?_, hnone⟩⟩
  have hall := always_follows hw (start_follows config initialUser listed answers hn hw)
    fun st hst => ⟨hpost st hst, hnone st hst⟩
  exact hall.imp fun _ h => h.agrees

/-- A daemon has freed only what is its own as long as no signal of logind has come. -/
theorem always_sound_iff {s : Daemon × (String → Bool)} (ht : s.1.Tidy) (hs : s.1.Sound)
    (sts : List DaemonStep) :
    Always follow (fun s => s.1.Sound) s sts ↔
      ∀ st ∈ sts, (∀ id fs, st.event ≠ .seatAdded id fs) ∧ ∀ id, st.event ≠ .seatRemoved id := by
  induction sts generalizing s with
  | nil => exact iff_of_true hs fun _ h => absurd h List.not_mem_nil
  | cons st sts ih =>
    have hstep := step_sound_iff ht hs st
    rw [List.forall_mem_cons, ← hstep]
    constructor
    · rintro ⟨-, hrest⟩
      have hnext : (follow s st).1.Sound := hrest.head
      exact ⟨hnext, (ih (step_tidy ht st) hnext).mp hrest⟩
    · exact fun ⟨hnext, hrest⟩ => ⟨hs, (ih (step_tidy ht st) hnext).mpr hrest⟩

theorem start_sound (config : Config) (initialUser : Option String) (listed : List String)
    (answers : String → Sys × Fs) :
    ((Daemon.new config initialUser).run (startSteps config listed answers)).Sound := by
  have hnew : (Daemon.new config initialUser).Sound := fun id hm => by cases hm
  have hall := (always_sound_iff (s := (Daemon.new config initialUser, fun _ => false))
    (tidy_new config initialUser) hnew (startSteps config listed answers)).mpr
  have hlast := (hall fun st hst => ?_).last
  · rw [foldl_follow] at hlast
    exact hlast
  · rcases List.mem_append.mp hst with hst | hst
    · obtain ⟨id, -, rfl⟩ := List.mem_map.mp hst
      exact ⟨by simp, by simp⟩
    · rw [List.mem_singleton.mp hst]
      exact ⟨by simp, by simp⟩

/-- **The table follows logind, and is kept in a sound way, exactly as long as logind has
nothing to say after it has listed the seats**: with no virtual seats and nothing to wait for,
in every state the keys of the table are the active seats whose last event is that they are
there and no memory was freed that somebody else owns, and `seat-removed` is emitted for the
seats in the table only, iff there is no `SeatNew` and no `SeatRemoved`. -/
theorem run_follows_iff (config : Config) (initialUser : Option String) (listed : List String)
    (answers : String → Sys × Fs) (hn : config.nseats = 0) (hw : ∀ id, config.seatNwatch id = 0)
    (post : List DaemonStep) (hpost : ∀ st ∈ post, RunsOn st) :
    let s := ((Daemon.new config initialUser).run (startSteps config listed answers),
      fun id => decide (id ∈ listed))
    (Always follow (fun s => Agrees config s ∧ s.1.Sound) s post ∧
        Along follow Announces s post) ↔
      ∀ st ∈ post, (∀ id fs, st.event ≠ .seatAdded id fs) ∧ ∀ id, st.event ≠ .seatRemoved id := by
  intro s
  have htidy : s.1.Tidy := (start_follows config initialUser listed answers hn hw).ready.tidy
  have hsound : s.1.Sound := start_sound config initialUser listed answers
  have htable := table_follows_iff config initialUser listed answers hn hw post hpost
  constructor
  · exact fun h => (always_sound_iff htidy hsound post).mp (h.1.imp fun _ h => h.2)
  · intro hnone
    obtain ⟨hagrees, hannounces⟩ := htable.mpr fun st hst => (hnone st hst).2
    exact ⟨hagrees.and ((always_sound_iff htidy hsound post).mpr hnone), hannounces⟩

/-- Two listed seats are there, whatever a session of one of them does. -/
theorem run_follows_listed :
    let s := ((Daemon.new manual none).run (startSteps manual ["seat0", "seat1"] fun _ => ({}, {})),
      fun id => decide (id ∈ ["seat0", "seat1"]))
    Always follow (fun s => Agrees manual s ∧ s.1.Sound) s
      [⟨{}, .session 0 0 .childDown⟩] := by
  intro s
  refine ((run_follows_iff manual none ["seat0", "seat1"] (fun _ => ({}, {})) (by decide) ?_
    [⟨{}, .session 0 0 .childDown⟩] ?_).mpr ?_).1
  · intro id
    by_cases hid : id = "General"
    · rw [hid]
      decide
    · simp [Config.seatNwatch, Config.getUInt, Config.getString, Config.getGroup, manual, hid]
  · exact fun st hst => by rw [List.mem_singleton.mp hst]; exact ⟨rfl, by simp⟩
  · exact fun st hst => by rw [List.mem_singleton.mp hst]; simp

/-- Logind lists a seat and then removes it: the manager keeps it, and says
nothing. A seat that comes later is taken into the table, and with it goes memory that the
manager does not own. -/
theorem removed_seat_stays :
    let s := ((Daemon.new manual none).run (startSteps manual ["seat0"] fun _ => ({}, {})),
      fun id => decide (id ∈ ["seat0"]))
    ¬ Always follow (Agrees manual) s [⟨{}, .seatRemoved "seat0"⟩] ∧
      ¬ Along follow Announces s [⟨{}, .seatRemoved "seat0"⟩] ∧
      ¬ (follow s ⟨{}, .seatAdded "seat1" {}⟩).1.Sound := by
  intro s
  refine ⟨fun h => ?_, fun h => not_announces s {} "seat0" h.1, fun h => ?_⟩
  · have hkept : "seat0" ∈ ((follow s ⟨{}, .seatRemoved "seat0"⟩).1.seatTable.map Prod.fst) := by
      decide
    have hgone : (follow s ⟨{}, .seatRemoved "seat0"⟩).2 "seat0" = false := by decide
    have hthere := ((h.last "seat0").mp hkept).2
    rw [List.foldl_cons, List.foldl_nil, hgone] at hthere
    cases hthere
  · exact h "seat1" (List.mem_append_right _ (List.mem_singleton_self _))

end Daemon

end Tlm
