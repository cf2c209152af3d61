import Mathlib.Algebra.Order.Group.Int
import Tlm.DaemonSpec
import Tlm.Limiter
import Tlm.SeatInvariant

/-!
# The relogin throttle

`tlm_seat_create_session` puts a call off when too many have come in quick
succession; the call comes again from a timer and is counted again. The throttle
is a `Limiter` for three calls less than a second apart (`throttle_judge`), and
nothing else writes its two fields: every dispatch of a seat moves the limiter
along the calls it makes (`step_limits`), so what a limiter guarantees holds of
the calls of whole runs, first attempts and retries alike.
-/

namespace Tlm

/-- What an act says about the throttle: a call of `tlm_seat_create_session` on
a seat without a session, with its time and whether it was put off. -/
def Act.throttled (now : ℤ) : Act → Option (ℤ × Bool)
  | .createSession _ .alreadyExists => none
  | .createSession _ verdict => some (now, decide (verdict = .deferred))
  | _ => none

theorem Act.throttled_time {now : ℤ} {a : Act} {c : ℤ × Bool} (h : a.throttled now = some c) :
    c.1 = now := by
  cases a with
  | createSession args verdict =>
    cases verdict with
    | alreadyExists => cases h
    | deferred => cases h; rfl
    | noRemote => cases h; rfl
    | noObserver => cases h; rfl
    | started x o => cases h; rfl
  | _ => cases h

namespace Seat

variable {cfg : Config} {sys : Sys} {args : LoginArgs} {s s' s'' : Seat} {now : ℤ}

/-- What the throttle remembers. -/
def limiter (s : Seat) : Limiter ℤ := ⟨s.prevTime, s.prevCount⟩

/-- The throttle is a limiter for three calls less than a second apart. -/
theorem throttle_judge (sys : Sys) (s : Seat) :
    ((s.throttle sys).1.limiter, (s.throttle sys).2) =
      Limiter.judge 1000000 3 s.limiter sys.now := by
  by_cases h : sys.now - s.prevTime < 1000000
  · rw [Limiter.judge_close (show sys.now - s.limiter.last < 1000000 from h)]
    simp only [throttle, if_pos h]
    rfl
  · rw [Limiter.judge_pause (show 1000000 ≤ sys.now - s.limiter.last from not_lt.mp h)]
    simp only [throttle, if_neg h]
    rfl

/-- From `s` to `s'` the limiter was moved along the calls the trace has gained. -/
def Limits (now : ℤ) (s s' : Seat) : Prop :=
  ∃ acts, s'.trace = s.trace ++ acts ∧
    Limiter.Obeys 1000000 3 s.limiter (acts.filterMap (Act.throttled now)) s'.limiter

theorem Limits.trans (h₁ : Limits now s s') (h₂ : Limits now s' s'') : Limits now s s'' := by
  obtain ⟨acts₁, ht₁, ho₁⟩ := h₁
  obtain ⟨acts₂, ht₂, ho₂⟩ := h₂
  refine ⟨acts₁ ++ acts₂, by rw [ht₂, ht₁, List.append_assoc], ?_⟩
  rw [List.filterMap_append]
  exact Limiter.obeys_append.mpr ⟨s'.limiter, ho₁, ho₂⟩

/-- What makes no call and leaves the two fields alone. -/
theorem Limits.idle (acts : List Act) (ht : s'.trace = s.trace ++ acts)
    (hacts : acts.filterMap (Act.throttled now) = []) (h₁ : s'.prevTime = s.prevTime)
    (h₂ : s'.prevCount = s.prevCount) : Limits now s s' := by
  refine ⟨acts, ht, ?_⟩
  rw [hacts, Limiter.obeys_nil, limiter, h₁, h₂]
  rfl

theorem Limits.same (ht : s'.trace = s.trace) (h₁ : s'.prevTime = s.prevTime)
    (h₂ : s'.prevCount = s.prevCount) : Limits now s s' :=
  Limits.idle [] (by rw [ht, List.append_nil]) rfl h₁ h₂

theorem Limits.refl (now : ℤ) (s : Seat) : Limits now s s := Limits.same rfl rfl rfl

/-- The trace goes on from `s` to `s'` without a call. -/
theorem emit_limits {a : Act} (ha : a.throttled now = none) : Limits now s (s.emit a) :=
  Limits.idle [a] rfl (by simp [ha]) rfl rfl

/-! ## Creating -/

/-- Behind the throttle, one entry of the trace says that the call got through. -/
theorem startSession_throttled (cfg : Config) (sys : Sys) (args : LoginArgs) (s : Seat)
    (now : ℤ) :
    ∃ acts, (s.startSession cfg sys args).1.trace = s.trace ++ acts ∧
      acts.filterMap (Act.throttled now) = [(now, false)] ∧
      (s.startSession cfg sys args).1.limiter = s.limiter := by
  obtain ⟨du, da, acts, hacts, hsel⟩ := selectUser_frame cfg args s
  have hnone : acts.filterMap (Act.throttled now) = [] := by
    refine List.filterMap_eq_nil_iff.mpr fun a ha => ?_
    obtain ⟨u, rfl⟩ := hacts a ha
    rfl
  have htrace : (s.selectUser cfg args).trace = s.trace ++ acts := by rw [hsel]
  have hlimiter : (s.selectUser cfg args).limiter = s.limiter := by rw [hsel]; rfl
  rcases startSession_cases cfg sys args s with ⟨-, ss, -, heq⟩ | ⟨-, heq⟩ | ⟨-, uid, -, heq⟩
  all_goals
    rw [heq]
    refine ⟨_, by rw [htrace, List.append_assoc], ?_, hlimiter⟩
    rw [List.filterMap_append, hnone]
    rfl

/-- A call moves the limiter by itself: on, if the seat is free, and not at all
otherwise. -/
theorem createSession_limits (cfg : Config) (sys : Sys) (args : LoginArgs) (s : Seat) :
    Limits sys.now s (s.createSession cfg sys args).1 := by
  have hjudge := throttle_judge sys s
  obtain ⟨c, hc⟩ := throttle_frame sys s
  have htrace : (s.throttle sys).1.trace = s.trace := by rw [hc]
  simp only [createSession]
  split
  · exact Limits.idle [_, _] (List.append_assoc ..) rfl rfl rfl
  · rcases hth : s.throttle sys with ⟨t, off⟩
    rw [hth] at hjudge htrace
    cases off with
    | true =>
      refine ⟨[.createSession args .deferred], congrArg (· ++ _) htrace, ?_, ?_⟩
      · exact congrArg Prod.snd hjudge
      · exact congrArg Prod.fst hjudge
    | false =>
      obtain ⟨acts, ht, hcalls, hlimiter⟩ := startSession_throttled cfg sys args t sys.now
      refine ⟨acts, by rw [ht, htrace], ?_⟩
      rw [hcalls]
      refine ⟨congrArg Prod.snd hjudge, ?_⟩
      rw [hlimiter]
      exact congrArg Prod.fst hjudge

theorem terminateSession_limits (s : Seat) : Limits now s s.terminateSession.1 := by
  obtain ⟨acts, hacts, h⟩ := terminateSession_cases s
  have hnone : acts.filterMap (Act.throttled now) = [] := by
    rcases hacts with rfl | rfl <;> rfl
  rcases h with ⟨x, -, -, heq⟩ | ⟨-, heq⟩
  · rw [heq]
    exact Limits.idle acts rfl hnone rfl rfl
  · rw [heq]
    refine Limits.idle _ (List.append_assoc ..) ?_ rfl rfl
    rw [List.filterMap_append, hnone]
    rfl

theorem switchUser_limits (cfg : Config) (sys : Sys) (args : LoginArgs) (s : Seat) :
    Limits sys.now s (s.switchUser cfg sys args).1 := by
  rcases switchUser_cases cfg sys args s with ⟨-, heq⟩ | ⟨-, -, heq⟩ | ⟨-, -, heq⟩
  · rw [heq]
    exact Limits.refl _ s
  · rw [heq]
    exact createSession_limits cfg sys args s
  · rw [heq]
    have hnext : Limits sys.now s (s.withNext args) := Limits.same rfl rfl rfl
    exact hnext.trans (terminateSession_limits _)

/-! ## The other operations make no call of their own -/

theorem clearDbusObserver_limits (s : Seat) : Limits now s s.clearDbusObserver := by
  simp only [clearDbusObserver]
  split
  · exact Limits.refl now s
  · exact Limits.idle [_] rfl rfl rfl rfl

theorem clearPrevDbusObserver_limits (s : Seat) : Limits now s s.clearPrevDbusObserver := by
  simp only [clearPrevDbusObserver]
  split
  · exact Limits.refl now s
  · exact Limits.idle [_] rfl rfl rfl rfl

theorem clearSession_limits (emitter : Option SessionRef) (s : Seat) :
    Limits now s (s.clearSession emitter) := by
  simp only [clearSession]
  split
  · exact Limits.refl now s
  · split <;> exact Limits.same rfl rfl rfl

theorem disconnectSessionSignals_limits (s : Seat) :
    Limits now s s.disconnectSessionSignals := by
  simp only [disconnectSessionSignals]
  split
  · exact Limits.refl now s
  · exact Limits.same rfl rfl rfl

theorem closeActiveSession_limits (s : Seat) (x : SessionRef) :
    Limits now s (s.closeActiveSession x) := by
  rcases hs : s.session with _ | y
  · rw [closeActiveSession_none hs]
    exact Limits.refl now s
  · obtain ⟨m, -, heq⟩ := closeActiveSession_eq hs x
    rw [heq]
    exact Limits.idle [.closed x] rfl rfl rfl rfl

theorem unref_limits (s : Seat) : Limits now s s.unref := by
  simp only [unref]
  split
  · have hdispose : Limits now s s.dispose :=
      (((clearDbusObserver_limits s).trans (clearPrevDbusObserver_limits _)).trans
        (disconnectSessionSignals_limits _)).trans (clearSession_limits none _)
    exact hdispose.trans (Limits.same rfl rfl rfl)
  · exact Limits.same rfl rfl rfl

theorem delayedSession_limits (cfg : Config) (sys : Sys) (k : ℕ) (s : Seat) :
    Limits sys.now s (s.delayedSession cfg sys k) := by
  simp only [delayedSession]
  split
  · exact Limits.refl _ s
  · rename_i args _
    have htaken : Limits sys.now s { s with closures := s.closures.eraseIdx k } :=
      Limits.same rfl rfl rfl
    exact (htaken.trans (createSession_limits cfg sys args _)).trans (unref_limits _)

theorem handleSessionTerminated_limits (cfg : Config) (sys : Sys) (x : SessionRef) (s : Seat) :
    Limits sys.now s (s.handleSessionTerminated cfg sys x) := by
  have hclosed : Limits sys.now s ((s.closeActiveSession x).emit .sessionTerminated) :=
    (closeActiveSession_limits s x).trans (emit_limits rfl)
  have hcleared := hclosed.trans (clearDbusObserver_limits _)
  simp only [handleSessionTerminated, terminated]
  split
  · exact hclosed.trans (Limits.same rfl rfl rfl)
  · split
    · exact hcleared.trans (emit_limits rfl)
    · split
      · have hrelogin := hcleared.trans (emit_limits (a := .relogin x) rfl)
        have hcreated := hrelogin.trans (createSession_limits cfg sys
          ((s.closeActiveSession x).emit .sessionTerminated).clearDbusObserver.next _)
        exact hcreated.trans (Limits.same rfl rfl rfl)
      · exact hcleared

theorem runHandler_limits (cfg : Config) (sys : Sys) (x : SessionRef) (g : SessionSignal)
    (s : Seat) : Limits sys.now s (s.runHandler cfg sys x g) := by
  cases g with
  | created => exact (emit_limits rfl).trans (clearPrevDbusObserver_limits _)
  | terminated => exact handleSessionTerminated_limits cfg sys x s
  | error code =>
    have hemit : Limits sys.now s (s.emit (.sessionError code)) := emit_limits rfl
    simp only [runHandler, handleError]
    split
    · exact (hemit.trans (closeActiveSession_limits _ x)).trans (clearDbusObserver_limits _)
    · exact hemit

theorem foldl_limits {α : Type} {f : Seat → α → Seat} (hf : ∀ s a, Limits now s (f s a))
    (l : List α) (s : Seat) : Limits now s (l.foldl f s) := by
  induction l generalizing s with
  | nil => exact Limits.refl now s
  | cons a l ih => exact (hf s a).trans (ih (f s a))

theorem released_limits (x : SessionRef) (s : Seat) : Limits now s (s.released x) := by
  obtain ⟨ss, heq, -⟩ := released_frame x s
  rw [heq]
  exact Limits.same rfl rfl rfl

theorem sessionEvent_limits (cfg : Config) (sys : Sys) (x : SessionRef) (e : SessionEvent)
    (s : Seat) : Limits sys.now s (s.sessionEvent cfg sys x e) := by
  have hdeliver : ∀ (s : Seat) (g : SessionSignal), Limits sys.now s (s.deliver cfg sys x g) := by
    intro s g
    refine foldl_limits (fun s k => ?_) _ s
    split
    · exact runHandler_limits cfg sys x g s
    · exact Limits.refl _ s
  have hset : Limits sys.now s (s.setSession x ((s.sessions.get x).handle e).1) :=
    Limits.same rfl rfl rfl
  have hemission : Limits sys.now s (s.emission cfg sys x e) :=
    hset.trans (foldl_limits hdeliver ((s.sessions.get x).handle e).2 _)
  simp only [sessionEvent]
  split
  · exact hemission.trans (released_limits x _)
  · exact hemission

/-! ## Runs -/

/-- Whatever is done to a seat, its limiter is moved along the calls it makes. -/
theorem step_limits (s : Seat) (st : SeatStep) : Limits st.sys.now s (s.step st) := by
  simp only [step]
  split
  · exact Limits.refl _ s
  · simp only [dispatch]
    cases st.event with
    | createSession args => exact createSession_limits st.cfg st.sys args s
    | switchUser args => exact switchUser_limits st.cfg st.sys args s
    | terminateSession => exact terminateSession_limits s
    | delayedSession k => exact delayedSession_limits st.cfg st.sys k s
    | session x e => exact sessionEvent_limits st.cfg st.sys x e s
    | connectStop => exact Limits.same rfl rfl rfl
    | ref => exact Limits.same rfl rfl rfl
    | unref => exact unref_limits s

/-- The calls of `tlm_seat_create_session` that a run makes while the seat has no
session, in order: the time of each, and whether it was put off. -/
def calls : Seat → List SeatStep → List (ℤ × Bool)
  | _, [] => []
  | s, st :: sts =>
    (Daemon.gained s (s.step st)).filterMap (Act.throttled st.sys.now) ++ calls (s.step st) sts

theorem run_obeys (s : Seat) (sts : List SeatStep) :
    Limiter.Obeys 1000000 3 s.limiter (s.calls sts) (s.run sts).limiter := by
  induction sts generalizing s with
  | nil => rfl
  | cons st sts ih =>
    obtain ⟨acts, ht, ho⟩ := step_limits s st
    have hcalls : s.calls (st :: sts) =
        acts.filterMap (Act.throttled st.sys.now) ++ (s.step st).calls sts := by
      rw [calls, Daemon.gained_eq ht]
    rw [hcalls]
    exact Limiter.obeys_append.mpr ⟨_, ho, ih (s.step st)⟩

/-- The calls of a run come at the times of its dispatches. -/
theorem mem_calls {c : ℤ × Bool} {sts : List SeatStep} (h : c ∈ s.calls sts) :
    ∃ st ∈ sts, c.1 = st.sys.now := by
  induction sts generalizing s with
  | nil => exact absurd h List.not_mem_nil
  | cons st sts ih =>
    rcases List.mem_append.mp h with h | h
    · obtain ⟨a, -, ha⟩ := List.mem_filterMap.mp h
      exact ⟨st, List.mem_cons_self, Act.throttled_time ha⟩
    · obtain ⟨st', hst', hc⟩ := ih h
      exact ⟨st', List.mem_cons_of_mem _ hst', hc⟩

/-- When time does not go backwards, neither do the times of the calls. -/
theorem calls_sorted {sts : List SeatStep}
    (hmono : (sts.map fun st => st.sys.now).Pairwise (· ≤ ·)) (s : Seat) :
    ((s.calls sts).map Prod.fst).Pairwise (· ≤ ·) := by
  induction sts generalizing s with
  | nil => exact List.Pairwise.nil
  | cons st sts ih =>
    obtain ⟨hle, hmono⟩ := List.pairwise_cons.mp hmono
    have hnow : ∀ t ∈ ((Daemon.gained s (s.step st)).filterMap
        (Act.throttled st.sys.now)).map Prod.fst, t = st.sys.now := by
      intro t ht
      obtain ⟨c, hc, rfl⟩ := List.mem_map.mp ht
      obtain ⟨a, -, ha⟩ := List.mem_filterMap.mp hc
      exact Act.throttled_time ha
    rw [calls, List.map_append]
    refine List.pairwise_append.mpr ⟨?_, ih hmono _, ?_⟩
    · refine List.pairwise_of_forall_mem_list fun t ht t' ht' => ?_
      rw [hnow t ht, hnow t' ht']
    · intro t ht t' ht'
      obtain ⟨c, hc, rfl⟩ := List.mem_map.mp ht'
      obtain ⟨st', hst', hc'⟩ := mem_calls hc
      rw [hnow t ht, hc']
      exact hle _ (List.mem_map_of_mem hst')

/-- The counter stays between zero and the number of calls. -/
theorem always_prevCount (s : Seat) (h₀ : 0 ≤ s.prevCount) (sts : List SeatStep) :
    Always step (fun t => 0 ≤ t.prevCount ∧ t.prevCount ≤ s.prevCount + (s.calls sts).length)
      s sts := by
  induction sts generalizing s with
  | nil => exact ⟨h₀, by simp [calls]⟩
  | cons st sts ih =>
    obtain ⟨acts, ht, ho⟩ := step_limits s st
    obtain ⟨hpos, hle⟩ := ho.count h₀
    have hlength : ((s.calls (st :: sts)).length : ℤ) =
        (acts.filterMap (Act.throttled st.sys.now)).length + ((s.step st).calls sts).length := by
      rw [calls, Daemon.gained_eq ht, List.length_append]
      push_cast
      rfl
    simp only [limiter] at hpos hle
    refine ⟨⟨h₀, by omega⟩, (ih (s.step st) hpos).imp fun t ht => ⟨ht.1, ?_⟩⟩
    have hlast := ht.2
    omega

/-- **Relogin throttle**: in every run of a new seat with fewer than `2^31` calls
of `tlm_seat_create_session` on the free seat, at times that do not go
backwards, the counter stays within its 32 bits; of calls less than a second
apart at most three get through, and of a whole such burst exactly the first
three; every window shorter than a second has at most three that get through;
and a call at least a second after the last one is not put off. -/
theorem run_throttle (id : String) (sts : List SeatStep)
    (hmono : (sts.map fun st => st.sys.now).Pairwise (· ≤ ·))
    (hfew : ((Seat.new id).calls sts).length < 2 ^ 31) :
    let cs := (Seat.new id).calls sts
    Always step (fun s => 0 ≤ s.prevCount ∧ s.prevCount < 2 ^ 31) (Seat.new id) sts ∧
    (∀ pre burst post, cs = pre ++ burst ++ post →
      (burst.map Prod.fst).IsChain (Limiter.Close 1000000) →
        Limiter.passed burst ≤ 3 ∧
        ((∀ c ∈ pre.getLast?, ∀ d ∈ burst.head?, 1000000 ≤ d.1 - c.1) →
          ∀ i (hi : i < burst.length), (burst[i]).2 = false ↔ i < 3)) ∧
    (∀ a b, b - a < 1000000 → Limiter.passed (Limiter.window a b cs) ≤ 3) ∧
    ∀ pre c d post, cs = pre ++ c :: d :: post → 1000000 ≤ d.1 - c.1 → d.2 = false := by
  intro cs
  have hobeys : Limiter.Obeys 1000000 3 (Seat.new id).limiter cs
      ((Seat.new id).run sts).limiter := run_obeys (Seat.new id) sts
  have hzero : (Seat.new id).limiter.count = 0 := rfl
  refine ⟨?_, ?_, ?_, ?_⟩
  · refine (always_prevCount (Seat.new id) (le_refl _) sts).imp fun s hs => ⟨hs.1, ?_⟩
    have hle : s.prevCount ≤ 0 + ((Seat.new id).calls sts).length := hs.2
    omega
  · intro pre burst post hsplit hclose
    rw [hsplit] at hobeys
    obtain ⟨m', hobeys, -⟩ := Limiter.obeys_append.mp hobeys
    obtain ⟨m, hpre, hburst⟩ := Limiter.obeys_append.mp hobeys
    have hcount : 0 ≤ m.count := (hpre.count hzero.ge).1
    refine ⟨Limiter.burst_passed hburst hcount (by decide) hclose, fun hpause i hi => ?_⟩
    have hfresh : m.count = 0 ∨ ∀ d ∈ burst.head?, 1000000 ≤ d.1 - m.last := by
      rcases List.eq_nil_or_concat' pre with rfl | ⟨pre', c, rfl⟩
      · exact Or.inl (by rw [Limiter.obeys_nil.mp hpre, hzero])
      · refine Or.inr fun d hd => ?_
        rw [hpre.last]
        exact hpause c (by simp) d hd
    rw [Limiter.burst_exact hburst (by decide) hfresh hclose i hi]
    omega
  · intro a b hab
    exact Limiter.window_passed hobeys hzero.ge (by decide) hab (calls_sorted hmono _)
  · intro pre c d post hsplit hwait
    rw [hsplit] at hobeys
    exact Limiter.pause hobeys hwait

/-- Four logins at once, on a system that spawns no child. -/
def spinning : List SeatStep :=
  List.replicate 4 ⟨Config.empty, { now := 7, spawns := false }, .createSession {}⟩

theorem run_throttle_spinning :
    (Seat.new "seat0").calls spinning = [(7, false), (7, false), (7, false), (7, true)] ∧
      Limiter.passed (Limiter.window 0 10 ((Seat.new "seat0").calls spinning)) ≤ 3 := by
  have hcalls : (Seat.new "seat0").calls spinning =
      [(7, false), (7, false), (7, false), (7, true)] := by decide
  refine ⟨hcalls, (run_throttle "seat0" spinning (by decide) ?_).2.2.1 0 10 (by decide)⟩
  rw [hcalls]
  decide

end Seat

end Tlm
