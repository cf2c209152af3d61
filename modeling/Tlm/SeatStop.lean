import Tlm.SeatInvariant

/-!
# What a seat keeps

Three facts about a seat survive whatever its users do to it, and the manager
relies on them when it stops: the seat keeps its id, the stop handler once
connected **stays** connected, and every delay closure has a reference of its
own (`Endures`). So a seat in the manager's table is never disposed of by
somebody else: besides those of its closures there is the reference of the
table (`step_held`).
-/

namespace Tlm

namespace Seat

variable {s s' s'' : Seat}

/-- The seat is the same one, as firmly stopped, and references were taken and
dropped only together with delay closures. -/
structure Endures (s s' : Seat) : Prop where
  id : s'.id = s.id
  stopHandlers : s'.stopHandlers = s.stopHandlers
  refs : s'.refs + s.closures.length = s.refs + s'.closures.length

theorem Endures.refl (s : Seat) : Endures s s := ⟨rfl, rfl, rfl⟩

theorem Endures.trans (h₁ : Endures s s') (h₂ : Endures s' s'') : Endures s s'' := by
  refine ⟨h₂.id.trans h₁.id, h₂.stopHandlers.trans h₁.stopHandlers, ?_⟩
  have h₁' := h₁.refs
  have h₂' := h₂.refs
  omega

theorem startSession_endures (cfg : Config) (sys : Sys) (args : LoginArgs) (s : Seat) :
    Endures s (s.startSession cfg sys args).1 := by
  obtain ⟨du, da, acts, -, hsel⟩ := selectUser_frame cfg args s
  rcases startSession_cases cfg sys args s with ⟨-, ss, -, heq⟩ | ⟨-, heq⟩ | ⟨-, uid, -, heq⟩
  all_goals
    rw [heq, hsel]
    exact ⟨rfl, rfl, rfl⟩

theorem createSession_endures (cfg : Config) (sys : Sys) (args : LoginArgs) (s : Seat) :
    Endures s (s.createSession cfg sys args).1 := by
  rcases createSession_cases cfg sys args s with ⟨-, heq⟩ | ⟨-, -, c, heq⟩ | ⟨-, -, c, heq⟩
  · rw [heq]
    exact ⟨rfl, rfl, rfl⟩
  · rw [heq]
    refine ⟨rfl, rfl, ?_⟩
    simp only [List.length_append, List.length_singleton]
    omega
  · rw [heq]
    obtain ⟨hid, hstop, hrefs⟩ :=
      startSession_endures cfg sys args { s with prevTime := sys.now, prevCount := c }
    exact ⟨hid, hstop, hrefs⟩

theorem terminateSession_endures (s : Seat) : Endures s s.terminateSession.1 := by
  obtain ⟨acts, -, ⟨x, -, -, heq⟩ | ⟨-, heq⟩⟩ := terminateSession_cases s
  all_goals
    rw [heq]
    exact ⟨rfl, rfl, rfl⟩

theorem switchUser_endures (cfg : Config) (sys : Sys) (args : LoginArgs) (s : Seat) :
    Endures s (s.switchUser cfg sys args).1 := by
  rcases switchUser_cases cfg sys args s with ⟨-, heq⟩ | ⟨-, -, heq⟩ | ⟨-, -, heq⟩
  · rw [heq]
    exact Endures.refl s
  · rw [heq]
    exact createSession_endures cfg sys args s
  · rw [heq]
    obtain ⟨hid, hstop, hrefs⟩ := terminateSession_endures (s.withNext args)
    exact ⟨hid, hstop, hrefs⟩

/-! ## Events of a session handle -/

theorem closeActiveSession_endures (s : Seat) (x : SessionRef) :
    Endures s (s.closeActiveSession x) := by
  obtain ⟨ss, acts, heq⟩ := closeActiveSession_frame s x
  rw [heq]
  exact ⟨rfl, rfl, rfl⟩

theorem clearDbusObserver_endures (s : Seat) : Endures s s.clearDbusObserver := by
  obtain ⟨acts, heq⟩ := clearDbusObserver_eq s
  rw [heq]
  exact ⟨rfl, rfl, rfl⟩

theorem clearPrevDbusObserver_endures (s : Seat) : Endures s s.clearPrevDbusObserver := by
  obtain ⟨acts, heq⟩ := clearPrevDbusObserver_eq s
  rw [heq]
  exact ⟨rfl, rfl, rfl⟩

theorem emit_endures (s : Seat) (a : Act) : Endures s (s.emit a) := ⟨rfl, rfl, rfl⟩

theorem handleSessionTerminated_endures (cfg : Config) (sys : Sys) (x : SessionRef) (s : Seat) :
    Endures s (s.handleSessionTerminated cfg sys x) := by
  have hclosed := (closeActiveSession_endures s x).trans (emit_endures _ .sessionTerminated)
  have hcleared := hclosed.trans (clearDbusObserver_endures _)
  simp only [handleSessionTerminated, terminated]
  split
  · exact ⟨hclosed.id, hclosed.stopHandlers, hclosed.refs⟩
  · split
    · exact hcleared.trans (emit_endures _ .killGroup)
    · split
      · obtain ⟨hid, hstop, hrefs⟩ := (hcleared.trans (emit_endures _ (.relogin x))).trans
          (createSession_endures cfg sys
            ((s.closeActiveSession x).emit .sessionTerminated).clearDbusObserver.next _)
        exact ⟨hid, hstop, hrefs⟩
      · exact hcleared

theorem runHandler_endures (cfg : Config) (sys : Sys) (x : SessionRef) (g : SessionSignal)
    (s : Seat) : Endures s (s.runHandler cfg sys x g) := by
  cases g with
  | created => exact (emit_endures s .sessionCreated).trans (clearPrevDbusObserver_endures _)
  | terminated => exact handleSessionTerminated_endures cfg sys x s
  | error code =>
    have hemit := emit_endures s (.sessionError code)
    simp only [runHandler, handleError]
    split
    · exact (hemit.trans (closeActiveSession_endures _ x)).trans (clearDbusObserver_endures _)
    · exact hemit

/-- What every step of a fold keeps. -/
theorem foldl_endures {α : Type} {f : Seat → α → Seat} (hf : ∀ s a, Endures s (f s a))
    (l : List α) (s : Seat) : Endures s (l.foldl f s) := by
  induction l generalizing s with
  | nil => exact Endures.refl s
  | cons a l ih => exact (hf s a).trans (ih (f s a))

theorem released_endures (x : SessionRef) (s : Seat) : Endures s (s.released x) := by
  obtain ⟨ss, heq, -⟩ := released_frame x s
  rw [heq]
  exact ⟨rfl, rfl, rfl⟩

theorem sessionEvent_endures (cfg : Config) (sys : Sys) (x : SessionRef) (e : SessionEvent)
    (s : Seat) : Endures s (s.sessionEvent cfg sys x e) := by
  have hdeliver : ∀ (s : Seat) (g : SessionSignal), Endures s (s.deliver cfg sys x g) := by
    intro s g
    refine foldl_endures (fun s k => ?_) _ s
    split
    · exact runHandler_endures cfg sys x g s
    · exact Endures.refl s
  have hset : Endures s (s.setSession x ((s.sessions.get x).handle e).1) := ⟨rfl, rfl, rfl⟩
  have hemission : Endures s (s.emission cfg sys x e) :=
    hset.trans (foldl_endures hdeliver ((s.sessions.get x).handle e).2 _)
  simp only [sessionEvent]
  split
  · exact hemission.trans (released_endures x _)
  · exact hemission

/-! ## One dispatch -/

/-- Dropping a reference forgets neither the id nor the stop handlers. -/
theorem unref_frame (s : Seat) :
    s.unref.id = s.id ∧ s.unref.stopHandlers = s.stopHandlers ∧ s.unref.refs = s.refs - 1 ∧
      s.unref.closures = s.closures := by
  rcases unref_cases s with ⟨-, heq⟩ | ⟨hle, ss, acts, heq⟩
  · rw [heq]
    exact ⟨rfl, rfl, rfl, rfl⟩
  · rw [heq]
    exact ⟨rfl, rfl, (by simp only; omega), rfl⟩

/-- A delay closure that fires gives its reference back. -/
theorem delayedSession_frame (cfg : Config) (sys : Sys) (k : ℕ) (s : Seat) :
    (s.delayedSession cfg sys k).id = s.id ∧
      (s.delayedSession cfg sys k).stopHandlers = s.stopHandlers ∧
      (s.closures.length < s.refs →
        (s.delayedSession cfg sys k).closures.length < (s.delayedSession cfg sys k).refs) := by
  simp only [delayedSession]
  split
  · exact ⟨rfl, rfl, fun h => h⟩
  · rename_i args hk
    obtain ⟨hid, hstop, hrefs⟩ :=
      createSession_endures cfg sys args { s with closures := s.closures.eraseIdx k }
    obtain ⟨hid', hstop', hrefs', hclosures'⟩ :=
      unref_frame ({ s with closures := s.closures.eraseIdx k }.createSession cfg sys args).1
    refine ⟨hid'.trans hid, hstop'.trans hstop, fun h => ?_⟩
    rw [hrefs', hclosures']
    obtain ⟨hlt, -⟩ := List.getElem?_eq_some_iff.mp hk
    have hlen : (s.closures.eraseIdx k).length = s.closures.length - 1 :=
      List.length_eraseIdx_of_lt hlt
    simp only [hlen] at hrefs
    omega

/-- How many stop handlers a dispatch connects. -/
def connects (s : Seat) (ev : SeatEvent) : ℕ := if ev = .connectStop ∧ s.refs ≠ 0 then 1 else 0

/-- Whatever happens to a seat, it keeps its id, and stop handlers are only
connected. -/
theorem step_frame (s : Seat) (st : SeatStep) :
    (s.step st).id = s.id ∧
      (s.step st).stopHandlers = s.stopHandlers + s.connects st.event := by
  simp only [step, connects]
  split
  · rename_i h
    exact ⟨rfl, by simp [h]⟩
  · rename_i h
    have hplain : ∀ {t : Seat} {ev : SeatEvent}, Endures s t → ev ≠ .connectStop →
        t.id = s.id ∧ t.stopHandlers =
          s.stopHandlers + if ev = .connectStop ∧ s.refs ≠ 0 then 1 else 0 := by
      intro t ev ht hne
      rw [if_neg fun hc => hne hc.1]
      exact ⟨ht.id, ht.stopHandlers⟩
    simp only [dispatch]
    cases he : st.event with
    | createSession args =>
      exact hplain (createSession_endures st.cfg st.sys args s) (by simp)
    | switchUser args =>
      exact hplain (switchUser_endures st.cfg st.sys args s) (by simp)
    | terminateSession =>
      exact hplain (terminateSession_endures s) (by simp)
    | delayedSession k =>
      obtain ⟨hid, hstop, -⟩ := delayedSession_frame st.cfg st.sys k s
      exact ⟨hid, by simp [hstop]⟩
    | session x e =>
      exact hplain (sessionEvent_endures st.cfg st.sys x e s) (by simp)
    | connectStop => exact ⟨rfl, by simp [h]⟩
    | ref => exact ⟨rfl, by simp⟩
    | unref =>
      obtain ⟨hid, hstop, -⟩ := unref_frame s
      exact ⟨hid, by simp [hstop]⟩

theorem run_id (id : String) (sts : List SeatStep) : ((Seat.new id).run sts).id = id := by
  have hnew : (Seat.new id).id = id := rfl
  have halways : Always step (fun s => s.id = id) (Seat.new id) sts :=
    always_of_step (fun s st _ hid => (step_frame s st).1.trans hid) hnew fun _ hst => hst
  exact halways.last

/-- Besides those of its delay closures somebody has a reference to the seat. -/
def IsHeld (s : Seat) : Prop := s.closures.length < s.refs

theorem IsHeld.refs_ne_zero (h : s.IsHeld) : s.refs ≠ 0 := Nat.ne_of_gt (Nat.zero_lt_of_lt h)

theorem IsHeld.endures (h : s.IsHeld) (h' : Endures s s') : s'.IsHeld := by
  have hrefs := h'.refs
  simp only [IsHeld] at h ⊢
  omega

/-- That reference is not dropped by anybody else. -/
theorem step_held (h : s.IsHeld) {st : SeatStep} (hst : st.event ≠ .unref) :
    (s.step st).IsHeld := by
  simp only [step]
  rw [if_neg h.refs_ne_zero]
  simp only [dispatch]
  cases he : st.event with
  | createSession args => exact h.endures (createSession_endures st.cfg st.sys args s)
  | switchUser args => exact h.endures (switchUser_endures st.cfg st.sys args s)
  | terminateSession => exact h.endures (terminateSession_endures s)
  | delayedSession k => exact (delayedSession_frame st.cfg st.sys k s).2.2 h
  | session x e => exact h.endures (sessionEvent_endures st.cfg st.sys x e s)
  | connectStop => exact h
  | ref => exact Nat.lt_succ_of_lt h
  | unref => exact absurd he hst

end Seat

end Tlm
