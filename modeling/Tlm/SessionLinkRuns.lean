import Tlm.SessionLinkTalk

/-!
# A link runs the two machines it is made of

What was shown of a handle that hears anything in any order (`Remote.step`), and of a
session that is called by anybody (`Session.run`), holds of the two at the ends of a
link: each step of the link is at most one step of either, and what the session is
started with is what the process records. A session process uses the machine of its
session sparingly: the daemon asks for an end by signals alone, so nothing ever calls
`tlm_session_terminate` over the bus.
-/

namespace Tlm

/-- What a start is called with. -/
def SessionInput.args (i : SessionInput) : Option StartArgs :=
  match i.event with
  | .start _ _ args => some args
  | _ => none

namespace SessionLink

variable {restores : Bool} {l : SessionLink}

/-- At most one step of the handle. -/
def HandleStep (r r' : Remote) : Prop := r' = r ∨ ∃ st, r' = r.step st

theorem step_handleStep (st : LinkStep) : HandleStep l.daemon (l.step restores st).daemon := by
  by_cases hnear : Elsewhere st
  · exact .inl (step_elsewhere hnear)
  · obtain ⟨ms, -, heq | ⟨rst, -, heq⟩⟩ := step_near restores l hnear
    · exact .inl (by rw [heq])
    · exact .inr ⟨rst, by rw [heq, (act_daemon rst).1]⟩

/-- At most one step of the session, with the start it is, if it is one; none is a call
of `tlm_session_terminate`. -/
def SessionMove (p q : Sessiond) : Prop :=
  q.session = p.session ∧ q.starts = p.starts ∨
    ∃ i : SessionInput, q.session = p.session.step i ∧ q.starts = p.starts ++ i.args.toList ∧
      i.event ≠ .terminate

theorem FarStep.sessionMove {x y : Channel LinkCall × List LinkMessage × Sessiond}
    (hstep : FarStep x y) : SessionMove x.2.2 y.2.2 := by
  cases hstep with
  | none => exact .inl ⟨rfl, rfl⟩
  | boot cs ms p hphase => exact .inl ⟨rfl, rfl⟩
  | die cs ms p hphase => exact .inl ⟨rfl, rfl⟩
  | serve cs ms p cfg host c rest hc hrun =>
    cases c with
    | sessionCreate password environment => exact .inr ⟨⟨host.pam, .start cfg host _⟩, rfl, rfl, by simp⟩
    | setSeatid value => exact .inl ⟨rfl, rfl⟩
    | setService value => exact .inl ⟨rfl, rfl⟩
    | setUsername value => exact .inl ⟨rfl, rfl⟩
  | dispose cs ms p pam hrun =>
    exact .inr ⟨⟨pam, .dispose⟩, rfl, (List.append_nil _).symm, by simp⟩
  | sessionTick cs ms p pam source =>
    simp only [Sessiond.terminateTimeout]
    split
    · exact .inr ⟨⟨pam, .terminateTimeout source⟩, rfl, (List.append_nil _).symm, by simp⟩
    · exact .inl ⟨rfl, rfl⟩
  | childDown cs ms p pam w =>
    simp only [Sessiond.childDown]
    split
    · exact .inr ⟨⟨pam, .childDown w⟩, rfl, (List.append_nil _).symm, by simp⟩
    · exact .inl ⟨rfl, rfl⟩
  | exit cs ms p =>
    simp only [Sessiond.exit]
    split <;> exact .inl ⟨rfl, rfl⟩
  | userExits cs ms p => exact .inl ⟨rfl, rfl⟩

theorem step_sessionMove (st : LinkStep) :
    SessionMove l.sessiond (l.step restores st).sessiond := by
  by_cases hst : ∃ sig k, st = .deliver sig k
  · obtain ⟨sig, k, rfl⟩ := hst
    rw [deliver_sessiond]
    split
    · obtain heq | heq | ⟨term, hup, heq⟩ := Sessiond.deliver_cases l.sessiond restores sig
      all_goals exact .inl (by rw [heq]; exact ⟨rfl, rfl⟩)
    · exact .inl ⟨rfl, rfl⟩
  · exact (step_farStep restores l st fun sig k heq => hst ⟨sig, k, heq⟩).sessionMove

/-- The two machines a link runs, and how far each has come. -/
structure Runs (first l : SessionLink) (rs : List RemoteStep) (is : List SessionInput) : Prop where
  /-- the handle -/
  daemon : l.daemon = rs.foldl Remote.step first.daemon
  /-- the session -/
  session : l.sessiond.session = Session.run {} is
  /-- what the session was started with -/
  starts : l.sessiond.starts = is.filterMap SessionInput.args
  /-- it is not asked over the bus to terminate -/
  unasked : ∀ i ∈ is, i.event ≠ .terminate

/-- **A link runs a handle and a session.** -/
theorem run_machines (restores : Bool) (seatid service : String) (username : Option String)
    (creation : Option Creation) (sts : List LinkStep) :
    Always (step restores)
      (fun l => ∃ rs is, Runs (new seatid service username creation) l rs is)
      (new seatid service username creation) sts := by
  refine always_of_step (E := fun _ => True) ?_ ⟨[], [], rfl, rfl, rfl, by simp⟩ (fun _ _ => trivial)
  rintro l st - ⟨rs, is, hdaemon, hsession, hstarts, hunasked⟩
  obtain ⟨rs', hdaemon'⟩ : ∃ rs' : List RemoteStep, (l.step restores st).daemon =
      rs'.foldl Remote.step (new seatid service username creation).daemon := by
    obtain heq | ⟨rst, heq⟩ := step_handleStep (l := l) st
    · exact ⟨rs, heq.trans hdaemon⟩
    · exact ⟨rs ++ [rst], by rw [heq, hdaemon, List.foldl_append]; rfl⟩
  obtain ⟨hsame, hsame'⟩ | ⟨i, hmove, hargs, hi⟩ := step_sessionMove (l := l) st
  · exact ⟨rs', is, hdaemon', hsame.trans hsession, hsame'.trans hstarts, hunasked⟩
  · refine ⟨rs', is ++ [i], hdaemon', ?_, ?_, ?_⟩
    · rw [hmove, hsession, Session.run, Session.run, List.foldl_append]
      rfl
    · rw [hargs, hstarts, List.filterMap_append]
      cases hi' : i.args <;> simp [hi']
    · intro j hj
      obtain hj | hj := List.mem_append.mp hj
      · exact hunasked j hj
      · rw [List.mem_singleton.mp hj]
        exact hi

end SessionLink

end Tlm
