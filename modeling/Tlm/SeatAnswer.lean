import Tlm.SeatLogin

/-!
# How a seat answers a request

The outcome of `tlm_seat_create_session`, `tlm_seat_switch_user` and
`tlm_seat_terminate_session` leaves a seat by two channels: the value they
return, and the signal `session-error`. `CanCreate` and `CanTerminate` say when
the value is `TRUE`; `Reports` says how the two channels go together. They agree
in creation and termination — silence for success, one error for a refusal — but
a switch that fails its pre-check returns `FALSE` and signals **nothing**.
-/

namespace Tlm

/-- An act that no observer hears, unless it is its own creation. -/
def Act.isQuiet : Act → Bool
  | .sessionCreated => false
  | .sessionTerminated => false
  | .sessionError _ => false
  | .observerDispose _ => false
  | _ => true

/-- Silence, or one error among acts nobody hears. -/
def Reports (ok : Bool) (acts : List Act) : Prop :=
  (ok = true ∧ ∀ a ∈ acts, a.isQuiet = true) ∨
    (ok = false ∧ ∃ pre code post, acts = pre ++ .sessionError code :: post ∧
      (∀ a ∈ pre, a.isQuiet = true) ∧ ∀ a ∈ post, a.isQuiet = true)

theorem Reports.append {ok : Bool} {acts acts' : List Act} (h : Reports ok acts')
    (hq : ∀ a ∈ acts, a.isQuiet = true) : Reports ok (acts ++ acts') := by
  have happend : ∀ l, (∀ a ∈ l, a.isQuiet = true) → ∀ a ∈ acts ++ l, a.isQuiet = true := by
    intro l hl a ha
    rcases List.mem_append.mp ha with ha | ha
    · exact hq a ha
    · exact hl a ha
  rcases h with ⟨hok, h⟩ | ⟨hok, pre, code, post, rfl, hpre, hpost⟩
  · exact Or.inl ⟨hok, happend _ h⟩
  · exact Or.inr ⟨hok, acts ++ pre, code, post, (List.append_assoc ..).symm, happend _ hpre, hpost⟩

namespace Seat

variable {cfg : Config} {sys : Sys} {args : LoginArgs} {s : Seat}

/-- `tlm_seat_create_session` returns `TRUE`: the seat is free, and the call is
put off or everything comes up. -/
def CanCreate (cfg : Config) (sys : Sys) (args : LoginArgs) (s : Seat) : Prop :=
  s.session = none ∧ ((s.throttle sys).2 = true ∨ CanStart sys (s.loginUser cfg args))

/-- `tlm_seat_terminate_session` returns `TRUE`: there is a session, and its
sessiond is up. -/
def CanTerminate (s : Seat) : Prop :=
  ∃ x, s.session = some x ∧ (s.sessions.get x).isSessiondUp = true

/-- An operation that leads from `s` to `s'` with this result: it keeps the
references to the seat, and reports what it returns. -/
def Answers (s s' : Seat) (ok : Bool) : Prop :=
  s.refs ≤ s'.refs ∧ ∃ acts, s'.trace = s.trace ++ acts ∧ Reports ok acts

theorem startSession_answers (cfg : Config) (sys : Sys) (args : LoginArgs) (s : Seat) :
    s.Answers (s.startSession cfg sys args).1 (s.startSession cfg sys args).2 := by
  obtain ⟨du, da, acts, hacts, hsel⟩ := selectUser_frame cfg args s
  have hquiet : ∀ a ∈ acts, a.isQuiet = true := by
    intro a ha
    obtain ⟨u, rfl⟩ := hacts a ha
    rfl
  have hrefs : (s.selectUser cfg args).refs = s.refs := by rw [hsel]
  have htrace : (s.selectUser cfg args).trace = s.trace ++ acts := by rw [hsel]
  rcases startSession_cases cfg sys args s with ⟨-, ss, -, heq⟩ | ⟨-, heq⟩ | ⟨-, uid, -, heq⟩
  · rw [heq]
    refine ⟨hrefs.ge, _, by rw [htrace, List.append_assoc], Reports.append ?_ hquiet⟩
    exact Or.inr ⟨rfl, [], _, _, rfl, by simp, by simp [Act.isQuiet]⟩
  · rw [heq]
    refine ⟨hrefs.ge, _, by rw [htrace, List.append_assoc], Reports.append ?_ hquiet⟩
    exact Or.inr ⟨rfl, [], _, _, rfl, by simp, by simp [Act.isQuiet]⟩
  · rw [heq]
    refine ⟨hrefs.ge, _, by rw [htrace, List.append_assoc], Reports.append ?_ hquiet⟩
    exact Or.inl ⟨rfl, by simp [Act.isQuiet]⟩

theorem createSession_answers (cfg : Config) (sys : Sys) (args : LoginArgs) (s : Seat) :
    s.Answers (s.createSession cfg sys args).1 (s.createSession cfg sys args).2 := by
  rcases createSession_cases cfg sys args s with ⟨-, heq⟩ | ⟨-, -, c, heq⟩ | ⟨-, -, c, heq⟩
  · rw [heq]
    exact ⟨le_refl _, _, rfl, Or.inr ⟨rfl, [], _, _, rfl, by simp, by simp [Act.isQuiet]⟩⟩
  · rw [heq]
    exact ⟨Nat.le_succ _, _, rfl, Or.inl ⟨rfl, by simp [Act.isQuiet]⟩⟩
  · rw [heq]
    exact startSession_answers cfg sys args { s with prevTime := sys.now, prevCount := c }

theorem terminateSession_answers (s : Seat) :
    s.Answers s.terminateSession.1 s.terminateSession.2 := by
  obtain ⟨acts, hacts, h⟩ := terminateSession_cases s
  have hquiet : ∀ a ∈ acts, a.isQuiet = true := by
    rcases hacts with rfl | rfl <;> simp [Act.isQuiet]
  rcases h with ⟨x, -, -, heq⟩ | ⟨-, heq⟩
  · rw [heq]
    exact ⟨le_refl _, acts, rfl, Or.inl ⟨rfl, hquiet⟩⟩
  · rw [heq]
    refine ⟨le_refl _, _, List.append_assoc .., Reports.append ?_ hquiet⟩
    exact Or.inr ⟨rfl, [], _, [], rfl, by simp, by simp⟩

/-- When a call of `tlm_seat_create_session` is accepted. -/
theorem createSession_ok (cfg : Config) (sys : Sys) (args : LoginArgs) (s : Seat) :
    (s.createSession cfg sys args).2 = true ↔ s.CanCreate cfg sys args := by
  rcases createSession_cases cfg sys args s with
    ⟨hs, heq⟩ | ⟨hs, hth, c, heq⟩ | ⟨hs, hth, c, heq⟩
  · rw [heq]
    refine ⟨fun h => (by cases h), fun h => ?_⟩
    rw [h.1] at hs
    cases hs
  · rw [heq]
    exact ⟨fun _ => ⟨hs, Or.inl hth⟩, fun _ => rfl⟩
  · have hlogin : ({ s with prevTime := sys.now, prevCount := c } : Seat).loginUser cfg args =
        s.loginUser cfg args := loginUser_congr rfl rfl rfl
    have hcan : s.CanCreate cfg sys args ↔ CanStart sys (s.loginUser cfg args) := by
      simp only [CanCreate]
      rw [hth]
      simp [hs]
    rw [heq, hcan, ← hlogin]
    rcases startSession_cases cfg sys args { s with prevTime := sys.now, prevCount := c } with
      ⟨hn, ss, -, heq'⟩ | ⟨hn, heq'⟩ | ⟨hc, uid, -, heq'⟩
    · rw [heq']
      exact ⟨fun h => (by cases h), fun h => absurd h hn⟩
    · rw [heq']
      exact ⟨fun h => (by cases h), fun h => absurd h hn⟩
    · rw [heq']
      exact ⟨fun _ => hc, fun _ => rfl⟩

/-- When a call of `tlm_seat_terminate_session` is accepted. -/
theorem terminateSession_ok (s : Seat) : s.terminateSession.2 = true ↔ s.CanTerminate := by
  obtain ⟨acts, -, ⟨x, hx, hup, heq⟩ | ⟨hdown, heq⟩⟩ := terminateSession_cases s
  · rw [heq]
    exact ⟨fun _ => ⟨x, hx, hup⟩, fun _ => rfl⟩
  · rw [heq]
    refine ⟨fun h => (by cases h), ?_⟩
    rintro ⟨x, hx, hup⟩
    rw [hdown x hx] at hup
    cases hup

/-- When a call of `tlm_seat_switch_user` is accepted. -/
theorem switchUser_ok (cfg : Config) (sys : Sys) (args : LoginArgs) (s : Seat) :
    (s.switchUser cfg sys args).2 = true ↔
      authenticateUser cfg sys args.username args.password = true ∧
        (s.CanCreate cfg sys args ∨ s.CanTerminate) := by
  rcases switchUser_cases cfg sys args s with ⟨ha, heq⟩ | ⟨ha, hs, heq⟩ | ⟨ha, hs, heq⟩
  · rw [heq, ha]
    simp
  · rw [heq, createSession_ok, ha]
    have hno : ¬ s.CanTerminate := by
      rintro ⟨x, hx, -⟩
      rw [hs] at hx
      cases hx
    simp [hno]
  · rw [heq, terminateSession_ok, ha]
    have hno : ¬ s.CanCreate cfg sys args := by
      rintro ⟨hn, -⟩
      rw [hn] at hs
      cases hs
    simp [hno, CanTerminate, withNext]

/-- A switch reports like the others once it has passed its pre-check. -/
theorem switchUser_answers (cfg : Config) (sys : Sys) (args : LoginArgs) (s : Seat)
    (ha : authenticateUser cfg sys args.username args.password = true) :
    s.Answers (s.switchUser cfg sys args).1 (s.switchUser cfg sys args).2 := by
  rcases switchUser_cases cfg sys args s with ⟨ha', -⟩ | ⟨-, -, heq⟩ | ⟨-, -, heq⟩
  · rw [ha] at ha'
    cases ha'
  · rw [heq]
    exact createSession_answers cfg sys args s
  · rw [heq]
    exact terminateSession_answers (s.withNext args)

end Seat

end Tlm
