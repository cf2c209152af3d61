import Tlm.SeatLogin
import Tlm.Session

/-!
# The pre-check of a switch, and the login it is to predict

A switch ends the running session only for credentials that PAM accepts: the
comment in `tlm_seat_switch_user` says so, and `tlm_authenticate_user` is there to
see to it. But it asks under the service `General/PAM_SERVICE`, or `system-auth`,
while the session that follows authenticates under the service of the request, of
the seat, of `General`, or `tlm-login` — and, on a seat where the default user is
still active, for that user.

PAM is a function of service, user and password here (`auth`), the same for both.
`switch_predicts_iff`: the pre-check predicts the login of every such function
exactly when the two services are the same and the user is the one that was asked
for.
-/

namespace Tlm

/-- What the daemon's handle makes its process start: its properties, and the
arguments of `tlm_session_remote_create`. -/
def SessionRemote.startArgs (m : SessionRemote) (password : Option String)
    (environment : Option Environment) : StartArgs :=
  { seatId := some m.seatid, service := some m.service, username := m.username
    password := some (password.getD ""), environment := some (environment.getD []) }

/-- The outcome of `pam_authenticate` in `tlm_session_start`, with PAM a function
of what `tlm_auth_session_new` is given. -/
def StartArgs.accepted (auth : String → String → String → Bool) (args : StartArgs) : Bool :=
  match args.service, args.username with
  | some service, some username =>
    match AuthSession.new {} service username args.password none with
    | some a => auth a.service a.username (a.password.getD "")
    | none => false
  | _, _ => false

namespace Seat

variable {cfg : Config} {sys : Sys} {args : LoginArgs} {s t : Seat} {u p : String}

/-- What a switch leads to: the seat behind the switch itself where there was no
session, behind the end of the session where there was one, and behind the timers
of a login that was put off. -/
inductive SwitchLeads (cfg : Config) (auth : String → String → String → Bool) (args : LoginArgs)
    (s : Seat) : Seat → Prop
  | switched (sys : Sys) (hsys : sys.pam = auth) (hs : s.session = none) :
    SwitchLeads cfg auth args s (s.switchUser cfg sys args).1
  | ended (sys sys' : Sys) (hsys : sys.pam = auth) (x : SessionRef) (hs : s.session = some x) :
    SwitchLeads cfg auth args s
      ((s.switchUser cfg sys args).1.handleSessionTerminated cfg sys' x)
  | delayed {t : Seat} (sys : Sys) (h : SwitchLeads cfg auth args s t)
    (hput : s.closures.length < t.closures.length) :
    SwitchLeads cfg auth args s (t.delayedSession cfg sys s.closures.length)

/-- The service of the pre-check. -/
def precheckService (cfg : Config) : String :=
  (cfg.getString (some Config.general) "PAM_SERVICE").getD "system-auth"

/-- Credentials that pass the pre-check are accepted by every login the switch
leads to. -/
def Predicts (cfg : Config) (auth : String → String → String → Bool) (args : LoginArgs)
    (s : Seat) : Prop :=
  authenticateUser cfg { pam := auth } args.username args.password = true →
    ∀ t, SwitchLeads cfg auth args s t → ∀ x, t.session = some x →
      ((t.sessions.get x).startArgs args.password args.environment).accepted auth = true

/-- Pre-check and login agree: on the service, if the switch comes to a login, and
on the user. -/
def Agrees (cfg : Config) (args : LoginArgs) (s : Seat) : Prop :=
  ∀ u p, args.username = some u → args.password = some p →
    match s.session with
    | none => ∀ user, s.sessionUser (some u) = some user →
      precheckService cfg = pamService cfg s.id args ∧ u = user
    | some _ => s.stopHandlers = 0 → cfg.x11Session = false →
      precheckService cfg = pamService cfg s.id args

/-! ## The login of a switch -/

/-- The user the login of a switch is for. -/
def switchedUser (s : Seat) (u : String) : Option String :=
  if s.session.isNone then s.sessionUser (some u) else some u

/-- The seat behind a handler of the switch: a session it has is for the service
and the user of the switch, and so will be one that was put off. -/
structure Behind (cfg : Config) (args : LoginArgs) (u : String) (s t : Seat) : Prop where
  id : t.id = s.id
  closures : t.closures = s.closures ∨ (t.session = none ∧ t.closures = s.closures ++ [args])
  user : t.sessionUser (some u) = s.switchedUser u
  session : ∀ x, t.session = some x → ∃ user, s.switchedUser u = some user ∧
    (t.sessions.get x).service = pamService cfg s.id args ∧
    (t.sessions.get x).username = some user

/-- A call of `tlm_seat_create_session` with the arguments of the switch. -/
theorem createSession_behind (hu : args.username = some u) (ht : t.session = none)
    (hid : t.id = s.id) (hcl : t.closures = s.closures)
    (huser : t.sessionUser (some u) = s.switchedUser u) (cfg : Config) (sys : Sys) :
    Behind cfg args u s (t.createSession cfg sys args).1 := by
  have hnone : ∀ x, t.session = some x → False := by
    intro x hx
    rw [ht] at hx
    cases hx
  rcases createSession_cases cfg sys args t with ⟨hsome, -⟩ | ⟨-, -, c, heq⟩ | ⟨-, -, c, heq⟩
  · rw [ht] at hsome
    cases hsome
  · rw [heq]
    exact ⟨hid, Or.inr ⟨ht, by rw [hcl]⟩, huser, fun x hx => (hnone x hx).elim⟩
  · have hsel : ({ t with prevTime := sys.now, prevCount := c } : Seat).selectUser cfg args =
        { t with prevTime := sys.now, prevCount := c } := selectUser_some hu
    have hcases := startSession_cases cfg sys args { t with prevTime := sys.now, prevCount := c }
    simp only [hsel] at hcases
    rw [heq]
    rcases hcases with ⟨-, ss, -, heq'⟩ | ⟨-, heq'⟩ | ⟨-, uid, huid, heq'⟩
    · rw [heq']
      exact ⟨hid, Or.inl hcl, huser, fun x hx => (hnone x hx).elim⟩
    · rw [heq']
      exact ⟨hid, Or.inl hcl, huser, fun x hx => by cases hx⟩
    · rw [heq']
      refine ⟨hid, Or.inl hcl, huser, fun x hx => ?_⟩
      obtain rfl := Option.some.inj hx
      rw [Store.get_alloc_self]
      obtain ⟨user, hname, -⟩ := Option.bind_eq_some_iff.mp huid
      refine ⟨user, ?_, by rw [← hid]; rfl, hname⟩
      rw [← huser, ← hu]
      exact hname

/-- Dropping a reference may close the session, and does nothing else to it. -/
theorem unref_behind (h : Behind cfg args u s t) : Behind cfg args u s t.unref := by
  rcases unref_cases t with ⟨-, heq⟩ | ⟨-, ss, acts, heq⟩
  · rw [heq]
    exact ⟨h.id, h.closures, h.user, h.session⟩
  · rw [heq]
    exact ⟨h.id, h.closures.imp_right fun hc => ⟨rfl, hc.2⟩, h.user, fun x hx => by cases hx⟩

theorem switchUser_next {x : SessionRef} (sys : Sys) (hs : s.session = some x)
    (hauth : authenticateUser cfg sys args.username args.password = true) :
    ∃ t, (s.switchUser cfg sys args).1 = t ∧ t.next = args ∧ t.id = s.id ∧
      t.closures = s.closures ∧ t.stopHandlers = s.stopHandlers ∧ t.defaultActive = false := by
  rcases switchUser_cases cfg sys args s with ⟨hno, -⟩ | ⟨-, hnone, -⟩ | ⟨-, -, heq⟩
  · rw [hauth] at hno
    cases hno
  · rw [hs] at hnone
    cases hnone
  · rw [heq]
    obtain ⟨acts, -, ⟨y, -, -, hterm⟩ | ⟨-, hterm⟩⟩ := terminateSession_cases (s.withNext args)
    · rw [hterm]
      exact ⟨_, rfl, rfl, rfl, rfl, rfl, rfl⟩
    · rw [hterm]
      exact ⟨_, rfl, rfl, rfl, rfl, rfl, rfl⟩

/-- The switch comes to a login at all. -/
def Comes (cfg : Config) (s : Seat) : Prop :=
  s.session.isSome = true → s.stopHandlers = 0 ∧ cfg.x11Session = false

/-- **What a switch leads to**: whenever it leads to a session, or to one that is put
off, the handle is for the service and the user of the switch. -/
theorem SwitchLeads.behind {auth : String → String → String → Bool} (hu : args.username = some u)
    (hauth : authenticateUser cfg { pam := auth } args.username args.password = true)
    (h : SwitchLeads cfg auth args s t) :
    Behind cfg args u s t ∧
      ((t.session.isSome = true ∨ s.closures.length < t.closures.length) → s.Comes cfg) := by
  have hpre : ∀ sys : Sys, sys.pam = auth →
      authenticateUser cfg sys args.username args.password = true := by
    rintro sys rfl
    exact hauth
  induction h with
  | switched sys hsys hs =>
    rcases switchUser_cases cfg sys args s with ⟨hno, -⟩ | ⟨-, -, heq⟩ | ⟨-, hsome, -⟩
    · rw [hpre sys hsys] at hno
      cases hno
    · rw [heq]
      refine ⟨createSession_behind hu hs rfl rfl ?_ cfg sys, fun _ hsome => ?_⟩
      · simp [switchedUser, hs]
      · rw [hs] at hsome
        cases hsome
    · rw [hs] at hsome
      cases hsome
  | ended sys sys' hsys x hs =>
    obtain ⟨r, hr, hnext, hid, hcl, hstop, hactive⟩ := switchUser_next sys hs (hpre sys hsys)
    have huser : ∀ t : Seat, t.defaultActive = false → t.sessionUser (some u) = s.switchedUser u := by
      intro t ht
      simp [sessionUser, ht, switchedUser, hs]
    obtain ⟨ss, acts, hclosed⟩ := closed_frame r x
    obtain ⟨ss', acts', hclose⟩ := closeActiveSession_frame r x
    rw [hr]
    rcases handleSessionTerminated_eq cfg sys' x r with
      ⟨hrelogs, heq⟩ | ⟨-, ⟨hnone, -⟩ | ⟨-, -, heq⟩ | ⟨-, heq⟩⟩
    · have hcall : Behind cfg args u s
          (((r.closed x).emit (.relogin x)).createSession cfg sys' args).1 := by
        rw [hclosed]
        refine createSession_behind hu ?_ ?_ ?_ (huser _ ?_) cfg sys'
        · rfl
        · exact hid
        · exact hcl
        · exact hactive
      rw [heq, hnext]
      refine ⟨⟨hcall.id, hcall.closures, hcall.user, hcall.session⟩, fun _ _ => ?_⟩
      simp only [relogs, Bool.and_eq_true, beq_iff_eq, Bool.not_eq_true'] at hrelogs
      exact ⟨hstop.symm.trans hrelogs.1.1, hrelogs.1.2⟩
    · -- the seat has just been told its next user
      have hsome : r.nextUser = args.username := congrArg LoginArgs.username hnext
      rw [hnone, hu] at hsome
      cases hsome
    · rw [heq, hclosed]
      refine ⟨⟨hid, Or.inl hcl, huser _ hactive, fun y hy => by cases hy⟩, fun hor => ?_⟩
      simp [emit, hcl] at hor
    · rw [heq, hclose]
      refine ⟨⟨hid, Or.inl hcl, huser _ hactive, fun y hy => by cases hy⟩, fun hor => ?_⟩
      simp [emit, hcl] at hor
  | delayed sys h hput ih =>
    rename_i t
    obtain ⟨hb, hcomes⟩ := ih
    have hgo : s.Comes cfg := hcomes (Or.inr hput)
    rcases hb.closures with hcl | ⟨hnone, hcl⟩
    · rw [hcl] at hput
      exact absurd hput (Nat.lt_irrefl _)
    · have hlast : t.closures[s.closures.length]? = some args := by simp [hcl]
      have herase : t.closures.eraseIdx s.closures.length = s.closures := by
        rw [hcl, List.eraseIdx_append_of_length_le (Nat.le_refl _)]
        simp
      simp only [delayedSession, hlast]
      refine ⟨unref_behind (createSession_behind hu ?_ ?_ ?_ ?_ cfg sys), fun _ => hgo⟩
      · exact hnone
      · exact hb.id
      · exact herase
      · exact hb.user

/-! ## Exactly when -/

/-- A system on which a login goes through at once. -/
def ready (auth : String → String → String → Bool) (now : ℤ) : Sys :=
  { now := now, getUid := fun _ => some 0, pam := auth }

/-- On such a system a call starts a session. -/
theorem createSession_ready {auth : String → String → String → Bool} {now : ℤ} {user : String}
    (hu : args.username = some u) (ht : t.session = none) (hnow : now = t.prevTime + 1000000)
    (huser : t.sessionUser (some u) = some user) :
    (t.createSession cfg (ready auth now) args).1.session.isSome = true := by
  have hth : (t.throttle (ready auth now)).2 = false := by
    have hlate : ¬ (now - t.prevTime < 1000000) := by omega
    simp [throttle, ready, hlate]
  rcases createSession_cases cfg (ready auth now) args t with
    ⟨hsome, -⟩ | ⟨-, hth', -⟩ | ⟨-, -, c, heq⟩
  · rw [ht] at hsome
    cases hsome
  · rw [hth] at hth'
    cases hth'
  · have hsel : ({ t with prevTime := (ready auth now).now, prevCount := c } : Seat).selectUser cfg
        args = { t with prevTime := (ready auth now).now, prevCount := c } := selectUser_some hu
    have hcan : CanStart (ready auth now) (t.sessionUser args.username) := by
      rw [hu, huser]
      exact ⟨rfl, rfl, ⟨0, rfl⟩, rfl⟩
    have hcases := startSession_cases cfg (ready auth now) args
      { t with prevTime := (ready auth now).now, prevCount := c }
    simp only [hsel] at hcases
    rw [heq]
    rcases hcases with ⟨hno, -⟩ | ⟨hno, -⟩ | ⟨-, uid, -, heq'⟩
    · exact absurd hcan hno
    · exact absurd hcan hno
    · rw [heq']
      rfl

/-- The PAM that accepts one triple. -/
def only (service u p : String) : String → String → String → Bool :=
  fun service' u' p' => service' == service && u' == u && p' == p

theorem accepted_iff {m : SessionRemote} {auth : String → String → String → Bool} {user : String}
    (hm : m.username = some user) (hp : args.password = some p) :
    (m.startArgs args.password args.environment).accepted auth = auth m.service user p := by
  simp [SessionRemote.startArgs, StartArgs.accepted, AuthSession.new, hm, hp]

theorem authenticateUser_eq (hu : args.username = some u) (hp : args.password = some p)
    (auth : String → String → String → Bool) :
    authenticateUser cfg { pam := auth } args.username args.password =
      auth (precheckService cfg) u p := by
  simp [authenticateUser, hu, hp, precheckService]

theorem authenticateUser_only (cfg : Config) (hu : args.username = some u)
    (hp : args.password = some p) :
    authenticateUser cfg { pam := only (precheckService cfg) u p } args.username args.password =
      true := by
  rw [authenticateUser_eq hu hp]
  simp [only]

/-- If the pre-check predicts the logins of a PAM that accepts one triple, that
triple is the login's as well. -/
theorem Predicts.agree (hu : args.username = some u) (hp : args.password = some p)
    (hpred : s.Predicts cfg (only (precheckService cfg) u p) args)
    (hleads : SwitchLeads cfg (only (precheckService cfg) u p) args s t)
    (hsome : t.session.isSome = true) :
    precheckService cfg = pamService cfg s.id args ∧ s.switchedUser u = some u := by
  have hauth := authenticateUser_only cfg hu hp
  obtain ⟨x, hx⟩ := Option.isSome_iff_exists.mp hsome
  obtain ⟨user, huser, hservice, hname⟩ := (hleads.behind hu hauth).1.session x hx
  have hacc := hpred hauth t hleads x hx
  rw [accepted_iff hname hp, hservice] at hacc
  simp only [only, Bool.and_eq_true, beq_iff_eq] at hacc
  obtain ⟨⟨h₁, h₂⟩, -⟩ := hacc
  exact ⟨h₁.symm, h₂ ▸ huser⟩

/-- A switch on an empty seat can lead to a session. -/
theorem exists_switched {auth : String → String → String → Bool} {user : String}
    (hu : args.username = some u) (hs : s.session = none)
    (hauth : authenticateUser cfg { pam := auth } args.username args.password = true)
    (huser : s.sessionUser (some u) = some user) :
    ∃ t, SwitchLeads cfg auth args s t ∧ t.session.isSome = true := by
  refine ⟨_, .switched (ready auth (s.prevTime + 1000000)) rfl hs, ?_⟩
  rcases switchUser_cases cfg (ready auth (s.prevTime + 1000000)) args s with
    ⟨hno, -⟩ | ⟨-, -, heq⟩ | ⟨-, hsome, -⟩
  · exact absurd (hauth.symm.trans hno) (by simp)
  · rw [heq]
    exact createSession_ready hu hs rfl huser
  · rw [hs] at hsome
    cases hsome

/-- So can one on a seat with a session, unless the daemon is to stop or the X11
session takes it along. -/
theorem exists_ended {auth : String → String → String → Bool} {x : SessionRef}
    (hu : args.username = some u) (hs : s.session = some x)
    (hauth : authenticateUser cfg { pam := auth } args.username args.password = true)
    (hstop : s.stopHandlers = 0) (hx11 : cfg.x11Session = false) :
    ∃ t, SwitchLeads cfg auth args s t ∧ t.session.isSome = true := by
  obtain ⟨r, hr, hnext, -, -, hstop', hactive⟩ := switchUser_next (ready auth 0) hs hauth
  have hnextUser : r.nextUser = some u := (congrArg LoginArgs.username hnext).trans hu
  refine ⟨_, .ended (ready auth 0) (ready auth (r.prevTime + 1000000)) rfl x hs, ?_⟩
  rw [hr]
  rcases handleSessionTerminated_eq cfg (ready auth (r.prevTime + 1000000)) x r with
    ⟨-, heq⟩ | ⟨hno, -⟩
  · obtain ⟨ss, acts, hclosed⟩ := closed_frame r x
    rw [heq, hnext, hclosed]
    refine createSession_ready hu ?_ ?_ (show _ = some u from ?_)
    · rfl
    · rfl
    · simp [sessionUser, emit, hactive]
  · simp [relogs, hstop', hstop, hx11, hnextUser] at hno

/-- **The pre-check of a switch predicts the login, exactly when they agree**: for
every configuration, every seat and every request. -/
theorem switch_predicts_iff (cfg : Config) (args : LoginArgs) (s : Seat) :
    (∀ auth, s.Predicts cfg auth args) ↔ s.Agrees cfg args := by
  constructor
  · intro hpred u p hu hp
    have hpred := hpred (only (precheckService cfg) u p)
    have hauth := authenticateUser_only cfg hu hp
    cases hs : s.session with
    | none =>
      intro user huser
      obtain ⟨t, hleads, hsome⟩ := exists_switched hu hs hauth huser
      obtain ⟨hservice, hsw⟩ := hpred.agree hu hp hleads hsome
      simp only [switchedUser, hs] at hsw
      exact ⟨hservice, Option.some.inj (hsw.symm.trans huser)⟩
    | some x =>
      intro hstop hx11
      obtain ⟨t, hleads, hsome⟩ := exists_ended hu hs hauth hstop hx11
      exact (hpred.agree hu hp hleads hsome).1
  · intro hagree auth hauth t hleads x hx
    obtain ⟨⟨u, hu⟩, p, hp⟩ := authenticateUser_some hauth
    obtain ⟨hb, hcomes⟩ := hleads.behind hu hauth
    obtain ⟨user, huser, hservice, hname⟩ := hb.session x hx
    have hgo := hcomes (Or.inl (by rw [hx]; rfl))
    rw [authenticateUser_eq hu hp] at hauth
    rw [accepted_iff hname hp, hservice]
    have hagree := hagree u p hu hp
    cases hs : s.session with
    | none =>
      rw [hs] at hagree
      simp only [switchedUser, hs] at huser
      obtain ⟨hsame, rfl⟩ := hagree user huser
      rwa [← hsame]
    | some y =>
      rw [hs] at hagree
      obtain ⟨hstop, hx11⟩ := hgo (by rw [hs]; rfl)
      simp only [switchedUser, hs] at huser
      obtain rfl := Option.some.inj huser
      rwa [← hagree hstop hx11]

/-- A seat on which somebody works. -/
def occupied : Seat := (Seat.new "seat0").run [loginStep Config.empty (some "guest") 2000000]

/-- Nothing is configured, and PAM knows the user under `system-auth` alone: the
switch ends the running session, and the new one is refused under `tlm-login`. -/
theorem switch_ends_session_for_refused_login :
    ¬ occupied.Predicts Config.empty (only "system-auth" "user" "secret")
      ⟨none, some "user", some "secret", some []⟩ := by
  intro h
  have hrefused := h (by decide) _ (.ended (ready (only "system-auth" "user" "secret") 5000000)
    (ready (only "system-auth" "user" "secret") 5000000) rfl 0 (by decide)) 1 (by decide)
  revert hrefused
  decide

end Seat

end Tlm
