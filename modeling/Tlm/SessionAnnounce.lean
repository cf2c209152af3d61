import Tlm.SessionSpec

/-!
# What `session-created` announces (`tlm-session.c`)

`tlm_session_start` reports its failures with `session-error` and `FALSE`, up to the
opening of the PAM session. What comes after can fail as well: `_exec_user_session`
returns early when the terminal cannot be prepared, and `fork` may give `-1`, which
the test `if (priv->child_pid)` takes for a child. Neither is visible to the caller,
which emits `session-created` in any case, and on the other side of D-Bus the login is
complete.

`start_cases` says what a call comes to; `announces_iff` says in which calls the
announcement, if there is one, is true.
-/

namespace Tlm

namespace Session

/-- Does PAM accept the login? The arguments are complete, the PAM session could be
made, and the user was authenticated and the session opened. -/
def accepted (cfg : Config) (host : Host) (args : StartArgs) : Bool :=
  match args.seatId, args.service, args.username with
  | some seatId, some service, some username =>
    let vtnr := cfg.getUInt (some seatId) "VTNR" 0
    let tty := if vtnr > 0 then some ("tty" ++ toString vtnr) else none
    (AuthSession.new host.pam service username args.password tty).any fun a =>
      let (a, ok) := (putenvs cfg seatId vtnr a).authenticate host.pam
      ok && (a.openSession host.pam).2
  | _, _, _ => false

/-- What `tlm_session_start` returns, if it does: with `PAUSE_SESSION` it ends the
process. -/
def startReturns (cfg : Config) (host : Host) (args : StartArgs) : Bool :=
  match args.seatId, args.service, args.username with
  | some seatId, some service, some username =>
    let vtnr := cfg.getUInt (some seatId) "VTNR" 0
    let tty := if vtnr > 0 then some ("tty" ++ toString vtnr) else none
    match AuthSession.new host.pam service username args.password tty with
    | none => false
    | some a =>
      let (a, ok) := (putenvs cfg seatId vtnr a).authenticate host.pam
      if !ok then false
      else if !(a.openSession host.pam).2 then false
      else true
  | _, _, _ => false

/-- The terminal of the seat is ready: none is to be set up, or it could be prepared. -/
def seatTerminalReady (cfg : Config) (host : Host) (args : StartArgs) : Bool :=
  terminalReady cfg host args.seatId (cfg.getUInt args.seatId "VTNR" 0)

/-- What a call has emitted. -/
def emittedSince (s s' : Session) : List SessionNews := s'.news.drop s.news.length

/-- A call has created a child: it is up, it has a pid, and it is being watched since. -/
def ChildCreated (s s' : Session) : Prop :=
  s'.isChildUp = true ∧ 0 < s'.childPid ∧ s'.watched = s.watched + 1

/-- `session-created` means that a session runs: it is emitted only if a child was
created, and where none was there is an error and `FALSE`. -/
structure Announces (cfg : Config) (host : Host) (args : StartArgs) (s : Session) : Prop where
  created : ∀ id, .created id ∈ emittedSince s (s.start cfg host args) →
    ChildCreated s (s.start cfg host args)
  otherwise : ¬ChildCreated s (s.start cfg host args) →
    (∃ code, .error code ∈ emittedSince s (s.start cfg host args)) ∧
      startReturns cfg host args = false

variable {s : Session} {cfg : Config} {host : Host} {args : StartArgs}

theorem startReturns_eq_accepted : startReturns cfg host args = accepted cfg host args := by
  rcases args with ⟨_ | seatId, _ | service, _ | username, password, environment⟩
  case some.some.some =>
    simp only [startReturns, accepted]
    cases AuthSession.new host.pam service username password
        (if cfg.getUInt (some seatId) "VTNR" 0 > 0 then
          some ("tty" ++ toString (cfg.getUInt (some seatId) "VTNR" 0)) else none) with
    | none => rfl
    | some a =>
      simp only [Option.any_some]
      cases ((putenvs cfg seatId (cfg.getUInt (some seatId) "VTNR" 0) a).authenticate host.pam).2 with
      | false => rfl
      | true => simp
  all_goals rfl

/-- A refused call: an error is the last thing it emits, and it announces nothing. -/
def Refused (s s' : Session) : Prop :=
  s'.watched = s.watched ∧ ∃ code,
    s'.news = s.news ++ [.error code] ∨ s'.news = s.news ++ [.authenticated, .error code]

/-- A call PAM accepted: from some state with the same news but for `authenticated`,
the user's session is executed and then announced. -/
def Announced (cfg : Config) (host : Host) (args : StartArgs) (s s' : Session) : Prop :=
  ∃ (s₁ : Session) (id : String), s' = (s₁.execUserSession cfg host).emit (.created id) ∧
    s₁.news = s.news ++ [.authenticated] ∧ s₁.watched = s.watched ∧ s₁.username.isSome ∧
    terminalReady cfg host s₁.seatId s₁.vtnr = seatTerminalReady cfg host args

/-- The two ways behind the authentication, when the process is not to pause. -/
theorem startUser_cases {a : AuthSession} {h : ℕ}
    (hpause : cfg.getBoolean (some Config.general) "PAUSE_SESSION" false = false) :
    ((a.openSession host.pam).2 = false ∧ ∃ code, (s.startUser cfg host a h).watched = s.watched ∧
      (s.startUser cfg host a h).news = s.news ++ [.error code]) ∨
    ((a.openSession host.pam).2 = true ∧ ∃ (s₁ : Session) (id : String),
      s.startUser cfg host a h = (s₁.execUserSession cfg host).emit (.created id) ∧
      s₁.news = s.news ∧ s₁.watched = s.watched ∧ s₁.username = s.username ∧
      s₁.seatId = s.seatId ∧ s₁.vtnr = s.vtnr) := by
  simp only [startUser]
  cases hopen : (a.openSession host.pam).2 with
  | false => exact .inl ⟨rfl, _, rfl, rfl⟩
  | true =>
    simp only [hpause, Bool.not_true, Bool.false_eq_true, if_false]
    exact .inr ⟨trivial, _, _, rfl, rfl, rfl, rfl, rfl, rfl⟩

/-- **What a call comes to.** -/
theorem start_cases (s : Session) (host : Host) (args : StartArgs)
    (hpause : cfg.getBoolean (some Config.general) "PAUSE_SESSION" false = false) :
    (accepted cfg host args = false ∧ Refused s (s.start cfg host args)) ∨
      (accepted cfg host args = true ∧ Announced cfg host args s (s.start cfg host args)) := by
  rcases args with ⟨_ | seatId, _ | service, _ | username, password, environment⟩
  case some.some.some =>
    simp only [accepted, start]
    cases AuthSession.new host.pam service username password
        (if cfg.getUInt (some seatId) "VTNR" 0 > 0 then
          some ("tty" ++ toString (cfg.getUInt (some seatId) "VTNR" 0)) else none) with
    | none => exact .inl ⟨rfl, rfl, _, .inl rfl⟩
    | some a =>
      simp only [Option.any_some]
      cases ((putenvs cfg seatId (cfg.getUInt (some seatId) "VTNR" 0) a).authenticate host.pam).2 with
      | false => exact .inl ⟨rfl, rfl, _, .inl rfl⟩
      | true =>
        simp only [Bool.true_and, if_true]
        obtain ⟨hopen, code, hwatched, hnews⟩ | ⟨hopen, s₁, id, hstart, hnews, hwatched, hname, hseat,
          hvtnr⟩ := startUser_cases (s := _) (a := _) (h := _) hpause
        · refine .inl ⟨hopen, hwatched, code, .inr ?_⟩
          rw [hnews]
          simp [emit]
        · refine .inr ⟨hopen, s₁, id, hstart, hnews, hwatched, ?_, ?_⟩
          · rw [hname]
            rfl
          · rw [hseat, hvtnr]
            rfl
  all_goals exact .inl ⟨rfl, rfl, _, .inl rfl⟩

/-! ## Executing the user's session -/

/-- Either the terminal was not ready and nothing happened, or the process forked. -/
theorem execUserSession_cases (cfg : Config) (host : Host) (hname : s.username.isSome) :
    (terminalReady cfg host s.seatId s.vtnr = false ∧
      (s.execUserSession cfg host).watched = s.watched ∧
      (s.execUserSession cfg host).news = s.news) ∨
    (terminalReady cfg host s.seatId s.vtnr = true ∧ ∃ s₂ : Session,
      s.execUserSession cfg host = execUserSession.forkChild host s₂ ∧
      s₂.watched = s.watched ∧ s₂.news = s.news) := by
  obtain ⟨username, hname⟩ := Option.isSome_iff_exists.mp hname
  simp only [execUserSession, hname, terminalReady]
  by_cases hterm : seatBoolean cfg s.seatId "SETUP_TERMINAL" = true
  · rw [if_pos hterm, hterm]
    cases prepareTerminal host.tty s.vtnr with
    -- the silent early return
    | none => exact .inl ⟨rfl, rfl, rfl⟩
    | some dev => exact .inr ⟨rfl, _, rfl, rfl, rfl⟩
  · rw [if_neg hterm, Bool.eq_false_iff.mpr hterm]
    exact .inr ⟨rfl, _, rfl, rfl, rfl⟩

/-! ## The announcement -/

theorem forkChild_news : (execUserSession.forkChild host s).news = s.news := by
  simp only [execUserSession.forkChild]
  split <;> rfl

theorem execUserSession_news (hname : s.username.isSome) :
    (s.execUserSession cfg host).news = s.news := by
  obtain ⟨-, -, hnews⟩ | ⟨-, s₂, hexec, -, hnews⟩ :=
    execUserSession_cases cfg host hname
  · exact hnews
  · rw [hexec, forkChild_news, hnews]

/-- A call PAM accepted has created a child exactly when the terminal was ready and
`fork` gave one. -/
theorem childCreated_iff {s' : Session} (hpid : ∀ pid, host.fork = some pid → 0 < pid)
    (h : Announced cfg host args s s') :
    ChildCreated s s' ↔ seatTerminalReady cfg host args = true ∧ host.fork.isSome := by
  obtain ⟨s₁, id, rfl, hnews, hwatched, hname, hready⟩ := h
  obtain ⟨hnot, hsame, -⟩ | ⟨hyes, s₂, hexec, hwatched₂, -⟩ :=
    execUserSession_cases cfg host hname
  · -- nothing new is watched
    rw [← hready, hnot]
    constructor
    · rintro ⟨-, -, hnew⟩
      have hold : (s₁.execUserSession cfg host).watched = s.watched + 1 := hnew
      omega
    · rintro ⟨hfalse, -⟩
      exact absurd hfalse (by decide)
  · rw [← hready, hyes]
    have hstate : ∀ {s' : Session}, s' = execUserSession.forkChild host s₂ →
        (ChildCreated s (s'.emit (.created id)) ↔ host.fork.isSome) := by
      rintro _ rfl
      cases hfork : host.fork with
      -- `-1` is not 0, so the branch of the parent runs, without a pid
      | none => simp [ChildCreated, emit, execUserSession.forkChild, hfork]
      | some pid =>
        have hpos := hpid pid hfork
        simp [ChildCreated, emit, execUserSession.forkChild, hfork, hpos, hwatched, hwatched₂]
    rw [hstate hexec]
    simp

theorem emittedSince_announced {s' : Session} (h : Announced cfg host args s s') :
    ∃ id, emittedSince s s' = [.authenticated, .created id] := by
  obtain ⟨s₁, id, rfl, hnews, -, hname, -⟩ := h
  refine ⟨id, ?_⟩
  simp [emittedSince, emit, execUserSession_news hname, hnews]

theorem emittedSince_refused {s' : Session} (h : Refused s s') :
    (∃ code, .error code ∈ emittedSince s s') ∧ ∀ id, .created id ∉ emittedSince s s' := by
  obtain ⟨-, code, hnews | hnews⟩ := h
  · refine ⟨⟨code, ?_⟩, ?_⟩ <;> simp [emittedSince, hnews]
  · refine ⟨⟨code, ?_⟩, ?_⟩ <;> simp [emittedSince, hnews]

/-- **When the announcement is true.** Without `PAUSE_SESSION`: exactly when a login
that PAM accepts also finds its terminal ready and gets a child. -/
theorem announces_iff (s : Session) (cfg : Config) (host : Host) (args : StartArgs)
    (hpause : cfg.getBoolean (some Config.general) "PAUSE_SESSION" false = false)
    (hpid : ∀ pid, host.fork = some pid → 0 < pid) :
    Announces cfg host args s ↔
      (accepted cfg host args = true →
        seatTerminalReady cfg host args = true ∧ host.fork.isSome) := by
  obtain ⟨hacc, hrefused⟩ | ⟨hacc, hannounced⟩ := start_cases s host args hpause
  · -- a refusal announces nothing, and says so
    obtain ⟨herror, hcreated⟩ := emittedSince_refused hrefused
    refine ⟨fun _ h => absurd h (by simp [hacc]), fun _ => ⟨?_, ?_⟩⟩
    · intro id hid
      exact absurd hid (hcreated id)
    · intro _
      exact ⟨herror, startReturns_eq_accepted.trans hacc⟩
  · obtain ⟨id, hemitted⟩ := emittedSince_announced hannounced
    have hiff := childCreated_iff hpid hannounced
    constructor
    · intro h _
      apply hiff.mp
      apply h.created id
      simp [hemitted]
    · intro h
      have hchild := hiff.mpr (h hacc)
      exact ⟨fun _ _ => hchild, fun hnot => absurd hchild hnot⟩

/-- A login on a seat that sets up no terminal, with a child `1`. -/
theorem announces_child_one :
    let args : StartArgs := ⟨some "seat0", some "tlm-login", some "guest", none, none⟩
    accepted Config.empty {} args = true ∧ Announces Config.empty {} args {} := by
  refine ⟨by decide, ?_⟩
  apply (announces_iff _ _ _ _ (by decide) _).mpr
  · intro _
    decide
  · rintro _ ⟨⟩
    decide

/-- There is no process to be had: the session is announced all the same, with `-1` for
its child, and the call returns `TRUE`. -/
theorem announced_without_child :
    let args : StartArgs := ⟨some "seat0", some "tlm-login", some "guest", none, none⟩
    let s := start Config.empty { fork := none } args {}
    s.news = [.authenticated, .created ""] ∧ s.childPid = -1 ∧
      startReturns Config.empty { fork := none } args = true ∧
      ¬Announces Config.empty { fork := none } args {} := by
  intro args s
  have hnews : s.news = [.authenticated, .created ""] := by decide
  have hpid : s.childPid = -1 := by decide
  refine ⟨hnews, hpid, by decide, fun h => ?_⟩
  obtain ⟨-, hpos, -⟩ := h.created "" (by decide)
  rw [show (start Config.empty { fork := none } args {}).childPid = -1 from hpid] at hpos
  exact absurd hpos (by decide)

end Session

end Tlm
