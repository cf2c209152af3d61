import Tlm.Daemon
import Tlm.SeatAnswer
import Tlm.SeatSwitch

/-!
# Where the credentials of a session come from

A seat starts sessions in four places, with credentials that were copied through
`next_*` fields and delay closures. `Seat.owed` are the logins a seat still
owes: one for each closure, and one for a pending switch. An operation `Pays` if
what it starts, together with what it owes afterwards, is covered by what it owed
before and what it was **granted** — nothing, except when a login or switch
request is accepted, which grants its own credentials once.

This needs that no session is for the default user, who has no request: as long
as nobody asks for one, `default_active` is never set, and every closure names
its user (`Modest`).
-/

namespace Tlm

/-- The credentials an act starts a session with. -/
def Act.credentials : Act → Option Credentials
  | .sessionRemoteCreate _ user password environment => some ⟨user, password, environment⟩
  | _ => none

theorem Act.credentials_of_isStart {a : Act} (h : a.isStart = false) : a.credentials = none := by
  cases a with
  | sessionRemoteCreate x user password environment => cases h
  | _ => rfl

namespace Seat

variable {Looked : String → ℕ → Prop} {cfg : Config} {sys : Sys} {args : LoginArgs}
  {s s' s'' : Seat} {g g' : List Credentials}

/-! ## Debts and payments -/

/-- The logins a seat still owes. -/
def owed (s : Seat) : List Credentials :=
  s.closures.map LoginArgs.credentials ++
    if s.nextUser.isSome then [s.next.credentials] else []

/-- The default user is not active, and no closure asks for one. -/
structure Modest (s : Seat) : Prop where
  inactive : s.defaultActive = false
  named : ∀ args ∈ s.closures, args.username.isSome = true

/-- From `s` to `s'` nothing was started or promised that was not owed or
granted. -/
structure Pays (g : List Credentials) (s s' : Seat) : Prop where
  modest : s'.Modest
  paid : ∃ acts, s'.trace = s.trace ++ acts ∧ ∀ c,
    (acts.filterMap Act.credentials).count c + s'.owed.count c ≤
      s.owed.count c + g.count c

theorem Pays.trans (h₁ : Pays g s s') (h₂ : Pays g' s' s'') : Pays (g ++ g') s s'' := by
  obtain ⟨acts₁, ht₁, hc₁⟩ := h₁.paid
  obtain ⟨acts₂, ht₂, hc₂⟩ := h₂.paid
  refine ⟨h₂.modest, acts₁ ++ acts₂, by rw [ht₂, ht₁, List.append_assoc], fun c => ?_⟩
  have h₁ := hc₁ c
  have h₂ := hc₂ c
  rw [List.filterMap_append, List.count_append, List.count_append]
  omega

/-- The parts of a seat that its debts are made of. -/
structure SameDebts (s s' : Seat) : Prop where
  closures : s'.closures = s.closures
  next : s'.next = s.next
  defaultActive : s'.defaultActive = s.defaultActive

theorem SameDebts.trans (h₁ : SameDebts s s') (h₂ : SameDebts s' s'') : SameDebts s s'' :=
  ⟨h₂.closures.trans h₁.closures, h₂.next.trans h₁.next,
    h₂.defaultActive.trans h₁.defaultActive⟩

theorem SameDebts.owed (h : SameDebts s s') : s'.owed = s.owed := by
  have huser : s'.nextUser = s.nextUser := congrArg LoginArgs.username h.next
  rw [Seat.owed, Seat.owed, h.closures, h.next, huser]

theorem Modest.same (hm : s.Modest) (h : SameDebts s s') : s'.Modest := by
  refine ⟨h.defaultActive.trans hm.inactive, ?_⟩
  rw [h.closures]
  exact hm.named

/-- What starts no session and leaves the debts alone pays. -/
theorem Pays.same (hm : s.Modest) (h : SameDebts s s')
    (hg : Grows (fun a => a.isStart = false) s s') : Pays [] s s' := by
  obtain ⟨acts, ht, hstart⟩ := hg.trace
  have hnone : acts.filterMap Act.credentials = [] := by
    rw [List.filterMap_eq_nil_iff]
    exact fun a ha => Act.credentials_of_isStart (hstart a ha)
  refine ⟨hm.same h, acts, ht, fun c => ?_⟩
  rw [hnone, h.owed]
  simp

/-- One more closure is one more debt. -/
theorem count_owed_append (s s' : Seat) (args : LoginArgs)
    (h₁ : s'.closures = s.closures ++ [args]) (h₂ : s'.next = s.next) (c : Credentials) :
    s'.owed.count c = s.owed.count c + [args.credentials].count c := by
  have huser : s'.nextUser = s.nextUser := congrArg LoginArgs.username h₂
  simp only [owed, h₁, h₂, huser, List.map_append, List.map_cons, List.map_nil,
    List.count_append]
  omega

/-! ## Creating, switching and terminating -/

/-- With a user named and the default user inactive, the session is for that
user; and it is the only thing that is started. -/
theorem startSession_pays (hm : s.Modest) (hu : args.username.isSome = true) (cfg : Config)
    (sys : Sys) :
    Pays (if (s.startSession cfg sys args).2 then [args.credentials] else []) s
      (s.startSession cfg sys args).1 := by
  obtain ⟨u, hu⟩ := Option.isSome_iff_exists.mp hu
  have hsel : s.selectUser cfg args = s := selectUser_some hu
  have huser : s.sessionUser args.username = args.username := by
    rw [sessionUser, hm.inactive]
    rfl
  rcases startSession_cases cfg sys args s with
    ⟨-, ss, -, heq⟩ | ⟨-, heq⟩ | ⟨-, uid, -, heq⟩
  · rw [heq, hsel]
    refine ⟨⟨hm.inactive, hm.named⟩, _, rfl, fun c => ?_⟩
    exact le_of_eq (Nat.zero_add _)
  · rw [heq, hsel]
    refine ⟨⟨hm.inactive, hm.named⟩, _, rfl, fun c => ?_⟩
    exact le_of_eq (Nat.zero_add _)
  · rw [heq, hsel, huser]
    refine ⟨⟨hm.inactive, hm.named⟩, _, rfl, fun c => ?_⟩
    have hacts : ∀ (o x : ℕ) oargs v, [Act.observerNew o oargs,
        .sessionRemoteCreate x args.username args.password args.environment,
        .createSession args v].filterMap Act.credentials = [args.credentials] := fun _ _ _ _ => rfl
    rw [hacts, if_pos rfl]
    exact le_of_eq (Nat.add_comm _ _)

/-- A call that is put off owes what it was granted. -/
theorem createSession_pays (hm : s.Modest) (hu : args.username.isSome = true) (cfg : Config)
    (sys : Sys) :
    Pays (if (s.createSession cfg sys args).2 then [args.credentials] else []) s
      (s.createSession cfg sys args).1 := by
  rcases createSession_cases cfg sys args s with ⟨-, heq⟩ | ⟨-, -, n, heq⟩ | ⟨-, -, n, heq⟩
  · rw [heq]
    refine ⟨⟨hm.inactive, hm.named⟩, _, rfl, fun c => ?_⟩
    exact le_of_eq (Nat.zero_add _)
  · rw [heq]
    refine ⟨⟨hm.inactive, ?_⟩, _, rfl, fun c => ?_⟩
    · intro args' hargs'
      rcases List.mem_append.mp hargs' with hargs' | hargs'
      · exact hm.named args' hargs'
      · rw [List.mem_singleton.mp hargs']
        exact hu
    · rw [if_pos rfl, ← count_owed_append s { s with
        prevTime := sys.now, prevCount := n, closures := s.closures ++ [args]
        refs := s.refs + 1, trace := s.trace ++ [.createSession args .deferred] } args rfl rfl c]
      exact le_of_eq (Nat.zero_add _)
  · rw [heq]
    have hm' : Modest { s with prevTime := sys.now, prevCount := n } := ⟨hm.inactive, hm.named⟩
    obtain ⟨hmodest, acts, ht, hcount⟩ := startSession_pays hm' hu cfg sys
    exact ⟨hmodest, acts, ht, hcount⟩

theorem terminateSession_pays (hm : s.Modest) : Pays [] s s.terminateSession.1 := by
  refine Pays.same hm ?_ ((terminateSession_grows s).imp fun _ ha => ha.2)
  obtain ⟨acts, -, ⟨x, -, -, heq⟩ | ⟨-, heq⟩⟩ := terminateSession_cases s
  · rw [heq]
    exact ⟨rfl, rfl, hm.inactive.symm⟩
  · rw [heq]
    exact ⟨rfl, rfl, hm.inactive.symm⟩

/-- A switch owes its login until the session has gone; it forgets the one that
was pending. -/
theorem withNext_pays (hm : s.Modest) (hu : args.username.isSome = true) :
    Pays [args.credentials] s (s.withNext args) := by
  refine ⟨⟨hm.inactive, hm.named⟩, [], (List.append_nil _).symm, fun c => ?_⟩
  have howed : (s.withNext args).owed =
      s.closures.map LoginArgs.credentials ++ [args.credentials] := by
    rw [owed]
    exact congrArg (s.closures.map LoginArgs.credentials ++ ·) (if_pos hu)
  rw [howed, owed, List.count_append, List.count_append]
  simp

/-- A switch that finds a session finds it up, so it is accepted. -/
theorem switchUser_pays (hw : s.Wf Looked) (hm : s.Modest) (cfg : Config) (sys : Sys)
    (args : LoginArgs) :
    Pays (if (s.switchUser cfg sys args).2 then [args.credentials] else []) s
      (s.switchUser cfg sys args).1 := by
  have hok := switchUser_ok cfg sys args s
  rcases switchUser_cases cfg sys args s with ⟨ha, heq⟩ | ⟨ha, -, heq⟩ | ⟨ha, hs, heq⟩
  · rw [heq]
    exact Pays.same hm ⟨rfl, rfl, rfl⟩ (Grows.refl _ s)
  · obtain ⟨⟨u, hu⟩, -⟩ := authenticateUser_some ha
    rw [heq]
    exact createSession_pays hm (by rw [hu]; rfl) cfg sys
  · obtain ⟨⟨u, hu⟩, -⟩ := authenticateUser_some ha
    obtain ⟨x, hx⟩ := Option.isSome_iff_exists.mp hs
    have hnext := withNext_pays hm (by rw [hu]; rfl : args.username.isSome = true)
    rw [if_pos (hok.mpr ⟨ha, Or.inr ⟨x, hx, (hw.live x hx).1⟩⟩), heq]
    exact hnext.trans (terminateSession_pays hnext.modest)

/-! ## Closing and disposal -/

theorem clearDbusObserver_debts (s : Seat) : SameDebts s s.clearDbusObserver := by
  obtain ⟨acts, heq⟩ := clearDbusObserver_eq s
  rw [heq]
  exact ⟨rfl, rfl, rfl⟩

theorem clearPrevDbusObserver_debts (s : Seat) : SameDebts s s.clearPrevDbusObserver := by
  obtain ⟨acts, heq⟩ := clearPrevDbusObserver_eq s
  rw [heq]
  exact ⟨rfl, rfl, rfl⟩

theorem closeActiveSession_debts (s : Seat) (x : SessionRef) :
    SameDebts s (s.closeActiveSession x) := by
  obtain ⟨ss, acts, heq⟩ := closeActiveSession_frame s x
  rw [heq]
  exact ⟨rfl, rfl, rfl⟩

theorem unref_debts (s : Seat) : SameDebts s s.unref := by
  rcases unref_cases s with ⟨-, heq⟩ | ⟨-, ss, acts, heq⟩
  · rw [heq]
    exact ⟨rfl, rfl, rfl⟩
  · rw [heq]
    exact ⟨rfl, rfl, rfl⟩

theorem unref_pays (hm : s.Modest) : Pays [] s s.unref :=
  Pays.same hm (unref_debts s) ((unref_grows s).imp fun _ ha => ha.2)

/-- The timer of a closure uses the debt up that the closure was. -/
theorem delayedSession_pays (hm : s.Modest) (cfg : Config) (sys : Sys) (k : ℕ) :
    Pays [] s (s.delayedSession cfg sys k) := by
  rcases hk : s.closures[k]? with _ | args
  · simp only [delayedSession, hk]
    exact Pays.same hm ⟨rfl, rfl, rfl⟩ (Grows.refl _ s)
  · have hmem : args ∈ s.closures := List.mem_of_getElem? hk
    have hm' : Modest { s with closures := s.closures.eraseIdx k } :=
      ⟨hm.inactive, fun a ha => hm.named a (List.mem_of_mem_eraseIdx ha)⟩
    have hcreate := createSession_pays hm' (hm.named args hmem) cfg sys
    have hpays := hcreate.trans (unref_pays hcreate.modest)
    simp only [delayedSession, hk]
    obtain ⟨acts, ht, hcount⟩ := hpays.paid
    refine ⟨hpays.modest, acts, ht, fun c => ?_⟩
    have hperm : (args :: s.closures.eraseIdx k).Perm s.closures := by
      obtain ⟨hlt, rfl⟩ := List.getElem?_eq_some_iff.mp hk
      exact ((List.erase_getElem hlt).symm.cons _).trans (List.perm_cons_erase hmem).symm
    -- taking the closure off the list is what pays for the call
    have hdebt : ({ s with closures := s.closures.eraseIdx k } : Seat).owed.count c +
        [args.credentials].count c = s.owed.count c := by
      have hcount := (hperm.map LoginArgs.credentials).count_eq c
      simp only [owed, List.count_append, List.map_cons, List.count_cons,
        List.count_nil] at hcount ⊢
      have hnext : ({ s with closures := s.closures.eraseIdx k } : Seat).next = s.next := rfl
      rw [hnext]
      omega
    have hc := hcount c
    rw [List.append_nil] at hc
    split at hc
    · rw [← hdebt]
      exact hc
    · rw [← hdebt]
      exact hc.trans (Nat.add_le_add_left (Nat.zero_le _) _)

/-! ## Events of the session -/

theorem handleSessionCreated_pays (hm : s.Modest) : Pays [] s s.handleSessionCreated := by
  refine Pays.same hm ?_ ((handleSessionCreated_grows s).imp fun _ ha => ha.2)
  have hemit : SameDebts s (s.emit .sessionCreated) := ⟨rfl, rfl, rfl⟩
  exact hemit.trans (clearPrevDbusObserver_debts _)

theorem handleError_pays (hm : s.Modest) (code : ℤ) (x : SessionRef) :
    Pays [] s (s.handleError code x) := by
  refine Pays.same hm ?_ (handleError_noStart code x s)
  have hemit : SameDebts s (s.emit (.sessionError code)) := ⟨rfl, rfl, rfl⟩
  simp only [handleError]
  split
  · exact (hemit.trans (closeActiveSession_debts _ x)).trans (clearDbusObserver_debts _)
  · exact hemit

/-- Forgetting a pending switch is one debt less. -/
theorem count_owed_resetNext (h₁ : s'.next = s.next) (h₂ : s.nextUser.isSome = true)
    (c : Credentials) :
    s'.owed.count c = s'.resetNext.owed.count c + [s.next.credentials].count c := by
  have huser : s'.nextUser = s.nextUser := congrArg LoginArgs.username h₁
  have hreset : s'.resetNext.owed = s'.closures.map LoginArgs.credentials := by
    simp [owed, resetNext]
  rw [hreset, owed, huser, if_pos h₂, h₁, List.count_append]

/-- The relogin uses up the switch that was pending; without automatic logins
there is no other. -/
theorem handleSessionTerminated_pays (hm : s.Modest) (hauto : cfg.autoLogin = false) (sys : Sys)
    (x : SessionRef) : Pays [] s (s.handleSessionTerminated cfg sys x) := by
  obtain ⟨ss, acts, hclosed⟩ := closed_frame s x
  have hdebts : SameDebts s (s.closed x) := by
    rw [hclosed]
    exact ⟨rfl, rfl, rfl⟩
  rcases handleSessionTerminated_eq cfg sys x s with
    ⟨hr, heq⟩ | ⟨hr, ⟨-, heq⟩ | ⟨-, -, heq⟩ | ⟨-, heq⟩⟩
  · have hnext : s.nextUser.isSome = true := by
      simp only [relogs, hauto, Bool.false_or, Bool.and_eq_true] at hr
      exact hr.2
    have hsame : Pays [] s ((s.closed x).emit (.relogin x)) := by
      refine Pays.same hm ⟨hdebts.closures, hdebts.next, hdebts.defaultActive⟩ ?_
      exact (closed_cleared s x).grows.trans (grows_emit rfl (by simp))
    have hcall := createSession_pays hsame.modest (show s.next.username.isSome = true from hnext)
      cfg sys
    have hcreate := hsame.trans hcall
    have hkept := createSession_sameNext cfg sys s.next ((s.closed x).emit (.relogin x))
    have hnext' : (((s.closed x).emit (.relogin x)).createSession cfg sys s.next).1.next =
        s.next := hkept.next.trans hdebts.next
    obtain ⟨acts', ht, hcount⟩ := hcreate.paid
    rw [heq]
    refine ⟨⟨hcreate.modest.inactive, hcreate.modest.named⟩, acts', ht, fun c => ?_⟩
    have hreset := count_owed_resetNext hnext' hnext c
    have hgrant : (if (((s.closed x).emit (.relogin x)).createSession cfg sys s.next).2 then
        [s.next.credentials] else []).count c ≤ [s.next.credentials].count c := by
      split
      · exact le_refl _
      · exact Nat.zero_le _
    have hc := hcount c
    rw [List.nil_append] at hc
    rw [List.count_nil]
    omega
  · refine Pays.same hm ?_ (handleSessionTerminated_noStart hr x)
    rw [heq]
    exact hdebts
  · refine Pays.same hm ?_ (handleSessionTerminated_noStart hr x)
    rw [heq]
    exact ⟨hdebts.closures, hdebts.next, hdebts.defaultActive⟩
  · have hclose := closeActiveSession_debts s x
    refine Pays.same hm ?_ (handleSessionTerminated_noStart hr x)
    rw [heq]
    exact ⟨hclose.closures, hclose.next, hclose.defaultActive⟩

/-! ## A whole dispatch -/

/-- What a dispatch grants: the credentials of the request it accepts. -/
def granted (cfg : Config) (sys : Sys) (ev : SeatEvent) (s : Seat) : List Credentials :=
  if Daemon.accepts cfg sys ev s then (Daemon.requestCredentials ev).toList else []

theorem released_pays (hm : s.Modest) (x : SessionRef) : Pays [] s (s.released x) := by
  obtain ⟨ss, heq, -⟩ := released_frame x s
  refine Pays.same hm ?_ ((released_grows x s).imp fun _ ha => ha.2)
  rw [heq]
  exact ⟨rfl, rfl, rfl⟩

theorem sessionEvent_pays (hw : s.Wf Looked) (hm : s.Modest) (hauto : cfg.autoLogin = false)
    (sys : Sys) (x : SessionRef) (e : SessionEvent) : Pays [] s (s.sessionEvent cfg sys x e) := by
  have hset : Pays [] s (s.setSession x ((s.sessions.get x).handle e).1) :=
    Pays.same hm ⟨rfl, rfl, rfl⟩ (grows_setSession (SessionRemote.sameIdentity_handle _ e).1)
  by_cases hx : s.session = some x
  · rcases sessionEvent_current hw.toLinked hx cfg sys e with ⟨-, heq⟩ | ⟨g, -, heq⟩
    · rw [heq]
      exact hset
    · have hhandler : Pays [] s
          ((s.setSession x ((s.sessions.get x).handle e).1).runHandler cfg sys x g) := by
        cases g with
        | created => exact hset.trans (handleSessionCreated_pays hset.modest)
        | terminated => exact hset.trans (handleSessionTerminated_pays hset.modest hauto sys x)
        | error code => exact hset.trans (handleError_pays hset.modest code x)
      rw [heq]
      exact hhandler.trans (released_pays hhandler.modest x)
  · rw [sessionEvent_stale hw.toLinked hx]
    exact hset

theorem granted_none {ev : SeatEvent} (h : Daemon.requestCredentials ev = none) :
    granted cfg sys ev s = [] := by
  simp [granted, h]

theorem granted_createSession (h : s.refs ≠ 0) : granted cfg sys (.createSession args) s =
    if (s.createSession cfg sys args).2 then [args.credentials] else [] := by
  simp [granted, Daemon.accepts, Daemon.requestCredentials, h]

theorem granted_switchUser (h : s.refs ≠ 0) : granted cfg sys (.switchUser args) s =
    if (s.switchUser cfg sys args).2 then [args.credentials] else [] := by
  simp [granted, Daemon.accepts, Daemon.requestCredentials, h]

/-- Every dispatch without automatic logins pays, and is granted only what it
accepts. -/
theorem step_pays (hw : s.Wf Looked) (hm : s.Modest) (hauto : cfg.autoLogin = false) (sys : Sys)
    {ev : SeatEvent} (hev : ∀ args, ev = .createSession args → args.username.isSome = true) :
    Pays (granted cfg sys ev s) s (s.step ⟨cfg, sys, ev⟩) := by
  by_cases hrefs : s.refs = 0
  · have hnone : granted cfg sys ev s = [] := by
      simp [granted, Daemon.accepts, hrefs]
    have hsame : s.step ⟨cfg, sys, ev⟩ = s := if_pos hrefs
    rw [hnone, hsame]
    exact Pays.same hm ⟨rfl, rfl, rfl⟩ (Grows.refl _ s)
  · have hstep : s.step ⟨cfg, sys, ev⟩ = s.dispatch ⟨cfg, sys, ev⟩ := if_neg hrefs
    rw [hstep]
    cases ev with
    | createSession args =>
      rw [granted_createSession hrefs]
      exact createSession_pays hm (hev args rfl) cfg sys
    | switchUser args =>
      rw [granted_switchUser hrefs]
      exact switchUser_pays hw hm cfg sys args
    | terminateSession =>
      rw [granted_none rfl]
      exact terminateSession_pays hm
    | delayedSession k =>
      rw [granted_none rfl]
      exact delayedSession_pays hm cfg sys k
    | session x e =>
      rw [granted_none rfl]
      exact sessionEvent_pays hw hm hauto sys x e
    | connectStop =>
      rw [granted_none rfl]
      exact Pays.same hm ⟨rfl, rfl, rfl⟩ (Grows.same rfl rfl rfl rfl (Or.inl rfl))
    | ref =>
      rw [granted_none rfl]
      exact Pays.same hm ⟨rfl, rfl, rfl⟩ (Grows.same rfl rfl rfl rfl (Or.inl rfl))
    | unref =>
      rw [granted_none rfl]
      exact unref_pays hm

end Seat

end Tlm
