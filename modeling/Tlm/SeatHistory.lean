import Mathlib.Order.Nat
import Tlm.SeatInvariant

/-!
# The history of a seat

A seat never forgets: its trace only gets longer, its handles and observers
keep their names and what they were created with, and a resolved default user
stays. `Seat.Grows P` says so of two seats, together with what kind of entries
the trace has gained (`P`); it composes, and every operation satisfies it for a
suitable `P`. A statement about the trace of whole runs then needs only the few
operations that write the entries it is about.

The first use is the end of sessions. The end of one session is normally
reported twice, by sessiond and by the exit of the child, and it can race with
errors; `always_oneEnd` says that each handle still closes the seat's session at
most once and causes at most one relogin.
-/

namespace Tlm

/-- A closing of the seat's session, or the relogin after it. -/
def Act.isEnd : Act → Bool
  | .closed _ => true
  | .relogin _ => true
  | _ => false

/-- The start of a session, or the call that has led to it. -/
def Act.isStart : Act → Bool
  | .sessionRemoteCreate _ _ _ _ => true
  | .createSession _ (.started _ _) => true
  | _ => false

/-- Neither the start nor the end of a session. -/
def Act.IsPlain (a : Act) : Prop := a.isEnd = false ∧ a.isStart = false

namespace Seat

/-- `s'` is `s` some time later, and all the trace has gained satisfies `P`. -/
structure Grows (P : Act → Prop) (s s' : Seat) : Prop where
  /-- the trace gets longer -/
  trace : ∃ acts, s'.trace = s.trace ++ acts ∧ ∀ a ∈ acts, P a
  /-- an observer that came up is new, and for logout and switch -/
  news : ∀ acts, s'.trace = s.trace ++ acts → ∀ o args, Act.observerNew o args ∈ acts →
    s.observers.next ≤ o ∧ o < s'.observers.next ∧
      args.enableFlags = enableLogoutUser ||| enableSwitchUser
  /-- no handle is forgotten -/
  sessionsNext : s.sessions.next ≤ s'.sessions.next
  /-- no observer is forgotten -/
  observersNext : s.observers.next ≤ s'.observers.next
  /-- a handle stays for whom it is -/
  username : ∀ x < s.sessions.next, (s'.sessions.get x).username = (s.sessions.get x).username
  /-- an observer stays what it was created with -/
  observer : ∀ o < s.observers.next, s'.observers.get o = s.observers.get o
  /-- a resolved default user stays -/
  defaultUser : ∀ d, s.defaultUser = some d → s'.defaultUser = some d
  /-- the session is kept, or dropped, or a new one -/
  session : s'.session = s.session ∨ s'.session = none ∨
    ∃ x, s'.session = some x ∧ s.sessions.next ≤ x ∧ x < s'.sessions.next

variable {P Q : Act → Prop} {Looked : String → ℕ → Prop} {cfg : Config} {sys : Sys}
  {args : LoginArgs} {s s' s'' : Seat}

theorem Grows.trans (h₁ : Grows P s s') (h₂ : Grows P s' s'') : Grows P s s'' := by
  obtain ⟨acts₁, ht₁, hP₁⟩ := h₁.trace
  obtain ⟨acts₂, ht₂, hP₂⟩ := h₂.trace
  refine ⟨⟨acts₁ ++ acts₂, ?_, ?_⟩, ?_, h₁.sessionsNext.trans h₂.sessionsNext,
    h₁.observersNext.trans h₂.observersNext, ?_, ?_, ?_, ?_⟩
  · rw [ht₂, ht₁, List.append_assoc]
  · intro a ha
    rcases List.mem_append.mp ha with ha | ha
    · exact hP₁ a ha
    · exact hP₂ a ha
  · intro acts ht o args hm
    rw [ht₂, ht₁, List.append_assoc] at ht
    rw [← List.append_cancel_left ht] at hm
    rcases List.mem_append.mp hm with hm | hm
    · obtain ⟨hle, hlt, hf⟩ := h₁.news acts₁ ht₁ o args hm
      exact ⟨hle, lt_of_lt_of_le hlt h₂.observersNext, hf⟩
    · obtain ⟨hle, hlt, hf⟩ := h₂.news acts₂ ht₂ o args hm
      exact ⟨h₁.observersNext.trans hle, hlt, hf⟩
  · intro x hx
    rw [h₂.username x (lt_of_lt_of_le hx h₁.sessionsNext), h₁.username x hx]
  · intro o ho
    rw [h₂.observer o (lt_of_lt_of_le ho h₁.observersNext), h₁.observer o ho]
  · exact fun d hd => h₂.defaultUser d (h₁.defaultUser d hd)
  · rcases h₂.session with h | h | ⟨x, hx, hle, hlt⟩
    · rw [h]
      rcases h₁.session with h | h | ⟨x, hx, hle, hlt⟩
      · exact Or.inl h
      · exact Or.inr (Or.inl h)
      · exact Or.inr (Or.inr ⟨x, hx, hle, lt_of_lt_of_le hlt h₂.sessionsNext⟩)
    · exact Or.inr (Or.inl h)
    · exact Or.inr (Or.inr ⟨x, hx, h₁.sessionsNext.trans hle, hlt⟩)

theorem Grows.imp (hPQ : ∀ a, P a → Q a) (h : Grows P s s') : Grows Q s s' := by
  obtain ⟨acts, ht, hP⟩ := h.trace
  exact { h with trace := ⟨acts, ht, fun a ha => hPQ a (hP a ha)⟩ }

/-- The fields `Grows` reads; the others may change freely. -/
theorem Grows.of_eq (acts : List Act) (ht : s'.trace = s.trace ++ acts) (hP : ∀ a ∈ acts, P a)
    (hn : ∀ o args, Act.observerNew o args ∉ acts) (h₁ : s'.sessions = s.sessions) (h₂ : s'.observers = s.observers)
    (h₃ : s'.defaultUser = s.defaultUser) (h₄ : s'.session = s.session ∨ s'.session = none) :
    Grows P s s' := by
  refine ⟨⟨acts, ht, hP⟩, ?_, ?_, ?_, ?_, ?_, ?_, h₄.imp_right Or.inl⟩
  · intro acts' ht' o args hm
    rw [ht] at ht'
    rw [← List.append_cancel_left ht'] at hm
    exact absurd hm (hn o args)
  · rw [h₁]
  · rw [h₂]
  · exact fun x _ => by rw [h₁]
  · exact fun o _ => by rw [h₂]
  · exact fun d hd => by rw [h₃, hd]

/-- Nothing `Grows` reads has changed, except that the session may be gone. -/
theorem Grows.same (h₀ : s'.trace = s.trace) (h₁ : s'.sessions = s.sessions)
    (h₂ : s'.observers = s.observers) (h₃ : s'.defaultUser = s.defaultUser)
    (h₄ : s'.session = s.session ∨ s'.session = none) : Grows P s s' :=
  Grows.of_eq [] (by rw [h₀, List.append_nil]) (by simp) (by simp) h₁ h₂ h₃ h₄

theorem Grows.refl (P : Act → Prop) (s : Seat) : Grows P s s :=
  Grows.same rfl rfl rfl rfl (Or.inl rfl)

theorem grows_emit {a : Act} (ha : P a) (hn : ∀ o args, Act.observerNew o args ≠ a) :
    Grows P s (s.emit a) := by
  refine Grows.of_eq [a] rfl ?_ ?_ rfl rfl rfl (Or.inl rfl)
  · intro b hb
    rw [List.mem_singleton.mp hb]
    exact ha
  · intro o args hm
    exact hn o args (List.mem_singleton.mp hm)

/-- Replacing a handle by one for the same user adds nothing. -/
theorem grows_setSession {x : SessionRef} {m : SessionRemote}
    (hm : m.username = (s.sessions.get x).username) : Grows P s (s.setSession x m) := by
  refine ⟨⟨[], (List.append_nil _).symm, by simp⟩, ?_, le_refl _, le_refl _, ?_,
    fun _ _ => rfl, fun _ h => h, Or.inl rfl⟩
  · intro acts ht o args hm
    rw [List.self_eq_append_right.mp ht] at hm
    cases hm
  intro y _
  change ((s.sessions.set x m).get y).username = _
  rw [Store.get_set]
  split
  · rename_i hy
    rw [hy, hm]
  · rfl

/-! ## The operations -/

theorem clearDbusObserver_grows (s : Seat) : Grows Act.IsPlain s s.clearDbusObserver := by
  simp only [clearDbusObserver]
  split
  · exact Grows.refl _ s
  · rename_i o _
    exact Grows.of_eq [.observerDispose o] rfl (by simp [Act.IsPlain, Act.isEnd, Act.isStart])
      (by simp) rfl rfl rfl (Or.inl rfl)

theorem clearPrevDbusObserver_grows (s : Seat) : Grows Act.IsPlain s s.clearPrevDbusObserver := by
  simp only [clearPrevDbusObserver]
  split
  · exact Grows.refl _ s
  · rename_i o _
    exact Grows.of_eq [.observerDispose o] rfl (by simp [Act.IsPlain, Act.isEnd, Act.isStart])
      (by simp) rfl rfl rfl (Or.inl rfl)

/-- Selecting the user may resolve the default user, and announces the login. -/
theorem selectUser_grows (cfg : Config) (args : LoginArgs) (s : Seat) :
    Grows Act.IsPlain s (s.selectUser cfg args) := by
  have hdef : ∀ d, s.defaultUser = some d → (s.selectUser cfg args).defaultUser = some d := by
    intro d hd
    simp only [selectUser, activateDefaultUser]
    split
    · exact hd
    · simp only [hd]
      rfl
  obtain ⟨du, da, acts, hacts, heq⟩ := selectUser_frame cfg args s
  rw [heq] at hdef ⊢
  refine ⟨⟨acts, rfl, ?_⟩, ?_, le_refl _, le_refl _, fun _ _ => rfl, fun _ _ => rfl, hdef,
    Or.inl rfl⟩
  · intro a ha
    obtain ⟨u, rfl⟩ := hacts a ha
    exact ⟨rfl, rfl⟩
  · intro acts' ht o args' hm
    rw [← List.append_cancel_left ht] at hm
    obtain ⟨u, hu⟩ := hacts _ hm
    cases hu

/-- Starting a session ends none, and starts none unless everything comes up. -/
theorem startSession_grows (cfg : Config) (sys : Sys) (args : LoginArgs) (s : Seat) :
    Grows (fun a => a.isEnd = false ∧ (¬ CanStart sys
        ((s.selectUser cfg args).sessionUser args.username) → a.isStart = false))
      s (s.startSession cfg sys args).1 := by
  refine ((selectUser_grows cfg args s).imp fun a ha => ⟨ha.1, fun _ => ha.2⟩).trans ?_
  have hget : ∀ (ss : Store SessionRemote) m, ∀ x < ss.next,
      ((ss.alloc m).get x).username = (ss.get x).username := by
    intro ss m x hx
    rw [Store.get_alloc_ne _ _ (Nat.ne_of_lt hx)]
  rcases startSession_cases cfg sys args s with
    ⟨hn, ss, hss, heq⟩ | ⟨hn, heq⟩ | ⟨hc, uid, huid, heq⟩
  · rw [heq]
    refine ⟨⟨_, rfl, by simp [Act.isEnd, Act.isStart]⟩, ?_, ?_, le_refl _, ?_, fun _ _ => rfl,
      fun _ h => h, Or.inl rfl⟩
    · intro acts ht o args' hm
      rw [← List.append_cancel_left ht] at hm
      simp at hm
    · rcases hss with rfl | rfl
      · exact le_refl _
      · exact Nat.le_succ _
    · rcases hss with rfl | rfl
      · exact fun _ _ => rfl
      · exact hget _ _
  · rw [heq]
    refine ⟨⟨_, rfl, by simp [Act.isEnd, Act.isStart]⟩, ?_, Nat.le_succ _, le_refl _, hget _ _,
      fun _ _ => rfl, fun _ h => h, Or.inr (Or.inl rfl)⟩
    intro acts ht o args' hm
    rw [← List.append_cancel_left ht] at hm
    simp at hm
  · rw [heq]
    refine ⟨⟨_, rfl, ?_⟩, ?_, Nat.le_succ _, Nat.le_succ _, hget _ _, ?_, fun _ h => h,
      Or.inr (Or.inr ⟨_, rfl, le_refl _, Nat.lt_succ_self _⟩)⟩
    · intro a ha
      refine ⟨?_, fun hn => absurd hc hn⟩
      simp only [List.mem_cons, List.not_mem_nil, or_false] at ha
      rcases ha with rfl | rfl | rfl <;> rfl
    · intro acts ht o args' hm
      rw [← List.append_cancel_left ht] at hm
      simp only [List.mem_cons, Act.observerNew.injEq, reduceCtorEq, List.not_mem_nil,
        or_false] at hm
      obtain ⟨rfl, rfl⟩ := hm
      exact ⟨le_refl _, Nat.lt_succ_self _, rfl⟩
    · intro o ho
      exact Store.get_alloc_ne _ _ (Nat.ne_of_lt ho)

/-- A call of `tlm_seat_create_session` ends no session. -/
theorem createSession_grows (cfg : Config) (sys : Sys) (args : LoginArgs) (s : Seat) :
    Grows (fun a => a.isEnd = false) s (s.createSession cfg sys args).1 := by
  rcases createSession_cases cfg sys args s with ⟨-, heq⟩ | ⟨-, -, c, heq⟩ | ⟨-, -, c, heq⟩
  · rw [heq]
    exact Grows.of_eq _ rfl (by simp [Act.isEnd]) (by simp) rfl rfl rfl (Or.inl rfl)
  · rw [heq]
    exact Grows.of_eq _ rfl (by simp [Act.isEnd]) (by simp) rfl rfl rfl (Or.inl rfl)
  · rw [heq]
    have h₁ : Grows (fun a => a.isEnd = false) s { s with prevTime := sys.now, prevCount := c } :=
      Grows.same rfl rfl rfl rfl (Or.inl rfl)
    exact h₁.trans ((startSession_grows cfg sys args _).imp fun _ ha => ha.1)

theorem terminateSession_grows (s : Seat) : Grows Act.IsPlain s s.terminateSession.1 := by
  obtain ⟨acts, hacts, h⟩ := terminateSession_cases s
  have hplain : ∀ a ∈ acts, a.IsPlain := by
    rcases hacts with rfl | rfl
    · simp
    · simp [Act.IsPlain, Act.isEnd, Act.isStart]
  have hnew : ∀ o args, Act.observerNew o args ∉ acts := by
    rcases hacts with rfl | rfl <;> simp
  rcases h with ⟨x, hx, -, heq⟩ | ⟨-, heq⟩
  · rw [heq]
    have h₁ : Grows Act.IsPlain s (s.setSession x (s.sessions.get x).terminate.1) :=
      grows_setSession (SessionRemote.sameIdentity_terminate _).1
    exact h₁.trans (Grows.of_eq acts rfl hplain hnew rfl rfl rfl (Or.inl rfl))
  · rw [heq]
    refine Grows.of_eq (acts ++ [.sessionError TlmError.sessionNotValid.code])
      (List.append_assoc _ _ _) ?_ ?_ rfl rfl rfl (Or.inl rfl)
    · intro a ha
      rcases List.mem_append.mp ha with ha | ha
      · exact hplain a ha
      · rw [List.mem_singleton.mp ha]
        exact ⟨rfl, rfl⟩
    · intro o args hm
      exact hnew o args (by simpa using hm)

theorem switchUser_grows (cfg : Config) (sys : Sys) (args : LoginArgs) (s : Seat) :
    Grows (fun a => a.isEnd = false) s (s.switchUser cfg sys args).1 := by
  rcases switchUser_cases cfg sys args s with ⟨-, heq⟩ | ⟨-, -, heq⟩ | ⟨-, -, heq⟩
  · rw [heq]
    exact Grows.refl _ s
  · rw [heq]
    exact createSession_grows cfg sys args s
  · rw [heq]
    have h₁ : Grows (fun a => a.isEnd = false) s (s.withNext args) :=
      Grows.same rfl rfl rfl rfl (Or.inl rfl)
    exact h₁.trans ((terminateSession_grows _).imp fun _ ha => ha.1)

theorem disposeSession_grows (s : Seat) (x : SessionRef) :
    Grows Act.IsPlain s (s.disposeSession x) :=
  grows_setSession (SessionRemote.sameIdentity_dispose _).1

theorem released_grows (x : SessionRef) (s : Seat) : Grows Act.IsPlain s (s.released x) := by
  simp only [released]
  split
  · exact Grows.refl _ s
  · exact disposeSession_grows s x

theorem clearSession_grows (emitter : Option SessionRef) (s : Seat) :
    Grows Act.IsPlain s (s.clearSession emitter) := by
  simp only [clearSession]
  split
  · exact Grows.refl _ s
  · rename_i x _
    have h₁ : Grows Act.IsPlain s (if emitter = some x then s else s.disposeSession x) := by
      split
      · exact Grows.refl _ s
      · exact disposeSession_grows s x
    exact h₁.trans (Grows.same rfl rfl rfl rfl (Or.inr rfl))

theorem disconnectSessionSignals_grows (s : Seat) :
    Grows Act.IsPlain s s.disconnectSessionSignals := by
  simp only [disconnectSessionSignals]
  split
  · exact Grows.refl _ s
  · exact grows_setSession rfl

/-- Closing the session starts none. -/
theorem closeActiveSession_grows (s : Seat) (x : SessionRef) :
    Grows (fun a => a.isStart = false) s (s.closeActiveSession x) := by
  have h₁ : Grows (fun a => a.isStart = false) s
      (if s.session.isSome then s.emit (.closed x) else s) := by
    split
    · exact grows_emit rfl (by simp)
    · exact Grows.refl _ s
  exact h₁.trans (((disconnectSessionSignals_grows _).trans (clearSession_grows _ _)).imp
    fun _ ha => ha.2)

theorem dispose_grows (s : Seat) : Grows Act.IsPlain s s.dispose :=
  (((clearDbusObserver_grows s).trans (clearPrevDbusObserver_grows _)).trans
    (disconnectSessionSignals_grows _)).trans (clearSession_grows _ _)

theorem unref_grows (s : Seat) : Grows Act.IsPlain s s.unref := by
  simp only [unref]
  split
  · exact (dispose_grows s).trans (Grows.same rfl rfl rfl rfl (Or.inl rfl))
  · exact Grows.same rfl rfl rfl rfl (Or.inl rfl)

theorem delayedSession_grows (cfg : Config) (sys : Sys) (k : ℕ) (s : Seat) :
    Grows (fun a => a.isEnd = false) s (s.delayedSession cfg sys k) := by
  simp only [delayedSession]
  split
  · exact Grows.refl _ s
  · rename_i args _
    have h₁ : Grows (fun a => a.isEnd = false) s
        { s with closures := s.closures.eraseIdx k } :=
      Grows.same rfl rfl rfl rfl (Or.inl rfl)
    exact (h₁.trans (createSession_grows cfg sys args _)).trans
      ((unref_grows _).imp fun _ ha => ha.1)

/-! ## One end per session -/

/-- Each handle has closed the seat's session at most once — the current one
and those to come not at all — and relogged in no more often than that. -/
structure OneEnd (s : Seat) : Prop where
  current : ∀ x, s.session = some x → x < s.sessions.next ∧ s.trace.count (.closed x) = 0
  fresh : ∀ x, s.sessions.next ≤ x → s.trace.count (.closed x) = 0
  closed : ∀ x, s.trace.count (.closed x) ≤ 1
  relogin : ∀ x, s.trace.count (.relogin x) ≤ s.trace.count (.closed x)

theorem oneEnd_new (id : String) : (Seat.new id).OneEnd := by
  refine ⟨?_, fun _ _ => rfl, fun _ => Nat.zero_le _, fun _ => Nat.zero_le _⟩
  intro x hx
  cases hx

/-- Entries that are no ends leave the counts of ends alone. -/
theorem Grows.count_end (h : Grows (fun a => a.isEnd = false) s s') {a : Act}
    (ha : a.isEnd = true) : s'.trace.count a = s.trace.count a := by
  obtain ⟨acts, ht, hP⟩ := h.trace
  have hzero : acts.count a = 0 := by
    rw [List.count_eq_zero]
    intro hmem
    rw [hP a hmem] at ha
    cases ha
  rw [ht, List.count_append, hzero, Nat.add_zero]

theorem OneEnd.grows (h : s.OneEnd) (hg : Grows (fun a => a.isEnd = false) s s') : s'.OneEnd := by
  have hc : ∀ x, s'.trace.count (.closed x) = s.trace.count (.closed x) :=
    fun x => hg.count_end rfl
  have hr : ∀ x, s'.trace.count (.relogin x) = s.trace.count (.relogin x) :=
    fun x => hg.count_end rfl
  refine ⟨?_, ?_, ?_, ?_⟩
  · intro x hx
    rw [hc]
    rcases hg.session with hs | hs | ⟨y, hy, hle, hlt⟩
    · obtain ⟨h₁, h₂⟩ := h.current x (hs ▸ hx)
      exact ⟨lt_of_lt_of_le h₁ hg.sessionsNext, h₂⟩
    · rw [hs] at hx
      cases hx
    · rw [hy] at hx
      obtain rfl := Option.some.inj hx
      exact ⟨hlt, h.fresh _ hle⟩
  · intro x hx
    rw [hc]
    exact h.fresh x (hg.sessionsNext.trans hx)
  · intro x
    rw [hc]
    exact h.closed x
  · intro x
    rw [hc, hr]
    exact h.relogin x

/-- Closing the current session is its one end; no relogin has followed yet. -/
theorem OneEnd.close (h : s.OneEnd) {x : SessionRef} (hx : s.session = some x) :
    (s.closeActiveSession x).OneEnd ∧
      (s.closeActiveSession x).trace.count (.relogin x) <
        (s.closeActiveSession x).trace.count (.closed x) := by
  obtain ⟨hlt, hzero⟩ := h.current x hx
  have hclosed : ∀ y, (s.trace ++ [Act.closed x]).count (.closed y) =
      s.trace.count (.closed y) + if y = x then 1 else 0 := by
    intro y
    rw [List.count_append, List.count_singleton]
    by_cases hy : y = x
    · simp [hy]
    · simp [hy, Ne.symm hy]
  have hrelogin : ∀ y, (s.trace ++ [Act.closed x]).count (.relogin y) =
      s.trace.count (.relogin y) := by
    intro y
    simp [List.count_append]
  rw [closeActiveSession_some hx]
  refine ⟨⟨?_, ?_, ?_, ?_⟩, ?_⟩
  · intro y hy
    cases hy
  · intro y hy
    have hne : y ≠ x := Nat.ne_of_gt (lt_of_lt_of_le hlt hy)
    rw [hclosed, if_neg hne]
    exact h.fresh y hy
  · intro y
    rw [hclosed]
    by_cases hy : y = x
    · rw [if_pos hy, hy, hzero]
    · rw [if_neg hy]
      exact h.closed y
  · intro y
    rw [hclosed, hrelogin]
    exact (h.relogin y).trans (Nat.le_add_right _ _)
  · have hle := h.relogin x
    rw [hclosed, hrelogin, if_pos rfl, hzero]
    omega

/-- A relogin for a handle whose end has had none yet. -/
theorem OneEnd.emit_relogin (h : s.OneEnd) {x : SessionRef}
    (hx : s.trace.count (.relogin x) < s.trace.count (.closed x)) :
    (s.emit (.relogin x)).OneEnd := by
  have hclosed : ∀ y, (s.trace ++ [Act.relogin x]).count (.closed y) =
      s.trace.count (.closed y) := by
    intro y
    simp [List.count_append]
  refine ⟨?_, ?_, ?_, ?_⟩
  · intro y hy
    exact ⟨(h.current y hy).1, (hclosed y).trans (h.current y hy).2⟩
  · exact fun y hy => (hclosed y).trans (h.fresh y hy)
  · exact fun y => (hclosed y).trans_le (h.closed y)
  · intro y
    change (s.trace ++ [Act.relogin x]).count (.relogin y) ≤
      (s.trace ++ [Act.relogin x]).count (.closed y)
    rw [hclosed, List.count_append, List.count_singleton]
    have hle := h.relogin y
    by_cases hy : y = x
    · rw [hy] at hle ⊢
      simp
      omega
    · simp [Ne.symm hy]
      exact hle

theorem handleSessionTerminated_oneEnd (h : s.OneEnd) {x : SessionRef}
    (hx : s.session = some x) : (s.handleSessionTerminated cfg sys x).OneEnd := by
  obtain ⟨hclose, hlt⟩ := h.close hx
  have hemit : Grows (fun a => a.isEnd = false) (s.closeActiveSession x)
      ((s.closeActiveSession x).emit .sessionTerminated) := grows_emit rfl (by simp)
  have hclear := hemit.trans ((clearDbusObserver_grows _).imp fun _ ha => ha.1)
  simp only [handleSessionTerminated, terminated]
  split
  · exact hclose.grows (hemit.trans (Grows.same rfl rfl rfl rfl (Or.inl rfl)))
  · split
    · exact hclose.grows (hclear.trans (grows_emit rfl (by simp)))
    · split
      · -- the relogin is the first one after this end
        rw [← hclear.count_end rfl, ← hclear.count_end rfl] at hlt
        refine ((hclose.grows hclear).emit_relogin hlt).grows ?_
        exact (createSession_grows _ _ _ _).trans (Grows.same rfl rfl rfl rfl (Or.inl rfl))
      · exact hclose.grows hclear

theorem handleError_oneEnd (h : s.OneEnd) {x : SessionRef} (hx : s.session = some x) (code : ℤ) :
    (s.handleError code x).OneEnd := by
  have hemit : (s.emit (.sessionError code)).OneEnd := h.grows (grows_emit rfl (by simp))
  simp only [handleError]
  split
  · have hx' : (s.emit (.sessionError code)).session = some x := hx
    exact (hemit.close hx').1.grows ((clearDbusObserver_grows _).imp fun _ ha => ha.1)
  · exact hemit

theorem handleSessionCreated_grows (s : Seat) : Grows Act.IsPlain s s.handleSessionCreated := by
  have hemit : Grows Act.IsPlain s (s.emit .sessionCreated) := grows_emit ⟨rfl, rfl⟩ (by simp)
  exact hemit.trans (clearPrevDbusObserver_grows _)

/-- An event of any handle, current or not. -/
theorem sessionEvent_oneEnd (hl : s.Linked Looked) (h : s.OneEnd) (x : SessionRef)
    (e : SessionEvent) : (s.sessionEvent cfg sys x e).OneEnd := by
  have hid := SessionRemote.sameIdentity_handle (s.sessions.get x) e
  have hset : (s.setSession x ((s.sessions.get x).handle e).1).OneEnd :=
    h.grows (grows_setSession hid.1)
  by_cases hx : s.session = some x
  · rcases sessionEvent_current hl hx cfg sys e with ⟨-, heq⟩ | ⟨g, -, heq⟩
    · rw [heq]
      exact hset
    · rw [heq]
      refine OneEnd.grows ?_ ((released_grows x _).imp fun _ ha => ha.1)
      cases g with
      | created => exact hset.grows ((handleSessionCreated_grows _).imp fun _ ha => ha.1)
      | terminated => exact handleSessionTerminated_oneEnd hset hx
      | error code => exact handleError_oneEnd hset hx code
  · rw [sessionEvent_stale hl hx]
    exact hset

theorem step_oneEnd (hl : s.Linked Looked) (h : s.OneEnd) (st : SeatStep) :
    (s.step st).OneEnd := by
  simp only [step]
  split
  · exact h
  · simp only [dispatch]
    cases st.event with
    | createSession args => exact h.grows (createSession_grows _ _ _ _)
    | switchUser args => exact h.grows (switchUser_grows _ _ _ _)
    | terminateSession => exact h.grows ((terminateSession_grows s).imp fun _ ha => ha.1)
    | delayedSession k => exact h.grows (delayedSession_grows _ _ _ _)
    | session x e => exact sessionEvent_oneEnd hl h x e
    | connectStop =>
      exact h.grows (Grows.same rfl rfl rfl rfl (Or.inl rfl))
    | ref =>
      exact h.grows (Grows.same rfl rfl rfl rfl (Or.inl rfl))
    | unref => exact h.grows ((unref_grows s).imp fun _ ha => ha.1)

/-- Whatever the interleaving of the events of all handles ever created. -/
theorem always_oneEnd (id : String) (sts : List SeatStep) :
    Always step OneEnd (Seat.new id) sts := by
  have hstep : ∀ (s : Seat) (st : SeatStep), st ∈ sts →
      s.Wf (LookedUp sts) ∧ s.OneEnd → (s.step st).Wf (LookedUp sts) ∧ (s.step st).OneEnd := by
    rintro s st hst ⟨hw, ho⟩
    exact ⟨step_wf hw fun u n hu => ⟨st, hst, hu⟩, step_oneEnd hw.toLinked ho st⟩
  exact (always_of_step hstep ⟨wf_new id, oneEnd_new id⟩ fun _ hst => hst).imp fun _ h => h.2

end Seat

end Tlm
