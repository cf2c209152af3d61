import Tlm.SessionLink

/-!
# The steps of a session link

What one step does to either end, said once. A step of the daemon's side is at most one step of
the handle (`step_near`), and leaves the process as it is; every other step leaves the handle
as it is (`step_elsewhere`). For the process and the pipe there are nine kinds of steps
(`step_farStep`), and the effect of a signal (`deliver_sessiond`).
-/

namespace Tlm

namespace SessionLink

variable {restores : Bool} {l : SessionLink}

/-! ## What the handle sends -/

/-- The signals that a step of the handle sends. -/
def sent (r r' : Remote) : List KillSignal :=
  (r'.remote.kills.drop r.remote.kills.length).map Prod.fst

theorem foldl_send (sigs : List KillSignal) :
    sigs.foldl send l = { l with pending := (sigs.foldl send l).pending } := by
  induction sigs generalizing l with
  | nil => rfl
  | cons sig sigs ih =>
    rw [List.foldl_cons, ih]
    simp only [send]
    split <;> rfl

theorem mem_foldl_send (sigs : List KillSignal) (sig : KillSignal) :
    sig ∈ (sigs.foldl send l).pending ↔
      sig ∈ l.pending ∨ sig ∈ sigs ∧ l.sessiond.phase ≠ .gone := by
  induction sigs generalizing l with
  | nil => simp
  | cons first sigs ih =>
    have hphase : (l.send first).sessiond = l.sessiond := by
      simp only [send]
      split <;> rfl
    rw [List.foldl_cons, ih, hphase]
    simp only [send, List.mem_cons]
    split
    · rename_i h
      constructor
      · rintro (h' | ⟨h', hp⟩)
        · exact .inl h'
        · exact .inr ⟨.inr h', hp⟩
      · rintro (h' | ⟨rfl | h', hp⟩)
        · exact .inl h'
        · exact .inl (h.resolve_left hp)
        · exact .inr ⟨h', hp⟩
    · rename_i h
      obtain ⟨hp, -⟩ := not_or.mp h
      simp only [List.mem_append, List.mem_singleton, hp, not_false_eq_true, and_true, ne_eq]
      constructor
      · rintro ((h' | rfl) | h')
        · exact .inl h'
        · exact .inr (.inl rfl)
        · exact .inr (.inr h')
      · rintro (h' | rfl | h')
        · exact .inl (.inl h')
        · exact .inl (.inr rfl)
        · exact .inr h'

theorem act_daemon (st : RemoteStep) : (l.act st).daemon = l.daemon.step st ∧
    (l.act st).daemonUp = l.daemonUp ∧ (l.act st).sessiond = l.sessiond := by
  simp only [act]
  rw [foldl_send]
  exact ⟨rfl, rfl, rfl⟩

theorem mem_act_pending (st : RemoteStep) (sig : KillSignal) :
    sig ∈ (l.act st).pending ↔ sig ∈ l.pending ∨
      sig ∈ sent l.daemon (l.daemon.step st) ∧ l.sessiond.phase ≠ .gone := by
  simp only [act]
  exact mem_foldl_send _ sig

theorem send_daemon (sig : KillSignal) : (l.send sig).daemon = l.daemon := by
  simp only [send]
  split <;> rfl

/-! ## The handle -/

/-- The steps that do not touch the handle. -/
def Elsewhere : LinkStep → Prop
  | .terminate | .dispose | .tick _ | .hear | .reap | .broken _ => False
  | _ => True

theorem step_elsewhere {st : LinkStep} (h : Elsewhere st) :
    (l.step restores st).daemon = l.daemon := by
  cases st with
  | daemonDies =>
    simp only [step]
    split
    · rfl
    · exact send_daemon _
  | boot => simp only [step]; split <;> rfl
  | bootFails => simp only [step]; split <;> rfl
  | serve cfg host =>
    simp only [step]
    split
    · rfl
    · split <;> rfl
  | deliver sig k =>
    simp only [step]
    split
    · split <;> rfl
    · rfl
  | leave pam k => simp only [step]; split <;> rfl
  | connectionClosed pam k => simp only [step]; split <;> rfl
  | sessionTick pam source => rfl
  | childDown pam w => rfl
  | exit => rfl
  | userExits => rfl
  | signal sig => exact send_daemon sig
  | _ => exact absurd h id

/-- What the handle is to do in one of the other steps. -/
inductive Asks (l : SessionLink) : LinkStep → RemoteStep → Prop
  | terminate (h : l.daemon.phase = .alive) : Asks l .terminate .terminate
  | dispose : Asks l .dispose .dispose
  | tick (source : ℕ) : Asks l (.tick source) (.event (.terminateTimeout source))
  | hear (e : SessionEvent) (hdown : e ≠ .childDown)
      (htick : ∀ source, e ≠ .terminateTimeout source) : Asks l .hear (.event e)
  | reap : Asks l .reap (.event .childDown)
  | broken (code : ℤ) : Asks l (.broken code) (.event (.createReply (some code)))

/-- **The other steps** are one step of the handle, or none, behind a message that is taken from
the pipe. -/
theorem step_near (restores : Bool) (l : SessionLink) {st : LinkStep} (h : ¬ Elsewhere st) :
    ∃ ms, ms.sent = l.messages.sent ∧ (l.step restores st = { l with messages := ms } ∨
      ∃ rst, Asks l st rst ∧
        l.step restores st = ({ l with messages := ms } : SessionLink).act rst) := by
  have hguard : ∀ {b : Prop} [Decidable b] {rst : RemoteStep}, (b → Asks l st rst) →
      ∃ ms, ms.sent = l.messages.sent ∧
        ((if b then l.act rst else l) = { l with messages := ms } ∨ ∃ rst', Asks l st rst' ∧
          (if b then l.act rst else l) = ({ l with messages := ms } : SessionLink).act rst') := by
    intro b _ rst hasks
    refine ⟨l.messages, rfl, ?_⟩
    split
    · exact .inr ⟨rst, hasks ‹_›, rfl⟩
    · exact .inl rfl
  cases st with
  | terminate => exact hguard fun hb => .terminate hb.2
  | dispose => exact hguard fun _ => .dispose
  | tick source => exact hguard fun _ => .tick source
  | hear =>
    simp only [step]
    split
    · exact ⟨l.messages, rfl, .inl rfl⟩
    · rename_i m rest hqueue
      split
      · refine ⟨l.messages.hear, Channel.sent_hear, ?_⟩
        split
        · exact .inl rfl
        · rename_i e he
          refine .inr ⟨.event e, .hear e ?_ ?_, rfl⟩
          · rintro rfl
            cases m <;> cases he
          · rintro source rfl
            cases m <;> cases he
      · exact ⟨l.messages, rfl, .inl rfl⟩
  | reap => exact hguard fun _ => .reap
  | broken code => exact hguard fun _ => .broken code
  | _ => exact absurd trivial h

/-! ## The process -/

/-- The calls, all that was said so far, and the process. -/
def far (l : SessionLink) : Channel LinkCall × List LinkMessage × Sessiond :=
  (l.calls, l.messages.sent, l.sessiond)

@[simp] theorem send_far (sig : KillSignal) : (l.send sig).far = l.far := by
  simp only [send]
  split <;> rfl

theorem foldl_send_far (sigs : List KillSignal) : (sigs.foldl send l).far = l.far := by
  induction sigs generalizing l with
  | nil => rfl
  | cons sig sigs ih => rw [List.foldl_cons, ih, send_far]

@[simp] theorem act_far (st : RemoteStep) : (l.act st).far = l.far := by
  simp only [act, foldl_send_far]
  rfl

@[simp] theorem drop_far (k : ℕ) (p : Sessiond) :
    (l.drop k p).far = (l.calls, l.messages.sent, p) := by
  simp only [drop, far]
  split
  · rw [Channel.sent_close]
  · rfl

@[simp] theorem put_far (p : Sessiond × List LinkMessage) :
    (l.put p).far = (l.calls, l.messages.sent ++ p.2, p.1) := by
  simp [put, far]

/-- The steps of a link but the delivery of a signal, as the process and the pipe see
them. -/
inductive FarStep : Channel LinkCall × List LinkMessage × Sessiond →
    Channel LinkCall × List LinkMessage × Sessiond → Prop
  | none (x) : FarStep x x
  | boot (cs ms p) (h : p.phase = .booting) :
    FarStep (cs, ms, p) (cs, ms, { p with phase := .running })
  | die (cs ms p) (h : p.phase = .booting) : FarStep (cs, ms, p) (cs, ms, p.die)
  | serve (cs ms p cfg host c rest) (hc : cs.queue = c :: rest) (h : p.phase = .running) :
    FarStep (cs, ms, p) (cs.hear, ms ++ (p.serve cfg host c).2, (p.serve cfg host c).1)
  | dispose (cs ms p pam) (h : p.phase = .running) : FarStep (cs, ms, p) (cs, ms, p.dispose pam)
  | sessionTick (cs ms p pam source) : FarStep (cs, ms, p)
      (cs, ms ++ (p.terminateTimeout pam source).2, (p.terminateTimeout pam source).1)
  | childDown (cs ms p pam w) : FarStep (cs, ms, p)
      (cs, ms ++ (p.childDown pam w).2, (p.childDown pam w).1)
  | exit (cs ms p) : FarStep (cs, ms, p) (cs, ms, p.exit)
  | userExits (cs ms p) : FarStep (cs, ms, p) (cs, ms, { p with userUp := false })

/-- A signal takes effect, or was not pending. -/
theorem deliver_far (restores : Bool) (l : SessionLink) (sig : KillSignal) (k : ℕ) :
    (l.step restores (.deliver sig k)).far =
      if sig ∈ l.pending then (l.calls, l.messages.sent, l.sessiond.deliver restores sig)
      else l.far := by
  simp only [step]
  split
  · split
    · rw [drop_far]
    · rfl
  · rfl

theorem deliver_sessiond (restores : Bool) (l : SessionLink) (sig : KillSignal) (k : ℕ) :
    (l.step restores (.deliver sig k)).sessiond =
      if sig ∈ l.pending then l.sessiond.deliver restores sig else l.sessiond := by
  have hfar := congrArg (fun x : _ × _ × Sessiond => x.2.2) (deliver_far restores l sig k)
  change (l.step restores (.deliver sig k)).sessiond = _ at hfar
  rw [hfar]
  split <;> rfl

/-- **Every other step of a link is one of these.** -/
theorem step_farStep (restores : Bool) (l : SessionLink) (st : LinkStep)
    (hst : ∀ sig k, st ≠ .deliver sig k) : FarStep l.far (l.step restores st).far := by
  by_cases hnear : Elsewhere st
  swap
  · obtain ⟨ms, hms, heq | ⟨rst, -, heq⟩⟩ := step_near restores l hnear
    · rw [heq, far, far, hms]
      exact .none _
    · rw [heq, act_far, far, far, hms]
      exact .none _
  cases st with
  | daemonDies =>
    simp only [step]
    split
    · exact .none _
    · rw [send_far]
      exact .none _
  | boot =>
    simp only [step]
    split
    · exact .boot _ _ _ ‹_›
    · exact .none _
  | bootFails =>
    simp only [step]
    split
    · rw [drop_far]
      exact .die _ _ _ ‹_›
    · exact .none _
  | serve cfg host =>
    simp only [step]
    split
    · exact .none _
    · rename_i c rest hqueue
      split
      · rw [put_far]
        exact .serve _ _ _ cfg host c rest hqueue ‹_›
      · exact .none _
  | deliver sig k => exact absurd rfl (hst sig k)
  | leave pam k =>
    simp only [step]
    split
    · rename_i h
      rw [drop_far, Sessiond.leave, if_pos h]
      exact .dispose _ _ _ pam h.1
    · exact .none _
  | connectionClosed pam k =>
    simp only [step]
    split
    · rename_i h
      rw [drop_far, Sessiond.connectionClosed, if_pos h.1]
      exact .dispose _ _ _ pam h.1
    · exact .none _
  | sessionTick pam source =>
    simp only [step, put_far]
    exact .sessionTick _ _ _ pam source
  | childDown pam w =>
    simp only [step, put_far]
    exact .childDown _ _ _ pam w
  | exit => exact .exit _ _ _
  | userExits => exact .userExits _ _ _
  | signal sig =>
    simp only [step, send_far]
    exact .none _
  | _ => exact absurd hnear id

end SessionLink

end Tlm
