import Tlm.SessionLinkTalk

/-!
# How a session process ends

What a session process holds on behalf of its user are the running command and the
PAM handle of the session. Its own way out, through the disposal of the session,
gives both back first; so something is left behind only when a signal ends the
process earlier (`run_leaves_nothing`). GLib's handlers are there from the main loop
on, and with them only the handle's third rung does that (`run_hup_leaves_nothing`).
-/

namespace Tlm

namespace Sessiond

/-- The process holds nothing of its user's. -/
structure Clean (p : Sessiond) : Prop where
  /-- the user's command has ended -/
  user : p.userUp = false
  /-- the PAM handle was ended -/
  handle : p.session.authSession = none

variable {p : Sessiond} {sent : List LinkMessage}

theorem iterating_of_gone (h : p.phase = .gone) : p.iterating = false := by
  simp [iterating, h]

/-- Without a child no command runs. -/
theorem Sane.userUp_of_childDown (h : p.Sane sent) (hdown : p.session.isChildUp = false) :
    p.userUp = false := by
  cases hup : p.userUp with
  | false => rfl
  | true => exact absurd ((h.up hup).symm.trans hdown) (by simp)

/-- Up to its main loop the process has nothing to hold. -/
theorem Sane.clean_of_booting (h : p.Sane sent) (hboot : p.phase = .booting) : p.Clean := by
  obtain ⟨-, hdown, -, hauth⟩ := h.fresh (.inl hboot) (h.booting hboot)
  exact ⟨h.userUp_of_childDown hdown, hauth⟩

/-- Behind the wait loop it holds nothing any more. -/
theorem Sane.clean_of_disposed (h : p.Sane sent) (hleft : p.phase = .disposing)
    (hdone : p.session.phase = .disposed) : p.Clean := by
  have hdown := h.done hdone
  exact ⟨h.userUp_of_childDown hdown, (h.left hleft).2.2 hdown⟩

end Sessiond

namespace SessionLink

variable {seatid service : String} {username : Option String} {creation : Option Creation}
  {x y : Channel LinkCall × List LinkMessage × Sessiond} {restores : Bool} {l : SessionLink}

/-! ## What is left behind -/

/-- The process is gone only if it holds nothing. -/
def LeavesNothing (p : Sessiond) : Prop := p.phase = .gone → p.Clean

/-- A signal ends a process that still holds something. -/
def Strikes (restores : Bool) (l : SessionLink) : LinkStep → Prop
  | .deliver sig _ => sig ∈ l.pending ∧ (l.sessiond.deliver restores sig).phase = .gone ∧
      ¬ l.sessiond.Clean
  | _ => False

theorem FarStep.leavesNothing (hstep : FarStep x y) (h : x.2.2.Sane x.2.1)
    (hx : LeavesNothing x.2.2) : LeavesNothing y.2.2 := by
  have hgone : ∀ {p q : Sessiond}, q.phase = p.phase →
      (p.phase = .gone → q.userUp = p.userUp ∧ q.session = p.session) →
      LeavesNothing p → LeavesNothing q := by
    intro p q hphase hsame hp hq
    have hpgone := hphase.symm.trans hq
    obtain ⟨huser, hsession⟩ := hsame hpgone
    obtain ⟨hdown, hhandle⟩ := hp hpgone
    exact ⟨huser.trans hdown, by rw [hsession]; exact hhandle⟩
  cases hstep with
  | none => exact hx
  | boot cs ms p hphase => exact fun hgone => by cases hgone
  | die cs ms p hphase =>
    obtain ⟨huser, hhandle⟩ := h.clean_of_booting hphase
    exact fun _ => ⟨huser, hhandle⟩
  | serve cs ms p cfg host c rest hc hrun =>
    intro hgone
    cases c with
    | sessionCreate password environment =>
      simp only [Sessiond.serve, Sessiond.createSession, Sessiond.advance] at hgone
      split at hgone
      · cases hgone
      · cases hrun.symm.trans hgone
    | setSeatid value => cases hrun.symm.trans hgone
    | setService value => cases hrun.symm.trans hgone
    | setUsername value => cases hrun.symm.trans hgone
  | dispose cs ms p pam hrun => exact fun hgone => by cases hgone
  | sessionTick cs ms p pam source =>
    refine hgone ?_ (fun hp => ?_) hx
    · simp only [Sessiond.terminateTimeout]
      split <;> rfl
    · simp [Sessiond.terminateTimeout, Sessiond.iterating_of_gone hp]
  | childDown cs ms p pam w =>
    refine hgone ?_ (fun hp => ?_) hx
    · simp only [Sessiond.childDown]
      split <;> rfl
    · simp [Sessiond.childDown, Sessiond.iterating_of_gone hp]
  | exit cs ms p =>
    simp only [Sessiond.exit]
    split
    · rename_i hdone
      obtain ⟨huser, hhandle⟩ := h.clean_of_disposed hdone.1 hdone.2
      exact fun _ => ⟨huser, hhandle⟩
    · exact hx
  | userExits cs ms p => exact fun hp => ⟨rfl, (hx hp).handle⟩

theorem deliver_leavesNothing_iff (sig : KillSignal) (k : ℕ) (h : LeavesNothing l.sessiond) :
    LeavesNothing (l.step restores (.deliver sig k)).sessiond ↔
      ¬ Strikes restores l (.deliver sig k) := by
  rw [deliver_sessiond]
  simp only [Strikes]
  by_cases hpending : sig ∈ l.pending
  · rw [if_pos hpending]
    have hclean : (l.sessiond.deliver restores sig).Clean ↔ l.sessiond.Clean := by
      obtain heq | heq | ⟨term, hup, heq⟩ := Sessiond.deliver_cases l.sessiond restores sig
      · rw [heq]
      all_goals
        rw [heq]
        exact ⟨fun hc => ⟨hc.user, hc.handle⟩, fun hc => ⟨hc.user, hc.handle⟩⟩
    simp only [LeavesNothing, hclean, hpending, true_and, not_and, not_not]
  · rw [if_neg hpending]
    exact iff_of_true h fun hstrikes => hpending hstrikes.1

/-- **What a session process leaves behind.** In every run: it is never gone while the
user's command runs or a PAM handle is held, exactly if no signal of the run ends it
at such a moment. Every other way out gives both back. -/
theorem run_leaves_nothing (restores : Bool) (seatid service : String) (username : Option String)
    (creation : Option Creation) (sts : List LinkStep) :
    Always (step restores) (fun l => l.sessiond.phase = .gone → l.sessiond.Clean)
        (new seatid service username creation) sts ↔
      Along (step restores) (fun l st => ¬ Strikes restores l st)
        (new seatid service username creation) sts := by
  refine always_iff_along (E := fun _ => True)
    (I := fun l : SessionLink => Good seatid service username creation l.far)
    (fun l st _ hgood hclean => ⟨step_good restores st hgood, ?_⟩) good_new
    (fun hgone => by cases hgone) (fun _ _ => trivial)
  by_cases hst : ∃ sig k, st = .deliver sig k
  · obtain ⟨sig, k, rfl⟩ := hst
    exact deliver_leavesNothing_iff sig k hclean
  · have hfar := step_farStep restores l st fun sig k heq => hst ⟨sig, k, heq⟩
    refine iff_of_true (hfar.leavesNothing hgood.sane hclean) ?_
    cases st with
    | deliver sig k => exact absurd ⟨sig, k, rfl⟩ hst
    | _ => exact id

/-! ## What the handle sends -/

theorem settle_kills (r : Remote) : r.settle.remote.kills = r.remote.kills := by
  simp only [Remote.settle]
  split
  · simp only [Remote.finish, SessionRemote.removeTimer]
    split <;> rfl
  · rfl

theorem sent_settle (r r' : Remote) : sent r r'.settle = sent r r' := by
  simp only [sent, settle_kills]

/-- `SIGKILL` is what the tick sends that comes behind `SIGTERM`. -/
theorem kill_mem_sent {r : Remote} {st : RemoteStep} (h : .kill ∈ sent r (r.step st)) :
    ∃ source, st = .event (.terminateTimeout source) ∧ source ∈ r.remote.timers ∧
      r.remote.lastSig = some .term := by
  have hrequest : ∀ m : SessionRemote, m.kills = r.remote.kills →
      .kill ∉ (m.terminate.1.kills.drop r.remote.kills.length).map Prod.fst := by
    intro m hm
    simp only [SessionRemote.terminate]
    split <;> simp [SessionRemote.sendSignal, hm]
  have hsame : ∀ m : SessionRemote, m.kills = r.remote.kills →
      .kill ∉ (m.kills.drop r.remote.kills.length).map Prod.fst := by
    intro m hm
    simp [hm]
  rw [Remote.step, sent_settle] at h
  simp only [sent] at h
  cases st with
  | terminate =>
    simp only [Remote.dispatch] at h
    split at h
    · exact absurd h (hsame _ rfl)
    · exact absurd h (hrequest _ rfl)
  | dispose =>
    simp only [Remote.dispatch] at h
    split at h
    · exact absurd h (hrequest _ rfl)
    · exact absurd h (hsame _ rfl)
  | event e =>
    simp only [Remote.dispatch] at h
    cases hf : r.remote.finalized with
    | true =>
      rw [SessionRemote.handle_of_finalized hf] at h
      refine absurd h (hsame _ ?_)
      split <;> rfl
    | false =>
    rw [SessionRemote.handle_of_live hf] at h
    cases e with
    | terminateTimeout source =>
      simp only [SessionRemote.callback] at h
      split at h
      · rename_i hlive
        refine ⟨source, rfl, hlive, ?_⟩
        simp only [SessionRemote.terminateTimeout] at h
        cases hsig : r.remote.lastSig with
        | none => simp [hsig] at h
        | some sig => cases sig <;> simp_all [SessionRemote.sendSignal]
      · exact absurd h (hsame _ rfl)
    | childDown =>
      simp only [SessionRemote.callback] at h
      split at h
      · refine absurd h (hsame _ ?_)
        simp only [SessionRemote.onChildDown, SessionRemote.removeTimer]
        split <;> rfl
      · exact absurd h (hsame _ rfl)
    | createReply err =>
      simp only [SessionRemote.callback] at h
      split at h
      · exact absurd h (hsame _ rfl)
      · exact absurd h (hsame _ rfl)
    | created => exact absurd h (hsame _ rfl)
    | terminated => exact absurd h (hsame _ rfl)
    | error code => exact absurd h (hsame _ rfl)

/-- A step with none of what takes a session process down: no tick behind `SIGTERM`, no
process that pauses, no signal of anybody else. -/
def Mild (l : SessionLink) : LinkStep → Prop
  | .tick source => ¬ (source ∈ l.daemon.remote.timers ∧ l.daemon.remote.lastSig = some .term)
  | .serve cfg _ => cfg.getBoolean (some Config.general) "PAUSE_SESSION" false = false
  | .signal _ => False
  | _ => True

/-- What mild steps keep. -/
structure Spared (l : SessionLink) : Prop where
  /-- no `SIGKILL` is on its way -/
  noKill : .kill ∉ l.pending
  /-- the process does not pause -/
  noPause : l.sessiond.phase ≠ .pausing

theorem Spared.act (h : Spared l) {st : RemoteStep}
    (hmild : ∀ source, st = .event (.terminateTimeout source) → source ∈ l.daemon.remote.timers →
      l.daemon.remote.lastSig ≠ some .term) : Spared (l.act st) := by
  refine ⟨fun hkill => ?_, ?_⟩
  · obtain hold | ⟨hnew, -⟩ := (mem_act_pending st .kill).mp hkill
    · exact h.noKill hold
    · obtain ⟨source, rfl, hlive, hsig⟩ := kill_mem_sent hnew
      exact hmild source rfl hlive hsig
  · rw [(act_daemon st).2.2]
    exact h.noPause

theorem Spared.congr {l' : SessionLink} (h : Spared l) (hpending : l'.pending ⊆ l.pending)
    (hphase : l'.sessiond.phase = l.sessiond.phase ∨ l'.sessiond.phase ≠ .pausing) : Spared l' := by
  refine ⟨fun hkill => h.noKill (hpending hkill), ?_⟩
  obtain hphase | hphase := hphase
  · rw [hphase]
    exact h.noPause
  · exact hphase

theorem Spared.send {sig : KillSignal} (h : Spared l) (hsig : sig ≠ .kill) : Spared (l.send sig) := by
  refine ⟨fun hkill => ?_, ?_⟩
  · obtain hold | ⟨hnew, -⟩ := (mem_foldl_send [sig] .kill).mp hkill
    · exact h.noKill hold
    · exact hsig (List.mem_singleton.mp hnew).symm
  · simp only [SessionLink.send]
    split <;> exact h.noPause

/-- Mild steps keep it. -/
theorem Spared.step (h : Spared l) (hgood : Good seatid service username creation l.far)
    {st : LinkStep} (hmild : Mild l st) : Spared (l.step restores st) := by
  by_cases hnear : Elsewhere st
  swap
  · obtain ⟨ms, -, heq | ⟨rst, hasks, heq⟩⟩ := step_near restores l hnear
    · rw [heq]
      exact h.congr (List.Subset.refl _) (.inl rfl)
    · have hheard : Spared { l with messages := ms } := h.congr (List.Subset.refl _) (.inl rfl)
      rw [heq]
      refine hheard.act fun source hrst hlive hsig => ?_
      cases hasks with
      | tick source' =>
        cases hrst
        exact hmild ⟨hlive, hsig⟩
      | hear e hdown htick => exact htick source (RemoteStep.event.inj hrst)
      | _ => cases hrst
  cases st with
  | daemonDies =>
    simp only [SessionLink.step]
    split
    · exact h.congr (List.Subset.refl _) (.inl rfl)
    · exact Spared.send (h.congr (List.Subset.refl _) (.inl rfl)) (by simp)
  | boot =>
    simp only [SessionLink.step]
    split
    · exact h.congr (List.Subset.refl _) (.inr (by simp))
    · exact h
  | bootFails =>
    simp only [SessionLink.step]
    split
    · exact h.congr (List.Subset.refl _) (.inr (by simp [drop, Sessiond.die]))
    · exact h
  | serve cfg host =>
    simp only [SessionLink.step]
    split
    · exact h
    · rename_i c rest hqueue
      split
      · rename_i hrun
        obtain ⟨-, hexited, -, -⟩ := hgood.sane.alive (.inr hrun)
        have hgoes := Sessiond.serve_running host c hrun hexited hmild
        exact h.congr (List.Subset.refl _) (.inr (by simp [put, hgoes]))
      · exact h
  | deliver sig k =>
    simp only [SessionLink.step]
    split
    · have hsub : l.pending.erase sig ⊆ l.pending := List.erase_subset ..
      split
      · rename_i hgone
        exact h.congr hsub (.inr (by simp [drop, hgone]))
      · refine h.congr hsub ?_
        obtain heq | heq | ⟨term, hup, heq⟩ := Sessiond.deliver_cases l.sessiond restores sig
        · exact .inl (by simp [heq])
        · exact .inr (by simp [heq, Sessiond.die])
        · exact .inl (by simp [heq])
    · exact h
  | leave pam k =>
    simp only [SessionLink.step]
    split
    · rename_i hleave
      refine h.congr (List.Subset.refl _) (.inr ?_)
      rw [Sessiond.leave, if_pos hleave]
      simp [drop, Sessiond.dispose]
    · exact h
  | connectionClosed pam k =>
    simp only [SessionLink.step]
    split
    · rename_i hclosed
      refine h.congr (List.Subset.refl _) (.inr ?_)
      rw [Sessiond.connectionClosed, if_pos hclosed.1]
      simp [drop, Sessiond.dispose]
    · exact h
  | sessionTick pam source =>
    refine h.congr (List.Subset.refl _) (.inl ?_)
    simp only [SessionLink.step, put, Sessiond.terminateTimeout]
    split <;> rfl
  | childDown pam w =>
    refine h.congr (List.Subset.refl _) (.inl ?_)
    simp only [SessionLink.step, put, Sessiond.childDown]
    split <;> rfl
  | exit =>
    refine h.congr (List.Subset.refl _) ?_
    simp only [SessionLink.step, Sessiond.exit]
    split
    · exact .inr (by simp [Sessiond.die])
    · exact .inl rfl
  | userExits => exact h.congr (List.Subset.refl _) (.inl rfl)
  | signal sig => exact absurd hmild id
  | _ => exact absurd hnear id

/-- A signal other than `SIGKILL` cannot end a process that has handlers and holds
something. -/
theorem Spared.not_strikes (h : Spared l) (hgood : Good seatid service username creation l.far)
    (hclean : LeavesNothing l.sessiond) (st : LinkStep) : ¬ Strikes false l st := by
  cases st with
  | deliver sig k =>
    rintro ⟨hpending, hgone, hdirty⟩
    have hsig : sig ≠ .kill := fun heq => h.noKill (heq ▸ hpending)
    have hpause := h.noPause
    cases hphase : l.sessiond.phase with
    | gone => exact hdirty (hclean hphase)
    | booting => exact hdirty (hgood.sane.clean_of_booting hphase)
    | pausing => exact hpause hphase
    | running =>
      cases sig <;> simp only [Sessiond.deliver, hphase] at hgone
      · split at hgone <;> simp [hphase] at hgone
      · split at hgone <;> simp [hphase] at hgone
      · exact hsig rfl
    | disposing =>
      cases sig <;> simp only [Sessiond.deliver, hphase] at hgone
      · split at hgone <;> simp [hphase] at hgone
      · split at hgone <;> simp [hphase] at hgone
      · exact hsig rfl
  | _ => exact id

/-- **With GLib's handlers in place only the third rung leaves anything behind.** In a
run without `PAUSE_SESSION` and without signals of others, in which no tick of the
handle finds that it has sent `SIGTERM` already, the process is never gone while the
user's command runs or a PAM handle is held, however often the handle asked for the
end. -/
theorem run_hup_leaves_nothing (seatid service : String) (username : Option String)
    (creation : Option Creation) (sts : List LinkStep)
    (hmild : Along (step false) Mild (new seatid service username creation) sts) :
    Always (step false) (fun l => l.sessiond.phase = .gone → l.sessiond.Clean)
      (new seatid service username creation) sts := by
  have hall := Along.always (I := fun l : SessionLink =>
      (Good seatid service username creation l.far ∧ Spared l) ∧ LeavesNothing l.sessiond) ?_ ?_ hmild
  · exact hall.imp fun l h => h.2
  · rintro l st ⟨⟨hgood, hspared⟩, hclean⟩ hst
    refine ⟨⟨step_good false st hgood, hspared.step hgood hst⟩, ?_⟩
    have hno := hspared.not_strikes hgood hclean st
    by_cases hdeliver : ∃ sig k, st = .deliver sig k
    · obtain ⟨sig, k, rfl⟩ := hdeliver
      exact (deliver_leavesNothing_iff sig k hclean).mpr hno
    · have hfar := step_farStep false l st fun sig k heq => hdeliver ⟨sig, k, heq⟩
      exact hfar.leavesNothing hgood.sane hclean
  · exact ⟨⟨good_new, ⟨by simp [new], by simp [new]⟩⟩, fun hgone => by cases hgone⟩

/-- A session that is ended twice, by the seat and by the disposal of the handle, with a
tick in between. -/
theorem run_hup_leaves_nothing_twice :
    Always (step false) (fun l => l.sessiond.phase = .gone → l.sessiond.Clean)
      (new "seat0" "tlm-login" (some "guest") (some ⟨none, none, ⟨id, fun _ => .refl _⟩⟩))
      [.boot, .serve Config.empty {}, .serve Config.empty {}, .serve Config.empty {},
        .serve Config.empty {}, .terminate, .deliver .hup 0, .leave {} 2, .tick 1, .dispose,
        .deliver .hup 0, .userExits, .childDown {} 1, .exit, .reap] := by
  apply run_hup_leaves_nothing
  refine ⟨trivial, ?_, ?_, ?_, ?_, trivial, trivial, trivial, ?_, trivial, trivial, trivial, trivial,
    trivial, trivial, trivial⟩
  · exact show Config.empty.getBoolean (some Config.general) "PAUSE_SESSION" false = false by decide
  · exact show Config.empty.getBoolean (some Config.general) "PAUSE_SESSION" false = false by decide
  · exact show Config.empty.getBoolean (some Config.general) "PAUSE_SESSION" false = false by decide
  · exact show Config.empty.getBoolean (some Config.general) "PAUSE_SESSION" false = false by decide
  · simp only [Mild]
    decide

end SessionLink

end Tlm
