import Tlm.Run
import Tlm.SessionSpec

/-!
# The PAM sessions of a session

`_auth_session_stop` closes the PAM session **unconditionally**: whoever tears a
session down asks PAM to close what may never have been opened — the user was
refused, or the credentials were — or what `tlm_auth_session_open` has already
closed on its own error path.

`run_bracketed` says that this is all that can go wrong: openings and closings of
every handle are bracketed in a run exactly when no teardown of the run meets a
handle without an open PAM session.
-/

namespace Tlm

/-! ## Brackets -/

variable {l : List PamCall} {c : PamCall}

/-- One call more. -/
theorem bracketed_concat :
    Bracketed (l ++ [c]) ↔ Bracketed l ∧
      (l ++ [c]).countP PamCall.closes ≤ (l ++ [c]).countP PamCall.opens ∧
      (c = .endHandle → l.countP PamCall.closes = l.countP PamCall.opens) := by
  constructor
  · rintro ⟨hle, hend⟩
    refine ⟨⟨?_, ?_⟩, hle _ (List.prefix_refl _), ?_⟩
    · exact fun pre hpre => hle pre (hpre.trans (List.prefix_append _ _))
    · exact fun pre hpre => hend pre (hpre.trans (List.prefix_append _ _))
    · rintro rfl
      exact hend l (List.prefix_refl _)
  · rintro ⟨⟨hle, hend⟩, hlast, hc⟩
    refine ⟨?_, ?_⟩
    · intro pre hpre
      rcases List.prefix_concat_iff.mp hpre with rfl | hpre
      · exact hlast
      · exact hle pre hpre
    · intro pre hpre
      rcases List.prefix_concat_iff.mp hpre with heq | hpre
      · obtain ⟨rfl, hsame⟩ := List.append_inj' heq rfl
        exact hc (List.singleton_inj.mp hsame).symm
      · exact hend pre hpre

theorem bracketed_nil : Bracketed [] := by
  refine ⟨?_, ?_⟩
  · intro pre hpre
    rw [List.prefix_nil.mp hpre]
    exact Nat.le_refl _
  · intro pre hpre
    have h := List.prefix_nil.mp hpre
    simp at h

namespace AuthSession

variable {a : AuthSession} {pam : Pam}

/-- A handle that is in use, with its calls bracketed. -/
structure Live (a : AuthSession) : Prop where
  pamHandle : a.pamHandle = true
  bracketed : Bracketed a.calls

/-- A call that closes nothing and does not end the handle. -/
theorem Live.call (h : a.Live) (hcloses : c.closes = false) (hend : c ≠ .endHandle) :
    (a.call c).Live := by
  refine ⟨h.pamHandle, bracketed_concat.mpr ⟨h.bracketed, ?_, fun he => absurd he hend⟩⟩
  have hle := h.bracketed.1 a.calls (List.prefix_refl _)
  simp only [List.countP_append, List.countP_singleton, hcloses]
  exact Nat.le_trans hle (Nat.le_add_right _ _)

/-- One that closes what has been opened. -/
theorem Live.close (h : a.Live)
    (hopen : a.calls.countP PamCall.closes < a.calls.countP PamCall.opens) :
    (a.call .closeSession).Live := by
  refine ⟨h.pamHandle, bracketed_concat.mpr ⟨h.bracketed, ?_, fun he => by cases he⟩⟩
  simp only [List.countP_append, List.countP_singleton, PamCall.closes, PamCall.opens, if_true]
  exact Nat.le_trans hopen (Nat.le_add_right _ _)

theorem new_live {service username : String} {password tty : Option String}
    (h : AuthSession.new pam service username password tty = some a) : a.Live := by
  simp only [AuthSession.new] at h
  split at h
  · obtain rfl := Option.some.inj h
    exact ⟨rfl, bracketed_concat.mpr ⟨bracketed_nil, by decide, fun he => by cases he⟩⟩
  · cases h

theorem Live.putenv (h : a.Live) (var : String) (value : Option String) : (a.putenv var value).Live :=
  h.call rfl (by simp)

theorem Live.authenticate (h : a.Live) (pam : Pam) : (a.authenticate pam).1.Live := by
  simp only [AuthSession.authenticate]
  split
  · exact (((h.call rfl (by simp)).call rfl (by simp)).call rfl (by simp)).call rfl (by simp)
  · exact ((h.call rfl (by simp)).call rfl (by simp)).call rfl (by simp)

theorem Live.putenvs (h : a.Live) (cfg : Config) (seatId : String) (vtnr : ℕ) :
    (Session.putenvs cfg seatId vtnr a).Live := by
  have hseat : ∀ p : Bool, (if p then a else a.putenv "XDG_SEAT" (some seatId)).Live := by
    intro p
    split
    · exact h
    · exact h.putenv _ _
  simp only [Session.putenvs]
  cases Session.seatString cfg (some seatId) "SESSION_TYPE" with
  | none =>
    split
    · exact (hseat _).putenv _ _
    · exact hseat _
  | some t =>
    split
    · exact (((hseat _).putenv _ _).putenv _ _).putenv _ _
    · exact ((hseat _).putenv _ _).putenv _ _

/-- Opening is bracketed whatever PAM answers. -/
theorem Live.openSession (h : a.Live) (pam : Pam) : (a.openSession pam).1.Live := by
  have hcred := h.call (c := .setcred .establish (pam.setcred .establish)) rfl (by simp)
  have hopen := hcred.call (c := .openSession pam.openSession) rfl (by simp)
  have hreinit := hopen.call (c := .setcred .reinit (pam.setcred .reinit)) rfl (by simp)
  simp only [AuthSession.openSession]
  split
  · split
    · rename_i hok
      split
      · exact ⟨hreinit.pamHandle, hreinit.bracketed⟩
      · -- the error path closes the session that was opened just before
        refine hreinit.close ?_
        have hle := h.bracketed.1 a.calls (List.prefix_refl _)
        simp only [AuthSession.call, List.countP_append, List.countP_singleton, PamCall.closes,
          PamCall.opens, hok, if_true]
        simp only [Bool.false_eq_true, if_false]
        omega
    · exact hopen
  · exact hcred

/-- **Disposal is bracketed just when the PAM session is open.** -/
theorem dispose_bracketed_iff (pam : Pam) (h : a.Live) :
    Bracketed (a.dispose pam).calls ↔ a.isOpen = true := by
  simp only [dispose, h.pamHandle, if_true, stop, call]
  rw [bracketed_concat, bracketed_concat, bracketed_concat]
  simp only [List.countP_append, List.countP_singleton, PamCall.closes, PamCall.opens, isOpen,
    Bool.false_eq_true, if_false, if_true, beq_iff_eq, Nat.add_zero, true_imp_iff]
  constructor
  · rintro ⟨-, -, heq⟩
    exact heq.symm
  · intro heq
    have hle : a.calls.countP PamCall.closes ≤ a.calls.countP PamCall.opens := by omega
    refine ⟨⟨⟨h.bracketed, hle, fun he => by cases he⟩, ?_, fun he => by cases he⟩, ?_, ?_⟩ <;> omega

end AuthSession

namespace Session

variable {s s' : Session} {pam : Pam}

/-- The PAM sessions of a session, and the one in use. -/
def pams (s : Session) : Option ℕ × Store AuthSession := (s.authSession, s.auths)

/-- The handle in use, if there is one, is in use indeed. -/
def PamOk (s : Session) : Prop := ∀ h, s.authSession = some h → (s.auths.get h).Live

/-- Every handle's calls are bracketed. -/
def AllBracketed (s : Session) : Prop := ∀ h, Bracketed (s.auths.get h).calls

/-- A step that tears the session down. -/
def TearsDown (s : Session) (i : SessionInput) : Prop :=
  s.exited = false ∧
    match i.event with
    | .start _ _ _ => False
    | .terminate => s.phase ≠ .disposed ∧ s.isChildUp = false
    | .terminateTimeout source => source ∈ s.timers ∧ s.lastSig = some .kill
    | .childDown w => w ∈ s.watches
    | .dispose => s.phase = .alive ∧ s.isChildUp = false

/-- The handle in use has no open PAM session. -/
def Unopened (s : Session) : Prop :=
  ∃ h, s.authSession = some h ∧ (s.auths.get h).isOpen = false

/-- A teardown that meets a handle without an open PAM session. -/
def ClosesUnopened (s : Session) (i : SessionInput) : Prop := s.TearsDown i ∧ s.Unopened

@[simp] theorem emit_pams (n : SessionNews) : (s.emit n).pams = s.pams := rfl

@[simp] theorem tell_pams (n : SessionNews) : (s.tell n).pams = s.pams := by
  simp only [tell]
  split <;> rfl

theorem removeTimer_pams : s.removeTimer.pams = s.pams := by
  simp only [removeTimer]
  split <;> rfl

theorem removeWatch_pams : s.removeWatch.pams = s.pams := by
  simp only [removeWatch]
  split <;> rfl

theorem settle_pams : s.settle.pams = s.pams := by
  simp only [settle]
  split <;> rfl

theorem forkChild_pams (host : Host) : (execUserSession.forkChild host s).pams = s.pams := by
  simp only [execUserSession.forkChild]
  split <;> rfl

theorem execUserSession_pams (cfg : Config) (host : Host) :
    (s.execUserSession cfg host).pams = s.pams := by
  have hfork : ∀ s', s'.pams = s.pams → (execUserSession.forkChild host s').pams = s.pams :=
    fun s' h => (forkChild_pams host).trans h
  simp only [execUserSession]
  split
  · split
    · split
      · rfl
      · exact hfork _ rfl
    · exact hfork _ rfl
  · split
    · split
      · rfl
      · exact hfork _ rfl
    · exact hfork _ rfl

/-- `_clear_session` disposes of the handle in use. -/
theorem clearSession_pams : (s.clearSession pam).pams = (s.clearAuthSession pam).pams := by
  have hsame : s.removeTimer.removeWatch.pams = s.pams := by
    rw [removeWatch_pams, removeTimer_pams]
  have h : (s.removeTimer.removeWatch.clearAuthSession pam).pams = (s.clearAuthSession pam).pams := by
    simp only [pams, Prod.mk.injEq] at hsame
    simp only [clearAuthSession, hsame.1, hsame.2]
    split
    · exact Prod.ext hsame.1 hsame.2
    · rfl
  exact h

/-- Both properties are about the handles alone. -/
theorem pamOk_congr (h : s'.pams = s.pams) : s'.PamOk ↔ s.PamOk := by
  simp only [pams, Prod.mk.injEq] at h
  simp only [PamOk, h]

theorem allBracketed_congr (h : s'.pams = s.pams) : s'.AllBracketed ↔ s.AllBracketed := by
  simp only [pams, Prod.mk.injEq] at h
  simp only [AllBracketed, h]

/-- Without a handle in use there is nothing to ask for. -/
theorem pamOk_of_none (h : s.authSession = none) : s.PamOk := by
  intro handle hsome
  rw [h] at hsome
  exact absurd hsome (by simp)

/-! ## One step -/

/-- The teardown. -/
theorem clearSession_bracketed (pam : Pam) (hok : s.PamOk) (hs : s.AllBracketed) :
    (s.clearSession pam).PamOk ∧ ((s.clearSession pam).AllBracketed ↔ ¬ s.Unopened) := by
  rw [pamOk_congr clearSession_pams, allBracketed_congr clearSession_pams]
  simp only [clearAuthSession, Unopened]
  cases hauth : s.authSession with
  | none => exact ⟨hok, by simp [hs]⟩
  | some h =>
    refine ⟨pamOk_of_none rfl, ?_⟩
    simp only [Option.some.injEq, exists_eq_left', Bool.not_eq_false]
    rw [← AuthSession.dispose_bracketed_iff pam (hok h hauth)]
    constructor
    · intro hall
      have hh := hall h
      rwa [Store.get_set_self] at hh
    · intro hh h'
      by_cases heq : h' = h
      · rw [heq, Store.get_set_self]
        exact hh
      · rw [Store.get_set_ne _ _ heq]
        exact hs h'

/-- A session with a new handle in use. -/
theorem alloc_bracketed {a : AuthSession} (ha : a.Live) (hs : s.AllBracketed)
    (h : s'.pams = (some s.auths.next, s.auths.alloc a)) : s'.PamOk ∧ s'.AllBracketed := by
  simp only [pams, Prod.mk.injEq] at h
  obtain ⟨hauth, hauths⟩ := h
  constructor
  · intro h' hh
    rw [hauth] at hh
    obtain rfl := Option.some.inj hh
    rw [hauths, Store.get_alloc_self]
    exact ha
  · intro h'
    rw [hauths]
    by_cases heq : h' = s.auths.next
    · rw [heq, Store.get_alloc_self]
      exact ha.bracketed
    · rw [Store.get_alloc_ne _ _ heq]
      exact hs h'

theorem startUser_pams (cfg : Config) (host : Host) (a : AuthSession) (h : ℕ) :
    (s.startUser cfg host a h).pams =
      (s.authSession, s.auths.set h (a.openSession host.pam).1) := by
  simp only [startUser]
  split
  · rfl
  · split
    · rfl
    · rw [emit_pams, execUserSession_pams]
      rfl

/-- **Starting is bracketed**, wherever it fails. -/
theorem start_bracketed (cfg : Config) (host : Host) (args : StartArgs) (hok : s.PamOk)
    (hs : s.AllBracketed) :
    (s.start cfg host args).PamOk ∧ (s.start cfg host args).AllBracketed := by
  simp only [start]
  split
  · rename_i seatId service username _ _ _
    split
    · exact ⟨pamOk_of_none rfl, hs⟩
    · rename_i a hnew
      have hlive := ((AuthSession.new_live hnew).putenvs cfg seatId
        (cfg.getUInt (some seatId) "VTNR" 0)).authenticate host.pam
      split
      · refine alloc_bracketed (hlive.openSession host.pam) hs ?_
        rw [startUser_pams]
        exact congrArg _ (Store.set_alloc_self _ _ _)
      · exact alloc_bracketed hlive hs rfl
  · exact ⟨hok, hs⟩

/-- A step that does not tear the session down. -/
theorem pams_same (h : s'.pams = s.pams) (hok : s.PamOk) (hs : s.AllBracketed) {P : Prop}
    (hP : ¬ P) : s'.PamOk ∧ (s'.AllBracketed ↔ ¬ P) :=
  ⟨(pamOk_congr h).mpr hok, iff_of_true ((allBracketed_congr h).mpr hs) hP⟩

/-- One that does, and says so. -/
theorem tell_clearSession_bracketed (pam : Pam) (h : s'.pams = s.pams) (n : SessionNews) (hok : s.PamOk)
    (hs : s.AllBracketed) :
    ((s'.clearSession pam).tell n).PamOk ∧
      (((s'.clearSession pam).tell n).AllBracketed ↔ ¬ s.Unopened) := by
  rw [pamOk_congr (tell_pams n), allBracketed_congr (tell_pams n)]
  have hclear := clearSession_bracketed pam ((pamOk_congr h).mpr hok)
    ((allBracketed_congr h).mpr hs)
  simp only [pams, Prod.mk.injEq] at h
  simp only [Unopened] at hclear ⊢
  rwa [h.1, h.2] at hclear

theorem terminate_bracketed (pam : Pam) (hok : s.PamOk) (hs : s.AllBracketed) :
    (s.terminate pam).PamOk ∧
      ((s.terminate pam).AllBracketed ↔ ¬ (s.isChildUp = false ∧ s.Unopened)) := by
  simp only [terminate]
  split
  · rename_i hup
    exact pams_same rfl hok hs (by simp [hup])
  · rename_i hup
    have h := tell_clearSession_bracketed pam rfl .terminated hok hs
    simpa [hup] using h

theorem terminateTimeout_bracketed (pam : Pam) (source : ℕ) (hok : s.PamOk) (hs : s.AllBracketed) :
    (s.terminateTimeout pam source).PamOk ∧
      ((s.terminateTimeout pam source).AllBracketed ↔
        ¬ (s.lastSig = some .kill ∧ s.Unopened)) := by
  by_cases hkill : s.lastSig = some .kill
  · have hclear : s.terminateTimeout pam source =
        (Session.clearSession pam { s with timerId := 0, timers := s.timers.erase source }).tell
          (.error TlmError.sessionTerminationFailure.code) := by
      simp only [terminateTimeout, hkill]
    rw [hclear]
    simp only [hkill, true_and]
    exact tell_clearSession_bracketed pam rfl _ hok hs
  · refine pams_same ?_ hok hs (by simp [hkill])
    simp only [terminateTimeout]
    split
    · rfl
    · rfl
    · exact absurd ‹_› hkill
    · rfl

/-- **One step keeps the brackets just when it closes nothing unopened.** -/
theorem dispatch_bracketed (hok : s.PamOk) (hs : s.AllBracketed) (hrun : s.exited = false)
    (i : SessionInput) :
    (s.dispatch i).PamOk ∧ ((s.dispatch i).AllBracketed ↔ ¬ s.ClosesUnopened i) := by
  obtain ⟨pam, event⟩ := i
  cases event with
  | start cfg host args =>
    simp only [dispatch, ClosesUnopened, TearsDown]
    split
    · exact pams_same rfl hok hs (by simp)
    · obtain ⟨hok', hs'⟩ := start_bracketed cfg host args hok hs
      exact ⟨hok', by simp [hs']⟩
  | terminate =>
    simp only [dispatch, ClosesUnopened, TearsDown]
    split
    · rename_i hgone
      exact pams_same rfl hok hs (by simp [hgone])
    · rename_i hphase
      have h := terminate_bracketed pam hok hs
      simpa [hrun, hphase] using h
  | terminateTimeout source =>
    simp only [dispatch, ClosesUnopened, TearsDown]
    split
    · rename_i hsource
      have h := terminateTimeout_bracketed pam source hok hs
      simpa [hrun, hsource] using h
    · rename_i hsource
      exact pams_same rfl hok hs (by simp [hsource])
  | childDown w =>
    simp only [dispatch, ClosesUnopened, TearsDown]
    split
    · rename_i hw
      have h : (s.onChildDown pam w).PamOk ∧ ((s.onChildDown pam w).AllBracketed ↔ ¬ s.Unopened) :=
        tell_clearSession_bracketed pam rfl .terminated hok hs
      simpa [hrun, hw] using h
    · rename_i hw
      exact pams_same rfl hok hs (by simp [hw])
  | dispose =>
    simp only [dispatch, ClosesUnopened, TearsDown]
    split
    · rename_i halive
      have h : (Session.dispose pam s).PamOk ∧
          ((Session.dispose pam s).AllBracketed ↔ ¬ (s.isChildUp = false ∧ s.Unopened)) :=
        terminate_bracketed pam (s := { s with canEmitSignal := false }) hok hs
      simpa [hrun, halive] using h
    · rename_i halive
      exact pams_same rfl hok hs (by simp [halive])

/-! ## Whole runs -/

/-- **PAM sessions are bracketed**, on every handle and whatever PAM answers,
exactly in the runs none of whose teardowns meets a handle without an open PAM
session. -/
theorem run_bracketed (is : List SessionInput) :
    Always Session.step AllBracketed {} is ↔
      Along Session.step (fun s i => ¬ s.ClosesUnopened i) {} is := by
  refine always_iff_along (E := fun _ => True) (I := PamOk) ?_ (fun h hne => by cases hne) (fun _ => bracketed_nil)
    (fun _ _ => trivial)
  intro s i _ hok hs
  cases hrun : s.exited with
  | true =>
    rw [step_of_exited hrun]
    exact ⟨hok, iff_of_true hs fun h => by simp [ClosesUnopened, TearsDown, hrun] at h⟩
  | false =>
    rw [step_of_running hrun, pamOk_congr settle_pams, allBracketed_congr settle_pams]
    exact dispatch_bracketed hok hs hrun i

/-- The password is wrong, and the session is torn down: PAM is asked to close a
session that it never opened. -/
theorem refused_login_closes_session :
    ¬ Always Session.step AllBracketed {}
      [⟨{}, .start ⟨fun _ => none⟩ { pam := { authenticate := false } }
        { seatId := "seat0", service := "tlm-login", username := "user" }⟩, ⟨{}, .terminate⟩] := by
  rintro ⟨-, -, h⟩
  have hle := (h 0).1 _ (List.prefix_refl _)
  revert hle
  decide

end Session

end Tlm
