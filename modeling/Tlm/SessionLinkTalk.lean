import Tlm.Run
import Tlm.SessionLinkSpec
import Tlm.SessiondSpec

/-!
# What is said over a session link

The daemon says who the session is for, and asks for it once. The process answers
the call before it starts anything, and what it says from then on is one of three
stories, told from the beginning and perhaps cut short: it was refused before the
authentication or behind it, or it was authenticated, created, and in the end
terminated.

`Sane` is what every step keeps of the process together with all it has sent.
-/

namespace Tlm

/-- The call was refused. -/
def refusedCode : ℤ := TlmError.sessionCreationFailure.code

/-- What sessiond has said, and the child watches it has then. -/
inductive Talk : List LinkMessage → List ℕ → Prop
  | silent : Talk [] []
  | refused : Talk [.reply, .error refusedCode] []
  | refusedLate : Talk [.reply, .authenticated, .error refusedCode] []
  | created (id : String) (ws : List ℕ) (one : ws.length ≤ 1) :
    Talk [.reply, .authenticated, .created id] ws
  | ended (id : String) : Talk [.reply, .authenticated, .created id, .terminated] []

/-- What is heard of a session process, from the beginning of one of the stories. -/
def Story (ms : List LinkMessage) : Prop :=
  ms <+: [.reply, .error refusedCode] ∨ ms <+: [.reply, .authenticated, .error refusedCode] ∨
    ∃ id, ms <+: [.reply, .authenticated, .created id, .terminated]

theorem Talk.story {ms : List LinkMessage} {ws : List ℕ} (h : Talk ms ws) : Story ms := by
  cases h with
  | silent => exact .inl (List.nil_prefix ..)
  | refused => exact .inl (List.prefix_refl _)
  | refusedLate => exact .inr (.inl (List.prefix_refl _))
  | created id _ _ => exact .inr (.inr ⟨id, ⟨[.terminated], rfl⟩⟩)
  | ended id => exact .inr (.inr ⟨id, List.prefix_refl _⟩)

namespace Sessiond

/-- The process is where it dispatches what the daemon sends, or is to come there. -/
def Early (p : Sessiond) : Prop := p.phase = .booting ∨ p.phase = .running

/-- What every step keeps of the process, with all it has `sent`. -/
structure Sane (p : Sessiond) (sent : List LinkMessage) : Prop where
  /-- the user's command is a child that is not reaped -/
  up : p.userUp = true → p.session.isChildUp = true
  /-- up to its disposal the session has no timer and says all it has to say -/
  alive : p.Early → p.session.phase = .alive ∧ p.session.exited = false ∧
    p.session.canEmitSignal = true ∧ p.session.timers = []
  /-- no call is served before the main loop runs -/
  booting : p.phase = .booting → p.starts = []
  /-- before its start nothing was said -/
  fresh : p.Early → p.starts = [] → sent = [] ∧ p.session.isChildUp = false ∧ p.session.watches = [] ∧
    p.session.authSession = none
  /-- the child watch is there as long as there is an end to be told -/
  talk : p.Early → Talk sent p.session.watches
  /-- it stays with what was said -/
  said : ∃ ws, Talk sent ws
  /-- an end that was told is one -/
  ended : .terminated ∈ sent → p.userUp = false ∧ p.session.authSession = none
  /-- while it is disposed of it is about the child alone -/
  left : p.phase = .disposing → p.session.exited = false ∧ p.session.phase ≠ .alive ∧
    (p.session.isChildUp = false → p.session.authSession = none)
  /-- disposed of, it has no child -/
  done : p.session.phase = .disposed → p.session.isChildUp = false

variable {p : Sessiond} {sent : List LinkMessage} {cfg : Config} {host : Host} {pam : Pam}

theorem sane_new : Sane {} [] where
  up h := by cases h
  alive _ := ⟨rfl, rfl, rfl, rfl⟩
  booting _ := rfl
  fresh _ _ := ⟨rfl, rfl, rfl, rfl⟩
  talk _ := .silent
  said := ⟨[], .silent⟩
  ended h := by simp at h
  left h := by cases h
  done h := by cases h

/-- A step that leaves the session alone, and does not go back to where calls are
served. -/
theorem Sane.keep {q : Sessiond} (h : Sane p sent) (hsession : q.session = p.session)
    (hstarts : q.starts = p.starts) (hup : q.userUp = true → p.userUp = true)
    (hearly : q.Early → p.Early) (hleft : q.phase = .disposing → p.phase = .disposing)
    (hboot : q.phase = .booting → p.phase = .booting) : Sane q sent where
  up hq := by
    rw [hsession]
    exact h.up (hup hq)
  alive hq := by
    rw [hsession]
    exact h.alive (hearly hq)
  booting hq := hstarts.trans (h.booting (hboot hq))
  fresh hq hnone := by
    rw [hsession]
    exact h.fresh (hearly hq) (hstarts.symm.trans hnone)
  talk hq := by
    rw [hsession]
    exact h.talk (hearly hq)
  said := h.said
  ended hm := by
    obtain ⟨hdown, hauth⟩ := h.ended hm
    refine ⟨?_, hsession ▸ hauth⟩
    cases hq : q.userUp with
    | false => rfl
    | true => exact absurd ((hup hq).symm.trans hdown) (by simp)
  left hq := by
    rw [hsession]
    exact h.left (hleft hq)
  done := by
    rw [hsession]
    exact h.done

theorem Sane.die (h : Sane p sent) : Sane p.die sent :=
  h.keep rfl rfl id (by simp [Early, Sessiond.die]) (by simp [Sessiond.die]) (by simp [Sessiond.die])

/-- **The call is answered, and told about.** It comes when nothing was started yet. -/
theorem Sane.createSession (h : Sane p sent) (hrun : p.phase = .running) (hnone : p.starts = [])
    (password : String) (environment : List (String × String)) :
    Sane (p.createSession cfg host password environment).1
      (sent ++ (p.createSession cfg host password environment).2) := by
  obtain ⟨halive, hexited, hloud, htimers⟩ := h.alive (.inr hrun)
  obtain ⟨rfl, hdown, hws, hauth⟩ := h.fresh (.inr hrun) hnone
  have hidle : p.userUp = false := by
    cases hup : p.userUp with
    | false => rfl
    | true => exact absurd ((h.up hup).symm.trans hdown) (by simp)
  simp only [Sessiond.createSession, advance, hrun, if_true]
  generalize hargs : (⟨p.seatid, p.service, p.username, some password,
    some (Observer.hashTableFromVariant environment)⟩ : StartArgs) = args
  have hstep : p.session.step ⟨host.pam, .start cfg host args⟩ = p.session.start cfg host args := by
    have hphase : (p.session.start cfg host args).phase = .alive :=
      Session.start_phase.trans halive
    rw [Session.step_of_running hexited]
    simp [Session.dispatch, Session.settle, halive, hphase]
  rw [hstep]
  obtain ⟨hloud', houtcome⟩ := Session.start_started p.session cfg host args
  obtain ⟨⟨⟨ws, hone, hwatches⟩, hchild, htimers'⟩, hsame⟩ :=
    Session.start_watches p.session cfg host args
  have hphase : (p.session.start cfg host args).phase = .alive := Session.start_phase.trans halive
  -- what goes out is what was added to the news
  have hdrop : ∀ tail : List SessionNews, (p.session.start cfg host args).news =
      p.session.news ++ tail →
      ((p.session.start cfg host args).news.drop p.session.news.length) = tail := by
    intro tail htail
    rw [htail, List.drop_left]
  have htalk : Talk (.reply :: ((p.session.start cfg host args).news.drop
      p.session.news.length).map SessionNews.message) (p.session.start cfg host args).watches := by
    rw [hws, List.nil_append] at hwatches
    obtain ⟨tail, htail, hnews, hfork, -⟩ | ⟨id, hnews, -⟩ := houtcome
    · rw [hdrop _ hnews, hsame hfork, hws]
      simp only [Session.refusals, List.mem_cons, List.not_mem_nil, or_false] at htail
      obtain rfl | rfl := htail
      · exact .refused
      · exact .refusedLate
    · rw [hdrop _ hnews, hwatches]
      exact .created id ws hone
  have hmem : LinkMessage.terminated ∉ .reply :: ((p.session.start cfg host args).news.drop
      p.session.news.length).map SessionNews.message := by
    intro hm
    obtain ⟨tail, htail, hnews, -, -⟩ | ⟨id, hnews, -⟩ := houtcome
    · rw [hdrop _ hnews] at hm
      simp only [Session.refusals, List.mem_cons, List.not_mem_nil, or_false] at htail
      obtain rfl | rfl := htail <;> simp [SessionNews.message] at hm
    · rw [hdrop _ hnews] at hm
      simp [SessionNews.message] at hm
  rw [List.nil_append]
  refine ⟨?_, ?_, ?_, ?_, fun _ => htalk, ⟨_, htalk⟩, fun hm => absurd hm hmem, ?_, ?_⟩
  · intro hup
    rw [hidle, Bool.false_or, decide_eq_true_iff] at hup
    exact hchild (.inr hup)
  · intro hearly
    refine ⟨hphase, ?_, hloud'.trans hloud, htimers'.trans htimers⟩
    cases hout : (p.session.start cfg host args).exited with
    | false => rfl
    | true => simp [Early, hout] at hearly
  · intro hboot
    cases hout : (p.session.start cfg host args).exited with
    | false => simp [hout] at hboot
    | true => simp [hout] at hboot
  · intro _ hstarts
    simp at hstarts
  · intro hleft
    cases hout : (p.session.start cfg host args).exited with
    | false => simp [hout] at hleft
    | true => simp [hout] at hleft
  · intro hdone
    rw [hphase] at hdone
    cases hdone

/-- A session event of a process that is not served any more. -/
theorem Sane.wind (h : Sane p sent) (hleft : p.phase = .disposing) (i : SessionInput)
    (hstart : ∀ cfg host args, i.event ≠ .start cfg host args)
    (hup : p.userUp = true → (p.session.step i).isChildUp = true) :
    Sane { p with session := p.session.step i } sent := by
  obtain ⟨hexited, hphase, hclear⟩ := h.left hleft
  have hw := Session.step_winds (s := p.session) i hstart
  have hearly : ¬ Early { p with session := p.session.step i } := by simp [Early, hleft]
  refine ⟨hup, fun he => absurd he hearly, fun hboot => absurd (.inl hboot) hearly,
    fun he => absurd he hearly, fun he => absurd he hearly, h.said, ?_, ?_,
    Session.step_gone i h.done⟩
  · intro hm
    obtain ⟨hdown, hauth⟩ := h.ended hm
    exact ⟨hdown, hw.handle hauth⟩
  · intro _
    refine ⟨hw.exited.trans hexited, hw.left hphase, fun hdown => ?_⟩
    cases hchild : p.session.isChildUp with
    | false => exact hw.handle (hclear hchild)
    | true => exact hw.reaped hchild hdown

/-- The process leaves its main loop. -/
theorem Sane.dispose (h : Sane p sent) (hrun : p.phase = .running) : Sane (p.dispose pam) sent := by
  obtain ⟨halive, hexited, -, -⟩ := h.alive (.inr hrun)
  have hw := Session.step_winds (s := p.session) ⟨pam, .dispose⟩ (by simp)
  obtain ⟨hphase, hclear⟩ := Session.step_dispose pam halive hexited
  have hearly : ¬ Early (p.dispose pam) := by simp [Early, Sessiond.dispose]
  have hchild : (p.session.step ⟨pam, .dispose⟩).isChildUp = p.session.isChildUp := by
    rw [Session.step_of_running hexited, Session.settle_isChildUp]
    simp only [Session.dispatch, halive, if_true]
    exact Session.terminate_isChildUp
  refine ⟨fun hup => hchild.trans (h.up hup), fun he => absurd he hearly,
    fun hboot => absurd (.inl hboot) hearly, fun he => absurd he hearly, fun he => absurd he hearly,
    h.said, ?_, ?_, Session.step_gone _ h.done⟩
  · intro hm
    obtain ⟨hdown, hauth⟩ := h.ended hm
    exact ⟨hdown, hw.handle hauth⟩
  · exact fun _ => ⟨hw.exited.trans hexited, hphase, fun hdown => hclear (hchild.symm.trans hdown)⟩

/-- A tick of the session's timer. -/
theorem Sane.terminateTimeout (h : Sane p sent) (source : ℕ) :
    Sane (p.terminateTimeout pam source).1 (sent ++ (p.terminateTimeout pam source).2) := by
  have hquiet : (p.session.step ⟨pam, .terminateTimeout source⟩).isChildUp = p.session.isChildUp := by
    simp only [Session.step]
    split
    · rfl
    · rw [Session.settle_isChildUp]
      simp only [Session.dispatch]
      split
      · exact Session.terminateTimeout_isChildUp source
      · rfl
  simp only [Sessiond.terminateTimeout]
  split
  · rename_i hiter
    simp only [iterating, Bool.or_eq_true, decide_eq_true_eq] at hiter
    obtain hrun | hleft := hiter
    · -- no timer is live up to the disposal
      obtain ⟨halive, hexited, -, htimers⟩ := h.alive (.inr hrun)
      have hsame : p.session.step ⟨pam, .terminateTimeout source⟩ = p.session := by
        rw [Session.step_of_running hexited]
        simp [Session.dispatch, htimers, Session.settle, halive]
      simp only [advance, hsame, List.drop_length, List.map_nil, ite_self, List.append_nil]
      exact h
    · have hnot : p.phase ≠ .running := by simp [hleft]
      simp only [advance, hnot, if_false, List.append_nil]
      exact h.wind hleft _ (by simp) fun hup => hquiet.trans (h.up hup)
  · simpa using h

/-- The user's command is reaped. Up to the disposal this is told, and it is told
once. -/
theorem Sane.childDown (h : Sane p sent) (w : ℕ) :
    Sane (p.childDown pam w).1 (sent ++ (p.childDown pam w).2) := by
  simp only [Sessiond.childDown]
  split
  · rename_i hguard
    obtain ⟨hiter, hdown⟩ := hguard
    simp only [iterating, Bool.or_eq_true, decide_eq_true_eq] at hiter
    obtain hrun | hleft := hiter
    · obtain ⟨halive, hexited, hloud, htimers⟩ := h.alive (.inr hrun)
      have htalk := h.talk (.inr hrun)
      by_cases hw : w ∈ p.session.watches
      · obtain ⟨hnews, hloud', hphase, htimers', hauth, hchild, hfewer⟩ :=
          Session.step_childDown_tells pam hexited halive hloud hw htimers
        have hwind := Session.step_winds (s := p.session) ⟨pam, .childDown w⟩ (by simp)
        simp only [advance, hrun, if_true, hnews, List.drop_left]
        generalize hs : p.session.step ⟨pam, .childDown w⟩ = s' at *
        -- a live watch means that the session was announced and nothing came behind it
        obtain ⟨id, hsent, hone⟩ : ∃ id, sent = [.reply, .authenticated, .created id] ∧
            p.session.watches.length ≤ 1 := by
          generalize p.session.watches = ws at *
          cases htalk with
          | created id _ one => exact ⟨id, rfl, one⟩
          | silent => simp at hw
          | refused => simp at hw
          | refusedLate => simp at hw
          | ended id => simp at hw
        have hnone : s'.watches = [] := List.eq_nil_of_length_eq_zero (by omega)
        have hended : Talk (sent ++ [SessionNews.terminated].map SessionNews.message) s'.watches := by
          rw [hnone, hsent]
          exact .ended id
        refine ⟨fun hup => absurd (hup.symm.trans hdown) (by simp), ?_, ?_, ?_, fun _ => hended,
          ⟨_, hended⟩, fun _ => ⟨hdown, hauth⟩, ?_, ?_⟩
        · exact fun _ => ⟨hphase, hwind.exited.trans hexited, hloud', htimers'⟩
        · exact fun hboot => by cases hboot
        · intro _ hstarts
          have hempty := (h.fresh (.inr hrun) hstarts).1
          rw [hsent] at hempty
          cases hempty
        · intro hleft
          cases hleft
        · exact fun _ => hchild
      · have hsame : p.session.step ⟨pam, .childDown w⟩ = p.session := by
          rw [Session.step_of_running hexited]
          simp [Session.dispatch, hw, Session.settle, halive]
        simp only [advance, hsame, List.drop_length, List.map_nil, ite_self, List.append_nil]
        exact h
    · have hnot : p.phase ≠ .running := by simp [hleft]
      simp only [advance, hnot, if_false, List.append_nil]
      refine h.wind hleft _ (by simp) fun hup => absurd (hup.symm.trans hdown) (by simp)
  · simpa using h

theorem Sane.deliver (h : Sane p sent) (restores : Bool) (sig : KillSignal) :
    Sane (p.deliver restores sig) sent := by
  obtain heq | heq | ⟨term, hup, heq⟩ := deliver_cases p restores sig
  · rwa [heq]
  · rw [heq]
    exact h.die
  · rw [heq]
    exact h.keep rfl rfl id id id id

theorem Sane.exit (h : Sane p sent) : Sane p.exit sent := by
  simp only [Sessiond.exit]
  split
  · exact h.die
  · exact h

end Sessiond

namespace SessionLink

variable {l : SessionLink}

/-! ## The session that is started is the one that was asked for -/

/-- What `tlm_session_start` is to be called with: what the seat gave, with an empty
string for a name or a password that is `NULL`. -/
def startArgs (seatid service : String) (username : Option String) (c : Creation) : StartArgs :=
  ⟨some seatid, some service, some (username.getD ""), some (c.password.getD ""),
    some (receivedEnvironment c.order c.environment)⟩

/-- All that the daemon sends. -/
def script (seatid service : String) (username : Option String) (creation : Option Creation) :
    List LinkCall :=
  [.setSeatid seatid, .setService service, .setUsername (username.getD "")] ++
    (creation.map Creation.call).toList

/-- How far the process has come with it. -/
structure Faithful (seatid service : String) (username : Option String) (creation : Option Creation)
    (cs : Channel LinkCall) (p : Sessiond) : Prop where
  said : cs.heard ++ cs.queue = script seatid service username creation
  forSeat : 1 ≤ cs.heard.length → p.seatid = some seatid
  forService : 2 ≤ cs.heard.length → p.service = some service
  forUser : 3 ≤ cs.heard.length → p.username = some (username.getD "")
  started : p.starts =
    (creation.map (startArgs seatid service username)).toList.take (cs.heard.length - 3)

variable {seatid service : String} {username : Option String} {creation : Option Creation}
  {cs : Channel LinkCall} {p q : Sessiond}

theorem Faithful.congr (h : Faithful seatid service username creation cs p)
    (hseatid : q.seatid = p.seatid) (hservice : q.service = p.service)
    (husername : q.username = p.username) (hstarts : q.starts = p.starts) :
    Faithful seatid service username creation cs q :=
  ⟨h.said, fun hk => hseatid.trans (h.forSeat hk), fun hk => hservice.trans (h.forService hk),
    fun hk => husername.trans (h.forUser hk), hstarts.trans h.started⟩

/-- The next call is the next of the script. -/
theorem Faithful.serve (h : Faithful seatid service username creation cs p) (cfg : Config)
    (host : Host) {c : LinkCall} {rest : List LinkCall} (hc : cs.queue = c :: rest) :
    Faithful seatid service username creation cs.hear (p.serve cfg host c).1 ∧
      ((∃ password environment, c = .sessionCreate password environment) → p.starts = []) := by
  obtain ⟨hsaid, hseat, hservice, huser, hstarted⟩ := h
  have hall : cs.hear.heard ++ cs.hear.queue = script seatid service username creation := by
    rw [← hsaid]
    simp [Channel.hear, hc]
  have hlength : cs.hear.heard.length = cs.heard.length + 1 := by
    simp [Channel.hear, hc]
  rw [hc] at hsaid
  simp only [script] at hsaid
  -- which call it is, by how many came before
  generalize hheard : cs.heard = heard at *
  rcases heard with _ | ⟨a, _ | ⟨b, _ | ⟨d, heard⟩⟩⟩
  · obtain ⟨rfl, -⟩ := List.cons.inj hsaid
    refine ⟨⟨hall, ?_, ?_, ?_, ?_⟩, ?_⟩ <;> simp_all [Sessiond.serve]
  · obtain ⟨-, rfl, -⟩ : _ ∧ c = LinkCall.setService service ∧ _ := by simpa using hsaid
    refine ⟨⟨hall, ?_, ?_, ?_, ?_⟩, ?_⟩ <;> simp_all [Sessiond.serve]
  · obtain ⟨-, -, rfl, -⟩ : _ ∧ _ ∧ c = LinkCall.setUsername (username.getD "") ∧ _ := by
      simpa using hsaid
    refine ⟨⟨hall, ?_, ?_, ?_, ?_⟩, ?_⟩ <;> simp_all [Sessiond.serve]
  · -- there is a fourth call only if a session was asked for, and no fifth
    obtain ⟨rfl, rfl, rfl, htail⟩ : a = .setSeatid seatid ∧ b = .setService service ∧
        d = .setUsername (username.getD "") ∧
        heard ++ c :: rest = (creation.map Creation.call).toList := by
      simpa using hsaid
    cases creation with
    | none => simp at htail
    | some asked =>
      obtain ⟨rfl, rfl, rfl⟩ : heard = [] ∧ c = asked.call ∧ rest = [] := by
        simpa [List.append_eq_cons_iff] using htail
      have hargs : (⟨p.seatid, p.service, p.username, some (asked.password.getD ""),
          some (Observer.hashTableFromVariant (sentEnvironment asked.order asked.environment))⟩ :
          StartArgs) = startArgs seatid service username asked := by
        simp only [hseat (by simp), hservice (by simp), huser (by simp)]
        rfl
      have hnone : p.starts = [] := hstarted
      refine ⟨⟨hall, fun _ => hseat (by simp), fun _ => hservice (by simp), fun _ => huser (by simp),
        ?_⟩, fun _ => hnone⟩
      rw [hlength]
      simp only [Creation.call, Sessiond.serve, Sessiond.createSession, hnone, hargs]
      rfl

/-- What a step keeps of a link for `seatid`, `service` and `username`. -/
structure Good (seatid service : String) (username : Option String) (creation : Option Creation)
    (x : Channel LinkCall × List LinkMessage × Sessiond) : Prop where
  faithful : Faithful seatid service username creation x.1 x.2.2
  sane : x.2.2.Sane x.2.1

theorem good_new : Good seatid service username creation (new seatid service username creation).far := by
  refine ⟨⟨rfl, ?_, ?_, ?_, ?_⟩, Sessiond.sane_new⟩
  all_goals simp [new, far]

theorem FarStep.good {x y : Channel LinkCall × List LinkMessage × Sessiond}
    (hstep : FarStep x y) (h : Good seatid service username creation x) :
    Good seatid service username creation y := by
  obtain ⟨hfaithful, hsane⟩ := h
  cases hstep with
  | none => exact ⟨hfaithful, hsane⟩
  | boot cs ms p hphase =>
    exact ⟨hfaithful.congr rfl rfl rfl rfl,
      hsane.keep rfl rfl id (fun _ => .inl hphase) (fun hleft => by cases hleft)
        (fun hboot => by cases hboot)⟩
  | die cs ms p hphase => exact ⟨hfaithful.congr rfl rfl rfl rfl, hsane.die⟩
  | serve cs ms p cfg host c rest hc hrun =>
    obtain ⟨hfaithful', hnone⟩ := hfaithful.serve cfg host hc
    refine ⟨hfaithful', ?_⟩
    cases c with
    | sessionCreate password environment =>
      exact hsane.createSession hrun (hnone ⟨_, _, rfl⟩) password environment
    | setSeatid value =>
      simp only [Sessiond.serve, List.append_nil]
      exact hsane.keep rfl rfl id id id id
    | setService value =>
      simp only [Sessiond.serve, List.append_nil]
      exact hsane.keep rfl rfl id id id id
    | setUsername value =>
      simp only [Sessiond.serve, List.append_nil]
      exact hsane.keep rfl rfl id id id id
  | dispose cs ms p pam hrun => exact ⟨hfaithful.congr rfl rfl rfl rfl, hsane.dispose hrun⟩
  | sessionTick cs ms p pam source =>
    refine ⟨hfaithful.congr ?_ ?_ ?_ ?_, hsane.terminateTimeout source⟩
    all_goals simp only [Sessiond.terminateTimeout]; split <;> rfl
  | childDown cs ms p pam w =>
    refine ⟨hfaithful.congr ?_ ?_ ?_ ?_, hsane.childDown w⟩
    all_goals simp only [Sessiond.childDown]; split <;> rfl
  | exit cs ms p =>
    refine ⟨hfaithful.congr ?_ ?_ ?_ ?_, hsane.exit⟩
    all_goals simp only [Sessiond.exit]; split <;> rfl
  | userExits cs ms p =>
    exact ⟨hfaithful.congr rfl rfl rfl rfl, hsane.keep rfl rfl (by simp) id id id⟩

theorem step_good (restores : Bool) {l : SessionLink} (st : LinkStep)
    (h : Good seatid service username creation l.far) :
    Good seatid service username creation (l.step restores st).far := by
  by_cases hst : ∃ sig k, st = .deliver sig k
  · obtain ⟨sig, k, rfl⟩ := hst
    rw [deliver_far]
    split
    · refine ⟨?_, h.sane.deliver restores sig⟩
      obtain heq | heq | ⟨term, hup, heq⟩ := Sessiond.deliver_cases l.sessiond restores sig
      all_goals
        simp only [heq]
        exact h.faithful.congr rfl rfl rfl rfl
    · exact h
  · exact (step_farStep restores l st fun sig k heq => hst ⟨sig, k, heq⟩).good h

theorem run_good (restores : Bool) (sts : List LinkStep) :
    Always (step restores) (fun l => Good seatid service username creation l.far)
      (new seatid service username creation) sts :=
  always_of_step (E := fun _ => True)
    (I := fun l : SessionLink => Good seatid service username creation l.far)
    (fun _ st _ => step_good restores st) good_new (fun _ _ => trivial)

/-- A call of `tlm_session_start` that is what the seat asked for. -/
structure AsAsked (seatid service : String) (username : Option String) (c : Creation)
    (a : StartArgs) : Prop where
  seatId : a.seatId = some seatid
  service : a.service = some service
  username : a.username = some (username.getD "")
  password : a.password = some (c.password.getD "")
  environment : ∀ entries, c.environment = some (Observer.hashTableFromVariant entries) →
    ∃ env, a.environment = some env ∧ ∀ key, env.lookup key = requested entries key

theorem asAsked_startArgs (c : Creation) :
    AsAsked seatid service username c (startArgs seatid service username c) := by
  refine ⟨rfl, rfl, rfl, rfl, fun entries henv => ⟨_, rfl, fun key => ?_⟩⟩
  rw [henv]
  exact lookup_receivedEnvironment c.order entries key

/-- **A session process starts one session, the one that was asked for.** Whatever
the two processes and everybody else do, and in whatever order: sessiond calls
`tlm_session_start` at most once, only if `tlm_session_remote_create` was called, and
with what the seat gave. -/
theorem run_starts (restores : Bool) (seatid service : String) (username : Option String)
    (creation : Option Creation) (sts : List LinkStep) :
    Always (step restores) (fun l => l.sessiond.starts = [] ∨
      ∃ c a, creation = some c ∧ l.sessiond.starts = [a] ∧ AsAsked seatid service username c a)
      (new seatid service username creation) sts := by
  refine (run_good restores sts).imp fun l h => ?_
  have hstarted := h.faithful.started
  change l.sessiond.starts = _ at hstarted
  cases creation with
  | none => exact .inl (by simpa using hstarted)
  | some c =>
    cases hlength : (l.calls.heard.length - 3) with
    | zero =>
      refine .inl ?_
      rw [hstarted, show l.far.1.heard.length - 3 = 0 from hlength]
      rfl
    | succ n =>
      refine .inr ⟨c, _, rfl, ?_, asAsked_startArgs c⟩
      rw [hstarted, show l.far.1.heard.length - 3 = n + 1 from hlength]
      simp

/-- **What the daemon hears is one of three stories**, from its beginning: nothing
comes out of order, twice, or behind an end, whatever is lost when the process goes.
And once it hears that the session has terminated, the user's command has ended and
the process holds no PAM handle any more. -/
theorem run_story (restores : Bool) (seatid service : String) (username : Option String)
    (creation : Option Creation) (sts : List LinkStep) :
    Always (step restores) (fun l => Story l.messages.heard ∧
      (.terminated ∈ l.messages.heard →
        l.sessiond.userUp = false ∧ l.sessiond.session.authSession = none))
      (new seatid service username creation) sts := by
  refine (run_good restores sts).imp fun l h => ⟨?_, fun hm => ?_⟩
  · obtain ⟨ws, htalk⟩ := h.sane.said
    have hheard : l.messages.heard <+: l.messages.sent := l.messages.heard_prefix_sent
    obtain hstory | hstory | ⟨id, hstory⟩ := htalk.story
    · exact .inl (hheard.trans hstory)
    · exact .inr (.inl (hheard.trans hstory))
    · exact .inr (.inr ⟨id, hheard.trans hstory⟩)
  · exact h.sane.ended (Channel.mem_sent_of_mem_heard hm)

/-- A login that comes to its end, and is heard to the last. -/
example :
    (run false (new "seat0" "tlm-login" (some "guest")
        (some ⟨some "secret", none, ⟨id, fun _ => .refl _⟩⟩))
      [.boot, .serve Config.empty {}, .serve Config.empty {}, .serve Config.empty {},
        .serve Config.empty {}, .hear, .hear, .userExits, .childDown {} 1, .hear, .hear]).messages.heard =
      [.reply, .authenticated, .created "", .terminated] := by
  decide

end SessionLink

end Tlm
