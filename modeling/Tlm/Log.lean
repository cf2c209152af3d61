import Mathlib.Data.List.Perm.Basic
import Tlm.Run
import Tlm.Table

/-!
# Logging (`tlm-log.c`)

Every log domain has a handler of its own, registered with GLib and entered in a table,
and all domains share **one** flag that says whether the system log is open. Closing any
domain clears the flag. The handler opens the log for a message that it finds the flag
cleared for, and closes it again behind that message; but it does so with
`tlm_log_init` and `tlm_log_close` of the message's domain, and the second of these
unregisters the handler that is running. `tlm_log_init` does not set the flag again
for a domain that is in the table, so the first message of an open domain after another
one was closed is the domain's last.

`domains_independent_iff` is the result: a domain's messages get to the system log from
its initialisation to its close exactly as long as no message of an open domain finds
the flag cleared.
-/

namespace Tlm

/-- `GLogLevelFlags`. -/
inductive LogLevel : Type where
  | error
  | critical
  | warning
  | message
  | info
  | debug
  deriving DecidableEq, Repr

/-- `_log_levels_enabled`. -/
def LogLevel.enabled : LogLevel → Bool
  | .error | .critical | .warning | .debug => true
  | .message | .info => false

/-- `_log_level_to_priority`, for a single level. -/
def LogLevel.priority : LogLevel → ℕ
  | .error => 3
  | .critical => 2
  | .warning => 4
  | .message => 5
  | .debug => 7
  | .info => 6

/-- The logging state of a process. -/
structure Log where
  /-- `_initialized` -/
  initialized : Bool := false
  /-- `_log_handlers`: the handler id of a domain; `NULL` at first -/
  logHandlers : Option (List (String × ℕ)) := none
  /-- the registrations of `_log_handler` with GLib: domain and id, the newest first -/
  registered : List (String × ℕ) := []
  /-- the id GLib gives next -/
  nextId : ℕ := 1
  /-- what was passed to `syslog`: priority and domain -/
  syslog : List (ℕ × String) := []
  deriving DecidableEq, Repr

namespace Log

/-- `G_LOG_DOMAIN` of the common library. -/
def logDomain : String := "TLM_COMMON"

/-- `tlm_log_init`. -/
def init (domain : Option String) (s : Log) : Log :=
  let handlers := s.logHandlers.getD []
  let domain := domain.getD logDomain
  if domain ∈ Table.keys handlers then { s with logHandlers := some handlers }
  else
    { s with
      logHandlers := some (handlers ++ [(domain, s.nextId)])
      registered := (domain, s.nextId) :: s.registered
      nextId := s.nextId + 1
      initialized := true }

/-- `_remove_log_handler`: does it remove a registration? -/
def removes (domain : Option String) (handlers : List (String × ℕ)) (h : String × ℕ) : Bool :=
  h ∈ handlers && (domain.isNone || domain = some h.1)

/-- `tlm_log_close`. -/
def close (domain : Option String) (s : Log) : Log :=
  match s.logHandlers with
  | none => { s with initialized := false }
  | some handlers =>
    { s with
      registered := s.registered.filter fun h => !removes domain handlers h
      logHandlers := domain.map fun d => Table.remove d handlers
      initialized := false }

/-- `_log_handler`. -/
def logHandler (domain : String) (level : LogLevel) (s : Log) : Log :=
  if !level.enabled then s
  else if s.initialized then { s with syslog := s.syslog ++ [(level.priority, domain)] }
  else
    let s := s.init (some domain)
    { s with syslog := s.syslog ++ [(level.priority, domain)] }.close (some domain)

/-- `g_log`: GLib calls the handler of the domain, if it has one for the level. -/
def message (domain : String) (level : LogLevel) (s : Log) : Log :=
  if domain ∈ Table.keys s.registered ∧ level.enabled then s.logHandler domain level else s

/-- Is a message passed to `syslog`? -/
def Passes (s : Log) (domain : String) (level : LogLevel) : Prop :=
  ∃ entry, (s.message domain level).syslog = s.syslog ++ [entry]

end Log

/-- What a program does with its log. An `ERROR` ends the process once it was handled, so
it comes last. -/
inductive LogOp : Type where
  | init (domain : String)
  | close (domain : String)
  | message (domain : String) (level : LogLevel)
  deriving DecidableEq, Repr

/-- The domain an operation is about. -/
def LogOp.domain : LogOp → String
  | .init d => d
  | .close d => d
  | .message d _ => d

/-- The log, with a record of the domains that are open: initialised, and not closed
since. -/
structure LogRun where
  log : Log := {}
  opened : List String := []
  deriving DecidableEq, Repr

namespace LogRun

/-- One operation. -/
def step (r : LogRun) : LogOp → LogRun
  | .init d => ⟨r.log.init (some d), d :: r.opened⟩
  | .close d => ⟨r.log.close (some d), r.opened.filter (· ≠ d)⟩
  | .message d level => ⟨r.log.message d level, r.opened⟩

/-- The handlers registered for a domain. -/
def handlers (r : LogRun) (d : String) : List (String × ℕ) := r.log.registered.filter (·.1 = d)

/-- A message at an enabled level is passed on exactly if its domain is open. -/
def Answers (r : LogRun) : Prop :=
  ∀ d level, level.enabled = true → (r.log.Passes d level ↔ d ∈ r.opened)

/-- Log domains are independent throughout a sequence of operations. -/
structure Independent (ops : List LogOp) : Prop where
  passed : Always step Answers {} ops
  others : Along step (fun r op => ∀ d, d ≠ op.domain → (r.step op).handlers d = r.handlers d) {} ops
  single : Always step (fun r => ∀ d, (r.handlers d).length ≤ 1) {} ops

/-- A message of an open domain finds the flag set. -/
def Calm (r : LogRun) : LogOp → Prop
  | .message d level => level.enabled = true → d ∈ r.opened → r.log.initialized = true
  | _ => True

end LogRun

/-! ## The table and the registrations -/

namespace Log

variable {s : Log} {d : String} {level : LogLevel}

/-- The table has what is registered, and a domain is registered once. -/
structure Sound (s : Log) : Prop where
  perm : (s.logHandlers.getD []).Perm s.registered
  nodup : (Table.keys s.registered).Nodup

theorem sound_nil : Sound {} := ⟨List.Perm.refl _, List.nodup_nil⟩

theorem Sound.mem_keys (h : s.Sound) :
    d ∈ Table.keys (s.logHandlers.getD []) ↔ d ∈ Table.keys s.registered :=
  (h.perm.map Prod.fst).mem_iff

/-- A domain that is registered stays as it is. -/
theorem init_of_mem (h : s.Sound) (hd : d ∈ Table.keys s.registered) :
    s.init (some d) = { s with logHandlers := some (s.logHandlers.getD []) } :=
  if_pos (h.mem_keys.mpr hd)

/-- One that is not gets a handler. -/
theorem init_of_not_mem (h : s.Sound) (hd : d ∉ Table.keys s.registered) :
    s.init (some d) =
      { s with
        logHandlers := some (s.logHandlers.getD [] ++ [(d, s.nextId)])
        registered := (d, s.nextId) :: s.registered
        nextId := s.nextId + 1
        initialized := true } :=
  if_neg fun hmem => hd (h.mem_keys.mp hmem)

theorem Sound.init (h : s.Sound) (d : String) : (s.init (some d)).Sound := by
  by_cases hd : d ∈ Table.keys s.registered
  · rw [init_of_mem h hd]
    exact ⟨h.perm, h.nodup⟩
  · rw [init_of_not_mem h hd]
    refine ⟨?_, List.nodup_cons.mpr ⟨hd, h.nodup⟩⟩
    exact (List.perm_append_singleton _ _).trans (h.perm.cons _)

/-- Closing takes out the registration of the domain, and no other. -/
theorem registered_close (h : s.Sound) (d : String) :
    (s.close (some d)).registered = Table.remove d s.registered := by
  unfold close
  cases htable : s.logHandlers with
  | none =>
    have hnil : s.registered = [] := by
      have hperm := h.perm
      rw [htable] at hperm
      exact hperm.symm.eq_nil
    simp [hnil, Table.remove]
  | some handlers =>
    have hmem : ∀ e ∈ s.registered, e ∈ handlers := by
      intro e he
      have := h.perm.mem_iff.mpr he
      rwa [htable] at this
    apply List.filter_congr
    intro e he
    have hiff : (some d = some e.1) ↔ e.1 = d := by
      rw [Option.some.injEq]
      exact eq_comm
    simp [removes, hmem e he, hiff]

theorem Sound.close (h : s.Sound) (d : String) : (s.close (some d)).Sound := by
  refine ⟨?_, ?_⟩
  · rw [registered_close h]
    have hperm := h.perm
    unfold Log.close
    cases htable : s.logHandlers with
    | none =>
      rw [htable] at hperm
      simp [hperm.symm.eq_nil, Table.remove]
    | some handlers =>
      rw [htable] at hperm
      exact hperm.filter _
  · rw [registered_close h, Table.keys_remove]
    exact h.nodup.filter _

theorem keys_close (h : s.Sound) (d : String) :
    Table.keys (s.close (some d)).registered = (Table.keys s.registered).filter (· ≠ d) := by
  rw [registered_close h, Table.keys_remove]

/-! ## Messages -/

theorem syslog_close (d : Option String) : (s.close d).syslog = s.syslog := by
  unfold close
  split <;> rfl

/-- Everything a message can do: nothing, if it has no handler; be passed on; or, with the
flag cleared, be passed on and have its domain closed. -/
theorem message_cases (h : s.Sound) (d : String) (level : LogLevel) :
    (¬(d ∈ Table.keys s.registered ∧ level.enabled = true) ∧ s.message d level = s) ∨
    (d ∈ Table.keys s.registered ∧ level.enabled = true) ∧ (
      (s.initialized = true ∧
        s.message d level = { s with syslog := s.syslog ++ [(level.priority, d)] }) ∨
      (s.initialized = false ∧ ∃ s₁ : Log, s₁.Sound ∧ s₁.registered = s.registered ∧
        s₁.syslog = s.syslog ++ [(level.priority, d)] ∧ s.message d level = s₁.close (some d))) := by
  by_cases hmem : d ∈ Table.keys s.registered ∧ level.enabled = true
  · obtain ⟨hd, hl⟩ := hmem
    refine .inr ⟨⟨hd, hl⟩, ?_⟩
    cases hs : s.initialized with
    | true =>
      refine .inl ⟨rfl, ?_⟩
      simp [message, logHandler, hd, hl, hs]
    | false =>
      -- `tlm_log_init` finds the domain in the table
      refine .inr ⟨rfl, { s with
        logHandlers := some (s.logHandlers.getD [])
        syslog := s.syslog ++ [(level.priority, d)] }, ⟨h.perm, h.nodup⟩, rfl, rfl, ?_⟩
      simp [message, logHandler, hd, hl, hs, init_of_mem h hd]
  · exact .inl ⟨hmem, if_neg hmem⟩

/-- A message is passed on if its domain is registered. -/
theorem passes_iff (h : s.Sound) (hl : level.enabled = true) :
    s.Passes d level ↔ d ∈ Table.keys s.registered := by
  unfold Passes
  obtain ⟨hnot, heq⟩ | ⟨⟨hd, -⟩, ⟨-, heq⟩ | ⟨-, s₁, -, -, hsyslog, heq⟩⟩ := message_cases h d level
  · have hd : d ∉ Table.keys s.registered := fun hd => hnot ⟨hd, hl⟩
    simp [heq, hd]
  · exact iff_of_true ⟨_, congrArg syslog heq⟩ hd
  · refine iff_of_true ⟨(level.priority, d), ?_⟩ hd
    rw [heq, syslog_close, hsyslog]

/-- A message may cost its own domain the registration. -/
theorem registered_message (h : s.Sound) (d : String) (level : LogLevel) :
    (s.message d level).registered =
      if (d ∈ Table.keys s.registered ∧ level.enabled = true) ∧ s.initialized = false then
        Table.remove d s.registered
      else s.registered := by
  obtain ⟨hnot, heq⟩ | ⟨hmem, ⟨hs, heq⟩ | ⟨hs, s₁, hsound, hreg, -, heq⟩⟩ := message_cases h d level
  · rw [if_neg fun hand => hnot hand.1, heq]
  · rw [if_neg fun hand => by rw [hs] at hand; exact absurd hand.2 (by decide), heq]
  · rw [if_pos ⟨hmem, hs⟩, heq, registered_close hsound, hreg]

theorem Sound.message (h : s.Sound) (d : String) (level : LogLevel) : (s.message d level).Sound := by
  obtain ⟨-, heq⟩ | ⟨-, ⟨-, heq⟩ | ⟨-, s₁, hsound, -, -, heq⟩⟩ := message_cases h d level
  · rwa [heq]
  · rw [heq]
    exact ⟨h.perm, h.nodup⟩
  · rw [heq]
    exact hsound.close d

end Log

/-! ## Whole runs -/

namespace LogRun

variable {r : LogRun} {op : LogOp}

theorem step_sound (h : r.log.Sound) (op : LogOp) : (r.step op).log.Sound := by
  cases op with
  | init d => exact h.init d
  | close d => exact h.close d
  | message d level => exact h.message d level

theorem handlers_remove_of_ne {d d' : String} (hne : d' ≠ d) (t : List (String × ℕ)) :
    (Table.remove d t).filter (·.1 = d') = t.filter (·.1 = d') := by
  rw [Table.remove, List.filter_filter]
  apply List.filter_congr
  intro e _
  by_cases he : e.1 = d'
  · simp [he, hne]
  · simp [he]

/-- **Other domains** keep their handlers. -/
theorem handlers_step (h : r.log.Sound) {d : String} (hd : d ≠ op.domain) :
    (r.step op).handlers d = r.handlers d := by
  cases op with
  | init d' =>
    have hne : d' ≠ d := Ne.symm hd
    by_cases hmem : d' ∈ Table.keys r.log.registered
    · simp only [handlers, step, Log.init_of_mem h hmem]
    · simp only [handlers, step, Log.init_of_not_mem h hmem]
      exact List.filter_cons_of_neg (by simpa using hne)
  | close d' =>
    simp only [handlers, step, Log.registered_close h]
    exact handlers_remove_of_ne hd _
  | message d' level =>
    simp only [handlers, step, Log.registered_message h]
    split
    · exact handlers_remove_of_ne hd _
    · rfl

/-- **One handler** for a domain. -/
theorem length_handlers_le (h : r.log.Sound) (d : String) : (r.handlers d).length ≤ 1 := by
  have hcount : (r.handlers d).length = (Table.keys r.log.registered).count d := by
    rw [handlers, Table.keys, List.count_eq_length_filter, List.filter_map, List.length_map]
    congr 2
  rw [hcount]
  exact List.nodup_iff_count_le_one.mp h.nodup d

/-- In terms of registrations: the registered domains are the open ones. -/
theorem answers_iff (h : r.log.Sound) :
    r.Answers ↔ ∀ d, d ∈ Table.keys r.log.registered ↔ d ∈ r.opened := by
  constructor
  · intro hanswers d
    rw [← hanswers d .warning rfl, Log.passes_iff h rfl]
  · intro hmem d level hl
    rw [Log.passes_iff h hl, hmem]

/-- **One operation** keeps the registered domains the open ones exactly if it is calm. -/
theorem answers_step_iff (h : r.log.Sound) (hr : r.Answers) :
    (r.step op).Answers ↔ r.Calm op := by
  rw [answers_iff (step_sound h op)]
  rw [answers_iff h] at hr
  cases op with
  | init d =>
    refine iff_of_true (fun d' => ?_) trivial
    simp only [step, List.mem_cons, ← hr d']
    by_cases hmem : d ∈ Table.keys r.log.registered
    · rw [Log.init_of_mem h hmem]
      refine ⟨.inr, ?_⟩
      rintro (rfl | hd')
      · exact hmem
      · exact hd'
    · rw [Log.init_of_not_mem h hmem]
      exact List.mem_cons
  | close d =>
    refine iff_of_true (fun d' => ?_) trivial
    simp only [step, Log.keys_close h, List.mem_filter, hr d']
  | message d level =>
    simp only [step, Calm, Log.registered_message h]
    split
    · -- the domain has lost its handler, and is open
      rename_i hclosed
      obtain ⟨⟨hd, hl⟩, hs⟩ := hclosed
      refine iff_of_false (fun hall => ?_) fun hcalm => ?_
      · have hlost := (hall d).mpr ((hr d).mp hd)
        rw [Table.keys_remove] at hlost
        simp at hlost
      · rw [hcalm hl ((hr d).mp hd)] at hs
        exact absurd hs (by decide)
    · rename_i hnot
      refine iff_of_true hr fun hl hd => ?_
      by_contra hs
      exact hnot ⟨⟨(hr d).mpr hd, hl⟩, Bool.eq_false_iff.mpr hs⟩

theorem answers_nil : Answers {} := by
  rw [answers_iff Log.sound_nil]
  exact fun _ => Iff.rfl

/-- Whatever is done, the table and the registrations agree. -/
theorem always_sound (ops : List LogOp) : Always step (fun r => r.log.Sound) {} ops :=
  always_of_step (E := fun _ => True) (fun _ op _ h => step_sound h op) Log.sound_nil
    fun _ _ => trivial

/-- **When log domains are independent**: exactly in the runs in which every message of an
open domain finds the flag set. -/
theorem domains_independent_iff (ops : List LogOp) : Independent ops ↔ Along step Calm {} ops := by
  have hiff : Always step Answers {} ops ↔ Along step Calm {} ops := by
    refine always_iff_along (E := fun _ => True) (I := fun r => r.log.Sound) ?_ Log.sound_nil
      answers_nil fun _ _ => trivial
    intro r op _ hsound hr
    exact ⟨step_sound hsound op, answers_step_iff hsound hr⟩
  rw [← hiff]
  refine ⟨fun h => h.passed, fun h => ⟨h, ?_, ?_⟩⟩
  · exact (always_sound ops).along fun r op hsound d hd => handlers_step hsound hd
  · exact (always_sound ops).imp fun r hsound d => length_handlers_le hsound d

/-- Two domains are open, and one of them is closed: the other gets one more message
through to the system log, and then none. -/
theorem close_silences_other :
    let ops : List LogOp := [.init "TLM", .init "TLM_SESSIOND", .close "TLM",
      .message "TLM_SESSIOND" .warning, .message "TLM_SESSIOND" .warning]
    (ops.foldl step {}).opened = ["TLM_SESSIOND"] ∧
      (ops.foldl step {}).log.syslog = [(4, "TLM_SESSIOND")] ∧
      (ops.foldl step {}).log.registered = [] := by
  decide

end LogRun

end Tlm
