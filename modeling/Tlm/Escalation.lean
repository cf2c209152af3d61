import Mathlib.Data.List.Nodup

/-!
# Escalation

A supervised child is asked to go by a first signal; a repeating timer, started
with the request, then sends the next stronger signal at every tick, until the
ladder of signals is exhausted and the timer gives up. The supervisor remembers
**one** timer, the last one it started.

* `Escalation` — the bookkeeping: whether the child is up, the last signal, the
  recorded timer, the timers that are really live, and the signals sent.
* `Escalation.Quiet` — the moves that are no request.
* `Escalation.Wf` — what every sequence of operations keeps, however careless:
  the signals sent are always a sequence of ladders.
* `Escalation.Sound` — what a careful supervisor keeps: no live timer but the
  recorded one, none without a child, no signal to a child that is gone. A
  request keeps it **iff** no timer is recorded (`request_sound_iff`); the other
  operations always do.
-/

namespace Tlm

universe u

/-- The bookkeeping of a supervisor. -/
structure Escalation (σ : Type u) where
  /-- the child is up -/
  up : Bool
  /-- the last signal sent, if any -/
  last : Option σ
  /-- the timer that is remembered, zero when none is -/
  recorded : ℕ
  /-- the timers that are live -/
  live : List ℕ
  /-- how many timers there have been -/
  sources : ℕ
  /-- the signals sent, each with whether the child was up -/
  sent : List (σ × Bool)

namespace Escalation

variable {σ : Type u} {first : σ} {next : σ → Option σ} {e : Escalation σ} {src : ℕ}

/-! ## Operations -/

/-- Send a signal. -/
def send (e : Escalation σ) (s : σ) : Escalation σ :=
  { e with last := some s, sent := e.sent ++ [(s, e.up)] }

/-- Ask the child to go, and start a timer. -/
def request (first : σ) (e : Escalation σ) : Escalation σ :=
  if e.up then
    { e.send first with
      recorded := e.sources + 1, live := e.live ++ [e.sources + 1], sources := e.sources + 1 }
  else e

/-- A tick of a live timer. -/
def tick (next : σ → Option σ) (src : ℕ) (e : Escalation σ) : Escalation σ :=
  match e.last with
  | none => { e with live := e.live.erase src }
  | some s => match next s with
    | some s' => e.send s'
    | none => { e with recorded := 0, live := e.live.erase src }

/-- Stop the recorded timer. -/
def drop (e : Escalation σ) : Escalation σ :=
  if e.recorded = 0 then e else { e with live := e.live.erase e.recorded, recorded := 0 }

/-- The child is gone. -/
def reap (e : Escalation σ) : Escalation σ := { e with up := false }.drop

/-- A child comes up. -/
def spawn (e : Escalation σ) : Escalation σ := { e with up := true }

/-- Forget the last signal, once no timer is recorded. -/
def forget (e : Escalation σ) : Escalation σ := { e.drop with last := none }

/-! ## Ladders -/

/-- The signals of one escalation that has come to `s`. -/
inductive Ladder (first : σ) (next : σ → Option σ) : List σ → σ → Prop
  | base : Ladder first next [first] first
  | climb {l : List σ} {s s' : σ} (h : Ladder first next l s) (hs : next s = some s') :
    Ladder first next (l ++ [s']) s'

/-- The signals sent are ladders, and the last of them has come to `last`. -/
def Ladders (first : σ) (next : σ → Option σ) (e : Escalation σ) : Prop :=
  ∃ ls : List (List σ), e.sent.map Prod.fst = ls.flatten ∧
    (∀ l ∈ ls, ∃ s, Ladder first next l s) ∧
    ∀ s, e.last = some s → ∃ ls' l, ls = ls' ++ [l] ∧ Ladder first next l s

/-- What every sequence of operations keeps. -/
structure Wf (first : σ) (next : σ → Option σ) (e : Escalation σ) : Prop where
  /-- a recorded timer is live -/
  recorded : e.recorded ≠ 0 → e.recorded ∈ e.live
  /-- before the first request nothing is recorded -/
  unasked : e.last = none → e.recorded = 0
  /-- live timers are different, and have been counted -/
  nodup : e.live.Nodup
  counted : ∀ t ∈ e.live, 0 < t ∧ t ≤ e.sources
  ladders : e.Ladders first next

/-- What a careful supervisor keeps. -/
structure Sound (e : Escalation σ) : Prop where
  /-- no timer is live but the recorded one -/
  sole : ∀ t ∈ e.live, t = e.recorded
  /-- nor is it without a child -/
  idle : e.up = false → e.live = []
  /-- no signal was sent to a child that was gone -/
  alive : ∀ p ∈ e.sent, p.2 = true

/-! ## What is kept in any case -/

theorem Ladders.start (h : e.Ladders first next) : (e.send first).Ladders first next := by
  obtain ⟨ls, hsent, hls, -⟩ := h
  refine ⟨ls ++ [[first]], ?_, ?_, ?_⟩
  · simp [send, hsent]
  · intro l hl
    rcases List.mem_append.mp hl with hl | hl
    · exact hls l hl
    · obtain rfl := List.mem_singleton.mp hl
      exact ⟨first, .base⟩
  · intro s hs
    obtain rfl := Option.some.inj hs
    exact ⟨ls, [first], rfl, .base⟩

theorem Ladders.climb {s s' : σ} (h : e.Ladders first next) (hlast : e.last = some s)
    (hs : next s = some s') : (e.send s').Ladders first next := by
  obtain ⟨ls, hsent, hls, hend⟩ := h
  obtain ⟨ls', l, rfl, hl⟩ := hend s hlast
  refine ⟨ls' ++ [l ++ [s']], ?_, ?_, ?_⟩
  · simp [send, hsent]
  · intro k hk
    rcases List.mem_append.mp hk with hk | hk
    · exact hls k (List.mem_append_left _ hk)
    · obtain rfl := List.mem_singleton.mp hk
      exact ⟨s', hl.climb hs⟩
  · intro s'' hs''
    obtain rfl := Option.some.inj hs''
    exact ⟨ls', l ++ [s'], rfl, hl.climb hs⟩

/-- Only `sent` and `last` matter to the ladders, and forgetting the last signal
does no harm. -/
theorem Ladders.congr {e' : Escalation σ} (h : e.Ladders first next) (hsent : e'.sent = e.sent)
    (hlast : e'.last = e.last ∨ e'.last = none) : e'.Ladders first next := by
  obtain ⟨ls, hs, hls, hend⟩ := h
  refine ⟨ls, by rw [hsent, hs], hls, fun s hs' => ?_⟩
  rcases hlast with hlast | hlast
  · exact hend s (hlast.symm.trans hs')
  · rw [hlast] at hs'
    cases hs'

theorem request_wf (h : e.Wf first next) : (e.request first).Wf first next := by
  simp only [request]
  split
  · have hnew : e.sources + 1 ∉ e.live := by
      intro hm
      have hle := (h.counted _ hm).2
      omega
    refine ⟨fun _ => by simp, ?_, ?_, ?_, h.ladders.start.congr rfl (Or.inl rfl)⟩
    · rintro ⟨⟩
    · exact List.nodup_append.mpr ⟨h.nodup, List.nodup_singleton _, by
        intro t ht t' ht' heq
        obtain rfl := List.mem_singleton.mp ht'
        exact hnew (heq ▸ ht)⟩
    · intro t ht
      rcases List.mem_append.mp ht with ht | ht
      · exact ⟨(h.counted t ht).1, Nat.le_succ_of_le (h.counted t ht).2⟩
      · obtain rfl := List.mem_singleton.mp ht
        exact ⟨Nat.succ_pos _, Nat.le_refl _⟩
  · exact h

theorem tick_wf (h : e.Wf first next) (src : ℕ) : (e.tick next src).Wf first next := by
  have herase : ∀ t ∈ e.live.erase src, 0 < t ∧ t ≤ e.sources :=
    fun t ht => h.counted t (List.mem_of_mem_erase ht)
  simp only [tick]
  split
  · rename_i hlast
    have hzero := h.unasked hlast
    exact ⟨fun hne => absurd hzero hne, fun _ => hzero, h.nodup.erase src, herase,
      h.ladders.congr rfl (Or.inl rfl)⟩
  · rename_i s hlast
    split
    · rename_i s' hs
      refine ⟨h.recorded, ?_, h.nodup, h.counted, h.ladders.climb hlast hs⟩
      rintro ⟨⟩
    · exact ⟨fun hne => absurd rfl hne, fun _ => rfl, h.nodup.erase src, herase,
        h.ladders.congr rfl (Or.inl rfl)⟩

theorem drop_wf (h : e.Wf first next) : e.drop.Wf first next := by
  simp only [drop]
  split
  · exact h
  · exact ⟨fun hne => absurd rfl hne, fun _ => rfl, h.nodup.erase _,
      fun t ht => h.counted t (List.mem_of_mem_erase ht), h.ladders.congr rfl (Or.inl rfl)⟩

theorem reap_wf (h : e.Wf first next) : e.reap.Wf first next :=
  drop_wf ⟨h.recorded, h.unasked, h.nodup, h.counted, h.ladders⟩

theorem spawn_wf (h : e.Wf first next) : e.spawn.Wf first next :=
  ⟨h.recorded, h.unasked, h.nodup, h.counted, h.ladders⟩

@[simp] theorem drop_recorded (e : Escalation σ) : e.drop.recorded = 0 := by
  simp only [drop]
  split
  · assumption
  · rfl

theorem forget_wf (h : e.Wf first next) : e.forget.Wf first next := by
  have hd := drop_wf h
  refine ⟨hd.recorded, fun _ => drop_recorded e, hd.nodup, hd.counted, ?_⟩
  exact hd.ladders.congr rfl (Or.inr rfl)

/-- Before anything has happened all is well. -/
theorem wf_of_nil (hlast : e.last = none) (hrecorded : e.recorded = 0) (hlive : e.live = [])
    (hsent : e.sent = []) : e.Wf first next := by
  refine ⟨fun hne => absurd hrecorded hne, fun _ => hrecorded, ?_, ?_, [], ?_, ?_, ?_⟩
  · rw [hlive]
    exact List.nodup_nil
  · rw [hlive]
    intro t ht
    cases ht
  · rw [hsent]
    rfl
  · intro l hl
    cases hl
  · intro s hs
    rw [hlast] at hs
    cases hs

theorem sound_of_nil (hlive : e.live = []) (hsent : e.sent = []) : e.Sound := by
  refine ⟨?_, fun _ => hlive, ?_⟩
  · rw [hlive]
    intro t ht
    cases ht
  · rw [hsent]
    intro p hp
    cases hp

/-! ## What is kept with care -/

/-- The recorded timer and the live ones are in step. -/
theorem Sound.live_eq (hw : e.Wf first next) (h : e.Sound) :
    e.live = if e.recorded = 0 then [] else [e.recorded] := by
  split
  · rename_i hzero
    rw [List.eq_nil_iff_forall_not_mem]
    intro t ht
    have hpos := (hw.counted t ht).1
    have heq := h.sole t ht
    omega
  · rename_i hne
    have hmem := hw.recorded hne
    have hnodup := hw.nodup
    rcases hl : e.live with _ | ⟨a, _ | ⟨b, l⟩⟩
    · rw [hl] at hmem
      cases hmem
    · rw [h.sole a (by simp [hl])]
    · -- two live timers would both be the recorded one
      have ha := h.sole a (by simp [hl])
      have hb := h.sole b (by simp [hl])
      rw [hl, ha, hb] at hnodup
      simp at hnodup

/-- **A request keeps the supervisor careful just when no timer is recorded.** -/
theorem request_sound_iff (hw : e.Wf first next) (h : e.Sound) :
    (e.request first).Sound ↔ ¬ (e.up = true ∧ e.recorded ≠ 0) := by
  have hlive := h.live_eq hw
  simp only [request]
  split
  · rename_i hup
    constructor
    · rintro hs ⟨-, hne⟩
      have hold := hs.sole e.recorded (List.mem_append_left _ (hw.recorded hne))
      have hle := (hw.counted _ (hw.recorded hne)).2
      simp only at hold
      omega
    · intro hfree
      have hzero : e.recorded = 0 := by
        by_contra hne
        exact hfree ⟨hup, hne⟩
      rw [if_pos hzero] at hlive
      refine ⟨?_, ?_, ?_⟩
      · intro t ht
        rw [hlive] at ht
        exact List.mem_singleton.mp ht
      · intro hdown
        rw [show e.up = false from hdown] at hup
        cases hup
      · intro p hp
        rcases List.mem_append.mp hp with hp | hp
        · exact h.alive p hp
        · rw [List.mem_singleton.mp hp]
          exact hup
  · rename_i hup
    exact ⟨fun _ hbad => hup hbad.1, fun _ => h⟩

/-- A live timer ticks for a child that is up, so its signal is well sent. -/
theorem tick_sound (hw : e.Wf first next) (h : e.Sound) (hsrc : src ∈ e.live) :
    (e.tick next src).Sound := by
  have hup : e.up = true := by
    by_contra hdown
    rw [h.idle (by simpa using hdown)] at hsrc
    cases hsrc
  have heq := h.sole src hsrc
  have hgone : e.live.erase src = [] := by
    have hlive := h.live_eq hw
    have hne : e.recorded ≠ 0 := by
      rw [← heq]
      exact Nat.ne_of_gt (hw.counted src hsrc).1
    rw [if_neg hne] at hlive
    simp [hlive, heq]
  have hstop : ∀ r, ({ e with recorded := r, live := e.live.erase src } : Escalation σ).Sound := by
    intro r
    refine ⟨?_, fun _ => hgone, h.alive⟩
    intro t ht
    rw [hgone] at ht
    cases ht
  simp only [tick]
  split
  · exact hstop e.recorded
  · split
    · refine ⟨h.sole, h.idle, ?_⟩
      intro p hp
      rcases List.mem_append.mp hp with hp | hp
      · exact h.alive p hp
      · rw [List.mem_singleton.mp hp]
        exact hup
    · exact hstop 0

/-- Once timers and record are in step, stopping the recorded timer leaves
none. -/
theorem drop_live (hlive : e.live = if e.recorded = 0 then [] else [e.recorded]) :
    e.drop.live = [] := by
  simp only [drop]
  split
  · rename_i hzero
    rw [hlive, if_pos hzero]
  · rename_i hne
    rw [if_neg hne] at hlive
    simp [hlive]

theorem drop_sound_of (hlive : e.live = if e.recorded = 0 then [] else [e.recorded])
    (halive : ∀ p ∈ e.sent, p.2 = true) : e.drop.Sound := by
  have hnone := drop_live hlive
  have hsent : e.drop.sent = e.sent := by
    simp only [drop]
    split <;> rfl
  refine ⟨?_, fun _ => hnone, by rw [hsent]; exact halive⟩
  rw [hnone]
  intro t ht
  cases ht

theorem drop_sound (hw : e.Wf first next) (h : e.Sound) : e.drop.Sound :=
  drop_sound_of (h.live_eq hw) h.alive

theorem reap_sound (hw : e.Wf first next) (h : e.Sound) : e.reap.Sound := by
  have hlive := h.live_eq hw
  exact drop_sound_of hlive h.alive

theorem spawn_sound (h : e.Sound) : e.spawn.Sound :=
  ⟨h.sole, fun hup => (by cases hup), h.alive⟩

theorem forget_sound (hw : e.Wf first next) (h : e.Sound) : e.forget.Sound := by
  have hd := drop_sound hw h
  exact ⟨hd.sole, hd.idle, hd.alive⟩

/-! ## Everything but a request -/

/-- A move that asks for nothing. -/
inductive Quiet (next : σ → Option σ) : Escalation σ → Escalation σ → Prop
  | refl (e : Escalation σ) : Quiet next e e
  | trans {e₁ e₂ e₃ : Escalation σ} (h : Quiet next e₁ e₂) (h' : Quiet next e₂ e₃) : Quiet next e₁ e₃
  | tick (e : Escalation σ) {src : ℕ} (h : src ∈ e.live) : Quiet next e (e.tick next src)
  | drop (e : Escalation σ) : Quiet next e e.drop
  | reap (e : Escalation σ) : Quiet next e e.reap
  | spawn (e : Escalation σ) : Quiet next e e.spawn
  | forget (e : Escalation σ) : Quiet next e e.forget

theorem Quiet.wf {e' : Escalation σ} (hq : Quiet next e e') (h : e.Wf first next) :
    e'.Wf first next := by
  induction hq with
  | refl => exact h
  | trans _ _ ih₁ ih₂ => exact ih₂ (ih₁ h)
  | tick => exact tick_wf h _
  | drop => exact drop_wf h
  | reap => exact reap_wf h
  | spawn => exact spawn_wf h
  | forget => exact forget_wf h

/-- Quiet moves do no harm. -/
theorem Quiet.sound {e' : Escalation σ} (hq : Quiet next e e') (hw : e.Wf first next)
    (h : e.Sound) : e'.Sound := by
  induction hq with
  | refl => exact h
  | trans h₁ _ ih₁ ih₂ => exact ih₂ (h₁.wf hw) (ih₁ hw h)
  | tick e hsrc => exact tick_sound hw h hsrc
  | drop => exact drop_sound hw h
  | reap => exact reap_sound hw h
  | spawn => exact spawn_sound h
  | forget => exact forget_sound hw h

/-- A request, then quiet moves that leave alone a child that is still up. -/
theorem request_quiet_sound_iff {e' : Escalation σ} (hw : e.Wf first next) (h : e.Sound)
    (hq : Quiet next (e.request first) e') (hup : e.up = true → e' = e.request first) :
    e'.Sound ↔ ¬ (e.up = true ∧ e.recorded ≠ 0) := by
  cases hu : e.up with
  | true =>
    rw [hup hu, request_sound_iff hw h, hu]
  | false =>
    have hsame : e.request first = e := by simp [request, hu]
    rw [hsame] at hq
    simp [hq.sound hw h]

end Escalation

end Tlm
