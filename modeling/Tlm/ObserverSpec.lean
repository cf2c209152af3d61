import Mathlib.Data.List.Basic
import Mathlib.Order.Nat
import Tlm.Observer

/-!
# What the observer does to its requests

Three facts about a single observer, each an invariant of everything it does
except the dispatch of `_process_request`:

* `Wired` — every connected client's adapter has exactly the handlers of the
  request types the observer supports;
* `Accounted` — every method invocation taken so far is either answered, once,
  or held by exactly one request. The one call that breaks it is a well-formed
  call of a type the observer does **not** support: its adapter takes it, and
  nobody hears;
* `Scheduled` — a non-empty queue has an idle source to process it.
-/

namespace Tlm

/-- The invocation of a request, if it still has one. -/
def Request.invocations (req : Request) : List Invocation :=
  req.dbusRequest.toList.map DbusRequest.invocation

/-- What an operation result is answered with. -/
def Reply.ofError : Option ℤ → Reply
  | none => .success
  | some code => .error code

/-- The same answer for each of some invocations. -/
def answers (is : List Invocation) (rep : Reply) : List (Invocation × Reply) :=
  is.map fun i => (i, rep)

@[simp] theorem map_fst_answers (is : List Invocation) (rep : Reply) :
    (answers is rep).map Prod.fst = is := by
  simp [answers, Function.comp_def]

@[simp] theorem answers_nil (rep : Reply) : answers [] rep = [] := rfl

namespace Observer

variable {o : Observer} {req : Request} {a : AdapterRef} {c : Call} {r : SeatRef}

/-! ## Answering requests -/

/-- The invocations answered so far. -/
def replied (o : Observer) : List Invocation := o.replies.map Prod.fst

/-- The invocations held by a request, queued or active. -/
def held (o : Observer) : List Invocation :=
  (o.requestQueue.getD []).flatMap Request.invocations ++
    o.activeRequest.toList.flatMap Request.invocations

theorem completeDbusRequest_eq (o : Observer) (d : Option DbusRequest) (error : Option ℤ) :
    o.completeDbusRequest d error = { o with
      replies := o.replies ++
        answers (d.toList.map DbusRequest.invocation) (Reply.ofError error) } := by
  rcases d with _ | d
  · simp [completeDbusRequest]
  · rcases error with _ | code <;> rfl

/-- Disposing a request answers it with success and lets go of its seat. -/
theorem disposeRequest_eq (o : Observer) (req : Request) :
    ∃ cs ws, o.disposeRequest req = { o with
      replies := o.replies ++ answers req.invocations .success
      connected := cs, weakRefs := ws } ∧
      (∀ r, req.seat = some r → cs = o.connected.filter (· ≠ r)) ∧
      (req.seat = none → cs = o.connected) := by
  simp only [disposeRequest]
  rw [completeDbusRequest_eq]
  rcases hs : req.seat with _ | r
  · exact ⟨_, _, rfl, by simp, fun _ => rfl⟩
  · refine ⟨_, _, rfl, ?_, by simp⟩
    rintro r' hr'
    obtain rfl := Option.some.inj hr'
    rfl

/-- Completing a request answers it with what the caller says. -/
theorem completeRequest_eq (o : Observer) (req : Request) (error : Option ℤ) :
    ∃ cs ws, o.completeRequest req error = { o with
      replies := o.replies ++ answers req.invocations (Reply.ofError error)
      connected := cs, weakRefs := ws } ∧
      (∀ r, req.seat = some r → cs = o.connected.filter (· ≠ r)) ∧
      (req.seat = none → cs = o.connected) := by
  simp only [completeRequest]
  rw [completeDbusRequest_eq]
  obtain ⟨cs, ws, heq, hcs⟩ := disposeRequest_eq
    { o with
      replies := o.replies ++
        answers (req.dbusRequest.toList.map DbusRequest.invocation) (Reply.ofError error) }
    { req with dbusRequest := none }
  refine ⟨cs, ws, ?_, hcs⟩
  rw [heq]
  simp [Request.invocations]

/-- Aborting a list of requests answers each of them. -/
theorem foldl_clearRequest_eq (reqs : List Request) (o : Observer) :
    ∃ cs ws rs, reqs.foldl clearRequest o = { o with
      replies := o.replies ++ rs, connected := cs, weakRefs := ws } ∧
      rs.map Prod.fst = reqs.flatMap Request.invocations ∧
      (o.connected = [] → cs = []) := by
  induction reqs generalizing o with
  | nil => exact ⟨o.connected, o.weakRefs, [], by simp, rfl, fun h => h⟩
  | cons req reqs ih =>
    obtain ⟨cs, ws, heq, hsome, hnone⟩ := completeRequest_eq o req
      (some TlmError.dbusReqAborted.code)
    obtain ⟨cs', ws', rs, heq', hrs, hcs'⟩ := ih (o.clearRequest req)
    have hclear : o.clearRequest req = _ := heq
    rw [List.foldl_cons, heq', hclear]
    refine ⟨cs', ws', _, by rw [List.append_assoc], ?_, ?_⟩
    · rw [List.map_append, hrs, List.flatMap_cons, map_fst_answers]
    · intro hc
      apply hcs'
      rw [hclear]
      rcases hseat : req.seat with _ | r
      · exact (hnone hseat).trans hc
      · change cs = []
        rw [hsome r hseat, hc]
        rfl

/-- Stopping the server answers everything that is held. -/
theorem stopDbusServer_eq (o : Observer) :
    ∃ cs ws rs, o.stopDbusServer = { o with
      replies := o.replies ++ rs, connected := cs, weakRefs := ws, activeRequest := none
      requestQueue := none, adapters := [], handlers := fun _ => [] } ∧
      (rs.map Prod.fst).Perm o.held ∧ (o.connected = [] → cs = []) := by
  have hactive : o.activeRequest.elim o o.clearRequest =
      o.activeRequest.toList.foldl clearRequest o := by
    cases o.activeRequest <;> rfl
  obtain ⟨cs, ws, rs, heq, hrs, hcs⟩ := foldl_clearRequest_eq o.activeRequest.toList o
  obtain ⟨cs', ws', rs', heq', hrs', hcs'⟩ := foldl_clearRequest_eq (o.requestQueue.getD [])
    { o with replies := o.replies ++ rs, connected := cs, weakRefs := ws, activeRequest := none }
  refine ⟨cs', ws', rs ++ rs', ?_, ?_, fun h => hcs' (hcs h)⟩
  · simp only [stopDbusServer]
    simp only [hactive, heq]
    rw [heq']
    simp
  · rw [List.map_append, hrs, hrs']
    exact List.perm_append_comm

/-- A disposed observer has answered everything and holds nothing. -/
theorem dispose_eq (o : Observer) :
    ∃ cs ws rs, o.dispose = { o with
      manager := false, seat := none, requestId := 0, activeRequest := none
      requestQueue := none, adapters := [], handlers := fun _ => []
      replies := o.replies ++ rs, connected := cs, weakRefs := ws } ∧
      (rs.map Prod.fst).Perm o.held ∧ (o.connected = [] → cs = []) := by
  obtain ⟨cs, ws, rs, heq, hperm, hcs⟩ := stopDbusServer_eq { o with requestId := 0 }
  refine ⟨cs, o.seat.elim ws ws.erase, rs, ?_, hperm, hcs⟩
  rw [dispose, heq]

/-! ## Clients and their handlers -/

/-- The adapters of the connected clients are distinct and belong to a running
server, and each has one handler for every supported request type. -/
structure Wired (o : Observer) : Prop where
  nodup : o.adapters.Nodup
  bounded : ∀ a ∈ o.adapters, a < o.clients
  fresh : ∀ a, o.clients ≤ a → o.handlers a = []
  wired : ∀ a ∈ o.adapters, o.handlers a = o.supported
  serving : ∀ a ∈ o.adapters, o.requestQueue.isSome = true

theorem wired_new (manager : Bool) (seat : Option SeatRef) (flags : ℕ) :
    (Observer.new manager seat flags).Wired := by
  refine ⟨List.nodup_nil, ?_, fun _ _ => rfl, ?_, ?_⟩
  all_goals
    intro a ha
    cases ha

theorem Wired.congr {o' : Observer} (h : o.Wired) (h₁ : o'.adapters = o.adapters)
    (h₂ : o'.clients = o.clients) (h₃ : o'.handlers = o.handlers)
    (h₄ : o'.enableFlags = o.enableFlags)
    (h₅ : o'.requestQueue.isSome = o.requestQueue.isSome) : o'.Wired := by
  have hs : o'.supported = o.supported := by
    unfold supported isRequestSupported
    rw [h₄]
  refine ⟨?_, ?_, ?_, ?_, ?_⟩
  · rw [h₁]; exact h.nodup
  · rw [h₁, h₂]; exact h.bounded
  · rw [h₂, h₃]; exact h.fresh
  · rw [h₁, h₃, hs]; exact h.wired
  · rw [h₁, h₅]; exact h.serving

theorem handleDbusClientAdded_wired (h : o.Wired) : o.handleDbusClientAdded.Wired := by
  simp only [handleDbusClientAdded]
  rcases hq : o.requestQueue with _ | queue
  · exact h
  · have hmem : ∀ a, a ∈ o.adapters ++ [o.clients] → a ∈ o.adapters ∨ a = o.clients := by
      intro a ha
      simpa using ha
    refine ⟨?_, ?_, ?_, ?_, fun _ _ => rfl⟩
    · refine List.nodup_append.mpr ⟨h.nodup, by simp, ?_⟩
      intro a ha b hb
      rw [List.mem_singleton.mp hb]
      exact Nat.ne_of_lt (h.bounded a ha)
    · intro a ha
      rcases hmem a ha with ha | rfl
      · exact Nat.lt_succ_of_lt (h.bounded a ha)
      · exact Nat.lt_succ_self _
    · intro a ha
      have hne : a ≠ o.clients := Nat.ne_of_gt ha
      change Function.update o.handlers o.clients _ a = []
      rw [Function.update_of_ne hne]
      exact h.fresh a (Nat.le_of_succ_le ha)
    · intro a ha
      change Function.update o.handlers o.clients _ a = o.supported
      rcases hmem a ha with ha | rfl
      · rw [Function.update_of_ne (Nat.ne_of_lt (h.bounded a ha))]
        exact h.wired a ha
      · rw [Function.update_self, h.fresh _ (le_refl _)]
        rfl

theorem handleDbusClientRemoved_wired (h : o.Wired) (a : AdapterRef) :
    (o.handleDbusClientRemoved a).Wired := by
  simp only [handleDbusClientRemoved]
  split
  · have hmem : ∀ b, b ∈ o.adapters.erase a → b ≠ a ∧ b ∈ o.adapters := by
      intro b hb
      exact (List.Nodup.mem_erase_iff h.nodup).mp hb
    refine ⟨h.nodup.erase a, fun b hb => h.bounded b (hmem b hb).2, ?_, ?_,
      fun b hb => h.serving b (hmem b hb).2⟩
    · intro b hb
      change Function.update o.handlers a _ b = []
      rw [Function.update_apply, h.fresh b hb]
      split
      · rename_i hba
        rw [← hba, h.fresh b hb]
        rfl
      · rfl
    · intro b hb
      change Function.update o.handlers a _ b = o.supported
      rw [Function.update_of_ne (hmem b hb).1]
      exact h.wired b (hmem b hb).2
  · exact h

/-- A handler is connected exactly for the supported types, once. -/
theorem filter_supported (o : Observer) (t : RequestType) :
    o.supported.filter (· = t) = if o.isRequestSupported t then [t] else [] := by
  simp only [supported]
  cases h₁ : o.isRequestSupported .loginUser <;> cases h₂ : o.isRequestSupported .logoutUser <;>
    cases h₃ : o.isRequestSupported .switchUser <;> cases t <;> simp [h₁, h₂, h₃]

/-- Everything a method call can do. -/
theorem handleCall_cases (h : o.Wired) (a : AdapterRef) (c : Call) :
    (a ∉ o.adapters ∧ o.handleCall a c = o) ∨
    (a ∈ o.adapters ∧ c.valid = false ∧ o.handleCall a c =
      { o with received := o.received + 1 }.reply o.received
        (.error TlmError.invalidInput.code)) ∨
    (a ∈ o.adapters ∧ c.valid = true ∧ o.isRequestSupported c.type = false ∧
      o.handleCall a c = { o with received := o.received + 1 }) ∨
    (a ∈ o.adapters ∧ c.valid = true ∧ o.isRequestSupported c.type = true ∧ o.handleCall a c =
      { o with received := o.received + 1 }.addRequest
        { dbusRequest := some (createDbusRequest a o.received c) }) := by
  simp only [handleCall]
  by_cases ha : a ∈ o.adapters
  · rw [if_pos ha]
    cases hv : c.valid with
    | false => exact Or.inr (Or.inl ⟨ha, rfl, rfl⟩)
    | true =>
      simp only [if_true, h.wired a ha, filter_supported]
      cases hs : o.isRequestSupported c.type with
      | false => exact Or.inr (Or.inr (Or.inl ⟨ha, by simp, rfl, rfl⟩))
      | true => exact Or.inr (Or.inr (Or.inr ⟨ha, by simp, rfl, rfl⟩))
  · exact Or.inl ⟨ha, if_neg ha⟩

theorem processNextRequestInIdle_frame (o : Observer) :
    ∃ id n, o.processNextRequestInIdle = { o with requestId := id, sources := n } := by
  simp only [processNextRequestInIdle]
  split
  · exact ⟨_, _, rfl⟩
  · exact ⟨o.requestId, o.sources, rfl⟩

theorem addRequest_eq (o : Observer) (req : Request) :
    ∃ id n, o.addRequest req =
      { o with requestQueue := o.requestQueue.map (· ++ [req]), requestId := id, sources := n } := by
  obtain ⟨id, n, heq⟩ := processNextRequestInIdle_frame
    { o with requestQueue := o.requestQueue.map (· ++ [req]) }
  exact ⟨id, n, heq⟩

/-- A request that joins the queue of a running server is held from then on. -/
theorem count_held_addRequest (hq : o.requestQueue.isSome = true) (req : Request)
    (i : Invocation) :
    (o.addRequest req).held.count i = o.held.count i + req.invocations.count i := by
  obtain ⟨queue, hq⟩ := Option.isSome_iff_exists.mp hq
  obtain ⟨id, n, heq⟩ := addRequest_eq o req
  rw [heq]
  simp only [held, hq, Option.map_some, Option.getD_some, List.flatMap_append, List.count_append,
    List.flatMap_cons, List.flatMap_nil, List.append_nil]
  omega

theorem handleCall_wired (h : o.Wired) (a : AdapterRef) (c : Call) : (o.handleCall a c).Wired := by
  rcases handleCall_cases h a c with ⟨-, heq⟩ | ⟨-, -, heq⟩ | ⟨-, -, -, heq⟩ | ⟨-, -, -, heq⟩
  · rw [heq]
    exact h
  · rw [heq]
    exact h.congr rfl rfl rfl rfl rfl
  · rw [heq]
    exact h.congr rfl rfl rfl rfl rfl
  · obtain ⟨id, n, hadd⟩ := addRequest_eq { o with received := o.received + 1 }
      { dbusRequest := some (createDbusRequest a o.received c) }
    rw [heq, hadd]
    exact h.congr rfl rfl rfl rfl (by simp)

/-! ## Every call is answered once -/

/-- Every invocation taken so far is answered or held, exactly once; no other
is. -/
def Accounted (o : Observer) : Prop :=
  ∀ i, o.replied.count i + o.held.count i = if i < o.received then 1 else 0

theorem accounted_new (manager : Bool) (seat : Option SeatRef) (flags : ℕ) :
    (Observer.new manager seat flags).Accounted := fun _ => rfl

theorem Accounted.congr {o' : Observer} (h : o.Accounted) (h₁ : o'.replied = o.replied)
    (h₂ : o'.held = o.held) (h₃ : o'.received = o.received) : o'.Accounted := by
  intro i
  rw [h₁, h₂, h₃]
  exact h i

@[simp] theorem invocation_createDbusRequest (a : AdapterRef) (i : Invocation) (c : Call) :
    (createDbusRequest a i c).invocation = i := by
  simp only [createDbusRequest]
  split <;> rfl

/-- A method call keeps the accounts in order, unless it is a well-formed call
of a type the observer does not support: that one is taken and lost. -/
theorem handleCall_accounted (hw : o.Wired) (h : o.Accounted) (a : AdapterRef) (c : Call) :
    (o.handleCall a c).Accounted ↔
      (a ∈ o.adapters → c.valid = true → o.isRequestSupported c.type = true) := by
  -- the number of the new invocation has not been used
  have hnew : o.replied.count o.received + o.held.count o.received = 0 := by
    rw [h, if_neg (Nat.lt_irrefl _)]
  have hlt : ∀ i, (if i < o.received + 1 then 1 else 0) =
      (if i < o.received then 1 else 0) + if i = o.received then 1 else 0 := by
    intro i
    by_cases h₁ : i < o.received
    · rw [if_pos h₁, if_pos (Nat.lt_succ_of_lt h₁), if_neg (Nat.ne_of_lt h₁)]
    · by_cases h₂ : i = o.received
      · rw [if_neg h₁, if_pos h₂, if_pos (by omega)]
      · rw [if_neg h₁, if_neg h₂, if_neg (by omega)]
  rcases handleCall_cases hw a c with
    ⟨ha, heq⟩ | ⟨ha, hv, heq⟩ | ⟨ha, hv, hs, heq⟩ | ⟨ha, hv, hs, heq⟩
  · rw [heq]
    exact ⟨fun _ ha' => absurd ha' ha, fun _ => h⟩
  · rw [heq]
    refine ⟨fun _ _ hv' => ?_, fun _ i => ?_⟩
    · rw [hv] at hv'
      cases hv'
    have hrep : ({ o with received := o.received + 1 }.reply o.received
        (.error TlmError.invalidInput.code)).replied = o.replied ++ [o.received] := by
      simp [replied, reply]
    have hheld : ({ o with received := o.received + 1 }.reply o.received
        (.error TlmError.invalidInput.code)).held = o.held := rfl
    rw [hrep, hheld, List.count_append, List.count_singleton]
    change _ = if i < o.received + 1 then 1 else 0
    rw [hlt, ← h i]
    by_cases hi : i = o.received
    · simp [hi]
      omega
    · simp [hi, Ne.symm hi]
  · rw [heq]
    refine ⟨fun h' => ?_, fun h' => by simp [h' ha hv] at hs⟩
    have hi := h' o.received
    change o.replied.count o.received + o.held.count o.received =
      if o.received < o.received + 1 then 1 else 0 at hi
    rw [hnew, if_pos (Nat.lt_succ_self _)] at hi
    cases hi
  · rw [heq]
    refine ⟨fun _ _ _ => hs, fun _ i => ?_⟩
    have hheld := count_held_addRequest
      (show ({ o with received := o.received + 1 } : Observer).requestQueue.isSome = true from
        hw.serving a ha)
      { dbusRequest := some (createDbusRequest a o.received c) } i
    have hinv : Request.invocations { dbusRequest := some (createDbusRequest a o.received c) } =
        [o.received] := by simp [Request.invocations]
    obtain ⟨id, n, hadd⟩ := addRequest_eq { o with received := o.received + 1 }
      { dbusRequest := some (createDbusRequest a o.received c) }
    rw [hheld, hinv, hadd]
    change o.replied.count i + (o.held.count i + _) = if i < o.received + 1 then 1 else 0
    rw [hlt, ← h i, List.count_singleton]
    by_cases hi : i = o.received
    · simp [hi]
      omega
    · simp [hi, Ne.symm hi]

/-- Disposal answers what was held, so the accounts stay in order. -/
theorem dispose_accounted (h : o.Accounted) : o.dispose.Accounted := by
  obtain ⟨cs, ws, rs, heq, hperm, -⟩ := dispose_eq o
  intro i
  have hrep : o.dispose.replied.count i = o.replied.count i + o.held.count i := by
    rw [heq, ← hperm.count_eq, ← List.count_append]
    simp [replied]
  have hheld : o.dispose.held = [] := by
    rw [heq]
    rfl
  have hrec : o.dispose.received = o.received := by rw [heq]
  rw [hrep, hheld, hrec, h i]
  rfl

theorem dispose_wired (o : Observer) : o.dispose.Wired := by
  obtain ⟨cs, ws, rs, heq, -, -⟩ := dispose_eq o
  rw [heq]
  refine ⟨List.nodup_nil, ?_, fun _ _ => rfl, ?_, ?_⟩
  all_goals
    intro a ha
    cases ha

/-! ## Requests waiting to be processed -/

/-- A non-empty queue has an idle source scheduled. -/
def Scheduled (o : Observer) : Prop := o.requestQueue.getD [] ≠ [] → o.requestId ≠ 0

theorem processNextRequestInIdle_scheduled (o : Observer) :
    o.processNextRequestInIdle.Scheduled := by
  intro hq
  unfold processNextRequestInIdle at hq ⊢
  split
  · exact Nat.succ_ne_zero _
  · rename_i hn
    rw [if_neg hn] at hq
    exact fun h => hn ⟨h, hq⟩

theorem handleCall_scheduled (hw : o.Wired) (h : o.Scheduled) (a : AdapterRef) (c : Call) :
    (o.handleCall a c).Scheduled := by
  rcases handleCall_cases hw a c with ⟨-, heq⟩ | ⟨-, -, heq⟩ | ⟨-, -, -, heq⟩ | ⟨-, -, -, heq⟩
  · rw [heq]
    exact h
  · rw [heq]
    exact h
  · rw [heq]
    exact h
  · rw [heq]
    exact processNextRequestInIdle_scheduled _

theorem dispose_scheduled (o : Observer) : o.dispose.Scheduled := by
  obtain ⟨cs, ws, rs, heq, -, -⟩ := dispose_eq o
  rw [heq]
  exact fun h => absurd rfl h

end Observer

end Tlm
