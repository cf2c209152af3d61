import Tlm.LinkedQueue
import Tlm.Observer

/-!
# The requests of a dead client (`_on_dbus_adapter_dispose`)

When the adapter of a client is disposed, its requests are taken out of the queue. The
loop walks the links of the `GQueue` and deletes some of them with `g_list_delete_link`,
which knows nothing of queues: it returns where the list starts now, the loop keeps that
in a local, and the header is never told. So the list is right after the loop
(`removeDead_spec`), and the header says of it what was true before.

`queueIntact_iff` is the result: header and list agree after the loop exactly if it has
deleted nothing. A queued request holds a reference to its adapter, so in a run of the
daemon none of its requests is queued when an adapter goes; then nothing is deleted
(`Served.run_queueIntact`).
-/

namespace Tlm

namespace Observer

open LinkedQueue

/-- `dbus_req && G_OBJECT (dbus_req->dbus_adapter) == dead`. -/
def ofAdapter (dead : AdapterRef) (request : Request) : Bool :=
  match request.dbusRequest with
  | none => false
  | some dbusReq => dbusReq.dbusAdapter = dead

/-- What the loop changes. -/
structure Removal where
  heap : Heap Request
  /-- the local `head` -/
  head : Option ℕ
  /-- `self`, but for its queue -/
  observer : Observer
  /-- the requests it has disposed of, in order -/
  disposed : List Request

/-- The loop of `_on_dbus_adapter_dispose`, from the link `elem`. There is no result if the
fuel is gone, or a link is free memory. -/
def removeDead (dead : AdapterRef) : ℕ → Option ℕ → Removal → Option Removal
  | 0, _, _ => none
  | _ + 1, none, s => some s
  | fuel + 1, some elem, s =>
    match s.heap elem with
    | none => none
    | some ⟨request, _, next⟩ =>
      if ofAdapter dead request then
        let (heap, head) := deleteLink s.heap s.head elem
        removeDead dead fuel next
          { heap, head, observer := s.observer.disposeRequest request,
            disposed := s.disposed ++ [request] }
      else removeDead dead fuel next s

/-- A queue of requests: a header, and the links it has in memory. -/
structure RequestQueue where
  heap : Heap Request
  /-- `request_queue` -/
  queue : Header
  /-- the links, with their requests -/
  cells : List (ℕ × Request)
  represents : Represents heap queue cells

/-- The requests, in order. -/
def RequestQueue.requests (q : RequestQueue) : List Request := q.cells.map Prod.snd

/-- The loop, from `g_queue_peek_head_link`. -/
def RequestQueue.removeDead (q : RequestQueue) (o : Observer) (dead : AdapterRef) (fuel : ℕ) :
    Option Removal :=
  Observer.removeDead dead fuel q.queue.head
    { heap := q.heap, head := q.queue.head, observer := o, disposed := [] }

/-- **What the loop is for**: the header of the queue has the requests of the other adapters
in their order, and each request it has taken out was disposed of once. -/
structure QueueIntact (q : RequestQueue) (dead : AdapterRef) (s : Removal) : Prop where
  represents : ∃ cells, Represents s.heap q.queue cells ∧
    cells.map Prod.snd = q.requests.filter fun r => !ofAdapter dead r
  disposed : s.disposed = q.requests.filter (ofAdapter dead)

/-! ## The list is right -/

section

variable {dead : AdapterRef}

/-- The links that stay. -/
def others (dead : AdapterRef) (cells : List (ℕ × Request)) : List (ℕ × Request) :=
  cells.filter fun c => !ofAdapter dead c.2

/-- The requests that go. -/
def removed (dead : AdapterRef) (cells : List (ℕ × Request)) : List Request :=
  (cells.map Prod.snd).filter (ofAdapter dead)

/-- **The loop**, with the links `kept` behind it and the links `rest` before it. -/
theorem removeDead_linked (dead : AdapterRef) {kept rest : List (ℕ × Request)} {s : Removal}
    (hlinked : Linked s.heap none (kept ++ rest) none)
    (hnodup : (addresses (kept ++ rest)).Nodup) (hhead : s.head = firstOf (kept ++ rest) none) :
    ∃ s', (∀ fuel > rest.length, removeDead dead fuel (firstOf rest none) s = some s') ∧
      Linked s'.heap none (kept ++ others dead rest) none ∧
      s'.head = firstOf (kept ++ others dead rest) none ∧
      s'.disposed = s.disposed ++ removed dead rest ∧
      s'.observer = (removed dead rest).foldl disposeRequest s.observer := by
  induction rest generalizing kept s with
  | nil =>
    refine ⟨s, fun fuel hfuel => ?_, hlinked, hhead, (List.append_nil _).symm, rfl⟩
    obtain ⟨n, rfl⟩ := Nat.exists_eq_add_of_lt hfuel
    rfl
  | cons c rest ih =>
    obtain ⟨elem, request⟩ := c
    cases hdead : ofAdapter dead request with
    | false =>
      -- the link stays, and the walk goes on behind it
      have hothers : others dead ((elem, request) :: rest) = (elem, request) :: others dead rest :=
        List.filter_cons_of_pos (by simp [hdead])
      have hremoved : removed dead ((elem, request) :: rest) = removed dead rest :=
        List.filter_cons_of_neg (by simp [hdead])
      rw [List.append_cons] at hlinked hnodup hhead
      obtain ⟨s', hrun, hspec⟩ := ih hlinked hnodup hhead
      refine ⟨s', fun fuel hfuel => ?_, ?_⟩
      · obtain ⟨n, rfl⟩ := Nat.exists_eq_add_of_lt hfuel
        rw [← hrun (rest.length + 1 + n) (by omega)]
        rw [← List.append_cons] at hlinked
        simp only [List.length_cons, firstOf, removeDead, hlinked.node, hdead]
        rfl
      rw [hothers, hremoved, List.append_cons]
      exact hspec
    | true =>
      -- the link is deleted, and its request disposed of
      have hothers : others dead ((elem, request) :: rest) = others dead rest :=
        List.filter_cons_of_neg (by simp [hdead])
      have hremoved : removed dead ((elem, request) :: rest) = request :: removed dead rest :=
        List.filter_cons_of_pos hdead
      have hnodup' : (addresses (kept ++ rest)).Nodup := by
        refine hnodup.sublist (List.Sublist.map _ ?_)
        exact List.Sublist.append_left (List.sublist_cons_self _ _) kept
      have hstart := deleteLink_start hlinked hnodup
      rw [← hhead] at hstart
      obtain ⟨s', hrun, hspec, hhead', hdisposed, hobserver⟩ := ih
        (s := ⟨(deleteLink s.heap s.head elem).1, (deleteLink s.heap s.head elem).2,
          s.observer.disposeRequest request, s.disposed ++ [request]⟩)
        (hlinked.deleteLink hnodup s.head) hnodup' hstart
      refine ⟨s', fun fuel hfuel => ?_, ?_⟩
      · obtain ⟨n, rfl⟩ := Nat.exists_eq_add_of_lt hfuel
        rw [← hrun (rest.length + 1 + n) (by omega)]
        simp only [List.length_cons, firstOf, removeDead, hlinked.node, hdead]
        rfl
      rw [hothers, hremoved]
      refine ⟨hspec, hhead', ?_, hobserver⟩
      rw [hdisposed, List.append_assoc, List.singleton_append]

variable (q : RequestQueue) (o : Observer)

/-- The loop comes to its end, with the list of the others from its local `head`. -/
theorem RequestQueue.removeDead_spec (dead : AdapterRef) :
    ∃ s, (∀ fuel > q.requests.length, q.removeDead o dead fuel = some s) ∧
      Linked s.heap none (others dead q.cells) none ∧
      s.head = firstOf (others dead q.cells) none ∧
      s.disposed = q.requests.filter (ofAdapter dead) ∧
      s.observer = (q.requests.filter (ofAdapter dead)).foldl disposeRequest o := by
  have hlinked : Linked q.heap none ([] ++ q.cells) none := q.represents.linked
  have hnodup : (addresses ([] ++ q.cells)).Nodup := q.represents.nodup
  obtain ⟨s, hrun, hspec⟩ := removeDead_linked dead
    (s := ⟨q.heap, q.queue.head, o, []⟩) hlinked hnodup q.represents.head
  refine ⟨s, fun fuel hfuel => ?_, hspec⟩
  rw [← hrun fuel (by simpa [RequestQueue.requests] using hfuel), ← q.represents.head]
  rfl

/-- What the loop is for, whenever it has fuel enough. -/
def LeavesQueueIntact (dead : AdapterRef) : Prop :=
  ∃ s, (∃ n, ∀ fuel ≥ n, q.removeDead o dead fuel = some s) ∧ QueueIntact q dead s

variable {q o}

/-! ## The header is not told -/

/-- The header still has the old length. -/
theorem QueueIntact.forall_not_ofAdapter {s : Removal} (h : QueueIntact q dead s) :
    ∀ r ∈ q.requests, ofAdapter dead r = false := by
  obtain ⟨cells, hcells, hrequests⟩ := h.represents
  have hlen : (q.requests.filter fun r => !ofAdapter dead r).length = q.requests.length := by
    calc (q.requests.filter fun r => !ofAdapter dead r).length
        = cells.length := by rw [← hrequests, List.length_map]
      _ = q.queue.length := hcells.length.symm
      _ = q.requests.length := by rw [q.represents.length, RequestQueue.requests, List.length_map]
  intro r hr
  have hkept := List.length_filter_eq_length_iff.mp hlen r hr
  simpa using hkept

/-- A link that is free memory is free memory after the loop. -/
theorem removeDead_of_none {a : ℕ} {fuel : ℕ} {elem : Option ℕ} {s s' : Removal}
    (h : s.heap a = none) (hrun : removeDead dead fuel elem s = some s') : s'.heap a = none := by
  fun_induction removeDead dead fuel elem s with
  | case1 => exact absurd hrun nofun
  | case2 => exact Option.some.inj hrun ▸ h
  | case3 => exact absurd hrun nofun
  | case4 fuel elem s request prev next hnode hdead heap head hdelete ih =>
    have hfree := deleteLink_of_none h s.head elem
    rw [hdelete] at hfree
    exact ih hfree hrun
  | case5 fuel elem s request prev next hnode hdead ih => exact ih h hrun

/-- **A dead client at the head**: the header still points to its link, which is free
memory now, and what is popped from this queue is not a request. -/
theorem RequestQueue.head_freed {a : ℕ} {r : Request} {rest : List (ℕ × Request)}
    (hcells : q.cells = (a, r) :: rest) (hdead : ofAdapter dead r = true) {fuel : ℕ}
    {s : Removal} (hrun : q.removeDead o dead fuel = some s) :
    q.queue.isEmpty = false ∧ popHead s.heap q.queue = none := by
  have hhead : q.queue.head = some a := by rw [q.represents.head, hcells]; rfl
  have hlinked : Linked q.heap none ([] ++ (a, r) :: rest) none := hcells ▸ q.represents.linked
  have hfree : s.heap a = none := by
    cases fuel with
    | zero => exact absurd hrun nofun
    | succ fuel =>
      simp only [RequestQueue.removeDead, hhead, Observer.removeDead, hlinked.node, hdead,
        if_true] at hrun
      exact removeDead_of_none (deleteLink_self hlinked _) hrun
  refine ⟨by rw [Header.isEmpty, hhead]; rfl, ?_⟩
  simp only [popHead, hhead, hfree]

/-- **When the loop leaves the queue intact**: when none of its requests is of the adapter
that goes. -/
theorem queueIntact_iff (q : RequestQueue) (o : Observer) (dead : AdapterRef) :
    LeavesQueueIntact q o dead ↔ ∀ r ∈ q.requests, ofAdapter dead r = false := by
  constructor
  · rintro ⟨s, -, hintact⟩
    exact hintact.forall_not_ofAdapter
  · intro hnone
    obtain ⟨s, hrun, hlinked, -, hdisposed, -⟩ := q.removeDead_spec o dead
    have hothers : others dead q.cells = q.cells := by
      refine List.filter_eq_self.mpr fun c hc => ?_
      rw [hnone c.2 (List.mem_map_of_mem hc)]
      rfl
    refine ⟨s, ⟨q.requests.length + 1, hrun⟩, ⟨q.cells, ?_, ?_⟩, hdisposed⟩
    · obtain ⟨hnodup, -, hhead, htail, hlength⟩ := q.represents
      exact ⟨hnodup, hothers ▸ hlinked, hhead, htail, hlength⟩
    · refine (List.filter_eq_self.mpr fun r hr => ?_).symm
      rw [hnone r hr]
      rfl

end

end Observer

end Tlm
