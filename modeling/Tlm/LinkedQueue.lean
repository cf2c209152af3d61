import Mathlib.Data.List.Nodup
import Mathlib.Logic.Function.Basic
import Mathlib.Data.Nat.Notation

/-!
# Doubly linked lists in memory, and queues over them

A node knows its data and its two neighbours, by address; memory gives each address a
node, or none where it is free. A list is a chain of nodes from a first address, and a
queue is a header that has both ends of a chain and its length.

`Linked` says that memory holds a chain, piece by piece, so that a chain can be cut in
two and put together again (`linked_append`). `Linked.deleteLink` is the lemma about
taking a node out, wherever it is in the chain; `Represents` is what a header has to say
of its chain, and under it the operations of a queue are those of a list.
-/

namespace Tlm

namespace LinkedQueue

universe u

/-- A node of a doubly linked list. -/
structure Node (α : Type u) where
  data : α
  prev : Option ℕ
  next : Option ℕ
  deriving DecidableEq, Repr

/-- Memory: the node at an address; `none` where it is free. -/
abbrev Heap (α : Type u) : Type u := ℕ → Option (Node α)

/-- The header of a queue. -/
structure Header where
  head : Option ℕ
  tail : Option ℕ
  length : ℕ
  deriving DecidableEq, Repr

variable {α : Type u}

/-! ## Operations -/

/-- Change the node at an address, if there is one. -/
def modify (heap : Heap α) (link : Option ℕ) (f : Node α → Node α) : Heap α :=
  match link with
  | none => heap
  | some a => Function.update heap a ((heap a).map f)

/-- `g_list_delete_link`: join the neighbours of a node and free it. What comes back is the
memory and where the list starts now. -/
def deleteLink (heap : Heap α) (list : Option ℕ) (link : ℕ) : Heap α × Option ℕ :=
  match heap link with
  | none => (heap, list)
  | some node =>
    let heap := modify heap node.prev fun p => { p with next := node.next }
    let heap := modify heap node.next fun n => { n with prev := node.prev }
    (Function.update heap link none, if list = some link then node.next else list)

/-- `g_queue_push_tail`, with the address of the new node. -/
def pushTail (heap : Heap α) (queue : Header) (a : ℕ) (x : α) : Heap α × Header :=
  let heap := modify heap queue.tail fun n => { n with next := some a }
  (Function.update heap a (some ⟨x, queue.tail, none⟩),
    { head := if queue.tail = none then some a else queue.head, tail := some a,
      length := queue.length + 1 })

/-- `g_queue_pop_head`; the head of a queue that is not empty may be free memory, and then
there is nothing it can return. -/
def popHead (heap : Heap α) (queue : Header) : Option (α × Heap α × Header) :=
  match queue.head with
  | none => none
  | some a => match heap a with
    | none => none
    | some node =>
      let heap := modify heap node.next fun n => { n with prev := none }
      some (node.data, Function.update heap a none,
        { head := node.next, tail := if node.next = none then none else queue.tail,
          length := queue.length - 1 })

/-- `g_queue_is_empty`. -/
def Header.isEmpty (queue : Header) : Bool := queue.head.isNone

/-! ## Chains -/

/-- Where a chain starts: at its first node, or at what comes after it. -/
def firstOf (cells : List (ℕ × α)) (after : Option ℕ) : Option ℕ :=
  match cells with
  | [] => after
  | (a, _) :: _ => some a

/-- Where a chain ends. -/
def lastOf (before : Option ℕ) : List (ℕ × α) → Option ℕ
  | [] => before
  | (a, _) :: rest => lastOf (some a) rest

/-- Memory holds the nodes `cells` as a chain, between the addresses `before` and `after`. -/
def Linked (heap : Heap α) (before : Option ℕ) (cells : List (ℕ × α)) (after : Option ℕ) : Prop :=
  match cells with
  | [] => True
  | (a, x) :: rest =>
    heap a = some ⟨x, before, firstOf rest after⟩ ∧ Linked heap (some a) rest after

/-- The addresses of a chain. -/
def addresses (cells : List (ℕ × α)) : List ℕ := cells.map Prod.fst

/-- **What a header says of the queue**: it has both ends of a chain that holds `xs`, and
its length. -/
structure Represents (heap : Heap α) (queue : Header) (cells : List (ℕ × α)) : Prop where
  nodup : (addresses cells).Nodup
  linked : Linked heap none cells none
  head : queue.head = firstOf cells none
  tail : queue.tail = lastOf none cells
  length : queue.length = cells.length

section

variable {heap heap' : Heap α} {before after : Option ℕ} {cells xs ys : List (ℕ × α)} {a : ℕ}
  {x : α}

theorem modify_self (f : Node α → Node α) : modify heap (some a) f a = (heap a).map f :=
  Function.update_self ..

theorem modify_of_ne {link : Option ℕ} (h : link ≠ some a) (f : Node α → Node α) :
    modify heap link f a = heap a := by
  cases link with
  | none => rfl
  | some b =>
    apply Function.update_of_ne
    rintro rfl
    exact h rfl

theorem firstOf_append (xs ys : List (ℕ × α)) (after : Option ℕ) :
    firstOf (xs ++ ys) after = firstOf xs (firstOf ys after) := by
  cases xs with
  | nil => rfl
  | cons c xs => rfl

theorem lastOf_append (before : Option ℕ) (xs ys : List (ℕ × α)) :
    lastOf before (xs ++ ys) = lastOf (lastOf before xs) ys := by
  induction xs generalizing before with
  | nil => rfl
  | cons c xs ih => exact ih (some c.1)

/-- A chain is cut in two. -/
theorem linked_append : Linked heap before (xs ++ ys) after ↔
    Linked heap before xs (firstOf ys after) ∧ Linked heap (lastOf before xs) ys after := by
  induction xs generalizing before with
  | nil => simp [Linked, lastOf]
  | cons c xs ih =>
    obtain ⟨a, x⟩ := c
    simp only [List.cons_append, Linked, lastOf, ih, firstOf_append, and_assoc]

/-- A chain is in its nodes: memory may change anywhere else. -/
theorem Linked.congr (h : Linked heap before cells after)
    (hsame : ∀ b ∈ addresses cells, heap' b = heap b) : Linked heap' before cells after := by
  induction cells generalizing before with
  | nil => trivial
  | cons c cells ih =>
    obtain ⟨a, x⟩ := c
    obtain ⟨hnode, hrest⟩ := h
    refine ⟨(hsame a List.mem_cons_self).trans hnode, ih hrest fun b hb => ?_⟩
    exact hsame b (List.mem_cons_of_mem _ hb)

/-- The chain is followed by something else once its last node says so. -/
theorem Linked.setNext {after' : Option ℕ} (h : Linked heap before (xs ++ [(a, x)]) after)
    (hlast : heap' a = (heap a).map fun n => { n with next := after' })
    (hsame : ∀ b ∈ addresses xs, heap' b = heap b) :
    Linked heap' before (xs ++ [(a, x)]) after' := by
  obtain ⟨hxs, hnode, -⟩ := linked_append.mp h
  refine linked_append.mpr ⟨hxs.congr hsame, ?_, trivial⟩
  rw [hlast, hnode]
  rfl

/-- The chain is preceded by something else once its first node says so. -/
theorem Linked.setPrev {before' : Option ℕ} (h : Linked heap before ((a, x) :: xs) after)
    (hfirst : heap' a = (heap a).map fun n => { n with prev := before' })
    (hsame : ∀ b ∈ addresses xs, heap' b = heap b) :
    Linked heap' before' ((a, x) :: xs) after := by
  obtain ⟨hnode, hxs⟩ := h
  refine ⟨?_, hxs.congr hsame⟩
  rw [hfirst, hnode]
  rfl

theorem firstOf_ne (h : a ∉ addresses cells) : firstOf cells none ≠ some a := by
  cases cells with
  | nil => exact nofun
  | cons c cells =>
    intro hfirst
    rw [← Option.some.inj hfirst] at h
    exact h List.mem_cons_self

theorem lastOf_concat (before : Option ℕ) (xs : List (ℕ × α)) (a : ℕ) (x : α) :
    lastOf before (xs ++ [(a, x)]) = some a := lastOf_append before xs [(a, x)]

theorem lastOf_ne (h : a ∉ addresses cells) : lastOf none cells ≠ some a := by
  obtain rfl | ⟨xs, ⟨b, y⟩, rfl⟩ := List.eq_nil_or_concat' cells
  · exact nofun
  · rw [lastOf_concat]
    intro hlast
    rw [← Option.some.inj hlast] at h
    exact h (List.mem_map_of_mem (List.mem_append_right _ (List.mem_singleton_self _)))

theorem addresses_append (xs ys : List (ℕ × α)) :
    addresses (xs ++ ys) = addresses xs ++ addresses ys := List.map_append

/-- In a chain without repetitions the nodes before and after a node are others. -/
theorem nodup_middle (h : (addresses (xs ++ (a, x) :: ys)).Nodup) :
    a ∉ addresses xs ∧ a ∉ addresses ys ∧ (∀ b ∈ addresses xs, b ∉ addresses ys) ∧
      (addresses xs).Nodup ∧ (addresses ys).Nodup := by
  rw [addresses_append] at h
  obtain ⟨hxs, hys, hdisj⟩ := List.nodup_append.mp h
  obtain ⟨hays, hys⟩ := List.nodup_cons.mp hys
  refine ⟨fun ha => hdisj a ha a List.mem_cons_self rfl, hays, fun b hb hb' => ?_, hxs, hys⟩
  exact hdisj b hb b (List.mem_cons_of_mem _ hb') rfl

/-! ## Taking a node out -/

/-- The node in the middle of a chain. -/
theorem Linked.node (h : Linked heap before (xs ++ (a, x) :: ys) after) :
    heap a = some ⟨x, lastOf before xs, firstOf ys after⟩ := (linked_append.mp h).2.1

/-- What memory is after a node in a chain was deleted. -/
theorem deleteLink_of_linked (h : Linked heap none (xs ++ (a, x) :: ys) none)
    (list : Option ℕ) :
    deleteLink heap list a =
      (Function.update (modify (modify heap (lastOf none xs)
          fun p => { p with next := firstOf ys none }) (firstOf ys none)
          fun n => { n with prev := lastOf none xs }) a none,
        if list = some a then firstOf ys none else list) := by
  simp only [deleteLink, h.node]

/-- Elsewhere the two neighbours were changed. -/
theorem deleteLink_apply (h : Linked heap none (xs ++ (a, x) :: ys) none) (list : Option ℕ)
    {b : ℕ} (hb : b ≠ a) :
    (deleteLink heap list a).1 b =
      modify (modify heap (lastOf none xs) fun p => { p with next := firstOf ys none })
        (firstOf ys none) (fun n => { n with prev := lastOf none xs }) b := by
  rw [deleteLink_of_linked h]
  exact Function.update_of_ne hb ..

/-- Deleting a node leaves the nodes alone that are not next to it. -/
theorem deleteLink_of_ne (h : Linked heap none (xs ++ (a, x) :: ys) none) (list : Option ℕ)
    {b : ℕ} (hb : b ≠ a) (hlast : lastOf none xs ≠ some b) (hfirst : firstOf ys none ≠ some b) :
    (deleteLink heap list a).1 b = heap b := by
  rw [deleteLink_apply h list hb, modify_of_ne hfirst, modify_of_ne hlast]

/-- The node is free memory now. -/
theorem deleteLink_self (h : Linked heap none (xs ++ (a, x) :: ys) none) (list : Option ℕ) :
    (deleteLink heap list a).1 a = none := by
  rw [deleteLink_of_linked h]
  exact Function.update_self ..

/-- Free memory stays free. -/
theorem modify_of_none {link : Option ℕ} (h : heap a = none) (f : Node α → Node α) :
    modify heap link f a = none := by
  by_cases hlink : link = some a
  · rw [hlink, modify_self, h]
    rfl
  · rw [modify_of_ne hlink, h]

theorem deleteLink_of_none (h : heap a = none) (list : Option ℕ) (b : ℕ) :
    (deleteLink heap list b).1 a = none := by
  by_cases hab : a = b
  · simp only [deleteLink, ← hab, h]
  · rw [deleteLink]
    split
    case h_1 => exact h
    case h_2 =>
      refine (Function.update_of_ne hab _ _).trans ?_
      exact modify_of_none (modify_of_none h _) _

/-- **Deleting a node**, first, last or in the middle, leaves a chain of the others. -/
theorem Linked.deleteLink (h : Linked heap none (xs ++ (a, x) :: ys) none)
    (hnodup : (addresses (xs ++ (a, x) :: ys)).Nodup) (list : Option ℕ) :
    Linked (deleteLink heap list a).1 none (xs ++ ys) none := by
  obtain ⟨haxs, hays, hdisj, hxs, hys⟩ := nodup_middle hnodup
  obtain ⟨hbefore, -, hafter⟩ := linked_append.mp h
  refine linked_append.mpr ⟨?_, ?_⟩
  · obtain rfl | ⟨xs', ⟨b, y⟩, rfl⟩ := List.eq_nil_or_concat' xs
    · trivial
    · -- the last node before the deleted one is now followed by what came after that
      have hb : b ∈ addresses (xs' ++ [(b, y)]) := by simp [addresses]
      have hba : b ≠ a := fun hba => haxs (hba ▸ hb)
      obtain ⟨-, -, hxs'⟩ := List.nodup_append.mp (addresses_append xs' [(b, y)] ▸ hxs)
      refine hbefore.setNext ?_ fun c hc => ?_
      · rw [deleteLink_apply h list hba, modify_of_ne (firstOf_ne (hdisj b hb)), lastOf_concat,
          modify_self]
      · have hc' : c ∈ addresses (xs' ++ [(b, y)]) := by
          rw [addresses_append]
          exact List.mem_append_left _ hc
        have hca : c ≠ a := fun hca => haxs (hca ▸ hc')
        refine deleteLink_of_ne h list hca ?_ (firstOf_ne (hdisj c hc'))
        rw [lastOf_concat]
        exact fun hcb => hxs' c hc b (List.mem_singleton_self b) (Option.some.inj hcb).symm
  · cases ys with
    | nil => trivial
    | cons c ys =>
      obtain ⟨c, z⟩ := c
      have hc : c ∈ addresses ((c, z) :: ys) := List.mem_cons_self
      obtain ⟨hcys, -⟩ := List.nodup_cons.mp hys
      refine Linked.setPrev hafter ?_ fun b hb => ?_
      · have hlast : lastOf none xs ≠ some c := lastOf_ne fun hcxs => hdisj c hcxs hc
        have hca : c ≠ a := fun hca => hays (hca ▸ hc)
        rw [deleteLink_apply h list hca]
        exact (modify_self _).trans (congrArg _ (modify_of_ne hlast _))
      · have hb' : b ∈ addresses ((c, z) :: ys) := List.mem_cons_of_mem _ hb
        have hba : b ≠ a := fun hba => hays (hba ▸ hb')
        refine deleteLink_of_ne h list hba
          (lastOf_ne fun hbxs => hdisj b hbxs hb') ?_
        exact fun hcb => hcys (Option.some.inj hcb ▸ hb)

/-- The start of the list is right again, if it was. -/
theorem deleteLink_start (h : Linked heap none (xs ++ (a, x) :: ys) none)
    (hnodup : (addresses (xs ++ (a, x) :: ys)).Nodup) :
    (LinkedQueue.deleteLink heap (firstOf (xs ++ (a, x) :: ys) none) a).2 =
      firstOf (xs ++ ys) none := by
  obtain ⟨haxs, -⟩ := nodup_middle hnodup
  rw [deleteLink_of_linked h]
  cases xs with
  | nil => exact if_pos rfl
  | cons c xs =>
    refine if_neg fun hc => haxs ?_
    rw [← Option.some.inj hc]
    exact List.mem_cons_self

/-! ## The operations of a queue are those of a list -/

section

variable {queue : Header}

theorem Represents.isEmpty_iff (h : Represents heap queue cells) :
    queue.isEmpty = true ↔ cells = [] := by
  rw [Header.isEmpty, h.head]
  cases cells with
  | nil => exact iff_of_true rfl rfl
  | cons c cells => exact iff_of_false Bool.false_ne_true (List.cons_ne_nil c cells)

/-- The first one is taken from a queue that is not empty. -/
theorem Represents.popHead (h : Represents heap queue ((a, x) :: cells)) :
    ∃ heap' queue', popHead heap queue = some (x, heap', queue') ∧
      Represents heap' queue' cells := by
  have hchain : Linked heap none ([] ++ (a, x) :: cells) none := h.linked
  have hnodup : (addresses ([] ++ (a, x) :: cells)).Nodup := h.nodup
  have hnode : heap a = some ⟨x, none, firstOf cells none⟩ := hchain.node
  have hheap : Function.update (modify heap (firstOf cells none) fun n => { n with prev := none })
      a none = (LinkedQueue.deleteLink heap none a).1 := by
    rw [deleteLink_of_linked hchain]
    rfl
  have hpop : LinkedQueue.popHead heap queue = some (x, (LinkedQueue.deleteLink heap none a).1,
      { head := firstOf cells none, tail := if firstOf cells none = none then none else queue.tail,
        length := queue.length - 1 }) := by
    have hhead : queue.head = some a := h.head
    simp only [LinkedQueue.popHead, hhead, hnode, hheap]
  obtain ⟨-, -, -, -, hrest⟩ := nodup_middle hnodup
  refine ⟨_, _, hpop, hrest, hchain.deleteLink hnodup none, rfl, ?_, ?_⟩
  · rw [h.tail]
    cases cells with
    | nil => rfl
    | cons c cells => rfl
  · rw [h.length]
    rfl

/-- A new one is put behind the others. -/
theorem Represents.pushTail (h : Represents heap queue cells) (ha : a ∉ addresses cells)
    (x : α) :
    Represents (pushTail heap queue a x).1 (pushTail heap queue a x).2 (cells ++ [(a, x)]) := by
  refine ⟨?_, linked_append.mpr ⟨?_, ?_, trivial⟩, ?_, ?_, ?_⟩
  · rw [addresses_append]
    refine List.nodup_append.mpr ⟨h.nodup, List.nodup_singleton a, fun b hb c hc => ?_⟩
    obtain rfl : c = a := List.mem_singleton.mp hc
    rintro rfl
    exact ha hb
  · obtain rfl | ⟨xs, ⟨b, y⟩, rfl⟩ := List.eq_nil_or_concat' cells
    · trivial
    · have hb : b ≠ a := by
        rintro rfl
        exact ha (by simp [addresses])
      obtain ⟨-, -, hdisj⟩ := List.nodup_append.mp (addresses_append xs [(b, y)] ▸ h.nodup)
      have hother : ∀ c, c ≠ a → (LinkedQueue.pushTail heap queue a x).1 c =
          modify heap (some b) (fun n => { n with next := some a }) c := by
        intro c hc
        rw [LinkedQueue.pushTail, h.tail, lastOf_concat]
        exact Function.update_of_ne hc ..
      refine h.linked.setNext ?_ fun c hc => ?_
      · rw [hother b hb, modify_self]
        rfl
      · have hca : c ≠ a := by
          rintro rfl
          exact ha (addresses_append xs [(b, y)] ▸ List.mem_append_left _ hc)
        rw [hother c hca]
        refine modify_of_ne (fun hbc => ?_) _
        exact hdisj c hc b (List.mem_singleton_self b) (Option.some.inj hbc).symm
  · rw [LinkedQueue.pushTail, h.tail]
    exact Function.update_self ..
  · rw [LinkedQueue.pushTail, h.tail, h.head, firstOf_append]
    cases cells with
    | nil => rfl
    | cons c cells =>
      refine if_neg ?_
      obtain hnil | ⟨xs, ⟨b, y⟩, hconcat⟩ := List.eq_nil_or_concat' (c :: cells)
      · exact absurd hnil (List.cons_ne_nil c cells)
      · rw [hconcat, lastOf_concat]
        exact nofun
  · rw [lastOf_concat]
    rfl
  · rw [List.length_append, ← h.length]
    rfl

end

end

end LinkedQueue

end Tlm
