import Mathlib.Data.List.Basic

/-!
# One direction of a connection

What is sent over a connection arrives in order and once, but the end of the
connection may come first: then a tail of what is still on its way is lost, and so
is all that is sent later. A `Channel` keeps what was **heard**, what is on its
way and what was **lost**, and carries the one fact about them that does not
follow from the order of the three lists: nothing is lost while it is open.
-/

namespace Tlm

universe u

/-- A channel with its history. -/
structure Channel (α : Type u) : Type u where
  /-- taken out at the far end -/
  heard : List α := []
  /-- on its way -/
  queue : List α := []
  /-- never to arrive -/
  lost : List α := []
  /-- not closed -/
  isOpen : Bool := true
  /-- nothing is lost but at the end -/
  lossless : isOpen = true → lost = [] := by simp

namespace Channel

variable {α : Type u}

/-- All that was put into it, in order. -/
def sent (c : Channel α) : List α := c.heard ++ c.queue ++ c.lost

/-- Put `as` in. -/
def send (c : Channel α) (as : List α) : Channel α :=
  if h : c.isOpen = true then
    { c with queue := c.queue ++ as, lossless := fun _ => c.lossless h }
  else { c with lost := c.lost ++ as, lossless := fun h' => absurd h' h }

/-- Take the next one out, if there is one. -/
def hear (c : Channel α) : Channel α :=
  { c with heard := c.heard ++ c.queue.take 1, queue := c.queue.drop 1 }

/-- The connection ends. Of what is on its way the first `k` still arrive. -/
def close (k : ℕ) (c : Channel α) : Channel α :=
  { c with queue := c.queue.take k, lost := c.queue.drop k ++ c.lost, isOpen := false
           lossless := fun h => by cases h }

variable {c : Channel α}

@[simp] theorem sent_send (as : List α) : (c.send as).sent = c.sent ++ as := by
  simp only [send]
  split
  · rename_i hopen
    simp [sent, c.lossless hopen]
  · simp [sent]

@[simp] theorem sent_hear : c.hear.sent = c.sent := by
  simp only [hear, sent]
  rw [List.append_assoc c.heard, List.take_append_drop]

@[simp] theorem sent_close (k : ℕ) : (c.close k).sent = c.sent := by
  simp only [close, sent]
  rw [← List.append_assoc, List.append_assoc c.heard, List.take_append_drop]

/-- What has been heard is what was sent first. -/
theorem heard_prefix_sent (c : Channel α) : c.heard <+: c.sent := by
  rw [sent, List.append_assoc]
  exact List.prefix_append _ _

theorem mem_sent_of_mem_heard {a : α} (h : a ∈ c.heard) : a ∈ c.sent :=
  c.heard_prefix_sent.subset h

end Channel

end Tlm
