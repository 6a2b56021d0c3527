/-
# Buffered channels

A channel with its elements, oldest first. A send waits for room and panics on a
closed channel; a receive waits for an element unless the channel is closed; a
second close panics.

A goroutine that moves elements from one place to the next leaves their order
alone: `received_item` and `sent_ok` say how the elements in the channel change, and
what was received, followed by what the channel holds, is what was sent.

Key definitions: `Chan`, `Chan.send`, `Chan.receive`, `Chan.close`.
Key theorems: `sent_ok`, `received_item`, `received_ended`.
-/
import Mathlib.Data.List.Basic

namespace Channel

structure Chan (α : Type*) where
  cap : ℕ
  buf : List α := []
  closed : Bool := false
deriving DecidableEq

/-- How a send ends. -/
inductive Sent (α : Type*)
  | ok (c : Chan α)
  | waits
  | panics

/-- How a receive ends: with an element, or with the end of a closed channel. -/
inductive Received (α : Type*)
  | item (x : α) (c : Chan α)
  | ended
  | waits

namespace Chan

variable {α : Type*}

def send (c : Chan α) (x : α) : Sent α :=
  if c.closed then .panics else if c.buf.length < c.cap then .ok { c with buf := c.buf ++ [x] } else .waits

def receive (c : Chan α) : Received α :=
  match c.buf with
  | x :: buf => .item x { c with buf }
  | [] => if c.closed then .ended else .waits

/-- `none` if it panics. -/
def close (c : Chan α) : Option (Chan α) := if c.closed then none else some { c with closed := true }

variable {c c' : Chan α} {x : α}

theorem sent_ok (h : c.send x = .ok c') :
    c' = { c with buf := c.buf ++ [x] } ∧ c.closed = false ∧ c.buf.length < c.cap := by
  unfold send at h
  split_ifs at h with hclosed hroom
  exact ⟨(Sent.ok.inj h).symm, Bool.eq_false_iff.2 hclosed, hroom⟩

theorem sent_panics (h : c.send x = .panics) : c.closed = true := by
  unfold send at h
  split_ifs at h with hclosed
  exact hclosed

theorem received_item (h : c.receive = .item x c') : c.buf = x :: c'.buf ∧ c' = { c with buf := c'.buf } := by
  unfold receive at h
  split at h
  · rename_i y buf hbuf
    injection h with hx hc
    subst hx hc
    exact ⟨hbuf, rfl⟩
  · split_ifs at h

theorem received_ended (h : c.receive = .ended) : c.buf = [] ∧ c.closed = true := by
  unfold receive at h
  split at h
  · cases h
  · rename_i hbuf
    split_ifs at h with hclosed
    exact ⟨hbuf, hclosed⟩

end Chan
end Channel
