/-
# Bounded queues

A queue of at most `cap` elements, with a policy for what happens when an
element is offered to a full one: the caller waits, the newcomer is dropped, or
the oldest element makes room. `offer` takes an optional element: offering
`none` does all that `offer` does except for the append, as when the storage
refuses the newcomer after room was made.

Key definitions: `Policy`, `offer`.
Key theorems: `length_offer_le`, `mem_offer`.
-/
import Mathlib.Data.List.Basic

namespace BoundedQueue

/-- What a full queue does with a newcomer. -/
inductive Policy
  | block
  | dropNewest
  | dropOldest
deriving DecidableEq

variable {α : Type*}

/-- Offer an element to the queue `l`. -/
def offer (policy : Policy) (cap : ℕ) (l : List α) (x : Option α) : List α :=
  if l.length < cap then l ++ x.toList
  else
    match policy with
    | .block => l
    | .dropNewest => l
    | .dropOldest => l.tail ++ x.toList

/-- The bound is kept. -/
theorem length_offer_le {p : Policy} {cap : ℕ} {l : List α} (hcap : 0 < cap) (hl : l.length ≤ cap)
    (x : Option α) : (offer p cap l x).length ≤ cap := by
  have hx : x.toList.length ≤ 1 := by cases x <;> simp
  unfold offer
  split_ifs with h
  · rw [List.length_append]
    omega
  · rcases p with _ | _ | _
    · exact hl
    · exact hl
    · rw [List.length_append, List.length_tail]
      omega

/-- What holds of the elements and of the newcomer holds after the offer. -/
theorem mem_offer {policy : Policy} {cap : ℕ} {l : List α} {x : Option α} {a : α}
    (h : a ∈ offer policy cap l x) : a ∈ l ∨ x = some a := by
  unfold offer at h
  split_ifs at h
  · simpa [Option.mem_toList] using h
  · rcases policy with _ | _ | _
    · exact Or.inl h
    · exact Or.inl h
    · rcases List.mem_append.mp h with h | h
      · exact Or.inl (List.mem_of_mem_tail h)
      · exact Or.inr (Option.mem_toList.mp h)

end BoundedQueue
