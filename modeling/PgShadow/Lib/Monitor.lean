/-
# Condition variables

A monitor is a mutex with a condition variable. Its critical sections are
atomic, so what is left of it is who sleeps on the condition variable, oldest
first, and who has been woken but has not run again. `signal` wakes the oldest
sleeper, `broadcast` all of them, and any of the woken may be the next to get
the mutex (`run`).

Key definitions: `Cond`, `Cond.sleep`, `Cond.signal`, `Cond.broadcast`, `Cond.run`.
Key theorems: `mem_all_sleep`, `mem_all_broadcast`, `countP_woken_signal`.
-/
import Mathlib.Data.List.Perm.Basic

namespace Monitor

/-- The sleepers, oldest first, and those woken that have not run again. -/
structure Cond (ω : Type*) where
  asleep : List ω := []
  woken : List ω := []
deriving DecidableEq

namespace Cond

variable {ω : Type*}

/-- `Wait` up to the point where the caller sleeps. -/
def sleep (c : Cond ω) (w : ω) : Cond ω := { c with asleep := c.asleep ++ [w] }

/-- `Signal`. -/
def signal : Cond ω → Cond ω
  | ⟨[], woken⟩ => ⟨[], woken⟩
  | ⟨w :: ws, woken⟩ => ⟨ws, woken ++ [w]⟩

/-- `Broadcast`. -/
def broadcast (c : Cond ω) : Cond ω := ⟨[], c.woken ++ c.asleep⟩

/-- The `i`-th of the woken has the mutex again. -/
def run (c : Cond ω) (i : ℕ) : Cond ω := { c with woken := c.woken.eraseIdx i }

/-- Everyone inside `Wait`. -/
def all (c : Cond ω) : List ω := c.asleep ++ c.woken

theorem mem_all_sleep {c : Cond ω} {w x : ω} : x ∈ (c.sleep w).all ↔ x ∈ c.all ∨ x = w := by
  simp only [all, sleep, List.mem_append, List.mem_singleton]
  tauto

theorem mem_all_broadcast {c : Cond ω} {x : ω} : x ∈ c.broadcast.all ↔ x ∈ c.all := by
  simp only [all, broadcast, List.nil_append, List.mem_append]
  exact or_comm

theorem mem_all_of_run {c : Cond ω} {i : ℕ} {x : ω} (h : x ∈ (c.run i).all) : x ∈ c.all := by
  rcases List.mem_append.mp h with h | h
  · exact List.mem_append_left _ h
  · exact List.mem_append_right _ ((List.eraseIdx_subset) h)

theorem mem_all_of_woken {c : Cond ω} {i : ℕ} {w : ω} (h : c.woken[i]? = some w) : w ∈ c.all :=
  List.mem_append_right _ (List.mem_of_getElem? h)

/-! ### Who is woken

`signal` on sleepers that are all of one kind wakes one of that kind. -/

section Kinds

variable (p : ω → Bool)

theorem countP_woken_signal {c : Cond ω} (hne : c.asleep ≠ []) (hall : ∀ w ∈ c.asleep, p w = true) :
    c.signal.woken.countP p = c.woken.countP p + 1 := by
  rcases c with ⟨_ | ⟨w, ws⟩, woken⟩
  · exact absurd rfl hne
  · have hw : p w = true := hall w List.mem_cons_self
    rw [signal, List.countP_append, List.countP_singleton, if_pos hw]

theorem asleep_of_signal {c : Cond ω} {w : ω} (h : w ∈ c.signal.asleep) : w ∈ c.asleep := by
  rcases c with ⟨_ | ⟨x, ws⟩, woken⟩
  · exact h
  · exact List.mem_cons_of_mem x h

/-- Running one of the woken takes it out of the count of its kind. -/
theorem countP_woken_run {c : Cond ω} {i : ℕ} {w : ω} (h : c.woken[i]? = some w) :
    (c.run i).woken.countP p + (if p w then 1 else 0) = c.woken.countP p := by
  obtain ⟨hi, rfl⟩ := List.getElem?_eq_some_iff.mp h
  have hperm : (c.woken[i] :: c.woken.eraseIdx i).Perm c.woken := List.getElem_cons_eraseIdx_perm hi
  rw [← hperm.countP_eq, List.countP_cons]
  rfl

end Kinds

end Cond
end Monitor
