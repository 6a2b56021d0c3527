/-
# Circular buffers

A list of slots is read as a circle from a slot `head` on. `Holds buf head l` says
that the slots from `head` on hold the elements of `l` in order and that the slots
behind them are empty. Writing the first empty slot appends (`Holds.push`),
emptying the slot at `head` and moving on takes the first element (`Holds.pop`),
and in a full circle writing the slot at `head` instead does both
(`Holds.overwrite`).

Key definitions: `Holds`.
Key theorems: `Holds.push`, `Holds.pop`, `Holds.overwrite`.
-/
import Mathlib.Data.Nat.ModEq
import Mathlib.Data.List.Basic

namespace Circular

variable {α : Type*}

/-- The slot `i` places after `head` holds the `i`-th element of `l`, or nothing
if `l` is no longer than `i`. -/
def Holds (buf : List (Option α)) (head : ℕ) (l : List α) : Prop :=
  ∀ i < buf.length, buf[(head + i) % buf.length]? = some l[i]?

/-- Within one turn, different places are different slots. -/
theorem slot_injective {n head i j : ℕ} (hi : i < n) (hj : j < n) (h : (head + i) % n = (head + j) % n) : i = j :=
  (Nat.ModEq.add_left_cancel' head h).eq_of_lt_of_lt hi hj

/-- Moving `head` by one moves every place by one. -/
theorem slot_succ (n head i : ℕ) : ((head + 1) % n + i) % n = (head + (i + 1)) % n := by
  rw [Nat.mod_add_mod, Nat.add_assoc, Nat.add_comm 1]

namespace Holds

variable {buf : List (Option α)} {head : ℕ} {l : List α} {x y : α}

theorem empty (n head : ℕ) : Holds (List.replicate n (none : Option α)) head [] := by
  intro i hi
  rw [List.length_replicate] at hi ⊢
  rw [List.getElem?_replicate_of_lt (Nat.mod_lt _ (by omega)), List.getElem?_nil]

/-- The first element is at `head`. -/
theorem first (h : Holds buf head (x :: l)) (hhead : head < buf.length) : buf[head]? = some (some x) := by
  have h0 := h 0 (by omega)
  rwa [Nat.add_zero, Nat.mod_eq_of_lt hhead] at h0

/-- **Appending** writes the slot behind the last element. -/
theorem push (h : Holds buf head l) (hl : l.length < buf.length) (x : α) :
    Holds (buf.set ((head + l.length) % buf.length) (some x)) head (l ++ [x]) := by
  intro i hi
  rw [List.length_set] at hi ⊢
  by_cases hil : i = l.length
  · subst hil
    rw [List.getElem?_set_self (Nat.mod_lt _ (by omega)), List.getElem?_concat_length]
  · rw [List.getElem?_set_ne fun heq => hil (slot_injective hl hi heq).symm, h i hi]
    rcases Nat.lt_or_gt_of_ne hil with hlt | hgt
    · rw [List.getElem?_append_left hlt]
    · rw [List.getElem?_eq_none hgt.le, List.getElem?_eq_none (by rw [List.length_append]; exact hgt)]

/-- **Taking** the first element empties its slot. -/
theorem pop (h : Holds buf head (x :: l)) (hhead : head < buf.length) (hl : l.length < buf.length) :
    Holds (buf.set head none) ((head + 1) % buf.length) l := by
  intro i hi
  rw [List.length_set] at hi ⊢
  rw [slot_succ]
  by_cases hlast : i + 1 = buf.length
  · -- the last place is the slot that was emptied
    rw [hlast, Nat.add_mod_right, Nat.mod_eq_of_lt hhead, List.getElem?_set_self hhead,
      List.getElem?_eq_none (by omega)]
  · have hne : head ≠ (head + (i + 1)) % buf.length := by
      intro heq
      have hplace : (head + 0) % buf.length = (head + (i + 1)) % buf.length := by
        rw [Nat.add_zero, Nat.mod_eq_of_lt hhead, ← heq]
      exact absurd (slot_injective (by omega) (by omega) hplace) (Nat.succ_ne_zero i).symm
    rw [List.getElem?_set_ne hne, h (i + 1) (by omega), List.getElem?_cons_succ]

/-- **In a full circle** the slot at `head` is the one behind the last element:
writing it drops the first element and appends. -/
theorem overwrite (h : Holds buf head (x :: l)) (hhead : head < buf.length) (hfull : l.length + 1 = buf.length)
    (y : α) : Holds (buf.set head (some y)) ((head + 1) % buf.length) (l ++ [y]) := by
  have hslot : ((head + 1) % buf.length + l.length) % buf.length = head := by
    rw [slot_succ, hfull, Nat.add_mod_right, Nat.mod_eq_of_lt hhead]
  have hpush := (h.pop hhead (by omega)).push (by rw [List.length_set]; omega) y
  rwa [List.length_set, hslot, List.set_set] at hpush

end Holds
end Circular
