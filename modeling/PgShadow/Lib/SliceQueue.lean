/-
# A slice as a queue

A slice of pointers is a window of a backing array. Appending at the end and taking
from the front make a queue of it: an append writes behind the window, or moves it to
a larger array when there is no room; taking the front clears the slot and moves the
start of the window. `Holds` says that the window has the elements of a list and that
every other slot is nil, so the array keeps nothing alive that was taken.

Key definitions: `Window`, `Window.append`, `Window.pop`, `Window.trim`, `Window.Holds`.
Key theorems: `Holds.append`, `Holds.pop`, `Holds.trim`.
-/
import Mathlib.Data.List.Basic

namespace SliceQueue

/-- A window of `len` slots from slot `off` of the array on. -/
structure Window (α : Type*) where
  array : List (Option α) := []
  off : ℕ := 0
  len : ℕ := 0
deriving DecidableEq

namespace Window

variable {α : Type*}

/-- `make([]*T, 0, hint)`. -/
def make (hint : ℕ) : Window α := { array := List.replicate hint none }

/-- `cap(s)`: the slots from the start of the window to the end of the array. -/
def cap (s : Window α) : ℕ := s.array.length - s.off

/-- `append(s, x)`. A new array is larger by `room` than it has to be. -/
def append (room : ℕ) (s : Window α) (x : α) : Window α :=
  if s.off + s.len < s.array.length then { s with array := s.array.set (s.off + s.len) (some x), len := s.len + 1 }
  else
    { array := (s.array.drop s.off).take s.len ++ some x :: List.replicate room none, len := s.len + 1 }

/-- `s[0]`. -/
def front (s : Window α) : Option α := (s.array[s.off]?).join

/-- `s[0] = nil; s = s[1:]`. -/
def pop (s : Window α) : Window α := { array := s.array.set s.off none, off := s.off + 1, len := s.len - 1 }

/-- A copy in an array of its own, of no more slots than it needs. -/
def trim (s : Window α) : Window α := { array := (s.array.drop s.off).take s.len, len := s.len }

/-- The window has the elements `xs`, and no other slot has any. -/
structure Holds (s : Window α) (xs : List α) : Prop where
  slots : ∃ spare, s.array = List.replicate s.off none ++ (xs.map some ++ List.replicate spare none)
  len : s.len = xs.length

variable {s : Window α} {xs : List α}

theorem holds_make (hint : ℕ) : Holds (make hint : Window α) [] := ⟨⟨hint, rfl⟩, rfl⟩

theorem Holds.window (h : Holds s xs) : (s.array.drop s.off).take s.len = xs.map some := by
  obtain ⟨spare, harray⟩ := h.slots
  rw [harray, h.len, List.drop_left' List.length_replicate, List.take_left' (List.length_map _)]

theorem Holds.append (h : Holds s xs) (room : ℕ) (x : α) : Holds (s.append room x) (xs ++ [x]) := by
  obtain ⟨spare, harray⟩ := h.slots
  have hlen := h.len
  unfold Window.append
  split_ifs with hroom
  · rcases spare with _ | spare
    · rw [harray] at hroom
      simp at hroom
      omega
    · refine ⟨⟨spare, ?_⟩, by simp [hlen]⟩
      show s.array.set (s.off + s.len) (some x) = _
      rw [harray, List.replicate_succ, hlen]
      simp
  · refine ⟨⟨room, ?_⟩, by simp [hlen]⟩
    rw [h.window]
    simp

theorem Holds.front {x : α} (h : Holds s (x :: xs)) : s.front = some x := by
  obtain ⟨spare, harray⟩ := h.slots
  simp [Window.front, harray]

theorem Holds.pop {x : α} (h : Holds s (x :: xs)) : Holds s.pop xs := by
  obtain ⟨spare, harray⟩ := h.slots
  refine ⟨⟨spare, ?_⟩, by simp [Window.pop, h.len]⟩
  show s.array.set s.off none = List.replicate (s.off + 1) none ++ _
  rw [harray, List.replicate_succ']
  simp

theorem Holds.trim (h : Holds s xs) : Holds s.trim xs := by
  refine ⟨⟨0, ?_⟩, h.len⟩
  show (s.array.drop s.off).take s.len = _
  rw [h.window]
  simp [Window.trim]

theorem Holds.cap_trim (h : Holds s xs) : s.trim.cap = xs.length := by
  simp [cap, Window.trim, h.window]

/-- The array keeps only what is in the queue. -/
theorem Holds.mem_of_slot (h : Holds s xs) {x : α} (hx : some x ∈ s.array) : x ∈ xs := by
  obtain ⟨spare, harray⟩ := h.slots
  rw [harray] at hx
  simpa using hx

end Window
end SliceQueue
