/-
# Readers of a code

A reader takes a value off the front of a list of symbols, or fails. It reads a code
(`Reads`) if it takes the value off whatever follows the code, and fails on everything
that is cut off before the end of the code. Both pass to readers one after the other
(`Reads.bind`) and to a reader repeated (`Reads.many`), so a format is inverted by the
readers of its fields.

Key definitions: `Reader`, `Reads`, `fixed`, `many`.
Key theorems: `Reads.bind`, `Reads.many`, `reads_fixed`.
-/
import Mathlib.Data.List.Basic
import Mathlib.Data.List.Infix

namespace Coding

variable {σ α β : Type*}

/-- The value at the front and what follows it. -/
abbrev Reader (σ α : Type*) := List σ → Option (α × List σ)

/-- The reader takes exactly `code` for `a`. -/
structure Reads (p : Reader σ α) (code : List σ) (a : α) : Prop where
  append : ∀ rest, p (code ++ rest) = some (a, rest)
  cut : ∀ pre, pre <+: code → pre ≠ code → p pre = none

/-- One reader after the other. -/
def bind (p : Reader σ α) (q : α → Reader σ β) : Reader σ β := fun s => (p s).bind fun x => q x.1 x.2

def map (f : α → β) (p : Reader σ α) : Reader σ β := fun s => (p s).map fun x => (f x.1, x.2)

/-- `n` values. -/
def many (p : Reader σ α) : ℕ → Reader σ (List α)
  | 0 => fun s => some ([], s)
  | n + 1 => bind p fun a => map (a :: ·) (many p n)

/-- What `f` makes of the next `w` symbols. -/
def fixed (w : ℕ) (f : List σ → α) : Reader σ α := fun s =>
  if s.length < w then none else some (f (s.take w), s.drop w)

/-- A prefix of two parts ends in the first, or the first comes before it. -/
theorem prefix_append_cases {pre l r : List σ} (h : pre <+: l ++ r) :
    (pre <+: l ∧ pre ≠ l) ∨ ∃ pre', pre = l ++ pre' ∧ pre' <+: r := by
  obtain hle | hlt := Nat.lt_or_ge pre.length l.length |>.symm
  · have hl : l <+: pre := List.prefix_of_prefix_length_le (List.prefix_append l r) h hle
    obtain ⟨pre', rfl⟩ := hl
    exact .inr ⟨pre', rfl, (List.prefix_append_right_inj l).mp h⟩
  · refine .inl ⟨List.prefix_of_prefix_length_le h (List.prefix_append l r) hlt.le, ?_⟩
    rintro rfl
    exact absurd hlt (Nat.lt_irrefl _)

namespace Reads

variable {p : Reader σ α} {q : α → Reader σ β} {code code' : List σ} {a : α} {b : β}

theorem nil (a : α) : Reads (fun s : List σ => some (a, s)) [] a where
  append _ := rfl
  cut _ hpre hne := absurd (List.prefix_nil.mp hpre) hne

/-- **One code after the other.** -/
theorem bind (hp : Reads p code a) (hq : Reads (q a) code' b) : Reads (bind p q) (code ++ code') b where
  append rest := by
    unfold Coding.bind
    rw [List.append_assoc, hp.append, Option.bind_some, hq.append]
  cut pre hpre hne := by
    unfold Coding.bind
    obtain ⟨hcode, hshort⟩ | ⟨pre', rfl, hcode'⟩ := prefix_append_cases hpre
    · rw [hp.cut pre hcode hshort]
      rfl
    · rw [hp.append, Option.bind_some]
      exact hq.cut pre' hcode' fun heq => hne (congrArg (code ++ ·) heq)

theorem map (hp : Reads p code a) (f : α → β) : Reads (map f p) code (f a) where
  append rest := by
    unfold Coding.map
    rw [hp.append]
    rfl
  cut pre hpre hne := by
    unfold Coding.map
    rw [hp.cut pre hpre hne]
    rfl

/-- **A code repeated.** -/
theorem many {enc : α → List σ} : ∀ {as : List α}, (∀ a ∈ as, Reads p (enc a) a) →
    Reads (many p as.length) (as.flatMap enc) as
  | [], _ => .nil []
  | a :: as, h => by
    obtain ⟨hfirst, hrest⟩ := List.forall_mem_cons.mp h
    have ih := many hrest
    exact hfirst.bind (q := fun a => Coding.map (a :: ·) (Coding.many p as.length)) (ih.map (a :: ·))

end Reads

/-- A code of fixed width. -/
theorem reads_fixed {w : ℕ} (f : List σ → α) {code : List σ} (hcode : code.length = w) :
    Reads (fixed w f) code (f code) where
  append rest := by
    unfold fixed
    rw [if_neg (by rw [List.length_append]; omega), List.take_left' hcode, List.drop_left' hcode]
  cut pre hpre hne := by
    unfold fixed
    have hlt : pre.length < w := by
      rw [← hcode]
      exact lt_of_le_of_ne hpre.length_le fun heq => hne (hpre.eq_of_length heq)
    rw [if_pos hlt]

end Coding
