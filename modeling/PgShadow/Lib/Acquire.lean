/-
# Acquiring handles step by step

A routine asks for one operation after another. An operation may be refused; then
a fallback is tried if there is one, and if that is refused too the routine closes
the handles that the branch names and returns an error. A step that succeeds may
open a handle.

The routine fails exactly if a step is refused (`run_error_iff`). For operations of
a certain kind, it fails before any of them is done exactly if a step is refused
up to the first of them (`run_untouched_iff`). If every branch closes what is open
by then, in the reverse order, a routine that fails leaves nothing open
(`Nested.closed_run`).

Key definitions: `Step`, `run`, `upTo`, `Nested`.
Key theorems: `run_error_iff`, `run_untouched_iff`, `Nested.closed_run`.
-/
import Mathlib.Data.List.Basic

namespace Acquire

structure Step (Op Handle Cause Err : Type*) where
  op : Op
  /-- Tried if `op` is refused. -/
  fallback : Option Op := none
  /-- What the failure branch closes, in this order. -/
  closes : List Handle
  failure : Cause → Err
  opens : Option Handle := none

structure Outcome (Op Handle Err : Type*) where
  error : Option Err
  /-- The operations that succeeded. -/
  done : List Op
  opened : List Handle
  closed : List Handle
deriving DecidableEq

variable {Op Handle Cause Err : Type*}

/-- The operation that succeeds, or why the last one tried did not. -/
def Step.attempt (answer : Op → Option Cause) (s : Step Op Handle Cause Err) : Except Cause Op :=
  match answer s.op, s.fallback with
  | none, _ => .ok s.op
  | some cause, none => .error cause
  | some _, some op =>
    match answer op with
    | none => .ok op
    | some cause => .error cause

def run (answer : Op → Option Cause) : List (Step Op Handle Cause Err) → Outcome Op Handle Err
  | [] => { error := none, done := [], opened := [], closed := [] }
  | s :: steps =>
    match s.attempt answer with
    | .error cause => { error := some (s.failure cause), done := [], opened := [], closed := s.closes }
    | .ok op =>
      let o := run answer steps
      { o with done := op :: o.done, opened := s.opens.toList ++ o.opened }

/-- The operation and its fallback are refused. -/
def Step.Refused (answer : Op → Option Cause) (s : Step Op Handle Cause Err) : Prop :=
  ∃ cause, s.attempt answer = .error cause

/-- The steps up to the first whose operation is of the kind `p`. -/
def upTo (p : Op → Bool) : List (Step Op Handle Cause Err) → List (Step Op Handle Cause Err)
  | [] => []
  | s :: steps => if p s.op then [s] else s :: upTo p steps

/-- Every branch closes what is open when it is taken, the last opened first;
`held` is open before. -/
def Nested : List Handle → List (Step Op Handle Cause Err) → Prop
  | _, [] => True
  | held, s :: steps => s.closes = held ∧ Nested (s.opens.toList ++ held) steps

variable {answer : Op → Option Cause} {s : Step Op Handle Cause Err} {steps : List (Step Op Handle Cause Err)}

theorem Step.attempt_ok {op : Op} (h : s.attempt answer = .ok op) : op = s.op ∨ s.fallback = some op := by
  unfold Step.attempt at h
  split at h
  · exact Or.inl (Except.ok.inj h).symm
  · cases h
  · rename_i op' hfallback
    split at h
    · rw [hfallback, Except.ok.inj h]
      exact Or.inr rfl
    · cases h

theorem Step.not_refused {op : Op} (h : s.attempt answer = .ok op) : ¬s.Refused answer := by
  rintro ⟨cause, hrefused⟩
  rw [h] at hrefused
  cases hrefused

theorem run_cons_error {cause : Cause} (h : s.attempt answer = .error cause) :
    run answer (s :: steps) = { error := some (s.failure cause), done := [], opened := [], closed := s.closes } := by
  rw [run, h]

theorem run_cons_ok {op : Op} (h : s.attempt answer = .ok op) :
    run answer (s :: steps) =
      { run answer steps with
        done := op :: (run answer steps).done
        opened := s.opens.toList ++ (run answer steps).opened } := by
  rw [run, h]

/-- **A routine fails** exactly if a step of it is refused. -/
theorem run_error_iff : ∀ {steps : List (Step Op Handle Cause Err)},
    (run answer steps).error.isSome = true ↔ ∃ s ∈ steps, s.Refused answer
  | [] => by simp [run]
  | s :: steps => by
    rw [List.exists_mem_cons_iff]
    rcases h : s.attempt answer with cause | op
    · rw [run_cons_error h]
      exact iff_of_true rfl (Or.inl ⟨cause, h⟩)
    · rw [run_cons_ok h, or_iff_right (Step.not_refused h)]
      exact run_error_iff

/-- **A routine fails untouched**, before any operation of the kind `p` is done,
exactly if a step up to the first of that kind is refused. -/
theorem run_untouched_iff {p : Op → Bool} : ∀ {steps : List (Step Op Handle Cause Err)},
    (∀ s ∈ steps, ∀ op, s.fallback = some op → p op = p s.op) →
    ((run answer steps).error.isSome = true ∧ (∀ op ∈ (run answer steps).done, p op = false) ↔
      ∃ s ∈ upTo p steps, s.Refused answer)
  | [], _ => by simp [run, upTo]
  | s :: steps, hfallback => by
    have ih := run_untouched_iff fun s' hs => hfallback s' (List.mem_cons_of_mem s hs)
    have hself : s ∈ upTo p (s :: steps) := by
      unfold upTo
      split_ifs <;> exact List.mem_cons_self
    rcases h : s.attempt answer with cause | op
    · rw [run_cons_error h]
      exact iff_of_true ⟨rfl, by simp⟩ ⟨s, hself, cause, h⟩
    · have hkind : p op = p s.op := by
        rcases Step.attempt_ok h with rfl | hop
        · rfl
        · exact hfallback s List.mem_cons_self op hop
      rw [run_cons_ok h, upTo, List.forall_mem_cons, hkind]
      by_cases hp : p s.op = true
      · rw [if_pos hp, hp]
        refine iff_of_false (by simp) ?_
        rintro ⟨s', hs', hrefused⟩
        rw [List.mem_singleton.1 hs'] at hrefused
        exact Step.not_refused h hrefused
      · rw [if_neg hp, List.exists_mem_cons_iff, or_iff_right (Step.not_refused h), ← ih,
          and_iff_right (Bool.eq_false_iff.2 hp)]

/-- **A routine that fails leaves nothing open**: what was open and what it opened
is closed, the last opened first. -/
theorem Nested.closed_run : ∀ {steps : List (Step Op Handle Cause Err)} {held : List Handle}, Nested held steps →
    (run answer steps).error.isSome = true → (run answer steps).closed = (run answer steps).opened.reverse ++ held
  | [], _, _, herror => by cases herror
  | s :: steps, held, ⟨hcloses, hrest⟩, herror => by
    rcases h : s.attempt answer with cause | op
    · rw [run_cons_error h]
      exact hcloses
    · rw [run_cons_ok h] at herror ⊢
      have ih : (run answer steps).closed = (run answer steps).opened.reverse ++ (s.opens.toList ++ held) :=
        hrest.closed_run herror
      have hone : s.opens.toList.reverse = s.opens.toList := by cases s.opens <;> rfl
      show (run answer steps).closed = (s.opens.toList ++ (run answer steps).opened).reverse ++ held
      rw [ih, List.reverse_append, hone, List.append_assoc]

end Acquire
