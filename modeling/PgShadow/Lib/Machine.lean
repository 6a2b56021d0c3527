/-
# Machines with outputs

A deterministic machine is a step function that answers every input with one
output. This file has its runs (`final`, `outs`), the rule for machines that
simulate each other (`simulation_on`), and runs under an assumption on each input in
the state that it comes in (`Along`).

A machine is partitioned by key (`Partitioned`) if every input concerns one key
and the machine keeps a separate state for each key, except for something all
keys share. What happens to one key then follows from the local step alone: an
invariant of that step holds along every run of the whole machine, whatever the
other keys do (`Partitioned.invariant`), and a run can be compared with the run
on the inputs of one key (`Partitioned.project`), which is how one shows that
keys do not interfere.

Key definitions: `final`, `outs`, `Along`, `history`, `Partitioned`.
Key theorems: `simulation_on`, `Along.invariant`, `forall_prefix_iff_along`,
`Partitioned.invariant`, `Partitioned.project`.
-/
import Mathlib.Data.List.Basic

namespace Machine

section Runs

variable {σ ι ο : Type*} (step : σ → ι → σ × ο)

/-- The state after the inputs. -/
def final : σ → List ι → σ
  | s, [] => s
  | s, i :: is => final (step s i).1 is

/-- The outputs, one for each input. -/
def outs : σ → List ι → List ο
  | _, [] => []
  | s, i :: is => (step s i).2 :: outs (step s i).1 is

@[simp] theorem final_nil (s : σ) : final step s [] = s := rfl

@[simp] theorem outs_nil (s : σ) : outs step s [] = [] := rfl

theorem final_cons (s : σ) (i : ι) (is : List ι) :
    final step s (i :: is) = final step (step s i).1 is := rfl

theorem outs_cons (s : σ) (i : ι) (is : List ι) :
    outs step s (i :: is) = (step s i).2 :: outs step (step s i).1 is := rfl

theorem length_outs : ∀ is s, (outs step s is).length = is.length
  | [], _ => rfl
  | i :: is, s => by rw [outs_cons, List.length_cons, length_outs is, List.length_cons]

theorem final_append (s : σ) (is js : List ι) :
    final step s (is ++ js) = final step (final step s is) js := by
  induction is generalizing s with
  | nil => rfl
  | cons i is ih => exact ih _

theorem outs_append (s : σ) (is js : List ι) :
    outs step s (is ++ js) = outs step s is ++ outs step (final step s is) js := by
  induction is generalizing s with
  | nil => rfl
  | cons i is ih => simp only [List.cons_append, outs_cons, final_cons, ih]

/-- What no step changes, no run changes. -/
theorem final_frame {α : Type*} {f : σ → α} (h : ∀ s i, f (step s i).1 = f s) :
    ∀ is s, f (final step s is) = f s
  | [], _ => rfl
  | i :: is, s => by rw [final_cons, final_frame h is, h]

/-- What every step puts out, every run puts out. -/
theorem forall_outs {P : ο → Prop} (h : ∀ s i, P (step s i).2) : ∀ is s, ∀ o ∈ outs step s is, P o
  | i :: is, s, o, ho => by
    rcases List.mem_cons.mp ho with rfl | ho
    · exact h s i
    · exact forall_outs h is _ o ho

end Runs

/-- **Simulation.** Two machines whose steps on the inputs at hand keep a relation
and give the same output give the same outputs. -/
theorem simulation_on {σ τ ι ο : Type*} {step : σ → ι → σ × ο} {step' : τ → ι → τ × ο} {R : σ → τ → Prop} :
    ∀ is : List ι, (∀ i ∈ is, ∀ s t, R s t → R (step s i).1 (step' t i).1 ∧ (step s i).2 = (step' t i).2) →
      ∀ s t, R s t → R (final step s is) (final step' t is) ∧ outs step s is = outs step' t is
  | [], _, _, _, hR => ⟨hR, rfl⟩
  | i :: is, h, s, t, hR => by
    obtain ⟨h1, h2⟩ := h i List.mem_cons_self s t hR
    obtain ⟨h3, h4⟩ := simulation_on is (fun j hj => h j (List.mem_cons_of_mem i hj)) _ _ h1
    exact ⟨h3, by rw [outs_cons, outs_cons, h2, h4]⟩

theorem simulation {σ τ ι ο : Type*} {step : σ → ι → σ × ο} {step' : τ → ι → τ × ο} {R : σ → τ → Prop}
    (h : ∀ s t i, R s t → R (step s i).1 (step' t i).1 ∧ (step s i).2 = (step' t i).2) (is : List ι) :
    ∀ s t, R s t → R (final step s is) (final step' t is) ∧ outs step s is = outs step' t is :=
  simulation_on is fun i _ s t => h s t i

/-! ### Runs under an assumption -/

section Along

variable {σ ι : Type*} {next : σ → ι → σ} {P Q : σ → ι → Prop} {Inv Good : σ → Prop}

/-- `P` holds of every input in the state that it comes in. -/
def Along (next : σ → ι → σ) (P : σ → ι → Prop) : σ → List ι → Prop
  | _, [] => True
  | s, i :: is => P s i ∧ Along next P (next s i) is

instance decidableAlong [∀ s i, Decidable (P s i)] : (s : σ) → (is : List ι) → Decidable (Along next P s is)
  | _, [] => .isTrue trivial
  | s, i :: is => @instDecidableAnd _ _ inferInstance (decidableAlong (next s i) is)

/-- What the steps keep under the assumption, the run keeps. -/
theorem Along.invariant (hstep : ∀ {s i}, Inv s → P s i → Inv (next s i)) :
    ∀ {is : List ι} {s : σ}, Inv s → Along next P s is → Inv (is.foldl next s)
  | [], _, h, _ => h
  | i :: is, s, h, hall => by
    rw [List.foldl_cons]
    exact Along.invariant hstep (hstep h hall.1) hall.2

/-- An assumption may be replaced by one that implies it where the invariant holds. -/
theorem Along.weaken (hstep : ∀ {s i}, Inv s → P s i → Inv (next s i)) (himp : ∀ {s i}, Inv s → Q s i → P s i) :
    ∀ {is : List ι} {s : σ}, Inv s → Along next Q s is → Along next P s is
  | [], _, _, _ => trivial
  | _ :: _, _, h, hall =>
    have hthis := himp h hall.1
    ⟨hthis, Along.weaken hstep himp (hstep h hthis) hall.2⟩

/-- If `Good` holds after a step exactly if the input meets the assumption, it holds in
all states of a run exactly if all inputs do. -/
theorem forall_prefix_iff_along (hgood : ∀ {s}, Inv s → Good s) (hstep : ∀ {s i}, Inv s → P s i → Inv (next s i))
    (hback : ∀ {s i}, Inv s → Good (next s i) → P s i) : ∀ (is : List ι) {s : σ}, Inv s →
      ((∀ pre, pre <+: is → Good (pre.foldl next s)) ↔ Along next P s is)
  | [], s, h => by
    refine iff_of_true (fun pre hpre => ?_) trivial
    rw [List.prefix_nil.1 hpre]
    exact hgood h
  | i :: is, s, h => by
    constructor
    · intro hall
      have hthis : P s i := hback h (hall [i] (by simp))
      refine ⟨hthis, (forall_prefix_iff_along hgood hstep hback is (hstep h hthis)).1 fun pre hpre => ?_⟩
      exact hall (i :: pre) (List.cons_prefix_cons.2 ⟨rfl, hpre⟩)
    · rintro ⟨hthis, hrest⟩ pre hpre
      rcases pre with _ | ⟨j, pre⟩
      · exact hgood h
      · obtain ⟨rfl, hpre'⟩ := List.cons_prefix_cons.1 hpre
        exact (forall_prefix_iff_along hgood hstep hback is (hstep h hthis)).2 hrest pre hpre'

end Along

/-! ### Machines partitioned by key -/

section Partitioned

variable {S I O K σ ρ : Type*} [DecidableEq K] {M : S → I → S × O} {key : I → K} {view : S → K → σ}
  {shared : S → ρ} {step : ρ → σ → I → (σ × ρ) × O}

/-- The inputs of the key `k` with their outputs, in order. -/
def history (M : S → I → S × O) (key : I → K) (k : K) : S → List I → List (I × O)
  | _, [] => []
  | s, i :: is =>
    if key i = k then (i, (M s i).2) :: history M key k (M s i).1 is else history M key k (M s i).1 is

theorem mem_history {k : K} {x : I × O} : ∀ {is : List I} {s : S}, x ∈ history M key k s is →
    x.1 ∈ is ∧ key x.1 = k
  | i :: is, s, hx => by
    rw [history] at hx
    by_cases hk : key i = k
    · rw [if_pos hk] at hx
      rcases List.mem_cons.mp hx with rfl | hx
      · exact ⟨List.mem_cons_self, hk⟩
      · exact ⟨List.mem_cons_of_mem _ (mem_history hx).1, (mem_history hx).2⟩
    · rw [if_neg hk] at hx
      exact ⟨List.mem_cons_of_mem _ (mem_history hx).1, (mem_history hx).2⟩

/-- The machine `M` steps as `step` does on the state of the input's key and on
what is shared, and leaves the other keys alone. -/
structure Partitioned (M : S → I → S × O) (key : I → K) (view : S → K → σ) (shared : S → ρ)
    (step : ρ → σ → I → (σ × ρ) × O) : Prop where
  own : ∀ s i, view (M s i).1 (key i) = (step (shared s) (view s (key i)) i).1.1
  sharing : ∀ s i, shared (M s i).1 = (step (shared s) (view s (key i)) i).1.2
  out : ∀ s i, (M s i).2 = (step (shared s) (view s (key i)) i).2
  other : ∀ s i k, k ≠ key i → view (M s i).1 k = view s k

namespace Partitioned

/-- **Local invariants.** What every local step keeps, as long as what is shared
satisfies `Q`, holds of a key's state and history along every run. -/
theorem invariant (hM : Partitioned M key view shared step) {k : K} {Q : ρ → Prop}
    {P : σ → List (I × O) → Prop} (hQ : ∀ r x i, Q r → Q (step r x i).1.2)
    (hP : ∀ r x i h, key i = k → Q r → P x h → P (step r x i).1.1 (h ++ [(i, (step r x i).2)])) :
    ∀ is s h, Q (shared s) → P (view s k) h →
      P (view (final M s is) k) (h ++ history M key k s is)
  | [], s, h, _, hp => by rw [history, List.append_nil]; exact hp
  | i :: is, s, h, hq, hp => by
    have hq' : Q (shared (M s i).1) := by rw [hM.sharing]; exact hQ _ _ _ hq
    rw [final_cons, history]
    by_cases hk : key i = k
    · have hp' : P (view (M s i).1 k) (h ++ [(i, (M s i).2)]) := by
        have := hP _ _ i h hk hq hp
        rwa [← hk, hM.own, hM.out, hk]
      have := invariant hM hQ hP is _ _ hq' hp'
      rwa [if_pos hk, ← List.append_cons] at *
    · rw [if_neg hk]
      exact invariant hM hQ hP is _ h hq' (by rwa [hM.other s i k (Ne.symm hk)])

/-- **Projection to a key.** A relation between a run and the run on the inputs
of `k` alone: kept by a step of both and by another key's step of the first, it
holds at the end. -/
theorem project (hM : Partitioned M key view shared step) {k : K}
    {R : ρ → σ → List (I × O) → ρ → σ → List (I × O) → Prop}
    (both : ∀ r x h r' x' h' i, key i = k → R r x h r' x' h' →
      R (step r x i).1.2 (step r x i).1.1 (h ++ [(i, (step r x i).2)])
        (step r' x' i).1.2 (step r' x' i).1.1 (h' ++ [(i, (step r' x' i).2)]))
    (skip : ∀ r x h r' x' h' y i, key i ≠ k → R r x h r' x' h' → R (step r y i).1.2 x h r' x' h') :
    ∀ is s h s' h', R (shared s) (view s k) h (shared s') (view s' k) h' →
      R (shared (final M s is)) (view (final M s is) k) (h ++ history M key k s is)
        (shared (final M s' (is.filter fun i => key i = k)))
        (view (final M s' (is.filter fun i => key i = k)) k)
        (h' ++ history M key k s' (is.filter fun i => key i = k))
  | [], s, h, s', h', hR => by
    rw [List.filter_nil, history, history, List.append_nil, List.append_nil]
    exact hR
  | i :: is, s, h, s', h', hR => by
    rw [final_cons, history]
    by_cases hk : key i = k
    · have hR' : R (shared (M s i).1) (view (M s i).1 k) (h ++ [(i, (M s i).2)])
          (shared (M s' i).1) (view (M s' i).1 k) (h' ++ [(i, (M s' i).2)]) := by
        have := both _ _ _ _ _ _ i hk hR
        rwa [hM.sharing, hM.sharing, ← hk, hM.own, hM.own, hM.out, hM.out, hk]
      have := project hM both skip is _ _ _ _ hR'
      rw [List.filter_cons_of_pos (by simpa using hk), final_cons, history, if_pos hk, if_pos hk]
      simpa only [List.append_assoc, List.singleton_append] using this
    · rw [List.filter_cons_of_neg (by simpa using hk), if_neg hk]
      refine project hM both skip is _ _ _ _ ?_
      rw [hM.other s i k (Ne.symm hk), hM.sharing]
      exact skip _ _ _ _ _ _ _ i hk hR

end Partitioned
end Partitioned

end Machine
