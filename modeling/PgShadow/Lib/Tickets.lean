/-
# Tickets drawn from one counter

Several owners draw numbers from one counter and keep the number they drew until
they give it back. Every act of an owner is stamped with its current number: an
act may open a group (it always draws), want one (it draws if the owner has no
number), or neither, and it may close the group after its stamp. 0 is no number.

A number belongs to one owner (`unique`), the numbers of an owner do not
decrease (`monotone`), and from an act that opens a group the owner's acts have
one number that was never used before (`fresh`, `kept`). After an act that closes
its group an owner has greater numbers than before, or none (`renewed`).

Key definitions: `State`, `Act`, `step`.
Key theorems: `Inv.run`, `fresh`, `kept`, `renewed`.
-/
import Mathlib.Logic.Function.Basic
import Mathlib.Order.Nat
import PgShadow.Lib.Machine

namespace Tickets

variable {K : Type*}

structure State (K : Type*) where
  /-- How many numbers were drawn. -/
  counter : ℕ
  /-- The number of each owner, 0 for none. -/
  current : K → ℕ

inductive Act (K : Type*)
  | stamp (k : K) (opens wants closes : Bool)
  | forget (k : K)

def Act.owner : Act K → K
  | .stamp k _ _ _ => k
  | .forget k => k

/-- The act draws a number. -/
def State.draws (s : State K) (k : K) (opens wants : Bool) : Bool := opens || wants && s.current k == 0

/-- The number the act is stamped with. -/
def State.number (s : State K) (k : K) (opens wants : Bool) : ℕ :=
  if s.draws k opens wants then s.counter + 1 else s.current k

/-- An act within a group has the number of the group. -/
theorem number_of_current {s : State K} {k : K} (hpos : s.current k ≠ 0) (wants : Bool) :
    s.number k false wants = s.current k := by
  simp [State.number, State.draws, hpos]

/-- Whoever wants a number has one. -/
theorem number_ne_zero (s : State K) (k : K) (opens : Bool) : s.number k opens true ≠ 0 := by
  unfold State.number State.draws
  by_cases hcur : s.current k = 0
  · simp [hcur]
  · cases opens <;> simp [hcur]

def init : State K := ⟨0, fun _ => 0⟩

/-! ### The invariant -/

/-- What holds of the state and of the stamps given so far. -/
structure Inv (s : State K) (l : List (K × ℕ)) : Prop where
  current_le : ∀ k, s.current k ≤ s.counter
  le : ∀ p ∈ l, p.2 ≤ s.counter
  /-- Nobody else has the current number of an owner, -/
  distinct : ∀ k k', s.current k = s.current k' → s.current k ≠ 0 → k = k'
  /-- and nobody else was stamped with it. -/
  owned : ∀ p ∈ l, ∀ k, p.2 = s.current k → p.2 ≠ 0 → p.1 = k
  le_current : ∀ p ∈ l, s.current p.1 ≠ 0 → p.2 ≤ s.current p.1
  unique : ∀ p ∈ l, ∀ p' ∈ l, p.2 = p'.2 → p.2 ≠ 0 → p.1 = p'.1
  monotone : l.Pairwise fun p p' => p.1 = p'.1 → p.2 ≠ 0 → p'.2 ≠ 0 → p.2 ≤ p'.2

theorem inv_init : Inv (init : State K) [] where
  current_le _ := Nat.le_refl 0
  le _ h := absurd h List.not_mem_nil
  distinct _ _ _ h := absurd rfl h
  owned _ h := absurd h List.not_mem_nil
  le_current _ h := absurd h List.not_mem_nil
  unique _ h := absurd h List.not_mem_nil
  monotone := List.Pairwise.nil

section Inv

variable {s : State K} {l : List (K × ℕ)}

/-- The owner `k` draws a number. -/
theorem Inv.draw (h : Inv s l) {s' : State K} {k : K} (hcounter : s'.counter = s.counter + 1)
    (hself : s'.current k = s.counter + 1) (hne : ∀ j, j ≠ k → s'.current j = s.current j) : Inv s' l := by
  -- everything that was given out before is smaller
  have hsmall := h.current_le
  refine ⟨fun j => ?_, fun p hp => ?_, fun j j' heq hpos => ?_, fun p hp j heq hpos => ?_, fun p hp hpos => ?_,
    h.unique, h.monotone⟩
  · by_cases hj : j = k
    · subst hj
      omega
    · rw [hne j hj, hcounter]
      exact Nat.le_succ_of_le (hsmall j)
  · rw [hcounter]
    exact Nat.le_succ_of_le (h.le p hp)
  · by_cases hj : j = k
    · by_cases hj' : j' = k
      · rw [hj, hj']
      · rw [hj, hself, hne j' hj'] at heq
        have := hsmall j'
        omega
    · rw [hne j hj] at heq hpos
      by_cases hj' : j' = k
      · rw [hj', hself] at heq
        have := hsmall j
        omega
      · rw [hne j' hj'] at heq
        exact h.distinct j j' heq hpos
  · have hle := h.le p hp
    by_cases hj : j = k
    · rw [hj, hself] at heq
      omega
    · rw [hne j hj] at heq
      exact h.owned p hp j heq hpos
  · by_cases hk : p.1 = k
    · have hle := h.le p hp
      rw [hk, hself]
      omega
    · rw [hne p.1 hk] at hpos ⊢
      exact h.le_current p hp hpos

/-- Owners give their numbers back. -/
theorem Inv.forget (h : Inv s l) {t : State K} (hcounter : t.counter = s.counter)
    (hcur : ∀ j, t.current j ≠ 0 → t.current j = s.current j) : Inv t l := by
  refine ⟨fun j => ?_, fun p hp => hcounter ▸ h.le p hp, fun j j' heq hpos => ?_, fun p hp j heq hpos => ?_,
    fun p hp hpos => ?_, h.unique, h.monotone⟩
  · by_cases hj : t.current j = 0
    · rw [hj]
      exact Nat.zero_le _
    · rw [hcur j hj, hcounter]
      exact h.current_le j
  · have hj' := hcur j' (heq ▸ hpos)
    rw [hcur j hpos] at heq hpos
    exact h.distinct j j' (heq.trans hj') hpos
  · exact h.owned p hp j (heq.trans (hcur j (heq ▸ hpos))) hpos
  · have hp1 := hcur p.1 hpos
    rw [hp1] at hpos ⊢
    exact h.le_current p hp hpos

/-- A stamp with the current number, or with none. -/
theorem Inv.append (h : Inv s l) {p : K × ℕ} (hp : p.2 = s.current p.1 ∨ p.2 = 0) : Inv s (l ++ [p]) := by
  have hmem : ∀ q ∈ l ++ [p], q ∈ l ∨ q = p := fun q hq =>
    (List.mem_append.1 hq).imp_right List.mem_singleton.1
  have hcur : p.2 ≠ 0 → p.2 = s.current p.1 := fun hpos => hp.resolve_right hpos
  refine ⟨h.current_le, fun q hq => ?_, h.distinct, fun q hq k heq hpos => ?_, fun q hq hpos => ?_,
    fun q hq q' hq' heq hpos => ?_, ?_⟩
  · rcases hmem q hq with hq | rfl
    · exact h.le q hq
    · rcases hp with hp | hp
      · exact hp.le.trans (h.current_le _)
      · exact hp.le.trans (Nat.zero_le _)
  · rcases hmem q hq with hq | rfl
    · exact h.owned q hq k heq hpos
    · have hown := hcur hpos
      exact h.distinct _ _ (hown.symm.trans heq) (hown ▸ hpos)
  · rcases hmem q hq with hq | rfl
    · exact h.le_current q hq hpos
    · rcases hp with hp | hp
      · exact hp.le
      · exact hp.le.trans (Nat.zero_le _)
  · rcases hmem q hq with hq | rfl
    · rcases hmem q' hq' with hq' | heq'
      · exact h.unique q hq q' hq' heq hpos
      · rw [heq'] at heq ⊢
        exact h.owned q hq _ (heq.trans (hcur (heq ▸ hpos))) hpos
    · rcases hmem q' hq' with hq' | heq'
      · exact (h.owned q' hq' _ (heq.symm.trans (hcur hpos)) (heq ▸ hpos)).symm
      · rw [heq']
  · refine List.pairwise_append.2 ⟨h.monotone, List.pairwise_singleton _ _, fun q hq q' hq' hown hpos hpos' => ?_⟩
    obtain rfl := List.mem_singleton.1 hq'
    have hq'' := hcur hpos'
    rw [hq'', ← hown]
    refine h.le_current q hq ?_
    rw [hown, ← hq'']
    exact hpos'

end Inv

/-! ### Runs -/

variable [DecidableEq K]

def step (s : State K) : Act K → State K × ℕ
  | .stamp k opens wants closes =>
    ({ counter := if s.draws k opens wants then s.counter + 1 else s.counter
       current := Function.update s.current k (if closes then 0 else s.number k opens wants) },
      s.number k opens wants)
  | .forget k => ({ s with current := Function.update s.current k 0 }, 0)

/-- What the acts were stamped with. -/
def stamps (s : State K) (acts : List (Act K)) : List (K × ℕ) :=
  (acts.map Act.owner).zip (Machine.outs step s acts)

section Inv

variable {s : State K} {l : List (K × ℕ)}

theorem Inv.step (h : Inv s l) (a : Act K) : Inv (step s a).1 (l ++ [(a.owner, (step s a).2)]) := by
  rcases a with ⟨k, opens, wants, closes⟩ | k
  · -- draw, stamp, give back
    have hstamp : Inv ⟨if s.draws k opens wants then s.counter + 1 else s.counter,
        Function.update s.current k (s.number k opens wants)⟩ (l ++ [(k, s.number k opens wants)]) := by
      unfold State.number
      by_cases hd : s.draws k opens wants = true
      · rw [if_pos hd, if_pos hd]
        refine (h.draw rfl (Function.update_self ..) fun j hj => Function.update_of_ne hj ..).append ?_
        left
        show s.counter + 1 = Function.update s.current k (s.counter + 1) k
        rw [Function.update_self]
      · rw [if_neg hd, if_neg hd, Function.update_eq_self]
        exact h.append (Or.inl rfl)
    rcases closes with _ | _
    · exact hstamp
    · have hforget := hstamp.forget (t := (Tickets.step s (.stamp k opens wants true)).1) rfl fun j hj => ?_
      · exact hforget
      · show Function.update s.current k 0 j = Function.update s.current k (s.number k opens wants) j
        have hjk : j ≠ k := fun hk => hj (hk ▸ Function.update_self k 0 s.current)
        rw [Function.update_of_ne hjk, Function.update_of_ne hjk]
  · have hforget := h.forget (t := (Tickets.step s (.forget k)).1) rfl fun j hj => ?_
    · exact hforget.append (Or.inr rfl)
    · have hjk : j ≠ k := fun hk => hj (hk ▸ Function.update_self k 0 s.current)
      exact Function.update_of_ne hjk ..

theorem Inv.run : ∀ (acts : List (Act K)) {s : State K} {l : List (K × ℕ)}, Inv s l →
    Inv (Machine.final Tickets.step s acts) (l ++ stamps s acts)
  | [], _, _, h => by simpa [stamps] using h
  | a :: acts, s, l, h => by
    have hrest := (h.step a).run acts
    rwa [List.append_assoc] at hrest

end Inv

/-- **A group begins with a number never used before.** -/
theorem fresh (acts : List (Act K)) (k : K) (wants closes : Bool) :
    (step (Machine.final step init acts) (.stamp k true wants closes)).2 ≠ 0 ∧
      ∀ p ∈ stamps init acts, p.2 < (step (Machine.final step init acts) (.stamp k true wants closes)).2 := by
  have hinv : Inv (Machine.final step init acts) (stamps init acts) := inv_init.run acts
  refine ⟨Nat.succ_ne_zero _, fun p hp => ?_⟩
  exact Nat.lt_succ_of_le (hinv.le p hp)

/-- The act neither opens nor closes a group of `k`. -/
def Act.Within (k : K) : Act K → Prop
  | .stamp k' opens _ closes => k' = k → opens = false ∧ closes = false
  | .forget k' => k' ≠ k

/-- **Within a group the number stays.** -/
theorem kept {k : K} : ∀ {acts : List (Act K)} {s : State K}, s.current k ≠ 0 → (∀ a ∈ acts, a.Within k) →
    (Machine.final step s acts).current k = s.current k
  | [], _, _, _ => rfl
  | a :: acts, s, hpos, h => by
    obtain ⟨ha, hacts⟩ := List.forall_mem_cons.1 h
    have hstep : (step s a).1.current k = s.current k := by
      rcases a with ⟨k', opens, wants, closes⟩ | k'
      · by_cases hk : k' = k
        · obtain ⟨rfl, rfl⟩ := ha hk
          subst hk
          simp [step, State.number, State.draws, hpos]
        · exact Function.update_of_ne (Ne.symm hk) ..
      · exact Function.update_of_ne (Ne.symm ha) ..
    rw [Machine.final_cons, kept (hstep ▸ hpos) hacts, hstep]

/-- The act closes a group of `k`. -/
def Act.Closes (k : K) : Act K → Prop
  | .stamp k' _ _ closes => k' = k ∧ closes = true
  | .forget k' => k' = k

/-- The owner has no number up to `n` and will draw none. -/
def Past (n : ℕ) (k : K) (s : State K) : Prop := n ≤ s.counter ∧ (s.current k = 0 ∨ n < s.current k)

theorem Past.step {n : ℕ} {k : K} {s : State K} (h : Past n k s) (a : Act K) : Past n k (step s a).1 := by
  obtain ⟨hcounter, hcurrent⟩ := h
  rcases a with ⟨k', opens, wants, closes⟩ | k'
  · have hnumber : s.number k opens wants = 0 ∨ n < s.number k opens wants := by
      unfold State.number
      split_ifs
      · exact .inr (Nat.lt_succ_of_le hcounter)
      · exact hcurrent
    refine ⟨?_, ?_⟩
    · show n ≤ if s.draws k' opens wants then s.counter + 1 else s.counter
      split_ifs <;> omega
    · unfold Tickets.step
      dsimp only
      by_cases hk : k' = k
      · subst hk
        rw [Function.update_self]
        rcases closes with _ | _
        · exact hnumber
        · exact .inl rfl
      · rw [Function.update_of_ne (Ne.symm hk)]
        exact hcurrent
  · refine ⟨hcounter, ?_⟩
    unfold Tickets.step
    dsimp only
    by_cases hk : k' = k
    · subst hk
      exact .inl (Function.update_self ..)
    · rw [Function.update_of_ne (Ne.symm hk)]
      exact hcurrent

theorem Past.run {n : ℕ} {k : K} : ∀ (acts : List (Act K)) {s : State K}, Past n k s →
    Past n k (Machine.final Tickets.step s acts)
  | [], _, h => h
  | a :: acts, _, h => (h.step a).run acts

theorem counter_le : ∀ (acts : List (Act K)) (s : State K), s.counter ≤ (Machine.final step s acts).counter
  | [], _ => Nat.le_refl _
  | a :: acts, s => by
    have hstep : s.counter ≤ (step s a).1.counter := by
      rcases a with ⟨k, opens, wants, closes⟩ | k
      · show s.counter ≤ if s.draws k opens wants then s.counter + 1 else s.counter
        split_ifs <;> omega
      · exact Nat.le_refl _
    exact hstep.trans (counter_le acts _)

/-- **Once its group is closed, an owner has new numbers.** -/
theorem renewed {n : ℕ} {k : K} {s : State K} {a : Act K} (ha : a.Closes k) (hn : n ≤ s.counter)
    (acts : List (Act K)) : Past n k (Machine.final step (step s a).1 acts) := by
  apply Past.run
  refine ⟨hn.trans (counter_le [a] s), ?_⟩
  rcases a with ⟨k', opens, wants, closes⟩ | k'
  · obtain ⟨rfl, rfl⟩ := ha
    exact .inl (Function.update_self ..)
  · obtain rfl : k' = k := ha
    exact .inl (Function.update_self ..)

omit [DecidableEq K] in
theorem Past.lt_number {n : ℕ} {k : K} {s : State K} (h : Past n k s) (opens : Bool) : n < s.number k opens true := by
  have hpos := number_ne_zero s k opens
  unfold State.number at hpos ⊢
  split_ifs at hpos ⊢
  · exact Nat.lt_succ_of_le h.1
  · exact h.2.resolve_left hpos

end Tickets
