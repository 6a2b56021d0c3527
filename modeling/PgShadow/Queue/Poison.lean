/-
# Poison messages

A message is poison if every `WriteMessages` that contains it fails. The fallback
of `writeBatchWithRetry` is there so that such a message costs only itself: the
batch is cut in half once, and the messages of a failed half are written one by
one. But they are written so only if the other half went through. So a poison
message costs only itself as long as the poison is in one half
(`poison_costs_itself_iff`); with poison in both halves the whole batch is given
up (`poison_in_both_halves`).

Key definitions: `Answers.Poisoned`.
Key theorems: `outcome_poisoned`, `poison_costs_itself_iff`.
-/
import PgShadow.Queue.Kafka

namespace PgShadow

section Poison

variable {μ : Type}

/-- The messages that are written one by one: a batch of one, or else what is in
the halves that failed. -/
def Answers.alone (a : Answers) (batch : List μ) : List μ :=
  if batch.length ≤ 1 then batch
  else (if a.left = none then [] else batch.take (batch.length / 2)) ++
    (if a.right = none then [] else batch.drop (batch.length / 2))

/-- Exactly the calls with a poison message fail. The errors, and whether the
queue is closed meanwhile, are left open. -/
structure Answers.Poisoned (a : Answers) (poison : μ → Bool) (batch : List μ) : Prop where
  full : a.full.isSome = batch.any poison
  retry : ∀ i, (a.retry i).isSome = batch.any poison
  left : a.left.isSome = (batch.take (batch.length / 2)).any poison
  right : a.right.isSome = (batch.drop (batch.length / 2)).any poison
  single : ∀ i m, (a.alone batch)[i]? = some m → (a.single i).isSome = poison m

variable {a : Answers} {poison : μ → Bool} {batch : List μ}

theorem stalledFrom_of_retry (h : ∀ i, (a.retry i).isSome = true) : ∀ n i, a.stalledFrom n i = true
  | 0, _ => rfl
  | n + 1, i => by
    obtain ⟨err, herr⟩ := Option.isSome_iff_exists.mp (h i)
    unfold Answers.stalledFrom
    rw [herr]
    split_ifs
    · rfl
    · dsimp only
      split_ifs
      · exact stalledFrom_of_retry h n (i + 1)
      · rfl

/-- The whole batch goes through at once, or never. -/
theorem stalled_poisoned (h : a.Poisoned poison batch) : a.stalled = batch.any poison := by
  rw [Answers.stalled, h.full]
  rcases hany : batch.any poison with _ | _
  · rfl
  · exact stalledFrom_of_retry (fun i => (h.retry i).trans hany) 3 0

theorem writtenAlone_poisoned : ∀ (ms : List μ) (i : ℕ),
    (∀ j m, ms[j]? = some m → (a.single (i + j)).isSome = poison m) →
      writtenAlone a i ms = (ms.filter fun m => !poison m, ms.filter poison)
  | [], _, _ => rfl
  | m :: ms, i, h => by
    have hm := h 0 m rfl
    have ih := writtenAlone_poisoned ms (i + 1) fun j m' hj => by
      rw [Nat.add_assoc, Nat.add_comm 1]
      exact h (j + 1) m' hj
    rw [writtenAlone, ih, List.filter_cons, List.filter_cons, ← hm, Nat.add_zero]
    rcases a.single i with _ | err <;> rfl

theorem filter_clean {l : List μ} (h : l.any poison = false) : l.filter poison = [] := by
  rw [List.filter_eq_nil_iff]
  intro m hm
  simp [List.any_eq_false.mp h m hm]

theorem filter_not_clean {l : List μ} (h : l.any poison = false) : (l.filter fun m => !poison m) = l := by
  rw [List.filter_eq_self]
  intro m hm
  simp [List.any_eq_false.mp h m hm]

/-- **What a poisoned batch comes to**: with poison in both halves nothing is
written, else everything but the poison, the half without it first. -/
theorem outcome_poisoned (h : a.Poisoned poison batch) :
    outcome a batch =
      if (batch.take (batch.length / 2)).any poison && (batch.drop (batch.length / 2)).any poison then ([], batch)
      else if (batch.take (batch.length / 2)).any poison then
        (batch.drop (batch.length / 2) ++ (batch.take (batch.length / 2)).filter fun m => !poison m,
          batch.filter poison)
      else (batch.filter fun m => !poison m, batch.filter poison) := by
  have hsplit := List.take_append_drop (batch.length / 2) batch
  have hany : batch.any poison =
      ((batch.take (batch.length / 2)).any poison || (batch.drop (batch.length / 2)).any poison) := by
    rw [← List.any_append, hsplit]
  have hparts : ∀ p : μ → Bool, batch.filter p =
      (batch.take (batch.length / 2)).filter p ++ (batch.drop (batch.length / 2)).filter p := fun p => by
    rw [← List.filter_append, hsplit]
  have hsingle := h.single
  have hleft := h.left
  have hright := h.right
  rw [outcome, stalled_poisoned h, hany, partialOutcome]
  by_cases hlen : batch.length ≤ 1
  · -- one message at most: the left half is empty
    have hmid : batch.length / 2 = 0 := by omega
    rw [Answers.alone, if_pos hlen] at hsingle
    have halone := writtenAlone_poisoned batch 0 fun j m hj => by
      rw [Nat.zero_add]
      exact hsingle j m hj
    rw [if_pos hlen, halone, hmid, List.take_zero, List.drop_zero]
    simp only [List.any_nil, Bool.false_and, Bool.false_or, Bool.false_eq_true, if_false]
    rcases hb : batch.any poison with _ | _
    · rw [if_neg Bool.false_ne_true, filter_clean hb, filter_not_clean hb]
    · rfl
  · rw [Answers.alone, if_neg hlen] at hsingle
    rw [if_neg hlen]
    rcases hl : a.left with _ | e <;> rcases hr : a.right with _ | e' <;>
      rw [hl, Option.isSome] at hleft <;> rw [hr, Option.isSome] at hright <;>
      rw [hl, hr] at hsingle <;> rw [← hleft, ← hright] <;> dsimp only
    · rw [hparts, hparts, filter_clean hleft.symm, filter_clean hright.symm, filter_not_clean hleft.symm,
        filter_not_clean hright.symm, hsplit]
      rfl
    · have halone := writtenAlone_poisoned (batch.drop (batch.length / 2)) 0 fun j m hj => by
        rw [Nat.zero_add]
        exact hsingle j m hj
      rw [hparts, hparts, filter_clean hleft.symm, filter_not_clean hleft.symm, halone]
      rfl
    · have halone := writtenAlone_poisoned (batch.take (batch.length / 2)) 0 fun j m hj => by
        rw [Nat.zero_add]
        exact hsingle j m (by simpa using hj)
      rw [hparts poison, filter_clean hright.symm, halone, List.append_nil]
      rfl
    · rfl

/-- **When a poison message costs only itself.** Whatever the errors are: every
message that is not poison is appended to the topic, once, and exactly the
poison ones are reported as failed, if and only if the poison is not in both
halves of the batch, or there is nothing else in it. -/
theorem poison_costs_itself_iff (a : Answers) (poison : μ → Bool) (batch : List μ) (b : Broker μ)
    (h : a.Poisoned poison batch) :
    ((∃ written, (writeBatchWithRetry a batch b).1.topic = b.topic ++ written ∧
          written.Perm (batch.filter fun m => !poison m)) ∧
        (writeBatchWithRetry a batch b).2 = batch.filter poison) ↔
      ((batch.take (batch.length / 2)).any poison = true → (batch.drop (batch.length / 2)).any poison = true →
        batch.all poison = true) := by
  rcases eq_or_ne batch [] with rfl | hne
  · simp [writeBatchWithRetry]
  rw [writeBatchWithRetry_eq a hne b, outcome_poisoned h]
  rcases hl : (batch.take (batch.length / 2)).any poison with _ | _
  · simp only [Bool.false_and, Bool.false_eq_true, if_false, false_implies, iff_true, and_true]
    exact ⟨_, rfl, List.Perm.refl _⟩
  rcases hr : (batch.drop (batch.length / 2)).any poison with _ | _
  · simp only [Bool.and_false, Bool.false_eq_true, if_false, if_true, false_implies, implies_true, iff_true, and_true]
    refine ⟨_, rfl, ?_⟩
    have hparts : (batch.filter fun m => !poison m) =
        (batch.take (batch.length / 2)).filter (fun m => !poison m) ++ batch.drop (batch.length / 2) := by
      conv_lhs => rw [← List.take_append_drop (batch.length / 2) batch]
      rw [List.filter_append, filter_not_clean hr]
    rw [hparts]
    exact List.perm_append_comm
  · simp only [Bool.and_self, if_true, forall_true_left]
    constructor
    · rintro ⟨-, hall⟩
      rw [List.all_eq_true]
      intro m hm
      rw [hall] at hm
      exact (List.mem_filter.mp hm).2
    · intro hall
      rw [List.all_eq_true] at hall
      have hnone : (batch.filter fun m => !poison m) = [] := by
        rw [List.filter_eq_nil_iff]
        intro m hm
        simp [hall m hm]
      exact ⟨⟨[], rfl, by rw [hnone]⟩, (List.filter_eq_self.mpr hall).symm⟩

/-- Four messages of which the first and the third are refused as too large. -/
def fourMessages : List Message := [⟨[1], []⟩, ⟨[2], []⟩, ⟨[3], []⟩, ⟨[4], []⟩]

def tooLarge : Option Bytes := some (bytes "Message Size Too Large")

/-- One poison message, in the left half: the other three are written. -/
theorem poison_in_left_half :
    let a : Answers :=
      { full := tooLarge, retry := fun _ => tooLarge, left := tooLarge,
        single := fun i => if i = 0 then tooLarge else none }
    a.Poisoned (fun m => m.key == [1]) fourMessages ∧
      (∃ written, (writeBatchWithRetry a fourMessages {}).1.topic = [] ++ written ∧
          written.Perm (fourMessages.filter fun m => !(m.key == [1]))) ∧
        (writeBatchWithRetry a fourMessages {}).2 = fourMessages.filter fun m => m.key == [1] := by
  intro a
  have h : a.Poisoned (fun m => m.key == [1]) fourMessages := by
    refine ⟨rfl, fun _ => rfl, rfl, rfl, ?_⟩
    rintro (_ | _ | i) m hm
    · cases hm
      rfl
    · cases hm
      rfl
    · cases hm
  exact ⟨h, (poison_costs_itself_iff a _ fourMessages {} h).mpr fun _ hr => absurd hr (by decide)⟩

/-- **Counterexample**: the first and the third of four messages are poison. Both
halves fail, nothing is written, and the two good messages are given up too. -/
theorem poison_in_both_halves :
    let poison : Message → Bool := fun m => m.key == [1] || m.key == [3]
    let a : Answers :=
      { full := tooLarge, retry := fun _ => tooLarge, left := tooLarge, right := tooLarge
        single := fun i => if i = 0 ∨ i = 2 then tooLarge else none }
    a.Poisoned poison fourMessages ∧ (writeBatchWithRetry a fourMessages {}).1.topic = [] ∧
      (writeBatchWithRetry a fourMessages {}).2 = fourMessages ∧ poison ⟨[2], []⟩ = false := by
  refine ⟨⟨rfl, fun _ => rfl, rfl, rfl, ?_⟩, rfl, rfl, rfl⟩
  rintro (_ | _ | _ | _ | i) m hm <;> cases hm <;> rfl

end Poison

end PgShadow
