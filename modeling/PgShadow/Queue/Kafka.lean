/-
# The Kafka queue's producer

`pkg/queue/kafkaqueue.go`: `Enqueue` puts a message into a local channel and
returns; `produceLoop` takes batches from the channel and writes each to the
topic. A batch that cannot be written is retried whole, then in halves, then
message by message. What `WriteMessages` answers is an input of the step
(`Answers`), one answer for each of the calls a batch can lead to; a call
appends all its messages in order, or none.

The code does not look into its messages, so it is modelled for any type of
them (`final_map`). With messages that know when they were enqueued one can then
say in which order the topic has them.

No message is lost without being counted, and none is written twice
(`produced_or_counted`). The order is kept as long as no left half is written
message by message behind its right half (`ordered_iff`, `order_reversed`).

Key definitions: `writeBatchWithRetry`, `Kafka.step`, `Answers.Orderly`.
Key theorems: `produced_or_counted`, `ordered_iff`.
-/
import Mathlib.Data.List.Perm.Basic
import PgShadow.Go.Netip
import PgShadow.Go.Strings
import PgShadow.Lib.Machine
import PgShadow.Queue.FileQueue

namespace PgShadow

/-- The capacity of the local channel. -/
abbrev kafkaLocalBufferSize : ℕ := 200000

/-- The capacity of a batch of `produceLoop`. -/
abbrev kafkaBatchSize : ℕ := 1000

/-- `strings.Contains`. -/
def contains (s sub : Bytes) : Bool := (indexOf sub s).isSome

/-- `isRetriableKafkaError`, on the text of the error. -/
def isRetriableKafkaError (msg : Bytes) : Bool :=
  contains msg (bytes "Unknown Topic Or Partition") || contains msg (bytes "Leader Not Available") ||
    contains msg (bytes "Not Leader") || contains msg (bytes "Request Timed Out")

/-- A Kafka message: the key decides the partition. -/
structure Message where
  key : Bytes
  value : Bytes
deriving DecidableEq

/-- `kafkaMessage`. -/
def kafkaMessage (ev : SQLEvent) : Message := ⟨ev.conn.key, encodeBinary ev⟩

/-- What the calls for one batch meet: the error of each `WriteMessages`, if it
has one, and whether the queue is closed when a retry looks. `single i` is the
answer for the `i`-th message that is written alone. -/
structure Answers where
  full : Option Bytes := none
  retry : ℕ → Option Bytes := fun _ => none
  closed : ℕ → Bool := fun _ => false
  left : Option Bytes := none
  right : Option Bytes := none
  single : ℕ → Option Bytes := fun _ => none

/-- What the writes change: the topic and the counter `produced`. -/
structure Broker (μ : Type) where
  topic : List μ := []
  produced : ℕ := 0
deriving DecidableEq

section Writes

variable {μ : Type}

/-- `writer.WriteMessages`. -/
def Broker.writeMessages (b : Broker μ) (err : Option Bytes) (msgs : List μ) : Broker μ :=
  if err = none then { b with topic := b.topic ++ msgs } else b

/-- `atomic.AddInt64(&q.produced, n)`. -/
def Broker.count (b : Broker μ) (n : ℕ) : Broker μ := { b with produced := b.produced + n }

/-- The attempts of `retryWithBackoff` from attempt `i` on, `n` of them left. -/
def retryLoop (a : Answers) (batch : List μ) : ℕ → ℕ → Option Bytes → Broker μ → Broker μ × Option Bytes
  | 0, _, lastErr, b => (b, lastErr)
  | n + 1, i, lastErr, b =>
    if 0 < i ∧ a.closed i then (b, lastErr)
    else
      match a.retry i with
      | none => ((b.writeMessages none batch).count batch.length, none)
      | some err => if isRetriableKafkaError err then retryLoop a batch n (i + 1) (some err) b else (b, some err)

/-- `retryWithBackoff`. -/
def retryWithBackoff (a : Answers) (batch : List μ) (maxRetries : ℕ) (b : Broker μ) : Broker μ × Option Bytes :=
  retryLoop a batch maxRetries 0 none b

/-- Write the messages one by one, from the `i`-th answer on; returns those that
failed. -/
def writeEach (a : Answers) : ℕ → List μ → Broker μ → Broker μ × List μ
  | _, [], b => (b, [])
  | i, m :: ms, b =>
    let r := writeEach a (i + 1) ms (b.writeMessages (a.single i) [m])
    (r.1, if a.single i = none then r.2 else m :: r.2)

/-- `writePartialBatch`; returns the failed messages. -/
def writePartialBatch (a : Answers) (batch : List μ) (b : Broker μ) : Broker μ × List μ :=
  if 1 < batch.length then
    let mid := batch.length / 2
    let left := batch.take mid
    let right := batch.drop mid
    let b := (b.writeMessages a.left left).writeMessages a.right right
    let failed := (if a.left = none then [] else left) ++ (if a.right = none then [] else right)
    if 0 < failed.length ∧ failed.length < batch.length then writeEach a 0 failed b else (b, failed)
  -- a single message, which is retried once
  else writeEach a 0 batch b

/-- `writeBatchWithRetry`; returns the failed messages. -/
def writeBatchWithRetry (a : Answers) (batch : List μ) (b : Broker μ) : Broker μ × List μ :=
  if batch = [] then (b, [])
  else if a.full = none then ((b.writeMessages none batch).count batch.length, [])
  else
    match retryWithBackoff a batch 3 b with
    | (b, none) => (b, [])
    | (b, some _) =>
      let (b, failed) := writePartialBatch a batch b
      (b.count (batch.length - failed.length), failed)

/-! ### What a batch comes to -/

/-- The messages of those written one by one that go through, and the others. -/
def writtenAlone (a : Answers) : ℕ → List μ → List μ × List μ
  | _, [] => ([], [])
  | i, m :: ms =>
    let r := writtenAlone a (i + 1) ms
    if a.single i = none then (m :: r.1, r.2) else (r.1, m :: r.2)

/-- What `writePartialBatch` appends and what it gives back. -/
def partialOutcome (a : Answers) (batch : List μ) : List μ × List μ :=
  let left := batch.take (batch.length / 2)
  let right := batch.drop (batch.length / 2)
  if batch.length ≤ 1 then writtenAlone a 0 batch
  else
    match a.left, a.right with
    | none, none => (batch, [])
    | none, some _ => (left ++ (writtenAlone a 0 right).1, (writtenAlone a 0 right).2)
    | some _, none => (right ++ (writtenAlone a 0 left).1, (writtenAlone a 0 left).2)
    | some _, some _ => ([], batch)

/-- No attempt at the whole batch succeeds, from attempt `i` on with `n` left. -/
def Answers.stalledFrom (a : Answers) : ℕ → ℕ → Bool
  | 0, _ => true
  | n + 1, i =>
    if 0 < i ∧ a.closed i then true
    else
      match a.retry i with
      | none => false
      | some err => if isRetriableKafkaError err then a.stalledFrom n (i + 1) else true

/-- No attempt at the whole batch succeeds. -/
def Answers.stalled (a : Answers) : Bool := a.full.isSome && a.stalledFrom 3 0

/-- What a batch appends to the topic and what is given up. -/
def outcome (a : Answers) (batch : List μ) : List μ × List μ :=
  if a.stalled then partialOutcome a batch else (batch, [])

theorem writeEach_eq (a : Answers) : ∀ (ms : List μ) (i : ℕ) (b : Broker μ),
    writeEach a i ms b =
      ({ b with topic := b.topic ++ (writtenAlone a i ms).1 }, (writtenAlone a i ms).2)
  | [], _, b => by rw [writeEach, writtenAlone, List.append_nil]
  | m :: ms, i, b => by
    rw [writeEach, writeEach_eq a ms, writtenAlone, Broker.writeMessages]
    by_cases h : a.single i = none
    · rw [if_pos h, if_pos h, if_pos h, List.append_assoc, List.singleton_append]
    · rw [if_neg h, if_neg h, if_neg h]

theorem writePartialBatch_eq (a : Answers) (batch : List μ) (b : Broker μ) :
    writePartialBatch a batch b =
      ({ b with topic := b.topic ++ (partialOutcome a batch).1 }, (partialOutcome a batch).2) := by
  unfold writePartialBatch partialOutcome
  by_cases hlen : 1 < batch.length
  · have hmid : 0 < batch.length / 2 ∧ batch.length / 2 < batch.length := by omega
    have hl : (batch.take (batch.length / 2)).length = batch.length / 2 := by
      rw [List.length_take, min_eq_left hmid.2.le]
    have hr : (batch.drop (batch.length / 2)).length = batch.length - batch.length / 2 := List.length_drop
    rw [if_pos hlen, if_neg (not_le.mpr hlen)]
    dsimp only
    rcases a.left with _ | e <;> rcases a.right with _ | e'
    · simp only [Broker.writeMessages, if_true, List.nil_append, List.length_nil, lt_irrefl, false_and, if_false,
        List.append_assoc, List.take_append_drop]
    · have hpart : 0 < (batch.drop (batch.length / 2)).length ∧
          (batch.drop (batch.length / 2)).length < batch.length := by omega
      simp only [Broker.writeMessages, if_true, reduceCtorEq, if_false, List.nil_append, if_pos hpart,
        writeEach_eq, List.append_assoc]
    · have hpart : 0 < (batch.take (batch.length / 2)).length ∧
          (batch.take (batch.length / 2)).length < batch.length := by omega
      simp only [Broker.writeMessages, if_true, reduceCtorEq, if_false, List.append_nil, if_pos hpart,
        writeEach_eq, List.append_assoc]
    · have hall : ¬ (0 < batch.length ∧ batch.length < batch.length) := by omega
      simp only [Broker.writeMessages, reduceCtorEq, if_false, List.take_append_drop, if_neg hall,
        List.append_nil]
  · rw [if_neg hlen, if_pos (not_lt.mp hlen), writeEach_eq]

/-- The retries write the batch once, or not at all and return an error. -/
theorem retryLoop_eq (a : Answers) (batch : List μ) (b : Broker μ) : ∀ (n i : ℕ) (lastErr : Option Bytes),
    (a.stalledFrom n i = false →
      retryLoop a batch n i lastErr b = (⟨b.topic ++ batch, b.produced + batch.length⟩, none)) ∧
    (a.stalledFrom n i = true → (lastErr ≠ none ∨ (0 < n ∧ i = 0)) →
      ∃ err, retryLoop a batch n i lastErr b = (b, some err))
  | 0, i, lastErr => by
    refine ⟨fun h => (by cases h), fun _ h => ?_⟩
    rcases h with h | h
    · obtain ⟨err, rfl⟩ := Option.ne_none_iff_exists'.mp h
      exact ⟨err, rfl⟩
    · exact absurd h.1 (lt_irrefl 0)
  | n + 1, i, lastErr => by
    unfold Answers.stalledFrom retryLoop
    by_cases hc : 0 < i ∧ a.closed i = true
    · rw [if_pos hc, if_pos hc]
      refine ⟨fun h => (by cases h), fun _ h => ?_⟩
      rcases h with h | h
      · obtain ⟨err, rfl⟩ := Option.ne_none_iff_exists'.mp h
        exact ⟨err, rfl⟩
      · exact absurd hc.1 (by omega)
    · rw [if_neg hc, if_neg hc]
      rcases a.retry i with _ | err
      · exact ⟨fun _ => rfl, fun h => (by cases h)⟩
      · dsimp only
        by_cases hr : isRetriableKafkaError err = true
        · rw [if_pos hr, if_pos hr]
          obtain ⟨h1, h2⟩ := retryLoop_eq a batch b n (i + 1) (some err)
          exact ⟨h1, fun h _ => h2 h (Or.inl (by simp))⟩
        · rw [if_neg hr, if_neg hr]
          exact ⟨fun h => (by cases h), fun _ _ => ⟨err, rfl⟩⟩

theorem writtenAlone_sublist (a : Answers) : ∀ (ms : List μ) (i : ℕ), (writtenAlone a i ms).1.Sublist ms
  | [], _ => List.Sublist.refl []
  | m :: ms, i => by
    rw [writtenAlone]
    by_cases h : a.single i = none
    · rw [if_pos h]
      exact (writtenAlone_sublist a ms (i + 1)).cons_cons m
    · rw [if_neg h]
      exact (writtenAlone_sublist a ms (i + 1)).cons m

theorem writtenAlone_perm (a : Answers) : ∀ (ms : List μ) (i : ℕ),
    ((writtenAlone a i ms).1 ++ (writtenAlone a i ms).2).Perm ms
  | [], _ => List.Perm.refl []
  | m :: ms, i => by
    rw [writtenAlone]
    have ih := writtenAlone_perm a ms (i + 1)
    by_cases h : a.single i = none
    · rw [if_pos h]
      exact ih.cons m
    · rw [if_neg h]
      exact List.perm_middle.trans (ih.cons m)

/-- **A batch is split** into what is written and what is given up. -/
theorem outcome_perm (a : Answers) (batch : List μ) :
    ((outcome a batch).1 ++ (outcome a batch).2).Perm batch := by
  have hcut := List.take_append_drop (batch.length / 2) batch
  have hleft := writtenAlone_perm a (batch.take (batch.length / 2)) 0
  have hright := writtenAlone_perm a (batch.drop (batch.length / 2)) 0
  unfold outcome partialOutcome
  by_cases hs : a.stalled = true
  · rw [if_pos hs]
    by_cases hlen : batch.length ≤ 1
    · rw [if_pos hlen]
      exact writtenAlone_perm a batch 0
    · rw [if_neg hlen]
      rcases a.left with _ | e <;> rcases a.right with _ | e' <;> dsimp only
      · rw [List.append_nil]
      · rw [List.append_assoc]
        exact (hright.append_left _).trans (List.Perm.of_eq hcut)
      · rw [List.append_assoc]
        exact ((hleft.append_left _).trans List.perm_append_comm).trans (List.Perm.of_eq hcut)
      · rw [List.nil_append]
  · rw [if_neg hs, List.append_nil]

/-- **What `writeBatchWithRetry` does**, whatever the calls answer. -/
theorem writeBatchWithRetry_eq (a : Answers) {batch : List μ} (hne : batch ≠ []) (b : Broker μ) :
    writeBatchWithRetry a batch b =
      (⟨b.topic ++ (outcome a batch).1, b.produced + (outcome a batch).1.length⟩, (outcome a batch).2) := by
  have hlen := (outcome_perm a batch).length_eq
  obtain ⟨hok, herr⟩ := retryLoop_eq a batch b 3 0 none
  unfold writeBatchWithRetry retryWithBackoff
  rw [if_neg hne]
  rcases hfull : a.full with _ | e
  · have hs : a.stalled = false := by rw [Answers.stalled, hfull, Option.isSome_none, Bool.false_and]
    rw [if_pos rfl, outcome, hs, if_neg Bool.false_ne_true]
    rfl
  · have hs : a.stalled = a.stalledFrom 3 0 := by rw [Answers.stalled, hfull, Option.isSome_some, Bool.true_and]
    rw [if_neg (by simp)]
    rcases hst : a.stalledFrom 3 0 with _ | _
    · rw [hok hst, outcome, hs, hst, if_neg Bool.false_ne_true]
    · obtain ⟨err, heq⟩ := herr hst (Or.inr ⟨Nat.succ_pos 2, rfl⟩)
      have hout : outcome a batch = partialOutcome a batch := by rw [outcome, hs, hst, if_pos rfl]
      rw [hout, List.length_append] at hlen
      rw [heq, hout]
      dsimp only
      rw [writePartialBatch_eq]
      simp only [Broker.count, ← hlen, Nat.add_sub_cancel]

/-! ### The order of what is written -/

variable {κ : Type} {conn : μ → κ}

theorem mem_writtenAlone {a : Answers} {m : μ} : ∀ (ms : List μ) (i : ℕ),
    m ∈ (writtenAlone a i ms).1 ↔ ∃ j, ms[j]? = some m ∧ a.single (i + j) = none
  | [], i => by simp [writtenAlone]
  | x :: ms, i => by
    have ih := mem_writtenAlone (a := a) (m := m) ms (i + 1)
    have hsplit : (∃ j, (x :: ms)[j]? = some m ∧ a.single (i + j) = none) ↔
        (x = m ∧ a.single i = none) ∨ ∃ j, ms[j]? = some m ∧ a.single (i + 1 + j) = none := by
      constructor
      · rintro ⟨_ | j, hj, hs⟩
        · exact Or.inl ⟨Option.some.inj hj, hs⟩
        · exact Or.inr ⟨j, hj, by rwa [Nat.add_assoc, Nat.add_comm 1]⟩
      · rintro (⟨rfl, hs⟩ | ⟨j, hj, hs⟩)
        · exact ⟨0, rfl, hs⟩
        · exact ⟨j + 1, hj, by rwa [Nat.add_comm j, ← Nat.add_assoc]⟩
    rw [hsplit, ← ih, writtenAlone]
    by_cases h : a.single i = none
    · rw [if_pos h, List.mem_cons, eq_comm]
      simp only [h, and_true]
    · rw [if_neg h]
      simp only [h, and_false, false_or]

/-- No message of a failed left half is written, alone, behind a message of the
same connection in the right half. -/
def Answers.Orderly (a : Answers) (conn : μ → κ) (batch : List μ) : Prop :=
  a.stalled = true → a.left ≠ none → a.right = none →
    ∀ i m, (batch.take (batch.length / 2))[i]? = some m → a.single i = none →
      ∀ m' ∈ batch.drop (batch.length / 2), conn m ≠ conn m'

/-- If they are of one connection, the first was enqueued before the second. -/
def Later (conn : μ → κ) (x y : μ × ℕ) : Prop := conn x.1 = conn y.1 → x.2 < y.2

theorem Answers.orderly_map {ν : Type} (a : Answers) (f : ν → μ) (batch : List ν) :
    a.Orderly conn (batch.map f) ↔ a.Orderly (fun x => conn (f x)) batch := by
  unfold Answers.Orderly
  rw [List.length_map, ← List.map_take, ← List.map_drop]
  simp only [List.getElem?_map, Option.map_eq_some_iff, List.forall_mem_map]
  constructor
  · intro h hs hl hr i m hm
    exact h hs hl hr i (f m) ⟨m, hm, rfl⟩
  · rintro h hs hl hr i _ ⟨m, hm, rfl⟩
    exact h hs hl hr i m hm

/-- **The order within a batch** is kept if and only if the answers are orderly. -/
theorem outcome_later_iff (a : Answers) {batch : List (μ × ℕ)} (hb : batch.Pairwise fun x y => x.2 < y.2) :
    (outcome a batch).1.Pairwise (Later conn) ↔ a.Orderly (fun x => conn x.1) batch := by
  have hlater : ∀ l : List (μ × ℕ), l.Sublist batch → l.Pairwise (Later conn) := fun l hl =>
    (hb.sublist hl).imp (S := Later conn) fun hxy _ => hxy
  unfold outcome partialOutcome Answers.Orderly
  by_cases hs : a.stalled = true
  · rw [if_pos hs]
    by_cases hlen : batch.length ≤ 1
    · have hmid : batch.length / 2 = 0 := by omega
      rw [if_pos hlen, hmid, List.take_zero]
      exact iff_of_true (hlater _ (writtenAlone_sublist a batch 0)) fun _ _ _ i m hm => (by simp at hm)
    · rw [if_neg hlen]
      have hcut := List.take_append_drop (batch.length / 2) batch
      generalize batch.take (batch.length / 2) = left at hcut ⊢
      generalize batch.drop (batch.length / 2) = right at hcut ⊢
      rcases a.left with _ | e <;> rcases a.right with _ | e' <;> dsimp only
      · exact iff_of_true (hlater _ (List.Sublist.refl _)) fun _ h => absurd rfl h
      · refine iff_of_true (hlater _ ?_) fun _ h => absurd rfl h
        rw [← hcut]
        exact (writtenAlone_sublist a right 0).append_left left
      · have hsort := hb
        rw [← hcut, List.pairwise_append] at hsort
        rw [List.pairwise_append]
        constructor
        · rintro ⟨-, -, hbehind⟩ - - - i m hm hi m' hm' heq
          have hwritten := (mem_writtenAlone left 0).2 ⟨i, hm, by rwa [Nat.zero_add]⟩
          exact lt_asymm (hbehind m' hm' m hwritten heq.symm) (hsort.2.2 m (List.mem_of_getElem? hm) m' hm')
        · intro h
          refine ⟨hlater _ ?_, hlater _ ?_, fun x hx y hy heq => ?_⟩
          · rw [← hcut]
            exact List.sublist_append_right left right
          · rw [← hcut]
            exact (writtenAlone_sublist a left 0).trans (List.sublist_append_left left right)
          · obtain ⟨i, hi, hsent⟩ := (mem_writtenAlone left 0).1 hy
            exact absurd heq.symm (h hs (by simp) rfl i y hi (by rwa [Nat.zero_add] at hsent) x hx)
      · exact iff_of_true List.Pairwise.nil fun _ _ h => (by cases h)
  · rw [if_neg hs]
    exact iff_of_true (hlater _ (List.Sublist.refl _)) fun h => absurd h hs

end Writes

/-! ### The queue -/

/-- The queue and its producer. `batch` is what `produceLoop` has taken and not
written, `overflow` the number of calls of `recordOverflow`. The last two
fields are history: the messages accepted into the channel, in order, and those
`produceLoop` gave up. -/
structure Kafka (μ : Type) where
  msgCh : List μ := []
  chClosed : Bool := false
  closed : Bool := false
  batch : List μ := []
  exited : Bool := false
  broker : Broker μ := {}
  overflow : ℕ := 0
  accepted : List μ := []
  failed : List μ := []

namespace Kafka

variable {μ ν : Type}

/-- A critical section or an atomic action: an `Enqueue`, the two halves of
`Close` (the flag, then the channel), and the steps of `produceLoop`: receive a
message, write the batch, exit. -/
inductive Act (μ : Type)
  | enqueue (m : μ)
  | close
  | closeCh
  | receive
  | flush (a : Answers)
  | exit

/-- `Enqueue`. The encoding of an event never fails. -/
def enqueue (q : Kafka μ) (m : μ) : Kafka μ × EnqueueOutcome :=
  if q.closed then (q, .returns false false)
  else if q.msgCh.length < kafkaLocalBufferSize then
    ({ q with msgCh := q.msgCh ++ [m], accepted := q.accepted ++ [m] }, .returns false false)
  else ({ q with overflow := q.overflow + 1 }, .returns true true)

/-- `produceLoop` receives a message. -/
def receive (q : Kafka μ) : Kafka μ :=
  match q.msgCh with
  | [] => q
  | m :: ms =>
    if q.batch.length < kafkaBatchSize then { q with msgCh := ms, batch := q.batch ++ [m] } else q

/-- `produceLoop` writes its batch, once it is full or the channel is empty. -/
def flush (q : Kafka μ) (a : Answers) : Kafka μ :=
  if q.batch ≠ [] ∧ (q.batch.length = kafkaBatchSize ∨ q.msgCh = []) then
    let r := writeBatchWithRetry a q.batch q.broker
    { q with
      batch := []
      broker := r.1
      overflow := q.overflow + r.2.length
      failed := q.failed ++ r.2 }
  else q

def step (q : Kafka μ) : Act μ → Kafka μ × Option EnqueueOutcome
  | .enqueue m => ((q.enqueue m).1, some (q.enqueue m).2)
  | .close => ({ q with closed := true }, none)
  | .closeCh => ({ q with chClosed := q.closed }, none)
  | .receive => (q.receive, none)
  | .flush a => (q.flush a, none)
  | .exit => ({ q with exited := q.exited || (q.chClosed && q.msgCh.isEmpty && q.batch.isEmpty) }, none)

/-! ### Every message is accounted for -/

/-- The `Enqueue` calls that returned `dropped`. -/
def droppedCalls (outs : List (Option EnqueueOutcome)) : ℕ := outs.count (some (.returns true true))

structure Inv (q : Kafka μ) (dropped : ℕ) : Prop where
  split : (q.broker.topic ++ q.failed ++ (q.batch ++ q.msgCh)).Perm q.accepted
  produced : q.broker.produced = q.broker.topic.length
  overflow : q.overflow = q.failed.length + dropped
  chClosed : q.chClosed = true → q.closed = true
  exited : q.exited = true → q.closed = true ∧ q.batch = [] ∧ q.msgCh = []

theorem inv_new : Inv ({} : Kafka μ) 0 :=
  ⟨List.Perm.refl [], rfl, rfl, fun h => h, fun h => (by cases h)⟩

theorem Inv.enqueue {q : Kafka μ} {dropped : ℕ} (h : Inv q dropped) (m : μ) :
    Inv (q.enqueue m).1 (dropped + droppedCalls [some (q.enqueue m).2]) := by
  unfold Kafka.enqueue
  by_cases hc : q.closed = true
  · rw [if_pos hc]
    exact h
  · rw [if_neg hc]
    by_cases hroom : q.msgCh.length < kafkaLocalBufferSize
    · rw [if_pos hroom]
      refine ⟨?_, h.produced, h.overflow, h.chClosed, fun he => absurd (h.exited he).1 hc⟩
      dsimp only
      rw [← List.append_assoc q.batch, ← List.append_assoc]
      exact h.split.append_right [m]
    · rw [if_neg hroom]
      refine ⟨h.split, h.produced, ?_, h.chClosed, h.exited⟩
      exact congrArg (· + 1) h.overflow

theorem Inv.receive {q : Kafka μ} {dropped : ℕ} (h : Inv q dropped) : Inv q.receive dropped := by
  unfold Kafka.receive
  rcases hch : q.msgCh with _ | ⟨m, ms⟩
  · exact h
  · dsimp only
    by_cases hroom : q.batch.length < kafkaBatchSize
    · rw [if_pos hroom]
      refine ⟨?_, h.produced, h.overflow, h.chClosed, fun he => ?_⟩
      · have := h.split
        rw [hch] at this
        rwa [List.append_assoc q.batch, List.singleton_append]
      · have := (h.exited he).2.2
        rw [hch] at this
        cases this
    · rw [if_neg hroom]
      exact h

theorem Inv.flush {q : Kafka μ} {dropped : ℕ} (h : Inv q dropped) (a : Answers) : Inv (q.flush a) dropped := by
  unfold Kafka.flush
  by_cases hready : q.batch ≠ [] ∧ (q.batch.length = kafkaBatchSize ∨ q.msgCh = [])
  · rw [if_pos hready, writeBatchWithRetry_eq a hready.1]
    refine ⟨?_, ?_, ?_, h.chClosed, fun he => absurd (h.exited he).2.1 hready.1⟩
    · refine List.Perm.trans ?_ h.split
      have hbatch := outcome_perm a q.batch
      dsimp only
      rw [List.nil_append, List.append_assoc q.broker.topic, List.append_assoc q.broker.topic,
        List.append_assoc q.broker.topic]
      refine List.Perm.append_left _ ?_
      refine ((List.perm_append_comm_assoc _ _ _).append_right _).trans ?_
      rw [List.append_assoc]
      exact (hbatch.append_right _).append_left _
    · dsimp only
      rw [List.length_append, h.produced]
    · dsimp only
      rw [List.length_append, h.overflow]
      omega
  · rw [if_neg hready]
    exact h

theorem Inv.step {q : Kafka μ} {dropped : ℕ} (h : Inv q dropped) (act : Act μ) :
    Inv (q.step act).1 (dropped + droppedCalls [(q.step act).2]) := by
  rcases act with m | _ | _ | _ | a | _
  · exact h.enqueue m
  · exact ⟨h.split, h.produced, h.overflow, fun _ => rfl, fun he => ⟨rfl, (h.exited he).2⟩⟩
  · exact ⟨h.split, h.produced, h.overflow, fun hc => hc, h.exited⟩
  · exact h.receive
  · exact h.flush a
  · refine ⟨h.split, h.produced, h.overflow, h.chClosed, fun he => ?_⟩
    simp only [Kafka.step, Bool.or_eq_true, Bool.and_eq_true, List.isEmpty_iff] at he
    rcases he with he | ⟨⟨hc, hch⟩, hb⟩
    · exact h.exited he
    · exact ⟨h.chClosed hc, hb, hch⟩

theorem Inv.run : ∀ (acts : List (Act μ)) {q : Kafka μ} {dropped : ℕ}, Inv q dropped →
    Inv (Machine.final Kafka.step q acts) (dropped + droppedCalls (Machine.outs Kafka.step q acts))
  | [], _, _, h => h
  | act :: acts, q, dropped, h => by
    have hrest := Inv.run acts (h.step act)
    rw [Nat.add_assoc] at hrest
    rw [Machine.final_cons, Machine.outs_cons, droppedCalls, List.count_cons]
    rw [droppedCalls, droppedCalls, List.count_singleton, Nat.add_comm (ite _ _ _)] at hrest
    exact hrest

/-- `Enqueue` drops a message exactly if it counts it. -/
theorem step_out (q : Kafka μ) (act : Act μ) : ∀ out, (q.step act).2 = some out →
    out = .returns false false ∨ out = .returns true true := by
  rcases act with m | _ | _ | _ | a | _ <;> intro out hout
  · obtain rfl : (q.enqueue m).2 = out := Option.some.inj hout
    unfold Kafka.enqueue
    split_ifs
    · exact Or.inl rfl
    · exact Or.inl rfl
    · exact Or.inr rfl
  all_goals cases hout

/-- **Written once or counted once.** When `produceLoop` has exited, the messages
accepted into the channel are those appended to the topic and those given up,
each once; `produced` counts the former; `recordOverflow` was called once for
each of the latter and once for each `Enqueue` that returned `dropped`, and no
`Enqueue` returned `dropped` without calling it or called it without. -/
theorem produced_or_counted (acts : List (Act μ)) (hexit : (Machine.final step ({} : Kafka μ) acts).exited = true) :
    let q := Machine.final step ({} : Kafka μ) acts
    let outs := Machine.outs step ({} : Kafka μ) acts
    (q.broker.topic ++ q.failed).Perm q.accepted ∧ q.broker.produced = q.broker.topic.length ∧
      q.overflow = q.failed.length + outs.countP (fun o => o matches some (.returns true _)) ∧
      ∀ d r, some (.returns d r) ∈ outs → (d = true ↔ r = true) := by
  have h := Inv.run acts (inv_new (μ := μ))
  have hout : ∀ o ∈ Machine.outs step ({} : Kafka μ) acts, ∀ out, o = some out →
      out = .returns false false ∨ out = .returns true true := Machine.forall_outs step step_out acts {}
  obtain ⟨-, hbatch, hch⟩ := h.exited hexit
  have hsplit := h.split
  rw [hbatch, hch, List.append_nil, List.append_nil] at hsplit
  refine ⟨hsplit, h.produced, ?_, fun d r hmem => ?_⟩
  · rw [h.overflow, Nat.zero_add, droppedCalls, List.count]
    congr 1
    refine List.countP_congr fun o ho => ?_
    rcases o with _ | out
    · simp
    · rcases hout _ ho out rfl with rfl | rfl <;> simp
  · rcases hout _ hmem _ rfl with heq | heq
    · cases heq
      rfl
    · cases heq
      rfl

/-- Two messages of a batch are given up, one is written; the fourth `Enqueue`
comes too late. -/
theorem produced_or_counted_partial :
    let err := some (bytes "Message Size Too Large")
    let a : Answers := { full := err, retry := fun _ => err, right := err, single := fun _ => err }
    let acts : List (Act ℕ) := [.enqueue 1, .enqueue 2, .enqueue 3, .receive, .receive, .close, .receive,
      .enqueue 4, .closeCh, .flush a, .exit]
    let q := Machine.final step ({} : Kafka ℕ) acts
    q.exited = true ∧ q.accepted = [1, 2, 3] ∧ q.broker.topic = [1] ∧ q.failed = [2, 3] ∧ q.overflow = 2 ∧
      (q.broker.topic ++ q.failed).Perm q.accepted := by
  refine ⟨by decide +kernel, by decide +kernel, by decide +kernel, by decide +kernel, by decide +kernel, ?_⟩
  exact (produced_or_counted _ (by decide +kernel)).1

/-! ### The queue does not look into its messages -/

section Map

variable (f : μ → ν)

def Act.map : Act μ → Act ν
  | .enqueue m => .enqueue (f m)
  | .close => .close
  | .closeCh => .closeCh
  | .receive => .receive
  | .flush a => .flush a
  | .exit => .exit

protected def map (q : Kafka μ) : Kafka ν where
  msgCh := q.msgCh.map f
  chClosed := q.chClosed
  closed := q.closed
  batch := q.batch.map f
  exited := q.exited
  broker := ⟨q.broker.topic.map f, q.broker.produced⟩
  overflow := q.overflow
  accepted := q.accepted.map f
  failed := q.failed.map f

theorem writtenAlone_map (a : Answers) : ∀ (ms : List μ) (i : ℕ),
    writtenAlone a i (ms.map f) = ((writtenAlone a i ms).1.map f, (writtenAlone a i ms).2.map f)
  | [], _ => rfl
  | m :: ms, i => by
    rw [List.map_cons, writtenAlone, writtenAlone, writtenAlone_map a ms (i + 1)]
    by_cases h : a.single i = none
    · rw [if_pos h, if_pos h, List.map_cons]
    · rw [if_neg h, if_neg h, List.map_cons]

theorem outcome_map (a : Answers) (batch : List μ) :
    outcome a (batch.map f) = ((outcome a batch).1.map f, (outcome a batch).2.map f) := by
  unfold outcome partialOutcome
  by_cases hs : a.stalled = true
  · rw [if_pos hs, if_pos hs, List.length_map, ← List.map_take, ← List.map_drop]
    by_cases hlen : batch.length ≤ 1
    · rw [if_pos hlen, if_pos hlen, writtenAlone_map]
    · rw [if_neg hlen, if_neg hlen]
      rcases a.left with _ | e <;> rcases a.right with _ | e' <;>
        simp only [writtenAlone_map, List.map_append, List.map_nil]
  · rw [if_neg hs, if_neg hs, List.map_nil]

theorem step_map (q : Kafka μ) (act : Act μ) :
    (q.map f).step (act.map f) = ((q.step act).1.map f, (q.step act).2) := by
  rcases act with m | _ | _ | _ | a | _
  · simp only [step, Act.map, enqueue, Kafka.map, List.length_map]
    split_ifs
    · rfl
    · simp only [List.map_append, List.map_cons, List.map_nil]
    · rfl
  · rfl
  · rfl
  · rcases hch : q.msgCh with _ | ⟨m, ms⟩
    · simp only [step, Act.map, receive, Kafka.map, hch, List.map_nil]
    · simp only [step, Act.map, receive, Kafka.map, hch, List.map_cons, List.length_map]
      split_ifs
      · simp only [List.map_append, List.map_cons, List.map_nil]
      · simp only [hch, List.map_cons]
  · simp only [step, Act.map, flush]
    by_cases hready : q.batch ≠ [] ∧ (q.batch.length = kafkaBatchSize ∨ q.msgCh = [])
    · have hready' : (q.map f).batch ≠ [] ∧ ((q.map f).batch.length = kafkaBatchSize ∨ (q.map f).msgCh = []) := by
        simpa [Kafka.map] using hready
      rw [if_pos hready, if_pos hready', writeBatchWithRetry_eq a hready.1, writeBatchWithRetry_eq a hready'.1]
      simp only [Kafka.map, outcome_map, List.map_append, List.length_map, List.map_nil]
    · have hready' : ¬ ((q.map f).batch ≠ [] ∧
          ((q.map f).batch.length = kafkaBatchSize ∨ (q.map f).msgCh = [])) := by
        simpa [Kafka.map] using hready
      rw [if_neg hready, if_neg hready']
  · simp [step, Act.map, Kafka.map]

theorem final_map : ∀ (acts : List (Act μ)) (q : Kafka μ),
    Machine.final step (q.map f) (acts.map (Act.map f)) = (Machine.final step q acts).map f
  | [], _ => rfl
  | act :: acts, q => by
    rw [List.map_cons, Machine.final_cons, Machine.final_cons, step_map]
    exact final_map acts (q.step act).1

end Map

/-! ### The order of the topic -/

section Order

variable {κ : Type} {conn : μ → κ}

/-- The run with messages that know the number of their action, from `n` on. -/
def numbered (n : ℕ) : List (Act μ) → List (Act (μ × ℕ))
  | [] => []
  | act :: acts => act.map (fun m => (m, n)) :: numbered (n + 1) acts

/-- The queue writes its batch in an orderly way, if it does. -/
def Orderly (conn : μ → κ) (q : Kafka μ) : Act μ → Prop
  | .flush a => q.batch ≠ [] ∧ (q.batch.length = kafkaBatchSize ∨ q.msgCh = []) → a.Orderly conn q.batch
  | _ => True

/-- Every batch of the run is written so. -/
def OrderlyRun (conn : μ → κ) (q : Kafka μ) (acts : List (Act μ)) : Prop :=
  Machine.Along (fun q act => (q.step act).1) (Orderly conn) q acts

theorem Act.map_forget (act : Act μ) (n : ℕ) : (act.map fun m => (m, n)).map Prod.fst = act := by
  rcases act with m | _ | _ | _ | a | _ <;> rfl

theorem numbered_forget : ∀ (acts : List (Act μ)) (n : ℕ), (numbered n acts).map (Act.map Prod.fst) = acts
  | [], _ => rfl
  | act :: acts, n => by
    rw [numbered, List.map_cons, numbered_forget acts (n + 1), Act.map_forget]

/-- The plain run is the numbered one without the numbers. -/
theorem final_numbered (acts : List (Act μ)) :
    Machine.final step ({} : Kafka μ) acts = (Machine.final step {} (numbered 0 acts)).map Prod.fst := by
  rw [← final_map, numbered_forget]
  rfl

/-- What is under way is in order, behind all of the topic and before `n`. -/
structure Aligned (q : Kafka (μ × ℕ)) (n : ℕ) : Prop where
  pending : (q.batch ++ q.msgCh).Pairwise fun x y => x.2 < y.2
  behind : ∀ x ∈ q.broker.topic, ∀ y ∈ q.batch ++ q.msgCh, x.2 < y.2
  below : ∀ x ∈ q.broker.topic ++ (q.batch ++ q.msgCh), x.2 < n

theorem Aligned.enqueue {q : Kafka (μ × ℕ)} {n : ℕ} (h : Aligned q n) (m : μ) :
    Aligned (q.enqueue (m, n)).1 (n + 1) ∧ (q.enqueue (m, n)).1.broker = q.broker := by
  have hbelow : ∀ x ∈ q.broker.topic ++ (q.batch ++ q.msgCh), x.2 < n + 1 := fun x hx => (h.below x hx).trans
    (Nat.lt_succ_self n)
  unfold Kafka.enqueue
  split_ifs
  · exact ⟨⟨h.pending, h.behind, hbelow⟩, rfl⟩
  · refine ⟨⟨?_, fun x hx y hy => ?_, fun x hx => ?_⟩, rfl⟩
    · dsimp only
      rw [← List.append_assoc, List.pairwise_append]
      refine ⟨h.pending, List.pairwise_singleton _ _, fun x hx y hy => ?_⟩
      rw [List.mem_singleton.mp hy]
      exact h.below x (List.mem_append_right _ hx)
    · rw [← List.append_assoc] at hy
      rcases List.mem_append.mp hy with hy | hy
      · exact h.behind x hx y hy
      · rw [List.mem_singleton.mp hy]
        exact h.below x (List.mem_append_left _ hx)
    · rw [← List.append_assoc, ← List.append_assoc, List.append_assoc q.broker.topic] at hx
      exact List.forall_mem_append.2 ⟨hbelow, List.forall_mem_singleton.2 (Nat.lt_succ_self n)⟩ x hx
  · exact ⟨⟨h.pending, h.behind, hbelow⟩, rfl⟩

theorem Aligned.receive {q : Kafka (μ × ℕ)} {n : ℕ} (h : Aligned q n) :
    Aligned q.receive n ∧ q.receive.broker = q.broker := by
  have hsame : q.receive.batch ++ q.receive.msgCh = q.batch ++ q.msgCh := by
    unfold Kafka.receive
    rcases hch : q.msgCh with _ | ⟨m, ms⟩
    · dsimp only
      rw [hch]
    · dsimp only
      split_ifs
      · rw [List.append_assoc, List.singleton_append]
      · rw [hch]
  have hbroker : q.receive.broker = q.broker := by
    unfold Kafka.receive
    rcases q.msgCh with _ | ⟨m, ms⟩
    · rfl
    · dsimp only
      split_ifs <;> rfl
  refine ⟨⟨?_, ?_, ?_⟩, hbroker⟩
  · rw [hsame]
    exact h.pending
  · rw [hsame, hbroker]
    exact h.behind
  · rw [hsame, hbroker]
    exact h.below

theorem Aligned.flush {q : Kafka (μ × ℕ)} {n : ℕ} (h : Aligned q n) (a : Answers) :
    Aligned (q.flush a) n ∧
      ((q.flush a).broker.topic.Pairwise (Later conn) ↔
        q.broker.topic.Pairwise (Later conn) ∧ (q.map Prod.fst).Orderly conn (.flush a)) := by
  obtain ⟨hbatch, hch, hcross⟩ := List.pairwise_append.mp h.pending
  unfold Kafka.flush Kafka.Orderly
  by_cases hready : q.batch ≠ [] ∧ (q.batch.length = kafkaBatchSize ∨ q.msgCh = [])
  · have hready' : (q.map Prod.fst).batch ≠ [] ∧
        ((q.map Prod.fst).batch.length = kafkaBatchSize ∨ (q.map Prod.fst).msgCh = []) := by
      simpa [Kafka.map] using hready
    have hwritten : ∀ x ∈ (outcome a q.batch).1, x ∈ q.batch := fun x hx =>
      (outcome_perm a q.batch).subset (List.mem_append_left _ hx)
    rw [if_pos hready, writeBatchWithRetry_eq a hready.1]
    dsimp only
    refine ⟨⟨?_, fun x hx y hy => ?_, fun x hx => ?_⟩, ?_⟩
    · exact hch
    · rw [List.nil_append] at hy
      rcases List.mem_append.mp hx with hx | hx
      · exact h.behind x hx y (List.mem_append_right _ hy)
      · exact hcross x (hwritten x hx) y hy
    · rw [List.nil_append] at hx
      refine h.below x ?_
      rcases List.mem_append.mp hx with hx | hx
      · rcases List.mem_append.mp hx with hx | hx
        · exact List.mem_append_left _ hx
        · exact List.mem_append_right _ (List.mem_append_left _ (hwritten x hx))
      · exact List.mem_append_right _ (List.mem_append_right _ hx)
    · have horder : (q.map Prod.fst).batch = q.batch.map Prod.fst := rfl
      rw [List.pairwise_append, outcome_later_iff a hbatch, horder, a.orderly_map]
      constructor
      · rintro ⟨h1, h2, -⟩
        exact ⟨h1, fun _ => h2⟩
      · rintro ⟨h1, h2⟩
        exact ⟨h1, h2 hready', fun x hx y hy _ => h.behind x hx y (List.mem_append_left _ (hwritten y hy))⟩
  · have hready' : ¬ ((q.map Prod.fst).batch ≠ [] ∧
        ((q.map Prod.fst).batch.length = kafkaBatchSize ∨ (q.map Prod.fst).msgCh = [])) := by
      simpa [Kafka.map] using hready
    rw [if_neg hready]
    exact ⟨h, ⟨fun ht => ⟨ht, fun hr => absurd hr hready'⟩, fun ht => ht.1⟩⟩

variable (conn) in
theorem Aligned.step {q : Kafka (μ × ℕ)} {n : ℕ} (h : Aligned q n) (act : Act μ) :
    Aligned (q.step (act.map fun m => (m, n))).1 (n + 1) ∧
      ((q.step (act.map fun m => (m, n))).1.broker.topic.Pairwise (Later conn) ↔
        q.broker.topic.Pairwise (Later conn) ∧ (q.map Prod.fst).Orderly conn act) := by
  have hsucc : ∀ {q' : Kafka (μ × ℕ)}, Aligned q' n → Aligned q' (n + 1) := fun h' =>
    ⟨h'.pending, h'.behind, fun x hx => (h'.below x hx).trans (Nat.lt_succ_self n)⟩
  rcases act with m | _ | _ | _ | a | _
  · obtain ⟨h1, h2⟩ := h.enqueue m
    refine ⟨h1, ?_⟩
    simp only [Kafka.step, Act.map, h2, Kafka.Orderly, and_true]
  · exact ⟨hsucc ⟨h.pending, h.behind, h.below⟩, by simp only [Kafka.step, Act.map, Kafka.Orderly, and_true]⟩
  · exact ⟨hsucc ⟨h.pending, h.behind, h.below⟩, by simp only [Kafka.step, Act.map, Kafka.Orderly, and_true]⟩
  · obtain ⟨h1, h2⟩ := h.receive
    refine ⟨hsucc h1, ?_⟩
    simp only [Kafka.step, Act.map, h2, Kafka.Orderly, and_true]
  · obtain ⟨h1, h2⟩ := h.flush a
    exact ⟨hsucc h1, h2⟩
  · exact ⟨hsucc ⟨h.pending, h.behind, h.below⟩, by simp only [Kafka.step, Act.map, Kafka.Orderly, and_true]⟩

variable (conn) in
/-- The order at the end of a run, from any point of it. -/
theorem Aligned.run : ∀ (acts : List (Act μ)) {q : Kafka (μ × ℕ)} {n : ℕ}, Aligned q n →
    ((Machine.final Kafka.step q (numbered n acts)).broker.topic.Pairwise (Later conn) ↔
      q.broker.topic.Pairwise (Later conn) ∧ OrderlyRun conn (q.map Prod.fst) acts)
  | [], q, n, _ => by rw [numbered, Machine.final_nil, OrderlyRun, Machine.Along, and_true]
  | act :: acts, q, n, h => by
    obtain ⟨h1, h2⟩ := h.step conn act
    have hplain := step_map Prod.fst q (act.map fun m => (m, n))
    rw [Act.map_forget] at hplain
    rw [numbered, Machine.final_cons, Aligned.run acts h1, h2, OrderlyRun, OrderlyRun, Machine.Along, hplain, and_assoc]

/-- **When the topic is in order.** In every run the messages of each connection
stand in the topic in the order in which they were enqueued if and only if every
batch is written in an orderly way. The messages carry the number of their
`Enqueue` only to say so. -/
theorem ordered_iff (conn : μ → κ) (acts : List (Act μ)) :
    let q := Machine.final step ({} : Kafka (μ × ℕ)) (numbered 0 acts)
    (Machine.final step ({} : Kafka μ) acts).broker.topic = q.broker.topic.map Prod.fst ∧
      (q.broker.topic.Pairwise (fun x y => conn x.1 = conn y.1 → x.2 < y.2) ↔ OrderlyRun conn {} acts) := by
  have h : Aligned ({} : Kafka (μ × ℕ)) 0 := ⟨List.Pairwise.nil, by simp, by simp⟩
  refine ⟨by rw [final_numbered]; rfl, ?_⟩
  exact (Aligned.run conn acts h).trans (and_iff_right List.Pairwise.nil)

/-- **Counterexample**: two statements of one connection. No attempt at the batch
succeeds, the first half fails, the second is written, and then the first
message alone: the topic has them in reverse. -/
theorem order_reversed :
    let err := some (bytes "Message Size Too Large")
    let a : Answers := { full := err, retry := fun _ => err, left := err }
    let insert : SQLEvent := { FileQueue.someEvent with sql := bytes "INSERT INTO t VALUES (1)" }
    let delete : SQLEvent := { FileQueue.someEvent with sql := bytes "DELETE FROM t" }
    let acts := [.enqueue insert, .enqueue delete, .receive, .receive, .flush a]
    insert.conn = delete.conn ∧ (Machine.final step ({} : Kafka SQLEvent) acts).broker.topic = [delete, insert] ∧
      (Machine.final step ({} : Kafka Message) (acts.map (Act.map kafkaMessage))).broker.topic =
        [kafkaMessage delete, kafkaMessage insert] := by
  decide +kernel

end Order

end Kafka
end PgShadow
