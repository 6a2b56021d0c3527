/-
# The ring buffer is a bounded queue

The critical sections of `pkg/queue/ringbuffer.go`, one after another, act on the
slots as `Fifo.ringStep` acts on a list of events: `Enqueue` appends, drops the
oldest event and appends, or drops the newcomer, `Dequeue` takes the first event,
and after `Close` an `Enqueue` does nothing. A full buffer and an empty one have
the same `head` and `tail`; `count` tells them apart (`RingBuffer.Refines`).

A call that has to wait changes nothing and comes again, so it is no step of its
own. What is dropped is notified, and every event that was passed to an open
queue was dropped, dequeued, or is still there (`conserved`).

Key definitions: `RingBuffer.step`, `Fifo.ringStep`, `RingBuffer.Refines`.
Key theorems: `refines_ring`, `ring_is_fifo`.
-/
import PgShadow.Lib.Circular
import PgShadow.Queue.RingBuffer

namespace PgShadow

namespace RingBuffer

/-- A call on the buffer. -/
inductive Op
  | enqueue (ev : SQLEvent)
  | dequeue (live : Bool)
  | close
deriving DecidableEq

/-- What a call ends with. -/
inductive Result
  | enqueue (o : EnqueueOutcome)
  | dequeue (o : DequeueOutcome)
  | close
deriving DecidableEq

def step (r : RingBuffer) : Op → RingBuffer × Result
  | .enqueue ev => ((r.enqueue ev).r, .enqueue (r.enqueue ev).out)
  | .dequeue live => ((r.dequeue live).r, .dequeue (r.dequeue live).out)
  | .close => (r.close, .close)

/-- An `Enqueue` that returned `dropped`. -/
def Result.dropped : Result → Bool
  | .enqueue (.returns d _) => d
  | _ => false

/-- An `Enqueue` that called `recordOverflow`. -/
def Result.notified : Result → Bool
  | .enqueue (.returns _ n) => n
  | _ => false

/-- A `Dequeue` that returned an event. -/
def Result.taken : Result → Bool
  | .dequeue (.returns ev) => ev.isSome
  | _ => false

def Op.isEnqueue : Op → Bool
  | .enqueue _ => true
  | _ => false

end RingBuffer

open RingBuffer

/-- A call on a list of events. -/
def Fifo.ringStep (capacity : ℕ) (policy : OverflowPolicy) (s : Fifo) : Op → Fifo × Result
  | .enqueue ev =>
    if s.closed then (s, .enqueue (.returns false false))
    else
      ({ s with items := BoundedQueue.offer policy capacity s.items (some ev) },
        .enqueue (Fifo.enqueueOutcome policy (s.items.length < capacity) false))
  | .dequeue live =>
    if s.items = [] ∧ s.closed = false ∧ live then (s, .dequeue .waits)
    else ({ s with items := s.items.tail }, .dequeue (.returns s.items.head?))
  | .close => ({ s with closed := true }, .close)

namespace RingBuffer

/-! ### Refinement -/

/-- The slots of `r` hold the events of `s`. -/
structure Refines (cap : ℕ) (policy : OverflowPolicy) (r : RingBuffer) (s : Fifo) : Prop where
  capacity : r.capacity = cap
  overflow : r.overflow = policy
  closed : r.closed = s.closed
  length : r.buf.length = cap
  head : r.head < cap
  tail : r.tail = (r.head + r.count) % cap
  count : r.count = s.items.length
  bound : s.items.length ≤ cap
  slots : Circular.Holds r.buf r.head s.items

variable {cap : ℕ} {policy : OverflowPolicy} {r : RingBuffer} {s : Fifo}

theorem refines_empty (hcap : 0 < cap) (policy : OverflowPolicy) : Refines cap policy (new cap policy) {} :=
  ⟨rfl, rfl, rfl, List.length_replicate, hcap, (Nat.zero_mod cap).symm, rfl, Nat.zero_le _, .empty cap 0⟩

theorem Refines.push (h : Refines cap policy r s) (hroom : s.items.length < cap) (ev : SQLEvent) :
    Refines cap policy (r.push ev) { s with items := s.items ++ [ev] } := by
  have hslot : r.tail = (r.head + s.items.length) % r.buf.length := by rw [h.tail, h.count, h.length]
  refine ⟨h.capacity, h.overflow, h.closed, ?_, h.head, ?_, ?_, ?_, ?_⟩
  · exact List.length_set.trans h.length
  · show (r.tail + 1) % r.capacity = (r.head + (r.count + 1)) % cap
    rw [h.capacity, h.tail, Nat.mod_add_mod, Nat.add_assoc]
  · show r.count + 1 = _
    rw [h.count, List.length_append, List.length_singleton]
  · rw [List.length_append]
    exact hroom
  · show Circular.Holds (r.buf.set r.tail (some ev)) r.head (s.items ++ [ev])
    rw [hslot]
    exact h.slots.push (by rw [h.length]; exact hroom) ev

/-- A full buffer has its tail at the head, so `push` overwrites the slot of the
event that was given up. -/
theorem Refines.evict (h : Refines cap policy r s) (hcap : 0 < cap) (hfull : s.items.length = cap) (ev : SQLEvent) :
    Refines cap policy (({ r with head := (r.head + 1) % r.capacity, count := r.count - 1 } : RingBuffer).push ev)
      { s with items := s.items.tail ++ [ev] } := by
  obtain ⟨old, rest, hitems⟩ := List.exists_cons_of_length_pos (hfull ▸ hcap)
  have hslots := h.slots
  have hcount := h.count
  rw [hitems, List.length_cons] at hcount hfull
  rw [hitems] at hslots
  have htail : r.tail = r.head := by
    rw [h.tail, hcount, hfull, Nat.add_mod_right, Nat.mod_eq_of_lt h.head]
  rw [hitems, List.tail_cons]
  refine ⟨h.capacity, h.overflow, h.closed, ?_, ?_, ?_, ?_, ?_, ?_⟩
  · exact List.length_set.trans h.length
  · show (r.head + 1) % r.capacity < cap
    rw [h.capacity]
    exact Nat.mod_lt _ hcap
  · show (r.tail + 1) % r.capacity = ((r.head + 1) % r.capacity + (r.count - 1 + 1)) % cap
    rw [h.capacity, htail, hcount, Nat.add_sub_cancel, hfull, Nat.add_mod_right, Nat.mod_mod]
  · show r.count - 1 + 1 = _
    rw [hcount, List.length_append, List.length_singleton, Nat.add_sub_cancel]
  · rw [List.length_append, List.length_singleton, hfull]
  · show Circular.Holds (r.buf.set r.tail (some ev)) ((r.head + 1) % r.capacity) (rest ++ [ev])
    rw [htail, h.capacity, ← h.length]
    exact hslots.overwrite (by rw [h.length]; exact h.head) (by rw [h.length]; exact hfull) ev

theorem Refines.pop (h : Refines cap policy r s) (hne : s.items ≠ []) :
    Refines cap policy
        { r with buf := r.buf.set r.head none, head := (r.head + 1) % r.capacity, count := r.count - 1 }
        { s with items := s.items.tail } ∧
      r.buf.getD r.head none = s.items.head? := by
  obtain ⟨first, rest, hitems⟩ := List.exists_cons_of_ne_nil hne
  have hslots := h.slots
  have hcount := h.count
  have hbound := h.bound
  rw [hitems, List.length_cons] at hcount hbound
  rw [hitems] at hslots
  rw [hitems, List.tail_cons, List.head?_cons]
  have hhead : r.head < r.buf.length := by rw [h.length]; exact h.head
  refine ⟨⟨h.capacity, h.overflow, h.closed, ?_, ?_, ?_, ?_, ?_, ?_⟩, ?_⟩
  · exact List.length_set.trans h.length
  · show (r.head + 1) % r.capacity < cap
    rw [h.capacity]
    exact Nat.mod_lt _ (by omega)
  · show r.tail = ((r.head + 1) % r.capacity + (r.count - 1)) % cap
    rw [h.tail, h.capacity, Circular.slot_succ, hcount, Nat.add_sub_cancel]
  · show r.count - 1 = _
    rw [hcount, Nat.add_sub_cancel]
  · exact (Nat.le_succ _).trans hbound
  · have := hslots.pop hhead (by rw [h.length]; exact hbound)
    rwa [h.length, ← h.capacity] at this
  · rw [List.getD_eq_getElem?_getD, hslots.first hhead, Option.getD_some]

theorem Refines.enqueue (h : Refines cap policy r s) (hcap : 0 < cap) (ev : SQLEvent) :
    Refines cap policy (r.step (.enqueue ev)).1 (s.ringStep cap policy (.enqueue ev)).1 ∧
      (r.step (.enqueue ev)).2 = (s.ringStep cap policy (.enqueue ev)).2 := by
  simp only [step, RingBuffer.enqueue, Fifo.ringStep, BoundedQueue.offer, Fifo.enqueueOutcome]
  by_cases hc : s.closed = true
  · rw [if_pos hc, if_pos (h.closed.trans hc)]
    exact ⟨h, rfl⟩
  rw [if_neg hc, if_neg (h.closed ▸ hc)]
  by_cases hroom : s.items.length < cap
  · have hroom' : r.count < r.capacity := by rw [h.count, h.capacity]; exact hroom
    rw [if_pos hroom, if_pos hroom', decide_eq_true hroom, if_pos rfl]
    exact ⟨h.push hroom ev, rfl⟩
  have hfull : s.items.length = cap := Nat.le_antisymm h.bound (not_lt.mp hroom)
  have hroom' : ¬ r.count < r.capacity := by rw [h.count, h.capacity]; exact hroom
  have hpol := h.overflow
  rw [if_neg hroom, if_neg hroom', decide_eq_false hroom, if_neg Bool.false_ne_true]
  rcases policy with _ | _ | _ <;> rcases hr : r.overflow with _ | _ | _ <;> rw [hr] at hpol <;> cases hpol
  · have hw : r.count = r.capacity ∧ r.closed = false := by
      rw [h.count, h.capacity, h.closed]
      exact ⟨hfull, by simpa using hc⟩
    dsimp only
    rw [resume, if_pos hw]
    exact ⟨h, rfl⟩
  · exact ⟨h, rfl⟩
  · have hev := h.evict hcap hfull ev
    rw [hr] at hev
    exact ⟨hev, rfl⟩

theorem Refines.dequeue (h : Refines cap policy r s) (live : Bool) :
    Refines cap policy (r.step (.dequeue live)).1 (s.ringStep cap policy (.dequeue live)).1 ∧
      (r.step (.dequeue live)).2 = (s.ringStep cap policy (.dequeue live)).2 := by
  have hnil : r.count = 0 ↔ s.items = [] := by rw [h.count, List.length_eq_zero_iff]
  have hwait : (r.count = 0 ∧ r.closed = false ∧ live = true) ↔ (s.items = [] ∧ s.closed = false ∧ live = true) := by
    rw [hnil, h.closed]
  simp only [step, RingBuffer.dequeue, Fifo.ringStep]
  by_cases hw : s.items = [] ∧ s.closed = false ∧ live = true
  · rw [if_pos hw, if_pos (hwait.mpr hw)]
    exact ⟨h, rfl⟩
  rw [if_neg hw, if_neg (mt hwait.mp hw)]
  by_cases he : s.items = []
  · have hsame : ({ s with items := s.items.tail } : Fifo) = s := by
      rw [he, List.tail_nil, ← he]
    rw [if_pos (hnil.mpr he), hsame, he]
    exact ⟨h, rfl⟩
  · obtain ⟨h1, h2⟩ := h.pop he
    rw [if_neg (mt hnil.mp he)]
    exact ⟨h1, by rw [h2]⟩

/-- **One call**: the slots go on holding the list, and the answers are the same. -/
theorem Refines.step (h : Refines cap policy r s) (hcap : 0 < cap) (op : Op) :
    Refines cap policy (r.step op).1 (s.ringStep cap policy op).1 ∧ (r.step op).2 = (s.ringStep cap policy op).2 := by
  rcases op with ev | live | _
  · exact h.enqueue hcap ev
  · exact h.dequeue live
  · exact ⟨⟨h.capacity, h.overflow, rfl, h.length, h.head, h.tail, h.count, h.bound, h.slots⟩, rfl⟩

/-- **The ring buffer refines the list**, along every run. -/
theorem refines_ring (hcap : 0 < cap) (policy : OverflowPolicy) (ops : List Op) :
    Refines cap policy (Machine.final step (new cap policy) ops)
        (Machine.final (Fifo.ringStep cap policy) {} ops) ∧
      Machine.outs step (new cap policy) ops = Machine.outs (Fifo.ringStep cap policy) {} ops :=
  Machine.simulation (fun _ _ op h => h.step hcap op) ops _ _ (refines_empty hcap policy)

/-! ### What is dropped -/

/-- No event is dropped without a notification, and none is notified that is not
dropped. -/
theorem ringStep_notified (s : Fifo) (op : Op) :
    (s.ringStep cap policy op).2.notified = (s.ringStep cap policy op).2.dropped := by
  rcases op with ev | live | _
  · simp only [Fifo.ringStep, Fifo.enqueueOutcome]
    by_cases hc : s.closed = true
    · rw [if_pos hc]
      rfl
    · rw [if_neg hc]
      by_cases hroom : s.items.length < cap
      · rw [decide_eq_true hroom]
        rfl
      · rw [decide_eq_false hroom]
        rcases policy with _ | _ | _ <;> rfl
  · simp only [Fifo.ringStep]
    split_ifs <;> rfl
  · rfl

/-- **One call**: the event that is passed to an open list is appended or dropped, or
it is appended and the oldest one is dropped; `Dequeue` takes the event that it
returns. -/
theorem ringStep_account (hcap : 0 < cap) {op : Op} (hw : (s.ringStep cap policy op).2 ≠ .enqueue .waits) :
    s.items.length + (if s.closed = false ∧ op.isEnqueue = true then 1 else 0) =
      (s.ringStep cap policy op).1.items.length + (if (s.ringStep cap policy op).2.dropped = true then 1 else 0) +
        (if (s.ringStep cap policy op).2.taken = true then 1 else 0) := by
  rcases op with ev | live | _
  · by_cases hs : s.closed = true
    · simp [Fifo.ringStep, hs, Result.dropped, Result.taken]
    · simp only [Fifo.ringStep, Fifo.enqueueOutcome, BoundedQueue.offer, if_neg hs] at hw ⊢
      by_cases hroom : s.items.length < cap
      · simp [hroom, hs, Op.isEnqueue, Result.dropped, Result.taken]
      · rw [decide_eq_false hroom] at hw
        rw [if_neg hroom, decide_eq_false hroom]
        rcases policy with _ | _ | _
        · exact absurd rfl hw
        · simp [hs, Op.isEnqueue, Result.dropped, Result.taken]
        · simp only [Op.isEnqueue, Result.dropped, Result.taken, List.length_append, List.length_tail]
          simp [hs]
          omega
  · by_cases hwait : s.items = [] ∧ s.closed = false ∧ live = true
    · simp [Fifo.ringStep, if_pos hwait, Op.isEnqueue, Result.dropped, Result.taken]
    · rw [Fifo.ringStep, if_neg hwait]
      rcases s.items with _ | ⟨ev, evs⟩ <;> simp [Op.isEnqueue, Result.dropped, Result.taken]
  · simp [Fifo.ringStep, Op.isEnqueue, Result.dropped, Result.taken]

/-- **Conservation.** From an open list: what was there and what is passed before
`Close` is there at the end, or was dropped or taken. From a closed one nothing is
passed any more. -/
theorem conserved (hcap : 0 < cap) : ∀ (ops : List Op) (s : Fifo),
    Result.enqueue .waits ∉ Machine.outs (Fifo.ringStep cap policy) s ops →
      s.items.length + (if s.closed then 0 else (ops.takeWhile (· ≠ .close)).countP Op.isEnqueue) =
        (Machine.final (Fifo.ringStep cap policy) s ops).items.length +
          (Machine.outs (Fifo.ringStep cap policy) s ops).countP Result.dropped +
          (Machine.outs (Fifo.ringStep cap policy) s ops).countP Result.taken
  | [], s, _ => by simp
  | op :: ops, s, hw => by
    rw [Machine.outs_cons, List.mem_cons, not_or] at hw
    have ih := conserved hcap ops (s.ringStep cap policy op).1 hw.2
    have hstep := ringStep_account hcap (Ne.symm hw.1)
    -- an event is passed by an `Enqueue` before `Close`
    have hpassed : (if s.closed then 0 else ((op :: ops).takeWhile (· ≠ .close)).countP Op.isEnqueue) =
        (if s.closed = false ∧ op.isEnqueue = true then 1 else 0) +
          if (s.ringStep cap policy op).1.closed then 0 else (ops.takeWhile (· ≠ .close)).countP Op.isEnqueue := by
      rcases hs : s.closed with _ | _ <;> rcases op with ev | live | _ <;>
        simp [Fifo.ringStep, hs, Op.isEnqueue, List.countP_cons, apply_ite Prod.fst,
          apply_ite Fifo.closed, Nat.add_comm]
    rw [Machine.final_cons, Machine.outs_cons, List.countP_cons, List.countP_cons, hpassed]
    omega

/-- **The ring buffer is a bounded queue.** After any calls, none of which has to
wait for room: the slots from `head` on hold the events of the list in order and
all others are nil, `tail` is behind them and they are at most `capacity`; every
call returned what it returns on the list; as many overflows were notified as
calls returned `dropped`; and the events passed before `Close` are as many as those
still there, those dropped and those dequeued. -/
theorem ring_is_fifo {capacity : ℕ} (hcap : 0 < capacity) (policy : OverflowPolicy) (ops : List Op)
    (hroom : Result.enqueue .waits ∉ Machine.outs step (new capacity policy) ops) :
    let r := Machine.final step (new capacity policy) ops
    let s := Machine.final (Fifo.ringStep capacity policy) {} ops
    let outs := Machine.outs step (new capacity policy) ops
    (r.buf.length = capacity ∧
        (∀ i, i < r.count → r.buf[(r.head + i) % capacity]? = some s.items[i]?) ∧
        (∀ i, r.count ≤ i → i < capacity → r.buf[(r.head + i) % capacity]? = some none) ∧
        r.count = s.items.length ∧ r.tail = (r.head + r.count) % capacity ∧ r.count ≤ capacity) ∧
      outs = Machine.outs (Fifo.ringStep capacity policy) {} ops ∧
      outs.countP Result.notified = outs.countP Result.dropped ∧
      (ops.takeWhile (· ≠ .close)).countP Op.isEnqueue =
        s.items.length + outs.countP Result.dropped + outs.countP Result.taken := by
  obtain ⟨h, houts⟩ := refines_ring hcap policy ops
  intro r s outs
  have hslot := h.slots
  rw [Circular.Holds, h.length] at hslot
  refine ⟨⟨h.length, fun i hi => hslot i ?_, fun i hi hi' => ?_, h.count, h.tail, ?_⟩, houts, ?_, ?_⟩
  · exact lt_of_lt_of_le (h.count ▸ hi) h.bound
  · rw [hslot i hi', List.getElem?_eq_none (h.count ▸ hi)]
  · rw [h.count]
    exact h.bound
  · have hall : ∀ o ∈ outs, o.notified = o.dropped := by
      intro o ho
      exact Machine.forall_outs (Fifo.ringStep capacity policy) (P := fun o => o.notified = o.dropped)
        ringStep_notified ops {} o (houts ▸ ho)
    exact List.countP_congr fun o ho => by rw [hall o ho]
  · have hcons := @conserved _ policy hcap ops {} (houts ▸ hroom)
    rwa [← houts, List.length_nil, Nat.zero_add] at hcons

/-- Three events pass through two slots, the last call comes after `Close`. -/
theorem ring_wraps_around :
    let ev : ℕ → SQLEvent := fun i => { FileQueue.someEvent with seq := i }
    let ops : List Op := [.enqueue (ev 1), .enqueue (ev 2), .enqueue (ev 3), .dequeue true, .close, .enqueue (ev 4)]
    let r := Machine.final step (new 2 .dropOldest) ops
    let outs := Machine.outs step (new 2 .dropOldest) ops
    Result.enqueue .waits ∉ outs ∧ r.tail = (r.head + r.count) % 2 ∧
      outs.countP Result.notified = outs.countP Result.dropped ∧ r.count = 1 ∧
      (ops.takeWhile (· ≠ .close)).countP Op.isEnqueue = 3 := by
  intro ev ops r outs
  have hroom : Result.enqueue .waits ∉ outs := by decide
  obtain ⟨⟨-, -, -, -, htail, -⟩, -, hnotified, -⟩ := ring_is_fifo Nat.two_pos .dropOldest ops hroom
  exact ⟨hroom, htail, hnotified, rfl, by decide⟩

end RingBuffer
end PgShadow
