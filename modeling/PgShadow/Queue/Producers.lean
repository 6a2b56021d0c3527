/-
# Concurrent producers of the file queue

`Enqueue` encodes its event into `q.encodeBuf` and, under the policy `Block`,
keeps the slice it got while it waits for room. The backing array stays that of
`encodeBuf`, so the next `Enqueue` whose event fits encodes into the same
bytes. Here the arrays are modelled as such (`Buffers`), and the calls of any
number of producers and consumers as interleaved critical sections (`System`):
a call that waits sleeps on the condition variable and goes on, with whatever
its slice holds by then, when it is woken.

As long as no `Enqueue` encodes into an array that a waiting one's payload is
in, every event whose `Enqueue` returned is dequeued once, in order and as it
was stored (`stored_once`). Without that an event can be lost and another one
stored twice (`stored_twice`).

Key definitions: `Buffers.encode`, `System.step`, `System.Apart`.
Key theorems: `stored_once`, `stored_twice`.
-/
import Mathlib.Data.List.GetD
import PgShadow.Queue.FileQueue
import PgShadow.Lib.Monitor

namespace PgShadow

open FramedLog Monitor

/-! ### Slices and their arrays -/

/-- A slice from the start of a backing array. -/
structure Slice where
  array : ℕ
  len : ℕ
deriving DecidableEq

/-- The backing arrays made so far, each as long as its capacity, and
`q.encodeBuf`. -/
structure Buffers where
  arrays : List Bytes := []
  encodeBuf : Option Slice := none

namespace Buffers

/-- The array of number `a`. -/
def array (b : Buffers) (a : ℕ) : Bytes := b.arrays.getD a []

/-- The bytes of a slice. -/
def contents (b : Buffers) (s : Slice) : Bytes := (b.array s.array).take s.len

/-- The array that `encodeBinary` reuses for `ev`: that of `encodeBuf`, if its
capacity reaches the estimate. -/
def reused (b : Buffers) (ev : SQLEvent) : Option ℕ :=
  match b.encodeBuf with
  | none => none
  | some s => if estimateEventSize ev ≤ (b.array s.array).length then some s.array else none

/-- `encodeBinary(ev, q.encodeBuf)` and the assignment of its result to
`q.encodeBuf`. The appends stay within the array. -/
def encode (b : Buffers) (ev : SQLEvent) : Buffers × Slice :=
  let payload := encodeBinary ev
  match b.reused ev with
  | some a =>
    let s : Slice := ⟨a, payload.length⟩
    (⟨b.arrays.set a (payload ++ (b.array a).drop payload.length), some s⟩, s)
  | none =>
    let s : Slice := ⟨b.arrays.length, payload.length⟩
    (⟨b.arrays ++ [payload ++ List.replicate (estimateEventSize ev - payload.length) 0], some s⟩, s)

/-- An array that is reused is one of those made. -/
theorem lt_of_reused {b : Buffers} {ev : SQLEvent} {a : ℕ} (h : b.reused ev = some a) :
    a < b.arrays.length ∧ estimateEventSize ev ≤ (b.array a).length := by
  unfold reused at h
  rcases hb : b.encodeBuf with _ | s
  · rw [hb] at h
    cases h
  · rw [hb] at h
    dsimp only at h
    split_ifs at h with hle
    obtain rfl : s.array = a := Option.some.inj h
    refine ⟨?_, hle⟩
    by_contra hlen
    rw [array, List.getD_eq_default _ _ (not_lt.mp hlen), List.length_nil] at hle
    have hpos : 0 < estimateEventSize ev := by
      rw [estimateEventSize]
      omega
    omega

/-- The slice that `encode` returns holds the record. -/
theorem contents_encode (b : Buffers) (ev : SQLEvent) :
    (b.encode ev).1.contents (b.encode ev).2 = encodeBinary ev := by
  unfold encode
  rcases hr : b.reused ev with _ | a
  · dsimp only
    rw [contents, array, List.getD_append_right _ _ _ _ le_rfl, Nat.sub_self, List.getD_cons_zero, List.take_left]
  · obtain ⟨ha, -⟩ := lt_of_reused hr
    dsimp only
    rw [contents, array, List.getD_eq_getElem _ _ (by rwa [List.length_set]), List.getElem_set_self, List.take_left]

/-- **The other arrays stay as they are.** -/
theorem contents_encode_of_ne {b : Buffers} {ev : SQLEvent} {s : Slice} (hs : s.array < b.arrays.length)
    (hne : b.reused ev ≠ some s.array) : (b.encode ev).1.contents s = b.contents s := by
  unfold encode
  rcases hr : b.reused ev with _ | a
  · dsimp only
    rw [contents, contents, array, array, List.getD_append _ _ _ _ hs]
  · have ha : a ≠ s.array := fun h => hne (hr.trans (congrArg some h))
    dsimp only
    rw [contents, contents, array, List.getD_eq_getElem _ _ (by rwa [List.length_set]), List.getElem_set_ne ha]
    exact congrArg (List.take s.len) (List.getD_eq_getElem _ _ hs).symm

end Buffers

/-! ### The system -/

/-- An `Enqueue` that waits: the event it was called with and its payload. -/
structure Waiter where
  ev : SQLEvent
  payload : Slice
deriving DecidableEq

structure System where
  q : FileQueue
  bufs : Buffers := {}
  cond : Cond Waiter := {}

namespace System

/-- A queue of the policy `Block` that nobody has called. -/
def new (capacity : ℕ) : System := { q := .new capacity .block }

/-- A critical section: a call of `Enqueue`, the `i`-th woken `Enqueue` going
on, or a call of `Dequeue` with a live context. The file system does not fail. -/
inductive Act
  | enqueue (ev : SQLEvent)
  | resume (i : ℕ)
  | dequeue
deriving DecidableEq

/-- What a critical section ends with. -/
inductive Out
  | nothing
  | returned (ev : SQLEvent)
  | got (ev : Option SQLEvent)
deriving DecidableEq

/-- What follows the section of an `Enqueue` of `w`: it sleeps, or it wakes the
others and returns. -/
def settle (s : System) (w : Waiter) : FileQueue × EnqueueOutcome → System × Out
  | (q, .waits) => ({ s with q, cond := s.cond.sleep w }, .nothing)
  | (q, .returns _ _) => ({ s with q, cond := s.cond.broadcast }, .returned w.ev)

def step (s : System) : Act → System × Out
  | .enqueue ev =>
    let (bufs, payload) := s.bufs.encode ev
    ({ s with bufs }).settle ⟨ev, payload⟩ (s.q.enqueueBytes {} (bufs.contents payload))
  | .resume i =>
    match s.cond.woken[i]? with
    | none => (s, .nothing)
    | some w => ({ s with cond := s.cond.run i }).settle w (s.q.resume {} (s.bufs.contents w.payload))
  | .dequeue =>
    match s.q.dequeue true {} with
    | (q, .returns ev) => ({ s with q, cond := s.cond.broadcast }, .got ev)
    | (q, _) => ({ s with q }, .nothing)

/-- The events whose `Enqueue` returned. -/
def returned (outs : List Out) : List SQLEvent :=
  outs.filterMap fun
    | .returned ev => some ev
    | _ => none

/-- The events that were dequeued. -/
def dequeued (outs : List Out) : List SQLEvent :=
  outs.filterMap fun
    | .got ev => ev
    | _ => none

/-- The section does not encode into an array that the payload of a waiting
`Enqueue` is in. -/
def Apart (s : System) : Act → Prop
  | .enqueue ev => ∀ w ∈ s.cond.all, s.bufs.reused ev ≠ some w.payload.array
  | _ => True

/-- Every section of the run does so. -/
def ApartRun (s : System) (acts : List Act) : Prop := Machine.Along (fun s a => (s.step a).1) Apart s acts

instance (s : System) : (a : Act) → Decidable (s.Apart a)
  | .enqueue ev => inferInstanceAs (Decidable (∀ w ∈ s.cond.all, s.bufs.reused ev ≠ some w.payload.array))
  | .resume _ => .isTrue trivial
  | .dequeue => .isTrue trivial

instance (s : System) (acts : List Act) : Decidable (ApartRun s acts) :=
  inferInstanceAs (Decidable (Machine.Along _ _ s acts))

/-- The section encodes no record that `Dequeue` skips. -/
def Act.Small : Act → Prop
  | .enqueue ev => (encodeBinary ev).length ≤ maxFramePayload
  | _ => True

instance : (a : Act) → Decidable a.Small
  | .enqueue ev => inferInstanceAs (Decidable ((encodeBinary ev).length ≤ maxFramePayload))
  | .resume _ => .isTrue trivial
  | .dequeue => .isTrue trivial

/-! ### The runs -/

/-- A call of `Enqueue` under `Block` is the waiting loop from its start on. -/
theorem enqueueBytes_eq_resume {cap : ℕ} {q : FileQueue} {l : List SQLEvent}
    (h : FileQueue.Refines cap .block q ⟨l, false⟩) (d : Disk) (payload : Bytes) :
    q.enqueueBytes d payload = q.resume d payload := by
  have ho : q.closed = false := h.closed
  have hle : q.count ≤ q.capacity := by
    rw [h.count, h.capacity]
    exact h.bound
  rw [FileQueue.enqueueBytes, ho, if_neg Bool.false_ne_true, h.overflow]
  by_cases hroom : q.count < q.capacity
  · have hne : ¬ (q.count = q.capacity ∧ q.closed = false) := fun hw => absurd hw.1 hroom.ne
    rw [if_pos hroom, FileQueue.resume, if_neg hne, ho, if_neg Bool.false_ne_true]
  · rw [if_neg hroom]

/-- The waiting loop ends asleep on a full queue, or with the record appended. -/
theorem resume_cases {cap : ℕ} {q : FileQueue} {l : List SQLEvent}
    (h : FileQueue.Refines cap .block q ⟨l, false⟩) {ev : SQLEvent}
    (hev : (encodeBinary ev).length ≤ maxFramePayload) :
    q.resume {} (encodeBinary ev) = (q, .waits) ∨
      ∃ q', q.resume {} (encodeBinary ev) = (q', .returns false false) ∧
        FileQueue.Refines cap .block q' ⟨l ++ [ev], false⟩ := by
  have ho : q.closed = false := h.closed
  rw [FileQueue.resume]
  by_cases hfull : q.count = q.capacity
  · rw [if_pos ⟨hfull, ho⟩]
    exact Or.inl rfl
  · rw [if_neg fun hw => hfull hw.1, ho, if_neg Bool.false_ne_true]
    have hlen : (l ++ [ev]).length ≤ cap := by
      rw [h.count, h.capacity] at hfull
      rw [List.length_append, List.length_singleton]
      exact lt_of_le_of_ne h.bound hfull
    obtain ⟨h1, h2⟩ := h.store rfl ⟨rfl, rfl, rfl⟩ h.log (fun _ he => he) (lt_of_le_of_lt hev (by decide)) {}
      false hlen
    exact Or.inr ⟨_, Prod.ext rfl h2, h1⟩

/-- `Dequeue` waits on an empty queue, or takes the first event. -/
theorem dequeue_cases {cap : ℕ} {q : FileQueue} {l : List SQLEvent}
    (h : FileQueue.Refines cap .block q ⟨l, false⟩) (hl : ∀ ev ∈ l, (encodeBinary ev).length ≤ maxFramePayload) :
    (∃ q', q.dequeue true {} = (q', .waits) ∧ FileQueue.Refines cap .block q' ⟨l, false⟩) ∨
      ∃ q' ev rest, l = ev :: rest ∧ q.dequeue true {} = (q', .returns (some (stored ev))) ∧
        FileQueue.Refines cap .block q' ⟨rest, false⟩ := by
  obtain ⟨h1, h2⟩ := h.dequeue true (d := {}) fun _ => rfl
  rcases l with _ | ⟨ev, rest⟩
  · exact Or.inl ⟨_, Prod.ext rfl (FileQueue.Result.dequeue.inj h2), h1⟩
  · have hev : ¬ FileQueue.oversize ev = true := by
      simpa [FileQueue.oversize] using hl ev List.mem_cons_self
    simp only [Fifo.step, List.cons_ne_nil, false_and, if_false, List.dropWhile_cons_of_neg hev, List.tail_cons,
      List.head?_cons, Option.map_some] at h1 h2
    exact Or.inr ⟨_, ev, rest, rfl, Prod.ext rfl (FileQueue.Result.dequeue.inj h2), h1⟩

/-- What the run carries: the events that returned are those dequeued and those
buffered, and the payload of a waiting call is the record of its own event. -/
structure Inv (cap : ℕ) (s : System) (ret got : List SQLEvent) : Prop where
  queue : ∃ l, FileQueue.Refines cap .block s.q ⟨l, false⟩ ∧
    (∀ ev ∈ l, (encodeBinary ev).length ≤ maxFramePayload) ∧ ret.map stored = got ++ l.map stored
  waiting : ∀ w ∈ s.cond.all, s.bufs.contents w.payload = encodeBinary w.ev ∧
    (encodeBinary w.ev).length ≤ maxFramePayload

theorem inv_new (cap : ℕ) : Inv cap (new cap) [] [] :=
  ⟨⟨[], FileQueue.refines_new cap .block, by simp, rfl⟩, fun w hw => absurd hw List.not_mem_nil⟩

/-- The end of a section of `Enqueue`, with the payload of `w` intact. -/
theorem Inv.settle {cap : ℕ} {s : System} {ret got : List SQLEvent} (h : Inv cap s ret got) {w : Waiter}
    (hw : s.bufs.contents w.payload = encodeBinary w.ev) (hsize : (encodeBinary w.ev).length ≤ maxFramePayload) :
    Inv cap (s.settle w (s.q.resume {} (encodeBinary w.ev))).1
      (ret ++ returned [(s.settle w (s.q.resume {} (encodeBinary w.ev))).2])
      (got ++ dequeued [(s.settle w (s.q.resume {} (encodeBinary w.ev))).2]) := by
  obtain ⟨l, href, hl, hret⟩ := h.queue
  rcases resume_cases href hsize with heq | ⟨q', heq, href'⟩
  · rw [heq]
    simp only [System.settle, returned, dequeued, List.filterMap_cons, List.filterMap_nil, List.append_nil]
    refine ⟨⟨l, href, hl, hret⟩, fun x hx => ?_⟩
    rcases Cond.mem_all_sleep.mp hx with hx | rfl
    · exact h.waiting x hx
    · exact ⟨hw, hsize⟩
  · rw [heq]
    simp only [System.settle, returned, dequeued, List.filterMap_cons, List.filterMap_nil, List.append_nil]
    refine ⟨⟨l ++ [w.ev], href', List.forall_mem_append.2 ⟨hl, List.forall_mem_singleton.2 ?_⟩, ?_⟩,
      fun x hx => h.waiting x (Cond.mem_all_broadcast.mp hx)⟩
    · exact hsize
    · rw [List.map_append, hret, List.map_append, List.append_assoc]

theorem Inv.step {cap : ℕ} {s : System} {ret got : List SQLEvent} (h : Inv cap s ret got) {a : Act}
    (ha : s.Apart a) (hsmall : a.Small) :
    Inv cap (s.step a).1 (ret ++ returned [(s.step a).2]) (got ++ dequeued [(s.step a).2]) := by
  obtain ⟨l, href, hl, hret⟩ := h.queue
  rcases a with ev | i | _
  · -- the payloads of the others survive the encoding
    have hkeep : Inv cap { s with bufs := (s.bufs.encode ev).1 } ret got := by
      refine ⟨⟨l, href, hl, hret⟩, fun w hw => ?_⟩
      obtain ⟨hc, hsize⟩ := h.waiting w hw
      have hlt : w.payload.array < s.bufs.arrays.length := by
        by_contra hge
        rw [Buffers.contents, Buffers.array, List.getD_eq_default _ _ (not_lt.mp hge), List.take_nil] at hc
        exact encodeBinary_ne_nil w.ev hc.symm
      exact ⟨(Buffers.contents_encode_of_ne hlt (ha w hw)).trans hc, hsize⟩
    simp only [System.step, Buffers.contents_encode, enqueueBytes_eq_resume href]
    exact hkeep.settle (w := ⟨ev, _⟩) (Buffers.contents_encode s.bufs ev) hsmall
  · simp only [System.step]
    rcases hi : s.cond.woken[i]? with _ | w
    · simpa [returned, dequeued] using h
    · obtain ⟨hc, hsize⟩ := h.waiting w (Cond.mem_all_of_woken hi)
      dsimp only
      rw [hc]
      have hrun : Inv cap { s with cond := s.cond.run i } ret got :=
        ⟨⟨l, href, hl, hret⟩, fun x hx => h.waiting x (Cond.mem_all_of_run hx)⟩
      exact hrun.settle hc hsize
  · rcases dequeue_cases href hl with ⟨q', heq, href'⟩ | ⟨q', ev, rest, rfl, heq, href'⟩
    · simp only [System.step, heq]
      simpa [returned, dequeued] using (⟨⟨l, href', hl, hret⟩, h.waiting⟩ : Inv cap { s with q := q' } ret got)
    · simp only [System.step, heq, returned, dequeued, List.filterMap_cons, List.filterMap_nil, List.append_nil]
      refine ⟨⟨rest, href', fun e he => hl e (List.mem_cons_of_mem ev he), ?_⟩,
        fun x hx => h.waiting x (Cond.mem_all_broadcast.mp hx)⟩
      rw [hret, List.map_cons, List.append_assoc, List.singleton_append]

/-- The invariant along a run. -/
theorem Inv.run {cap : ℕ} : ∀ {acts : List Act} {s : System} {ret got : List SQLEvent}, Inv cap s ret got →
    ApartRun s acts → (∀ a ∈ acts, a.Small) → Inv cap (Machine.final System.step s acts)
      (ret ++ returned (Machine.outs System.step s acts)) (got ++ dequeued (Machine.outs System.step s acts))
  | [], s, ret, got, h, _, _ => by simpa [returned, dequeued] using h
  | a :: acts, s, ret, got, h, hap, hsmall => by
    obtain ⟨ha, hacts⟩ := List.forall_mem_cons.1 hsmall
    have hrest := (h.step hap.1 ha).run hap.2 hacts
    rw [Machine.final_cons, Machine.outs_cons]
    rw [List.append_assoc, List.append_assoc] at hrest
    simpa only [returned, dequeued, ← List.filterMap_append, List.singleton_append] using hrest

/-- **Every event is stored once.** In a run of records within the limit in which
no `Enqueue` encodes into an array that a waiting one's payload is in: the
events dequeued are those whose `Enqueue` returned, each once, in order and as
stored; on a drained queue they are all of them. -/
theorem stored_once (capacity : ℕ) (acts : List Act) (hsmall : ∀ a ∈ acts, a.Small)
    (hap : ApartRun (new capacity) acts) :
    let outs := Machine.outs step (new capacity) acts
    dequeued outs <+: (returned outs).map stored ∧
      ((Machine.final step (new capacity) acts).q.count = 0 → dequeued outs = (returned outs).map stored) := by
  obtain ⟨⟨l, href, -, hret⟩, -⟩ := (inv_new capacity).run hap hsmall
  rw [List.nil_append, List.nil_append] at hret
  refine ⟨⟨l.map stored, hret.symm⟩, fun h0 => ?_⟩
  have hnil : l = [] := List.length_eq_zero_iff.mp (href.count.symm.trans h0)
  rw [hret, hnil, List.map_nil, List.append_nil]

/-- An event of the statement `sql`. -/
def query (sql : String) : SQLEvent := { FileQueue.someEvent with sql := bytes sql }

/-- One producer waits for room and no other call encodes meanwhile. -/
theorem stored_once_waiting :
    let acts : List Act := [.enqueue (query "one"), .enqueue (query "two"), .dequeue, .resume 0, .dequeue]
    let outs := Machine.outs step (new 1) acts
    ApartRun (new 1) acts ∧ returned outs = [query "one", query "two"] ∧
      dequeued outs = (returned outs).map stored := by
  have hap : ApartRun (new 1) [.enqueue (query "one"), .enqueue (query "two"), .dequeue, .resume 0, .dequeue] := by
    decide +kernel
  have hsmall : ∀ a ∈ ([.enqueue (query "one"), .enqueue (query "two"), .dequeue, .resume 0, .dequeue] : List Act),
      a.Small := by
    decide +kernel
  exact ⟨hap, by decide +kernel, (stored_once 1 _ hsmall hap).2 (by decide +kernel)⟩

/-- **Counterexample**: two producers wait on a full queue. The third event is
encoded over the second, which is never stored; the third is stored twice. -/
theorem stored_twice :
    let acts : List Act := [.enqueue (query "one"), .enqueue (query "two"), .enqueue (query "six"),
      .dequeue, .resume 0, .dequeue, .resume 0, .dequeue]
    let outs := Machine.outs step (new 1) acts
    returned outs = [query "one", query "two", query "six"] ∧
      dequeued outs = [query "one", query "six", query "six"] ∧
      (Machine.final step (new 1) acts).q.count = 0 := by
  decide +kernel

end System
end PgShadow
