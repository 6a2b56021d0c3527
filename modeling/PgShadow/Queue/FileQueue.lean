/-
# The file queue

`pkg/queue/filequeue.go`: a write-ahead log of length-prefixed records with a
read cursor. The mutex makes each call one atomic step, except that a call may
wait on the condition variable; then the step ends with `waits` and the caller
tries again. What the file system answers is an input of the step (`Disk`): a
write can fail after any part of the frame, a read can fail, a truncation can
fail.

The log refines a queue of events (`refines`): the bytes between the cursors
are the frames of the buffered events' records, and every step acts on the
events as the policy says. Records over `maxFramePayload` are written like any
other but skipped by `Dequeue`, so a `Dequeue` that finds nothing else answers
as if the queue were drained.

Key definitions: `FileQueue`, `FileQueue.step`, `Fifo.step`, `FileQueue.Log`.
Key theorems: `refines`.
-/
import Mathlib.Data.List.TakeWhile
import PgShadow.Queue.Codec
import PgShadow.Lib.FramedLog
import PgShadow.Lib.BoundedQueue
import PgShadow.Lib.Machine

namespace PgShadow

open FramedLog

/-- `OverflowPolicy`. -/
abbrev OverflowPolicy := BoundedQueue.Policy

/-- `maxFramePayload`: 64 MiB. -/
abbrev maxFramePayload : ℕ := 67108864

/-- How the file system answers the calls of one critical section: whether the
write fails, and after how many bytes; whether the `i`-th read succeeds;
whether the file is truncated. -/
structure Disk where
  write : Option ℕ := none
  read : ℕ → Bool := fun _ => true
  truncate : Bool := true

/-- The queue. `f = none` once the file is released. -/
structure FileQueue where
  f : Option Bytes := some []
  capacity : ℕ
  overflow : OverflowPolicy
  closed : Bool := false
  writeOff : ℕ := 0
  readOff : ℕ := 0
  count : ℕ := 0

/-- What an `Enqueue` ends with: it waits for room, or it returns `dropped`,
having called `recordOverflow` or not. -/
inductive EnqueueOutcome
  | waits
  | returns (dropped recorded : Bool)
deriving DecidableEq

/-- What a `Dequeue` ends with: it waits, or it returns an event or
`(nil, false)`, or the codec reaches outside the record. -/
inductive DequeueOutcome
  | waits
  | returns (ev : Option SQLEvent)
  | panics
deriving DecidableEq

namespace FileQueue

/-- `newFileQueueWithFile` on a fresh file. -/
def new (capacity : ℕ) (overflow : OverflowPolicy) : FileQueue := { capacity, overflow }

/-- `f.ReadAt`, which also fails past the end of the file. -/
def readBytes (q : FileQueue) (ok : Bool) (off n : ℕ) : Option Bytes :=
  if ok then q.f.bind fun file => readAt file off n else none

/-- `readLenAt`. -/
def readLenAt (q : FileQueue) (ok : Bool) (off : ℕ) : Option ℕ :=
  (q.readBytes ok off headerLen).map BigEndian.ofBytes

/-- `writeRecord`, and whether it succeeded. A write that fails leaves a part
of the frame behind the records and the offset where it was. -/
def writeRecord (q : FileQueue) (d : Disk) (payload : Bytes) : FileQueue × Bool :=
  match q.f, d.write with
  | none, _ => (q, false)
  | some file, some k => ({ q with f := some (writeAt file q.writeOff ((frame payload).take k)) }, false)
  | some file, none =>
    ({ q with
       f := some (writeAt file q.writeOff (frame payload))
       writeOff := q.writeOff + (headerLen + payload.length) }, true)

/-- `releaseLocked`. -/
def releaseLocked (q : FileQueue) : FileQueue := { q with f := none }

/-- `compactIfDrained`. -/
def compactIfDrained (q : FileQueue) (d : Disk) : FileQueue :=
  if q.count ≠ 0 then q
  else if q.closed then q.releaseLocked
  else { q with readOff := 0, writeOff := 0, f := if d.truncate then q.f.map fun _ => [] else q.f }

/-- `dropOldest`; `none` if the length cannot be read. -/
def dropOldest (q : FileQueue) (d : Disk) : Option FileQueue :=
  (q.readLenAt (d.read 0) q.readOff).map fun n =>
    ({ q with readOff := q.readOff + (headerLen + n), count := q.count - 1 }).compactIfDrained d

/-- Write the record and count it. On failure the event is dropped and recorded. -/
def store (q : FileQueue) (d : Disk) (payload : Bytes) (dropped : Bool) : FileQueue × EnqueueOutcome :=
  match q.writeRecord d payload with
  | (q', true) => ({ q' with count := q'.count + 1 }, .returns dropped dropped)
  | (q', false) => (q', .returns true true)

/-- The waiting loop of the policy `Block` and what follows it. -/
def resume (q : FileQueue) (d : Disk) (payload : Bytes) : FileQueue × EnqueueOutcome :=
  if q.count = q.capacity ∧ q.closed = false then (q, .waits)
  else if q.closed then (q, .returns false false)
  else q.store d payload false

/-- `Enqueue` of an event with the encoding `payload`. -/
def enqueueBytes (q : FileQueue) (d : Disk) (payload : Bytes) : FileQueue × EnqueueOutcome :=
  if q.closed then (q, .returns false false)
  else if q.count < q.capacity then q.store d payload false
  else
    match q.overflow with
    | .dropNewest => (q, .returns true true)
    | .block => q.resume d payload
    | .dropOldest =>
      match q.dropOldest d with
      | none => (q, .returns true false)
      | some q' => q'.store d payload true

/-- `Enqueue`. -/
def enqueue (q : FileQueue) (d : Disk) (ev : SQLEvent) : FileQueue × EnqueueOutcome :=
  q.enqueueBytes d (encodeBinary ev)

/-- The loop of `Dequeue` over the buffered records: the first one that can be
read is returned, those before it are skipped. The first argument is the count,
the second the number of reads so far. -/
def loop (d : Disk) : ℕ → ℕ → FileQueue → FileQueue × DequeueOutcome
  | 0, _, q => (q, .returns none)
  | n + 1, i, q =>
    match q.readLenAt (d.read i) q.readOff with
    | none => loop d n (i + 1) { q with readOff := q.readOff + headerLen, count := n }
    | some len =>
      let past := { q with readOff := q.readOff + (headerLen + len), count := n }
      if maxFramePayload < len then loop d n (i + 1) past
      else
        match q.readBytes (d.read (i + 1)) (q.readOff + headerLen) len with
        | none => loop d n (i + 2) past
        | some payload =>
          match decodeBinary payload with
          | .error .outOfRange => (q, .panics)
          | .error (.refused _) => loop d n (i + 2) past
          | .ok ev => (past.compactIfDrained d, .returns (some ev))

/-- `Dequeue`, with a context that is live or cancelled. -/
def dequeue (q : FileQueue) (live : Bool) (d : Disk) : FileQueue × DequeueOutcome :=
  if q.count = 0 ∧ q.closed = false ∧ live then (q, .waits) else loop d q.count 0 q

/-- `Depth`. -/
def depth (q : FileQueue) : ℕ := q.count

/-- `Close`. -/
def close (q : FileQueue) : FileQueue :=
  if q.closed then q
  else if q.count = 0 then ({ q with closed := true }).releaseLocked
  else { q with closed := true }

/-- A call on the queue. -/
inductive Op
  | enqueue (ev : SQLEvent) (d : Disk)
  | dequeue (live : Bool) (d : Disk)
  | depth
  | close

/-- What a call ends with. -/
inductive Result
  | enqueue (o : EnqueueOutcome)
  | dequeue (o : DequeueOutcome)
  | depth (n : ℕ)
  | close
deriving DecidableEq

def step (q : FileQueue) : Op → FileQueue × Result
  | .enqueue ev d => ((q.enqueue d ev).1, .enqueue (q.enqueue d ev).2)
  | .dequeue live d => ((q.dequeue live d).1, .dequeue (q.dequeue live d).2)
  | .depth => (q, .depth q.depth)
  | .close => (q.close, .close)

end FileQueue

/-! ### The queue of events

What the log stands for: the buffered events, oldest first. `skip` are the
events a `Dequeue` passes over; for a plain queue there are none. -/

structure Fifo where
  items : List SQLEvent := []
  closed : Bool := false

namespace Fifo

/-- What `Enqueue` returns, by whether there is room and whether the write fails. -/
def enqueueOutcome (policy : OverflowPolicy) (room failed : Bool) : EnqueueOutcome :=
  if room then .returns failed failed
  else
    match policy with
    | .block => .waits
    | .dropNewest => .returns true true
    | .dropOldest => .returns true true

def step (skip : SQLEvent → Bool) (capacity : ℕ) (policy : OverflowPolicy) (s : Fifo) :
    FileQueue.Op → Fifo × FileQueue.Result
  | .enqueue ev d =>
    if s.closed then (s, .enqueue (.returns false false))
    else
      ({ s with items := BoundedQueue.offer policy capacity s.items (if d.write = none then some ev else none) },
        .enqueue (enqueueOutcome policy (s.items.length < capacity) (d.write ≠ none)))
  | .dequeue live _ =>
    if s.items = [] ∧ s.closed = false ∧ live then (s, .dequeue .waits)
    else
      ({ s with items := (s.items.dropWhile skip).tail },
        .dequeue (.returns ((s.items.dropWhile skip).head?.map stored)))
  | .depth => (s, .depth s.items.length)
  | .close => ({ s with closed := true }, .close)

end Fifo

namespace FileQueue

/-! ### The log -/

/-- The bytes between the cursors. -/
def region (q : FileQueue) : Bytes := ((q.f.getD []).drop q.readOff).take (q.writeOff - q.readOff)

/-- The records `ps` are what is between the cursors. A released file has none. -/
structure Log (q : FileQueue) (ps : List Bytes) : Prop where
  count : q.count = ps.length
  writeOff : q.writeOff = q.readOff + (frames ps).length
  file : (q.f = none ∧ ps = [] ∧ q.closed = true) ∨ ∃ file, q.f = some file ∧ Holds file q.readOff ps

namespace Log

variable {q : FileQueue} {d : Disk} {p : Bytes} {ps : List Bytes}

theorem region (h : q.Log ps) : q.region = frames ps := by
  rw [FileQueue.region, h.writeOff, Nat.add_sub_cancel_left]
  rcases h.file with ⟨hf, rfl, _⟩ | ⟨file, hf, hold⟩
  · rw [frames_nil, List.length_nil, List.take_zero]
  · rw [hf, Option.getD_some, hold.region]

theorem holds (h : q.Log ps) (ho : q.closed = false ∨ ps ≠ []) :
    ∃ file, q.f = some file ∧ Holds file q.readOff ps := by
  rcases h.file with ⟨_, hnil, hc⟩ | hfile
  · rcases ho with ho | ho
    · rw [hc] at ho
      cases ho
    · exact absurd hnil ho
  · exact hfile

theorem compactIfDrained (h : q.Log ps) (d : Disk) : (q.compactIfDrained d).Log ps := by
  unfold FileQueue.compactIfDrained
  by_cases hc : q.count = 0
  · have hnil : ps = [] := List.length_eq_zero_iff.mp (h.count.symm.trans hc)
    subst hnil
    rw [if_neg (not_not.mpr hc)]
    by_cases hcl : q.closed = true
    · rw [if_pos hcl]
      exact ⟨h.count, h.writeOff, Or.inl ⟨rfl, rfl, hcl⟩⟩
    · rw [if_neg hcl]
      obtain ⟨file, hf, _⟩ := h.holds (Or.inl (by simpa using hcl))
      refine ⟨h.count, rfl, Or.inr ?_⟩
      rw [hf]
      by_cases ht : d.truncate = true
      · exact ⟨[], by rw [if_pos ht]; rfl, Holds.nil (Nat.zero_le _)⟩
      · exact ⟨file, by rw [if_neg ht], Holds.nil (Nat.zero_le _)⟩
  · rw [if_pos hc]
    exact h

/-- A record that is written is appended. -/
theorem store (h : q.Log ps) (ho : q.closed = false) (hw : d.write = none) (dropped : Bool) :
    (q.store d p dropped).1.Log (ps ++ [p]) ∧ (q.store d p dropped).2 = .returns dropped dropped := by
  obtain ⟨file, hf, hold⟩ := h.holds (Or.inl ho)
  have hs : q.store d p dropped = ({ q with
      f := some (writeAt file q.writeOff (frame p))
      writeOff := q.writeOff + (headerLen + p.length)
      count := q.count + 1 }, .returns dropped dropped) := by
    simp only [FileQueue.store, writeRecord, hf, hw]
  rw [hs]
  refine ⟨⟨?_, ?_, Or.inr ⟨_, rfl, ?_⟩⟩, rfl⟩
  · rw [List.length_append, List.length_singleton, h.count]
  · rw [frames_concat, List.length_append, length_frame, h.writeOff, Nat.add_assoc]
  · rw [h.writeOff]
    exact hold.append p

/-- A record whose write fails is not. -/
theorem store_failed {k : ℕ} (h : q.Log ps) (ho : q.closed = false) (hw : d.write = some k) (dropped : Bool) :
    (q.store d p dropped).1.Log ps ∧ (q.store d p dropped).2 = .returns true true := by
  obtain ⟨file, hf, hold⟩ := h.holds (Or.inl ho)
  have hs : q.store d p dropped =
      ({ q with f := some (writeAt file q.writeOff ((frame p).take k)) }, .returns true true) := by
    simp only [FileQueue.store, writeRecord, hf, hw]
  rw [hs]
  refine ⟨⟨h.count, h.writeOff, Or.inr ⟨_, rfl, ?_⟩⟩, rfl⟩
  rw [h.writeOff]
  exact hold.scribble _

theorem readLenAt (h : q.Log (p :: ps)) (hp : p.length < 256 ^ headerLen) :
    q.readLenAt true q.readOff = some p.length := by
  obtain ⟨file, hf, hold⟩ := h.holds (Or.inr (List.cons_ne_nil p ps))
  rw [FileQueue.readLenAt, readBytes, if_pos rfl, hf, Option.bind_some, hold.header hp]

theorem readBytes (h : q.Log (p :: ps)) : q.readBytes true (q.readOff + headerLen) p.length = some p := by
  obtain ⟨file, hf, hold⟩ := h.holds (Or.inr (List.cons_ne_nil p ps))
  rw [FileQueue.readBytes, if_pos rfl, hf, Option.bind_some, hold.payload]

/-- Past the first record. -/
theorem rest (h : q.Log (p :: ps)) :
    ({ q with readOff := q.readOff + (headerLen + p.length), count := ps.length } : FileQueue).Log ps := by
  obtain ⟨file, hf, hold⟩ := h.holds (Or.inr (List.cons_ne_nil p ps))
  refine ⟨rfl, ?_, Or.inr ⟨file, hf, hold.rest⟩⟩
  rw [Nat.add_assoc, ← length_frame, ← List.length_append, ← frames_cons]
  exact h.writeOff

theorem dropOldest (h : q.Log (p :: ps)) (hp : p.length < 256 ^ headerLen) (hr : d.read 0 = true) :
    q.dropOldest d = some (({ q with
      readOff := q.readOff + (headerLen + p.length)
      count := ps.length } : FileQueue).compactIfDrained d) := by
  have hc : q.count - 1 = ps.length := by rw [h.count, List.length_cons, Nat.add_sub_cancel]
  rw [FileQueue.dropOldest, hr, h.readLenAt hp, Option.map_some, hc]

end Log

/-- A record that `Dequeue` skips for its length. -/
def oversize (ev : SQLEvent) : Bool := maxFramePayload < (encodeBinary ev).length

/-- What no step but `Close` changes. -/
def SameConfig (q q' : FileQueue) : Prop :=
  q'.capacity = q.capacity ∧ q'.overflow = q.overflow ∧ q'.closed = q.closed

theorem sameConfig_compactIfDrained (q : FileQueue) (d : Disk) : SameConfig q (q.compactIfDrained d) := by
  unfold compactIfDrained releaseLocked
  split_ifs <;> exact ⟨rfl, rfl, rfl⟩

theorem sameConfig_store (q : FileQueue) (d : Disk) (p : Bytes) (dropped : Bool) :
    SameConfig q (q.store d p dropped).1 := by
  unfold store writeRecord
  cases q.f <;> cases d.write <;> exact ⟨rfl, rfl, rfl⟩

theorem sameConfig_loop (d : Disk) : ∀ (n i : ℕ) (q : FileQueue), SameConfig q (loop d n i q).1
  | 0, _, _ => ⟨rfl, rfl, rfl⟩
  | n + 1, i, q => by
    unfold loop
    split
    · exact sameConfig_loop d n _ { q with readOff := q.readOff + headerLen, count := n }
    · rename_i len _
      have hpast := fun i => sameConfig_loop d n i { q with readOff := q.readOff + (headerLen + len), count := n }
      dsimp only
      split_ifs
      · exact hpast _
      · split
        · exact hpast _
        · split
          · exact ⟨rfl, rfl, rfl⟩
          · exact hpast _
          · exact sameConfig_compactIfDrained { q with readOff := q.readOff + (headerLen + len), count := n } d

/-- **The loop of `Dequeue`** returns the first event that is not skipped and
leaves the records behind it. -/
theorem loop_log {d : Disk} (hd : ∀ i, d.read i = true) :
    ∀ (evs : List SQLEvent) (i : ℕ) (q : FileQueue), q.Log (evs.map encodeBinary) →
      (∀ ev ∈ evs, (encodeBinary ev).length < 256 ^ headerLen) →
      (loop d evs.length i q).1.Log ((evs.dropWhile oversize).tail.map encodeBinary) ∧
        (loop d evs.length i q).2 = .returns ((evs.dropWhile oversize).head?.map stored)
  | [], _, _, h, _ => ⟨h, rfl⟩
  | ev :: evs, i, q, h, hsize => by
    have hev := hsize ev List.mem_cons_self
    have hlen : (evs.map encodeBinary).length = evs.length := List.length_map _
    have hrest := h.rest
    rw [hlen] at hrest
    rw [List.length_cons, loop, hd, h.readLenAt hev]
    dsimp only
    by_cases hbig : maxFramePayload < (encodeBinary ev).length
    · rw [if_pos hbig, List.dropWhile_cons_of_pos (by simpa [oversize] using hbig)]
      exact loop_log hd evs _ _ hrest fun e he => hsize e (List.mem_cons_of_mem ev he)
    · have hdec := decode_encode (encodable_of_length hev)
      rw [if_neg hbig, List.dropWhile_cons_of_neg (by simpa [oversize] using hbig), hd, h.readBytes]
      dsimp only
      rw [hdec]
      exact ⟨hrest.compactIfDrained d, rfl⟩

/-! ### Refinement -/

/-- The queue holds the events of `s`. -/
structure Refines (cap : ℕ) (policy : OverflowPolicy) (q : FileQueue) (s : Fifo) : Prop where
  capacity : q.capacity = cap
  overflow : q.overflow = policy
  closed : q.closed = s.closed
  log : q.Log (s.items.map encodeBinary)
  sizes : ∀ ev ∈ s.items, (encodeBinary ev).length < 256 ^ headerLen
  bound : s.items.length ≤ cap

/-- Every read of the call succeeds, and the length of a record that is written
fits its prefix. -/
def Op.Fits : Op → Prop
  | .enqueue ev d => (∀ i, d.read i = true) ∧ (encodeBinary ev).length < 256 ^ headerLen
  | .dequeue _ d => ∀ i, d.read i = true
  | .depth => True
  | .close => True

section Refinement

variable {cap : ℕ} {policy : OverflowPolicy} {q : FileQueue} {s : Fifo}

theorem Refines.count (h : Refines cap policy q s) : q.count = s.items.length := by
  rw [h.log.count, List.length_map]

/-- Storing a record, with `l` the events that are buffered when it is written. -/
theorem Refines.store (h : Refines cap policy q s) (ho : s.closed = false) {l : List SQLEvent} {q' : FileQueue}
    (hc : SameConfig q q') (hl : q'.Log (l.map encodeBinary)) (hsub : ∀ e ∈ l, e ∈ s.items)
    {ev : SQLEvent} (hev : (encodeBinary ev).length < 256 ^ headerLen) (d : Disk) (dropped : Bool)
    (hlen : (l ++ (if d.write = none then some ev else none).toList).length ≤ cap) :
    Refines cap policy (q'.store d (encodeBinary ev) dropped).1
        { s with items := l ++ (if d.write = none then some ev else none).toList } ∧
      (q'.store d (encodeBinary ev) dropped).2 =
        .returns (dropped || d.write ≠ none) (dropped || d.write ≠ none) := by
  obtain ⟨h1, h2, h3⟩ := sameConfig_store q' d (encodeBinary ev) dropped
  have ho' : q'.closed = false := by rw [hc.2.2, h.closed, ho]
  have hconf : ∀ l' : List SQLEvent, (q'.store d (encodeBinary ev) dropped).1.Log (l'.map encodeBinary) →
      (∀ e ∈ l', e ∈ s.items ∨ e = ev) → l'.length ≤ cap →
      Refines cap policy (q'.store d (encodeBinary ev) dropped).1 { s with items := l' } := by
    intro l' hlog hmem hlen'
    refine ⟨by rw [h1, hc.1, h.capacity], by rw [h2, hc.2.1, h.overflow], by rw [h3, hc.2.2, h.closed], hlog,
      fun e he => ?_, hlen'⟩
    rcases hmem e he with he | rfl
    · exact h.sizes e he
    · exact hev
  rcases hw : d.write with _ | k
  · obtain ⟨hlog, hout⟩ := hl.store (p := encodeBinary ev) ho' hw dropped
    rw [hw] at hlen
    refine ⟨hconf _ ?_ ?_ hlen, ?_⟩
    · rw [if_pos rfl, Option.toList_some, List.map_append, List.map_singleton]
      exact hlog
    · intro e he
      rw [if_pos rfl, Option.toList_some, List.mem_append, List.mem_singleton] at he
      exact he.imp_left (hsub e)
    · rw [hout]
      simp
  · obtain ⟨hlog, hout⟩ := hl.store_failed (p := encodeBinary ev) ho' hw dropped
    rw [hw] at hlen
    refine ⟨hconf _ ?_ ?_ hlen, ?_⟩
    · rw [if_neg (by simp), Option.toList_none, List.append_nil]
      exact hlog
    · intro e he
      rw [if_neg (by simp), Option.toList_none, List.append_nil] at he
      exact Or.inl (hsub e he)
    · rw [hout]
      simp

theorem Refines.enqueue (hcap : 0 < cap) (h : Refines cap policy q s) {ev : SQLEvent} {d : Disk}
    (hd : ∀ i, d.read i = true) (hev : (encodeBinary ev).length < 256 ^ headerLen) (skip : SQLEvent → Bool) :
    Refines cap policy (q.step (.enqueue ev d)).1 (s.step skip cap policy (.enqueue ev d)).1 ∧
      (q.step (.enqueue ev d)).2 = (s.step skip cap policy (.enqueue ev d)).2 := by
  simp only [step, FileQueue.enqueue, enqueueBytes, Fifo.step, h.closed]
  by_cases hc : s.closed = true
  · rw [if_pos hc, if_pos hc]
    exact ⟨h, rfl⟩
  · have ho : s.closed = false := by simpa using hc
    have hlen := BoundedQueue.length_offer_le (p := policy) hcap h.bound (if d.write = none then some ev else none)
    unfold BoundedQueue.offer at hlen
    unfold Fifo.enqueueOutcome BoundedQueue.offer
    rw [if_neg hc, if_neg hc, h.count, h.capacity, h.overflow]
    by_cases hroom : s.items.length < cap
    · rw [if_pos hroom] at hlen
      obtain ⟨h1, h2⟩ := h.store ho ⟨rfl, rfl, rfl⟩ h.log (fun _ he => he) hev d false hlen
      rw [if_pos hroom, if_pos hroom, decide_eq_true hroom, if_pos rfl]
      exact ⟨h1, by rw [h2, Bool.false_or]⟩
    · have hfull : s.items.length = cap := le_antisymm h.bound (not_lt.mp hroom)
      rw [if_neg hroom] at hlen
      rw [if_neg hroom, if_neg hroom, decide_eq_false hroom, if_neg Bool.false_ne_true]
      rcases policy with _ | _ | _
      · have hwait : q.count = q.capacity ∧ q.closed = false := by
          rw [h.count, h.capacity, h.closed]
          exact ⟨hfull, ho⟩
        dsimp only
        rw [resume, if_pos hwait]
        exact ⟨h, rfl⟩
      · exact ⟨h, rfl⟩
      · obtain ⟨old, rest, hitems⟩ := List.exists_cons_of_length_pos (hfull ▸ hcap)
        have hlog : q.Log (encodeBinary old :: rest.map encodeBinary) := by
          rw [← List.map_cons, ← hitems]
          exact h.log
        have hold : (encodeBinary old).length < 256 ^ headerLen := h.sizes old (by simp [hitems])
        have hconf := sameConfig_compactIfDrained
          { q with readOff := q.readOff + (headerLen + (encodeBinary old).length)
                   count := (rest.map encodeBinary).length } d
        dsimp only at hlen ⊢
        rw [hitems, List.tail_cons] at hlen
        obtain ⟨h1, h2⟩ := h.store ho hconf (hlog.rest.compactIfDrained d) (fun e he => by simp [hitems, he])
          hev d true hlen
        rw [hlog.dropOldest hold (hd 0), hitems, List.tail_cons]
        exact ⟨h1, by rw [h2]; rfl⟩

theorem Refines.dequeue (h : Refines cap policy q s) (live : Bool) {d : Disk} (hd : ∀ i, d.read i = true) :
    Refines cap policy (q.step (.dequeue live d)).1 (s.step oversize cap policy (.dequeue live d)).1 ∧
      (q.step (.dequeue live d)).2 = (s.step oversize cap policy (.dequeue live d)).2 := by
  have hnil : q.count = 0 ↔ s.items = [] := by rw [h.count, List.length_eq_zero_iff]
  simp only [step, FileQueue.dequeue, Fifo.step, h.closed, hnil]
  by_cases hw : s.items = [] ∧ s.closed = false ∧ live = true
  · rw [if_pos hw, if_pos hw]
    exact ⟨h, rfl⟩
  · obtain ⟨h1, h2⟩ := loop_log hd s.items 0 q h.log h.sizes
    obtain ⟨c1, c2, c3⟩ := sameConfig_loop d s.items.length 0 q
    have hsuffix : (s.items.dropWhile oversize).tail <:+ s.items :=
      (List.tail_suffix _).trans (List.dropWhile_suffix _)
    rw [if_neg hw, if_neg hw, h.count]
    refine ⟨⟨c1.trans h.capacity, c2.trans h.overflow, c3.trans h.closed, h1, ?_, ?_⟩, by rw [h2]⟩
    · exact fun e he => h.sizes e (hsuffix.mem he)
    · exact hsuffix.length_le.trans h.bound

theorem Refines.close (h : Refines cap policy q s) (skip : SQLEvent → Bool) :
    Refines cap policy (q.step .close).1 (s.step skip cap policy .close).1 ∧
      (q.step .close).2 = (s.step skip cap policy .close).2 := by
  refine ⟨?_, rfl⟩
  simp only [step, FileQueue.close, Fifo.step]
  have hfile := h.log.file
  by_cases hc : q.closed = true
  · rw [if_pos hc]
    exact ⟨h.capacity, h.overflow, hc, h.log, h.sizes, h.bound⟩
  · have ho : q.closed = false := by simpa using hc
    obtain ⟨file, hf, hold⟩ := h.log.holds (Or.inl ho)
    rw [if_neg hc]
    by_cases h0 : q.count = 0
    · have hnil : s.items.map encodeBinary = [] := List.length_eq_zero_iff.mp (h.log.count.symm.trans h0)
      rw [if_pos h0]
      exact ⟨h.capacity, h.overflow, rfl, ⟨h.log.count, h.log.writeOff, Or.inl ⟨rfl, hnil, rfl⟩⟩, h.sizes, h.bound⟩
    · rw [if_neg h0]
      exact ⟨h.capacity, h.overflow, rfl, ⟨h.log.count, h.log.writeOff, Or.inr ⟨file, hf, hold⟩⟩, h.sizes, h.bound⟩

theorem refines_new (cap : ℕ) (policy : OverflowPolicy) : Refines cap policy (new cap policy) {} :=
  ⟨rfl, rfl, rfl, ⟨rfl, rfl, Or.inr ⟨[], rfl, Holds.nil le_rfl⟩⟩, by simp, Nat.zero_le _⟩

/-- **The file queue refines the queue of events** that skips oversize records,
whatever part of a frame a failing write leaves. -/
theorem refines (hcap : 0 < cap) (policy : OverflowPolicy) {ops : List Op} (hops : ∀ op ∈ ops, op.Fits) :
    Refines cap policy (Machine.final step (new cap policy) ops)
        (Machine.final (Fifo.step oversize cap policy) {} ops) ∧
      Machine.outs step (new cap policy) ops = Machine.outs (Fifo.step oversize cap policy) {} ops := by
  refine Machine.simulation_on ops (fun op hop q s h => ?_) _ _ (refines_new cap policy)
  have hfits := hops op hop
  rcases op with ⟨ev, d⟩ | ⟨live, d⟩ | _ | _
  · exact h.enqueue hcap hfits.1 hfits.2 _
  · exact h.dequeue live hfits
  · exact ⟨h, congrArg Result.depth h.count⟩
  · exact h.close _

/-- Every read of the call succeeds, and a record that is written is at most
`maxFramePayload` long. -/
def Op.Sound : Op → Prop
  | .enqueue ev d => (∀ i, d.read i = true) ∧ (encodeBinary ev).length ≤ maxFramePayload
  | .dequeue _ d => ∀ i, d.read i = true
  | .depth => True
  | .close => True

theorem Op.Sound.fits : ∀ {op : Op}, op.Sound → op.Fits
  | .enqueue _ _, h => ⟨h.1, lt_of_le_of_lt h.2 (by decide)⟩
  | .dequeue _ _, h => h
  | .depth, h => h
  | .close, h => h

/-- As long as no buffered event is skipped, `skip` does not matter. -/
theorem step_unskipped {skip skip' : SQLEvent → Bool} {op : Op} (hs : ∀ ev ∈ s.items, skip ev = false)
    (hs' : ∀ ev ∈ s.items, skip' ev = false) : s.step skip cap policy op = s.step skip' cap policy op := by
  have hdrop : ∀ f : SQLEvent → Bool, (∀ ev ∈ s.items, f ev = false) → s.items.dropWhile f = s.items := by
    intro f hf
    cases hl : s.items with
    | nil => rfl
    | cons ev evs => exact List.dropWhile_cons_of_neg (by simp [hf ev (by simp [hl])])
  rcases op with ⟨ev, d⟩ | ⟨live, d⟩ | _ | _
  · rfl
  · simp only [Fifo.step, hdrop skip hs, hdrop skip' hs']
  · rfl
  · rfl

/-- A step buffers nothing but what was buffered and the event of the call. -/
theorem mem_items_step {skip : SQLEvent → Bool} {op : Op} {ev : SQLEvent}
    (h : ev ∈ (s.step skip cap policy op).1.items) : ev ∈ s.items ∨ ∃ d, op = .enqueue ev d := by
  rcases op with ⟨e, d⟩ | ⟨live, d⟩ | _ | _
  · simp only [Fifo.step] at h
    split_ifs at h
    · exact Or.inl h
    · rcases BoundedQueue.mem_offer h with h | h
      · exact Or.inl h
      · cases h
        exact Or.inr ⟨d, rfl⟩
    · rcases BoundedQueue.mem_offer h with h | h
      · exact Or.inl h
      · cases h
  · simp only [Fifo.step] at h
    split_ifs at h
    · exact Or.inl h
    · exact Or.inl (((List.tail_suffix _).trans (List.dropWhile_suffix _)).mem h)
  · exact Or.inl h
  · exact Or.inl h

/-- With no record over the limit, nothing is ever skipped. -/
theorem run_unskipped (cap : ℕ) (policy : OverflowPolicy) {ops : List Op} (hops : ∀ op ∈ ops, op.Sound) :
    Machine.final (Fifo.step oversize cap policy) {} ops =
        Machine.final (Fifo.step (fun _ => false) cap policy) {} ops ∧
      Machine.outs (Fifo.step oversize cap policy) {} ops =
        Machine.outs (Fifo.step (fun _ => false) cap policy) {} ops := by
  let R : Fifo → Fifo → Prop := fun s t => s = t ∧ ∀ ev ∈ s.items, oversize ev = false
  have hstep : ∀ op ∈ ops, ∀ s t, R s t →
      R (s.step oversize cap policy op).1 (t.step (fun _ => false) cap policy op).1 ∧
        (s.step oversize cap policy op).2 = (t.step (fun _ => false) cap policy op).2 := by
    rintro op hop s _ ⟨rfl, hs⟩
    have heq : s.step oversize cap policy op = s.step (fun _ => false) cap policy op :=
      step_unskipped hs fun _ _ => rfl
    refine ⟨⟨by rw [heq], fun ev hev => ?_⟩, by rw [heq]⟩
    rcases mem_items_step hev with hev | ⟨d, rfl⟩
    · exact hs ev hev
    · simpa [oversize] using (hops _ hop).2
  obtain ⟨hR, houts⟩ := Machine.simulation_on ops hstep {} {} ⟨rfl, by simp⟩
  exact ⟨hR.1, houts⟩

/-- **The log is a bounded FIFO.** Between the cursors stand the frames of the
buffered events, as many as `count` says and at most `capacity`; every call
acts on them as on a queue: it appends, drops the newcomer, drops the oldest
and appends, or takes the first, and appends nothing when its write fails. -/
theorem file_queue_fifo {capacity : ℕ} (hcap : 0 < capacity) (policy : OverflowPolicy) (ops : List Op)
    (hops : ∀ op ∈ ops, op.Sound) :
    let q := Machine.final step (new capacity policy) ops
    let s := Machine.final (Fifo.step (fun _ => false) capacity policy) {} ops
    q.region = frames (s.items.map encodeBinary) ∧ q.count = s.items.length ∧ s.items.length ≤ capacity ∧
      Machine.outs step (new capacity policy) ops =
        Machine.outs (Fifo.step (fun _ => false) capacity policy) {} ops := by
  obtain ⟨h, hout⟩ := refines hcap policy fun op hop => (hops op hop).fits
  obtain ⟨hfinal, houts⟩ := run_unskipped capacity policy hops
  rw [← hfinal, ← houts]
  exact ⟨h.log.region, h.count, h.bound, hout⟩

end Refinement

/-- A small event, for the examples of this development. -/
def someEvent : SQLEvent := { conn := ⟨.v4 1, 50000, .v4 2, 5432⟩, sql := bytes "SELECT 1", timestamp := 0 }

/-- The oldest event makes room, then the write of the newcomer fails halfway
through the header: nothing is left. -/
theorem file_queue_fifo_failed_write :
    let ops : List Op := [.enqueue someEvent {}, .enqueue someEvent { write := some 3 }, .dequeue true {}]
    (∀ op ∈ ops, op.Sound) ∧ (Machine.final step (new 1 .dropOldest) ops).region = [] ∧
      Machine.outs step (new 1 .dropOldest) ops =
        [.enqueue (.returns false false), .enqueue (.returns true true), .dequeue .waits] := by
  have hsmall : (encodeBinary someEvent).length ≤ maxFramePayload := by decide +kernel
  have hops : ∀ op ∈ ([.enqueue someEvent {}, .enqueue someEvent { write := some 3 }, .dequeue true {}] : List Op),
      op.Sound := by
    simp only [List.forall_mem_cons, Op.Sound, implies_true, hsmall, true_and, List.not_mem_nil, false_implies]
  obtain ⟨h1, -, -, h4⟩ := file_queue_fifo Nat.one_pos .dropOldest _ hops
  refine ⟨hops, h1.trans ?_, h4.trans ?_⟩
  · rfl
  · decide +kernel

/-! ### When `Dequeue` answers that there is nothing more -/

/-- `replayer.Run` leaves its loop at a `Dequeue` that is not ok. -/
def runContinues : DequeueOutcome → Bool
  | .returns none => false
  | _ => true

/-- A `Dequeue` is not ok if every buffered record is skipped, unless it waits;
then nothing is left. -/
theorem Refines.dequeue_none {cap : ℕ} {policy : OverflowPolicy} {q : FileQueue} {s : Fifo}
    (h : Refines cap policy q s) (live : Bool) {d : Disk} (hd : ∀ i, d.read i = true) :
    ((q.dequeue live d).2 = .returns none ↔
        (∀ ev ∈ s.items, oversize ev = true) ∧ ¬ (s.items = [] ∧ s.closed = false ∧ live = true)) ∧
      ((q.dequeue live d).2 = .returns none → (q.dequeue live d).1.count = 0) ∧
      (q.dequeue live d).1.closed = s.closed := by
  obtain ⟨h1, h2⟩ := h.dequeue live hd
  have hcount := h1.count
  have hclosed := h1.closed
  simp only [step, Fifo.step] at h2 hcount hclosed
  by_cases hw : s.items = [] ∧ s.closed = false ∧ live = true
  · rw [if_pos hw, Result.dequeue.injEq] at h2
    rw [if_pos hw] at hclosed
    rw [h2]
    exact ⟨⟨nofun, fun hno => absurd hw hno.2⟩, nofun, hclosed⟩
  · rw [if_neg hw, Result.dequeue.injEq] at h2
    rw [if_neg hw] at hcount hclosed
    rw [h2, hcount, DequeueOutcome.returns.injEq, Option.map_eq_none_iff, List.head?_eq_none_iff,
      List.dropWhile_eq_nil_iff]
    refine ⟨⟨fun hall => ⟨hall, hw⟩, fun hall => hall.1⟩, fun hall => ?_, hclosed⟩
    rw [List.dropWhile_eq_nil_iff.mpr hall, List.tail_nil, List.length_nil]

/-- **When a `Dequeue` that is not ok means the end.** After any calls, with
reads that succeed: it returns not ok only if the queue is closed and drained
or the context is cancelled, and the replayer goes on otherwise, exactly if it
does not meet an open queue, a live context and buffered records that are all
over `maxFramePayload`. -/
theorem dequeue_ends_iff {capacity : ℕ} (hcap : 0 < capacity) (policy : OverflowPolicy) (ops : List Op)
    (hops : ∀ op ∈ ops, op.Fits) (live : Bool) (d : Disk) (hd : ∀ i, d.read i = true) :
    let q := Machine.final step (new capacity policy) ops
    let buffered := (Machine.final (Fifo.step oversize capacity policy) {} ops).items
    let q' := (q.dequeue live d).1
    ((q.dequeue live d).2 = .returns none → q'.closed = true ∧ q'.count = 0 ∨ live = false) ∧
        (runContinues (q.dequeue live d).2 = false → ¬ (q'.closed = false ∧ live = true)) ↔
      ¬ (q.closed = false ∧ live = true ∧ buffered ≠ [] ∧
          ∀ ev ∈ buffered, maxFramePayload < (encodeBinary ev).length) := by
  obtain ⟨h, -⟩ := refines hcap policy hops
  obtain ⟨hnone, hcount, hclosed⟩ := h.dequeue_none live hd
  intro q buffered q'
  have hopen : q'.closed = q.closed := hclosed.trans h.closed.symm
  have hrun : ∀ o, runContinues o = false → o = .returns none := by
    rintro (_ | (_ | ev) | _) ho
    · cases ho
    · rfl
    · cases ho
    · cases ho
  constructor
  · rintro ⟨hend, -⟩ ⟨ho, hl, hne, hbig⟩
    have hn := hnone.mpr ⟨fun ev hev => by simpa [oversize] using hbig ev hev, fun hw => hne hw.1⟩
    rcases hend hn with ⟨hc, -⟩ | hl'
    · rw [hopen, ho] at hc
      cases hc
    · rw [hl] at hl'
      cases hl'
  · intro hno
    have hend : (q.dequeue live d).2 = .returns none → ¬ (q'.closed = false ∧ live = true) := by
      rintro hn ⟨ho, hl⟩
      obtain ⟨hbig, hw⟩ := hnone.mp hn
      refine hno ⟨hopen ▸ ho, hl, fun hnil => hw ⟨hnil, hclosed ▸ ho, hl⟩, fun ev hev => ?_⟩
      simpa [oversize] using hbig ev hev
    refine ⟨fun hn => ?_, fun hr => hend (hrun _ hr)⟩
    by_cases hl : live = true
    · have hc : q'.closed ≠ false := fun hc => hend hn ⟨hc, hl⟩
      exact Or.inl ⟨by simpa using hc, hcount hn⟩
    · exact Or.inr (by simpa using hl)

/-- A queue whose oldest record is small: the call returns it. -/
theorem dequeue_ends_small :
    let ops : List Op := [.enqueue someEvent {}]
    let q := Machine.final step (new 1 .block) ops
    (∀ op ∈ ops, op.Fits) ∧ runContinues (q.dequeue true {}).2 = true ∧
      ((q.dequeue true {}).2 = .returns none →
        (q.dequeue true {}).1.closed = true ∧ (q.dequeue true {}).1.count = 0 ∨ true = false) := by
  have hops : ∀ op ∈ ([.enqueue someEvent {}] : List Op), op.Fits := by
    simp only [List.forall_mem_cons, Op.Fits, implies_true, true_and, List.not_mem_nil, false_implies, and_true]
    decide +kernel
  refine ⟨hops, by decide +kernel, ((dequeue_ends_iff Nat.one_pos .block _ hops true {} fun _ => rfl).mpr ?_).1⟩
  rintro ⟨-, -, -, hbig⟩
  exact absurd (hbig someEvent (by decide +kernel)) (by decide +kernel)

/-- A COPY of `n` bytes in one message. -/
def copyOf (n : ℕ) : SQLEvent := { someEvent with copyData := [List.replicate n 0] }

theorem length_encodeBinary_copyOf (n : ℕ) : (encodeBinary (copyOf n)).length = n + 75 := by
  have h := length_encodeBinary (copyOf n)
  have he : estimateEventSize (copyOf n) = estimateEventSize someEvent + (4 + n) := by
    simp only [estimateEventSize, copyOf, someEvent, List.map_cons, List.map_nil, List.sum_cons, List.sum_nil,
      List.length_replicate]
    omega
  have h1 : estimateEventSize someEvent = 95 := by decide +kernel
  have h2 : (encodeAddr (copyOf n).conn.srcIP).length = 5 := rfl
  have h3 : (encodeAddr (copyOf n).conn.dstIP).length = 5 := rfl
  omega

/-- The only record buffered is over the limit. -/
theorem dequeue_sole_oversize {ev : SQLEvent} (hbig : maxFramePayload < (encodeBinary ev).length)
    (hlen : (encodeBinary ev).length < 256 ^ headerLen) :
    let q := Machine.final step (new 1 .block) [.enqueue ev {}]
    q.closed = false ∧ q.count = 1 ∧ (q.dequeue true {}).2 = .returns none ∧
      (q.dequeue true {}).1.closed = false ∧ runContinues (q.dequeue true {}).2 = false := by
  have hops : ∀ op ∈ ([.enqueue ev {}] : List Op), op.Fits := by
    simp only [List.forall_mem_cons, Op.Fits, implies_true, true_and, List.not_mem_nil, false_implies, and_true]
    exact hlen
  obtain ⟨h, -⟩ := refines Nat.one_pos .block hops
  obtain ⟨hnone, -, hclosed⟩ := h.dequeue_none true (d := {}) fun _ => rfl
  have hn := hnone.mpr ⟨fun e he => ?_, fun hw => List.cons_ne_nil ev [] hw.1⟩
  · refine ⟨h.closed, h.count, hn, hclosed, ?_⟩
    rw [hn]
    rfl
  · obtain rfl : e = ev := List.mem_singleton.mp he
    simpa [oversize] using hbig

/-- **Counterexample**: the only record buffered is a COPY of 64 MiB, a quarter
of what the capture side lets through. `Dequeue` skips it and returns not ok on
an open queue with a live context, and the replayer stops. -/
theorem dequeue_ends_early :
    let q := Machine.final step (new 1 .block) [.enqueue (copyOf 67108864) {}]
    q.closed = false ∧ q.count = 1 ∧ (q.dequeue true {}).2 = .returns none ∧
      (q.dequeue true {}).1.closed = false ∧ runContinues (q.dequeue true {}).2 = false := by
  refine dequeue_sole_oversize ?_ ?_
  · rw [length_encodeBinary_copyOf]
    decide
  · rw [length_encodeBinary_copyOf]
    decide

end FileQueue
end PgShadow
