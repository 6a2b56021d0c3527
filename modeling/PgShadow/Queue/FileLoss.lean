/-
# What the file queue loses

The collector is told of an event that the file queue gives up, but not on every
path of `pkg/queue/filequeue.go`. An `Enqueue` that evicts loses the newcomer
without notice when the length of the oldest record cannot be read, and loses two
events with one notice when the write fails after the eviction. A `Dequeue` passes
over a record it cannot read, that is over `maxFramePayload`, or that the codec
refuses, without any notice.

No call makes up for what another has lost, so the events of a run are all
accounted for exactly if every call of it keeps what it has (`accounted_iff`).

Key definitions: `FileQueue.frameReadable`, `FileQueue.keeps`, `FileQueue.KeepsRun`.
Key theorems: `account_step`, `account_run`, `accounted_iff`.
-/
import PgShadow.Queue.FileQueue

namespace PgShadow

open FramedLog

namespace FileQueue

/-- An `Enqueue` that returned. -/
def Result.enqueued : Result → Bool
  | .enqueue (.returns _ _) => true
  | _ => false

/-- A `Dequeue` that returned an event. -/
def Result.dequeued : Result → Bool
  | .dequeue (.returns ev) => ev.isSome
  | _ => false

/-- An `Enqueue` that called `recordOverflow`. -/
def Result.notified : Result → Bool
  | .enqueue (.returns _ n) => n
  | _ => false

/-- The record at the read cursor can be read, has at most `maxFramePayload` bytes,
and the codec does not refuse it. -/
def frameReadable (q : FileQueue) (d : Disk) : Bool :=
  match q.readLenAt (d.read 0) q.readOff with
  | none => false
  | some len =>
    if maxFramePayload < len then false
    else
      match q.readBytes (d.read 1) (q.readOff + headerLen) len with
      | none => false
      | some payload =>
        match decodeBinary payload with
        | .error (.refused _) => false
        | _ => true

/-- The call loses no event without notice: an `Enqueue` that evicts can read the
length of the oldest record and write its own, and a `Dequeue` finds nothing or a
record it can read. -/
def keeps (q : FileQueue) : Op → Bool
  | .enqueue _ d =>
    q.count < q.capacity || q.overflow ≠ .dropOldest ||
      ((q.readLenAt (d.read 0) q.readOff).isSome && d.write.isNone)
  | .dequeue _ d => q.count == 0 || q.frameReadable d
  | _ => true

/-- Every call of the run does so. -/
def KeepsRun (q : FileQueue) (ops : List Op) : Prop :=
  Machine.Along (fun q op => (q.step op).1) (fun q op => q.keeps op = true) q ops

instance (q : FileQueue) (ops : List Op) : Decidable (KeepsRun q ops) :=
  inferInstanceAs (Decidable (Machine.Along _ _ q ops))

/-! ### One call -/

/-- The account of a call that answers `o` and leaves `count'` records: no more
comes out than went in, and as much exactly if the call keeps its events. -/
def Account (count count' : ℕ) (o : Result) (kept : Prop) : Prop :=
  count' + o.dequeued.toNat + o.notified.toNat ≤ count + o.enqueued.toNat ∧
    (count + o.enqueued.toNat ≤ count' + o.dequeued.toNat + o.notified.toNat ↔ kept)

theorem count_compactIfDrained (q : FileQueue) (d : Disk) : (q.compactIfDrained d).count = q.count := by
  unfold compactIfDrained releaseLocked
  split_ifs <;> rfl

/-- A record is stored, or the collector is told. -/
theorem account_store (q : FileQueue) (d : Disk) (p : Bytes) :
    Account q.count (q.store d p false).1.count (.enqueue (q.store d p false).2) True := by
  unfold store writeRecord
  rcases q.f with _ | file <;> rcases d.write with _ | k <;> exact ⟨le_rfl, iff_of_true le_rfl trivial⟩

/-- After an eviction, one event is gone with notice; a second one if the write
fails. -/
theorem account_evict {q r : FileQueue} {d : Disk} (p : Bytes) (hf : r.f.isSome = true)
    (hcount : r.count + 1 = q.count) :
    Account q.count (r.store d p true).1.count (.enqueue (r.store d p true).2) (d.write.isNone = true) := by
  obtain ⟨file, hfile⟩ := Option.isSome_iff_exists.mp hf
  unfold store writeRecord
  rw [hfile]
  rcases d.write with _ | k
  · have heq : r.count + 1 + 0 + 1 = q.count + 1 := by rw [hcount]
    exact ⟨heq.le, iff_of_true heq.ge rfl⟩
  · have hlt : r.count + 0 + 1 < q.count + 1 := by omega
    exact ⟨hlt.le, iff_of_false (not_le.mpr hlt) Bool.false_ne_true⟩

theorem isSome_readLenAt {q : FileQueue} {ok : Bool} {off n : ℕ} (h : q.readLenAt ok off = some n) :
    q.f.isSome = true := by
  unfold readLenAt readBytes at h
  rcases hf : q.f with _ | file
  · rw [hf] at h
    rcases ok with _ | _ <;> cases h
  · rfl

theorem isSome_compactIfDrained {q : FileQueue} (d : Disk) (ho : q.closed = false) (hf : q.f.isSome = true) :
    (q.compactIfDrained d).f.isSome = true := by
  obtain ⟨file, hfile⟩ := Option.isSome_iff_exists.mp hf
  unfold compactIfDrained
  by_cases hc : q.count ≠ 0
  · rw [if_pos hc]
    exact hf
  · rw [if_neg hc, ho, if_neg Bool.false_ne_true, hfile]
    rcases d.truncate with _ | _ <;> rfl

theorem account_enqueue {q : FileQueue} (ho : q.closed = false) (hcap : 0 < q.capacity) (ev : SQLEvent) (d : Disk) :
    Account q.count (q.step (.enqueue ev d)).1.count (q.step (.enqueue ev d)).2 (q.keeps (.enqueue ev d) = true) := by
  simp only [step, enqueue, enqueueBytes, keeps, ho, Bool.false_eq_true, if_false]
  by_cases hroom : q.count < q.capacity
  · have h := account_store q d (encodeBinary ev)
    rw [if_pos hroom, decide_eq_true hroom]
    exact ⟨h.1, h.2.trans (iff_of_true trivial rfl)⟩
  rw [if_neg hroom, decide_eq_false hroom]
  rcases hpol : q.overflow with _ | _ | _
  · -- `Block`: the call waits, or there is room by now
    have hresume : Account q.count (q.resume d (encodeBinary ev)).1.count
        (.enqueue (q.resume d (encodeBinary ev)).2) True := by
      unfold resume
      by_cases hw : q.count = q.capacity ∧ q.closed = false
      · rw [if_pos hw]
        exact ⟨le_rfl, iff_of_true le_rfl trivial⟩
      · rw [if_neg hw, ho, if_neg Bool.false_ne_true]
        exact account_store q d _
    exact ⟨hresume.1, hresume.2.trans (iff_of_true trivial rfl)⟩
  · exact ⟨le_rfl, iff_of_true le_rfl rfl⟩
  · dsimp only
    rw [dropOldest]
    rcases hlen : q.readLenAt (d.read 0) q.readOff with _ | n
    · -- the newcomer is given up without notice
      exact ⟨Nat.le_succ _, iff_of_false (Nat.not_succ_le_self _) Bool.false_ne_true⟩
    · rw [Option.map_some]
      have hevict := account_evict (q := q) (d := d)
        (r := ({ q with readOff := q.readOff + (headerLen + n), count := q.count - 1 } : FileQueue).compactIfDrained d)
        (encodeBinary ev) (isSome_compactIfDrained d ho (isSome_readLenAt hlen))
        (by rw [count_compactIfDrained]; exact Nat.sub_add_cancel (by omega))
      exact hevict

/-- The loop of `Dequeue` keeps what it counts if it has nothing to read or can
read the first record. -/
theorem count_loop (d : Disk) : ∀ (n i : ℕ) (q : FileQueue), q.count = n →
    (loop d n i q).1.count + (Result.dequeue (loop d n i q).2).dequeued.toNat ≤ n
  | 0, _, q, h => by
    unfold loop
    exact h.le
  | n + 1, i, q, h => by
    have hskip : ∀ (j : ℕ) (q' : FileQueue), q'.count = n →
        (loop d n j q').1.count + (Result.dequeue (loop d n j q').2).dequeued.toNat ≤ n + 1 :=
      fun j q' h' => (count_loop d n j q' h').trans (Nat.le_succ n)
    unfold loop
    split
    · exact hskip _ _ rfl
    · dsimp only
      split_ifs
      · exact hskip _ _ rfl
      · split
        · exact hskip _ _ rfl
        · split
          · exact h.le
          · exact hskip _ _ rfl
          · rw [count_compactIfDrained]
            exact le_rfl

theorem count_loop_iff (d : Disk) (n : ℕ) (q : FileQueue) (h : q.count = n) :
    n ≤ (loop d n 0 q).1.count + (Result.dequeue (loop d n 0 q).2).dequeued.toNat ↔
      n = 0 ∨ q.frameReadable d = true := by
  rcases n with _ | n
  · exact iff_of_true (Nat.zero_le _) (Or.inl rfl)
  have hskip : ∀ (j : ℕ) (q' : FileQueue), q'.count = n →
      ¬ n + 1 ≤ (loop d n j q').1.count + (Result.dequeue (loop d n j q').2).dequeued.toNat :=
    fun j q' h' hle => absurd (hle.trans (count_loop d n j q' h')) (Nat.not_succ_le_self n)
  have hno : ∀ {b : Bool}, b = false → ¬ (n + 1 = 0 ∨ b = true) := by
    rintro b hb (h0 | h1)
    · exact Nat.succ_ne_zero n h0
    · rw [hb] at h1
      cases h1
  unfold loop frameReadable
  rcases q.readLenAt (d.read 0) q.readOff with _ | len
  · exact iff_of_false (hskip _ _ rfl) (hno rfl)
  dsimp only
  by_cases hbig : maxFramePayload < len
  · rw [if_pos hbig, if_pos hbig]
    exact iff_of_false (hskip _ _ rfl) (hno rfl)
  rw [if_neg hbig, if_neg hbig]
  rcases q.readBytes (d.read (0 + 1)) (q.readOff + headerLen) len with _ | payload
  · exact iff_of_false (hskip _ _ rfl) (hno rfl)
  dsimp only
  rcases decodeBinary payload with (e | _) | ev
  · exact iff_of_false (hskip _ _ rfl) (hno rfl)
  · exact iff_of_true h.ge (Or.inr rfl)
  · dsimp only
    rw [count_compactIfDrained]
    exact iff_of_true le_rfl (Or.inr rfl)

theorem account_dequeue (q : FileQueue) (live : Bool) (d : Disk) :
    Account q.count (q.step (.dequeue live d)).1.count (q.step (.dequeue live d)).2
      (q.keeps (.dequeue live d) = true) := by
  simp only [step, dequeue, keeps, Bool.or_eq_true, beq_iff_eq]
  by_cases hw : q.count = 0 ∧ q.closed = false ∧ live = true
  · rw [if_pos hw]
    exact ⟨le_rfl, iff_of_true le_rfl (Or.inl hw.1)⟩
  · rw [if_neg hw]
    exact ⟨count_loop d q.count 0 q rfl, count_loop_iff d q.count q rfl⟩

/-- **One call** of `Enqueue` or `Dequeue` on an open queue. -/
theorem account_step {q : FileQueue} (ho : q.closed = false) (hcap : 0 < q.capacity) {op : Op} (hop : op ≠ .close) :
    Account q.count (q.step op).1.count (q.step op).2 (q.keeps op = true) := by
  rcases op with ⟨ev, d⟩ | ⟨live, d⟩ | _ | _
  · exact account_enqueue ho hcap ev d
  · exact account_dequeue q live d
  · exact ⟨le_rfl, iff_of_true le_rfl rfl⟩
  · exact absurd rfl hop

theorem sameConfig_step (q : FileQueue) {op : Op} (hop : op ≠ .close) : SameConfig q (q.step op).1 := by
  rcases op with ⟨ev, d⟩ | ⟨live, d⟩ | _ | _
  · simp only [step, enqueue, enqueueBytes]
    by_cases hc : q.closed = true
    · rw [if_pos hc]
      exact ⟨rfl, rfl, rfl⟩
    rw [if_neg hc]
    by_cases hroom : q.count < q.capacity
    · rw [if_pos hroom]
      exact sameConfig_store q d _ false
    rw [if_neg hroom]
    rcases hpol : q.overflow with _ | _ | _
    · dsimp only [resume]
      split_ifs
      · exact ⟨rfl, rfl, rfl⟩
      · exact sameConfig_store q d _ false
    · exact ⟨rfl, rfl, rfl⟩
    · dsimp only [dropOldest]
      rcases q.readLenAt (d.read 0) q.readOff with _ | n
      · exact ⟨rfl, rfl, rfl⟩
      · have h1 := sameConfig_compactIfDrained
          ({ q with readOff := q.readOff + (headerLen + n), count := q.count - 1 } : FileQueue) d
        have h2 := sameConfig_store (({ q with
          readOff := q.readOff + (headerLen + n), count := q.count - 1 } : FileQueue).compactIfDrained d) d
          (encodeBinary ev) true
        exact ⟨h2.1.trans h1.1, h2.2.1.trans h1.2.1, h2.2.2.trans h1.2.2⟩
  · simp only [step, dequeue]
    split_ifs
    · exact ⟨rfl, rfl, rfl⟩
    · exact sameConfig_loop d q.count 0 q
  · exact ⟨rfl, rfl, rfl⟩
  · exact absurd rfl hop

/-! ### Runs -/

/-- **A run** of `Enqueue` and `Dequeue`: the deficits of its calls add up. -/
theorem account_run : ∀ (ops : List Op) {q : FileQueue}, q.closed = false → 0 < q.capacity →
    (∀ op ∈ ops, op ≠ .close) →
      (Machine.final step q ops).count + (Machine.outs step q ops).countP Result.dequeued +
          (Machine.outs step q ops).countP Result.notified ≤
        q.count + (Machine.outs step q ops).countP Result.enqueued ∧
      (q.count + (Machine.outs step q ops).countP Result.enqueued ≤
        (Machine.final step q ops).count + (Machine.outs step q ops).countP Result.dequeued +
          (Machine.outs step q ops).countP Result.notified ↔ KeepsRun q ops)
  | [], q, _, _, _ => ⟨le_rfl, iff_of_true le_rfl trivial⟩
  | op :: ops, q, ho, hcap, hops => by
    have hop := hops op List.mem_cons_self
    obtain ⟨hc1, -, hc3⟩ := sameConfig_step q hop
    obtain ⟨hle, hiff⟩ := account_step ho hcap hop
    obtain ⟨ihle, ihiff⟩ := account_run ops (q := (q.step op).1) (hc3.trans ho) (hc1.symm ▸ hcap)
      fun o ho => hops o (List.mem_cons_of_mem op ho)
    have hcons : ∀ p : Result → Bool, (Machine.outs step q (op :: ops)).countP p =
        (Machine.outs step (q.step op).1 ops).countP p + (p (q.step op).2).toNat := by
      intro p
      rw [Machine.outs_cons, List.countP_cons]
      rcases p (q.step op).2 with _ | _ <;> rfl
    rw [hcons, hcons, hcons, Machine.final_cons, KeepsRun, Machine.Along, ← hiff, ← KeepsRun, ← ihiff]
    omega

/-- **When every event is accounted for.** After any calls of `Enqueue` and
`Dequeue`, whichever reads and writes failed: the events enqueued are those
dequeued, those still buffered and those notified as lost if and only if no call
met a failure that it keeps silent about. -/
theorem accounted_iff {capacity : ℕ} (hcap : 0 < capacity) (policy : OverflowPolicy) (ops : List Op)
    (hops : ∀ op ∈ ops, op ≠ .close) :
    let q := Machine.final step (new capacity policy) ops
    let outs := Machine.outs step (new capacity policy) ops
    outs.countP Result.enqueued = outs.countP Result.dequeued + q.count + outs.countP Result.notified ↔
      KeepsRun (new capacity policy) ops := by
  obtain ⟨hle, hiff⟩ := account_run ops (q := new capacity policy) rfl hcap hops
  have hzero : (new capacity policy).count = 0 := rfl
  rw [← hiff]
  rw [hzero] at hle ⊢
  dsimp only
  omega

/-- An eviction, a write that fails while there is room, and a `Dequeue`. -/
theorem accounted_eviction :
    let ops : List Op := [.enqueue someEvent {}, .enqueue someEvent {}, .dequeue true {},
      .enqueue someEvent { write := some 3 }]
    let q := Machine.final step (new 1 .dropOldest) ops
    let outs := Machine.outs step (new 1 .dropOldest) ops
    (∀ op ∈ ops, op ≠ .close) ∧
      outs.countP Result.enqueued = outs.countP Result.dequeued + q.count + outs.countP Result.notified := by
  intro ops q outs
  have hops : ∀ op ∈ ops, op ≠ .close := by
    simp only [ops, List.forall_mem_cons, ne_eq, reduceCtorEq, not_false_eq_true, List.not_mem_nil, false_implies,
      implies_true, and_self]
  exact ⟨hops, (accounted_iff Nat.one_pos .dropOldest ops hops).mpr (by decide +kernel)⟩

/-- **Counterexample**: the queue holds one event and is full. The length of its
record cannot be read, so the second event is dropped, and nobody is told. -/
theorem lost_without_notice :
    let ops : List Op := [.enqueue someEvent {}, .enqueue someEvent { read := fun _ => false }]
    let q := Machine.final step (new 1 .dropOldest) ops
    let outs := Machine.outs step (new 1 .dropOldest) ops
    outs = [.enqueue (.returns false false), .enqueue (.returns true false)] ∧
      outs.countP Result.enqueued = 2 ∧ outs.countP Result.dequeued = 0 ∧ q.count = 1 ∧
      outs.countP Result.notified = 0 := by
  decide

end FileQueue
end PgShadow
