/-
# The ring buffer

`pkg/queue/ringbuffer.go`: a circular buffer with one mutex and one condition
variable for blocked producers and blocked consumers alike. `Enqueue` and
`Dequeue` wake one sleeper with `Signal`, the one that has slept longest, of
whichever kind. The calls of any number of goroutines are interleaved critical
sections (`Ring.System`); contexts are cancelled at any time and the watcher of
a waiting `Dequeue` then broadcasts.

A wake-up that goes to the wrong kind is lost: the sleeper tests its own
condition and sleeps again. So a goroutine can be left asleep with nothing to
wake it although it could go on (`stranded_reachable`). It cannot as long as
nobody goes to sleep while a goroutine of the other kind sleeps
(`never_stranded`), which is so if never more than `capacity` calls of one kind
wait (`not_stranded_of_few`).

Key definitions: `RingBuffer`, `Ring.System.step`, `Ring.System.Stranded`, `Ring.System.Separate`.
Key theorems: `never_stranded`, `not_stranded_of_few`, `stranded_reachable`.
-/
import PgShadow.Queue.FileQueue
import PgShadow.Lib.Monitor

namespace PgShadow

open Monitor

/-- The buffer. A slot is nil or holds an event. -/
structure RingBuffer where
  buf : List (Option SQLEvent)
  capacity : ℕ
  head : ℕ := 0
  tail : ℕ := 0
  count : ℕ := 0
  closed : Bool := false
  overflow : OverflowPolicy
deriving DecidableEq

namespace RingBuffer

/-- `newRingBuffer`. -/
def new (capacity : ℕ) (overflow : OverflowPolicy) : RingBuffer :=
  { buf := List.replicate capacity none, capacity, overflow }

/-- `push`. -/
def push (r : RingBuffer) (ev : SQLEvent) : RingBuffer :=
  { r with
    buf := r.buf.set r.tail (some ev)
    tail := (r.tail + 1) % r.capacity
    count := r.count + 1 }

/-- What a critical section leaves: the buffer, how the call ends, and whether
it calls `Signal`. -/
structure Section (ο : Type) where
  r : RingBuffer
  out : ο
  signals : Bool := false

/-- The waiting loop of the policy `Block` and what follows it. -/
def resume (r : RingBuffer) (ev : SQLEvent) : Section EnqueueOutcome :=
  if r.count = r.capacity ∧ r.closed = false then { r, out := .waits }
  else if r.closed then { r, out := .returns false false }
  else { r := r.push ev, out := .returns false false, signals := true }

/-- `Enqueue`. -/
def enqueue (r : RingBuffer) (ev : SQLEvent) : Section EnqueueOutcome :=
  if r.closed then { r, out := .returns false false }
  else if r.count < r.capacity then { r := r.push ev, out := .returns false false, signals := true }
  else
    match r.overflow with
    | .dropNewest => { r, out := .returns true true }
    | .block => r.resume ev
    | .dropOldest =>
      { r := ({ r with head := (r.head + 1) % r.capacity, count := r.count - 1 }).push ev
        out := .returns true true
        signals := true }

/-- `Dequeue`, with a context that is live or cancelled: its waiting loop and
what follows it. -/
def dequeue (r : RingBuffer) (live : Bool) : Section DequeueOutcome :=
  if r.count = 0 ∧ r.closed = false ∧ live then { r, out := .waits }
  else if r.count = 0 then { r, out := .returns none }
  else
    { r := { r with buf := r.buf.set r.head none, head := (r.head + 1) % r.capacity, count := r.count - 1 }
      out := .returns (r.buf.getD r.head none)
      signals := true }

/-- `Close`. -/
def close (r : RingBuffer) : RingBuffer := { r with closed := true }

end RingBuffer

namespace Ring

/-- A goroutine inside `Wait`: an `Enqueue` of an event, or a `Dequeue` with
its context. -/
inductive Waiter
  | producer (ev : SQLEvent)
  | consumer (ctx : ℕ)
deriving DecidableEq

def Waiter.isProducer : Waiter → Bool
  | .producer _ => true
  | .consumer _ => false

def Waiter.isConsumer : Waiter → Bool
  | .producer _ => false
  | .consumer _ => true

structure System where
  r : RingBuffer
  cond : Cond Waiter := {}
  cancelled : List ℕ := []
deriving DecidableEq

/-- A critical section: a call of `Enqueue` or `Dequeue`, the `i`-th woken
goroutine going on, `Close`, or the watcher of a context that was cancelled; or
a context is cancelled. -/
inductive Act
  | enqueue (ev : SQLEvent)
  | dequeue (ctx : ℕ)
  | resume (i : ℕ)
  | close
  | watch (ctx : ℕ)
  | cancel (ctx : ℕ)
deriving DecidableEq

namespace System

/-- An empty buffer of the policy `Block`. -/
def new (capacity : ℕ) : System := { r := .new capacity .block }

/-- What follows the section of the goroutine `w`: it sleeps, or it goes on,
having called `Signal` or not. -/
def settle {ο : Type} (s : System) (w : Waiter) (waits : Bool) (x : RingBuffer.Section ο) : System :=
  { s with
    r := x.r
    cond := if waits then s.cond.sleep w else if x.signals then s.cond.signal else s.cond }

/-- The section of an `Enqueue`. -/
def produce (s : System) (ev : SQLEvent) (x : RingBuffer.Section EnqueueOutcome) : System :=
  s.settle (.producer ev) (x.out = .waits) x

/-- The section of a `Dequeue`. -/
def consume (s : System) (ctx : ℕ) (x : RingBuffer.Section DequeueOutcome) : System :=
  s.settle (.consumer ctx) (x.out = .waits) x

def step (s : System) : Act → System
  | .enqueue ev => s.produce ev (s.r.enqueue ev)
  | .dequeue ctx => s.consume ctx (s.r.dequeue (ctx ∉ s.cancelled))
  | .resume i =>
    match s.cond.woken[i]? with
    | none => s
    | some (.producer ev) => ({ s with cond := s.cond.run i }).produce ev (s.r.resume ev)
    | some (.consumer ctx) => ({ s with cond := s.cond.run i }).consume ctx (s.r.dequeue (ctx ∉ s.cancelled))
  | .close => if s.r.closed then s else { s with r := s.r.close, cond := s.cond.broadcast }
  | .watch ctx => if ctx ∈ s.cancelled then { s with cond := s.cond.broadcast } else s
  | .cancel ctx => { s with cancelled := ctx :: s.cancelled }

/-- Everyone in `Wait` is asleep and nobody has been woken, but a sleeper could
go on: a consumer with an event in the buffer, or a producer with room in it. -/
def Stranded (s : System) : Prop :=
  s.cond.woken = [] ∧
    ((∃ w ∈ s.cond.asleep, w.isConsumer = true) ∧ 0 < s.r.count ∨
      (∃ w ∈ s.cond.asleep, w.isProducer = true) ∧ s.r.count < s.r.capacity)

/-- If a producer has to sleep, all sleepers are producers. -/
def ProducerApart (s : System) : Prop :=
  s.r.count = s.r.capacity → s.r.closed = false → ∀ w ∈ s.cond.asleep, w.isProducer = true

/-- If a consumer with a live context has to sleep, all sleepers are consumers. -/
def ConsumerApart (s : System) (ctx : ℕ) : Prop :=
  s.r.count = 0 → s.r.closed = false → ctx ∉ s.cancelled → ∀ w ∈ s.cond.asleep, w.isConsumer = true

/-- The section puts nobody to sleep while a goroutine of the other kind sleeps. -/
def Separate (s : System) : Act → Prop
  | .enqueue _ => s.ProducerApart
  | .dequeue ctx => s.ConsumerApart ctx
  | .resume i =>
    match s.cond.woken[i]? with
    | none => True
    | some (.producer _) => s.ProducerApart
    | some (.consumer ctx) => s.ConsumerApart ctx
  | _ => True

/-- Every section of the run does so. -/
def SeparateRun (s : System) (acts : List Act) : Prop := Machine.Along step Separate s acts

instance (s : System) : Decidable s.Stranded := inferInstanceAs (Decidable (_ ∧ (_ ∧ _ ∨ _ ∧ _)))

instance (s : System) : Decidable s.ProducerApart := inferInstanceAs (Decidable (_ → _ → ∀ w ∈ s.cond.asleep, _))

instance (s : System) (ctx : ℕ) : Decidable (s.ConsumerApart ctx) :=
  inferInstanceAs (Decidable (_ → _ → _ → ∀ w ∈ s.cond.asleep, _))

instance (s : System) : (act : Act) → Decidable (s.Separate act)
  | .enqueue _ => inferInstanceAs (Decidable s.ProducerApart)
  | .dequeue ctx => inferInstanceAs (Decidable (s.ConsumerApart ctx))
  | .resume i => by
    unfold Separate
    dsimp only
    split <;> infer_instance
  | .close => .isTrue trivial
  | .watch _ => .isTrue trivial
  | .cancel _ => .isTrue trivial

instance (s : System) (acts : List Act) : Decidable (SeparateRun s acts) :=
  inferInstanceAs (Decidable (Machine.Along _ _ s acts))

/-! ### Enough wake-ups

The sleepers are of one kind. If consumers sleep, there are as many woken
consumers as buffered events; if producers sleep, as many woken producers as
free slots. `a` and `b` count the wake-ups that are missing in the middle of a
section. -/

structure Awake (c : Cond Waiter) (count capacity a b : ℕ) : Prop where
  kinds : (∀ w ∈ c.asleep, w.isProducer = true) ∨ ∀ w ∈ c.asleep, w.isConsumer = true
  consumers : (∃ w ∈ c.asleep, w.isConsumer = true) → count ≤ c.woken.countP Waiter.isConsumer + a
  producers : (∃ w ∈ c.asleep, w.isProducer = true) → capacity ≤ count + c.woken.countP Waiter.isProducer + b

theorem isConsumer_eq (w : Waiter) : w.isConsumer = !w.isProducer := by
  cases w <;> rfl

theorem not_both {w : Waiter} (h : w.isProducer = true) : ¬ w.isConsumer = true := by
  rw [isConsumer_eq, h]
  exact Bool.false_ne_true

namespace Awake

variable {c : Cond Waiter} {count capacity a b : ℕ}

theorem of_nil (h : c.asleep = []) : Awake c count capacity a b := by
  refine ⟨Or.inl ?_, ?_, ?_⟩ <;> simp [h]

theorem push (h : Awake c count capacity a b) : Awake c (count + 1) capacity (a + 1) (b - 1) := by
  refine ⟨h.kinds, fun hc => ?_, fun hp => ?_⟩
  · have := h.consumers hc
    omega
  · have := h.producers hp
    omega

theorem pop (h : Awake c count capacity a b) : Awake c (count - 1) capacity (a - 1) (b + 1) := by
  refine ⟨h.kinds, fun hc => ?_, fun hp => ?_⟩
  · have := h.consumers hc
    omega
  · have := h.producers hp
    omega

/-- A wake-up that is missing on either side is made good by one `Signal`. -/
theorem signal (h : Awake c count capacity a b) (ha : a ≤ 1) (hb : b ≤ 1) :
    Awake c.signal count capacity 0 0 := by
  have hsub : ∀ {w}, w ∈ c.signal.asleep → w ∈ c.asleep := Cond.asleep_of_signal
  rcases h.kinds with hk | hk
  · refine ⟨Or.inl fun w hw => hk w (hsub hw), ?_, ?_⟩
    · rintro ⟨w, hw, hcons⟩
      exact absurd hcons (not_both (hk w (hsub hw)))
    · rintro ⟨w, hw, hprod⟩
      have h1 := h.producers ⟨w, hsub hw, hprod⟩
      have h2 := Cond.countP_woken_signal Waiter.isProducer (List.ne_nil_of_mem (hsub hw)) hk
      omega
  · refine ⟨Or.inr fun w hw => hk w (hsub hw), ?_, ?_⟩
    · rintro ⟨w, hw, hcons⟩
      have h1 := h.consumers ⟨w, hsub hw, hcons⟩
      have h2 := Cond.countP_woken_signal Waiter.isConsumer (List.ne_nil_of_mem (hsub hw)) hk
      omega
    · rintro ⟨w, hw, hprod⟩
      exact absurd (hk w (hsub hw)) (not_both hprod)

/-- A woken goroutine that runs no longer stands for a wake-up of its kind. -/
theorem run {i : ℕ} {w : Waiter} (h : Awake c count capacity 0 0) (hi : c.woken[i]? = some w) :
    Awake (c.run i) count capacity (if w.isConsumer then 1 else 0) (if w.isProducer then 1 else 0) := by
  have hc := Cond.countP_woken_run Waiter.isConsumer hi
  have hp := Cond.countP_woken_run Waiter.isProducer hi
  refine ⟨h.kinds, fun hs => ?_, fun hs => ?_⟩
  · have := h.consumers hs
    omega
  · have := h.producers hs
    omega

theorem sleep_producer (capacity : ℕ) (ev : SQLEvent) (hall : ∀ w ∈ c.asleep, w.isProducer = true) :
    Awake (c.sleep (.producer ev)) capacity capacity 0 0 := by
  have hall' : ∀ w ∈ (c.sleep (.producer ev)).asleep, w.isProducer = true :=
    List.forall_mem_append.2 ⟨hall, List.forall_mem_singleton.2 rfl⟩
  refine ⟨Or.inl hall', ?_, fun _ => by omega⟩
  rintro ⟨w, hw, hcons⟩
  exact absurd hcons (not_both (hall' w hw))

theorem sleep_consumer (capacity ctx : ℕ) (hall : ∀ w ∈ c.asleep, w.isConsumer = true) :
    Awake (c.sleep (.consumer ctx)) 0 capacity 0 0 := by
  have hall' : ∀ w ∈ (c.sleep (.consumer ctx)).asleep, w.isConsumer = true :=
    List.forall_mem_append.2 ⟨hall, List.forall_mem_singleton.2 rfl⟩
  refine ⟨Or.inr hall', fun _ => Nat.zero_le _, ?_⟩
  rintro ⟨w, hw, hprod⟩
  exact absurd (hall' w hw) (not_both hprod)

end Awake

/-- What every reached state satisfies. -/
structure Inv (s : System) : Prop where
  policy : s.r.overflow = .block
  bound : s.r.count ≤ s.r.capacity
  closed : s.r.closed = true → s.cond.asleep = []
  awake : Awake s.cond s.r.count s.r.capacity 0 0

theorem inv_new (capacity : ℕ) : Inv (new capacity) :=
  ⟨rfl, Nat.zero_le _, fun h => absurd h Bool.false_ne_true, .of_nil rfl⟩

/-- Under `Block`, a call of `Enqueue` is the waiting loop from its start on. -/
theorem enqueue_eq_resume {r : RingBuffer} (hpol : r.overflow = .block) (ev : SQLEvent) :
    r.enqueue ev = r.resume ev := by
  unfold RingBuffer.enqueue RingBuffer.resume
  rw [hpol]
  by_cases hc : r.closed = true
  · have hw : ¬ (r.count = r.capacity ∧ r.closed = false) := fun hw => by
      rw [hc] at hw
      exact Bool.noConfusion hw.2
    rw [if_pos hc, if_neg hw, if_pos hc]
  · rw [if_neg hc, if_neg hc]
    by_cases hroom : r.count < r.capacity
    · have hw : ¬ (r.count = r.capacity ∧ r.closed = false) := fun hw => hroom.ne hw.1
      rw [if_pos hroom, if_neg hw]
    · rw [if_neg hroom]

/-- A producer's section, in which at most its own wake-up was used. -/
theorem inv_produce {s : System} {b : ℕ} (hpol : s.r.overflow = .block) (hle : s.r.count ≤ s.r.capacity)
    (hcl : s.r.closed = true → s.cond.asleep = []) (haw : Awake s.cond s.r.count s.r.capacity 0 b) (hb : b ≤ 1)
    (hap : s.ProducerApart) (ev : SQLEvent) : Inv (s.produce ev (s.r.resume ev)) := by
  unfold RingBuffer.resume
  by_cases hw : s.r.count = s.r.capacity ∧ s.r.closed = false
  · -- the buffer is full: the producer sleeps
    rw [if_pos hw]
    refine ⟨hpol, hle, fun hc => ?_, ?_⟩
    · exact absurd (hw.2.symm.trans hc) Bool.false_ne_true
    · show Awake (s.cond.sleep (.producer ev)) s.r.count s.r.capacity 0 0
      rw [hw.1]
      exact .sleep_producer _ ev (hap hw.1 hw.2)
  · rw [if_neg hw]
    by_cases hc : s.r.closed = true
    · -- the queue is closed: nobody sleeps
      rw [if_pos hc]
      exact ⟨hpol, hle, fun _ => hcl hc, .of_nil (hcl hc)⟩
    · rw [if_neg hc]
      have hne : s.r.count ≠ s.r.capacity := fun he => hw ⟨he, by simpa using hc⟩
      refine ⟨hpol, ?_, fun h => absurd h hc, haw.push.signal le_rfl (by omega)⟩
      exact Nat.succ_le_of_lt (lt_of_le_of_ne hle hne)

/-- A consumer's section, in which at most its own wake-up was used. -/
theorem inv_consume {s : System} {a ctx : ℕ} (hpol : s.r.overflow = .block) (hle : s.r.count ≤ s.r.capacity)
    (hcl : s.r.closed = true → s.cond.asleep = []) (haw : Awake s.cond s.r.count s.r.capacity a 0) (ha : a ≤ 1)
    (hap : s.ConsumerApart ctx) : Inv (s.consume ctx (s.r.dequeue (ctx ∉ s.cancelled))) := by
  unfold RingBuffer.dequeue
  by_cases hw : s.r.count = 0 ∧ s.r.closed = false ∧ decide (ctx ∉ s.cancelled) = true
  · -- the buffer is empty: the consumer sleeps
    rw [if_pos hw]
    refine ⟨hpol, hle, fun hc => ?_, ?_⟩
    · exact absurd (hw.2.1.symm.trans hc) Bool.false_ne_true
    · show Awake (s.cond.sleep (.consumer ctx)) s.r.count s.r.capacity 0 0
      rw [hw.1]
      exact .sleep_consumer _ ctx (hap hw.1 hw.2.1 (of_decide_eq_true hw.2.2))
  · rw [if_neg hw]
    by_cases h0 : s.r.count = 0
    · -- closed and drained, or cancelled: no event is taken and nobody is woken
      rw [if_pos h0]
      refine ⟨hpol, hle, hcl, haw.kinds, fun _ => ?_, haw.producers⟩
      show s.r.count ≤ _
      rw [h0]
      exact Nat.zero_le _
    · rw [if_neg h0]
      refine ⟨hpol, (Nat.sub_le _ _).trans hle, fun hc => ?_, haw.pop.signal (by omega) le_rfl⟩
      exact List.eq_nil_iff_forall_not_mem.mpr fun w hw => by
        have := Cond.asleep_of_signal hw
        rw [hcl hc] at this
        exact List.not_mem_nil this

/-- **One section keeps the invariant**, if it puts nobody to sleep next to the
other kind. -/
theorem Inv.step {s : System} (h : Inv s) {act : Act} (hsep : s.Separate act) : Inv (s.step act) := by
  rcases act with ev | ctx | i | _ | ctx | ctx
  · unfold System.step
    dsimp only
    rw [enqueue_eq_resume h.policy]
    exact inv_produce h.policy h.bound h.closed h.awake (Nat.zero_le 1) hsep ev
  · exact inv_consume h.policy h.bound h.closed h.awake (Nat.zero_le 1) hsep
  · unfold System.step
    dsimp only
    rcases hi : s.cond.woken[i]? with _ | w
    · exact h
    · have hrun := h.awake.run hi
      simp only [Separate, hi] at hsep
      rcases w with ev | ctx
      · exact inv_produce (s := { s with cond := s.cond.run i }) h.policy h.bound h.closed hrun le_rfl hsep ev
      · exact inv_consume (s := { s with cond := s.cond.run i }) h.policy h.bound h.closed hrun le_rfl hsep
  · unfold System.step
    dsimp only
    split_ifs
    · exact h
    · exact ⟨h.policy, h.bound, fun _ => rfl, .of_nil rfl⟩
  · unfold System.step
    dsimp only
    split_ifs
    · exact ⟨h.policy, h.bound, fun _ => rfl, .of_nil rfl⟩
    · exact h
  · exact ⟨h.policy, h.bound, h.closed, h.awake⟩

theorem Inv.run {acts : List Act} {s : System} (h : Inv s) (hsep : SeparateRun s acts) :
    Inv (acts.foldl System.step s) :=
  Machine.Along.invariant (fun h hsep => h.step hsep) h hsep

theorem Inv.not_stranded {s : System} (h : Inv s) : ¬ s.Stranded := by
  rintro ⟨hwoken, ⟨hs, hpos⟩ | ⟨hs, hroom⟩⟩
  · have := h.awake.consumers hs
    rw [hwoken, List.countP_nil] at this
    omega
  · have := h.awake.producers hs
    rw [hwoken, List.countP_nil] at this
    omega

/-- **No waiter is stranded** in any state that a run reaches in which nobody
goes to sleep while a goroutine of the other kind sleeps. -/
theorem never_stranded (capacity : ℕ) (acts : List Act) (hsep : SeparateRun (new capacity) acts) :
    ¬ (acts.foldl step (new capacity)).Stranded :=
  ((inv_new capacity).run hsep).not_stranded

/-- A consumer and a producer that fill and drain a buffer of one slot in turn. -/
theorem never_stranded_pair :
    let acts : List Act := [.dequeue 0, .enqueue FileQueue.someEvent, .enqueue FileQueue.someEvent, .resume 0]
    SeparateRun (new 1) acts ∧ (acts.foldl step (new 1)).cond = ⟨[], [.producer FileQueue.someEvent]⟩ ∧
      ¬ (acts.foldl step (new 1)).Stranded :=
  ⟨by decide +kernel, by decide +kernel, never_stranded 1 _ (by decide +kernel)⟩

/-- **Counterexample**: two consumers wait on a buffer of one slot. One event is
pushed and wakes the first; a second producer waits. The first consumer takes
the event and signals, which wakes the second consumer; it finds nothing and
sleeps again. The producer sleeps on an empty buffer and nobody is left to wake
it. -/
theorem stranded_reachable :
    (([.dequeue 0, .dequeue 1, .enqueue FileQueue.someEvent, .enqueue FileQueue.someEvent, .resume 0, .resume 0] :
      List Act).foldl step (new 1)).Stranded := by
  decide +kernel

/-! ### Few calls at a time -/

/-- At most `capacity` calls of each kind are waiting. -/
def Few (s : System) : Prop :=
  s.cond.all.countP Waiter.isProducer ≤ s.r.capacity ∧ s.cond.all.countP Waiter.isConsumer ≤ s.r.capacity

/-- At every section of the run. -/
def FewRun (s : System) (acts : List Act) : Prop := Machine.Along step (fun s _ => s.Few) s acts

/-- **Few calls keep apart**: a producer that sleeps next to a consumer needs
`capacity` woken consumers besides the sleeping one, and the other way round. -/
theorem Inv.separate_of_few {s : System} (h : Inv s) (hfew : s.Few) (act : Act) : s.Separate act := by
  have hprod : s.ProducerApart := by
    intro hfull _
    by_contra hcon
    have hex : ∃ w ∈ s.cond.asleep, w.isConsumer = true := by simpa [isConsumer_eq] using hcon
    have h1 := List.countP_pos_iff.mpr hex
    have h2 := h.awake.consumers hex
    have h3 := hfew.2
    rw [Cond.all, List.countP_append] at h3
    omega
  have hcons : ∀ ctx, s.ConsumerApart ctx := by
    intro ctx hempty _ _
    by_contra hcon
    have hex : ∃ w ∈ s.cond.asleep, w.isProducer = true := by simpa [isConsumer_eq] using hcon
    have h1 := List.countP_pos_iff.mpr hex
    have h2 := h.awake.producers hex
    have h3 := hfew.1
    rw [Cond.all, List.countP_append] at h3
    omega
  rcases act with ev | ctx | i | _ | ctx | ctx
  · exact hprod
  · exact hcons ctx
  · unfold Separate
    dsimp only
    split
    · trivial
    · exact hprod
    · exact hcons _
  · trivial
  · trivial
  · trivial

theorem Inv.separateRun_of_few {acts : List Act} {s : System} (h : Inv s) (hfew : FewRun s acts) :
    SeparateRun s acts :=
  Machine.Along.weaken (fun h hsep => h.step hsep) (fun h hfew => h.separate_of_few hfew _) h hfew

/-- **A buffer as large as the number of calls of each kind** strands nobody. -/
theorem not_stranded_of_few (capacity : ℕ) (acts : List Act) (hfew : FewRun (new capacity) acts) :
    ¬ (acts.foldl step (new capacity)).Stranded :=
  ((inv_new capacity).run ((inv_new capacity).separateRun_of_few hfew)).not_stranded

/-- Two consumers wait on a buffer of two slots. -/
theorem not_stranded_of_few_two :
    let acts : List Act := [.dequeue 0, .dequeue 1, .enqueue FileQueue.someEvent]
    (acts.foldl step (new 2)).cond.asleep.length = 1 ∧ ¬ (acts.foldl step (new 2)).Stranded :=
  ⟨by decide +kernel, not_stranded_of_few 2 _
    ⟨⟨by decide, by decide⟩, ⟨by decide, by decide⟩, ⟨by decide, by decide⟩, trivial⟩⟩

end System
end Ring
end PgShadow
