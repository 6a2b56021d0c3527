/-
# The replayer's dispatcher and lanes

`pkg/replayer/replayer_impl.go` and `unbounded_lane.go`: `Run` takes events off
the queue and routes each to the lane of its connection (one global lane in
serial mode); each lane is drained by one goroutine, which takes a slot of a
shared semaphore for every execution. The dispatcher, the lane goroutines,
captured events, and cancellation interleave in any way; an action is what a
goroutine does between two points where others can act. A goroutine that waits
has no action.

Every connection's events are handed to the executor in the order in which they
were dequeued, each once, and all of them if the context stays live
(`replayed_in_order`).

Not covered: the backing array of a lane (`Dequeue` shrinks it) and `runLane`,
which nothing calls.

Key definitions: `configureMode`, `Replay.step`.
Key theorems: `Replay.replayed_in_order`.
-/
import Mathlib.Algebra.GroupWithZero.Nat
import PgShadow.Go.Netip
import PgShadow.Replayguard.Guard

namespace PgShadow

/-- `ConcurrencyMode`. -/
inductive ConcurrencyMode
  | bounded
  | faithful
  | serial
deriving DecidableEq

/-- What `configureMode` reads of the configuration. -/
structure ReplayConfig where
  workers : ℤ := 0
  mode : ConcurrencyMode := .bounded
  maxConcurrency : ℤ := 0
  poolMaxConns : ℤ := 0
  maxLaneDepth : ℤ := 0

abbrev defaultWorkers : ℤ := 32

abbrev defaultPoolMaxConns : ℤ := 100

abbrev defaultMaxLaneDepth : ℤ := 100000

/-- `serialLaneKey`. -/
def serialLaneKey : Bytes := bytes "__serial__"

/-- The parts of the replayer that `Run` reads. -/
structure Replayer (F : Type) where
  serial : Bool
  concurrency : ℤ
  maxLaneDepth : ℤ
  guard : Option (Guard F)

/-- `configureMode`. -/
def configureMode {F : Type} (cfg : ReplayConfig) (guard : Option (Guard F)) : Replayer F :=
  let workers := if cfg.workers ≤ 0 then defaultWorkers else cfg.workers
  let poolMax := if cfg.poolMaxConns ≤ 0 then defaultPoolMaxConns else cfg.poolMaxConns
  let concurrency :=
    match cfg.mode with
    | .serial => 1
    | .faithful => if cfg.maxConcurrency ≤ 0 then workers else cfg.maxConcurrency
    | .bounded => if poolMax < workers then poolMax else workers
  { serial := cfg.mode = .serial
    concurrency := if concurrency < 1 then 1 else concurrency
    maxLaneDepth := if cfg.maxLaneDepth ≤ 0 then defaultMaxLaneDepth else cfg.maxLaneDepth
    guard }

theorem configureMode_concurrency_pos (cfg : ReplayConfig) (guard : Option (Guard F)) :
    1 ≤ (configureMode cfg guard).concurrency := by
  have hclamp : ∀ c : ℤ, 1 ≤ if c < 1 then 1 else c := by
    intro c
    split <;> omega
  exact hclamp _

/-- Where a lane's goroutine stands: about to dequeue, with an event that waits
for a slot, executing an event, or gone. `left` is the event it had when it left
for the cancelled context. -/
inductive Worker
  | ready
  | holding (ev : SQLEvent)
  | executing (ev : SQLEvent)
  | gone (left : Option SQLEvent)
deriving DecidableEq

def Worker.isExecuting : Worker → Bool
  | .executing _ => true
  | _ => false

def Worker.isGone : Worker → Bool
  | .gone _ => true
  | _ => false

/-- A lane and its goroutine. `seen` are the connections it has touched, by key. -/
structure Lane where
  buf : List SQLEvent := []
  closed : Bool := false
  worker : Worker := .ready
  seen : GoMap Bytes ConnID := GoMap.empty

/-- The goroutine of the lane dequeues an event, or finds the lane closed and
drained. -/
def Lane.take (l : Lane) : Lane :=
  if l.worker = .ready then
    match l.buf with
    | ev :: buf => { l with buf, worker := .holding ev, seen := l.seen.set ev.conn.key ev.conn }
    | [] => if l.closed then { l with worker := .gone none } else l
  else l

/-- It waits, has an event, or leaves. -/
theorem Lane.take_cases (l : Lane) :
    l.take = l ∨
    (∃ ev buf, l.worker = .ready ∧ l.buf = ev :: buf ∧
      l.take = { l with buf, worker := .holding ev, seen := l.seen.set ev.conn.key ev.conn }) ∨
    (l.worker = .ready ∧ l.buf = [] ∧ l.closed = true ∧ l.take = { l with worker := .gone none }) := by
  unfold Lane.take
  by_cases hw : l.worker = .ready
  · rw [if_pos hw]
    rcases hb : l.buf with _ | ⟨ev, buf⟩
    · rcases hc : l.closed with _ | _
      · exact Or.inl rfl
      · exact Or.inr (Or.inr ⟨hw, rfl, rfl, rfl⟩)
    · exact Or.inr (Or.inl ⟨ev, buf, hw, rfl, rfl⟩)
  · exact Or.inl (if_neg hw)

/-- Where the dispatcher stands: at the backpressure check, about to dequeue,
with an event to route, closing the lanes, or out of `Run`. -/
inductive Phase
  | checking
  | dequeuing
  | routing (ev : SQLEvent)
  | closing
  | returned
deriving DecidableEq

/-- A run: the upstream queue, the dispatcher, the lanes by key with the keys in
the order of creation, the slots taken of the semaphore, and the context.
`lag` is the replay lag in nanoseconds. The last two fields are history. -/
structure Replay where
  upstream : List SQLEvent := []
  phase : Phase := .checking
  lanes : GoMap Bytes Lane := GoMap.empty
  keys : List Bytes := []
  sem : ℕ := 0
  cancelled : Bool := false
  lag : ℤ := 0
  dequeued : List SQLEvent := []
  handed : List SQLEvent := []

namespace Replay

variable {F : Type} [Float64 F]

/-- `laneKey`. -/
def laneKey (r : Replayer F) (ev : SQLEvent) : Bytes := if r.serial then serialLaneKey else ev.conn.key

/-- The events buffered over all lanes. -/
def laneDepth (s : Replay) : ℕ := (s.keys.map fun k => ((s.lanes k).map fun l => l.buf.length).getD 0).sum

/-- The condition of the pause loop. -/
def pauses (r : Replayer F) (s : Replay) : Bool :=
  r.maxLaneDepth ≤ s.laneDepth ||
    r.guard.any fun g => g.checkBackpressure (s.upstream.length + s.laneDepth) (Float64.seconds s.lag)

/-- The actions: an event is captured, the context is cancelled; of the
dispatcher, at time `now` where it reads the clock; and of the goroutine of a
lane. -/
inductive Act
  | arrive (ev : SQLEvent)
  | cancel
  | check
  | leave
  | dequeue (now : ℤ)
  | drained
  | route
  | closeLane (k : Bytes)
  | ret
  | take (k : Bytes)
  | start (k : Bytes)
  | giveUp (k : Bytes)
  | finish (k : Bytes)
deriving DecidableEq

/-- The lane is created if it does not exist, and the event appended. -/
def enqueueLane (s : Replay) (k : Bytes) (ev : SQLEvent) : Replay :=
  match s.lanes k with
  | none => { s with lanes := s.lanes.set k { buf := [ev] }, keys := s.keys ++ [k] }
  | some l => { s with lanes := s.lanes.set k { l with buf := l.buf ++ [ev] } }

/-- Change one lane, if it exists. -/
def onLane (s : Replay) (k : Bytes) (f : Lane → Replay) : Replay := (s.lanes k).elim s f

def setLane (s : Replay) (k : Bytes) (l : Lane) : Replay := { s with lanes := s.lanes.set k l }

def step (r : Replayer F) (s : Replay) : Act → Replay
  | .arrive ev => { s with upstream := s.upstream ++ [ev] }
  | .cancel => { s with cancelled := true }
  | .check => if s.phase = .checking ∧ s.pauses r = false then { s with phase := .dequeuing } else s
  | .leave =>
    if s.phase = .checking ∧ s.pauses r = true ∧ s.cancelled = true then { s with phase := .closing } else s
  | .dequeue now =>
    match s.phase, s.upstream with
    | .dequeuing, ev :: rest =>
      { s with
        upstream := rest
        phase := .routing ev
        lag := if ev.timestamp = zeroTime then s.lag else now - ev.timestamp
        dequeued := s.dequeued ++ [ev] }
    | _, _ => s
  | .drained => if s.phase = .dequeuing then { s with phase := .closing } else s
  | .route =>
    match s.phase with
    | .routing ev => { s.enqueueLane (laneKey r ev) ev with phase := .checking }
    | _ => s
  | .closeLane k =>
    if s.phase = .closing then s.onLane k fun l => s.setLane k { l with closed := true } else s
  | .ret =>
    if s.phase = .closing ∧ ∀ k ∈ s.keys, (s.lanes k).any fun l => l.closed && l.worker.isGone then
      { s with phase := .returned }
    else s
  | .take k => s.onLane k fun l => s.setLane k l.take
  | .start k =>
    s.onLane k fun l =>
      match l.worker with
      | .holding ev =>
        if s.sem < r.concurrency then
          { s.setLane k { l with worker := .executing ev } with sem := s.sem + 1, handed := s.handed ++ [ev] }
        else s
      | _ => s
  | .giveUp k =>
    s.onLane k fun l =>
      match l.worker with
      | .holding ev => if s.cancelled then s.setLane k { l with worker := .gone (some ev) } else s
      | _ => s
  | .finish k =>
    s.onLane k fun l =>
      match l.worker with
      | .executing _ => { s.setLane k { l with worker := .ready } with sem := s.sem - 1 }
      | _ => s

/-- The state after the actions. -/
def run (r : Replayer F) (acts : List Act) : Replay := acts.foldl (step r) {}

/-- Only a dequeue changes the lag and adds to the events dequeued. -/
theorem step_of_ne_dequeue (r : Replayer F) (s : Replay) {a : Act} (ha : ∀ now, a ≠ .dequeue now) :
    (step r s a).lag = s.lag ∧ (step r s a).dequeued = s.dequeued := by
  have honLane : ∀ (k : Bytes) (f : Lane → Replay), (∀ l, (f l).lag = s.lag ∧ (f l).dequeued = s.dequeued) →
      (s.onLane k f).lag = s.lag ∧ (s.onLane k f).dequeued = s.dequeued := by
    intro k f hf
    unfold onLane
    rcases s.lanes k with _ | l
    · exact ⟨rfl, rfl⟩
    · exact hf l
  rcases a with ev | _ | _ | _ | now | _ | _ | k | _ | k | k | k | k <;> dsimp only [step]
  case arrive => exact ⟨rfl, rfl⟩
  case cancel => exact ⟨rfl, rfl⟩
  case dequeue => exact absurd rfl (ha now)
  case route =>
    split
    · unfold enqueueLane
      split <;> exact ⟨rfl, rfl⟩
    · exact ⟨rfl, rfl⟩
  case closeLane =>
    split_ifs
    · exact honLane k _ fun _ => ⟨rfl, rfl⟩
    · exact ⟨rfl, rfl⟩
  case take => exact honLane k _ fun _ => ⟨rfl, rfl⟩
  case start =>
    refine honLane k _ fun l => ?_
    split
    · split_ifs <;> exact ⟨rfl, rfl⟩
    · exact ⟨rfl, rfl⟩
  case giveUp =>
    refine honLane k _ fun l => ?_
    split
    · split_ifs <;> exact ⟨rfl, rfl⟩
    · exact ⟨rfl, rfl⟩
  case finish =>
    refine honLane k _ fun l => ?_
    split <;> exact ⟨rfl, rfl⟩
  all_goals split_ifs <;> exact ⟨rfl, rfl⟩

end Replay

/-! ### What is on its way -/

/-- Setting one of the keys changes the count by that key. -/
theorem GoMap.countP_set {K V : Type} [DecidableEq K] (m : GoMap K V) (p : V → Bool) {k : K} {v w : V}
    (hk : m k = some v) :
    ∀ {ks : List K}, ks.Nodup → k ∈ ks →
      ks.countP (fun x => (m.set k w x).any p) + (p v).toNat = ks.countP (fun x => (m x).any p) + (p w).toNat
  | x :: ks, hnd, hmem => by
    obtain ⟨hx, hnd⟩ := List.nodup_cons.mp hnd
    rw [List.countP_cons, List.countP_cons]
    rcases List.mem_cons.mp hmem with rfl | hmem
    · have hsame : ks.countP (fun x => (m.set k w x).any p) = ks.countP (fun x => (m x).any p) := by
        apply List.countP_congr
        intro y hy
        rw [GoMap.set_of_ne m w (ne_of_mem_of_not_mem hy hx)]
      rw [hsame, GoMap.set_self, hk]
      rcases hv : p v with _ | _ <;> rcases hw : p w with _ | _ <;> simp [hv, hw]
    · have hne : x ≠ k := fun hxk => hx (hxk ▸ hmem)
      have ih := GoMap.countP_set m p (w := w) hk hnd hmem
      rw [GoMap.set_of_ne m w hne]
      omega

theorem GoMap.set_eq_some {K V : Type} [DecidableEq K] {m : GoMap K V} {k x : K} {v w : V}
    (h : m.set k v x = some w) : (x = k ∧ w = v) ∨ (x ≠ k ∧ m x = some w) := by
  by_cases hx : x = k
  · rw [hx, GoMap.set_self] at h
    exact Or.inl ⟨hx, (Option.some.inj h).symm⟩
  · rw [GoMap.set_of_ne m v hx] at h
    exact Or.inr ⟨hx, h⟩

theorem GoMap.set_set {K V : Type} [DecidableEq K] (m : GoMap K V) (k : K) (v w : V) :
    (m.set k v).set k w = m.set k w :=
  Function.update_idem _ _ _

/-- The event a goroutine has taken and not handed on. -/
def Worker.inHand : Worker → List SQLEvent
  | .ready => []
  | .holding ev => [ev]
  | .executing _ => []
  | .gone left => left.toList

/-- The events of a lane that were not handed on, oldest first. -/
def Lane.pending (l : Lane) : List SQLEvent := l.worker.inHand ++ l.buf

/-- The event that the dispatcher has dequeued and not routed. -/
def Phase.inHand : Phase → List SQLEvent
  | .routing ev => [ev]
  | _ => []

namespace Replay

variable {F : Type}

/-- The event belongs to the lane `k`. -/
def ofLane (r : Replayer F) (k : Bytes) (ev : SQLEvent) : Bool := laneKey r ev = k

def pendingAt (s : Replay) (k : Bytes) : List SQLEvent := (s.lanes k).elim [] Lane.pending

/-- The calls of `Exec` in progress. -/
def executing (s : Replay) : ℕ := s.keys.countP fun k => (s.lanes k).any fun l => l.worker.isExecuting

/-- What holds in every state of a run. `flow`: a lane's events were handed on or
are on their way, in order. -/
structure Inv (r : Replayer F) (s : Replay) : Prop where
  flow : ∀ k, s.dequeued.filter (ofLane r k) =
    s.handed.filter (ofLane r k) ++ s.pendingAt k ++ s.phase.inHand.filter (ofLane r k)
  nodup : s.keys.Nodup
  keys : ∀ k, k ∈ s.keys ↔ s.lanes k ≠ none
  sem : s.sem = s.executing
  slots : s.sem ≤ r.concurrency
  gone : ∀ k l, s.lanes k = some l → ∀ left, l.worker = .gone left →
    (left = none ∧ l.buf = [] ∧ l.closed = true) ∨ (left ≠ none ∧ s.cancelled = true)
  closed : ∀ k l, s.lanes k = some l → l.closed = true → s.phase = .closing ∨ s.phase = .returned
  done : s.phase = .returned → ∀ k l, s.lanes k = some l → l.worker.isGone = true

variable {r : Replayer F} {s : Replay} {k : Bytes}

theorem inv_new (h : 0 ≤ r.concurrency) : Inv r {} where
  flow _ := rfl
  nodup := List.nodup_nil
  keys k := by simp [GoMap.empty]
  sem := rfl
  slots := h
  gone _ _ hl := by cases hl
  closed _ _ hl := by cases hl
  done hp := by cases hp

theorem Inv.mem_keys (h : Inv r s) {l : Lane} (hl : s.lanes k = some l) : k ∈ s.keys := by
  rw [h.keys, hl]
  exact Option.some_ne_none l

/-- The events on their way in a lane are its own. -/
theorem Inv.ofLane_pending (h : Inv r s) {l : Lane} (hl : s.lanes k = some l) {ev : SQLEvent}
    (hev : ev ∈ l.pending) : laneKey r ev = k := by
  have hmem : ev ∈ s.dequeued.filter (ofLane r k) := by
    rw [h.flow k, pendingAt, hl]
    exact List.mem_append_left _ (List.mem_append_right _ hev)
  simpa [ofLane] using (List.mem_filter.mp hmem).2

/-- **A goroutine's action.** It hands on `hs`, the oldest of its lane, and takes
or frees a slot if it starts or ends an execution. -/
theorem Inv.move (h : Inv r s) {l : Lane} (hl : s.lanes k = some l) (l' : Lane) (hs : List SQLEvent) (n : ℕ)
    (hpending : hs ++ l'.pending = l.pending)
    (hsem : n + l.worker.isExecuting.toNat = s.sem + l'.worker.isExecuting.toNat) (hn : n ≤ r.concurrency)
    (hgone : ∀ left, l'.worker = .gone left →
      (left = none ∧ l'.buf = [] ∧ l'.closed = true) ∨ (left ≠ none ∧ s.cancelled = true))
    (hclosed : l'.closed = true → s.phase = .closing ∨ s.phase = .returned)
    (hdone : l.worker.isGone = true → l'.worker.isGone = true) :
    Inv r { s with lanes := s.lanes.set k l', sem := n, handed := s.handed ++ hs } where
  flow k' := by
    have hkeys : ∀ ev ∈ hs, laneKey r ev = k := fun ev hev =>
      h.ofLane_pending hl (hpending ▸ List.mem_append_left _ hev)
    have hflow := h.flow k'
    dsimp only [pendingAt] at hflow ⊢
    by_cases hk : k' = k
    · subst hk
      have hall : hs.filter (ofLane r k') = hs := by
        apply List.filter_eq_self.mpr
        intro ev hev
        simpa [ofLane] using hkeys ev hev
      rw [hl, Option.elim_some, ← hpending] at hflow
      rw [GoMap.set_self, Option.elim_some, hflow, List.filter_append, hall]
      simp only [List.append_assoc]
    · have hnone : hs.filter (ofLane r k') = [] := by
        apply List.filter_eq_nil_iff.mpr
        intro ev hev
        simpa [ofLane, hkeys ev hev] using Ne.symm hk
      rw [GoMap.set_of_ne _ _ hk, hflow, List.filter_append, hnone, List.append_nil]
  nodup := h.nodup
  keys k' := by
    by_cases hk : k' = k
    · subst hk
      simp [h.mem_keys hl]
    · dsimp only
      rw [GoMap.set_of_ne _ _ hk]
      exact h.keys k'
  sem := by
    have hcount := GoMap.countP_set s.lanes (fun l => l.worker.isExecuting) (w := l') hl h.nodup (h.mem_keys hl)
    have hold := h.sem
    unfold executing at hold ⊢
    dsimp only
    omega
  slots := hn
  gone k' l'' hl'' := by
    rcases GoMap.set_eq_some hl'' with ⟨rfl, rfl⟩ | ⟨-, hl''⟩
    · exact hgone
    · exact h.gone k' l'' hl''
  closed k' l'' hl'' := by
    rcases GoMap.set_eq_some hl'' with ⟨rfl, rfl⟩ | ⟨-, hl''⟩
    · exact hclosed
    · exact h.closed k' l'' hl''
  done hp k' l'' hl'' := by
    rcases GoMap.set_eq_some hl'' with ⟨rfl, rfl⟩ | ⟨-, hl''⟩
    · exact hdone (h.done hp k' l hl)
    · exact h.done hp k' l'' hl''

/-- The dispatcher goes from one place to another with nothing in hand. -/
theorem Inv.setPhase (h : Inv r s) {p : Phase} (hold : s.phase.inHand = []) (hnew : p.inHand = [])
    (hclosed : s.phase = .closing ∨ s.phase = .returned → p = .closing ∨ p = .returned)
    (hdone : p = .returned → ∀ k l, s.lanes k = some l → l.worker.isGone = true) : Inv r { s with phase := p } where
  flow k := by
    have hflow := h.flow k
    rw [hold] at hflow
    dsimp only
    rw [hnew]
    exact hflow
  nodup := h.nodup
  keys := h.keys
  sem := h.sem
  slots := h.slots
  gone := h.gone
  closed k l hl hc := hclosed (h.closed k l hl hc)
  done := hdone

/-- While the dispatcher has an event in hand, no lane is closed. -/
theorem Inv.open_of_routing (h : Inv r s) {ev : SQLEvent} (hp : s.phase = .routing ev) {l : Lane}
    (hl : s.lanes k = some l) : l.closed = false := by
  by_contra hc
  rcases h.closed k l hl (by simpa using hc) with hp' | hp' <;> rw [hp] at hp' <;> cases hp'

theorem Inv.dequeue (h : Inv r s) {ev : SQLEvent} (hp : s.phase = .dequeuing) (rest : List SQLEvent) (lag : ℤ) :
    Inv r { s with upstream := rest, phase := .routing ev, lag, dequeued := s.dequeued ++ [ev] } where
  flow k := by
    have hflow := h.flow k
    rw [hp] at hflow
    dsimp only [Phase.inHand] at hflow ⊢
    rw [List.filter_append, hflow, List.filter_nil, List.append_nil]
    rfl
  nodup := h.nodup
  keys := h.keys
  sem := h.sem
  slots := h.slots
  gone := h.gone
  closed k l hl hc := by
    rcases h.closed k l hl hc with hp' | hp' <;> rw [hp] at hp' <;> cases hp'
  done hp' := by cases hp'

/-- A new lane, empty, with its goroutine. -/
theorem Inv.openLane (h : Inv r s) (hp : s.phase ≠ .returned) (hl : s.lanes k = none) :
    Inv r { s with lanes := s.lanes.set k {}, keys := s.keys ++ [k] } := by
  have hfresh : k ∉ s.keys := fun hmem => (h.keys k).mp hmem hl
  have hne : ∀ k' ∈ s.keys, k' ≠ k := fun k' hk' heq => hfresh (heq ▸ hk')
  refine ⟨fun k' => ?_, ?_, fun k' => ?_, ?_, h.slots, fun k' l' hl' => ?_, fun k' l' hl' => ?_,
    fun hp' => absurd hp' hp⟩
  · have hflow := h.flow k'
    dsimp only [pendingAt] at hflow ⊢
    by_cases hk : k' = k
    · subst hk
      rw [hl] at hflow
      rw [GoMap.set_self, hflow]
      rfl
    · rw [GoMap.set_of_ne _ _ hk, hflow]
  · apply List.nodup_append.mpr
    refine ⟨h.nodup, List.pairwise_singleton _ _, fun a ha b hb => ?_⟩
    rw [List.mem_singleton.mp hb]
    exact hne a ha
  · dsimp only
    rw [List.mem_append, List.mem_singleton]
    by_cases hk : k' = k
    · simp [hk]
    · rw [GoMap.set_of_ne _ _ hk, h.keys]
      simp [hk]
  · have hsame : s.keys.countP (fun k' => (s.lanes.set k {} k').any fun l => l.worker.isExecuting) = s.executing := by
      apply List.countP_congr
      intro k' hk'
      rw [GoMap.set_of_ne _ _ (hne k' hk')]
    calc s.sem = s.executing + 0 := h.sem
      _ = _ := by
        unfold executing at hsame ⊢
        dsimp only
        rw [List.countP_append, hsame, List.countP_singleton, GoMap.set_self]
        rfl
  · rcases GoMap.set_eq_some hl' with ⟨rfl, rfl⟩ | ⟨-, hl'⟩
    · exact fun left hw => by cases hw
    · exact h.gone k' l' hl'
  · rcases GoMap.set_eq_some hl' with ⟨rfl, rfl⟩ | ⟨-, hl'⟩
    · exact fun hc => by cases hc
    · exact h.closed k' l' hl'

/-- The event in hand goes to the end of its lane. -/
theorem Inv.append (h : Inv r s) {ev : SQLEvent} (hp : s.phase = .routing ev) {l : Lane}
    (hl : s.lanes (laneKey r ev) = some l) :
    Inv r { s with lanes := s.lanes.set (laneKey r ev) { l with buf := l.buf ++ [ev] }, phase := .checking } := by
  have hopen := h.open_of_routing hp hl
  refine ⟨fun k => ?_, h.nodup, fun k => ?_, ?_, h.slots, fun k l' hl' => ?_, fun k l' hl' hc => ?_,
    fun hp' => by cases hp'⟩
  · have hflow := h.flow k
    rw [hp] at hflow
    dsimp only [pendingAt, Phase.inHand] at hflow ⊢
    by_cases hk : k = laneKey r ev
    · subst hk
      have hself : [ev].filter (ofLane r (laneKey r ev)) = [ev] := by simp [ofLane]
      rw [hl, hself] at hflow
      rw [GoMap.set_self, hflow]
      simp [Lane.pending]
    · have hother : [ev].filter (ofLane r k) = [] := by simpa [ofLane] using Ne.symm hk
      rw [hother] at hflow
      rw [GoMap.set_of_ne _ _ hk]
      exact hflow
  · dsimp only
    by_cases hk : k = laneKey r ev
    · subst hk
      simp [h.mem_keys hl]
    · rw [GoMap.set_of_ne _ _ hk]
      exact h.keys k
  · have hcount := GoMap.countP_set s.lanes (fun l => l.worker.isExecuting) (w := { l with buf := l.buf ++ [ev] })
      hl h.nodup (h.mem_keys hl)
    calc s.sem = s.executing := h.sem
      _ = _ := (Nat.add_right_cancel hcount).symm
  · rcases GoMap.set_eq_some hl' with ⟨rfl, rfl⟩ | ⟨-, hl'⟩
    · intro left hw
      rcases h.gone _ l hl left hw with ⟨-, -, hc⟩ | hleft
      · rw [hopen] at hc
        cases hc
      · exact Or.inr hleft
    · exact h.gone k l' hl'
  · rcases GoMap.set_eq_some hl' with ⟨rfl, rfl⟩ | ⟨-, hl'⟩
    · rw [hopen] at hc
      cases hc
    · rw [h.open_of_routing hp hl'] at hc
      cases hc

theorem Inv.route (h : Inv r s) {ev : SQLEvent} (hp : s.phase = .routing ev) :
    Inv r { s.enqueueLane (laneKey r ev) ev with phase := .checking } := by
  unfold enqueueLane
  rcases hl : s.lanes (laneKey r ev) with _ | l
  · have hopened := (h.openLane (by rw [hp]; exact Phase.noConfusion) hl).append hp (GoMap.set_self _ _ _)
    rwa [GoMap.set_set] at hopened
  · exact h.append hp hl

theorem Inv.onLane (h : Inv r s) {f : Lane → Replay} (hf : ∀ l, s.lanes k = some l → Inv r (f l)) :
    Inv r (s.onLane k f) := by
  unfold Replay.onLane
  rcases hl : s.lanes k with _ | l
  · exact h
  · exact hf l hl

/-- An action of a goroutine that neither hands an event on nor starts or ends an
execution. -/
theorem Inv.setLane (h : Inv r s) {l l' : Lane} (hl : s.lanes k = some l) (hpending : l'.pending = l.pending)
    (hexec : l'.worker.isExecuting = l.worker.isExecuting)
    (hgone : ∀ left, l'.worker = .gone left →
      (left = none ∧ l'.buf = [] ∧ l'.closed = true) ∨ (left ≠ none ∧ s.cancelled = true))
    (hclosed : l'.closed = true → s.phase = .closing ∨ s.phase = .returned)
    (hdone : l.worker.isGone = true → l'.worker.isGone = true) : Inv r (s.setLane k l') := by
  have hmoved := h.move hl l' [] s.sem hpending (by rw [hexec]) h.slots hgone hclosed hdone
  rwa [List.append_nil] at hmoved

theorem Inv.take (h : Inv r s) {l : Lane} (hl : s.lanes k = some l) : Inv r (s.setLane k l.take) := by
  rcases l.take_cases with htake | ⟨ev, buf, hw, hb, htake⟩ | ⟨hw, hb, hc, htake⟩ <;> rw [htake]
  · exact h.setLane hl rfl rfl (h.gone k l hl) (h.closed k l hl) id
  · refine h.setLane hl ?_ (by rw [hw]; rfl) (fun left hleft => by cases hleft) (h.closed k l hl) fun hg => ?_
    · simp [Lane.pending, Worker.inHand, hw, hb]
    · rw [hw] at hg
      cases hg
  · refine h.setLane hl ?_ (by rw [hw]; rfl) (fun left hleft => ?_) (h.closed k l hl) fun _ => rfl
    · simp [Lane.pending, Worker.inHand, hw]
    · exact Or.inl ⟨(Worker.gone.inj hleft).symm, hb, hc⟩

theorem Inv.start (h : Inv r s) {l : Lane} (hl : s.lanes k = some l) {ev : SQLEvent} (hw : l.worker = .holding ev)
    (hslot : s.sem < r.concurrency) :
    Inv r { s.setLane k { l with worker := .executing ev } with sem := s.sem + 1, handed := s.handed ++ [ev] } := by
  apply h.move hl
  · simp [Lane.pending, Worker.inHand, hw]
  · rw [hw]
    rfl
  · exact_mod_cast hslot
  · exact fun left hleft => by cases hleft
  · exact h.closed k l hl
  · intro hg
    rw [hw] at hg
    cases hg

theorem Inv.giveUp (h : Inv r s) {l : Lane} (hl : s.lanes k = some l) {ev : SQLEvent} (hw : l.worker = .holding ev)
    (hc : s.cancelled = true) : Inv r (s.setLane k { l with worker := .gone (some ev) }) := by
  apply h.setLane hl
  · simp [Lane.pending, Worker.inHand, hw]
  · rw [hw]
    rfl
  · intro left hleft
    rw [← Worker.gone.inj hleft]
    exact Or.inr ⟨Option.some_ne_none ev, hc⟩
  · exact h.closed k l hl
  · exact fun _ => rfl

theorem Inv.finish (h : Inv r s) {l : Lane} (hl : s.lanes k = some l) {ev : SQLEvent} (hw : l.worker = .executing ev) :
    Inv r { s.setLane k { l with worker := .ready } with sem := s.sem - 1 } := by
  -- the execution that ends holds a slot
  have hpos : 0 < s.sem := by
    rw [h.sem]
    apply List.countP_pos_iff.mpr
    refine ⟨k, h.mem_keys hl, ?_⟩
    rw [hl]
    simp [hw, Worker.isExecuting]
  have hslots := h.slots
  have hmoved := h.move hl { l with worker := .ready } [] (s.sem - 1)
    (by simp [Lane.pending, Worker.inHand, hw]) (by simp [hw, Worker.isExecuting]; omega) (by omega)
    (fun left hleft => by cases hleft) (h.closed k l hl) (fun hg => by rw [hw] at hg; cases hg)
  rwa [List.append_nil] at hmoved

variable [Float64 F]

/-- **The step.** -/
theorem Inv.step (h : Inv r s) (a : Act) : Inv r (step r s a) := by
  rcases a with ev | _ | _ | _ | now | _ | _ | k | _ | k | k | k | k <;> dsimp only [Replay.step]
  case arrive => exact ⟨h.flow, h.nodup, h.keys, h.sem, h.slots, h.gone, h.closed, h.done⟩
  case cancel =>
    exact ⟨h.flow, h.nodup, h.keys, h.sem, h.slots,
      fun k l hl left hw => (h.gone k l hl left hw).imp_right fun hleft => ⟨hleft.1, rfl⟩, h.closed, h.done⟩
  case check =>
    split_ifs with hc
    · exact h.setPhase (by rw [hc.1]; rfl) rfl (by simp [hc.1]) (fun hp => by cases hp)
    · exact h
  case leave =>
    split_ifs with hc
    · exact h.setPhase (by rw [hc.1]; rfl) rfl (fun _ => Or.inl rfl) (fun hp => by cases hp)
    · exact h
  case dequeue =>
    split
    · rename_i hp hu
      exact h.dequeue hp _ _
    · exact h
  case drained =>
    split_ifs with hc
    · exact h.setPhase (by rw [hc]; rfl) rfl (fun _ => Or.inl rfl) (fun hp => by cases hp)
    · exact h
  case route =>
    split
    · rename_i hp
      exact h.route hp
    · exact h
  case closeLane =>
    split_ifs with hc
    · exact h.onLane fun l hl => h.setLane hl rfl rfl
        (fun left hw => (h.gone k l hl left hw).imp_left fun hleft => ⟨hleft.1, hleft.2.1, rfl⟩) (fun _ => Or.inl hc) id
    · exact h
  case ret =>
    split_ifs with hc
    · refine h.setPhase (by rw [hc.1]; rfl) rfl (fun _ => Or.inr rfl) fun _ k l hl => ?_
      have hk := hc.2 k (h.mem_keys hl)
      rw [hl] at hk
      exact (Bool.and_eq_true_iff.mp hk).2
    · exact h
  case take => exact h.onLane fun l hl => h.take hl
  case start =>
    refine h.onLane fun l hl => ?_
    split
    · rename_i hw
      split_ifs with hslot
      · exact h.start hl hw hslot
      · exact h
    · exact h
  case giveUp =>
    refine h.onLane fun l hl => ?_
    split
    · rename_i hw
      split_ifs with hc
      · exact h.giveUp hl hw hc
      · exact h
    · exact h
  case finish =>
    refine h.onLane fun l hl => ?_
    split
    · rename_i hw
      exact h.finish hl hw
    · exact h

theorem Inv.foldl : ∀ (acts : List Act) {s : Replay}, Inv r s → Inv r (acts.foldl (Replay.step r) s)
  | [], _, h => h
  | a :: acts, _, h => Inv.foldl acts (h.step a)

/-! ### Captured order -/

theorem inv_run (cfg : ReplayConfig) (guard : Option (Guard F)) (acts : List Act) :
    Inv (configureMode cfg guard) (run (configureMode cfg guard) acts) := by
  have hpos := configureMode_concurrency_pos cfg guard
  exact Inv.foldl acts (inv_new (by omega))

omit [Float64 F]

theorem Inv.handed_isPrefix (h : Inv r s) (k : Bytes) :
    s.handed.filter (ofLane r k) <+: s.dequeued.filter (ofLane r k) := by
  rw [h.flow k, List.append_assoc]
  exact List.prefix_append _ _

/-- Once `Run` has returned with a live context, nothing is on its way. -/
theorem Inv.handed_all (h : Inv r s) (hp : s.phase = .returned) (hc : s.cancelled = false) (k : Bytes) :
    s.handed.filter (ofLane r k) = s.dequeued.filter (ofLane r k) := by
  have hpending : s.pendingAt k = [] := by
    unfold pendingAt
    rcases hl : s.lanes k with _ | l
    · rfl
    · have hgone := h.done hp k l hl
      rcases hw : l.worker with _ | ev | ev | left <;> rw [hw] at hgone <;> try cases hgone
      rcases h.gone k l hl left hw with ⟨rfl, hb, -⟩ | ⟨-, hcancel⟩
      · simp [Lane.pending, hw, hb, Worker.inHand]
      · rw [hc] at hcancel
        cases hcancel
  rw [h.flow k, hpending, hp]
  simp [Phase.inHand]

/-- The events of a connection are all of one lane. -/
theorem filter_conn (r : Replayer F) (c : ConnID) (evs : List SQLEvent) :
    (evs.filter (ofLane r (if r.serial then serialLaneKey else c.key))).filter (·.conn = c) =
      evs.filter (·.conn = c) := by
  rw [List.filter_filter]
  apply List.filter_congr
  intro ev _
  by_cases hc : ev.conn = c
  · simp [ofLane, laneKey, hc]
  · simp [hc]

/-- In serial mode there is one lane. -/
theorem filter_serial (hr : r.serial = true) (evs : List SQLEvent) : evs.filter (ofLane r serialLaneKey) = evs := by
  apply List.filter_eq_self.mpr
  intro ev _
  simp [ofLane, laneKey, hr]

variable [Float64 F]

/-- **Captured order, each event once.** In every mode and every interleaving,
the events of a connection are handed to the executor in the order in which they
were dequeued, none twice, and all of them once `Run` has returned if the context
was not cancelled. In serial mode this holds over all connections. No more than
`concurrency` executions are in progress. -/
theorem replayed_in_order (cfg : ReplayConfig) (guard : Option (Guard F)) (acts : List Act) :
    let r := configureMode cfg guard
    let s := run r acts
    (∀ c, s.handed.filter (·.conn = c) <+: s.dequeued.filter (·.conn = c)) ∧
    (∀ ev, s.handed.count ev ≤ s.dequeued.count ev) ∧
    (s.phase = .returned → s.cancelled = false →
      ∀ c, s.handed.filter (·.conn = c) = s.dequeued.filter (·.conn = c)) ∧
    (cfg.mode = .serial → s.handed <+: s.dequeued ∧
      (s.phase = .returned → s.cancelled = false → s.handed = s.dequeued)) ∧
    s.executing ≤ r.concurrency := by
  intro r s
  have h : Inv r s := inv_run cfg guard acts
  have hconn : ∀ c, s.handed.filter (·.conn = c) <+: s.dequeued.filter (·.conn = c) := by
    intro c
    rw [← filter_conn r c s.handed, ← filter_conn r c s.dequeued]
    exact (h.handed_isPrefix _).filter _
  refine ⟨hconn, fun ev => ?_, fun hp hc c => ?_, fun hmode => ?_, ?_⟩
  · calc s.handed.count ev = (s.handed.filter (·.conn = ev.conn)).count ev := (List.count_filter (by simp)).symm
      _ ≤ (s.dequeued.filter (·.conn = ev.conn)).count ev := (hconn ev.conn).sublist.count_le ev
      _ = s.dequeued.count ev := List.count_filter (by simp)
  · rw [← filter_conn r c s.handed, h.handed_all hp hc, filter_conn]
  · have hserial : r.serial = true := by simp [r, configureMode, hmode]
    rw [← filter_serial hserial s.handed, ← filter_serial hserial s.dequeued]
    exact ⟨h.handed_isPrefix _, fun hp hc => h.handed_all hp hc _⟩
  · rw [← h.sem]
    exact h.slots

/-- Two connections in bounded mode: the second is executed first, and when `Run`
returns both streams were handed on whole. -/
theorem replayed_in_order_returned :
    let a : ConnID := ⟨.v4 0x0a000001, 5000, .v4 0x0a0000ff, 5432⟩
    let b : ConnID := { a with srcPort := 5001 }
    let e₁ : SQLEvent := { conn := a, sql := bytes "SELECT 1", timestamp := 0 }
    let e₂ : SQLEvent := { e₁ with conn := b }
    let e₃ : SQLEvent := { e₁ with sql := bytes "SELECT 2" }
    let route : List Act := [.check, .dequeue 0, .route]
    let s := run (F := ℚ) (configureMode {} none) ([.arrive e₁, .arrive e₂, .arrive e₃] ++ route ++ route ++ route ++
      [.take b.key, .start b.key, .take a.key, .start a.key, .finish b.key, .finish a.key, .take a.key, .start a.key,
        .finish a.key, .check, .drained, .closeLane a.key, .closeLane b.key, .take a.key, .take b.key, .ret])
    s.phase = .returned ∧ s.cancelled = false ∧ s.handed = [e₂, e₁, e₃] ∧
      ∀ c, s.handed.filter (·.conn = c) = s.dequeued.filter (·.conn = c) := by
  refine ⟨by decide +kernel, by decide +kernel, by decide +kernel, ?_⟩
  exact (replayed_in_order {} none _).2.2.1 (by decide +kernel) (by decide +kernel)

end Replay
end PgShadow
