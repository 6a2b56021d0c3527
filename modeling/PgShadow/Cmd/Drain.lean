/-
# The running pipeline and its shutdown

`cmd/pgshadow/pipeline.go`, from `startPipeline` to the end of `drainWithin`, with
all that runs in between: the producer's goroutines, the stream processor that the
reassembler calls back, the ring buffer, and the replayer with its dispatcher and
lanes. On a signal the drain stops the producer, waits for it, closes the queue,
waits for the consumer and closes the pool, giving up a wait at the deadline. All
of it interleaves in any way.

What the reassembly library hands to the processor is an input (`Act.callback`);
it can do so only during a call of the reassembler. The queue is the one that the
ring buffer refines (`Fifo.ringStep`), with its content in `Replay.upstream`.

The lanes call the executor (`r.exec.Exec`) with the events that the processor enqueued
for a connection, in that order and none twice, and with all of them unless a deadline
passes, the queue overflows or the error policy stops the replay: `replayed_as_kept`.
What the executor sends on to the target, after the guard, the pacing, the error policy
and the dialect, is the subject of `PgShadow.Replayer.Executor`. Nothing is closed while
it is in use, unless a deadline has passed: `orderly_shutdown`.

Not covered: pauses, resumes and restarts of the capture (`PgShadow.Cmd.Pipeline`), so
there is one producer; the file and Kafka queues; and the metrics poller, which only
reads.

Key definitions: `Program`, `Program.step`, `Stage`.
Key theorems: `Program.Inv.step`, `replayed_as_kept`, `orderly_shutdown`.
-/
import PgShadow.Cmd.Producer
import PgShadow.Pipeline.Isolation
import PgShadow.Queue.RingFifo
import PgShadow.Replayer.Return

namespace PgShadow

/-! ### The program -/

/-- Where `run` and its drain stand: before the signal, waiting for the producer,
about to close the queue, waiting for the consumer with a deadline, about to cancel
it if a deadline has passed, waiting for it without one, about to close the pool,
or through. -/
inductive Stage
  | serving
  | waitingProducer
  | closingQueue
  | waitingConsumer
  | forcing
  | awaiting
  | closingPool
  | returned
deriving DecidableEq

/-- `queue.Close` was called. -/
def Stage.queueClosed : Stage → Bool
  | .serving | .waitingProducer | .closingQueue => false
  | _ => true

/-- The producer was waited for. -/
def Stage.pastProducer : Stage → Bool
  | .serving | .waitingProducer => false
  | _ => true

theorem Stage.pastProducer_of_queueClosed {st : Stage} (h : st.queueClosed = true) : st.pastProducer = true := by
  cases st <;> first | rfl | cases h

/-- The consumer was waited for without a deadline. -/
def Stage.pastConsumer : Stage → Bool
  | .closingPool | .returned => true
  | _ => false

/-- The running program. `enqueuing` are the events that the callback in progress
has still to enqueue. The last four fields are history: the callbacks, the events
offered to the open and to the closed queue, and whether the queue overflowed. -/
structure Program (Pkt : Type) where
  producer : CaptureProducer Pkt
  sp : StreamProcessor
  enqueuing : List SQLEvent := []
  replay : Replay := {}
  stage : Stage := .serving
  signalled : Bool := false
  timedOut : Bool := false
  aborted : Bool := false
  callbacks : List Call := []
  offered : List SQLEvent := []
  refused : List SQLEvent := []
  overflowed : Bool := false

namespace Program

variable {Pkt F : Type}

/-- The pool is closed by the last step. -/
def poolClosed (s : Program Pkt) : Bool := s.stage = .returned

def queue (s : Program Pkt) : Fifo := ⟨s.replay.upstream, s.stage.queueClosed⟩

/-- The actions: of the producer's goroutines; of the reassembler in a call of the
processor's goroutine, which calls the handler back, and of the handler, which
enqueues an event; of the consumer; of the error policy `Abort`; of the operator;
and of `run`, where a wait ends or its deadline passes. -/
inductive Act (Pkt : Type)
  | producer (a : CaptureProducer.Act Pkt)
  | callback (call : Call)
  | enqueue
  | consumer (a : Replay.Act)
  | abort
  | signal
  | main
  | deadline
deriving DecidableEq

/-- The goroutines of the producer. The context is not theirs to cancel, and a call
of the reassembler returns after the callback in progress. -/
def produce (s : Program Pkt) (a : CaptureProducer.Act Pkt) : Program Pkt :=
  match a with
  | .cancel => s
  | .processorReturn => if s.enqueuing = [] then { s with producer := s.producer.step .processorReturn } else s
  | a => { s with producer := s.producer.step a }

def callback (s : Program Pkt) (call : Call) : Program Pkt :=
  match s.producer.processor, s.enqueuing with
  | .calling _, [] =>
    { s with
      sp := (s.sp.step call).1
      enqueuing := enqueued (s.sp.step call).2.effects
      callbacks := s.callbacks ++ [call] }
  | _, _ => s

/-- The next `Enqueue` of the callback in progress. -/
def enqueue (cap : ℕ) (policy : OverflowPolicy) (s : Program Pkt) : Program Pkt :=
  match s.enqueuing with
  | [] => s
  | ev :: rest =>
    let r := Fifo.ringStep cap policy s.queue (.enqueue ev)
    if r.2 = .enqueue .waits then s
    else if s.stage.queueClosed then { s with enqueuing := rest, refused := s.refused ++ [ev] }
    else
      { s with
        enqueuing := rest
        replay := { s.replay with upstream := r.1.items }
        offered := s.offered ++ [ev]
        overflowed := s.overflowed || r.2.notified }

/-- The goroutines of the consumer. `Dequeue` ends the loop when it returns no
event. -/
def consume [Float64 F] (cap : ℕ) (policy : OverflowPolicy) (r : Replayer F) (s : Program Pkt) (a : Replay.Act) :
    Program Pkt :=
  match a with
  | .arrive _ | .cancel => s
  | .drained =>
    if (Fifo.ringStep cap policy s.queue (.dequeue (!s.replay.cancelled))).2 = .dequeue (.returns none) then
      { s with replay := s.replay.step r .drained }
    else s
  | a => { s with replay := s.replay.step r a }

/-- The next step of `run`: of `drainWithin`, after the signal. That it cancels a
consumer that has returned is left out. -/
def main (s : Program Pkt) : Program Pkt :=
  match s.stage with
  | .serving => if s.signalled then { s with producer := s.producer.step .cancel, stage := .waitingProducer } else s
  | .waitingProducer => if s.producer.done then { s with stage := .closingQueue } else s
  | .closingQueue => { s with stage := .waitingConsumer }
  | .waitingConsumer => if s.replay.phase = .returned then { s with stage := .forcing } else s
  | .forcing =>
    if s.timedOut then { s with replay := { s.replay with cancelled := true }, stage := .awaiting }
    else { s with stage := .awaiting }
  | .awaiting => if s.replay.phase = .returned then { s with stage := .closingPool } else s
  | .closingPool => { s with stage := .returned }
  | .returned => s

/-- The deadline of the wait passes. -/
def deadline (s : Program Pkt) : Program Pkt :=
  match s.stage with
  | .waitingProducer => { s with stage := .closingQueue, timedOut := true }
  | .waitingConsumer => { s with stage := .forcing, timedOut := true }
  | _ => s

def step [Float64 F] (cap : ℕ) (policy : OverflowPolicy) (r : Replayer F) (s : Program Pkt) : Act Pkt → Program Pkt
  | .producer a => s.produce a
  | .callback call => s.callback call
  | .enqueue => s.enqueue cap policy
  | .consumer a => s.consume cap policy r a
  | .abort =>
    if s.replay.executing = 0 then s else { s with replay := { s.replay with cancelled := true }, aborted := true }
  | .signal => { s with producer := s.producer.step .cancel, signalled := true }
  | .main => s.main
  | .deadline => s.deadline

/-- `startPipeline`, with the channel of the source. -/
def start (srcCap : ℕ) (sp : StreamProcessor) : Program Pkt := { producer := { src := { cap := srcCap } }, sp }

def run [Float64 F] (srcCap cap : ℕ) (policy : OverflowPolicy) (r : Replayer F) (sp : StreamProcessor)
    (acts : List (Act Pkt)) : Program Pkt :=
  acts.foldl (step cap policy r) (start srcCap sp)

/-! ### What holds in every state -/

/-- The context of the consumer is cancelled by a deadline or by the error policy. -/
def forced (s : Program Pkt) : Bool := s.timedOut || s.aborted

structure Inv (policy : OverflowPolicy) (sp₀ : StreamProcessor) (r : Replayer F) (s : Program Pkt) : Prop where
  producer : s.producer.Inv
  replay : s.replay.Inv r
  sp : s.sp = sp₀.run s.callbacks
  events : s.offered ++ s.refused ++ s.enqueuing = enqueued (sp₀.effects s.callbacks)
  calling : s.enqueuing ≠ [] → ∃ last, s.producer.processor = .calling last
  queue : (s.replay.dequeued ++ s.replay.upstream).Sublist s.offered
  blocking : policy = .block → s.overflowed = false
  whole : s.overflowed = false → s.replay.dequeued ++ s.replay.upstream = s.offered
  waited : s.stage.pastProducer = true → s.producer.done = true ∨ s.timedOut = true
  refused : s.timedOut = false ∨ s.stage.queueClosed = false → s.refused = []
  cancelled : s.replay.cancelled = true → s.forced = true
  drained : Replay.ending s.replay.phase = true → s.forced = false →
    s.stage.queueClosed = true ∧ s.replay.upstream = []
  stopped : s.stage.pastConsumer = true → s.replay.phase = .returned

theorem inv_start (srcCap : ℕ) (policy : OverflowPolicy) (sp : StreamProcessor) (r : Replayer F)
    (hr : 0 ≤ r.concurrency) : Inv policy sp r (start srcCap sp : Program Pkt) where
  producer := CaptureProducer.inv_new srcCap
  replay := Replay.inv_new hr
  sp := rfl
  events := rfl
  calling h := absurd rfl h
  queue := List.Sublist.refl _
  blocking _ := rfl
  whole _ := rfl
  waited h := by cases h
  refused _ := rfl
  cancelled h := by cases h
  drained h := by cases h
  stopped h := by cases h

variable {cap : ℕ} {policy : OverflowPolicy} {sp₀ : StreamProcessor} {r : Replayer F} {s : Program Pkt}

/-- A producer that is through makes no more calls. -/
theorem Inv.idle_of_done (h : Inv policy sp₀ r s) (hd : s.producer.done = true) : s.enqueuing = [] := by
  by_contra hne
  obtain ⟨last, hl⟩ := h.calling hne
  rw [(h.producer.done hd).2] at hl
  cases hl

/-- An action of the producer's goroutines. -/
theorem Inv.setProducer (h : Inv policy sp₀ r s) {p : CaptureProducer Pkt} (hp : p.Inv)
    (hcalling : s.enqueuing ≠ [] → ∃ last, p.processor = .calling last)
    (hdone : s.producer.done = true → p.done = true) :
    Inv policy sp₀ r { s with producer := p } :=
  { h with producer := hp, calling := hcalling, waited := fun hs => (h.waited hs).imp_left hdone }

theorem Inv.stopProducer (h : Inv policy sp₀ r s) : Inv policy sp₀ r { s with producer := s.producer.step .cancel } :=
  h.setProducer (h.producer.step .cancel) h.calling id

theorem Inv.produce (h : Inv policy sp₀ r s) (a : CaptureProducer.Act Pkt) : Inv policy sp₀ r (s.produce a) := by
  have hother : a ≠ .processorReturn → Inv policy sp₀ r { s with producer := s.producer.step a } := fun ha =>
    h.setProducer (h.producer.step a)
      (fun hne => (h.calling hne).imp fun last hl => (s.producer.step_frame a).1 last hl ha)
      (s.producer.step_frame a).2
  unfold Program.produce
  split
  · exact h
  · split_ifs with hidle
    · exact h.setProducer (h.producer.step _) (absurd hidle) (s.producer.step_frame _).2
    · exact h
  · rename_i hreturn
    exact hother hreturn

theorem Inv.callback (h : Inv policy sp₀ r s) (call : Call) : Inv policy sp₀ r (s.callback call) := by
  unfold Program.callback
  split
  · rename_i last hcalling hidle
    have hevents := h.events
    rw [hidle, List.append_nil] at hevents
    refine { h with sp := ?_, events := ?_, calling := fun _ => ⟨last, hcalling⟩ }
    · show (s.sp.step call).1 = sp₀.run (s.callbacks ++ [call])
      rw [h.sp]
      exact (Machine.final_append _ sp₀ s.callbacks [call]).symm
    · show s.offered ++ s.refused ++ enqueued (s.sp.step call).2.effects = _
      rw [effects_append, enqueued_append, ← h.sp, ← hevents, effects_cons]
      simp [StreamProcessor.effects]
  · exact h

/-- What the open queue holds after an offer that did not have to wait. -/
theorem offered_items (cap : ℕ) (policy : OverflowPolicy) (items : List SQLEvent) (ev : SQLEvent) :
    let r := Fifo.ringStep cap policy ⟨items, false⟩ (.enqueue ev)
    r.1.items.Sublist (items ++ [ev]) ∧ (r.2 ≠ .enqueue .waits → r.2.notified = false → r.1.items = items ++ [ev]) ∧
      (policy = .block → r.2.notified = false) := by
  simp only [Fifo.ringStep, BoundedQueue.offer, Fifo.enqueueOutcome, Bool.false_eq_true, if_false]
  by_cases hroom : items.length < cap
  · simp [hroom, RingBuffer.Result.notified]
  · rcases policy with _ | _ | _
    · simp [hroom, RingBuffer.Result.notified]
    · simp [hroom, RingBuffer.Result.notified]
    · simp only [hroom, if_false, decide_false, Bool.false_eq_true, RingBuffer.Result.notified]
      exact ⟨(List.tail_sublist items).append_right _, by simp, by simp⟩

theorem Inv.enqueue (h : Inv policy sp₀ r s) : Inv policy sp₀ r (s.enqueue cap policy) := by
  unfold Program.enqueue
  split
  · exact h
  rename_i ev rest hev
  have hevents := h.events
  rw [hev] at hevents
  have hcalling := h.calling (by rw [hev]; exact List.cons_ne_nil _ _)
  dsimp only
  split_ifs with hwaits hclosed
  · exact h
  · -- the queue is closed, so the producer was not waited for to the end
    have htimedOut : s.timedOut = true := by
      rcases h.waited (s.stage.pastProducer_of_queueClosed hclosed) with hdone | ht
      · rw [h.idle_of_done hdone] at hev
        cases hev
      · exact ht
    refine { h with events := ?_, calling := fun _ => hcalling, refused := fun hr => ?_ }
    · rw [← hevents]
      simp
    · rw [htimedOut, hclosed] at hr
      simp at hr
  · have hopen : s.stage.queueClosed = false := by simpa using hclosed
    have hqueue : s.queue = ⟨s.replay.upstream, false⟩ := by rw [Program.queue, hopen]
    obtain ⟨hsub, hall, hblock⟩ := offered_items cap policy s.replay.upstream ev
    rw [hqueue] at hwaits ⊢
    refine { h with
      replay := h.replay.setUpstream _
      events := ?_
      calling := fun _ => hcalling
      queue := ?_
      blocking := fun hp => ?_
      whole := fun ho => ?_
      drained := fun hp hf => ?_ }
    · rw [h.refused (Or.inr hopen)] at hevents ⊢
      rw [← hevents]
      simp
    · have hgrown := h.queue.append_right [ev]
      rw [List.append_assoc] at hgrown
      exact (hsub.append_left _).trans hgrown
    · show (s.overflowed || _) = false
      rw [h.blocking hp, hblock hp]
      rfl
    · obtain ⟨hbefore, hnow⟩ := Bool.or_eq_false_iff.1 ho
      show s.replay.dequeued ++ (Fifo.ringStep cap policy ⟨s.replay.upstream, false⟩ (.enqueue ev)).1.items = _
      rw [hall hwaits hnow, ← List.append_assoc, h.whole hbefore]
    · have := (h.drained hp hf).1
      rw [hopen] at this
      cases this

/-- The consumer's `Dequeue` returns no event only if there is none, and the queue
is closed or the context cancelled. -/
theorem dequeue_none {q : Fifo} {live : Bool}
    (h : (Fifo.ringStep cap policy q (.dequeue live)).2 = .dequeue (.returns none)) :
    q.items = [] ∧ (q.closed = true ∨ live = false) := by
  simp only [Fifo.ringStep] at h
  split_ifs at h with hwaits
  · simp at h
  · have hnil : q.items = [] := by simpa using h
    refine ⟨hnil, ?_⟩
    by_contra hlive
    rw [not_or, Bool.not_eq_true, Bool.not_eq_false] at hlive
    exact hwaits ⟨hnil, hlive⟩

/-- `run` goes on to the stage `st`. -/
theorem Inv.setStage (h : Inv policy sp₀ r s) (st : Stage)
    (hclosed : s.stage.queueClosed = true → st.queueClosed = true)
    (hwaited : st.pastProducer = true → s.producer.done = true ∨ s.timedOut = true)
    (hstopped : st.pastConsumer = true → s.replay.phase = .returned) : Inv policy sp₀ r { s with stage := st } :=
  { h with
    waited := hwaited
    refused := fun hr => h.refused (hr.imp_right fun hopen => by
      by_contra hc
      rw [hclosed (by simpa using hc)] at hopen
      cases hopen)
    drained := fun hp hf => ⟨hclosed (h.drained hp hf).1, (h.drained hp hf).2⟩
    stopped := hstopped }

theorem Inv.timeOut (h : Inv policy sp₀ r s) : Inv policy sp₀ r { s with timedOut := true } :=
  { h with
    waited := fun _ => Or.inr rfl
    refused := fun hr => h.refused (Or.inr (hr.resolve_left Bool.noConfusion))
    cancelled := fun _ => rfl
    drained := fun _ hf => (by cases hf) }

theorem Inv.deadline (h : Inv policy sp₀ r s) : Inv policy sp₀ r s.deadline := by
  unfold Program.deadline
  split <;> rename_i hst
  · exact h.timeOut.setStage .closingQueue (by simp [hst, Stage.queueClosed]) (fun _ => Or.inr rfl)
      (by simp [Stage.pastConsumer])
  · exact h.timeOut.setStage .forcing (fun _ => rfl) (fun _ => Or.inr rfl) (by simp [Stage.pastConsumer])
  · exact h

theorem Inv.dequeued_sublist (h : Inv policy sp₀ r s) :
    s.replay.dequeued.Sublist (enqueued (sp₀.effects s.callbacks)) := by
  rw [← h.events, List.append_assoc]
  exact ((List.sublist_append_left _ _).trans h.queue).trans (List.sublist_append_left _ _)

/-- Nothing is lost on the way to the replayer. -/
theorem Inv.dequeued_all (h : Inv policy sp₀ r s) (hst : s.stage = .returned) (hf : s.forced = false)
    (ho : s.overflowed = false) : s.replay.dequeued = enqueued (sp₀.effects s.callbacks) := by
  have hin : s.timedOut = false := (Bool.or_eq_false_iff.1 hf).1
  have hreturned : s.replay.phase = .returned := h.stopped (by rw [hst]; rfl)
  have hempty := (h.drained (by rw [hreturned]; rfl) hf).2
  have hdone : s.producer.done = true :=
    (h.waited (by rw [hst]; rfl)).resolve_right (by rw [hin]; exact Bool.false_ne_true)
  rw [← h.events, h.refused (Or.inl hin), h.idle_of_done hdone, ← h.whole ho, hempty]
  simp

variable [Float64 F]

theorem Inv.setReplay (h : Inv policy sp₀ r s) {a : Replay.Act} (harrive : ∀ ev, a ≠ .arrive ev) (hcancel : a ≠ .cancel)
    (hdrained : a = .drained → s.forced = false → s.stage.queueClosed = true ∧ s.replay.upstream = []) :
    Inv policy sp₀ r { s with replay := s.replay.step r a } := by
  have hframe := s.replay.frame_step r harrive hcancel
  refine { h with
    replay := h.replay.step a
    queue := by rw [hframe.events]; exact h.queue
    whole := by rw [hframe.events]; exact h.whole
    cancelled := by rw [hframe.cancelled]; exact h.cancelled
    drained := fun hp hf => ?_
    stopped := fun hs => hframe.returned (h.stopped hs) }
  have hempty : s.stage.queueClosed = true ∧ s.replay.upstream = [] := by
    rcases hframe.ending hp with hbefore | hnone | hctx
    · exact h.drained hbefore hf
    · exact hdrained hnone hf
    · have hforced : s.forced = true := h.cancelled hctx
      rw [show s.forced = false from hf] at hforced
      cases hforced
  exact ⟨hempty.1, List.eq_nil_of_suffix_nil (hempty.2 ▸ hframe.upstream)⟩

theorem Inv.consume (h : Inv policy sp₀ r s) (a : Replay.Act) : Inv policy sp₀ r (s.consume cap policy r a) := by
  unfold Program.consume
  split
  · exact h
  · exact h
  · split_ifs with hnone
    · obtain ⟨hempty, hend⟩ := dequeue_none hnone
      refine h.setReplay (by simp) (by simp) fun _ hf => ⟨?_, hempty⟩
      refine hend.resolve_right fun hlive => ?_
      rw [h.cancelled (by simpa using hlive)] at hf
      cases hf
    · exact h
  · rename_i harrive hcancel hdrained
    exact h.setReplay harrive hcancel fun hd => absurd hd hdrained

/-- The consumer is cancelled for a reason. -/
theorem Inv.cancel (h : Inv policy sp₀ r s) {aborted : Bool} (hreason : (s.timedOut || aborted) = true) :
    Inv policy sp₀ r { s with replay := { s.replay with cancelled := true }, aborted } :=
  { h with
    replay := h.replay.step .cancel
    cancelled := fun _ => hreason
    drained := fun hp hf => by
      rw [show (s.timedOut || aborted) = false from hf] at hreason
      cases hreason }

theorem Inv.main (h : Inv policy sp₀ r s) : Inv policy sp₀ r s.main := by
  -- on to a stage between the close of the queue and that of the pool
  have hnext : ∀ {s : Program Pkt} {st : Stage}, Inv policy sp₀ r s → s.stage.pastProducer = true →
      st.queueClosed = true → (st.pastConsumer = true → s.replay.phase = .returned) →
      Inv policy sp₀ r { s with stage := st } := fun h hpast hclosed hstopped =>
    h.setStage _ (fun _ => hclosed) (fun _ => h.waited hpast) hstopped
  unfold Program.main
  split <;> rename_i hst
  · split_ifs
    · exact h.stopProducer.setStage .waitingProducer (by simp [hst, Stage.queueClosed]) (by simp [Stage.pastProducer])
        (by simp [Stage.pastConsumer])
    · exact h
  · split_ifs with hdone
    · exact h.setStage .closingQueue (by simp [hst, Stage.queueClosed]) (fun _ => Or.inl hdone)
        (by simp [Stage.pastConsumer])
    · exact h
  · exact hnext h (by rw [hst]; rfl) rfl (by simp [Stage.pastConsumer])
  · split_ifs
    · exact hnext h (by rw [hst]; rfl) rfl (by simp [Stage.pastConsumer])
    · exact h
  · split_ifs with htimedOut
    · exact hnext (h.cancel (by simp [htimedOut])) (by rw [hst]; rfl) rfl (by simp [Stage.pastConsumer])
    · exact hnext h (by rw [hst]; rfl) rfl (by simp [Stage.pastConsumer])
  · split_ifs with hreturned
    · exact hnext h (by rw [hst]; rfl) rfl fun _ => hreturned
    · exact h
  · exact hnext h (by rw [hst]; rfl) rfl fun _ => h.stopped (by rw [hst]; rfl)
  · exact h

/-- **The step.** -/
theorem Inv.step (h : Inv policy sp₀ r s) (a : Act Pkt) : Inv policy sp₀ r (s.step cap policy r a) := by
  rcases a with a | call | _ | a | _ | _ | _ | _ <;> dsimp only [Program.step]
  case producer => exact h.produce a
  case callback => exact h.callback call
  case enqueue => exact h.enqueue
  case consumer => exact h.consume a
  case abort =>
    split_ifs
    · exact h
    · exact h.cancel (Bool.or_true _)
  case signal =>
    exact { h.stopProducer with }
  case main => exact h.main
  case deadline => exact h.deadline

theorem Inv.foldl : ∀ (acts : List (Act Pkt)) {s : Program Pkt}, Inv policy sp₀ r s →
    Inv policy sp₀ r (acts.foldl (Program.step cap policy r) s)
  | [], _, h => h
  | a :: acts, _, h => Inv.foldl acts (h.step a)

theorem inv_run (srcCap cap : ℕ) (policy : OverflowPolicy) (cfg : ReplayConfig) (guard : Option (Guard F))
    (sp : StreamProcessor) (acts : List (Act Pkt)) :
    Inv policy sp (configureMode cfg guard) (run srcCap cap policy (configureMode cfg guard) sp acts) := by
  have hpos := configureMode_concurrency_pos cfg guard
  exact Inv.foldl acts (inv_start srcCap policy sp _ (by omega))

/-! ### End to end -/

/-- **What was kept is replayed.** At any time the executor has been called, of each
connection, with some of the events that the processor enqueued for it, in that order
and with each at most once. When the shutdown is through these are all of them, if no
deadline passed, no error stopped the replay and the queue did not overflow; under
the policy `block` it never does. -/
theorem replayed_as_kept (srcCap cap : ℕ) (policy : OverflowPolicy) (cfg : ReplayConfig) (guard : Option (Guard F))
    (sp : StreamProcessor) (acts : List (Act Pkt)) :
    let s := run srcCap cap policy (configureMode cfg guard) sp acts
    let kept := enqueued (sp.effects s.callbacks)
    (∀ c, (s.replay.handed.filter (·.conn = c)).Sublist (kept.filter (·.conn = c))) ∧
    (s.stage = .returned → s.timedOut = false → s.aborted = false → s.overflowed = false →
      ∀ c, s.replay.handed.filter (·.conn = c) = kept.filter (·.conn = c)) ∧
    (policy = .block → s.overflowed = false) := by
  intro s kept
  have h : Inv policy sp (configureMode cfg guard) s := inv_run srcCap cap policy cfg guard sp acts
  refine ⟨fun c => ?_, fun hst ht ha ho c => ?_, h.blocking⟩
  · exact (h.replay.handed_conn_isPrefix c).sublist.trans (h.dequeued_sublist.filter _)
  · have hf : s.forced = false := by simp [forced, ht, ha]
    have hlive : s.replay.cancelled = false := by
      by_contra hc
      rw [h.cancelled (by simpa using hc)] at hf
      cases hf
    have hall := h.replay.handed_all (h.stopped (by rw [hst]; rfl)) hlive
    rw [← Replay.filter_conn (configureMode cfg guard) c s.replay.handed, hall, Replay.filter_conn,
      h.dequeued_all hst hf ho]

/-- **The order of the shutdown.** The queue is closed after the producer is done,
or after its deadline; only then is an event refused. While the consumer runs, its
context is cancelled after a deadline or by the error policy. The pool is closed after
the consumer has returned, with no execution in progress, and it stays so. -/
theorem orderly_shutdown (srcCap cap : ℕ) (policy : OverflowPolicy) (cfg : ReplayConfig) (guard : Option (Guard F))
    (sp : StreamProcessor) (acts : List (Act Pkt)) :
    let s := run srcCap cap policy (configureMode cfg guard) sp acts
    (s.queue.closed = true → s.producer.done = true ∨ s.timedOut = true) ∧
    (s.refused ≠ [] → s.queue.closed = true ∧ s.timedOut = true) ∧
    (s.replay.cancelled = true → s.timedOut = true ∨ s.aborted = true) ∧
    (s.poolClosed = true → s.replay.phase = .returned ∧ s.replay.executing = 0) := by
  intro s
  have h : Inv policy sp (configureMode cfg guard) s := inv_run srcCap cap policy cfg guard sp acts
  refine ⟨fun hc => h.waited (Stage.pastProducer_of_queueClosed hc), fun hr => ?_, fun hc => ?_, fun hp => ?_⟩
  · by_contra hnot
    rw [not_and_or, Bool.not_eq_true, Bool.not_eq_true, or_comm] at hnot
    exact hr (h.refused hnot)
  · exact Bool.or_eq_true_iff.1 (h.cancelled hc)
  · have hreturned : s.replay.phase = .returned := h.stopped (by rw [of_decide_eq_true hp]; rfl)
    exact ⟨hreturned, h.replay.executing_returned hreturned⟩

end Program
end PgShadow
