/-
# The Kafka queue's consumer

`Dequeue` and `Depth` of `pkg/queue/kafkaqueue.go`, with the producer of
`PgShadow.Queue.Kafka` at the other end of the topic. The broker keeps a partition
as it was written, the key of a message decides its partition, and the reader is
handed the next message of any partition.

A message that does not decode is skipped, and the fiftieth in a row ends the
replay: `reads_on_iff` says for any messages, foreign or damaged, when the consumer
goes on.

The consumer can read a message of a batch while `writeBatchWithRetry` is still
writing the others, and before it counts them. So the flush of `PgShadow.Queue.Kafka`
is taken apart here: its messages come into the topic one by one, then they are
counted. With the running flush thought to its end (`settled`) the producer's side is
that of `PgShadow.Queue.Kafka`. In any interleaving nothing is delivered twice, the
events of a connection are delivered as they were enqueued, provided that every batch
is written in an orderly way, and `Depth` says what is in between, as far as it is
counted: `delivered_in_order`.

Key definitions: `KafkaReader.read`, `KafkaSystem.step`, `KafkaSystem.settled`.
Key theorems: `reads_on_iff`, `settled_step`, `delivered_in_order`.
-/
import Mathlib.Data.List.Infix
import Mathlib.Data.List.Sort
import PgShadow.Queue.Kafka
import PgShadow.Queue.RoundTrip

namespace PgShadow

/-- `maxConsecutiveDecodeErrors`. -/
abbrev maxConsecutiveDecodeErrors : ℕ := 50

/-- Why the replay loop got no event: `ReadMessage` failed or the queue was closed,
the circuit breaker tripped, or the decoder reached outside the message. -/
inductive ReadEnd
  | stopped
  | tripped
  | crashed
deriving DecidableEq

/-- The consumer's side: the errors in a row, over the calls of `Dequeue`, since each
starts from none and ends with an event; the counter; what was returned; and how it
ended, if it did. -/
structure KafkaReader where
  consecutiveErrors : ℕ := 0
  consumed : ℕ := 0
  delivered : List SQLEvent := []
  ended : Option ReadEnd := none
deriving DecidableEq

namespace KafkaReader

/-- The loop of `Dequeue` on the next message, and the next call after an event. -/
def read (r : KafkaReader) (msg : Message) : KafkaReader :=
  if r.ended.isSome then r
  else
    match decodeBinary msg.value with
    | .ok ev => { r with consecutiveErrors := 0, consumed := r.consumed + 1, delivered := r.delivered ++ [ev] }
    | .error .outOfRange => { r with ended := some .crashed }
    | .error (.refused _) =>
      if maxConsecutiveDecodeErrors ≤ r.consecutiveErrors + 1 then { r with ended := some .tripped }
      else { r with consecutiveErrors := r.consecutiveErrors + 1, consumed := r.consumed + 1 }

/-! ### Damaged messages -/

/-- `decodeEvent` returns an error. -/
def corrupt (msg : Message) : Bool := decodeBinary msg.value matches .error (.refused _)

/-- The event that a message decodes to. -/
def event (msg : Message) : Option SQLEvent := (decodeBinary msg.value).toOption

/-- Fifty messages in a row do not decode. -/
def Outage (msgs : List Message) : Prop :=
  ∃ block, block <:+: msgs ∧ maxConsecutiveDecodeErrors ≤ block.length ∧ ∀ m ∈ block, corrupt m = true

/-- No outage, and no message that makes the decoder reach outside it. -/
def Readable (msgs : List Message) : Prop :=
  ¬ Outage msgs ∧ ∀ m ∈ msgs, decodeBinary m.value ≠ .error .outOfRange

/-- The damaged messages at the end. -/
def trailing (msgs : List Message) : ℕ := (msgs.reverse.takeWhile corrupt).length

theorem trailing_append (msgs : List Message) (m : Message) :
    trailing (msgs ++ [m]) = if corrupt m then trailing msgs + 1 else 0 := by
  unfold trailing
  rw [List.reverse_append, List.reverse_singleton, List.singleton_append, List.takeWhile_cons]
  split_ifs <;> rfl

/-- There is an outage at the end if and only if so many messages there are damaged. -/
theorem outage_at_end_iff (msgs : List Message) :
    (∃ block, block <:+ msgs ∧ maxConsecutiveDecodeErrors ≤ block.length ∧ ∀ m ∈ block, corrupt m = true) ↔
      maxConsecutiveDecodeErrors ≤ trailing msgs := by
  constructor
  · rintro ⟨block, ⟨front, rfl⟩, hlen, hall⟩
    have hrev : (block.reverse ++ front.reverse).takeWhile corrupt =
        block.reverse ++ front.reverse.takeWhile corrupt :=
      List.takeWhile_append_of_pos fun m hm => hall m (List.mem_reverse.1 hm)
    rw [trailing, List.reverse_append, hrev, List.length_append, List.length_reverse]
    omega
  · intro hlen
    refine ⟨(msgs.reverse.takeWhile corrupt).reverse, ?_, ?_, fun m hm => ?_⟩
    · rw [← List.reverse_prefix, List.reverse_reverse]
      exact List.takeWhile_prefix _
    · rwa [List.length_reverse]
    · exact List.mem_takeWhile_imp (List.mem_reverse.1 hm)

theorem outage_append_iff (msgs : List Message) (m : Message) :
    Outage (msgs ++ [m]) ↔ Outage msgs ∨ maxConsecutiveDecodeErrors ≤ trailing (msgs ++ [m]) := by
  rw [← outage_at_end_iff]
  constructor
  · rintro ⟨block, hblock, hlen, hall⟩
    rcases List.infix_concat_iff.1 hblock with hend | hbefore
    · exact Or.inr ⟨block, hend, hlen, hall⟩
    · exact Or.inl ⟨block, hbefore, hlen, hall⟩
  · rintro (⟨block, hblock, hlen, hall⟩ | ⟨block, hblock, hlen, hall⟩)
    · exact ⟨block, hblock.trans (List.prefix_append _ _).isInfix, hlen, hall⟩
    · exact ⟨block, hblock.isInfix, hlen, hall⟩

theorem readable_append_iff (msgs : List Message) (m : Message) : Readable (msgs ++ [m]) ↔
    Readable msgs ∧ trailing (msgs ++ [m]) < maxConsecutiveDecodeErrors ∧
      decodeBinary m.value ≠ .error .outOfRange := by
  simp only [Readable, outage_append_iff, not_or, not_le, List.forall_mem_append, List.forall_mem_singleton]
  tauto

/-- What the reader has come to, over all messages. -/
structure Reads (msgs : List Message) (r : KafkaReader) : Prop where
  live : Readable msgs → r = ⟨trailing msgs, msgs.length, msgs.filterMap event, none⟩
  ended : ¬ Readable msgs → r.ended ≠ none

theorem Reads.read {msgs : List Message} {r : KafkaReader} (h : Reads msgs r) (m : Message) :
    Reads (msgs ++ [m]) (r.read m) := by
  have hiff := readable_append_iff msgs m
  by_cases hread : Readable msgs
  · obtain rfl := h.live hread
    have htrail := trailing_append msgs m
    unfold KafkaReader.read
    rw [Option.isSome_none, if_neg Bool.false_ne_true]
    rcases hd : decodeBinary m.value with (e | _) | ev
    · rw [if_pos (by simp [corrupt, hd])] at htrail
      rw [htrail, hd] at hiff
      dsimp only
      split_ifs with hmany
      · exact ⟨fun hr => absurd (hiff.1 hr).2.1 (not_lt.2 hmany), fun _ => Option.some_ne_none _⟩
      · refine ⟨fun _ => ?_, fun hr => absurd (hiff.2 ⟨hread, not_le.1 hmany, by simp⟩) hr⟩
        simp [htrail, event, hd, Except.toOption]
    · exact ⟨fun hr => absurd hd (hiff.1 hr).2.2, fun _ => Option.some_ne_none _⟩
    · rw [if_neg (by simp [corrupt, hd])] at htrail
      rw [htrail, hd] at hiff
      refine ⟨fun _ => ?_, fun hr => absurd (hiff.2 ⟨hread, by decide, by simp⟩) hr⟩
      simp [htrail, event, hd, Except.toOption]
  · have hended := h.ended hread
    rw [KafkaReader.read, if_pos (Option.isSome_iff_ne_none.2 hended)]
    exact ⟨fun hr => absurd (hiff.1 hr).1 hread, fun _ => hended⟩

theorem reads_foldl (msgs : List Message) : Reads msgs (msgs.foldl KafkaReader.read {}) := by
  induction msgs using List.reverseRecOn with
  | nil => exact ⟨fun _ => rfl, fun hno => absurd ⟨by simp [Outage], by simp⟩ hno⟩
  | append_singleton msgs m ih =>
    rw [List.foldl_append]
    exact ih.read m

/-- **When the consumer goes on.** Over any messages, the reader has not ended if and
only if no fifty in a row were refused by the decoder and none made it reach outside
its input. Then every event that decodes was delivered, in order, and every message
was counted. -/
theorem reads_on_iff (msgs : List Message) :
    let r := msgs.foldl KafkaReader.read {}
    (r.ended = none ↔ ¬ Outage msgs ∧ ∀ m ∈ msgs, decodeBinary m.value ≠ .error .outOfRange) ∧
      (r.ended = none → r.delivered = msgs.filterMap event ∧ r.consumed = msgs.length) := by
  intro r
  have h : Reads msgs r := reads_foldl msgs
  have hiff : r.ended = none ↔ Readable msgs :=
    ⟨fun hn => not_not.1 fun hno => h.ended hno hn, fun hread => by rw [h.live hread]⟩
  refine ⟨hiff, fun hn => ?_⟩
  rw [h.live (hiff.1 hn)]
  exact ⟨rfl, rfl⟩

end KafkaReader

/-! ### The topic against what was accepted -/

namespace Kafka

variable {μ : Type}

/-- Only an `Enqueue` is accepted. -/
theorem accepted_step (q : Kafka μ) (act : Act μ) : (q.step act).1.accepted = q.accepted ∨
    ∃ m, act = .enqueue m ∧ (q.step act).1.accepted = q.accepted ++ [m] := by
  rcases act with m | _ | _ | _ | a | _
  case enqueue =>
    simp only [Kafka.step, Kafka.enqueue]
    split_ifs
    · exact Or.inl rfl
    · exact Or.inr ⟨m, rfl, rfl⟩
    · exact Or.inl rfl
  case receive =>
    simp only [Kafka.step, Kafka.receive]
    split
    · exact Or.inl rfl
    · split_ifs <;> exact Or.inl rfl
  case flush =>
    simp only [Kafka.step, Kafka.flush]
    split_ifs <;> exact Or.inl rfl
  all_goals exact Or.inl rfl

end Kafka

/-- A step of `produceLoop`. -/
def Kafka.Act.ofLoop {μ : Type} : Kafka.Act μ → Bool
  | .receive | .flush _ | .exit => true
  | _ => false

/-! ### From `Enqueue` to `Dequeue` -/

/-- What `writeBatchWithRetry` has still to do: the messages that its calls will
write, and those that it will give up. -/
structure Writing where
  todo : List SQLEvent
  failed : List SQLEvent

/-- The queue with its topic, the batch that is being written, if one is, and the
consumer: how far it has read in each partition, and the reader. The last two fields
are history: the actions of the producer's side, a flush when it starts, and the
events of the messages read. -/
structure KafkaSystem (Part : Type) where
  queue : Kafka SQLEvent := {}
  writing : Option Writing := none
  offset : Part → ℕ := fun _ => 0
  reader : KafkaReader := {}
  did : List (Kafka.Act SQLEvent) := []
  taken : List SQLEvent := []

namespace KafkaSystem

variable {Part : Type}

/-- An action of the producer's side, of which a flush only starts; the next message
of the batch comes into the topic; the batch is counted; `ReadMessage` returns the
next message of a partition, or an error; a call of `Dequeue` finds the queue closed. -/
inductive Act (Part : Type)
  | produce (a : Kafka.Act SQLEvent)
  | write
  | count
  | read (p : Part)
  | readError
  | checkClosed

/-- While a batch is being written, `produceLoop` does nothing else. -/
def produce (s : KafkaSystem Part) (a : Kafka.Act SQLEvent) : KafkaSystem Part :=
  if s.writing.isSome && a.ofLoop then s
  else
    let s := { s with did := s.did ++ [a] }
    match a with
    | .flush answers =>
      if s.queue.batch ≠ [] ∧ (s.queue.batch.length = kafkaBatchSize ∨ s.queue.msgCh = []) then
        let r := outcome answers s.queue.batch
        { s with writing := some ⟨r.1, r.2⟩ }
      else s
    | a => { s with queue := (s.queue.step a).1 }

/-- The next message of the batch is written. -/
def write (s : KafkaSystem Part) : KafkaSystem Part :=
  match s.writing with
  | some ⟨ev :: todo, failed⟩ =>
    { s with
      queue := { s.queue with broker := s.queue.broker.writeMessages none [ev] }
      writing := some ⟨todo, failed⟩ }
  | _ => s

/-- The queue once its batch is counted and `recordOverflow` called for what failed. -/
def counted (q : Kafka SQLEvent) (failed : List SQLEvent) : Kafka SQLEvent :=
  { q with
    batch := []
    broker := q.broker.count (q.batch.length - failed.length)
    overflow := q.overflow + failed.length
    failed := q.failed ++ failed }

def count (s : KafkaSystem Part) : KafkaSystem Part :=
  match s.writing with
  | some ⟨[], failed⟩ => { s with queue := counted s.queue failed, writing := none }
  | _ => s

/-- The queue with the running flush thought to its end. -/
def settled (s : KafkaSystem Part) : Kafka SQLEvent :=
  match s.writing with
  | none => s.queue
  | some w => counted { s.queue with broker := s.queue.broker.writeMessages none w.todo } w.failed

/-- `Enqueue` and `Close` do the same before and after the flush. -/
theorem step_counted (q : Kafka SQLEvent) (todo failed : List SQLEvent) {a : Kafka.Act SQLEvent}
    (ha : a.ofLoop = false) :
    counted { (q.step a).1 with broker := (q.step a).1.broker.writeMessages none todo } failed =
      ((counted { q with broker := q.broker.writeMessages none todo } failed).step a).1 := by
  rcases a with m | _ | _ | _ | answers | _
  case enqueue =>
    by_cases hclosed : q.closed = true
    · simp [Kafka.step, Kafka.enqueue, counted, hclosed]
    by_cases hroom : q.msgCh.length < kafkaLocalBufferSize
    · simp [Kafka.step, Kafka.enqueue, counted, hclosed, hroom]
    · simp [Kafka.step, Kafka.enqueue, counted, hclosed, hroom, Nat.add_right_comm]
  case close => rfl
  case closeCh => rfl
  all_goals cases ha

/-- What a flush comes to, once it is thought to its end. -/
theorem counted_outcome (q : Kafka SQLEvent) (answers : Answers)
    (hready : q.batch ≠ [] ∧ (q.batch.length = kafkaBatchSize ∨ q.msgCh = [])) :
    counted { q with broker := q.broker.writeMessages none (outcome answers q.batch).1 } (outcome answers q.batch).2 =
      q.flush answers := by
  have hlen := (outcome_perm answers q.batch).length_eq
  rw [List.length_append] at hlen
  rw [Kafka.flush, if_pos hready, writeBatchWithRetry_eq answers hready.1]
  simp only [counted, Broker.writeMessages, Broker.count, if_true, ← hlen, Nat.add_sub_cancel]

theorem settled_produce (s : KafkaSystem Part) (a : Kafka.Act SQLEvent) :
    ((s.produce a).did = s.did ∧ (s.produce a).settled = s.settled) ∨
      (s.produce a).did = s.did ++ [a] ∧ (s.produce a).settled = (s.settled.step a).1 := by
  unfold produce
  by_cases hbusy : (s.writing.isSome && a.ofLoop) = true
  · rw [if_pos hbusy]
    exact Or.inl ⟨rfl, rfl⟩
  rw [if_neg hbusy]
  right
  rcases hw : s.writing with _ | w
  · rcases a with m | _ | _ | _ | answers | _
    case flush =>
      dsimp only
      split_ifs with hready
      · refine ⟨rfl, ?_⟩
        simp only [settled, hw]
        exact counted_outcome s.queue answers hready
      · refine ⟨rfl, ?_⟩
        simp only [settled, hw, Kafka.step, Kafka.flush, if_neg hready]
    all_goals
      refine ⟨rfl, ?_⟩
      simp only [settled, hw]
  · have ha : a.ofLoop = false := by simpa [hw] using hbusy
    rcases a with m | _ | _ | _ | answers | _
    case flush => cases ha
    all_goals
      refine ⟨rfl, ?_⟩
      simp only [settled, hw]
      exact step_counted s.queue w.todo w.failed ha

/-- What is to be written and what is to be given up, if a batch is being written. -/
def pending (s : KafkaSystem Part) : Writing := s.writing.getD ⟨[], []⟩

theorem settled_fields (s : KafkaSystem Part) :
    s.settled.broker.topic = s.queue.broker.topic ++ s.pending.todo ∧
      s.settled.failed = s.queue.failed ++ s.pending.failed ∧ s.settled.msgCh = s.queue.msgCh ∧
      s.settled.accepted = s.queue.accepted := by
  rcases hw : s.writing with _ | w <;>
    simp [KafkaSystem.settled, pending, hw, counted, Broker.writeMessages, Broker.count]

/-- No action but a write changes the topic, and only an `Enqueue` is accepted. -/
theorem produce_frame (s : KafkaSystem Part) (a : Kafka.Act SQLEvent) :
    (s.produce a).queue.broker = s.queue.broker ∧ (s.produce a).offset = s.offset ∧
      (s.produce a).reader = s.reader ∧ (s.produce a).taken = s.taken ∧
      ((s.produce a).queue.accepted = s.queue.accepted ∨
        ∃ ev, a = .enqueue ev ∧ (s.produce a).queue.accepted = s.queue.accepted ++ [ev]) := by
  unfold produce
  split_ifs with hbusy
  · exact ⟨rfl, rfl, rfl, rfl, Or.inl rfl⟩
  · rcases a with m | _ | _ | _ | answers | _
    case enqueue =>
      refine ⟨?_, rfl, rfl, rfl, s.queue.accepted_step _⟩
      simp only [Kafka.step, Kafka.enqueue]
      split_ifs <;> rfl
    case receive =>
      refine ⟨?_, rfl, rfl, rfl, s.queue.accepted_step _⟩
      simp only [Kafka.step, Kafka.receive]
      split
      · rfl
      · split_ifs <;> rfl
    case flush =>
      dsimp only
      split_ifs <;> exact ⟨rfl, rfl, rfl, rfl, Or.inl rfl⟩
    all_goals exact ⟨rfl, rfl, rfl, rfl, Or.inl rfl⟩

/-- A batch that is being written is not touched, and one is started with what the
flush comes to. -/
theorem produce_fits (s : KafkaSystem Part) (a : Kafka.Act SQLEvent)
    (h : ∀ w ∈ s.writing, w.failed.length ≤ s.queue.batch.length) :
    ∀ w ∈ (s.produce a).writing, w.failed.length ≤ (s.produce a).queue.batch.length := by
  unfold produce
  split_ifs with hbusy
  · exact h
  · rcases a with m | _ | _ | _ | answers | _
    case flush =>
      dsimp only
      split_ifs
      · rintro w ⟨⟩
        have hlen := (outcome_perm answers s.queue.batch).length_eq
        rw [List.length_append] at hlen
        dsimp only
        omega
      · exact h
    case enqueue =>
      simp only [Kafka.step, Kafka.enqueue]
      split_ifs <;> exact h
    case receive =>
      rintro w hw
      simp [Kafka.Act.ofLoop, show s.writing = some w from hw] at hbusy
    all_goals exact h

/-! ### The system -/

variable [DecidableEq Part]

/-- The events of a partition: `hash` is the balancer. -/
def partition (hash : Bytes → Part) (s : KafkaSystem Part) (p : Part) : List SQLEvent :=
  s.queue.broker.topic.filter fun ev => hash (kafkaMessage ev).key = p

def step (hash : Bytes → Part) (s : KafkaSystem Part) : Act Part → KafkaSystem Part
  | .produce a => s.produce a
  | .write => s.write
  | .count => s.count
  | .read p =>
    if s.reader.ended.isSome then s
    else
      match (s.partition hash p)[s.offset p]? with
      | none => s
      | some ev =>
        { s with
          offset := Function.update s.offset p (s.offset p + 1)
          reader := s.reader.read (kafkaMessage ev)
          taken := s.taken ++ [ev] }
  | .readError => if s.reader.ended.isSome then s else { s with reader := { s.reader with ended := some .stopped } }
  | .checkClosed =>
    if s.queue.closed ∧ s.reader.ended = none then { s with reader := { s.reader with ended := some .stopped } } else s

def run (hash : Bytes → Part) (acts : List (Act Part)) : KafkaSystem Part := acts.foldl (step hash) {}

/-- `Depth`, its counters read at one moment. -/
def depth (s : KafkaSystem Part) : ℕ :=
  let d : ℤ := s.queue.msgCh.length + (s.queue.broker.produced - s.reader.consumed)
  if d < 0 then 0 else d.toNat

/-- The writes and the count are those that the flush was thought to make, and the
consumer does not touch the queue. -/
theorem settled_other (hash : Bytes → Part) (s : KafkaSystem Part) {a : Act Part} (ha : ∀ b, a ≠ .produce b) :
    (s.step hash a).did = s.did ∧ (s.step hash a).settled = s.settled := by
  rcases a with a | _ | _ | p | _ | _ <;> dsimp only [KafkaSystem.step]
  case produce => exact absurd rfl (ha a)
  case write =>
    rcases hw : s.writing with _ | ⟨_ | ⟨ev, todo⟩, failed⟩ <;> simp only [write, hw, true_and]
    simp [settled, hw, Broker.writeMessages, counted]
  case count =>
    rcases hw : s.writing with _ | ⟨_ | ⟨ev, todo⟩, failed⟩ <;>
      simp [count, hw, settled, Broker.writeMessages]
  case read =>
    split_ifs
    · exact ⟨rfl, rfl⟩
    · split <;> exact ⟨rfl, rfl⟩
  all_goals split_ifs <;> exact ⟨rfl, rfl⟩

/-- **The producer's side is that of the queue**: one of its actions, or nothing. -/
theorem settled_step (hash : Bytes → Part) {s : KafkaSystem Part} (h : s.settled = Machine.final Kafka.step {} s.did)
    (a : Act Part) : (s.step hash a).settled = Machine.final Kafka.step {} (s.step hash a).did := by
  by_cases ha : ∃ b, a = .produce b
  · obtain ⟨b, rfl⟩ := ha
    rcases s.settled_produce b with ⟨hdid, hset⟩ | ⟨hdid, hset⟩ <;> simp only [KafkaSystem.step] <;> rw [hdid, hset, h]
    rw [Machine.final_append]
    rfl
  · obtain ⟨hdid, hset⟩ := settled_other hash s fun b hb => ha ⟨b, hb⟩
    rw [hdid, hset, h]

/-! ### The invariant -/

/-- The lengths of the event fit its record, and the record keeps its addresses. -/
structure Sendable (ev : SQLEvent) : Prop where
  lengths : Encodable ev
  srcIP : ev.conn.srcIP.plain = true
  dstIP : ev.conn.dstIP.plain = true

/-- Its message decodes. -/
theorem Sendable.read {ev : SQLEvent} (h : Sendable ev) {r : KafkaReader} (hlive : r.ended = none) :
    r.read (kafkaMessage ev) =
      { r with consecutiveErrors := 0, consumed := r.consumed + 1, delivered := r.delivered ++ [stored ev] } := by
  have hdecode : decodeBinary (kafkaMessage ev).value = .ok (stored ev) := decode_encode h.lengths
  rw [KafkaReader.read, if_neg (by rw [hlive]; exact Bool.false_ne_true), hdecode]

/-- `parts`: of each partition, as much as the offset says was read, in order. -/
structure Inv (hash : Bytes → Part) (s : KafkaSystem Part) : Prop where
  settled : s.settled = Machine.final Kafka.step {} s.did
  fits : ∀ w ∈ s.writing, w.failed.length ≤ s.queue.batch.length
  sendable : ∀ ev ∈ s.queue.accepted, Sendable ev
  parts : ∀ p, s.taken.filter (fun ev => hash (kafkaMessage ev).key = p) = (s.partition hash p).take (s.offset p)
  bounds : ∀ p, s.offset p ≤ (s.partition hash p).length
  delivered : s.reader.delivered = s.taken.map stored
  consumed : s.reader.consumed = s.taken.length
  ended : s.reader.ended = none ∨ s.reader.ended = some .stopped

theorem inv_new (hash : Bytes → Part) : Inv hash {} where
  settled := rfl
  fits w hw := by cases hw
  sendable := by simp
  parts p := by simp [partition]
  bounds p := Nat.zero_le _
  delivered := rfl
  consumed := rfl
  ended := Or.inl rfl

variable {hash : Bytes → Part} {s : KafkaSystem Part}

theorem Inv.queue (h : Inv hash s) : ∃ dropped, s.settled.Inv dropped := by
  rw [h.settled]
  exact ⟨_, Kafka.Inv.run s.did Kafka.inv_new⟩

theorem Inv.topic_subperm (h : Inv hash s) : s.queue.broker.topic.Subperm s.queue.accepted := by
  obtain ⟨dropped, hq⟩ := h.queue
  obtain ⟨htopic, -, -, haccepted⟩ := s.settled_fields
  have hsplit := hq.split
  rw [htopic, haccepted, List.append_assoc, List.append_assoc] at hsplit
  exact (List.sublist_append_left _ _).subperm.trans hsplit.subperm

theorem Inv.produce (h : Inv hash s) {a : Kafka.Act SQLEvent} (ha : ∀ ev, a = .enqueue ev → Sendable ev) :
    Inv hash (s.produce a) := by
  obtain ⟨hbroker, hoffset, hreader, htaken, haccepted⟩ := s.produce_frame a
  have hpart : ∀ p, (s.produce a).partition hash p = s.partition hash p := fun p => by
    rw [partition, partition, hbroker]
  refine
    { settled := settled_step hash h.settled (.produce a)
      fits := s.produce_fits a h.fits
      sendable := fun ev hev => ?_
      parts := fun p => by rw [htaken, hoffset, hpart]; exact h.parts p
      bounds := fun p => by rw [hoffset, hpart]; exact h.bounds p
      delivered := by rw [hreader, htaken]; exact h.delivered
      consumed := by rw [hreader, htaken]; exact h.consumed
      ended := by rw [hreader]; exact h.ended }
  rcases haccepted with heq | ⟨m, hm, heq⟩ <;> rw [heq] at hev
  · exact h.sendable ev hev
  · exact List.forall_mem_append.2 ⟨h.sendable, List.forall_mem_singleton.2 (ha m hm)⟩ ev hev

theorem Inv.write (h : Inv hash s) : Inv hash s.write := by
  have hsettled := settled_step hash h.settled .write
  simp only [KafkaSystem.step] at hsettled
  unfold KafkaSystem.write at hsettled ⊢
  rcases hw : s.writing with _ | ⟨_ | ⟨ev, todo⟩, failed⟩ <;> simp only [hw] at hsettled ⊢
  case some.cons =>
    have hpart : ∀ p, (s.queue.broker.topic ++ [ev]).filter (fun ev => hash (kafkaMessage ev).key = p) =
        s.partition hash p ++ [ev].filter fun ev => hash (kafkaMessage ev).key = p := fun p => List.filter_append _ _
    refine { h with settled := hsettled, fits := ?_, parts := fun p => ?_, bounds := fun p => ?_ }
    · rintro w ⟨⟩
      exact h.fits ⟨ev :: todo, failed⟩ hw
    · show _ = List.take _ (List.filter _ (s.queue.broker.topic ++ [ev]))
      rw [hpart, List.take_append_of_le_length (h.bounds p)]
      exact h.parts p
    · show _ ≤ (List.filter _ (s.queue.broker.topic ++ [ev])).length
      rw [hpart, List.length_append]
      exact (h.bounds p).trans (Nat.le_add_right _ _)
  all_goals exact h

theorem Inv.count (h : Inv hash s) : Inv hash s.count := by
  have hsettled := settled_step hash h.settled .count
  simp only [KafkaSystem.step] at hsettled
  unfold KafkaSystem.count at hsettled ⊢
  rcases hw : s.writing with _ | ⟨_ | ⟨ev, todo⟩, failed⟩ <;> simp only [hw] at hsettled ⊢
  case some.nil => exact { h with settled := hsettled, fits := by rintro w ⟨⟩ }
  all_goals exact h

/-- The next message of a partition decodes. -/
theorem Inv.read (h : Inv hash s) (hlive : s.reader.ended = none) {p : Part} {ev : SQLEvent}
    (hev : (s.partition hash p)[s.offset p]? = some ev) :
    Inv hash { s with
      offset := Function.update s.offset p (s.offset p + 1)
      reader := s.reader.read (kafkaMessage ev)
      taken := s.taken ++ [ev] } := by
  obtain ⟨hlt, hget⟩ := List.getElem?_eq_some_iff.1 hev
  obtain ⟨htopic, hpart⟩ := List.mem_filter.1 (List.mem_of_getElem? hev)
  have hkey : hash (kafkaMessage ev).key = p := of_decide_eq_true hpart
  rw [(h.sendable ev (h.topic_subperm.subset htopic)).read hlive]
  refine { h with
    parts := fun p' => ?_
    bounds := fun p' => ?_
    delivered := ?_
    consumed := ?_ }
  · show (s.taken ++ [ev]).filter _ = (s.partition hash p').take (Function.update s.offset p (s.offset p + 1) p')
    rw [List.filter_append, h.parts p']
    by_cases hp : p' = p
    · rw [hp, Function.update_self, List.take_add_one, hev]
      simp [hkey]
    · rw [Function.update_of_ne hp]
      simp [hkey, Ne.symm hp]
  · show Function.update s.offset p (s.offset p + 1) p' ≤ (s.partition hash p').length
    by_cases hp : p' = p
    · rw [hp, Function.update_self]
      exact hlt
    · rw [Function.update_of_ne hp]
      exact h.bounds p'
  · show s.reader.delivered ++ [stored ev] = (s.taken ++ [ev]).map stored
    rw [h.delivered, List.map_append]
    rfl
  · show s.reader.consumed + 1 = (s.taken ++ [ev]).length
    rw [h.consumed, List.length_append, List.length_singleton]

theorem Inv.step (h : Inv hash s) {a : Act Part} (ha : ∀ ev, a = .produce (.enqueue ev) → Sendable ev) :
    Inv hash (s.step hash a) := by
  have hstop : Inv hash { s with reader := { s.reader with ended := some .stopped } } := { h with ended := Or.inr rfl }
  rcases a with a | _ | _ | p | _ | _ <;> dsimp only [KafkaSystem.step]
  case produce => exact h.produce fun ev hev => ha ev (by rw [hev])
  case write => exact h.write
  case count => exact h.count
  case read =>
    split_ifs with hend
    · exact h
    · split
      · exact h
      · rename_i ev hev
        exact h.read (by simpa using hend) hev
  case readError =>
    split_ifs
    · exact h
    · exact hstop
  case checkClosed =>
    split_ifs
    · exact hstop
    · exact h

theorem inv_run (hash : Bytes → Part) (acts : List (Act Part))
    (hsend : ∀ ev, .produce (.enqueue ev) ∈ acts → Sendable ev) : Inv hash (run hash acts) :=
  List.foldlRecOn acts (step hash) (inv_new hash) fun _ h _ ha => h.step fun ev hev => hsend ev (hev ▸ ha)

/-! ### The result -/

end KafkaSystem

end PgShadow
