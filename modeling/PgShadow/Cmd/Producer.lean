/-
# The goroutines of the capture producer

`startProducer` in `cmd/pgshadow/pipeline.go`. The reader moves packets from the
source into a buffered channel; the processor takes them out and drives the
reassembler, with a flush of idle connections now and then. Both leave when the
context is cancelled or the source ends, the reader closing the channel and the
processor the reassembler; a third goroutine closes `done` after both.

The source, the ticker, the context and the goroutines interleave in any way, and
a `select` takes any of its ready cases. An action is what a goroutine does up to
the next point where it can wait; one that cannot be taken changes nothing.

The packets are assembled as the source delivered them, and cancellation loses at
most those on their way; the reassembler is closed once and not called again:
`assembled_in_order`.

Key definitions: `CaptureProducer`, `CaptureProducer.step`.
Key theorems: `CaptureProducer.Inv.step`, `CaptureProducer.assembled_in_order`.
-/
import PgShadow.Lib.Channel

namespace PgShadow

open Channel

/-- `pktChanBuffer`. -/
abbrev pktChanBuffer : ℕ := 4096

/-- A call of the reassembler. -/
inductive ReasmCall (Pkt : Type)
  | assemble (pkt : Pkt)
  | flushOlderThan
  | close
deriving DecidableEq

/-- The packet that the call assembles. -/
def ReasmCall.packet {Pkt : Type} : ReasmCall Pkt → Option Pkt
  | .assemble pkt => some pkt
  | _ => none

/-- Where the reader stands: at the outer `select`, at the inner one with a packet,
or gone. `left` is the packet that it had when it left for the cancelled context. -/
inductive PacketReader (Pkt : Type)
  | receiving
  | sending (pkt : Pkt)
  | gone (left : Option Pkt)
deriving DecidableEq

/-- Where the processor stands: at its `select`, in a call of the reassembler, which
is its last one or not, or gone. -/
inductive PacketProcessor
  | selecting
  | calling (last : Bool)
  | gone
deriving DecidableEq

/-- The producer. `src` is the channel of the source. The last two fields are
history: what the source has delivered, and the calls of the reassembler. -/
structure CaptureProducer (Pkt : Type) where
  src : Chan Pkt
  cancelled : Bool := false
  reader : PacketReader Pkt := .receiving
  pktCh : Chan Pkt := { cap := pktChanBuffer }
  processor : PacketProcessor := .selecting
  done : Bool := false
  panicked : Bool := false
  delivered : List Pkt := []
  calls : List (ReasmCall Pkt) := []
deriving DecidableEq

namespace CaptureProducer

/-- The actions: of the source, which delivers a packet or closes its channel; of
the context; of the reader; of the processor; and of the goroutine that waits for
both. -/
inductive Act (Pkt : Type)
  | deliver (pkt : Pkt)
  | endSource
  | cancel
  | readerDone
  | readerReceive
  | readerSend
  | readerGiveUp
  | processorDone
  | processorReceive
  | tick
  | processorReturn
  | finish
deriving DecidableEq

variable {Pkt : Type}

/-- The reader's deferred `close(pktCh)`. -/
def leave (p : CaptureProducer Pkt) (left : Option Pkt) : CaptureProducer Pkt :=
  match p.pktCh.close with
  | some ch => { p with reader := .gone left, pktCh := ch }
  | none => { p with panicked := true }

/-- The processor calls the reassembler. -/
def call (p : CaptureProducer Pkt) (c : ReasmCall Pkt) (last : Bool) : CaptureProducer Pkt :=
  { p with processor := .calling last, calls := p.calls ++ [c] }

def step (p : CaptureProducer Pkt) : Act Pkt → CaptureProducer Pkt
  | .deliver pkt =>
    match p.src.send pkt with
    | .ok src => { p with src, delivered := p.delivered ++ [pkt] }
    | _ => p
  | .endSource => { p with src := { p.src with closed := true } }
  | .cancel => { p with cancelled := true }
  | .readerDone =>
    match p.reader with
    | .receiving => if p.cancelled then p.leave none else p
    | _ => p
  | .readerReceive =>
    match p.reader, p.src.receive with
    | .receiving, .item pkt src => { p with src, reader := .sending pkt }
    | .receiving, .ended => p.leave none
    | _, _ => p
  | .readerSend =>
    match p.reader with
    | .sending pkt =>
      match p.pktCh.send pkt with
      | .ok pktCh => { p with pktCh, reader := .receiving }
      | .waits => p
      | .panics => { p with panicked := true }
    | _ => p
  | .readerGiveUp =>
    match p.reader with
    | .sending pkt => if p.cancelled then p.leave (some pkt) else p
    | _ => p
  | .processorDone => if p.processor = .selecting ∧ p.cancelled = true then p.call .close true else p
  | .processorReceive =>
    match p.processor, p.pktCh.receive with
    | .selecting, .item pkt pktCh => { p with pktCh }.call (.assemble pkt) false
    | .selecting, .ended => p.call .close true
    | _, _ => p
  | .tick => if p.processor = .selecting then p.call .flushOlderThan false else p
  | .processorReturn =>
    match p.processor with
    | .calling last => { p with processor := if last then .gone else .selecting }
    | _ => p
  | .finish =>
    match p.reader, p.processor with
    | .gone _, .gone => { p with done := true }
    | _, _ => p

def run (cap : ℕ) (acts : List (Act Pkt)) : CaptureProducer Pkt := acts.foldl step { src := { cap } }

variable {p : CaptureProducer Pkt}

/-- A call of the reassembler is ended by its return only, and `done` stays closed. -/
theorem step_frame (p : CaptureProducer Pkt) (a : Act Pkt) :
    (∀ last, p.processor = .calling last → a ≠ .processorReturn → (p.step a).processor = .calling last) ∧
      (p.done = true → (p.step a).done = true) := by
  have hsame : ∀ {q : CaptureProducer Pkt}, q.processor = p.processor → q.done = p.done →
      (∀ last, p.processor = .calling last → a ≠ .processorReturn → q.processor = .calling last) ∧
        (p.done = true → q.done = true) := fun hp hd => ⟨fun _ h _ => hp.trans h, fun h => hd.trans h⟩
  have hleave : ∀ left, (p.leave left).processor = p.processor ∧ (p.leave left).done = p.done := by
    intro left
    unfold leave
    split <;> exact ⟨rfl, rfl⟩
  rcases a with pkt | _ | _ | _ | _ | _ | _ | _ | _ | _ | _ | _ <;> dsimp only [step]
  case deliver => split <;> exact hsame rfl rfl
  case endSource => exact hsame rfl rfl
  case cancel => exact hsame rfl rfl
  case readerSend =>
    split
    · split <;> exact hsame rfl rfl
    · exact hsame rfl rfl
  case processorDone =>
    split_ifs with hc
    · exact ⟨fun last hl => by simp [hc.1] at hl, id⟩
    · exact hsame rfl rfl
  case processorReceive =>
    split
    · rename_i hp _
      exact ⟨fun last hl => by simp [hp] at hl, id⟩
    · rename_i hp _
      exact ⟨fun last hl => by simp [hp] at hl, id⟩
    · exact hsame rfl rfl
  case tick =>
    split_ifs with hc
    · exact ⟨fun last hl => by simp [hc] at hl, id⟩
    · exact hsame rfl rfl
  case processorReturn => split <;> exact ⟨fun _ _ hne => absurd rfl hne, id⟩
  case finish =>
    split
    · exact ⟨fun _ hl _ => hl, fun _ => rfl⟩
    · exact hsame rfl rfl
  case readerReceive =>
    split
    · exact hsame rfl rfl
    · exact hsame (hleave none).1 (hleave none).2
    · exact hsame rfl rfl
  all_goals
    split
    · split_ifs <;> first | exact hsame rfl rfl | exact hsame (hleave _).1 (hleave _).2
    · exact hsame rfl rfl

/-! ### What holds in every state -/

/-- The packet that the reader has taken and not passed on. -/
def inHand : PacketReader Pkt → List Pkt
  | .receiving => []
  | .sending pkt => [pkt]
  | .gone left => left.toList

theorem length_inHand (r : PacketReader Pkt) : (inHand r).length ≤ 1 := by
  rcases r with _ | pkt | (_ | pkt) <;> simp [inHand]

/-- The packets assembled, in order. -/
def assembled (p : CaptureProducer Pkt) : List Pkt := p.calls.filterMap ReasmCall.packet

/-- The reassembler is closed by the last call that the processor makes. -/
def Closes (processor : PacketProcessor) (calls : List (ReasmCall Pkt)) : Prop :=
  match processor with
  | .selecting | .calling false => .close ∉ calls
  | .calling true | .gone => ∃ before, calls = before ++ [.close] ∧ .close ∉ before

theorem Closes.once {processor : PacketProcessor} {calls : List (ReasmCall Pkt)} (h : Closes processor calls) :
    .close ∉ calls.dropLast := by
  rcases processor with _ | (_ | _) | _
  · exact fun hm => h (List.dropLast_subset _ hm)
  · exact fun hm => h (List.dropLast_subset _ hm)
  all_goals
    obtain ⟨before, rfl, hnone⟩ := h
    rwa [List.dropLast_concat]

/-- `flow`: a packet is assembled, on its way, or still with the source. -/
structure Inv (p : CaptureProducer Pkt) : Prop where
  flow : p.delivered = p.assembled ++ p.pktCh.buf ++ inHand p.reader ++ p.src.buf
  cap : p.pktCh.cap = pktChanBuffer
  bound : p.pktCh.buf.length ≤ pktChanBuffer
  closed : p.pktCh.closed = true ↔ ∃ left, p.reader = .gone left
  left : ∀ left, p.reader = .gone left → p.cancelled = false → left = none ∧ p.src.buf = [] ∧ p.src.closed = true
  drained : p.processor = .gone ∨ p.processor = .calling true → p.cancelled = false →
    p.pktCh.buf = [] ∧ p.pktCh.closed = true
  closes : Closes p.processor p.calls
  done : p.done = true → (∃ left, p.reader = .gone left) ∧ p.processor = .gone
  panicked : p.panicked = false

theorem inv_new (cap : ℕ) : Inv ({ src := { cap } } : CaptureProducer Pkt) where
  flow := rfl
  cap := rfl
  bound := Nat.zero_le _
  closed := by simp
  left _ h := by cases h
  drained h := by simp at h
  closes := List.not_mem_nil
  done h := by cases h
  panicked := rfl

/-- The reader has not closed the channel that it still uses. -/
theorem Inv.open_of_here (h : Inv p) (hr : ∀ left, p.reader ≠ .gone left) : p.pktCh.closed = false :=
  Bool.eq_false_iff.2 fun hc => by
    obtain ⟨left, hl⟩ := h.closed.1 hc
    exact hr left hl

/-- While the context is live and the reader is there, so is the processor. -/
theorem Inv.selects (h : Inv p) (hr : ∀ left, p.reader ≠ .gone left) (hc : p.cancelled = false) :
    ¬(p.processor = .gone ∨ p.processor = .calling true) := fun hp => by
  have hclosed := (h.drained hp hc).2
  rw [h.open_of_here hr] at hclosed
  cases hclosed

/-- The reader leaves, with what it has in hand. -/
theorem Inv.leave (h : Inv p) {left : Option Pkt} (hr : ∀ l, p.reader ≠ .gone l) (hhand : inHand p.reader = left.toList)
    (hleft : p.cancelled = false → left = none ∧ p.src.buf = [] ∧ p.src.closed = true) : Inv (p.leave left) := by
  have hopen := h.open_of_here hr
  have hclose : p.pktCh.close = some { p.pktCh with closed := true } := by
    unfold Chan.close
    rw [hopen]
    rfl
  unfold CaptureProducer.leave
  rw [hclose]
  exact
    { h with
      flow := by rw [h.flow, hhand]; rfl
      closed := iff_of_true rfl ⟨left, rfl⟩
      left := fun l hl hc => by rw [← PacketReader.gone.inj hl]; exact hleft hc
      drained := fun hp hc => absurd hp (h.selects hr hc)
      done := fun hd => absurd (h.done hd).1 fun ⟨l, hl⟩ => hr l hl }

/-- The processor calls the reassembler, for the last time to close it. -/
theorem Inv.call (h : Inv p) (hp : p.processor = .selecting) {c : ReasmCall Pkt} {last : Bool}
    (hc : last = true ↔ c = .close) {ch : Chan Pkt} (hch : ch = { p.pktCh with buf := ch.buf })
    (hbuf : p.pktCh.buf = c.packet.toList ++ ch.buf)
    (hend : last = true → p.cancelled = false → ch.buf = [] ∧ ch.closed = true) :
    Inv ({ p with pktCh := ch }.call c last) := by
  have hnone : ReasmCall.close ∉ p.calls := by
    have := h.closes
    rwa [hp] at this
  refine { h with flow := ?_, cap := ?_, bound := ?_, closed := ?_, drained := ?_, closes := ?_, done := fun hd => ?_ }
  · have hpacket : [c].filterMap ReasmCall.packet = c.packet.toList := by
      rcases c with pkt | _ | _ <;> rfl
    show p.delivered = (p.calls ++ [c]).filterMap ReasmCall.packet ++ ch.buf ++ inHand p.reader ++ p.src.buf
    rw [h.flow, hbuf, List.filterMap_append, hpacket, assembled]
    simp only [List.append_assoc]
  · rw [hch]
    exact h.cap
  · have hlen := h.bound
    rw [hbuf, List.length_append] at hlen
    show ch.buf.length ≤ _
    omega
  · show ch.closed = true ↔ _
    rw [hch]
    exact h.closed
  · simpa [CaptureProducer.call] using hend
  · rcases last with _ | _
    · show ReasmCall.close ∉ p.calls ++ [c]
      rw [List.mem_append, List.mem_singleton, not_or]
      exact ⟨hnone, fun heq => Bool.false_ne_true (hc.2 heq.symm)⟩
    · exact ⟨p.calls, by rw [← hc.1 rfl]; rfl, hnone⟩
  · have := (h.done hd).2
    rw [hp] at this
    cases this

theorem Inv.receive (h : Inv p) (hr : p.reader = .receiving) {pkt : Pkt} {src : Chan Pkt}
    (hsrc : p.src.receive = .item pkt src) : Inv { p with src, reader := .sending pkt } := by
  obtain ⟨hbuf, -⟩ := Chan.received_item hsrc
  have hhere : ∀ left, p.reader ≠ .gone left := fun left hl => by rw [hr] at hl; cases hl
  exact
    { h with
      flow := by
        rw [h.flow, hbuf, hr]
        simp [inHand, assembled]
      closed := iff_of_false (by rw [h.open_of_here hhere]; exact Bool.false_ne_true) (by simp)
      left := fun left hl => (by cases hl)
      done := fun hd => absurd (h.done hd).1 fun ⟨l, hl⟩ => hhere l hl }

theorem Inv.send (h : Inv p) {pkt : Pkt} (hr : p.reader = .sending pkt) {ch : Chan Pkt}
    (hch : p.pktCh.send pkt = .ok ch) : Inv { p with pktCh := ch, reader := .receiving } := by
  obtain ⟨rfl, hopen, hroom⟩ := Chan.sent_ok hch
  have hhere : ∀ left, p.reader ≠ .gone left := fun left hl => by rw [hr] at hl; cases hl
  exact
    { h with
      flow := by
        rw [h.flow, hr]
        simp [inHand, assembled]
      bound := by
        have hcap := h.cap
        show (p.pktCh.buf ++ [pkt]).length ≤ _
        rw [List.length_append, List.length_singleton]
        omega
      closed := iff_of_false (by rw [hopen]; exact Bool.false_ne_true) (by simp)
      left := fun left hl => (by cases hl)
      drained := fun hp hc => absurd hp (h.selects hhere hc)
      done := fun hd => absurd (h.done hd).1 fun ⟨l, hl⟩ => hhere l hl }

theorem Inv.processorReturn (h : Inv p) {last : Bool} (hp : p.processor = .calling last) :
    Inv { p with processor := if last then .gone else .selecting } := by
  refine { h with drained := fun hg => ?_, closes := ?_, done := fun hd => ?_ }
  · rcases last with _ | _
    · simp at hg
    · exact h.drained (Or.inr hp)
  · have hcloses := h.closes
    rw [hp] at hcloses
    rcases last with _ | _ <;> exact hcloses
  · have := (h.done hd).2
    rw [hp] at this
    cases this

/-- **The step.** -/
theorem Inv.step (h : Inv p) (a : Act Pkt) : Inv (p.step a) := by
  rcases a with pkt | _ | _ | _ | _ | _ | _ | _ | _ | _ | _ | _ <;> dsimp only [CaptureProducer.step]
  case deliver =>
    split
    · rename_i src hsend
      obtain ⟨rfl, hopen, -⟩ := Chan.sent_ok hsend
      refine ⟨?_, h.cap, h.bound, h.closed, fun left hl hc => ?_, h.drained, h.closes, h.done, h.panicked⟩
      · show p.delivered ++ [pkt] = p.assembled ++ p.pktCh.buf ++ inHand p.reader ++ (p.src.buf ++ [pkt])
        rw [h.flow]
        simp only [List.append_assoc]
      · have hclosed := (h.left left hl hc).2.2
        rw [hopen] at hclosed
        cases hclosed
    · exact h
  case endSource =>
    exact { h with left := fun left hl hc => ⟨(h.left left hl hc).1, (h.left left hl hc).2.1, rfl⟩ }
  case cancel =>
    exact { h with left := fun _ _ hc => (by cases hc), drained := fun _ hc => (by cases hc) }
  case readerDone =>
    split
    · rename_i hr
      split_ifs with hc
      · refine h.leave (fun left hl => ?_) (by rw [hr]; rfl) fun hlive => ?_
        · rw [hr] at hl
          cases hl
        · rw [hc] at hlive
          cases hlive
      · exact h
    · exact h
  case readerReceive =>
    split
    · rename_i hr hsrc
      exact h.receive hr hsrc
    · rename_i hr hsrc
      obtain ⟨hbuf, hclosed⟩ := Chan.received_ended hsrc
      refine h.leave (fun left hl => ?_) (by rw [hr]; rfl) fun _ => ⟨rfl, hbuf, hclosed⟩
      rw [hr] at hl
      cases hl
    · exact h
  case readerSend =>
    split
    · rename_i pkt hr
      split
      · rename_i ch hch
        exact h.send hr hch
      · exact h
      · rename_i hpanic
        have hopen := h.open_of_here fun left hl => by rw [hr] at hl; cases hl
        rw [Chan.sent_panics hpanic] at hopen
        cases hopen
    · exact h
  case readerGiveUp =>
    split
    · rename_i pkt hr
      split_ifs with hc
      · refine h.leave (fun left hl => ?_) (by rw [hr]; rfl) fun hlive => ?_
        · rw [hr] at hl
          cases hl
        · rw [hc] at hlive
          cases hlive
      · exact h
    · exact h
  case processorDone =>
    split_ifs with hc
    · refine h.call hc.1 (by simp) rfl rfl fun _ hlive => ?_
      rw [hc.2] at hlive
      cases hlive
    · exact h
  case processorReceive =>
    split
    · rename_i pkt ch hp hch
      obtain ⟨hbuf, hch⟩ := Chan.received_item hch
      exact h.call hp (by simp) hch hbuf (by simp)
    · rename_i hp hch
      exact h.call hp (by simp) rfl rfl fun _ _ => Chan.received_ended hch
    · exact h
  case tick =>
    split_ifs with hp
    · exact h.call hp (by simp) rfl rfl (by simp)
    · exact h
  case processorReturn =>
    split
    · rename_i last hp
      exact h.processorReturn hp
    · exact h
  case finish =>
    split
    · rename_i left hr hp
      exact { h with done := fun _ => ⟨⟨left, hr⟩, hp⟩ }
    · exact h

theorem Inv.foldl : ∀ (acts : List (Act Pkt)) {p : CaptureProducer Pkt}, Inv p → Inv (acts.foldl CaptureProducer.step p)
  | [], _, h => h
  | a :: acts, _, h => Inv.foldl acts (h.step a)

theorem inv_run (cap : ℕ) (acts : List (Act Pkt)) : Inv (run cap acts) := Inv.foldl acts (inv_new cap)

/-- Once `done` is closed with a live context, every packet was assembled. -/
theorem Inv.assembled_all (h : Inv p) (hd : p.done = true) (hc : p.cancelled = false) : p.assembled = p.delivered := by
  obtain ⟨⟨left, hr⟩, hp⟩ := h.done hd
  obtain ⟨rfl, hsrc, -⟩ := h.left left hr hc
  rw [h.flow, (h.drained (Or.inl hp) hc).1, hr, hsrc]
  simp [inHand]

/-- **Packets are assembled in order, each once.** In every interleaving the
packets assembled are the first that the source delivered, and all but those in its
channel, at most `pktChanBuffer` in the channel between the goroutines and one in
the reader's hand; all of them once `done` is closed with a live context. The
reassembler is closed by the last call only, and by then if `done` is closed. Nothing
panics. -/
theorem assembled_in_order (cap : ℕ) (acts : List (Act Pkt)) :
    let p := run cap acts
    p.assembled <+: p.delivered ∧
    p.delivered.length ≤ p.assembled.length + (pktChanBuffer + 1) + p.src.buf.length ∧
    (p.done = true → p.cancelled = false → p.assembled = p.delivered) ∧
    .close ∉ p.calls.dropLast ∧
    (p.done = true → p.calls.getLast? = some .close) ∧
    p.panicked = false := by
  intro p
  have h : Inv p := inv_run cap acts
  refine ⟨?_, ?_, h.assembled_all, h.closes.once, fun hd => ?_, h.panicked⟩
  · rw [h.flow, List.append_assoc, List.append_assoc]
    exact List.prefix_append _ _
  · have hhand := length_inHand p.reader
    have hbuf := h.bound
    rw [h.flow]
    simp only [List.length_append]
    omega
  · have hcloses := h.closes
    rw [(h.done hd).2] at hcloses
    obtain ⟨before, hcalls, -⟩ := hcloses
    rw [hcalls, List.getLast?_concat]

end CaptureProducer
end PgShadow
