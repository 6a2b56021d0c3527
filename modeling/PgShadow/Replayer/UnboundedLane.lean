/-
# The lane's buffer

`pkg/replayer/unbounded_lane.go`: the buffer between the dispatcher and the goroutine
of a lane, a slice under a mutex with a condition variable. `Enqueue` and `Close` wake
the goroutine after they have let go of the mutex, so everything can happen in between.
`Dequeue` moves what is left into an array of its own when the capacity of the slice,
the slots from its start to the end of the array, has become too large for it.

The buffer is the list that `PgShadow.Replayer.Run` has for a lane: the events come
out in the order in which they were put in, and a `Dequeue` waits, returns an event or
finds the end exactly as `Lane.take` does (`dequeue_refines_take`). The goroutine never
sleeps on while there is something for it, unless a wake-up is about to come, and the
array keeps no event that was returned: `lane_is_fifo`.

Key definitions: `UnboundedLane`, `UnboundedLane.step`.
Key theorems: `UnboundedLane.Inv.step`, `UnboundedLane.lane_is_fifo`.
-/
import PgShadow.Lib.Monitor
import PgShadow.Lib.SliceQueue
import PgShadow.Replayer.Run

namespace PgShadow

open Monitor SliceQueue

/-- The call that the dispatcher makes after the mutex. -/
inductive Wake
  | signal
  | broadcast
deriving DecidableEq

/-- A lane: its fields, the wake-up that the dispatcher still owes, and whether its
goroutine got the answer that there is no more. The last two fields are history. -/
structure UnboundedLane where
  buf : Window SQLEvent
  closed : Bool := false
  cond : Cond Unit := {}
  owed : Option Wake := none
  ended : Bool := false
  enqueued : List SQLEvent := []
  returned : List SQLEvent := []
deriving DecidableEq

namespace UnboundedLane

/-- The sections of `Enqueue` and `Close`, with the room of a new array; the wake-up
that follows; a call of `Dequeue`, and the goroutine having the mutex again. -/
inductive Act
  | enqueue (ev : SQLEvent) (room : ℕ)
  | close
  | wake
  | dequeue
  | resume
deriving DecidableEq

/-- The capacity up to which the slice is left as it is. -/
abbrev shrinkAbove : ℕ := 1024

/-- What `Dequeue` does to the slice. -/
def shrink (buf : Window SQLEvent) : Window SQLEvent :=
  if shrinkAbove < buf.cap ∧ buf.len < buf.cap / 4 then buf.trim else buf

/-- The waiting loop of `Dequeue` and what follows it. -/
def take (l : UnboundedLane) : UnboundedLane :=
  if l.buf.len = 0 ∧ l.closed = false then { l with cond := l.cond.sleep () }
  else if l.buf.len = 0 then { l with ended := true }
  else { l with buf := shrink l.buf.pop, returned := l.returned ++ l.buf.front.toList }

def step (l : UnboundedLane) : Act → UnboundedLane
  | .enqueue ev room =>
    match l.owed with
    | none => { l with buf := l.buf.append room ev, owed := some .signal, enqueued := l.enqueued ++ [ev] }
    | some _ => l
  | .close =>
    match l.owed with
    | none => { l with closed := true, owed := some .broadcast }
    | some _ => l
  | .wake =>
    match l.owed with
    | none => l
    | some .signal => { l with cond := l.cond.signal, owed := none }
    | some .broadcast => { l with cond := l.cond.broadcast, owed := none }
  -- the one goroutine that calls `Dequeue` is not in a call, and has not left
  | .dequeue => if l.cond.all = [] ∧ l.ended = false then l.take else l
  | .resume => if l.cond.woken = [] then l else { l with cond := l.cond.run 0 }.take

/-- `newUnboundedLane`, and the actions. -/
def run (hint : ℕ) (acts : List Act) : UnboundedLane := acts.foldl step { buf := .make hint }

/-! ### What holds in every state -/

structure Inv (l : UnboundedLane) (buf : List SQLEvent) : Prop where
  holds : l.buf.Holds buf
  flow : l.enqueued = l.returned ++ buf
  one : l.cond.all.length ≤ 1
  signal : l.cond.asleep ≠ [] → buf ≠ [] → l.owed = some .signal
  broadcast : l.cond.asleep ≠ [] → l.closed = true → l.owed = some .broadcast
  ended : l.ended = true → l.closed = true

variable {l : UnboundedLane} {buf : List SQLEvent}

theorem inv_new (hint : ℕ) : Inv { buf := .make hint } [] where
  holds := Window.holds_make hint
  flow := rfl
  one := Nat.zero_le _
  signal h := absurd rfl h
  broadcast h := absurd rfl h
  ended h := by cases h

theorem holds_shrink {s : Window SQLEvent} (h : s.Holds buf) : (shrink s).Holds buf := by
  unfold shrink
  split_ifs
  · exact h.trim
  · exact h

/-- The capacity is small, or not much larger than what is in use. The array behind the
slice may be larger: the slots before its start do not count. -/
def Compact (buf : Window SQLEvent) : Prop := buf.cap ≤ shrinkAbove ∨ buf.cap / 4 ≤ buf.len

theorem compact_shrink {s : Window SQLEvent} (h : s.Holds buf) : Compact (shrink s) := by
  have hlen := h.len
  unfold shrink Compact
  split_ifs with hlarge
  · rw [h.cap_trim]
    show _ ∨ buf.length / 4 ≤ s.len
    omega
  · omega

/-- Nobody sleeps whom a signal or a broadcast could have woken. -/
theorem asleep_after {c : Cond Unit} (hone : c.all.length ≤ 1) : c.signal.asleep = [] ∧ c.broadcast.asleep = [] := by
  refine ⟨?_, rfl⟩
  rcases c with ⟨_ | ⟨w, _ | ⟨w', ws⟩⟩, woken⟩
  · rfl
  · rfl
  · simp [Cond.all] at hone

theorem length_all_signal (c : Cond Unit) : c.signal.all.length = c.all.length := by
  rcases c with ⟨_ | ⟨w, ws⟩, woken⟩
  · rfl
  · simp [Cond.signal, Cond.all]
    omega

/-- The goroutine that goes on was the only one in a wait. -/
theorem all_run {c : Cond Unit} (hone : c.all.length ≤ 1) (hwoken : c.woken ≠ []) : (c.run 0).all = [] := by
  rcases c with ⟨asleep, _ | ⟨w, woken⟩⟩
  · exact absurd rfl hwoken
  · simp only [Cond.all, List.length_append, List.length_cons] at hone
    have hnil : asleep = [] ∧ woken = [] :=
      ⟨List.eq_nil_of_length_eq_zero (by omega), List.eq_nil_of_length_eq_zero (by omega)⟩
    simp [Cond.run, Cond.all, hnil.1, hnil.2]

/-- The section of `Dequeue`, with nobody else in a wait. -/
theorem Inv.take (h : Inv l buf) (hnobody : l.cond.all = []) :
    ∃ buf', Inv l.take buf' ∧ (l.take.returned ≠ l.returned → Compact l.take.buf) := by
  have hasleep : l.cond.asleep = [] := (List.append_eq_nil_iff.1 hnobody).1
  have hlen := h.holds.len
  unfold UnboundedLane.take
  split_ifs with hwait hend
  · have hempty : buf = [] := List.eq_nil_of_length_eq_zero (by omega)
    refine ⟨buf, { h with one := ?_, signal := fun _ hne => absurd hempty hne, broadcast := fun _ hc => ?_ },
      absurd rfl⟩
    · simp only [Cond.all, Cond.sleep] at hnobody ⊢
      rw [(List.append_eq_nil_iff.1 hnobody).1, (List.append_eq_nil_iff.1 hnobody).2]
      exact Nat.le_refl 1
    · rw [hwait.2] at hc
      cases hc
  · exact ⟨buf, { h with ended := fun _ => by simpa [hend] using hwait }, absurd rfl⟩
  · rcases buf with _ | ⟨ev, buf⟩
    · exact absurd hlen hend
    · refine ⟨buf, { h with
        holds := holds_shrink h.holds.pop
        flow := ?_
        signal := fun hs => absurd hasleep hs
        broadcast := fun hs => absurd hasleep hs }, fun _ => compact_shrink h.holds.pop⟩
      show l.enqueued = l.returned ++ l.buf.front.toList ++ buf
      rw [h.flow, h.holds.front]
      simp

/-- **The step.** -/
theorem Inv.step (h : Inv l buf) (a : Act) :
    ∃ buf', Inv (l.step a) buf' ∧ ((l.step a).returned ≠ l.returned → Compact (l.step a).buf) := by
  rcases a with ⟨ev, room⟩ | _ | _ | _ | _ <;> dsimp only [UnboundedLane.step]
  case enqueue =>
    split
    · rename_i howed
      refine ⟨buf ++ [ev], { h with
        holds := h.holds.append room ev
        flow := ?_
        signal := fun _ _ => rfl
        broadcast := fun hs hc => ?_ }, absurd rfl⟩
      · show l.enqueued ++ [ev] = _
        rw [h.flow, List.append_assoc]
      · have := h.broadcast hs hc
        rw [howed] at this
        cases this
    · exact ⟨buf, h, absurd rfl⟩
  case close =>
    split
    · rename_i howed
      refine ⟨buf, { h with
        signal := fun hs hne => ?_, broadcast := fun _ _ => rfl, ended := fun _ => rfl }, absurd rfl⟩
      have := h.signal hs hne
      rw [howed] at this
      cases this
    · exact ⟨buf, h, absurd rfl⟩
  case wake =>
    obtain ⟨hsignal, hbroadcast⟩ := asleep_after h.one
    split
    · exact ⟨buf, h, absurd rfl⟩
    · refine ⟨buf, { h with
        one := ?_
        signal := fun hs => absurd hsignal hs
        broadcast := fun hs => absurd hsignal hs }, absurd rfl⟩
      rw [length_all_signal]
      exact h.one
    · refine ⟨buf, { h with
        one := ?_
        signal := fun hs => absurd hbroadcast hs
        broadcast := fun hs => absurd hbroadcast hs }, absurd rfl⟩
      have hone := h.one
      simp only [Cond.all, Cond.broadcast, List.length_append, List.length_nil] at hone ⊢
      omega
  case dequeue =>
    split_ifs with hcall
    · exact h.take hcall.1
    · exact ⟨buf, h, absurd rfl⟩
  case resume =>
    split_ifs with hwoken
    · exact ⟨buf, h, absurd rfl⟩
    · have hnobody := all_run h.one hwoken
      have hidle : Inv { l with cond := l.cond.run 0 } buf :=
        { h with
          one := by rw [hnobody]; exact Nat.zero_le 1
          signal := fun hs => absurd (List.append_eq_nil_iff.1 hnobody).1 hs
          broadcast := fun hs => absurd (List.append_eq_nil_iff.1 hnobody).1 hs }
      exact hidle.take hnobody

theorem inv_run (hint : ℕ) (acts : List Act) : ∃ buf, Inv (run hint acts) buf := by
  refine List.foldlRecOn (motive := fun l => ∃ buf, Inv l buf) acts step ⟨_, inv_new hint⟩ fun l hl a _ => ?_
  obtain ⟨buf, h⟩ := hl
  exact (h.step a).imp fun _ h' => h'.1

/-! ### Against the list -/

/-- A call of `Dequeue` is `Lane.take` of a goroutine that is about to dequeue: it
sleeps where that waits, and else it has the same event, or the same end. -/
theorem dequeue_refines_take (h : Inv l buf) (lane : Lane) (hready : lane.worker = .ready) (hbuf : lane.buf = buf)
    (hclosed : lane.closed = l.closed) :
    (lane.take = lane ∧ l.take = { l with cond := l.cond.sleep () }) ∨
    (∃ ev, lane.take.worker = .holding ev ∧ l.take.returned = l.returned ++ [ev] ∧ l.take.buf.Holds lane.take.buf) ∨
    (lane.take.worker = .gone none ∧ l.take = { l with ended := true }) := by
  have hlen := h.holds.len
  rcases buf with _ | ⟨ev, buf⟩
  · rw [List.length_nil] at hlen
    rcases hc : l.closed with _ | _
    · refine Or.inl ⟨?_, ?_⟩
      · simp [Lane.take, hready, hbuf, hclosed, hc]
      · rw [UnboundedLane.take, if_pos ⟨hlen, hc⟩, hc]
    · refine Or.inr (Or.inr ⟨?_, ?_⟩)
      · simp [Lane.take, hready, hbuf, hclosed, hc]
      · rw [UnboundedLane.take, if_neg (by simp [hc]), if_pos hlen, hc]
  · have hne : l.buf.len ≠ 0 := by
      rw [hlen]
      exact Nat.succ_ne_zero _
    have htake : l.take = { l with buf := shrink l.buf.pop, returned := l.returned ++ [ev] } := by
      rw [UnboundedLane.take, if_neg fun hw => hne hw.1, if_neg hne, h.holds.front]
      rfl
    have hlane : lane.take = { lane with buf, worker := .holding ev, seen := lane.seen.set ev.conn.key ev.conn } := by
      simp [Lane.take, hready, hbuf]
    rw [htake, hlane]
    exact Or.inr (Or.inl ⟨ev, rfl, rfl, holds_shrink h.holds.pop⟩)

/-- **The lane's buffer is a queue.** In every interleaving of the dispatcher and the
lane's goroutine, the events returned are those enqueued, in that order, and the rest
is buffered; the array holds no other. The goroutine does not sleep while there is an
event or the lane is closed, unless the dispatcher is about to wake it; it gets the
answer that there is no more only from a closed lane. After a `Dequeue` that returns an
event the capacity of the slice is at most 1024, or a quarter of it is in use. -/
theorem lane_is_fifo (hint : ℕ) (acts : List Act) :
    let l := run hint acts
    ∃ buf, l.buf.Holds buf ∧ l.enqueued = l.returned ++ buf ∧
      (∀ ev, some ev ∈ l.buf.array → ev ∈ buf) ∧
      (l.cond.asleep ≠ [] → buf ≠ [] ∨ l.closed = true → l.owed ≠ none) ∧
      (l.ended = true → l.closed = true) ∧
      ∀ a, (l.step a).returned ≠ l.returned → Compact (l.step a).buf := by
  intro l
  obtain ⟨buf, h⟩ := inv_run hint acts
  refine ⟨buf, h.holds, h.flow, fun ev hev => h.holds.mem_of_slot hev, fun hs hwork => ?_, h.ended, fun a ha => ?_⟩
  · rcases hwork with hne | hc
    · rw [h.signal hs hne]
      simp
    · rw [h.broadcast hs hc]
      simp
  · obtain ⟨-, -, hcompact⟩ := h.step a
    exact hcompact ha

end UnboundedLane
end PgShadow
