/-
# The consumer as its caller sees it

`Run` of `pkg/replayer/replayer_impl.go` from the outside. The consumer takes events
from the front of the queue and leaves the rest of it and the context alone; once
the dispatcher has left its loop it does not come back, and it leaves it only for an
empty queue or a cancelled context (`frame_step`). After the return nothing is
executing.

Key definitions: `Replay.ending`, `Replay.Frame`.
Key theorems: `Replay.frame_step`, `Replay.Inv.executing_returned`.
-/
import PgShadow.Replayer.Run

namespace PgShadow

namespace Replay

variable {F : Type} [Float64 F] {r : Replayer F} {s : Replay}

/-- No more events are dequeued. -/
def ending (p : Phase) : Bool := p = .closing ∨ p = .returned

/-- What the action `a` of the consumer can do to the queue, to its context and to
the loop of the dispatcher. -/
structure Frame (a : Act) (s t : Replay) : Prop where
  events : t.dequeued ++ t.upstream = s.dequeued ++ s.upstream
  upstream : t.upstream <:+ s.upstream
  cancelled : t.cancelled = s.cancelled
  returned : s.phase = .returned → t.phase = .returned
  ending : ending t.phase = true → ending s.phase = true ∨ a = .drained ∨ s.cancelled = true

theorem frame_step (r : Replayer F) (s : Replay) {a : Act} (harrive : ∀ ev, a ≠ .arrive ev) (hcancel : a ≠ .cancel) :
    Frame a s (step r s a) := by
  -- the lanes and their goroutines are no part of the frame
  have hsame : ∀ {a : Act} {t : Replay}, t.dequeued = s.dequeued → t.upstream = s.upstream →
      t.cancelled = s.cancelled → t.phase = s.phase → Frame a s t := fun hd hu hc hp =>
    ⟨by rw [hd, hu], hu ▸ List.suffix_rfl, hc, hp ▸ id, fun he => Or.inl (hp ▸ he)⟩
  -- the dispatcher goes from one phase to another
  have hphase : ∀ {a : Act} {p : Phase}, s.phase ≠ .returned →
      (ending p = true → ending s.phase = true ∨ a = .drained ∨ s.cancelled = true) →
      Frame a s { s with phase := p } := fun hp he => ⟨rfl, List.suffix_rfl, rfl, fun h => absurd h hp, he⟩
  have honLane : ∀ {a : Act} (k : Bytes) (f : Lane → Replay), (∀ l, Frame a s (f l)) → Frame a s (s.onLane k f) := by
    intro a k f hf
    unfold onLane
    rcases s.lanes k with _ | l
    · exact hsame rfl rfl rfl rfl
    · exact hf l
  rcases a with ev | _ | _ | _ | now | _ | _ | k | _ | k | k | k | k <;> dsimp only [step]
  case arrive => exact absurd rfl (harrive ev)
  case cancel => exact absurd rfl hcancel
  case check =>
    split_ifs with hc
    · exact hphase (by simp [hc.1]) (by simp [Replay.ending])
    · exact hsame rfl rfl rfl rfl
  case leave =>
    split_ifs with hc
    · exact hphase (by simp [hc.1]) fun _ => Or.inr (Or.inr hc.2.2)
    · exact hsame rfl rfl rfl rfl
  case dequeue =>
    split
    · rename_i ev rest hp hu
      exact ⟨by simp [hu], by rw [hu]; exact List.suffix_cons ev rest, rfl, by simp [hp], by simp [Replay.ending]⟩
    · exact hsame rfl rfl rfl rfl
  case drained =>
    split_ifs with hc
    · exact hphase (by simp [hc]) fun _ => Or.inr (Or.inl rfl)
    · exact hsame rfl rfl rfl rfl
  case route =>
    split
    · rename_i hp
      unfold enqueueLane
      split <;> exact ⟨rfl, List.suffix_rfl, rfl, by simp [hp], by simp [Replay.ending]⟩
    · exact hsame rfl rfl rfl rfl
  case closeLane =>
    split_ifs
    · exact honLane k _ fun _ => hsame rfl rfl rfl rfl
    · exact hsame rfl rfl rfl rfl
  case ret =>
    split_ifs with hc
    · exact hphase (by simp [hc.1]) fun _ => Or.inl (by simp [Replay.ending, hc.1])
    · exact hsame rfl rfl rfl rfl
  case take => exact honLane k _ fun _ => hsame rfl rfl rfl rfl
  case finish =>
    refine honLane k _ fun l => ?_
    split <;> exact hsame rfl rfl rfl rfl
  all_goals
    refine honLane k _ fun l => ?_
    split
    · split_ifs <;> exact hsame rfl rfl rfl rfl
    · exact hsame rfl rfl rfl rfl

omit [Float64 F]

/-- What is in the queue is not part of what the dispatcher keeps to. -/
theorem Inv.setUpstream (h : Inv r s) (u : List SQLEvent) : Inv r { s with upstream := u } :=
  ⟨h.flow, h.nodup, h.keys, h.sem, h.slots, h.gone, h.closed, h.done⟩

theorem Inv.handed_conn_isPrefix (h : Inv r s) (c : ConnID) :
    s.handed.filter (·.conn = c) <+: s.dequeued.filter (·.conn = c) := by
  rw [← filter_conn r c s.handed, ← filter_conn r c s.dequeued]
  exact (h.handed_isPrefix _).filter _

/-- Nothing is executing once `Run` has returned. -/
theorem Inv.executing_returned (h : Inv r s) (hp : s.phase = .returned) : s.executing = 0 := by
  apply List.countP_eq_zero.2
  intro k hk
  rcases hl : s.lanes k with _ | l
  · simp
  · have hgone := h.done hp k l hl
    rcases hw : l.worker with _ | _ | _ | _ <;> rw [hw] at hgone <;>
      simp [hw, Worker.isExecuting, Worker.isGone] at hgone ⊢

end Replay
end PgShadow
