/-
# Does every pause of the dispatcher end?

The dispatcher pauses while the lanes are full or the guard's
`CheckBackpressure` says so. The lanes drain by themselves, but the two values
the guard looks at change by the dispatcher's own work only: the queue gets
shorter, and the replay lag gets another value, when an event is dequeued. With
idle lanes, a pause is therefore for good (`Stuck`): captured events make the
queue longer, and nothing else happens.

So with idle lanes the dispatcher goes on if and only if the queue is within
`MaxQueueDepth` and the last event that was dequeued, with a capture time, was
within `MaxReplayLagSeconds` then (`pause_ends_iff`). An event older than that
stops the replay (`pause_absorbing`).

Key definitions: `Idle`, `agesOf`, `Guard.WithinDepth`, `Guard.WithinLag`.
Key theorems: `pause_ends_iff`.
-/
import PgShadow.Replayer.Run

namespace PgShadow

namespace Guard

variable {F : Type} [Float64 F] (g : Guard F)

def WithinDepth (depth : ℤ) : Prop := g.cfg.maxQueueDepth ≤ 0 ∨ depth ≤ g.cfg.maxQueueDepth

/-- The lag, in nanoseconds, is not over the threshold. -/
def WithinLag (lag : ℤ) : Prop :=
  Float64.lt (Float64.ofNat 0) g.cfg.maxReplayLagSeconds = false ∨
    Float64.lt g.cfg.maxReplayLagSeconds (Float64.seconds lag) = false

theorem checkBackpressure_eq_false_iff (depth lag : ℤ) :
    g.checkBackpressure depth (Float64.seconds lag) = false ↔ g.WithinDepth depth ∧ g.WithinLag lag := by
  unfold checkBackpressure WithinDepth WithinLag
  rw [Bool.or_eq_false_iff, Bool.and_eq_false_iff, Bool.and_eq_false_iff]
  simp

theorem checkBackpressure_mono {depth depth' : ℤ} (hle : depth ≤ depth') {lag : F}
    (h : g.checkBackpressure depth lag = true) : g.checkBackpressure depth' lag = true := by
  unfold checkBackpressure at h ⊢
  rcases Bool.or_eq_true_iff.mp h with hd | hlag
  · simp only [Bool.and_eq_true, decide_eq_true_eq] at hd
    apply Bool.or_eq_true_iff.mpr
    left
    simp only [Bool.and_eq_true, decide_eq_true_eq]
    exact ⟨hd.1, lt_of_lt_of_le hd.2 hle⟩
  · exact Bool.or_eq_true_iff.mpr (Or.inr hlag)

end Guard

theorem configureMode_maxLaneDepth_pos {F : Type} (cfg : ReplayConfig) (guard : Option (Guard F)) :
    1 ≤ (configureMode cfg guard).maxLaneDepth := by
  change 1 ≤ if cfg.maxLaneDepth ≤ 0 then (100000 : ℤ) else cfg.maxLaneDepth
  split_ifs <;> omega

namespace Replay

/-- All lanes are empty, and their goroutines wait for an event. -/
def Idle (s : Replay) : Prop := ∀ k ∈ s.keys, (s.lanes k).any fun l => l.buf = [] ∧ l.worker = .ready

instance (s : Replay) : Decidable s.Idle := inferInstanceAs (Decidable (∀ k ∈ s.keys, _))

variable {s : Replay}

theorem Idle.laneDepth_eq_zero (h : s.Idle) : s.laneDepth = 0 := by
  unfold laneDepth
  apply List.sum_eq_zero_iff_forall_eq_nat.mpr
  intro n hn
  obtain ⟨k, hk, rfl⟩ := List.mem_map.mp hn
  have hlane := h k hk
  rcases hl : s.lanes k with _ | l
  · rfl
  · rw [hl] at hlane
    simp only [Option.any_some, decide_eq_true_eq] at hlane
    simp [hlane.1]

/-- The age at its dequeue of the event that the action dequeues, if it has a
capture time. -/
def ages (s : Replay) : Act → List ℤ
  | .dequeue now =>
    match s.phase, s.upstream with
    | .dequeuing, ev :: _ => if ev.timestamp = zeroTime then [] else [now - ev.timestamp]
    | _, _ => []
  | _ => []

variable {F : Type} {r : Replayer F}

/-- An idle lane of a run has nothing to take, as long as the dispatcher is at
work. -/
theorem Inv.waits (h : Inv r s) (hp : s.phase = .checking) (hidle : s.Idle) {k : Bytes} {l : Lane}
    (hl : s.lanes k = some l) : l.worker = .ready ∧ l.take = l := by
  have hlane := hidle k (h.mem_keys hl)
  rw [hl] at hlane
  simp only [Option.any_some, decide_eq_true_eq] at hlane
  have hopen : l.closed ≠ true := by
    intro hc
    rcases h.closed k l hl hc with hp' | hp' <;> rw [hp] at hp' <;> cases hp'
  exact ⟨hlane.2, by simp [Lane.take, hlane, hopen]⟩

variable [Float64 F]

/-- The ages of the dequeued events, in a run from `s`. -/
def agesOf (r : Replayer F) : Replay → List Act → List ℤ
  | _, [] => []
  | s, a :: acts => s.ages a ++ agesOf r (step r s a) acts

theorem lag_step (r : Replayer F) (s : Replay) (a : Act) : (step r s a).lag = (s.ages a).getLast?.getD s.lag := by
  by_cases ha : ∃ now, a = .dequeue now
  · obtain ⟨now, rfl⟩ := ha
    dsimp only [step, ages]
    rcases s.phase with _ | _ | _ | _ | _ <;> rcases s.upstream with _ | ⟨ev, rest⟩ <;> try rfl
    dsimp only
    split_ifs <;> rfl
  · have hne : ∀ now, a ≠ .dequeue now := fun now heq => ha ⟨now, heq⟩
    have hnone : s.ages a = [] := by
      rcases a with _ | _ | _ | _ | now | _ | _ | _ | _ | _ | _ | _ | _ <;> try rfl
      exact absurd rfl (hne now)
    rw [hnone]
    exact (step_of_ne_dequeue r s hne).1

theorem lag_foldl (r : Replayer F) : ∀ (acts : List Act) (s : Replay),
    (acts.foldl (step r) s).lag = (agesOf r s acts).getLast?.getD s.lag
  | [], _ => rfl
  | a :: acts, s => by
    rw [List.foldl_cons, lag_foldl r acts, lag_step, agesOf, List.getLast?_append]
    rcases (agesOf r (step r s a) acts).getLast? with _ | age <;> rfl

/-- With idle lanes the pause condition is the guard's. -/
theorem Idle.pauses_eq (h : s.Idle) (hr : 1 ≤ r.maxLaneDepth) :
    s.pauses r = r.guard.any fun g => g.checkBackpressure s.upstream.length (Float64.seconds s.lag) := by
  have hlanes : ¬r.maxLaneDepth ≤ (0 : ℕ) := by omega
  unfold pauses
  rw [h.laneDepth_eq_zero, decide_eq_false hlanes, Bool.false_or]
  simp

/-- **Stuck.** The dispatcher pauses for what the guard says of the queue or of
the lag, and no goroutine of a lane has anything to do. -/
structure Stuck (r : Replayer F) (s : Replay) : Prop where
  phase : s.phase = .checking
  live : s.cancelled = false
  waits : ∀ k l, s.lanes k = some l → l.worker = .ready ∧ l.take = l
  exceeded : r.guard.any fun g => g.checkBackpressure s.upstream.length (Float64.seconds s.lag)

theorem Inv.stuck (h : Inv r s) (hp : s.phase = .checking) (hlive : s.cancelled = false) (hidle : s.Idle)
    (hr : 1 ≤ r.maxLaneDepth) (hpause : s.pauses r = true) : Stuck r s where
  phase := hp
  live := hlive
  waits _ _ hl := h.waits hp hidle hl
  exceeded := hidle.pauses_eq hr ▸ hpause

theorem Stuck.pauses (h : Stuck r s) : s.pauses r = true := by
  obtain ⟨g, hg, hover⟩ := (Option.any_eq_true _ _).mp h.exceeded
  apply Bool.or_eq_true_iff.mpr
  right
  rw [hg]
  exact g.checkBackpressure_mono (by omega) hover

theorem setLane_self {k : Bytes} {l : Lane} (hl : s.lanes k = some l) : s.setLane k l = s := by
  have hsame : s.lanes.set k l = s.lanes := by
    rw [GoMap.set, ← hl]
    exact Function.update_eq_self k s.lanes
  rw [setLane, hsame]

theorem Stuck.onLane (h : Stuck r s) (k : Bytes) {f : Lane → Replay}
    (hf : ∀ l, s.lanes k = some l → l.worker = .ready → l.take = l → f l = s) : s.onLane k f = s := by
  unfold Replay.onLane
  rcases hl : s.lanes k with _ | l
  · rfl
  · exact hf l hl (h.waits k l hl).1 (h.waits k l hl).2

/-- Nothing happens but that events are captured or the context is cancelled. -/
theorem Stuck.step_eq (h : Stuck r s) {a : Act} (hcancel : a ≠ .cancel) (harrive : ∀ ev, a ≠ .arrive ev) :
    step r s a = s := by
  rcases a with ev | _ | _ | _ | now | _ | _ | k | _ | k | k | k | k <;> dsimp only [step]
  case arrive => exact absurd rfl (harrive ev)
  case cancel => exact absurd rfl hcancel
  case check => simp [h.pauses]
  case leave => simp [h.live]
  case take =>
    apply h.onLane k
    intro l hl _ htake
    rw [htake]
    exact setLane_self hl
  case start =>
    apply h.onLane k
    intro l _ hw _
    rw [hw]
  case giveUp =>
    apply h.onLane k
    intro l _ hw _
    rw [hw]
  case finish =>
    apply h.onLane k
    intro l _ hw _
    rw [hw]
  all_goals simp [h.phase]

theorem Stuck.arrive (h : Stuck r s) (ev : SQLEvent) : Stuck r (step r s (.arrive ev)) where
  phase := h.phase
  live := h.live
  waits := h.waits
  exceeded := by
    obtain ⟨g, hg, hover⟩ := (Option.any_eq_true _ _).mp h.exceeded
    rw [hg]
    have hlen : (step r s (.arrive ev)).upstream.length = s.upstream.length + 1 := List.length_append
    exact g.checkBackpressure_mono (by omega) hover

/-- **A pause for good.** -/
theorem Stuck.dequeued : ∀ (more : List Act) {s : Replay}, Stuck r s → Act.cancel ∉ more →
    (more.foldl (step r) s).dequeued = s.dequeued
  | [], _, _, _ => rfl
  | a :: more, s, h, hc => by
    obtain ⟨ha, hmore⟩ := not_or.mp (mt List.mem_cons.mpr hc)
    rw [List.foldl_cons]
    by_cases harrive : ∃ ev, a = .arrive ev
    · obtain ⟨ev, rfl⟩ := harrive
      exact (h.arrive ev).dequeued more hmore
    · rw [h.step_eq (Ne.symm ha) fun ev heq => harrive ⟨ev, heq⟩]
      exact h.dequeued more hmore

/-- **When a pause ends.** In every state of a run with idle lanes, a live context
and events in the queue, the dispatcher does not pause if and only if the queue is
within `MaxQueueDepth` and the last event dequeued with a capture time was within
`MaxReplayLagSeconds`. If it pauses it never dequeues again, whatever happens
short of a cancellation. -/
theorem pause_ends_iff (cfg : ReplayConfig) (guard : Option (Guard F)) (acts : List Act)
    (hidle : (run (configureMode cfg guard) acts).Idle)
    (hlive : (run (configureMode cfg guard) acts).cancelled = false)
    (hup : (run (configureMode cfg guard) acts).upstream ≠ []) :
    let r := configureMode cfg guard
    let s := run r acts
    (s.pauses r = false ↔
      ∀ g ∈ guard, g.WithinDepth s.upstream.length ∧ g.WithinLag ((agesOf r {} acts).getLast?.getD 0)) ∧
    (s.phase = .checking →
      (s.pauses r = true ↔ ∀ more : List Act, Act.cancel ∉ more → (more.foldl (step r) s).dequeued = s.dequeued)) := by
  intro r s
  have hr : 1 ≤ r.maxLaneDepth := configureMode_maxLaneDepth_pos cfg guard
  have hlag : s.lag = (agesOf r {} acts).getLast?.getD 0 := lag_foldl r acts {}
  refine ⟨?_, fun hp => ⟨fun hpause => ?_, fun hall => ?_⟩⟩
  · rw [hidle.pauses_eq hr, ← hlag, Option.any_eq_false]
    exact forall₂_congr fun g _ => g.checkBackpressure_eq_false_iff _ _
  · have hstuck := (inv_run cfg guard acts).stuck hp hlive hidle hr hpause
    exact fun more hc => hstuck.dequeued more hc
  · by_contra hpause
    obtain ⟨ev, rest, hcons⟩ := List.exists_cons_of_ne_nil hup
    -- without a pause, the check and a dequeue are two steps that take an event
    have hcheck : step r s .check = { s with phase := .dequeuing } := if_pos ⟨hp, Bool.eq_false_iff.mpr hpause⟩
    have hmore := hall [.check, .dequeue 0] (by simp)
    rw [List.foldl_cons, hcheck, List.foldl_cons, List.foldl_nil] at hmore
    simp [step, s, r, hcons] at hmore

/-- The backpressure thresholds of `config.production.yaml`. -/
def productionGuard : Guard ℚ where
  cfg := { maxReplayLagSeconds := 60, maxQueueDepth := 500000, replayPercentage := 0 }
  ddlPattern := ⟨fun _ => false, fun s _ => s⟩

/-- An event of one connection. -/
def captured (timestamp : ℤ) : SQLEvent where
  conn := ⟨.v4 0x0a000001, 5000, .v4 0x0a0000ff, 5432⟩
  sql := bytes "UPDATE t SET n = n + 1"
  timestamp := timestamp

/-- The first event is dequeued at the time `now`, and executed while the second
is captured. -/
def twoEvents (now : ℤ) : List Act :=
  let k := (captured 0).conn.key
  [.arrive (captured 0), .check, .dequeue now, .route, .arrive (captured 60000000000), .take k, .start k, .finish k]

/-- The first event is a second old: the second is dequeued. -/
theorem pause_ends_fresh :
    let r := configureMode {} (some productionGuard)
    let s := run r (twoEvents 1000000000)
    s.Idle ∧ s.cancelled = false ∧ s.upstream = [captured 60000000000] ∧ s.pauses r = false := by
  refine ⟨by decide +kernel, by decide +kernel, by decide +kernel, ?_⟩
  refine (pause_ends_iff {} (some productionGuard) (twoEvents 1000000000) (by decide +kernel) (by decide +kernel)
    (by decide +kernel)).1.mpr ?_
  intro g hg
  obtain rfl := Option.some.inj hg
  exact ⟨Or.inr (by decide +kernel), Or.inr (by decide +kernel)⟩

/-- **Counterexample**: the first event is 61 seconds old when it is dequeued. It
is executed, the lane is idle, the second event waits, and is never dequeued. -/
theorem pause_absorbing :
    let r := configureMode {} (some productionGuard)
    let s := run r (twoEvents 61000000000)
    s.Idle ∧ s.cancelled = false ∧ s.upstream = [captured 60000000000] ∧ s.pauses r = true ∧
      ∀ more : List Act, Act.cancel ∉ more → (more.foldl (step r) s).dequeued = [captured 0] := by
  intro r s
  have hidle : s.Idle := by decide +kernel
  have hlive : s.cancelled = false := by decide +kernel
  have hpause : s.pauses r = true := by decide +kernel
  have hstuck := (inv_run {} (some productionGuard) (twoEvents 61000000000)).stuck (by decide +kernel) hlive hidle
    (by decide +kernel) hpause
  refine ⟨hidle, hlive, by decide +kernel, hpause, fun more hc => ?_⟩
  rw [hstuck.dequeued more hc]
  decide +kernel

end Replay
end PgShadow
