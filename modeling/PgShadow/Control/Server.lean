/-
# The control plane

`internal/control/control.go` with the callbacks that `main.go` gives it:
`resumeCapture` on activate, `pauseCapture` on pause. A handler changes the
server's state under its mutex and runs the callback afterwards, outside the
lock, if the change was one; requests run concurrently, so the callbacks of
several requests may be pending and run in any order.

The state is what the last request asked for, not what the capture does: a
failed resume leaves it active, and the repeated request is then taken for
nothing to do (`failed_resume`); an activate and a pause whose callbacks overtake
each other leave it active with capture paused (`callbacks_overtake`). State and
capture agree at every rest exactly if no resume fails while the state is active
and no callback but one of the state's own direction finishes last:
`state_agrees_iff`.

Key definitions: `ControlSystem`, `ControlSystem.step`, `ControlSystem.Agrees`,
`ControlSystem.Allowed`.
Key theorems: `agrees_step_iff`, `state_agrees_iff`.
-/
import PgShadow.Cmd.Pipeline

namespace PgShadow

/-- `control.State`. -/
inductive ControlState
  | active
  | paused
deriving DecidableEq

/-- The control plane at work: the server's state, the capture, and the requests
whose callback is still to run, each known by the state it asked for. -/
structure ControlSystem where
  state : ControlState := .active
  pipeline : PipelineState
  pending : List ControlState := []
deriving DecidableEq

inductive ControlAnswer
  | methodNotAllowed
  | ok (transition : ControlState × ControlState)
  | failed
deriving DecidableEq

inductive ControlStep
  /-- A request for a state, up to the release of the mutex. -/
  | request (post : Bool) (target : ControlState)
  /-- The pending request `i` runs its callback and is answered; `opens` is what
  `capture.Open` does. -/
  | callback (i : ℕ) (opens : Bool)
deriving DecidableEq

namespace ControlSystem

/-- The callback for a state, and whether it succeeds. -/
def runCallback (p : PipelineState) (opens : Bool) : ControlState → PipelineState × Bool
  | .active => p.resumeCapture opens
  | .paused => (p.pauseCapture, true)

/-- `handleActivate` and `handlePause`, each in two steps. A request that changes
nothing is answered at once. -/
def step (s : ControlSystem) : ControlStep → ControlSystem × Option ControlAnswer
  | .request false _ => (s, some .methodNotAllowed)
  | .request true target =>
    if s.state = target then (s, some (.ok (target, target)))
    else ({ s with state := target, pending := s.pending ++ [target] }, none)
  | .callback i opens =>
    match s.pending[i]? with
    | none => (s, none)
    | some target =>
      let r := runCallback s.pipeline opens target
      ({ s with pipeline := r.1, pending := s.pending.eraseIdx i },
        some (if r.2 then .ok (if target = .active then .paused else .active, target) else .failed))

def run (s : ControlSystem) (steps : List ControlStep) : ControlSystem := steps.foldl (fun s a => (s.step a).1) s

/-- With no request in progress the state tells whether capture is paused. -/
def Agrees (s : ControlSystem) : Prop := s.pending = [] → (s.state = .active ↔ s.pipeline.paused = false)

instance (s : ControlSystem) : Decidable s.Agrees := inferInstanceAs (Decidable (_ → _))

/-- After the step state and capture agree, and if it answers an activate
request with an error, repeating the request runs the callback again. -/
def StepAgrees (s : ControlSystem) (a : ControlStep) : Prop :=
  (s.step a).1.Agrees ∧ ((s.step a).2 = some .failed → (s.step a).1.state = .paused)

/-- No resume fails while the state is active, and a callback that leaves none
pending is one for the present state. -/
def Allowed (s : ControlSystem) : ControlStep → Prop
  | .request _ _ => True
  | .callback i opens =>
    match s.pending[i]? with
    | none => True
    | some target =>
      if target = .active ∧ s.pipeline.paused = true ∧ opens = false then s.state = .paused
      else s.pending.length = 1 → target = s.state

def AllAllowed (s : ControlSystem) (steps : List ControlStep) : Prop :=
  Machine.Along (fun s a => (s.step a).1) Allowed s steps

/-! ### Callbacks -/

theorem paused_pauseCapture (p : PipelineState) : p.pauseCapture.paused = true := by
  unfold PipelineState.pauseCapture
  by_cases hp : p.paused = true
  · rwa [if_pos hp]
  · rw [if_neg hp]

theorem resumeCapture_failed {p : PipelineState} {opens : Bool} (hp : p.paused = true) (ho : opens = false) :
    p.resumeCapture opens = (p, false) := by
  rw [PipelineState.resumeCapture, hp, ho]
  rfl

theorem resumeCapture_ok {p : PipelineState} {opens : Bool} (h : ¬(p.paused = true ∧ opens = false)) :
    (p.resumeCapture opens).2 = true ∧ (p.resumeCapture opens).1.paused = false := by
  unfold PipelineState.resumeCapture
  rcases hp : p.paused with _ | _
  · exact ⟨rfl, hp⟩
  · rcases opens with _ | _
    · exact absurd ⟨hp, rfl⟩ h
    · exact ⟨rfl, rfl⟩

/-- A callback that succeeds brings the capture to its state. -/
theorem runCallback_ok {p : PipelineState} {opens : Bool} {target : ControlState}
    (h : ¬(target = .active ∧ p.paused = true ∧ opens = false)) :
    (runCallback p opens target).2 = true ∧
      ((runCallback p opens target).1.paused = false ↔ target = .active) := by
  rcases target with _ | _
  · obtain ⟨hok, hp⟩ : (p.resumeCapture opens).2 = true ∧ (p.resumeCapture opens).1.paused = false :=
      resumeCapture_ok fun hc => h ⟨rfl, hc⟩
    exact ⟨hok, iff_of_true hp rfl⟩
  · refine ⟨rfl, iff_of_false ?_ (by decide)⟩
    rw [runCallback, paused_pauseCapture]
    decide

/-! ### Steps and runs -/

variable {s : ControlSystem}

theorem eraseIdx_eq_nil_iff {α : Type} {l : List α} {i : ℕ} (hi : i < l.length) :
    l.eraseIdx i = [] ↔ l.length = 1 := by
  rw [← List.length_eq_zero_iff, List.length_eraseIdx_of_lt hi]
  omega

theorem eq_active_iff_eq {a b : ControlState} : (a = .active ↔ b = .active) ↔ b = a := by
  cases a <;> cases b <;> decide

theorem step_callback_none {i : ℕ} (opens : Bool) (h : s.pending[i]? = none) :
    s.step (.callback i opens) = (s, none) := by
  simp only [step, h]

theorem step_callback_some {i : ℕ} (opens : Bool) {target : ControlState} (h : s.pending[i]? = some target) :
    s.step (.callback i opens) =
      ({ s with pipeline := (runCallback s.pipeline opens target).1, pending := s.pending.eraseIdx i },
        some (if (runCallback s.pipeline opens target).2 then
          .ok (if target = .active then .paused else .active, target) else .failed)) := by
  simp only [step, h]

theorem allowed_callback_none {i : ℕ} (opens : Bool) (h : s.pending[i]? = none) : s.Allowed (.callback i opens) := by
  simp only [Allowed, h]

theorem allowed_callback_some {i : ℕ} (opens : Bool) {target : ControlState} (h : s.pending[i]? = some target) :
    s.Allowed (.callback i opens) ↔
      if target = .active ∧ s.pipeline.paused = true ∧ opens = false then s.state = .paused
      else s.pending.length = 1 → target = s.state := by
  simp only [Allowed, h]

/-- State and capture agree after a step exactly if the step is allowed. -/
theorem agrees_step_iff (h : s.Agrees) (a : ControlStep) : s.StepAgrees a ↔ s.Allowed a := by
  rcases a with ⟨post, target⟩ | ⟨i, opens⟩
  · rcases post with _ | _
    · exact iff_of_true ⟨h, fun hf => by cases hf⟩ trivial
    · unfold StepAgrees step
      by_cases hsame : s.state = target
      · simp only [hsame, if_true]
        exact iff_of_true ⟨h, fun hf => by cases hf⟩ trivial
      · simp only [hsame, if_false]
        refine iff_of_true ⟨fun hnone => ?_, fun hf => by cases hf⟩ trivial
        simp at hnone
  · rcases hget : s.pending[i]? with _ | target
    · rw [StepAgrees, step_callback_none opens hget]
      exact iff_of_true ⟨h, fun hf => by cases hf⟩ (allowed_callback_none opens hget)
    · have hi : i < s.pending.length := (List.getElem?_eq_some_iff.1 hget).1
      rw [StepAgrees, step_callback_some opens hget, allowed_callback_some opens hget]
      by_cases hfail : target = .active ∧ s.pipeline.paused = true ∧ opens = false
      · -- the resume fails: capture stays paused and the request is answered with an error
        rw [if_pos hfail]
        obtain ⟨rfl, hp, ho⟩ := hfail
        rw [runCallback, resumeCapture_failed hp ho]
        constructor
        · exact fun hboth => hboth.2 rfl
        · intro hpaused
          refine ⟨fun _ => ?_, fun _ => hpaused⟩
          simp [hpaused, hp]
      · obtain ⟨hok, hiff⟩ := runCallback_ok hfail
        simp only [hfail, if_false, hok, if_true, Option.some.injEq, reduceCtorEq, false_implies, and_true, Agrees,
          eraseIdx_eq_nil_iff hi, hiff, eq_active_iff_eq]

/-- State and capture agree in every state of the run, and every request that is
answered with an error can be repeated. -/
def RunAgrees (s : ControlSystem) (steps : List ControlStep) : Prop :=
  (∀ pre, pre <+: steps → (s.run pre).Agrees) ∧
    ∀ pre a, pre ++ [a] <+: steps → ((s.run pre).step a).2 = some .failed → (s.run (pre ++ [a])).state = .paused

theorem runAgrees_cons (h : s.Agrees) (a : ControlStep) (steps : List ControlStep) :
    s.RunAgrees (a :: steps) ↔ s.StepAgrees a ∧ (s.step a).1.RunAgrees steps := by
  constructor
  · rintro ⟨hagrees, hretry⟩
    refine ⟨⟨hagrees [a] (by simp), hretry [] a (by simp)⟩, fun pre hpre => ?_, fun pre b hpre => ?_⟩
    · exact hagrees (a :: pre) (List.cons_prefix_cons.2 ⟨rfl, hpre⟩)
    · exact hretry (a :: pre) b (List.cons_prefix_cons.2 ⟨rfl, hpre⟩)
  · rintro ⟨hstep, hagrees, hretry⟩
    constructor
    · intro pre hpre
      rcases pre with _ | ⟨b, pre⟩
      · exact h
      · obtain ⟨rfl, hpre'⟩ := List.cons_prefix_cons.1 hpre
        exact hagrees pre hpre'
    · intro pre b hpre
      rcases pre with _ | ⟨c, pre⟩
      · obtain ⟨rfl, -⟩ := List.cons_prefix_cons.1 hpre
        exact hstep.2
      · obtain ⟨rfl, hpre'⟩ := List.cons_prefix_cons.1 hpre
        exact hretry pre b hpre'

theorem runAgrees_iff : ∀ (steps : List ControlStep) {s : ControlSystem}, s.Agrees →
    (s.RunAgrees steps ↔ s.AllAllowed steps)
  | [], s, h => by
    refine iff_of_true ⟨fun pre hpre => ?_, fun pre a hpre => ?_⟩ trivial
    · rw [List.prefix_nil.1 hpre]
      exact h
    · exact absurd (List.prefix_nil.1 hpre) (by simp)
  | a :: steps, s, h => by
    rw [runAgrees_cons h, AllAllowed, Machine.Along, agrees_step_iff h]
    refine and_congr_right fun hallowed => ?_
    exact runAgrees_iff steps ((agrees_step_iff h a).2 hallowed).1

/-- The control plane of a pipeline that was just started. -/
def start (cfg : CaptureConfig) : ControlSystem := { pipeline := .startPipeline cfg 0 [] }

/-- **The control plane's state is the truth** along a run, and a failed request
can be repeated, exactly if every callback of the run is allowed. -/
theorem state_agrees_iff (cfg : CaptureConfig) (steps : List ControlStep) :
    (start cfg).RunAgrees steps ↔ (start cfg).AllAllowed steps :=
  runAgrees_iff steps fun _ => iff_of_true rfl rfl

/-- Capture is paused, and the resume fails: the state is active, capture is
paused, and the repeated request runs no callback. -/
theorem failed_resume :
    let s := (start pcapConfig).run
      [.request true .paused, .callback 0 true, .request true .active, .callback 0 false]
    s.pending = [] ∧ s.state = .active ∧ s.pipeline.paused = true ∧
      s.step (.request true .active) = (s, some (.ok (.active, .active))) := by
  decide +kernel

/-- The callbacks of a pause and of the activate after it run in the other
order. -/
theorem callbacks_overtake :
    let s := (start pcapConfig).run
      [.request true .paused, .request true .active, .callback 1 true, .callback 0 true]
    s.pending = [] ∧ s.state = .active ∧ s.pipeline.paused = true := by
  decide +kernel

end ControlSystem

end PgShadow
