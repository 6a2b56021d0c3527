/-
# The capture producer of the pipeline

`cmd/pgshadow/pipeline.go`: `pipelineState` with the operations that start and
stop the capture producer. `startPipeline` starts the first one; the control
plane pauses and resumes it, the failover detector restarts it on a new address,
the shutdown drains it. Each operation holds the mutex, so a run is a sequence
of operations; whether `capture.Open` succeeds is an input of the operation.

A producer is known by the number of its start. `live` are those whose context
is not cancelled; an operation can cancel one producer only, the one that
`prodCancel` was made for.

`pauseCapture` and `resumeCapture` look at `paused`; `restartCapture` does not.
So it starts a producer while capture is paused, and a resume then starts a
second one and overwrites the handle of the first: `restart_while_paused`. In
every run without such a restart there is at most one producer:
`one_producer_iff`.

Key definitions: `PipelineState`, `PipelineState.request`, `pipelineStep`, `OneProducer`,
`Allowed`.
Key theorems: `invariant_step`, `one_producer_iff`.
-/
import PgShadow.Capture.Open
import PgShadow.Lib.Machine

namespace PgShadow

/-! ### The pipeline state -/

structure PipelineState where
  /-- `c.cfg.Capture`. -/
  cfg : CaptureConfig
  /-- `c.capture` is not nil. -/
  capture : Bool
  /-- The producer that `prodCancel` cancels. -/
  prodCancel : ℕ
  paused : Bool
  /-- How many producers were started. -/
  started : ℕ
  /-- The producers started and not cancelled. -/
  live : List ℕ
deriving DecidableEq

namespace PipelineState

/-- Call `prodCancel`; a second call does nothing. -/
def cancel (p : PipelineState) : PipelineState := { p with live := p.live.filter (· ≠ p.prodCancel) }

/-- `startProducer` on a new context, with its cancel function. -/
def startProducer (p : PipelineState) : PipelineState :=
  { p with prodCancel := p.started, started := p.started + 1, live := p.live ++ [p.started] }

/-- `startPipeline`; the producers started before go on. -/
def startPipeline (cfg : CaptureConfig) (started : ℕ) (live : List ℕ) : PipelineState :=
  startProducer { cfg, capture := true, prodCancel := started, paused := false, started, live }

/-- The failover detector's callback. -/
def restartCapture (p : PipelineState) (newIP : Bytes) (opens : Bool) : PipelineState :=
  if p.cfg.mode = bytes "ebpf" ∨ p.cfg.mode = bytes "ebpf_ssl" then p
  else
    let p := p.cancel
    let p := { p with cfg := { p.cfg with sourceHost := newIP } }
    if opens then { p with capture := true }.startProducer else { p with capture := false }

def pauseCapture (p : PipelineState) : PipelineState :=
  if p.paused then p else { p.cancel with capture := false, paused := true }

/-- The state, and whether the call succeeds. -/
def resumeCapture (p : PipelineState) (opens : Bool) : PipelineState × Bool :=
  if !p.paused then (p, true)
  else if opens then ({ { p with capture := true }.startProducer with paused := false }, true)
  else (p, false)

/-- The first step of `drain`. -/
def drain (p : PipelineState) : PipelineState := { p.cancel with capture := false }

end PipelineState

/-- A request at the control plane. -/
inductive ControlCall
  | pauseCapture
  | resumeCapture (opens : Bool)
deriving DecidableEq

/-- A request of the control plane or of the failover detector. -/
inductive CaptureRequest
  | control (call : ControlCall)
  | restartCapture (newIP : Bytes) (opens : Bool)
deriving DecidableEq

inductive PipelineCall
  | startPipeline
  | request (req : CaptureRequest)
deriving DecidableEq

namespace PipelineState

def control (p : PipelineState) : ControlCall → PipelineState
  | .pauseCapture => p.pauseCapture
  | .resumeCapture opens => (p.resumeCapture opens).1

def request (p : PipelineState) : CaptureRequest → PipelineState
  | .control call => p.control call
  | .restartCapture newIP opens => p.restartCapture newIP opens

/-- A restart while capture is paused opens no source. -/
def Allows (p : PipelineState) : CaptureRequest → Prop
  | .control _ => True
  | .restartCapture _ opens => p.paused = true → opens = false

end PipelineState

/-- The process, as far as capture goes. -/
inductive Process
  | notStarted
  | running (p : PipelineState)
  /-- `startProducer` on a nil capture source. -/
  | panicked
deriving DecidableEq

/-- One call; before `startPipeline` there is nothing to call. -/
def pipelineStep (cfg : CaptureConfig) : Process → PipelineCall → Process
  | .notStarted, .startPipeline => .running (.startPipeline cfg 0 [])
  | .notStarted, .request _ => .notStarted
  | .running p, .startPipeline => if p.capture then .running (.startPipeline p.cfg p.started p.live) else .panicked
  | .running p, .request req => .running (p.request req)
  | .panicked, _ => .panicked

def pipelineRun (cfg : CaptureConfig) (calls : List PipelineCall) : Process :=
  calls.foldl (pipelineStep cfg) .notStarted

/-! ### At most one producer -/

/-- At most one producer runs, none while capture is paused, and a pause, a
restart or a drain would cancel every producer started so far. -/
structure OneProducer (p : PipelineState) : Prop where
  atMostOne : p.live.length ≤ 1
  paused : p.paused = true → p.live = []
  pause : ∀ i < p.started, i ∉ p.pauseCapture.live
  restart : ∀ newIP opens, ∀ i < p.started, i ∉ (p.restartCapture newIP opens).live
  drain : ∀ i < p.started, i ∉ p.drain.live

/-- `OneProducer` of a running pipeline. -/
def Process.Good : Process → Prop
  | .running p => OneProducer p
  | _ => True

/-- A producer is started only when none runs: no second `startPipeline` while
one does, and no restart that opens a source while capture is paused. -/
def Allowed : Process → PipelineCall → Prop
  | .running p, .startPipeline => p.capture = true → p.live = []
  | .running p, .request req => p.Allows req
  | _, _ => True

/-- Every call is allowed in the state that it is made in. -/
def AllAllowed (cfg : CaptureConfig) (s : Process) (calls : List PipelineCall) : Prop :=
  Machine.Along (pipelineStep cfg) Allowed s calls

/-- The handle cancels whatever producer runs, and the mode is one that restarts. -/
structure Handled (p : PipelineState) : Prop where
  mode : ¬(p.cfg.mode = bytes "ebpf" ∨ p.cfg.mode = bytes "ebpf_ssl")
  live : p.live = [] ∨ p.live = [p.prodCancel] ∧ p.prodCancel < p.started ∧ p.paused = false

namespace Handled

variable {p : PipelineState}

theorem live_cancel (h : Handled p) : p.cancel.live = [] := by
  rcases h.live with hnone | ⟨hone, -⟩
  · simp [PipelineState.cancel, hnone]
  · simp [PipelineState.cancel, hone]

theorem oneProducer (h : Handled p) : OneProducer p where
  atMostOne := by
    rcases h.live with hnone | ⟨hone, -⟩
    · simp [hnone]
    · simp [hone]
  paused hp := by
    rcases h.live with hnone | ⟨-, -, hp'⟩
    · exact hnone
    · rw [hp] at hp'
      cases hp'
  pause i _ := by
    unfold PipelineState.pauseCapture
    by_cases hp : p.paused = true
    · rcases h.live with hnone | ⟨-, -, hp'⟩
      · rw [if_pos hp, hnone]
        exact List.not_mem_nil
      · rw [hp] at hp'
        cases hp'
    · rw [if_neg hp]
      show i ∉ p.cancel.live
      rw [h.live_cancel]
      exact List.not_mem_nil
  restart newIP opens i hi := by
    unfold PipelineState.restartCapture
    rw [if_neg h.mode]
    rcases opens with _ | _
    · show i ∉ p.cancel.live
      rw [h.live_cancel]
      exact List.not_mem_nil
    · show i ∉ p.cancel.live ++ [p.started]
      rw [h.live_cancel, List.nil_append, List.mem_singleton]
      omega
  drain i _ := by
    show i ∉ p.cancel.live
    rw [h.live_cancel]
    exact List.not_mem_nil

theorem pauseCapture (h : Handled p) : Handled p.pauseCapture := by
  unfold PipelineState.pauseCapture
  by_cases hp : p.paused = true
  · rwa [if_pos hp]
  · rw [if_neg hp]
    exact ⟨h.mode, Or.inl h.live_cancel⟩

theorem resumeCapture (h : Handled p) (opens : Bool) : Handled (p.resumeCapture opens).1 := by
  unfold PipelineState.resumeCapture
  by_cases hp : p.paused = true
  · have hnone : p.live = [] := h.oneProducer.paused hp
    rw [hp]
    rcases opens with _ | _
    · exact h
    · exact ⟨h.mode, Or.inr ⟨by simp [PipelineState.startProducer, hnone], Nat.lt_succ_self _, rfl⟩⟩
  · rw [Bool.not_eq_true] at hp
    rw [hp]
    exact h

/-- A restart keeps the handle exactly if it does not open a source while
capture is paused. -/
theorem restartCapture (h : Handled p) (newIP : Bytes) {opens : Bool} (hallowed : p.paused = true → opens = false) :
    Handled (p.restartCapture newIP opens) := by
  unfold PipelineState.restartCapture
  rw [if_neg h.mode]
  rcases opens with _ | _
  · exact ⟨h.mode, Or.inl h.live_cancel⟩
  · have hp : p.paused = false := by
      by_contra hp
      exact absurd (hallowed (by simpa using hp)) (by decide)
    refine ⟨h.mode, Or.inr ⟨?_, Nat.lt_succ_self _, hp⟩⟩
    show p.cancel.live ++ [p.started] = [p.started]
    rw [h.live_cancel, List.nil_append]

theorem request (h : Handled p) {req : CaptureRequest} (hallowed : p.Allows req) : Handled (p.request req) := by
  cases req with
  | control call =>
    cases call with
    | pauseCapture => exact h.pauseCapture
    | resumeCapture opens => exact h.resumeCapture opens
  | restartCapture newIP opens => exact h.restartCapture newIP hallowed

theorem live_restartCapture (h : Handled p) (newIP : Bytes) :
    (p.restartCapture newIP true).live = [p.started] := by
  unfold PipelineState.restartCapture
  rw [if_neg h.mode]
  show p.cancel.live ++ [p.started] = [p.started]
  rw [h.live_cancel, List.nil_append]

end Handled

/-! ### Runs -/

variable {cfg : CaptureConfig}

/-- The invariant of the allowed runs. -/
def Process.Invariant (cfg : CaptureConfig) : Process → Prop
  | .notStarted => ¬(cfg.mode = bytes "ebpf" ∨ cfg.mode = bytes "ebpf_ssl")
  | .running p => Handled p
  | .panicked => True

theorem Process.Invariant.good {s : Process} (h : s.Invariant cfg) : s.Good := by
  rcases s with _ | p | _
  · trivial
  · exact Handled.oneProducer h
  · trivial

theorem invariant_step {s : Process} (h : s.Invariant cfg) {call : PipelineCall} (hallowed : Allowed s call) :
    (pipelineStep cfg s call).Invariant cfg := by
  rcases s with _ | p | _
  · rcases call with _ | req
    · exact ⟨h, Or.inr ⟨rfl, Nat.lt_succ_self _, rfl⟩⟩
    · exact h
  · rcases call with _ | req
    · rw [pipelineStep]
      by_cases hcapture : p.capture = true
      · rw [if_pos hcapture]
        have hlive : p.live ++ [p.started] = [p.started] := by rw [hallowed hcapture, List.nil_append]
        exact ⟨Handled.mode (p := p) h, Or.inr ⟨hlive, Nat.lt_succ_self _, rfl⟩⟩
      · rw [if_neg hcapture]
        trivial
    · exact Handled.request h hallowed
  · trivial

/-- A call that is not allowed breaks what is promised at once. -/
theorem allowed_of_good {s : Process} (h : s.Invariant cfg) {call : PipelineCall}
    (hgood : (pipelineStep cfg s call).Good) : Allowed s call := by
  rcases s with _ | p | _
  · rcases call with _ | req <;> trivial
  · rcases call with _ | call | ⟨newIP, opens⟩
    · intro hcapture
      rw [pipelineStep, if_pos hcapture] at hgood
      have hlen : (p.live ++ [p.started]).length ≤ 1 := hgood.atMostOne
      rw [List.length_append, List.length_singleton] at hlen
      exact List.length_eq_zero_iff.1 (by omega)
    · trivial
    · intro hpaused
      rcases opens with _ | _
      · rfl
      · have hpaused' : (p.restartCapture newIP true).paused = true := by
          unfold PipelineState.restartCapture
          rw [if_neg (Handled.mode h)]
          exact hpaused
        have hnone : (p.restartCapture newIP true).live = [] := hgood.paused hpaused'
        rw [Handled.live_restartCapture h] at hnone
        cases hnone
  · trivial

theorem good_run_iff (calls : List PipelineCall) {s : Process} (h : s.Invariant cfg) :
    (∀ pre, pre <+: calls → (pre.foldl (pipelineStep cfg) s).Good) ↔ AllAllowed cfg s calls :=
  Machine.forall_prefix_iff_along (P := Allowed) (fun h => h.good) (fun h hallowed => invariant_step h hallowed)
    (fun h hgood => allowed_of_good h hgood) calls h

/-- **At most one producer**, in every state of a run, exactly if every call of
it is allowed: then no producer runs while capture is paused, and a pause, a
restart or the drain stops whatever was started. -/
theorem one_producer_iff (cfg : CaptureConfig) (hmode : cfg.mode = bytes "pcap" ∨ cfg.mode = bytes "af_packet")
    (calls : List PipelineCall) :
    (∀ pre, pre <+: calls → (pipelineRun cfg pre).Good) ↔ AllAllowed cfg .notStarted calls := by
  apply good_run_iff calls
  show ¬(cfg.mode = bytes "ebpf" ∨ cfg.mode = bytes "ebpf_ssl")
  rcases hmode with h | h <;> rw [h] <;> decide +kernel

/-- A configuration of libpcap capture. -/
def pcapConfig : CaptureConfig :=
  { interface := bytes "eth0", mode := bytes "pcap", port := 5432, sourceHost := bytes "10.0.0.1" }

theorem pause_resume_restart :
    (pipelineRun pcapConfig
      [.startPipeline, .request (.control .pauseCapture), .request (.control (.resumeCapture true)),
        .request (.restartCapture (bytes "10.0.0.2") true)]).Good :=
  (one_producer_iff pcapConfig (Or.inl rfl)
    [.startPipeline, .request (.control .pauseCapture), .request (.control (.resumeCapture true)),
        .request (.restartCapture (bytes "10.0.0.2") true)]).2
    ⟨trivial, trivial, trivial, fun h => absurd h (by decide +kernel), trivial⟩ _ (List.prefix_refl _)

/-- A failover while capture is paused starts a producer, the resume after it a
second one, and the drain stops only that. -/
theorem restart_while_paused :
    let cfg := { pcapConfig with sourceHost := bytes "10.0.0.2" }
    let calls : List PipelineCall :=
      [.startPipeline, .request (.control .pauseCapture), .request (.restartCapture (bytes "10.0.0.2") true)]
    let both : PipelineState :=
      { cfg, capture := true, prodCancel := 2, paused := false, started := 3, live := [1, 2] }
    pipelineRun pcapConfig calls =
        .running { cfg, capture := true, prodCancel := 1, paused := true, started := 2, live := [1] } ∧
      pipelineRun pcapConfig (calls ++ [.request (.control (.resumeCapture true))]) =
        .running both ∧ both.drain.live = [1] := by
  decide +kernel

end PgShadow
