/-
# The failover detector

`FailoverDetector` of `internal/monitor/monitor.go` and the callback that `run`
of `cmd/pgshadow/main.go` gives it: at each tick the source host is resolved, and
if the address is another one than before, capture is restarted on it.

`monitorLoop` takes over the new address before the callback, and the callback
does not say whether `capture.Open` succeeded. So the addresses of the restarts
are those of the ticks without repetitions (`restarts_eq_destutter`), whatever
became of each restart: a failed one is tried again at the next address exactly
if that is another one (`failed_restart_retried_iff`). As long as the host keeps
its address nothing happens any more (`run_unchanged`), although the log says
"will retry on next check".

Key definitions: `FailoverDetector.tick`, `FailoverState.step`, `FailoverState.restarts`.
Key theorems: `tick_restarts_iff`, `restarts_eq_destutter`, `failed_restart_retried_iff`.
-/
import Mathlib.Data.List.Destutter
import PgShadow.Cmd.Pipeline

namespace PgShadow

/-! ### The detector -/

/-- What `net.LookupHost` answers at one moment: the addresses of a host, or an
error. -/
abbrev LookupHost := Bytes → Option (List Bytes)

def resolveHost (lookupHost : LookupHost) (host : Bytes) : Bytes :=
  match lookupHost host with
  | some (ip :: _) => ip
  | _ => []

structure FailoverDetector where
  sourceHost : Bytes
  currentIP : Bytes
  /-- `monitorLoop` has not returned. -/
  running : Bool
deriving DecidableEq

namespace FailoverDetector

/-- `NewFailoverDetector` and `Start`. -/
def start (host : Bytes) (lookupHost : LookupHost) : FailoverDetector :=
  { sourceHost := host, currentIP := resolveHost lookupHost host, running := true }

/-- The branch of `monitorLoop` for a tick: the detector after it and, if
`onFailover` is called, the arguments. -/
def tick (fd : FailoverDetector) (lookupHost : LookupHost) : FailoverDetector × Option (Bytes × Bytes) :=
  let newIP := resolveHost lookupHost fd.sourceHost
  let oldIP := fd.currentIP
  if newIP ≠ [] ∧ newIP ≠ oldIP then ({ fd with currentIP := newIP }, some (oldIP, newIP)) else (fd, none)

/-- The branch of `monitorLoop` for `ctx.Done()`. -/
def done (fd : FailoverDetector) : FailoverDetector := { fd with running := false }

end FailoverDetector

/-! ### The detector and the pipeline -/

/-- What `capture.Open` says in `restartCapture`; in the eBPF modes it is not
called. -/
def PipelineState.reopened (p : PipelineState) (opens : Bool) : Option Bool :=
  if p.cfg.mode = bytes "ebpf" ∨ p.cfg.mode = bytes "ebpf_ssl" then none else some opens

/-- A call of `restartCapture` by the callback. -/
structure Restart where
  oldIP : Bytes
  newIP : Bytes
  reopened : Option Bool
deriving DecidableEq

structure FailoverState where
  pipeline : PipelineState
  detector : FailoverDetector
deriving DecidableEq

/-- What happens while pgshadow runs. A tick and its callback are one event: a
request that comes between the two works on the pipeline only, which the detector
does not read. -/
inductive FailoverEvent
  | control (call : ControlCall)
  /-- A tick, with the answer to its lookup and that of `capture.Open`. -/
  | tick (lookupHost : LookupHost) (opens : Bool)
  | done

/-- The host has no address at this event, or is not asked for one. -/
def FailoverEvent.quiet (host : Bytes) : FailoverEvent → Bool
  | .control _ => true
  | .tick lookupHost _ => resolveHost lookupHost host == []
  | .done => false

/-- A tick at which the host has no address or the address `ip`. -/
def FailoverEvent.repeats (host ip : Bytes) : FailoverEvent → Bool
  | .tick lookupHost _ => resolveHost lookupHost host == [] || resolveHost lookupHost host == ip
  | _ => false

/-- The addresses that `monitorLoop` sees. -/
def addresses (host : Bytes) : List FailoverEvent → List Bytes
  | [] => []
  | .control _ :: events => addresses host events
  | .tick lookupHost _ :: events =>
    if resolveHost lookupHost host = [] then addresses host events
    else resolveHost lookupHost host :: addresses host events
  | .done :: _ => []

namespace FailoverState

/-- `run`: the pipeline is started, then the control plane, then the detector. -/
def start (cfg : CaptureConfig) (early : List ControlCall) (host : Bytes) (lookupHost : LookupHost) : FailoverState :=
  { pipeline := early.foldl PipelineState.control (.startPipeline cfg 0 [])
    detector := .start host lookupHost }

def step (s : FailoverState) : FailoverEvent → FailoverState × Option Restart
  | .control call => ({ s with pipeline := s.pipeline.control call }, none)
  | .tick lookupHost opens =>
    if s.detector.running then
      match s.detector.tick lookupHost with
      | (fd, some (oldIP, newIP)) =>
        ({ pipeline := s.pipeline.restartCapture newIP opens, detector := fd },
          some { oldIP, newIP, reopened := s.pipeline.reopened opens })
      | (fd, none) => ({ s with detector := fd }, none)
    else (s, none)
  | .done => ({ s with detector := s.detector.done }, none)

def run (s : FailoverState) (events : List FailoverEvent) : FailoverState :=
  events.foldl (fun s e => (s.step e).1) s

/-- The calls of `restartCapture` by the callback in a run. -/
def restarts : FailoverState → List FailoverEvent → List Restart
  | _, [] => []
  | s, e :: events => (s.step e).2.toList ++ (s.step e).1.restarts events

/-! ### One event -/

section Step

variable {s : FailoverState} {lookupHost : LookupHost} {opens : Bool} {e : FailoverEvent}

/-- Capture is restarted on the address of the tick, and the detector takes the
address over whatever `capture.Open` says. -/
theorem step_tick_new (hrun : s.detector.running = true) {newIP : Bytes}
    (hip : resolveHost lookupHost s.detector.sourceHost = newIP) (hnew : newIP ≠ [] ∧ newIP ≠ s.detector.currentIP) :
    s.step (.tick lookupHost opens) =
      (⟨s.pipeline.restartCapture newIP opens, { s.detector with currentIP := newIP }⟩,
        some ⟨s.detector.currentIP, newIP, s.pipeline.reopened opens⟩) := by
  subst hip
  simp only [step, FailoverDetector.tick, if_pos hrun, if_pos hnew]

theorem step_tick_same (hsame : s.detector.running = true →
      resolveHost lookupHost s.detector.sourceHost = [] ∨
        resolveHost lookupHost s.detector.sourceHost = s.detector.currentIP) :
    s.step (.tick lookupHost opens) = (s, none) := by
  by_cases hrun : s.detector.running = true
  · have hold : ¬(resolveHost lookupHost s.detector.sourceHost ≠ [] ∧
        resolveHost lookupHost s.detector.sourceHost ≠ s.detector.currentIP) := by
      rintro ⟨hne, hnew⟩
      exact (hsame hrun).elim hne hnew
    simp only [step, FailoverDetector.tick, if_pos hrun, if_neg hold]
  · simp only [step, if_neg hrun]

/-- `restartCapture` is called at a tick exactly if the host has an address, and
another one than before. -/
theorem tick_restarts_iff : (s.step (.tick lookupHost opens)).2.isSome = true ↔ s.detector.running = true ∧
    resolveHost lookupHost s.detector.sourceHost ≠ [] ∧
      resolveHost lookupHost s.detector.sourceHost ≠ s.detector.currentIP := by
  constructor
  · intro h
    by_contra hold
    rw [step_tick_same fun hrun => by rwa [and_iff_right hrun, not_and_or, not_not, not_not] at hold] at h
    cases h
  · rintro ⟨hrun, hnew⟩
    rw [step_tick_new hrun rfl hnew]
    rfl

/-- What an event does if it calls `restartCapture`. -/
theorem step_eq_some {r : Restart} (h : (s.step e).2 = some r) : s.detector.running = true ∧ ∃ opens,
    r.reopened = s.pipeline.reopened opens ∧
      (s.step e).1 = ⟨s.pipeline.restartCapture r.newIP opens, { s.detector with currentIP := r.newIP }⟩ := by
  rcases e with call | ⟨lookupHost, opens⟩ | _
  · cases h
  · obtain ⟨hrun, hnew⟩ := tick_restarts_iff.1 (Option.isSome_of_eq_some h)
    rw [step_tick_new hrun rfl hnew] at h ⊢
    obtain rfl := Option.some.inj h
    exact ⟨hrun, opens, rfl, rfl⟩
  · cases h

/-- A quiet event leaves the detector alone. -/
theorem detector_quiet (h : e.quiet s.detector.sourceHost = true) : (s.step e).1.detector = s.detector := by
  rcases e with call | ⟨lookupHost, opens⟩ | _
  · rfl
  · rw [step_tick_same fun _ => Or.inl (by simpa [FailoverEvent.quiet] using h)]
  · cases h

/-- A tick at the same address changes nothing. -/
theorem step_repeats (h : e.repeats s.detector.sourceHost s.detector.currentIP = true) : (s.step e).1 = s := by
  rcases e with call | ⟨lookupHost, opens⟩ | _
  · cases h
  · rw [step_tick_same fun _ => by simpa [FailoverEvent.repeats] using h]
  · cases h

theorem sourceHost_step (s : FailoverState) (e : FailoverEvent) :
    (s.step e).1.detector.sourceHost = s.detector.sourceHost := by
  rcases e with call | ⟨lookupHost, opens⟩ | _
  · rfl
  · rcases hr : (s.step (.tick lookupHost opens)).2 with _ | r
    · have hnone := tick_restarts_iff.not.1 (by rw [hr]; decide)
      rw [step_tick_same fun hrun => by rwa [and_iff_right hrun, not_and_or, not_not, not_not] at hnone]
    · obtain ⟨-, opens', -, hstep⟩ := step_eq_some hr
      rw [hstep]
  · rfl

end Step

/-! ### Runs -/

theorem run_append (s : FailoverState) (pre post : List FailoverEvent) : s.run (pre ++ post) = (s.run pre).run post :=
  List.foldl_append

theorem sourceHost_run : ∀ (events : List FailoverEvent) (s : FailoverState),
    (s.run events).detector.sourceHost = s.detector.sourceHost
  | [], _ => rfl
  | e :: events, s => (sourceHost_run events (s.step e).1).trans (sourceHost_step s e)

theorem detector_run_quiet : ∀ {events : List FailoverEvent} {s : FailoverState},
    (∀ e ∈ events, e.quiet s.detector.sourceHost = true) → (s.run events).detector = s.detector
  | [], _, _ => rfl
  | e :: events, s, h => by
    have hthis : (s.step e).1.detector = s.detector := detector_quiet (h e List.mem_cons_self)
    have hrest : ∀ x ∈ events, x.quiet (s.step e).1.detector.sourceHost = true := fun x hx => by
      rw [hthis]
      exact h x (List.mem_cons_of_mem e hx)
    exact (detector_run_quiet hrest).trans hthis

/-- As long as the host keeps its address, nothing happens. -/
theorem run_unchanged {s : FailoverState} : ∀ {events : List FailoverEvent},
    (∀ e ∈ events, e.repeats s.detector.sourceHost s.detector.currentIP = true) → s.run events = s
  | [], _ => rfl
  | e :: events, h => by
    show (s.step e).1.run events = s
    rw [step_repeats (h e List.mem_cons_self)]
    exact run_unchanged fun x hx => h x (List.mem_cons_of_mem e hx)

theorem restarts_stopped : ∀ {events : List FailoverEvent} {s : FailoverState}, s.detector.running = false →
    s.restarts events = []
  | [], _, _ => rfl
  | e :: events, s, h => by
    have hnone : (s.step e).2 = none := by
      by_contra hsome
      obtain ⟨r, hr⟩ := Option.ne_none_iff_exists'.1 hsome
      rw [(step_eq_some hr).1] at h
      cases h
    have hstopped : (s.step e).1.detector.running = false := by
      rcases e with call | ⟨lookupHost, opens⟩ | _
      · exact h
      · rw [step_tick_same fun hrun => absurd hrun (by rw [h]; decide)]
        exact h
      · rfl
    rw [restarts, hnone, restarts_stopped hstopped]
    rfl

/-- **The restarts of a run** are on the addresses that the host had at the
ticks, one after the other without repetitions. -/
theorem restarts_eq_destutter : ∀ (events : List FailoverEvent) {s : FailoverState}, s.detector.running = true →
    s.detector.currentIP :: (s.restarts events).map (·.newIP) =
      (s.detector.currentIP :: addresses s.detector.sourceHost events).destutter (· ≠ ·)
  | [], _, _ => rfl
  | .control call :: events, s, h =>
    restarts_eq_destutter events (s := { s with pipeline := s.pipeline.control call }) h
  | .done :: events, s, _ => by
    have hstopped : s.restarts (.done :: events) = [] := restarts_stopped (s := (s.step .done).1) rfl
    rw [hstopped]
    rfl
  | .tick lookupHost opens :: events, s, h => by
    rw [restarts, addresses]
    by_cases hnone : resolveHost lookupHost s.detector.sourceHost = []
    · rw [step_tick_same fun _ => Or.inl hnone, if_pos hnone]
      exact restarts_eq_destutter events h
    rw [if_neg hnone, List.destutter_cons_cons]
    by_cases hsame : resolveHost lookupHost s.detector.sourceHost = s.detector.currentIP
    · rw [step_tick_same fun _ => Or.inr hsame, if_neg (not_not.2 hsame.symm)]
      exact restarts_eq_destutter events h
    · rw [step_tick_new h rfl ⟨hnone, hsame⟩, if_pos (Ne.symm hsame)]
      -- the rest of the run starts with the new address, although the restart may have failed
      exact congrArg _ (restarts_eq_destutter events (s := ⟨_, { s.detector with currentIP := _ }⟩) h)

/-- **From the start on** there is a restart for every change of address, and none on
the address of the one before it. -/
theorem restarts_of_start (cfg : CaptureConfig) (early : List ControlCall) (host : Bytes) (first : LookupHost)
    (events : List FailoverEvent) :
    let newIPs := ((start cfg early host first).restarts events).map (·.newIP)
    resolveHost first host :: newIPs = (resolveHost first host :: addresses host events).destutter (· ≠ ·) ∧
      newIPs.IsChain (· ≠ ·) := by
  intro newIPs
  have hall : resolveHost first host :: newIPs =
      (resolveHost first host :: addresses host events).destutter (· ≠ ·) :=
    restarts_eq_destutter events (s := start cfg early host first) rfl
  have hchain := List.isChain_destutter (R := (· ≠ ·)) (resolveHost first host :: addresses host events)
  rw [← hall] at hchain
  exact ⟨hall, hchain.tail⟩

end FailoverState

/-- **A failed restart is retried** at the next tick at which the host has an
address exactly if that is another address than the one of the failed restart. -/
theorem failed_restart_retried_iff (cfg : CaptureConfig) (early : List ControlCall) (host : Bytes)
    (first : LookupHost) (pre mid : List FailoverEvent) {e : FailoverEvent} {oldIP newIP : Bytes}
    (hfailed : (((FailoverState.start cfg early host first).run pre).step e).2 = some ⟨oldIP, newIP, some false⟩)
    (hmid : ∀ x ∈ mid, x.quiet host = true) {next : LookupHost} (hnext : resolveHost next host ≠ []) (opens : Bool) :
    (((FailoverState.start cfg early host first).run (pre ++ e :: mid)).step (.tick next opens)).2.isSome = true ↔
      resolveHost next host ≠ newIP := by
  have hhost : ((FailoverState.start cfg early host first).run pre).detector.sourceHost = host :=
    FailoverState.sourceHost_run pre _
  obtain ⟨hrun, opens', -, hstep⟩ := FailoverState.step_eq_some hfailed
  -- the detector has the address of the failed restart, and keeps it
  have hdetector : ((FailoverState.start cfg early host first).run (pre ++ e :: mid)).detector =
      { ((FailoverState.start cfg early host first).run pre).detector with currentIP := newIP } := by
    rw [FailoverState.run_append]
    show ((((FailoverState.start cfg early host first).run pre).step e).1.run mid).detector = _
    rw [hstep]
    apply FailoverState.detector_run_quiet
    intro x hx
    rw [hhost]
    exact hmid x hx
  rw [FailoverState.tick_restarts_iff, hdetector, hhost, and_iff_right hrun, and_iff_right hnext]

/-- The host has one address. -/
def answering (ip : String) : LookupHost := fun _ => some [bytes ip]

/-- The host moves on, after a tick without an answer. -/
theorem failed_restart_next_address :
    (((FailoverState.start pcapConfig [] (bytes "db") (answering "10.0.0.1")).run
        ([] ++ .tick (answering "10.0.0.2") false :: [.tick (fun _ => none) true])).step
      (.tick (answering "10.0.0.3") true)).2.isSome = true := by
  have hfailed : (((FailoverState.start pcapConfig [] (bytes "db") (answering "10.0.0.1")).run []).step
      (.tick (answering "10.0.0.2") false)).2 = some ⟨bytes "10.0.0.1", bytes "10.0.0.2", some false⟩ := by
    decide +kernel
  exact (failed_restart_retried_iff pcapConfig [] _ _ [] _ hfailed (by simp [FailoverEvent.quiet, resolveHost])
    (by decide +kernel) true).2 (by decide +kernel)

/-- The host keeps the address that capture could not be reopened on: nothing is
captured any more, however often the host is resolved and although
`capture.Open` would now succeed. -/
theorem failed_restart_forgotten :
    let s := FailoverState.start pcapConfig [] (bytes "db") (answering "10.0.0.1")
    let down := s.run [.tick (answering "10.0.0.2") false]
    (s.step (.tick (answering "10.0.0.2") false)).2 =
        some ⟨bytes "10.0.0.1", bytes "10.0.0.2", some false⟩ ∧
      down.pipeline.live = [] ∧
      (down.step (.tick (answering "10.0.0.2") true)).2 = none ∧
      ∀ n, down.run (List.replicate n (.tick (answering "10.0.0.2") true)) = down := by
  refine ⟨by decide +kernel, by decide +kernel, by decide +kernel, fun n => ?_⟩
  apply FailoverState.run_unchanged
  intro e he
  rw [List.eq_of_mem_replicate he]
  decide +kernel

end PgShadow
