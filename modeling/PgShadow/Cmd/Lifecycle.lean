/-
# What the program opens and closes

`startup`, `components.Close` and `run` of `cmd/pgshadow/main.go`, with the requests
that reach the running pipeline of `cmd/pgshadow/pipeline.go` and the closing steps of
its drain. The error log, the first capture source, the queue and the pool are opened
one after the other; a pause, a resume or a restart then closes and opens capture
sources; the drain closes what is left of them, the queue and the pool, and the
deferred `Close` the error log.

A failed start closes what it has opened, the last opened first. A run that ends by
the signal has closed everything once, except for the sources that a resume overwrote:
`run_releases`. A resume overwrites a source only if a restart opened it during a pause
(`lost_of_allowed`).

Not covered: requests that come while the drain runs, which takes no mutex, and a
panic of `replayguard.New`.

Key definitions: `Components.close`, `startupSteps`, `App.step`.
Key theorems: `App.Inv.step`, `run_releases`.
-/
import Mathlib.Data.List.Range
import PgShadow.Cmd.Pipeline
import PgShadow.Lib.Acquire

namespace PgShadow

/-! ### Startup -/

/-- What has to be closed. The capture sources are numbered as they are opened. -/
inductive Resource
  | errorExport
  | capture (n : ℕ)
  | queue
  | pool
deriving DecidableEq

/-- The resources among the fields of `components`. -/
structure Components where
  errorExport : Bool := false
  capture : Option ℕ := none
  queue : Bool := false
  pool : Bool := false
deriving DecidableEq

/-- `Close`: what it closes, in order. -/
def Components.close (c : Components) : List Resource :=
  (if c.pool then [.pool] else []) ++ (if c.queue then [.queue] else []) ++ (c.capture.map Resource.capture).toList ++
    (if c.errorExport then [.errorExport] else [])

/-- The steps of `startup`, and the first of `startPipeline`. -/
inductive StartOp
  | loadConfig
  | newErrorExporter
  | openCapture
  | newQueue
  | newPool
  | newStreamProcessor
deriving DecidableEq

/-- The error of `run`. -/
inductive StartError
  /-- `startup: ` step `: ` cause. -/
  | startup (step cause : Bytes)
  | pipeline (cause : Bytes)
deriving DecidableEq

abbrev StartStep := Acquire.Step StartOp Resource Bytes StartError

/-- `startup` up to the replayer, which cannot fail, and `startPipeline`. -/
def startupSteps : List StartStep :=
  [{ op := .loadConfig, closes := [], failure := .startup (bytes "configuration") },
   { op := .newErrorExporter
     closes := Components.close {}
     failure := .startup (bytes "metrics")
     opens := some .errorExport },
   { op := .openCapture
     closes := Components.close { errorExport := true }
     failure := .startup (bytes "capture")
     opens := some (.capture 0) },
   { op := .newQueue
     closes := Components.close { errorExport := true, capture := some 0 }
     failure := .startup (bytes "queue")
     opens := some .queue },
   { op := .newPool
     closes := Components.close { errorExport := true, capture := some 0, queue := true }
     failure := .startup (bytes "target pool")
     opens := some .pool },
   { op := .newStreamProcessor
     closes := Components.close { errorExport := true, capture := some 0, queue := true, pool := true }
     failure := .pipeline }]

theorem nested_startupSteps : Acquire.Nested [] startupSteps := by
  simp [startupSteps, Acquire.Nested, Components.close]

/-! ### The running program -/

/-- The program after its start. `sources` is the number of capture sources opened so
far, `closed` the order of the `Close` calls, `lost` the sources that the field
`capture` held when another was put into it. -/
structure App where
  c : Components
  p : PipelineState
  sources : ℕ
  closed : List Resource := []
  lost : List ℕ := []
deriving DecidableEq

namespace App

/-- After `startup` and `startPipeline`. -/
def start (cfg : CaptureConfig) : App where
  c := { errorExport := true, capture := some 0, queue := true, pool := true }
  p := .startPipeline cfg 0 []
  sources := 1

/-- `c.capture.Close()`, if there is a source. -/
def closeSource (a : App) : App := { a with closed := a.closed ++ (a.c.capture.map Resource.capture).toList }

/-- `c.capture = newSrc`. -/
def openSource (a : App) : App := { a with c := { a.c with capture := some a.sources }, sources := a.sources + 1 }

def noSource (a : App) : App := { a with c := { a.c with capture := none } }

def pauseCapture (a : App) : App :=
  if a.p.paused then a else { a.closeSource.noSource with p := a.p.pauseCapture }

/-- The source that is there, if any, is not closed. -/
def resumeCapture (a : App) (opens : Bool) : App :=
  if a.p.paused && opens then
    { a.openSource with p := (a.p.resumeCapture opens).1, lost := a.lost ++ a.c.capture.toList }
  else a

def restartCapture (a : App) (newIP : Bytes) (opens : Bool) : App :=
  if a.p.cfg.mode = bytes "ebpf" ∨ a.p.cfg.mode = bytes "ebpf_ssl" then a
  else
    { (if opens then a.closeSource.openSource else a.closeSource.noSource) with
      p := a.p.restartCapture newIP opens }

def step (a : App) : CaptureRequest → App
  | .control .pauseCapture => a.pauseCapture
  | .control (.resumeCapture opens) => a.resumeCapture opens
  | .restartCapture newIP opens => a.restartCapture newIP opens

/-- The closing steps of `drainWithin`: the source, the queue, the pool. -/
def drain (a : App) : App :=
  { a with
    c := { a.c with capture := none, queue := false, pool := false }
    p := a.p.drain
    closed := a.closed ++ (a.c.capture.map Resource.capture).toList ++ (if a.c.queue then [.queue] else []) ++
      (if a.c.pool then [.pool] else []) }

/-- The deferred `c.Close()`. -/
def close (a : App) : App := { a with closed := a.closed ++ a.c.close }

/-- `run`: the error, or the program when it returns. -/
def run (answer : StartOp → Option Bytes) (cfg : CaptureConfig) (requests : List CaptureRequest) :
    Acquire.Outcome StartOp Resource StartError × Option App :=
  let o := Acquire.run answer startupSteps
  (o, if o.error.isSome then none else some (requests.foldl step (start cfg)).drain.close)

/-! ### What holds in every state -/

/-- Every source opened is closed, lost, or the one in use. -/
structure Inv (a : App) : Prop where
  sources : ∃ ns : List ℕ, a.closed = ns.map Resource.capture ∧
    (ns ++ a.lost ++ a.c.capture.toList).Perm (List.range a.sources)
  others : a.c.errorExport = true ∧ a.c.queue = true ∧ a.c.pool = true

theorem inv_start (cfg : CaptureConfig) : Inv (start cfg) :=
  ⟨⟨[], rfl, List.Perm.refl [0]⟩, rfl, rfl, rfl⟩

variable {a : App}

/-- The source in use is closed, and none is. -/
theorem Inv.stop (h : Inv a) (p : PipelineState) : Inv { a.closeSource.noSource with p } := by
  obtain ⟨ns, hclosed, hperm⟩ := h.sources
  refine ⟨⟨ns ++ a.c.capture.toList, ?_, ?_⟩, h.others⟩
  · show a.closed ++ (a.c.capture.map Resource.capture).toList = _
    rw [hclosed, List.map_append]
    cases a.c.capture <;> rfl
  · show (ns ++ a.c.capture.toList ++ a.lost ++ []).Perm (List.range a.sources)
    rw [List.append_nil, List.append_assoc]
    refine List.Perm.trans ?_ hperm
    rw [List.append_assoc]
    exact List.perm_append_comm.append_left ns

/-- A source is opened, and the one that is there is lost. -/
theorem Inv.renew (h : Inv a) (p : PipelineState) :
    Inv { a.openSource with p, lost := a.lost ++ a.c.capture.toList } := by
  obtain ⟨ns, hclosed, hperm⟩ := h.sources
  refine ⟨⟨ns, hclosed, ?_⟩, h.others⟩
  show (ns ++ (a.lost ++ a.c.capture.toList) ++ [a.sources]).Perm (List.range (a.sources + 1))
  rw [List.range_succ, ← List.append_assoc ns]
  exact hperm.append_right _

theorem Inv.step (h : Inv a) (req : CaptureRequest) : Inv (a.step req) := by
  rcases req with (_ | opens) | ⟨newIP, opens⟩ <;> dsimp only [App.step]
  case control.pauseCapture =>
    unfold App.pauseCapture
    split_ifs
    · exact h
    · exact h.stop _
  case control.resumeCapture =>
    unfold App.resumeCapture
    split_ifs
    · exact h.renew _
    · exact h
  case restartCapture =>
    unfold App.restartCapture
    split_ifs
    · exact h
    · -- the source was closed, so none is lost
      have hnew := (h.stop a.p).renew (a.p.restartCapture newIP opens)
      rwa [show a.closeSource.noSource.lost ++ a.closeSource.noSource.c.capture.toList = a.lost from
        List.append_nil _] at hnew
    · exact h.stop _

theorem Inv.foldl (requests : List CaptureRequest) (h : Inv a) : Inv (requests.foldl App.step a) :=
  List.foldlRecOn requests App.step h fun _ h req _ => h.step req

/-! ### Lost sources -/

/-- While capture is paused there is no source. -/
def Parted (a : App) : Prop := a.p.paused = true → a.c.capture = none

theorem Parted.step (h : Parted a) {req : CaptureRequest} (hreq : a.p.Allows req) :
    Parted (a.step req) ∧ (a.step req).lost = a.lost := by
  rcases req with (_ | opens) | ⟨newIP, opens⟩ <;> dsimp only [App.step]
  case control.pauseCapture =>
    unfold App.pauseCapture
    split_ifs
    · exact ⟨h, rfl⟩
    · exact ⟨fun _ => rfl, rfl⟩
  case control.resumeCapture =>
    unfold App.resumeCapture
    split_ifs with hp
    · obtain ⟨hpaused, rfl⟩ := Bool.and_eq_true_iff.1 hp
      refine ⟨fun hstill => ?_, ?_⟩
      · simp [PipelineState.resumeCapture, hpaused] at hstill
      · show a.lost ++ a.c.capture.toList = a.lost
        rw [h hpaused, Option.toList_none, List.append_nil]
    · exact ⟨h, rfl⟩
  case restartCapture =>
    have hpaused : (a.p.restartCapture newIP opens).paused = a.p.paused := by
      unfold PipelineState.restartCapture
      split_ifs <;> rfl
    unfold App.restartCapture
    split_ifs with hmode hopens
    · exact ⟨h, rfl⟩
    · refine ⟨fun hstill => ?_, rfl⟩
      rw [hreq (hpaused ▸ hstill)] at hopens
      cases hopens
    · exact ⟨fun _ => rfl, rfl⟩

theorem lost_of_allowed {requests : List CaptureRequest} (h : Parted a) (hlost : a.lost = [])
    (hall : Machine.Along App.step (fun a req => a.p.Allows req) a requests) :
    (requests.foldl App.step a).lost = [] := by
  have hstep a req (h : Parted a ∧ a.lost = []) (hreq : a.p.Allows req) :
      Parted (App.step a req) ∧ (App.step a req).lost = [] :=
    ⟨(h.1.step hreq).1, (h.1.step hreq).2.trans h.2⟩
  exact (hall.invariant (fun {a req} => hstep a req) ⟨h, hlost⟩).2

/-! ### The result -/

/-- **Everything is released.** Whatever the steps of the start answer, and for any
requests afterwards: if `run` returns an error, what was opened is closed, the last
opened first. If it returns after the signal, it has closed capture sources, then the
queue, the pool and the error log, each once; and the sources closed and those lost
are together all that were opened, each once. None is lost unless a restart opened one
during a pause. -/
theorem run_releases (answer : StartOp → Option Bytes) (cfg : CaptureConfig) (requests : List CaptureRequest) :
    let o := run answer cfg requests
    (o.2 = none → o.1.error.isSome = true ∧ o.1.closed = o.1.opened.reverse) ∧
    ∀ a, o.2 = some a →
      (∃ ns : List ℕ, a.closed = ns.map Resource.capture ++ [.queue, .pool, .errorExport] ∧
        (ns ++ a.lost).Perm (List.range a.sources)) ∧
      (Machine.Along step (fun a req => a.p.Allows req) (start cfg) requests → a.lost = []) := by
  intro o
  refine ⟨fun hnone => ?_, fun a ha => ?_⟩
  · have herror : (Acquire.run answer startupSteps).error.isSome = true := by
      by_contra hok
      simp [o, run, hok] at hnone
    refine ⟨herror, ?_⟩
    have hclosed := nested_startupSteps.closed_run herror
    rwa [List.append_nil] at hclosed
  · have ha' : (requests.foldl App.step (start cfg)).drain.close = a := by
      simp only [o, run] at ha
      split_ifs at ha
      exact Option.some.inj ha
    have h : Inv (requests.foldl App.step (start cfg)) := Inv.foldl requests (inv_start cfg)
    obtain ⟨ns, hclosed, hperm⟩ := h.sources
    obtain ⟨hlog, hqueue, hpool⟩ := h.others
    rw [← ha']
    refine ⟨⟨ns ++ (requests.foldl App.step (start cfg)).c.capture.toList, ?_, ?_⟩, fun hall => ?_⟩
    · simp only [App.close, App.drain, Components.close, hlog, hqueue, hpool, hclosed]
      cases (requests.foldl App.step (start cfg)).c.capture <;> simp
    · refine List.Perm.trans ?_ hperm
      rw [List.append_assoc, List.append_assoc]
      exact List.perm_append_comm.append_left ns
    · exact lost_of_allowed (fun hp => by cases hp) rfl hall

end App
end PgShadow
