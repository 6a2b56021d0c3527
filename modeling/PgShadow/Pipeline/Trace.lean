/-
# Traces of a connection

What an observer of one connection sees of a run of the processor: the messages
handled in each direction, each with what came of it, and the closes
(`StreamProcessor.trace`), or the same with the times (`StreamProcessor.moments`).
Two results connect traces to the rest.

* `moments_induction`, `trace_induction`, `trace_always`: what every step of a
  session keeps holds of the session and the trace of a connection along every
  run, whatever other connections do.
* `framed_of_run`: until the connection closes, the messages of a direction are
  the messages that a fresh parser frames from the chunks of that direction.

Key definitions: `Obs`, `Moment`, `StreamProcessor.trace`, `decided`, `enqueued`.
-/
import PgShadow.Pipeline.Refinement
import PgShadow.Protocol.Chunks

namespace PgShadow

/-- What happens on a connection. -/
inductive Obs
  | client (msg : PGMessage) (effects : List Effect)
  | server (msg : PGMessage) (effects : List Effect)
  | close
deriving DecidableEq

def Obs.effects : Obs → List Effect
  | .client _ effects => effects
  | .server _ effects => effects
  | .close => []

/-- What a callback shows on its connection. -/
def observe : Call × StreamProcessor.Report → List Obs
  | (.onBytes _ true _ _, r) => r.handled.map fun h => .client h.1 h.2
  | (.onBytes _ false _ _, r) => r.handled.map fun h => .server h.1 h.2
  | (.onClose _, _) => [.close]

/-- The callbacks of the connection `c` in a run, with what they did. -/
def StreamProcessor.history (sp : StreamProcessor) (calls : List Call) (c : ConnID) :
    List (Call × StreamProcessor.Report) :=
  Machine.history StreamProcessor.step Call.conn c sp calls

/-- What happens on the connection `c` in a run. -/
def StreamProcessor.trace (sp : StreamProcessor) (calls : List Call) (c : ConnID) : List Obs :=
  (sp.history calls c).flatMap observe

/-- What happens on a connection, and when. -/
inductive Moment
  | client (ts : ℤ) (msg : PGMessage) (effects : List Effect)
  | server (ts : ℤ) (msg : PGMessage) (effects : List Effect)
  | close
deriving DecidableEq

def Moment.obs : Moment → Obs
  | .client _ msg effects => .client msg effects
  | .server _ msg effects => .server msg effects
  | .close => .close

def momentsOf : Call × StreamProcessor.Report → List Moment
  | (.onBytes _ true _ ts, r) => r.handled.map fun h => .client ts h.1 h.2
  | (.onBytes _ false _ ts, r) => r.handled.map fun h => .server ts h.1 h.2
  | (.onClose _, _) => [.close]

/-- What happens on the connection `c` in a run, with the times. -/
def StreamProcessor.moments (sp : StreamProcessor) (calls : List Call) (c : ConnID) : List Moment :=
  (sp.history calls c).flatMap momentsOf

theorem map_obs_momentsOf (x : Call × StreamProcessor.Report) : (momentsOf x).map Moment.obs = observe x := by
  obtain ⟨⟨c, fromClient, data, ts⟩ | c, r⟩ := x
  · cases fromClient <;> simp [momentsOf, observe, Moment.obs]
  · rfl

/-- The trace is what shows without the times. -/
theorem StreamProcessor.trace_eq (sp : StreamProcessor) (calls : List Call) (c : ConnID) :
    sp.trace calls c = (sp.moments calls c).map Moment.obs := by
  unfold trace moments
  rw [List.map_flatMap]
  exact congrArg (List.flatMap · (sp.history calls c)) (funext fun x => (map_obs_momentsOf x).symm)

/-- The processor after a run. -/
def StreamProcessor.run (sp : StreamProcessor) (calls : List Call) : StreamProcessor :=
  Machine.final StreamProcessor.step sp calls

/-- The events the filter decided on. -/
def decided (effects : List Effect) : List SQLEvent :=
  effects.filterMap fun
    | .decide ev _ => some ev
    | _ => none

/-- The events put on the queue. -/
def enqueued (effects : List Effect) : List SQLEvent :=
  effects.filterMap fun
    | .enqueue ev => some ev
    | _ => none

/-- All effects of a trace, in order. -/
def effectsOf (tr : List Obs) : List Effect := tr.flatMap Obs.effects

@[simp] theorem decided_nil : decided [] = [] := rfl

@[simp] theorem enqueued_nil : enqueued [] = [] := rfl

@[simp] theorem decided_append (es es' : List Effect) : decided (es ++ es') = decided es ++ decided es' :=
  List.filterMap_append

@[simp] theorem enqueued_append (es es' : List Effect) : enqueued (es ++ es') = enqueued es ++ enqueued es' :=
  List.filterMap_append

@[simp] theorem effectsOf_append (tr tr' : List Obs) : effectsOf (tr ++ tr') = effectsOf tr ++ effectsOf tr' :=
  List.flatMap_append

@[simp] theorem effectsOf_singleton (o : Obs) : effectsOf [o] = o.effects := by simp [effectsOf]

/-! ### What shows of a step -/

/-- A counter is no event. -/
theorem silent_metric (E : Env) {e : Effect} (hd : decided [e] = []) (hq : enqueued [e] = []) :
    decided (E.metric e) = [] ∧ enqueued (E.metric e) = [] := by
  unfold Env.metric
  split
  · exact ⟨hd, hq⟩
  · exact ⟨rfl, rfl⟩

theorem decided_judge (E : Env) (ev : SQLEvent) (st : TxStatus) : decided (E.judge ev st) = [ev] := by
  have hkept : decided (if (E.flt.decide ev st).1 = .keep then [.enqueue ev] else []) = [] := by
    split <;> rfl
  have hdecide : ∀ es, decided (.decide ev st :: es) = ev :: decided es := fun _ => rfl
  rw [Env.judge, List.cons_append, hdecide, decided_append, (silent_metric E rfl rfl).1, hkept]
  rfl

theorem enqueued_judge (E : Env) (ev : SQLEvent) (st : TxStatus) :
    enqueued (E.judge ev st) = if (E.flt.decide ev st).1 = .keep then [ev] else [] := by
  have hdecide : ∀ es, enqueued (.decide ev st :: es) = enqueued es := fun _ => rfl
  rw [Env.judge, List.cons_append, hdecide, enqueued_append, (silent_metric E rfl rfl).2, List.nil_append]
  split <;> rfl

theorem silent_complaint (E : Env) (req : Request) :
    decided (Session.complaint E req) = [] ∧ enqueued (Session.complaint E req) = [] := by
  cases req with
  | execute | refused => exact silent_metric E rfl rfl
  | query | prepare | copyData | copyDone | copyFail | other => exact ⟨rfl, rfl⟩

theorem silent_complete (E : Env) (s : Session) (ts : ℤ) :
    decided (Session.complete E s ts).2 = [] ∧ enqueued (Session.complete E s ts).2 = [] := by
  unfold Session.complete
  dsimp only
  split
  · split
    · exact ⟨rfl, rfl⟩
    · exact silent_metric E rfl rfl
  · exact ⟨rfl, rfl⟩

theorem silent_note (E : Env) (ts : ℤ) (s : Session) (msg : PGMessage) :
    decided (Session.note E ts s msg).2 = [] ∧ enqueued (Session.note E ts s msg).2 = [] := by
  unfold Session.note
  by_cases hZ : msg.type = msgReadyForQuery
  · rw [if_pos hZ]
    exact silent_complete E _ ts
  by_cases hC : msg.type = msgCommandComplete
  · rw [if_neg hZ, if_pos hC]
    exact silent_complete E s ts
  · rw [if_neg hZ, if_neg hC]
    exact ⟨rfl, rfl⟩

/-- The filter decides on the event of a request, if there is one. -/
theorem decided_answer (E : Env) (c : ConnID) (ts : ℤ) (l : Session × ℕ) (req : Request) :
    decided (Session.answer E c ts l req).2 = ((l.1.eventOf E c ts req).map (l.1.stamp E l.2)).toList := by
  cases h : l.1.eventOf E c ts req with
  | some ev => rw [Session.answer_event h, decided_judge]; rfl
  | none => rw [Session.answer_none h, (silent_complaint E req).1]; rfl

/-- The filter has decided on what it keeps. -/
theorem enqueued_answer_sublist (E : Env) (c : ConnID) (ts : ℤ) (l : Session × ℕ) (req : Request) :
    (enqueued (Session.answer E c ts l req).2).Sublist (decided (Session.answer E c ts l req).2) := by
  cases h : l.1.eventOf E c ts req with
  | none => rw [Session.answer_none h, (silent_complaint E req).2]; exact List.nil_sublist _
  | some ev =>
    rw [Session.answer_event h, decided_judge, enqueued_judge]
    split
    · exact List.Sublist.refl _
    · exact List.nil_sublist _

/-- Server messages and closes decide nothing. -/
theorem decided_concat_server (E : Env) (ts : ℤ) (s : Session) (tr : List Obs) (msg : PGMessage) :
    decided (effectsOf (tr ++ [Obs.server msg (Session.note E ts s msg).2])) = decided (effectsOf tr) := by
  rw [effectsOf_append, effectsOf_singleton, decided_append, Obs.effects, (silent_note E ts s msg).1,
    List.append_nil]

theorem enqueued_concat_server (E : Env) (ts : ℤ) (s : Session) (tr : List Obs) (msg : PGMessage) :
    enqueued (effectsOf (tr ++ [Obs.server msg (Session.note E ts s msg).2])) = enqueued (effectsOf tr) := by
  rw [effectsOf_append, effectsOf_singleton, enqueued_append, Obs.effects, (silent_note E ts s msg).2,
    List.append_nil]

theorem decided_concat_close (tr : List Obs) : decided (effectsOf (tr ++ [Obs.close])) = decided (effectsOf tr) := by
  rw [effectsOf_append, effectsOf_singleton, decided_append, Obs.effects, decided_nil, List.append_nil]

/-! ### Induction along a run -/

/-- What is good of the elements of a list, and of one behind it, is good of all. -/
theorem forall_split_concat {α : Type*} {l : List α} {x : α} {G : List α → α → Prop}
    (h : ∀ u o v, l = u ++ o :: v → G u o) (hx : G l x) : ∀ u o v, l ++ [x] = u ++ o :: v → G u o := by
  intro u o v heq
  rcases List.eq_nil_or_concat v with rfl | ⟨v, y, rfl⟩
  · obtain ⟨rfl, hxo⟩ := List.append_inj' heq rfl
    rwa [← (List.cons.inj hxo).1]
  · rw [List.concat_eq_append, ← List.cons_append, ← List.append_assoc] at heq
    exact h u o v (List.append_inj' heq rfl).1

section Moments

variable {E : Env} {c : ConnID} {P : Session → List Moment → Prop}
  (client : ∀ s n tm msg ts, P s tm →
    P (Session.answer E c ts (s, n) (E.request msg)).1.1
      (tm ++ [Moment.client ts msg (Session.answer E c ts (s, n) (E.request msg)).2]))
  (server : ∀ s tm msg ts, P s tm →
    P (Session.note E ts s msg).1 (tm ++ [Moment.server ts msg (Session.note E ts s msg).2]))
  (feed : ∀ s tm fromClient data, P s tm → P (s.fed fromClient data) tm)
  (close : ∀ s tm, P s tm → P .fresh (tm ++ [Moment.close]))

include client server in
theorem messages_induction (fromClient : Bool) (data : Bytes) (ts : ℤ) : ∀ ms l tm, P l.1 tm →
    P (Machine.final (Session.message E c fromClient ts) l ms).1
      (tm ++ momentsOf (.onBytes c fromClient data ts,
        { handled := ms.zip (Machine.outs (Session.message E c fromClient ts) l ms) }))
  | [], l, tm, h => by cases fromClient <;> simpa [momentsOf] using h
  | msg :: ms, (s, n), tm, h => by
    cases fromClient with
    | true =>
      have := messages_induction true data ts ms _ _ (client s n tm msg ts h)
      simpa [momentsOf, Machine.final_cons, Machine.outs_cons, Session.message] using this
    | false =>
      have := messages_induction false data ts ms ((Session.note E ts s msg).1, n) _ (server s tm msg ts h)
      simpa [momentsOf, Machine.final_cons, Machine.outs_cons, Session.message] using this

include client server feed close in
/-- **Induction along a run.** A relation between the session of a connection
and its moments holds after every run if feeding a parser, each message and
closing keep it. -/
theorem moments_induction {sp : StreamProcessor} (henv : sp.env = E)
    (start : P (sp.session c) []) (calls : List Call) :
    P ((sp.run calls).session c) (sp.moments calls c) := by
  have hinv := partitioned.invariant (k := c) (Q := fun r => r.1 = E) (P := fun s h => P s (h.flatMap momentsOf))
    (fun r s call hr => by rw [Session.step_env]; exact hr) (fun r s call h hc hr hp => ?_)
    calls sp [] henv start
  · exact hinv
  · obtain ⟨E', n⟩ := r
    obtain rfl : E' = E := hr
    rw [List.flatMap_append, List.flatMap_singleton]
    cases call with
    | onBytes c' fromClient data ts =>
      obtain rfl : c' = c := hc
      have := messages_induction client server fromClient data ts (s.framed fromClient data).1
        (s.fed fromClient data, n) _ (feed s _ fromClient data hp)
      cases fromClient <;> exact this
    | onClose c' => exact close s _ hp

include client server feed close in
/-- **Every server message of a run** is noted by a session that keeps the invariant
with the moments before it. -/
theorem moments_server {sp : StreamProcessor} (henv : sp.env = E)
    (start : P (sp.session c) []) {calls : List Call} {u v : List Moment} {ts : ℤ} {msg : PGMessage}
    {effects : List Effect} (h : sp.moments calls c = u ++ .server ts msg effects :: v) :
    ∃ s, P s u ∧ effects = (Session.note E ts s msg).2 := by
  let G : List Moment → Moment → Prop := fun u m => ∀ ts msg effects, m = .server ts msg effects →
    ∃ s, P s u ∧ effects = (Session.note E ts s msg).2
  have hall := moments_induction (E := E) (c := c)
    (P := fun s tm => P s tm ∧ ∀ u m v, tm = u ++ m :: v → G u m) ?_ ?_ ?_ ?_ henv ⟨start, ?_⟩ calls
  · exact hall.2 u _ v h ts msg effects rfl
  · intro s n tm msg ts ⟨hp, hg⟩
    exact ⟨client s n tm msg ts hp, forall_split_concat hg fun _ _ _ hm => by cases hm⟩
  · intro s tm msg ts ⟨hp, hg⟩
    refine ⟨server s tm msg ts hp, forall_split_concat hg fun ts' msg' effects' hm => ?_⟩
    obtain ⟨rfl, rfl, rfl⟩ := Moment.server.inj hm
    exact ⟨s, hp, rfl⟩
  · exact fun s tm fromClient data ⟨hp, hg⟩ => ⟨feed s tm fromClient data hp, hg⟩
  · intro s tm ⟨hp, hg⟩
    exact ⟨close s tm hp, forall_split_concat hg fun _ _ _ hm => by cases hm⟩
  · intro u m v hnil
    simp at hnil

end Moments

section Trace

variable {E : Env} {c : ConnID} {P : Session → List Obs → Prop}
  (client : ∀ s n tr msg ts, P s tr →
    P (Session.answer E c ts (s, n) (E.request msg)).1.1
      (tr ++ [Obs.client msg (Session.answer E c ts (s, n) (E.request msg)).2]))
  (server : ∀ s tr msg ts, P s tr →
    P (Session.note E ts s msg).1 (tr ++ [Obs.server msg (Session.note E ts s msg).2]))
  (feed : ∀ s tr fromClient data, P s tr → P (s.fed fromClient data) tr)
  (close : ∀ s tr, P s tr → P .fresh (tr ++ [Obs.close]))

include client server feed close in
/-- The induction for a relation that does not look at the times. -/
theorem trace_induction {sp : StreamProcessor} (henv : sp.env = E)
    (start : P (sp.session c) []) (calls : List Call) :
    P ((sp.run calls).session c) (sp.trace calls c) := by
  have hmap : ∀ (tm : List Moment) (m : Moment), (tm ++ [m]).map Moment.obs = tm.map Moment.obs ++ [m.obs] := by
    intro tm m
    rw [List.map_append, List.map_singleton]
  rw [sp.trace_eq]
  refine moments_induction (E := E) (P := fun s tm => P s (tm.map Moment.obs)) ?_ ?_ ?_ ?_ henv start calls
  · intro s n tm msg ts h
    rw [hmap]
    exact client s n _ msg ts h
  · intro s tm msg ts h
    rw [hmap]
    exact server s _ msg ts h
  · exact fun s tm fromClient data h => feed s _ fromClient data h
  · intro s tm h
    rw [hmap]
    exact close s _ h

/-- **Every moment of a run.** If an invariant of the session and its trace
makes each observation good in view of the trace before it, all observations of
every run are good. -/
theorem trace_always {E : Env} {c : ConnID} {P : Session → List Obs → Prop} {G : List Obs → Obs → Prop}
    (client : ∀ s n tr msg ts, P s tr →
      P (Session.answer E c ts (s, n) (E.request msg)).1.1
          (tr ++ [Obs.client msg (Session.answer E c ts (s, n) (E.request msg)).2]) ∧
        G tr (.client msg (Session.answer E c ts (s, n) (E.request msg)).2))
    (server : ∀ s tr msg ts, P s tr →
      P (Session.note E ts s msg).1 (tr ++ [Obs.server msg (Session.note E ts s msg).2]) ∧
        G tr (.server msg (Session.note E ts s msg).2))
    (feed : ∀ s tr fromClient data, P s tr → P (s.fed fromClient data) tr)
    (close : ∀ s tr, P s tr → P .fresh (tr ++ [Obs.close]) ∧ G tr .close) {sp : StreamProcessor}
    (henv : sp.env = E) (start : P (sp.session c) []) (calls : List Call) :
    ∀ u o v, sp.trace calls c = u ++ o :: v → G u o := by
  refine (trace_induction (E := E) (c := c)
    (P := fun s tr => P s tr ∧ ∀ u o v, tr = u ++ o :: v → G u o) ?_ ?_ ?_ ?_ henv ⟨start, ?_⟩ calls).2
  · intro s n tr msg ts ⟨hp, hg⟩
    obtain ⟨hp', hx⟩ := client s n tr msg ts hp
    exact ⟨hp', forall_split_concat hg hx⟩
  · intro s tr msg ts ⟨hp, hg⟩
    obtain ⟨hp', hx⟩ := server s tr msg ts hp
    exact ⟨hp', forall_split_concat hg hx⟩
  · intro s tr fromClient data ⟨hp, hg⟩
    exact ⟨feed s tr fromClient data hp, hg⟩
  · intro s tr ⟨hp, hg⟩
    obtain ⟨hp', hx⟩ := close s tr hp
    exact ⟨hp', forall_split_concat hg hx⟩
  · intro u o v heq
    simp at heq

include client server feed close in
/-- **Every client message of a run** is answered by a session that keeps the
invariant with the trace before it. -/
theorem trace_client {sp : StreamProcessor} (henv : sp.env = E)
    (start : P (sp.session c) []) {calls : List Call} {u v : List Obs} {msg : PGMessage} {effects : List Effect}
    (h : sp.trace calls c = u ++ .client msg effects :: v) :
    ∃ s n ts, P s u ∧ effects = (Session.answer E c ts (s, n) (E.request msg)).2 := by
  refine trace_always (E := E) (c := c) (P := P)
    (G := fun u o => ∀ msg effects, o = .client msg effects →
      ∃ s n ts, P s u ∧ effects = (Session.answer E c ts (s, n) (E.request msg)).2)
    ?_ ?_ feed ?_ henv start calls u _ v h msg effects rfl
  · intro s n tr msg ts hp
    refine ⟨client s n tr msg ts hp, fun msg' effects' ho => ?_⟩
    obtain ⟨rfl, rfl⟩ := Obs.client.inj ho
    exact ⟨s, n, ts, hp, rfl⟩
  · exact fun s tr msg ts hp => ⟨server s tr msg ts hp, fun msg effects ho => by cases ho⟩
  · exact fun s tr hp => ⟨close s tr hp, fun msg effects ho => by cases ho⟩

end Trace

/-! ### The bytes behind a trace -/

/-- The bytes of one direction of `c`, call by call. -/
def chunksOf (fromClient : Bool) (c : ConnID) (calls : List Call) : List Bytes :=
  calls.filterMap fun
    | .onBytes c' d data _ => if c' = c ∧ d = fromClient then some data else none
    | .onClose _ => none

theorem chunksOf_cons_self (c : ConnID) (d : Bool) (data : Bytes) (ts : ℤ) (calls : List Call) :
    chunksOf d c (.onBytes c d data ts :: calls) = data :: chunksOf d c calls :=
  List.filterMap_cons_some (if_pos ⟨rfl, rfl⟩)

theorem chunksOf_cons_other {fromClient d : Bool} (hd : fromClient ≠ d) (c : ConnID) (data : Bytes) (ts : ℤ)
    (calls : List Call) : chunksOf d c (.onBytes c fromClient data ts :: calls) = chunksOf d c calls :=
  List.filterMap_cons_none (if_neg fun hx => hd hx.2)

theorem chunksOf_cons_of_ne {call : Call} {c : ConnID} (hc : call.conn ≠ c) (d : Bool) (calls : List Call) :
    chunksOf d c (call :: calls) = chunksOf d c calls := by
  cases call with
  | onClose c' => rfl
  | onBytes c' fromClient data ts => exact List.filterMap_cons_none (if_neg fun hx => hc hx.1)

/-- The messages of one direction in a trace. -/
def msgsOf (fromClient : Bool) (tr : List Obs) : List PGMessage :=
  tr.filterMap fun
    | .client msg _ => if fromClient then some msg else none
    | .server msg _ => if fromClient then none else some msg
    | .close => none

/-- The framing errors of one direction, call by call. -/
def errsOf (fromClient : Bool) (h : List (Call × StreamProcessor.Report)) : List (Option FrameError) :=
  h.filterMap fun
    | (.onBytes _ d _ _, r) => if d = fromClient then some r.err else none
    | (.onClose _, _) => none

theorem parser_answer (E : Env) (c : ConnID) (ts : ℤ) (l : Session × ℕ) (req : Request) (d : Bool) :
    (Session.answer E c ts l req).1.1.parser d = l.1.parser d := by
  cases h : l.1.eventOf E c ts req with
  | some ev => rw [Session.answer_event h]; cases req <;> rfl
  | none => rw [Session.answer_none h]; cases req <;> rfl

theorem parser_messages (E : Env) (c : ConnID) (fromClient : Bool) (ts : ℤ) (d : Bool) :
    ∀ ms l, (Machine.final (Session.message E c fromClient ts) l ms).1.parser d = l.1.parser d
  | [], _ => rfl
  | msg :: ms, l => by
    rw [Machine.final_cons, parser_messages E c fromClient ts d ms]
    cases fromClient with
    | true => exact parser_answer E c ts l _ d
    | false =>
      obtain ⟨status, inflight, hnote⟩ := Session.note_frame E ts l.1 msg
      show (Session.note E ts l.1 msg).1.parser d = l.1.parser d
      rw [hnote]
      rfl

theorem parser_fed (s : Session) (fromClient d : Bool) (data : Bytes) :
    (s.fed fromClient data).parser d = if fromClient = d then ((s.parser d).feed data).1 else s.parser d := by
  cases fromClient <;> cases d <;> rfl

theorem msgsOf_append (d : Bool) (tr tr' : List Obs) : msgsOf d (tr ++ tr') = msgsOf d tr ++ msgsOf d tr' :=
  List.filterMap_append

theorem msgsOf_observe (d : Bool) (c : ConnID) (fromClient : Bool) (data : Bytes) (ts : ℤ)
    (r : StreamProcessor.Report) : msgsOf d (observe (.onBytes c fromClient data ts, r)) =
      if fromClient = d then r.handled.map (·.1) else [] := by
  unfold msgsOf
  cases fromClient <;> cases d <;> simp [observe]

theorem history_cons_self {call : Call} {c : ConnID} (h : call.conn = c) (sp : StreamProcessor)
    (calls : List Call) :
    sp.history (call :: calls) c = (call, (sp.step call).2) :: (sp.step call).1.history calls c :=
  if_pos h

theorem history_cons_of_ne {call : Call} {c : ConnID} (h : call.conn ≠ c) (sp : StreamProcessor)
    (calls : List Call) :
    sp.history (call :: calls) c = (sp.step call).1.history calls c :=
  if_neg h

theorem trace_cons_self {call : Call} {c : ConnID} (h : call.conn = c) (sp : StreamProcessor)
    (calls : List Call) :
    sp.trace (call :: calls) c = observe (call, (sp.step call).2) ++ (sp.step call).1.trace calls c := by
  rw [StreamProcessor.trace, history_cons_self h, List.flatMap_cons]
  rfl

theorem trace_cons_of_ne {call : Call} {c : ConnID} (h : call.conn ≠ c) (sp : StreamProcessor)
    (calls : List Call) : sp.trace (call :: calls) c = (sp.step call).1.trace calls c := by
  rw [StreamProcessor.trace, history_cons_of_ne h]
  rfl

/-- What a session's callback does with the bytes of a direction. -/
theorem step_framed (r : Env × ℕ) (s : Session) (c : ConnID) (fromClient : Bool) (data : Bytes) (ts : ℤ) :
    (Session.step r s (.onBytes c fromClient data ts)).2.handled.map (·.1) =
        ((s.parser fromClient).feed data).2.1 ∧
      (Session.step r s (.onBytes c fromClient data ts)).2.err = ((s.parser fromClient).feed data).2.2 ∧
      ∀ d, (Session.step r s (.onBytes c fromClient data ts)).1.1.parser d =
        if fromClient = d then ((s.parser d).feed data).1 else s.parser d := by
  refine ⟨?_, rfl, fun d => ?_⟩
  · refine List.map_fst_zip ?_
    rw [Machine.length_outs]
  · unfold Session.step
    rw [parser_messages, parser_fed]

/-- Until the connection closes, a direction's messages and errors are what its
parser makes of its chunks. -/
theorem framed_of_run (d : Bool) (c : ConnID) : ∀ (calls : List Call) (sp : StreamProcessor),
    Call.onClose c ∉ calls →
    msgsOf d (sp.trace calls c) = fedMsgs ((sp.session c).parser d) (chunksOf d c calls) ∧
      errsOf d (sp.history calls c) =
        (Machine.outs StreamParser.feed ((sp.session c).parser d) (chunksOf d c calls)).map (·.2)
  | [], _, _ => ⟨rfl, rfl⟩
  | call :: calls, sp, h => by
    obtain ⟨hm, he⟩ := framed_of_run d c calls (sp.step call).1 fun hmem => h (List.mem_cons_of_mem _ hmem)
    by_cases hc : call.conn = c
    · rw [trace_cons_self hc, history_cons_self hc]
      cases call with
      | onClose c' =>
        obtain rfl : c' = c := hc
        exact absurd List.mem_cons_self h
      | onBytes c' fromClient data ts =>
        obtain rfl : c' = c := hc
        have hout := partitioned.out sp (.onBytes c' fromClient data ts)
        have hown := partitioned.own sp (.onBytes c' fromClient data ts)
        obtain ⟨h1, h2, h3⟩ := step_framed sp.shared (sp.session c') c' fromClient data ts
        rw [show Call.conn (.onBytes c' fromClient data ts) = c' from rfl] at hout hown
        rw [hown, h3 d] at hm he
        rw [msgsOf_append, msgsOf_observe, hm, hout, h1]
        by_cases hd : fromClient = d
        · subst hd
          rw [if_pos rfl] at he ⊢
          rw [if_pos rfl, chunksOf_cons_self]
          refine ⟨rfl, ?_⟩
          rw [Machine.outs_cons, List.map_cons, ← he, ← h2]
          exact List.filterMap_cons_some (if_pos rfl)
        · rw [if_neg hd] at he ⊢
          rw [if_neg hd, chunksOf_cons_other hd]
          refine ⟨rfl, ?_⟩
          rw [← he]
          exact List.filterMap_cons_none (if_neg hd)
    · rw [trace_cons_of_ne hc, history_cons_of_ne hc, chunksOf_cons_of_ne hc]
      rw [partitioned.other sp call c (Ne.symm hc)] at hm he
      exact ⟨hm, he⟩

end PgShadow
