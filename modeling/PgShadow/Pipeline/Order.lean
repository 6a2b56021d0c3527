/-
# The order and numbering of a connection's events

From a close of a connection to the next, the events dispatched for it are
numbered 1, 2, 3, … in the order of the client messages that trigger them. Apart
from timestamps and transaction ids they are a function of the client's messages
(`script`): the run of a fresh session on these messages alone, with no server,
no other connection and no chunks.

The session of the real run and the session of the script keep the same sequence
number, prepared statements and COPY in progress (`Agrees`), and nothing else of
a session shows in its events.

Key definitions: `dispatched`, `script`, `Agrees`, `Ordered`.
Key theorem: `numbered_in_order`.
-/
import PgShadow.Pipeline.Trace

namespace PgShadow

/-- The event without the fields that depend on when it happened. -/
def SQLEvent.bare (ev : SQLEvent) : SQLEvent := { ev with txID := 0, timestamp := 0 }

/-- The dispatched events of a trace, each with the message that triggered it. -/
def dispatched (tr : List Obs) : List (PGMessage × SQLEvent) :=
  tr.flatMap fun
    | .client msg effects => (decided effects).map fun ev => (msg, ev)
    | .server _ _ | .close => []

/-- A fresh session after the client messages `ms`, with nothing else going on. -/
def scriptSession (E : Env) (c : ConnID) (ms : List PGMessage) : Session × ℕ :=
  Machine.final (Session.message E c true 0) (.fresh, 0) ms

/-- The events of a fresh session on the client messages `ms`, with nothing else
going on. -/
def script (E : Env) (c : ConnID) (ms : List PGMessage) : List (PGMessage × SQLEvent) :=
  (ms.zip (Machine.outs (Session.message E c true 0) (.fresh, 0) ms)).flatMap fun h =>
    (decided h.2).map fun ev => (h.1, ev.bare)

/-- The messages that can trigger an event. -/
def triggers (msg : PGMessage) : Bool :=
  decide (msg.type = msgSimpleQuery ∨ msg.type = msgBind ∨ msg.type = msgCopyDone)

/-! ### Sessions that give the same events -/

/-- What of a session shows in its events. -/
structure Agrees (s t : Session) : Prop where
  seq : s.seq = t.seq
  stmts : s.stmts = t.stmts
  copying : s.copying = t.copying

theorem agrees_eventOf {s t : Session} (h : Agrees s t) (E : Env) (c : ConnID) (ts ts' : ℤ) (req : Request) :
    (t.eventOf E c ts' req) = (s.eventOf E c ts req).map fun ev => { ev with timestamp := ts' } := by
  cases req with
  | query sql =>
    simp only [Session.eventOf]
    split <;> rfl
  | execute name formats values =>
    simp only [Session.eventOf, h.stmts, Option.map_map]
    rfl
  | copyDone =>
    simp only [Session.eventOf, h.copying]
    rcases t.copying with _ | b
    · rfl
    · simp only [Option.bind_some]
      split <;> rfl
  | prepare | copyData | copyFail | refused | other => rfl

/-- Agreeing sessions answer alike, up to timestamps and transaction ids. -/
theorem agrees_answer {s t : Session} (h : Agrees s t) (E : Env) (c : ConnID) (ts ts' : ℤ) (n n' : ℕ)
    (req : Request) :
    Agrees (Session.answer E c ts (s, n) req).1.1 (Session.answer E c ts' (t, n') req).1.1 ∧
      (decided (Session.answer E c ts (s, n) req).2).map SQLEvent.bare =
        (decided (Session.answer E c ts' (t, n') req).2).map SQLEvent.bare := by
  have hev := agrees_eventOf h E c ts ts' req
  obtain ⟨hseq, hstmts, hcopying⟩ := h
  rw [decided_answer, decided_answer]
  rcases hs : s.eventOf E c ts req with _ | ev
  · rw [hs, Option.map_none] at hev
    rw [Session.answer_none hs, Session.answer_none hev, hev]
    refine ⟨?_, rfl⟩
    cases req <;> exact ⟨hseq, by simp only [Session.absorb, hstmts], by simp only [Session.absorb, hcopying]⟩
  · rw [hs, Option.map_some] at hev
    rw [Session.answer_event hs, Session.answer_event hev, hev]
    refine ⟨?_, ?_⟩
    · have hafter : Agrees (s.after E n ev.sql) (t.after E n' ev.sql) :=
        ⟨by simp only [Session.after, hseq], by simp only [Session.after, hstmts],
          by simp only [Session.after, hcopying]⟩
      cases req <;> exact ⟨hafter.seq, hafter.stmts, by first | exact hafter.copying | rfl⟩
    · simp only [Option.map_some, Option.toList_some, List.map_cons, List.map_nil, SQLEvent.bare,
        Session.stamp, hseq]

/-! ### Along a run -/

/-- What holds of a session and its trace until the connection closes. -/
structure Ordered (E : Env) (c : ConnID) (s : Session) (tr : List Obs) : Prop where
  agrees : Agrees s (scriptSession E c (msgsOf true tr)).1
  scripted : (dispatched tr).map (fun d => (d.1, d.2.bare)) = script E c (msgsOf true tr)
  all : (dispatched tr).map (·.2) = decided (effectsOf tr)
  numbers : (dispatched tr).map (·.2.seq) = List.range' 1 s.seq
  triggers : ((dispatched tr).map (·.1)).Sublist ((msgsOf true tr).filter triggers)
  queued : (enqueued (effectsOf tr)).Sublist (decided (effectsOf tr))

theorem scriptSession_concat (E : Env) (c : ConnID) (ms : List PGMessage) (msg : PGMessage) :
    scriptSession E c (ms ++ [msg]) = (Session.answer E c 0 (scriptSession E c ms) (E.request msg)).1 := by
  unfold scriptSession
  rw [Machine.final_append]
  rfl

theorem script_concat (E : Env) (c : ConnID) (ms : List PGMessage) (msg : PGMessage) :
    script E c (ms ++ [msg]) = script E c ms ++
      (decided (Session.answer E c 0 (scriptSession E c ms) (E.request msg)).2).map
        fun ev => (msg, ev.bare) := by
  unfold script
  rw [Machine.outs_append, List.zip_append (Machine.length_outs _ _ _).symm, List.flatMap_append]
  congr 1
  simp only [Machine.outs_cons, Machine.outs_nil, List.zip_cons_cons, List.zip_nil_right, List.flatMap_singleton]
  rfl

theorem dispatched_append (tr tr' : List Obs) : dispatched (tr ++ tr') = dispatched tr ++ dispatched tr' :=
  List.flatMap_append

theorem dispatched_client (msg : PGMessage) (effects : List Effect) :
    dispatched [.client msg effects] = (decided effects).map fun ev => (msg, ev) := by
  simp [dispatched]

theorem triggers_of_eventOf {E : Env} {c : ConnID} {ts : ℤ} {s : Session} {msg : PGMessage} {ev : SQLEvent}
    (h : s.eventOf E c ts (E.request msg) = some ev) : triggers msg = true := by
  have hfits := E.request_fits msg
  unfold triggers
  cases hreq : E.request msg with
  | query sql => rw [hreq] at hfits; exact decide_eq_true (Or.inl hfits.1)
  | execute name formats values => rw [hreq] at hfits; exact decide_eq_true (Or.inr (Or.inl hfits.1))
  | copyDone => rw [hreq] at hfits; exact decide_eq_true (Or.inr (Or.inr hfits))
  | prepare | copyData | copyFail | refused | other => rw [hreq] at h; cases h

theorem ordered_client {E : Env} {c : ConnID} {s : Session} {tr : List Obs} (h : Ordered E c s tr) (n : ℕ)
    (msg : PGMessage) (ts : ℤ) :
    Ordered E c (Session.answer E c ts (s, n) (E.request msg)).1.1
      (tr ++ [.client msg (Session.answer E c ts (s, n) (E.request msg)).2]) := by
  set l := scriptSession E c (msgsOf true tr) with hl
  obtain ⟨hagrees, hevents⟩ := agrees_answer (t := l.1) h.agrees E c ts 0 n l.2 (E.request msg)
  set o := Session.answer E c ts (s, n) (E.request msg) with ho
  have hmsgs : msgsOf true (tr ++ [.client msg o.2]) = msgsOf true tr ++ [msg] := msgsOf_append true tr _
  have hd : decided o.2 = ((s.eventOf E c ts (E.request msg)).map (s.stamp E n)).toList :=
    decided_answer E c ts (s, n) _
  refine ⟨?_, ?_, ?_, ?_, ?_, ?_⟩
  · rw [hmsgs, scriptSession_concat]
    exact hagrees
  · rw [hmsgs, script_concat, ← h.scripted, dispatched_append, dispatched_client, List.map_append, List.map_map]
    have := congrArg (List.map fun ev => (msg, ev)) hevents
    rw [List.map_map, List.map_map] at this
    rw [← hl]
    exact congrArg _ this
  · rw [dispatched_append, dispatched_client, List.map_append, h.all, effectsOf_append, effectsOf_singleton,
      decided_append, List.map_map]
    congr 1
    exact List.map_id _
  · rw [dispatched_append, dispatched_client, List.map_append, h.numbers, List.map_map, hd]
    rcases hev : s.eventOf E c ts (E.request msg) with _ | ev
    · have hsame : o.1.1.seq = s.seq := by
        rw [ho, Session.answer_none hev]
        cases E.request msg <;> rfl
      rw [hsame]
      simp
    · have hnext : o.1.1.seq = s.seq + 1 := by
        rw [ho, Session.answer_event hev]
        cases E.request msg <;> rfl
      rw [hnext, List.range'_1_concat, Nat.add_comm 1]
      rfl
  · rw [dispatched_append, dispatched_client, List.map_append, hmsgs, List.filter_append, List.map_map, hd]
    apply h.triggers.append
    rcases hev : s.eventOf E c ts (E.request msg) with _ | ev
    · exact List.nil_sublist _
    · rw [List.filter_cons_of_pos (triggers_of_eventOf hev)]
      exact List.Sublist.refl _
  · rw [effectsOf_append, effectsOf_singleton, enqueued_append, decided_append]
    exact h.queued.append (enqueued_answer_sublist E c ts (s, n) _)

theorem ordered_server {E : Env} {c : ConnID} {s : Session} {tr : List Obs} (h : Ordered E c s tr)
    (msg : PGMessage) (ts : ℤ) :
    Ordered E c (Session.note E ts s msg).1 (tr ++ [Obs.server msg (Session.note E ts s msg).2]) := by
  obtain ⟨status, inflight, hnote⟩ := Session.note_frame E ts s msg
  have hdec := decided_concat_server E ts s tr msg
  have henq := enqueued_concat_server E ts s tr msg
  set effects := (Session.note E ts s msg).2
  have hmsgs : msgsOf true (tr ++ [.server msg effects]) = msgsOf true tr := by
    rw [msgsOf_append]
    exact List.append_nil _
  have hdisp : dispatched (tr ++ [.server msg effects]) = dispatched tr := by
    rw [dispatched_append]
    exact List.append_nil _
  rw [hnote]
  refine ⟨?_, ?_, ?_, ?_, ?_, ?_⟩
  · rw [hmsgs]; exact ⟨h.agrees.seq, h.agrees.stmts, h.agrees.copying⟩
  · rw [hmsgs, hdisp]; exact h.scripted
  · rw [hdisp, hdec]; exact h.all
  · rw [hdisp]; exact h.numbers
  · rw [hdisp, hmsgs]; exact h.triggers
  · rw [henq, hdec]; exact h.queued

/-- A connection that is not closed shows no close. -/
theorem close_not_mem_trace {c : ConnID} {calls : List Call} (h : Call.onClose c ∉ calls)
    (sp : StreamProcessor) :
    Obs.close ∉ sp.trace calls c := by
  intro hmem
  obtain ⟨⟨call, r⟩, hhist, hobs⟩ := List.mem_flatMap.mp hmem
  obtain ⟨hcall, hconn⟩ := Machine.mem_history hhist
  cases call with
  | onClose c' =>
    obtain rfl : c' = c := hconn
    exact h hcall
  | onBytes c' fromClient data ts => cases fromClient <;> simp [observe] at hobs

theorem ordered_trace {sp : StreamProcessor} {c : ConnID} {calls : List Call} (hfresh : sp.session c = .fresh)
    (hopen : Call.onClose c ∉ calls) : Ordered sp.env c ((sp.run calls).session c) (sp.trace calls c) := by
  -- the invariant is empty once the connection has closed
  refine trace_induction (E := sp.env) (c := c) (P := fun s tr => Obs.close ∉ tr → Ordered sp.env c s tr)
    ?_ ?_ ?_ ?_ rfl ?_ calls (close_not_mem_trace hopen sp)
  · intro s n tr msg ts h hclose
    exact ordered_client (h fun hmem => hclose (List.mem_append_left _ hmem)) n msg ts
  · intro s tr msg ts h hclose
    exact ordered_server (h fun hmem => hclose (List.mem_append_left _ hmem)) msg ts
  · intro s tr fromClient data h hclose
    obtain ⟨hagrees, hscripted, hall, hnumbers, htriggers, hqueued⟩ := h hclose
    cases fromClient <;>
      exact ⟨⟨hagrees.seq, hagrees.stmts, hagrees.copying⟩, hscripted, hall, hnumbers, htriggers, hqueued⟩
  · intro s tr _ hclose
    exact absurd (List.mem_append_right _ List.mem_cons_self) hclose
  · intro _
    rw [hfresh]
    exact ⟨⟨rfl, rfl, rfl⟩, rfl, rfl, rfl, List.Sublist.refl _, List.Sublist.refl _⟩

theorem run_env : ∀ (calls : List Call) (sp : StreamProcessor), (sp.run calls).env = sp.env
  | [], _ => rfl
  | call :: calls, sp => by
    have h := congrArg Prod.fst (partitioned.sharing sp call)
    rw [Session.step_env] at h
    exact (run_env calls _).trans h

/-- A connection that has just been closed, or never been seen, has a fresh session. -/
theorem session_of_closed {U : CaseTable} {pcfg : ProtocolConfig} {fcfg : FilterConfig} {collector : Bool}
    {sp : StreamProcessor} (hsp : newStreamProcessor U pcfg fcfg collector = .ok sp) {calls : List Call}
    {c : ConnID} (h : calls = [] ∨ calls.getLast? = some (.onClose c)) : (sp.run calls).session c = .fresh := by
  rcases h with rfl | h
  · exact new_session hsp c
  · obtain ⟨before, rfl⟩ := List.getLast?_eq_some_iff.mp h
    unfold StreamProcessor.run
    rw [Machine.final_append]
    exact partitioned.own _ (.onClose c)

/-- **Order and numbering.** From the start or a close of a connection until it
is closed again, the client messages handled are the first messages of the
client's byte stream, all of them up to 256 MiB. The events dispatched are
numbered 1, 2, 3, … in the order of the messages that trigger them, and apart
from timestamps and transaction ids depend on these messages alone. The events
enqueued are some of the dispatched ones, in the same order. -/
theorem numbered_in_order {U : CaseTable} {pcfg : ProtocolConfig} {fcfg : FilterConfig} {collector : Bool}
    {sp : StreamProcessor} (hsp : newStreamProcessor U pcfg fcfg collector = .ok sp) (pre post : List Call)
    (c : ConnID) (hpre : pre = [] ∨ pre.getLast? = some (.onClose c)) (hpost : Call.onClose c ∉ post) :
    let tr := (sp.run pre).trace post c
    let stream := (chunksOf true c post).flatten
    msgsOf true tr <+: (framing.drain true stream).items ∧
      (stream.length ≤ 268435456 → msgsOf true tr = (framing.drain true stream).items) ∧
      (dispatched tr).map (·.2) = decided (effectsOf tr) ∧
      (dispatched tr).map (·.2.seq) = List.range' 1 (dispatched tr).length ∧
      ((dispatched tr).map (·.1)).Sublist ((msgsOf true tr).filter triggers) ∧
      (dispatched tr).map (fun d => (d.1, d.2.bare)) = script sp.env c (msgsOf true tr) ∧
      (enqueued (effectsOf tr)).Sublist (decided (effectsOf tr)) ∧
      ((enqueued (effectsOf tr)).map (·.seq)).Pairwise (· < ·) := by
  intro tr stream
  have hfresh := session_of_closed hsp hpre
  have hmsgs : msgsOf true tr = fedMsgs (newParser true) (chunksOf true c post) := by
    rw [(framed_of_run true c post (sp.run pre) hpost).1, hfresh]
    rfl
  have hfed := fed_fresh true (chunksOf true c post)
  rw [← hmsgs] at hfed
  have h := ordered_trace hfresh hpost
  rw [run_env] at h
  have hlen : (((sp.run pre).run post).session c).seq = (dispatched tr).length := by
    rw [← List.length_map (f := fun d => d.2.seq), h.numbers, List.length_range']
  refine ⟨hfed.msgs_start, hfed.msgs, h.all, ?_, h.triggers, h.scripted, h.queued, ?_⟩
  · rw [← hlen]
    exact h.numbers
  · have hseqs : (decided (effectsOf tr)).map (·.seq) = List.range' 1 (dispatched tr).length :=
      calc (decided (effectsOf tr)).map (·.seq)
          = ((dispatched tr).map (·.2)).map (·.seq) := by rw [h.all]
        _ = (dispatched tr).map (·.2.seq) := List.map_map
        _ = List.range' 1 (dispatched tr).length := by rw [h.numbers, hlen]
    have hsub := h.queued.map (·.seq)
    rw [hseqs] at hsub
    exact List.Pairwise.sublist hsub List.pairwise_lt_range'

/-- A client that comes back after a close: its first bytes are cut inside a
message, and it prepares and executes a statement between two queries. -/
def reconnected : List Call :=
  let session := wireStartup [0, 3, 0, 0] ++ [(msgSimpleQuery, bytes "BEGIN\x00"),
    (msgParse, bytes "s\x00DELETE FROM t\x00\x00\x00"), (msgBind, bytes "\x00s\x00\x00\x00\x00\x00"),
    (msgSimpleQuery, bytes "COMMIT\x00")].flatMap wireTyped
  [.onBytes someConn true (session.take 12) 0, .onBytes someConn false [] 1,
    .onBytes someConn true (session.drop 12) 2]

theorem numbered_in_order_reconnected :
    let tr := ((defaultProcessor ⟨id, id⟩ {} false).run [.onClose someConn]).trace reconnected someConn
    (dispatched tr).map (·.2.sql) = [bytes "BEGIN", bytes "DELETE FROM t", bytes "COMMIT"] ∧
      (dispatched tr).map (·.2.seq) = List.range' 1 (dispatched tr).length :=
  ⟨by decide +kernel,
    (numbered_in_order (new_default ⟨id, id⟩ {} false) [.onClose someConn] reconnected someConn
      (Or.inr rfl) (by decide)).2.2.2.1⟩

end PgShadow
