/-
# Source execution times

What `SourceExecTimer` and `lastSQL` make of a connection. A client may send statements
before it has the answers to earlier ones; the server answers them in order, with one
CommandComplete each. The `Ledger` of a connection is the list of the statements sent
and of the completions that came, so that completion `k` answers statement `k`.

The processor has one slot for the time of the last statement and one for its SQL. What it
records when a completion comes is the SQL of the statement dispatched last and the time
since the one started last (`recorded_slots`), whichever statement the completion answers. So a
time belongs to its statement if and only if that statement is answered when the time is
taken (`exec_time_iff`), as it is when nothing else is outstanding (`alone_exec_time`).

Key definitions: `Ledger`, `Ledger.step`, `ledger`, `completions`, `Keeps`.
Key theorems: `Keeps.client`, `recorded_slots`, `exec_time_iff`.
-/
import PgShadow.Pipeline.Trace

namespace PgShadow

/-! ### The statements of a connection -/

structure Ledger where
  /-- The statements sent: the SQL, as far as it is known, and the time. -/
  sent : List (Option Bytes × ℤ) := []
  /-- When CommandCompletes came. -/
  completed : List ℤ := []
  /-- The COPY whose rows are on their way. -/
  copy : Option ℕ := none
  /-- The statement dispatched last. -/
  last : Option ℕ := none
  /-- The statement whose start was noted last. -/
  timed : Option ℕ := none
deriving DecidableEq

namespace Ledger

/-- A client's message, which asks to execute a statement or not, and the event it gave. -/
def request (l : Ledger) (ts : ℤ) (executes : Bool) (req : Request) (ev : Option SQLEvent) : Ledger :=
  match req, ev with
  | .copyDone, some _ => { l with last := l.copy, copy := none }
  | .copyDone, none => { l with copy := none }
  | .query sql, none =>
    -- a COPY, which is dispatched when its rows are complete
    { l with sent := l.sent ++ [(some sql, ts)], copy := some l.sent.length, timed := some l.sent.length }
  | _, some ev =>
    { l with sent := l.sent ++ [(some ev.sql, ts)], last := some l.sent.length, timed := some l.sent.length }
  | .copyFail, none => { l with copy := none }
  | _, none =>
    -- a statement that is not known here is answered all the same
    if executes then { l with sent := l.sent ++ [(none, ts)] } else l

def step (E : Env) (l : Ledger) : Moment → Ledger
  | .client ts msg effects =>
    l.request ts (msg.type = msgSimpleQuery ∨ msg.type = msgBind) (E.request msg) (decided effects).head?
  | .server ts msg _ => if msg.type = msgCommandComplete then { l with completed := l.completed ++ [ts] } else l
  | .close => {}

end Ledger

/-- The ledger of a connection after these moments. -/
def ledger (E : Env) (tm : List Moment) : Ledger := tm.foldl (Ledger.step E) {}

/-- The CommandCompletes of some moments, up to a close. -/
def completions : List Moment → List ℤ
  | [] => []
  | .close :: _ => []
  | .client _ _ _ :: tm => completions tm
  | .server ts msg _ :: tm => if msg.type = msgCommandComplete then ts :: completions tm else completions tm

theorem ledger_concat (E : Env) (tm : List Moment) (m : Moment) :
    ledger E (tm ++ [m]) = (ledger E tm).step E m := by
  unfold ledger
  rw [List.foldl_append]
  rfl

/-! ### What the session knows of it -/

/-- The session's slots are those of the ledger. -/
structure Keeps (s : Session) (l : Ledger) : Prop where
  last : ∀ k, l.last = some k → ∃ t, l.sent[k]? = some (some s.lastSQL, t)
  copy : ∀ b, s.copying = some b → ∃ k t, l.copy = some k ∧ l.sent[k]? = some (some b.sql, t)
  timed : ∀ t, s.inflight = some t → ∃ k x, l.timed = some k ∧ l.sent[k]? = some (x, t)

theorem getElem?_push {α : Type*} {l : List α} {k : ℕ} {x y : α} (h : l[k]? = some x) : (l ++ [y])[k]? = some x := by
  obtain ⟨hk, -⟩ := List.getElem?_eq_some_iff.mp h
  rw [List.getElem?_append_left hk, h]

namespace Keeps

variable {s s' : Session} {l : Ledger}

theorem fresh : Keeps .fresh {} where
  last _ h := by cases h
  copy _ h := by cases h
  timed _ h := by cases h

/-- A session that differs in other things. -/
theorem frame (h : Keeps s l) (hlast : s'.lastSQL = s.lastSQL)
    (hcopy : ∀ b, s'.copying = some b → s.copying = some b)
    (htimed : ∀ t, s'.inflight = some t → s.inflight = some t) : Keeps s' l where
  last k hk := by
    rw [hlast]
    exact h.last k hk
  copy b hb := h.copy b (hcopy b hb)
  timed t ht := h.timed t (htimed t ht)

/-- A statement that is not known. -/
theorem push (h : Keeps s l) (x : Option Bytes × ℤ) : Keeps s { l with sent := l.sent ++ [x] } where
  last k hk := (h.last k hk).imp fun _ => getElem?_push
  copy b hb := by
    obtain ⟨k, t, hk, hsent⟩ := h.copy b hb
    exact ⟨k, t, hk, getElem?_push hsent⟩
  timed t ht := by
    obtain ⟨k, x, hk, hsent⟩ := h.timed t ht
    exact ⟨k, x, hk, getElem?_push hsent⟩

/-- A statement that is dispatched when it is sent. -/
theorem dispatched (h : Keeps s l) {sql : Bytes} {ts : ℤ} (hlast : s'.lastSQL = sql)
    (hcopy : ∀ b, s'.copying = some b → s.copying = some b) (htimed : s'.inflight = some ts) :
    Keeps s' { l with
      sent := l.sent ++ [(some sql, ts)], last := some l.sent.length, timed := some l.sent.length } where
  last k hk := by
    obtain rfl := Option.some.inj hk
    rw [hlast]
    exact ⟨ts, List.getElem?_concat_length⟩
  copy b hb := (h.push (some sql, ts)).copy b (hcopy b hb)
  timed t ht := by
    obtain rfl := Option.some.inj (htimed.symm.trans ht)
    exact ⟨_, some sql, rfl, List.getElem?_concat_length⟩

/-- A COPY, whose rows are to come. -/
theorem copying (h : Keeps s l) (sql : Bytes) (ts : ℤ) :
    Keeps { s with copying := some { sql }, inflight := some ts }
      { l with sent := l.sent ++ [(some sql, ts)], copy := some l.sent.length, timed := some l.sent.length } where
  last k hk := (h.push (some sql, ts)).last k hk
  copy b hb := by
    obtain rfl := Option.some.inj hb
    exact ⟨_, ts, rfl, List.getElem?_concat_length⟩
  timed t ht := by
    obtain rfl := Option.some.inj ht
    exact ⟨_, some sql, rfl, List.getElem?_concat_length⟩

/-- The rows of a COPY are complete, or it is given up. -/
theorem copied (h : Keeps s l) (hlast : s'.lastSQL = s.lastSQL) (hcopy : s'.copying = none)
    (htimed : ∀ t, s'.inflight = some t → s.inflight = some t) : Keeps s' { l with copy := none } where
  last k hk := by
    rw [hlast]
    exact h.last k hk
  copy b hb := by
    rw [hcopy] at hb
    cases hb
  timed t ht := h.timed t (htimed t ht)

/-- The COPY is dispatched. -/
theorem copyDone (h : Keeps s l) {b : Copying} (hb : s.copying = some b) (hlast : s'.lastSQL = b.sql)
    (hcopy : s'.copying = none) (htimed : ∀ t, s'.inflight = some t → s.inflight = some t) :
    Keeps s' { l with last := l.copy, copy := none } where
  last k hk := by
    obtain ⟨k', t, hk', hsent⟩ := h.copy b hb
    obtain rfl := Option.some.inj (hk'.symm.trans hk)
    rw [hlast]
    exact ⟨t, hsent⟩
  copy b hb := by
    rw [hcopy] at hb
    cases hb
  timed t ht := h.timed t (htimed t ht)

/-- Rows of a COPY. -/
theorem row (h : Keeps s l) (cap : ℕ) (payload : Bytes) :
    Keeps { s with copying := s.copying.map (Session.receive cap · payload) } l where
  last := h.last
  copy b hb := by
    obtain ⟨b', hb', rfl⟩ := Option.map_eq_some_iff.mp hb
    have hsql : (Session.receive cap b' payload).sql = b'.sql := by
      unfold Session.receive
      split_ifs <;> rfl
    rw [hsql]
    exact h.copy b' hb'
  timed := h.timed

end Keeps

/-- What the session keeps of an event other than that of a COPY. -/
theorem conclude_slots (E : Env) (n : ℕ) (ts : ℤ) (s : Session) (sql : Bytes) (req : Request)
    (hreq : req ≠ .copyDone) :
    (s.conclude E n ts sql req).lastSQL = sql ∧
      (∀ b, (s.conclude E n ts sql req).copying = some b → s.copying = some b) ∧
      (s.conclude E n ts sql req).inflight = some ts := by
  have hconclude : s.conclude E n ts sql req = { s.after E n sql with inflight := some ts } := by
    cases req with
    | copyDone => exact absurd rfl hreq
    | query | prepare | execute | copyData | copyFail | refused | other => rfl
  rw [hconclude]
  refine ⟨rfl, fun b hb => ?_, rfl⟩
  change (if E.resets sql then none else s.copying) = some b at hb
  split_ifs at hb
  exact hb

/-- **A client's message** keeps the slots. -/
theorem Keeps.answer {s : Session} {l : Ledger} (h : Keeps s l) (E : Env) (c : ConnID) (ts : ℤ) (n : ℕ) (req : Request)
    (executes : Bool) : Keeps (Session.answer E c ts (s, n) req).1.1
      (l.request ts executes req ((s.eventOf E c ts req).map (s.stamp E n))) := by
  have hunknown : Keeps s (if executes then { l with sent := l.sent ++ [(none, ts)] } else l) := by
    split_ifs
    · exact h.push _
    · exact h
  rcases hev : s.eventOf E c ts req with _ | ev
  · rw [Session.answer_none hev]
    cases req with
    | query sql => exact h.copying sql ts
    | prepare name info => exact hunknown.frame rfl (fun _ hb => hb) (fun _ ht => ht)
    | execute | refused | other => exact hunknown
    | copyData payload => exact hunknown.row E.maxCopy payload
    | copyDone | copyFail => exact h.copied rfl rfl (fun _ ht => ht)
  · rw [Session.answer_event hev]
    cases req with
    | query sql =>
      obtain ⟨hlast, hcopy, htimed⟩ := conclude_slots E n ts s ev.sql (.query sql) (by intro hreq; cases hreq)
      exact h.dispatched hlast hcopy htimed
    | execute name formats values =>
      obtain ⟨hlast, hcopy, htimed⟩ := conclude_slots E n ts s ev.sql (.execute name formats values)
        (by intro hreq; cases hreq)
      exact h.dispatched hlast hcopy htimed
    | copyDone =>
      obtain ⟨b, hb, hsome⟩ := Option.bind_eq_some_iff.mp hev
      split_ifs at hsome
      obtain rfl := Option.some.inj hsome
      refine h.copyDone hb rfl rfl fun t ht => ?_
      change (if E.resets b.sql then none else s.inflight) = some t at ht
      split_ifs at ht
      exact ht
    | prepare | copyData | copyFail | refused | other => cases hev

theorem Keeps.client {s : Session} {tm : List Moment} {E : Env} (h : Keeps s (ledger E tm)) (c : ConnID) (n : ℕ)
    (msg : PGMessage) (ts : ℤ) : Keeps (Session.answer E c ts (s, n) (E.request msg)).1.1
      (ledger E (tm ++ [.client ts msg (Session.answer E c ts (s, n) (E.request msg)).2])) := by
  rw [ledger_concat, Ledger.step, decided_answer]
  have hhead : ∀ o : Option SQLEvent, o.toList.head? = o := by
    intro o
    cases o <;> rfl
  rw [hhead]
  exact h.answer E c ts n (E.request msg) _

theorem Keeps.server {s : Session} {tm : List Moment} {E : Env} (h : Keeps s (ledger E tm)) (msg : PGMessage) (ts : ℤ)
    (effects : List Effect) : Keeps (Session.note E ts s msg).1 (ledger E (tm ++ [Moment.server ts msg effects])) := by
  have hcompleted : Keeps s ((ledger E tm).step E (.server ts msg effects)) := by
    unfold Ledger.step
    dsimp only
    split_ifs
    · exact ⟨h.last, h.copy, h.timed⟩
    · exact h
  rw [ledger_concat]
  unfold Session.note Session.complete
  split_ifs
  · exact hcompleted.frame rfl (fun _ hb => hb) (fun _ ht => by cases ht)
  · exact hcompleted.frame rfl (fun _ hb => hb) (fun _ ht => by cases ht)
  · exact hcompleted

/-! ### What is recorded -/

/-- A time that a server's message makes the session record. -/
theorem execTime_of_note {E : Env} {ts : ℤ} {s : Session} {msg : PGMessage} {stmt : Bytes} {d : ℤ}
    (h : .execTime stmt d ∈ (Session.note E ts s msg).2) :
    stmt = s.lastSQL ∧ ∃ start, s.inflight = some start ∧ d = ts - start := by
  have hcomplete : ∀ s : Session, .execTime stmt d ∈ (Session.complete E s ts).2 →
      stmt = s.lastSQL ∧ ∃ start, s.inflight = some start ∧ d = ts - start := by
    intro s h
    unfold Session.complete at h
    dsimp only at h
    rcases hstart : s.inflight with _ | start
    · rw [hstart] at h
      cases h
    · rw [hstart] at h
      dsimp only at h
      unfold Env.metric at h
      split_ifs at h
      · cases h
      · obtain ⟨rfl, rfl⟩ := Effect.execTime.inj (List.mem_singleton.mp h)
        exact ⟨rfl, start, rfl, rfl⟩
      · cases h
  unfold Session.note at h
  split_ifs at h
  · exact hcomplete _ h
  · exact hcomplete _ h
  · cases h

section Run

variable {U : CaseTable} {pcfg : ProtocolConfig} {fcfg : FilterConfig} {collector : Bool} {sp : StreamProcessor}
  (hsp : newStreamProcessor U pcfg fcfg collector = .ok sp) {calls : List Call} {c : ConnID} {u v : List Moment}
  {ts : ℤ} {msg : PGMessage} {effects : List Effect} (hrun : sp.moments calls c = u ++ .server ts msg effects :: v)
  {stmt : Bytes} {d : ℤ} (hrec : .execTime stmt d ∈ effects)
include hsp hrun hrec

/-- **What is recorded** is the statement dispatched last and the time since the one started last. -/
theorem recorded_slots :
    (∀ k, (ledger sp.env u).last = some k → ∃ t, (ledger sp.env u).sent[k]? = some (some stmt, t)) ∧
      ∃ j x t, (ledger sp.env u).timed = some j ∧ (ledger sp.env u).sent[j]? = some (x, t) ∧ d = ts - t := by
  obtain ⟨s, hkeeps, rfl⟩ := moments_server (E := sp.env) (P := fun s tm => Keeps s (ledger sp.env tm))
    (fun s n tm msg ts h => h.client c n msg ts) (fun s tm msg ts h => h.server msg ts _)
    (fun s tm fromClient data h => h.frame (by cases fromClient <;> rfl) (by cases fromClient <;> exact fun _ hb => hb)
      (by cases fromClient <;> exact fun _ ht => ht))
    (fun s tm h => by rw [ledger_concat]; exact Keeps.fresh) rfl (by rw [new_session hsp]; exact Keeps.fresh) hrun
  obtain ⟨rfl, start, hstart, rfl⟩ := execTime_of_note hrec
  obtain ⟨j, x, htimed, hsent⟩ := hkeeps.timed start hstart
  exact ⟨hkeeps.last, j, x, start, htimed, hsent, rfl⟩

/-- The time of a statement that is answered while nothing else is outstanding is its own. -/
theorem alone_exec_time (hcc : msg.type = msgCommandComplete) {k : ℕ} (hlast : (ledger sp.env u).last = some k)
    (htimed : (ledger sp.env u).timed = some k) (hanswers : (ledger sp.env u).completed.length = k) :
    let l := ledger sp.env u
    let completed := l.completed ++ completions (.server ts msg effects :: v)
    ∃ start finish, l.sent[k]? = some (some stmt, start) ∧ completed[k]? = some finish ∧ d = finish - start := by
  obtain ⟨hsql, j, y, t, hj, hsent, rfl⟩ := recorded_slots hsp hrun hrec
  obtain ⟨start, hk⟩ := hsql k hlast
  obtain rfl := Option.some.inj (hj.symm.trans htimed)
  obtain ⟨-, rfl⟩ := Prod.mk.inj (Option.some.inj (hsent.symm.trans hk))
  refine ⟨t, ts, hk, ?_, rfl⟩
  rw [completions, if_pos hcc, ← hanswers]
  rw [List.getElem?_append_right (Nat.le_refl _), Nat.sub_self]
  rfl

end Run

/-- **A recorded time belongs to its statement** if and only if the statement dispatched last was
also started last and its CommandComplete comes with the message at which the time is taken; or,
where another was started after it, the one is as late as the other. -/
theorem exec_time_iff {U : CaseTable} {pcfg : ProtocolConfig} {fcfg : FilterConfig} {collector : Bool}
    {sp : StreamProcessor} (hsp : newStreamProcessor U pcfg fcfg collector = .ok sp) {calls : List Call} {c : ConnID}
    {u v : List Moment} {ts : ℤ} {msg : PGMessage} {effects : List Effect}
    (hrun : sp.moments calls c = u ++ .server ts msg effects :: v) {stmt : Bytes} {d : ℤ}
    (hrec : .execTime stmt d ∈ effects) :
    let l := ledger sp.env u
    let completed := l.completed ++ completions (.server ts msg effects :: v)
    (∃ k start finish, l.last = some k ∧ l.sent[k]? = some (some stmt, start) ∧ completed[k]? = some finish ∧
        d = finish - start) ↔
      ∃ k finish, l.last = some k ∧ completed[k]? = some finish ∧
        (l.timed = some k ∧ finish = ts ∨ ∃ j x y t t', l.timed = some j ∧ j ≠ k ∧ l.sent[k]? = some (x, t) ∧
          l.sent[j]? = some (y, t') ∧ finish - t = ts - t') := by
  obtain ⟨hlast, j, y, t', htimed, hj, rfl⟩ := recorded_slots hsp hrun hrec
  dsimp only
  constructor
  · intro ⟨k, start, finish, hk, hsent, hfinish, hd⟩
    refine ⟨k, finish, hk, hfinish, ?_⟩
    by_cases hjk : j = k
    · subst hjk
      obtain ⟨-, rfl⟩ := Prod.mk.inj (Option.some.inj (hj.symm.trans hsent))
      exact .inl ⟨htimed, by omega⟩
    · exact .inr ⟨j, _, y, start, t', htimed, hjk, hsent, hj, hd.symm⟩
  · intro ⟨k, finish, hk, hfinish, hcases⟩
    obtain ⟨start, hsent⟩ := hlast k hk
    refine ⟨k, start, finish, hk, hsent, hfinish, ?_⟩
    obtain ⟨hsame, rfl⟩ | ⟨j', x, y', t, t'', hj', hne, ht, ht', heq⟩ := hcases
    · obtain rfl := Option.some.inj (htimed.symm.trans hsame)
      obtain ⟨-, rfl⟩ := Prod.mk.inj (Option.some.inj (hj.symm.trans hsent))
      rfl
    · obtain rfl := Option.some.inj (htimed.symm.trans hj')
      obtain ⟨-, rfl⟩ := Prod.mk.inj (Option.some.inj (hj.symm.trans ht'))
      obtain ⟨-, rfl⟩ := Prod.mk.inj (Option.some.inj (hsent.symm.trans ht))
      exact heq.symm

/-- One statement after the other. -/
theorem waiting_client_timed :
    let query := fun (sql : String) (ts : ℤ) =>
      Call.onBytes someConn true (wireTyped (msgSimpleQuery, bytes sql ++ [0])) ts
    let complete := fun (ts : ℤ) =>
      Call.onBytes someConn false (wireTyped (msgCommandComplete, bytes "UPDATE 1" ++ [0])) ts
    let calls := [Call.onBytes someConn true (wireStartup [0, 3, 0, 0]) 0, query "UPDATE a SET x = 1" 1, complete 5,
      query "UPDATE b SET x = 1" 6, complete 9]
    let sp := defaultProcessor ⟨id, id⟩ {} true
    let u := (sp.moments calls someConn).take 4
    let answer := Moment.server 9 ⟨msgCommandComplete, 13, bytes "UPDATE 1" ++ [0]⟩
      [.execTime (bytes "UPDATE b SET x = 1") 3]
    sp.moments calls someConn = u ++ answer :: [] ∧
      ∃ k start finish, (ledger sp.env u).last = some k ∧
        (ledger sp.env u).sent[k]? = some (some (bytes "UPDATE b SET x = 1"), start) ∧
        ((ledger sp.env u).completed ++ completions [answer])[k]? = some finish ∧ 3 = finish - start := by
  intro query complete calls sp u answer
  have hrun : sp.moments calls someConn = u ++ answer :: [] := by decide +kernel
  exact ⟨hrun, (exec_time_iff (new_default ⟨id, id⟩ {} true) hrun List.mem_cons_self).mpr
    ⟨1, 9, by decide +kernel, by decide +kernel, .inl (by decide +kernel)⟩⟩

/-- A client that sends two statements before the answers: the second is recorded with the time
from its own start to the answer to the first. -/
theorem pipelined_statement_mistimed :
    let query := fun (sql : String) (ts : ℤ) =>
      Call.onBytes someConn true (wireTyped (msgSimpleQuery, bytes sql ++ [0])) ts
    let complete := fun (ts : ℤ) =>
      Call.onBytes someConn false (wireTyped (msgCommandComplete, bytes "UPDATE 1" ++ [0])) ts
    let calls := [Call.onBytes someConn true (wireStartup [0, 3, 0, 0]) 0, query "UPDATE a SET x = 1" 1,
      query "UPDATE b SET x = 1" 2, complete 10, complete 12]
    let sp := defaultProcessor ⟨id, id⟩ {} true
    let l := ledger sp.env (sp.moments calls someConn)
    ((sp.moments calls someConn).flatMap fun m => m.obs.effects).filter (fun
        | .execTime _ _ => true
        | _ => false) = [.execTime (bytes "UPDATE b SET x = 1") 8] ∧
      l.sent = [(some (bytes "UPDATE a SET x = 1"), 1), (some (bytes "UPDATE b SET x = 1"), 2)] ∧
      l.completed = [10, 12] ∧
      ¬∃ (k : ℕ) (start finish : ℤ), l.sent[k]? = some (some (bytes "UPDATE b SET x = 1"), start) ∧
        l.completed[k]? = some finish ∧ 8 = finish - start := by
  intro query complete calls sp l
  have hsent : l.sent = [(some (bytes "UPDATE a SET x = 1"), 1), (some (bytes "UPDATE b SET x = 1"), 2)] := by
    decide +kernel
  have hcompleted : l.completed = [10, 12] := by decide +kernel
  refine ⟨by decide +kernel, hsent, hcompleted, ?_⟩
  rw [hsent, hcompleted]
  intro ⟨k, start, finish, hk, hfinish, hd⟩
  match k with
  | 0 => exact absurd (Prod.mk.inj (Option.some.inj hk)).1 (by decide +kernel)
  | 1 =>
    obtain ⟨-, rfl⟩ := Prod.mk.inj (Option.some.inj hk)
    obtain rfl := Option.some.inj hfinish
    exact absurd hd (by decide)
  | k + 2 => cases hk

end PgShadow
