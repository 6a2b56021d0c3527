/-
# The session of one connection

What the processor is for, said for one connection at a time: a `Session` holds
what has been observed on the connection, a client message is a `Request`, and
a session answers it with metrics, filter decisions and enqueued events. The
sessions of a processor share its configuration (`Env`) and the counter that
transaction ids are drawn from, and nothing else.

Key definitions: `Env`, `Session`, `Request`, `Session.eventOf`,
`Session.answer`, `Session.note`, `Session.step`.
-/
import PgShadow.Pipeline.Processor

namespace PgShadow

/-- What a processor is configured with. -/
structure Env where
  cfg : ProtocolConfig
  /-- The event builder's configuration. -/
  build : ProtocolConfig
  collector : Bool
  flt : FilterImpl
  cls : Classifier
  /-- The cap on buffered COPY data. -/
  maxCopy : ℕ

/-- A COPY whose rows are being received. -/
structure Copying where
  sql : Bytes
  data : List Bytes := []
  size : ℕ := 0
  overflow : Bool := false

/-- What is known of one connection. -/
structure Session where
  client : StreamParser
  server : StreamParser
  status : TxStatus
  /-- The id of the current transaction group, 0 when there is none. -/
  tx : ℕ
  /-- The sequence number of the last event. -/
  seq : ℕ
  lastSQL : Bytes
  stmts : GoMap Bytes ParseInfo
  copying : Option Copying
  /-- When the statement in flight was sent. -/
  inflight : Option ℤ

/-- A connection nothing is known of. -/
def Session.fresh : Session :=
  ⟨newParser true, newParser false, .idle, 0, 0, [], GoMap.empty, none, none⟩

/-! ### Requests -/

/-- What a client message asks for. -/
inductive Request
  /-- A Simple_Query. -/
  | query (sql : Bytes)
  /-- A Parse. -/
  | prepare (name : Bytes) (info : ParseInfo)
  /-- A Bind. -/
  | execute (name : Bytes) (formats : List ℤ) (values : List (Option Bytes))
  | copyData (payload : Bytes)
  | copyDone
  | copyFail
  /-- Malformed or oversized: it is counted and skipped. -/
  | refused
  /-- Of no interest. -/
  | other

namespace Env

variable (E : Env)

def request (msg : PGMessage) : Request :=
  if msg.type = msgSimpleQuery then
    let sql := extractSimpleQuerySQL msg.payload
    if oversized E.build sql then .refused else .query sql
  else if msg.type = msgParse then
    if !E.build.extendedQuery then .other
    else
      match parseParseMessage msg.payload with
      | none => .refused
      | some (name, sql, oids) => if oversized E.build sql then .refused else .prepare name ⟨sql, oids⟩
  else if msg.type = msgBind then
    match parseBindMessage msg.payload with
    | none => .refused
    | some (name, formats, values) => .execute name formats values
  else if msg.type = msgCopyData then .copyData msg.payload
  else if msg.type = msgCopyDone then .copyDone
  else if msg.type = msgCopyFail then .copyFail
  else .other

/-- What a request says of its message. -/
def Fits (msg : PGMessage) : Request → Prop
  | .query sql =>
    msg.type = msgSimpleQuery ∧ sql = extractSimpleQuerySQL msg.payload ∧ oversized E.build sql = false
  | .prepare name info =>
    msg.type = msgParse ∧ parseParseMessage msg.payload = some (name, info.sql, info.paramOIDs)
  | .execute name formats values =>
    msg.type = msgBind ∧ parseBindMessage msg.payload = some (name, formats, values)
  | .copyData payload => msg.type = msgCopyData ∧ payload = msg.payload
  | .copyDone => msg.type = msgCopyDone
  | .copyFail => msg.type = msgCopyFail
  | .refused => msg.type = msgSimpleQuery ∨ msg.type = msgParse ∨ msg.type = msgBind
  | .other =>
    msg.type ≠ msgSimpleQuery ∧ msg.type ≠ msgBind ∧ msg.type ≠ msgCopyData ∧ msg.type ≠ msgCopyDone ∧
      msg.type ≠ msgCopyFail

theorem request_fits (msg : PGMessage) : E.Fits msg (E.request msg) := by
  unfold request
  by_cases hQ : msg.type = msgSimpleQuery
  · rw [if_pos hQ]
    by_cases hov : oversized E.build (extractSimpleQuerySQL msg.payload) = true
    · simp only [hov, if_true]
      exact Or.inl hQ
    · simp only [hov]
      exact ⟨hQ, rfl, by simpa using hov⟩
  rw [if_neg hQ]
  by_cases hP : msg.type = msgParse
  · rw [if_pos hP]
    by_cases hx : E.build.extendedQuery = true
    · rw [if_neg (by simp [hx])]
      cases hm : parseParseMessage msg.payload with
      | none => exact Or.inr (Or.inl hP)
      | some p =>
        by_cases hov : oversized E.build p.2.1 = true
        · simp only [hov, if_true]
          exact Or.inr (Or.inl hP)
        · simp only [hov]
          exact ⟨hP, hm⟩
    · rw [if_pos (by simp [hx])]
      simp only [Fits, hP]
      decide
  rw [if_neg hP]
  by_cases hB : msg.type = msgBind
  · rw [if_pos hB]
    cases hm : parseBindMessage msg.payload with
    | none => exact Or.inr (Or.inr hB)
    | some p => exact ⟨hB, hm⟩
  rw [if_neg hB]
  by_cases hd : msg.type = msgCopyData
  · rw [if_pos hd]
    exact ⟨hd, rfl⟩
  rw [if_neg hd]
  by_cases hc : msg.type = msgCopyDone
  · rw [if_pos hc]
    exact hc
  rw [if_neg hc]
  by_cases hf : msg.type = msgCopyFail
  · rw [if_pos hf]
    exact hf
  · rw [if_neg hf]
    exact ⟨hQ, hB, hd, hc, hf⟩

/-- A call to the metrics collector, if there is one. -/
def metric (e : Effect) : List Effect := if E.collector then [e] else []

/-- The statement ends a pooler's session. -/
def resets (sql : Bytes) : Bool :=
  decide (E.cfg.connectionPooler ∧ E.cls.classify sql = .utility ∧
    StreamProcessor.isPoolerResetQuery E.cls.unicode sql)

/-- The filter's decision on an event, as it shows outside. -/
def judge (ev : SQLEvent) (state : TxStatus) : List Effect :=
  let d := E.flt.decide ev state
  .decide ev state :: E.metric (.classified d.2 (d.1 = .keep)) ++ if d.1 = .keep then [.enqueue ev] else []

end Env

/-! ### The steps of a session -/

namespace Session

/-- The statement begins a transaction group. -/
def groups (s : Session) (cls : StmtClass) : Bool :=
  decide (cls = .begin ∨ s.tx = 0 ∧ (cls = .dml ∨ cls = .ddl ∨ cls = .copyFrom))

/-- The transaction id of a statement, when `n` ids were drawn before it. -/
def txFor (s : Session) (n : ℕ) (cls : StmtClass) : ℕ := if s.groups cls then n + 1 else s.tx

/-- The event as the filter sees it. -/
def stamp (E : Env) (n : ℕ) (s : Session) (ev : SQLEvent) : SQLEvent :=
  { ev with txID := s.txFor n (E.cls.classify ev.sql), seq := s.seq + 1 }

/-- The session after the event of a statement. -/
def after (E : Env) (n : ℕ) (s : Session) (sql : Bytes) : Session :=
  let cls := E.cls.classify sql
  { s with
    status := if cls = .begin then .inTx else if cls = .commitRollback then .idle else s.status
    tx := if cls = .commitRollback ∨ E.resets sql then 0 else s.txFor n cls
    seq := s.seq + 1
    lastSQL := sql
    stmts := if E.resets sql then GoMap.empty else s.stmts
    copying := if E.resets sql then none else s.copying
    inflight := if E.resets sql then none else s.inflight }

/-- The rows of a COPY, dropped for good once they exceed the cap. -/
def receive (cap : ℕ) (b : Copying) (payload : Bytes) : Copying :=
  if b.overflow then b
  else if cap < b.size + payload.length then { b with overflow := true, data := [], size := 0 }
  else { b with data := b.data ++ [payload], size := b.size + payload.length }

/-- A row that keeps the COPY within the cap is appended. -/
theorem receive_within {cap : ℕ} {b : Copying} {payload : Bytes}
    (h : (receive cap b payload).overflow = false) :
    b.overflow = false ∧ (receive cap b payload).sql = b.sql ∧
      (receive cap b payload).data = b.data ++ [payload] := by
  unfold receive at *
  by_cases ho : b.overflow = true
  · rw [if_pos ho, ho] at h
    cases h
  · by_cases hm : cap < b.size + payload.length
    · rw [if_neg ho, if_pos hm] at h
      cases h
    · rw [if_neg ho, if_neg hm]
      exact ⟨by simpa using ho, rfl, rfl⟩

/-- The event a request gives rise to: a query other than a COPY, the execution
of a known statement, the end of a COPY. -/
def eventOf (E : Env) (c : ConnID) (ts : ℤ) (s : Session) : Request → Option SQLEvent
  | .query sql => if E.cls.classify sql = .copyFrom then none else some { conn := c, sql, timestamp := ts }
  | .execute name formats values =>
    (s.stmts name).map fun info =>
      { conn := c, sql := info.sql, stmtName := name, params := zipParams info.paramOIDs formats values
        extended := true, timestamp := ts }
  | .copyDone =>
    s.copying.bind fun b =>
      if b.overflow then none else some { conn := c, sql := b.sql, copyData := b.data, timestamp := ts }
  | _ => none

/-- The session after a request that gave an event of `sql`. -/
def conclude (E : Env) (n : ℕ) (ts : ℤ) (s : Session) (sql : Bytes) : Request → Session
  | .copyDone => { s.after E n sql with copying := none }
  | _ => { s.after E n sql with inflight := some ts }

theorem conclude_tx (E : Env) (n : ℕ) (ts : ℤ) (s : Session) (sql : Bytes) (req : Request) :
    (s.conclude E n ts sql req).tx =
      if E.cls.classify sql = .commitRollback ∨ E.resets sql then 0 else s.txFor n (E.cls.classify sql) := by
  cases req <;> rfl

theorem conclude_status (E : Env) (n : ℕ) (ts : ℤ) (s : Session) (sql : Bytes) (req : Request) :
    (s.conclude E n ts sql req).status = if E.cls.classify sql = .begin then .inTx
      else if E.cls.classify sql = .commitRollback then .idle else s.status := by
  cases req <;> rfl

/-- The session after a request that gave none. -/
def absorb (E : Env) (ts : ℤ) (s : Session) : Request → Session
  | .query sql => { s with copying := some { sql }, inflight := some ts }
  | .prepare name info => { s with stmts := s.stmts.set name info }
  | .copyData payload => { s with copying := s.copying.map (receive E.maxCopy · payload) }
  | .copyDone | .copyFail => { s with copying := none }
  | .execute _ _ _ | .refused | .other => s

/-- What shows of a request that gave no event. -/
def complaint (E : Env) : Request → List Effect
  | .execute _ _ _ | .refused => E.metric .parseError
  | _ => []

/-- Answer a client's request, when `l.2` transaction ids were drawn before it. -/
def answer (E : Env) (c : ConnID) (ts : ℤ) (l : Session × ℕ) (req : Request) : (Session × ℕ) × List Effect :=
  match l.1.eventOf E c ts req with
  | some ev =>
    ((l.1.conclude E l.2 ts ev.sql req, if l.1.groups (E.cls.classify ev.sql) then l.2 + 1 else l.2),
      E.judge (l.1.stamp E l.2 ev) l.1.status)
  | none => ((l.1.absorb E ts req, l.2), complaint E req)

theorem answer_event {E : Env} {c : ConnID} {ts : ℤ} {l : Session × ℕ} {req : Request} {ev : SQLEvent}
    (h : l.1.eventOf E c ts req = some ev) : answer E c ts l req =
      ((l.1.conclude E l.2 ts ev.sql req, if l.1.groups (E.cls.classify ev.sql) then l.2 + 1 else l.2),
        E.judge (l.1.stamp E l.2 ev) l.1.status) := by
  unfold answer
  rw [h]

theorem answer_none {E : Env} {c : ConnID} {ts : ℤ} {l : Session × ℕ} {req : Request}
    (h : l.1.eventOf E c ts req = none) :
    answer E c ts l req = ((l.1.absorb E ts req, l.2), complaint E req) := by
  unfold answer
  rw [h]

/-- The backend finished the statement in flight. -/
def complete (E : Env) (s : Session) (ts : ℤ) : Session × List Effect :=
  ({ s with inflight := none },
    match s.inflight with
    | some start => if ts - start ≤ 0 then [] else E.metric (.execTime s.lastSQL (ts - start))
    | none => [])

/-- Take note of a server's message. -/
def note (E : Env) (ts : ℤ) (s : Session) (msg : PGMessage) : Session × List Effect :=
  if msg.type = msgReadyForQuery then
    complete E { s with status := (msg.payload.head?.bind StateMachine.statusOf).getD s.status } ts
  else if msg.type = msgCommandComplete then complete E s ts
  else (s, [])

/-- A server's message changes nothing but the status and the time in flight. -/
theorem note_frame (E : Env) (ts : ℤ) (s : Session) (msg : PGMessage) :
    ∃ status inflight, (note E ts s msg).1 = { s with status, inflight } := by
  unfold note
  by_cases hZ : msg.type = msgReadyForQuery
  · rw [if_pos hZ]
    exact ⟨_, _, rfl⟩
  · by_cases hC : msg.type = msgCommandComplete
    · rw [if_neg hZ, if_pos hC]
      exact ⟨_, _, rfl⟩
    · rw [if_neg hZ, if_neg hC]
      exact ⟨_, _, rfl⟩

/-- A message of either direction. -/
def message (E : Env) (c : ConnID) (fromClient : Bool) (ts : ℤ) (l : Session × ℕ) (msg : PGMessage) :
    (Session × ℕ) × List Effect :=
  if fromClient then answer E c ts l (E.request msg)
  else (((note E ts l.1 msg).1, l.2), (note E ts l.1 msg).2)

/-- The parser of a direction. -/
def parser (s : Session) (fromClient : Bool) : StreamParser := if fromClient then s.client else s.server

/-- The session once a parser has taken the bytes. -/
def fed (s : Session) (fromClient : Bool) (data : Bytes) : Session :=
  if fromClient then { s with client := (s.client.feed data).1 } else { s with server := (s.server.feed data).1 }

/-- What a parser makes of the bytes. -/
def framed (s : Session) (fromClient : Bool) (data : Bytes) : List PGMessage × Option FrameError :=
  ((s.parser fromClient).feed data).2

/-- A callback of the session's connection. -/
def step (r : Env × ℕ) (s : Session) : Call → (Session × (Env × ℕ)) × StreamProcessor.Report
  | .onBytes c fromClient data ts =>
    let f := s.framed fromClient data
    let h := message r.1 c fromClient ts
    let l := Machine.final h (s.fed fromClient data, r.2) f.1
    ((l.1, (r.1, l.2)),
      { handled := f.1.zip (Machine.outs h (s.fed fromClient data, r.2) f.1)
        err := f.2
        errEffects := if f.2.isSome then r.1.metric .parseError else [] })
  | .onClose _ => ((fresh, r), {})

end Session

end PgShadow
