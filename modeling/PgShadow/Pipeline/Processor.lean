/-
# The stream processor

`pkg/pipeline/processor.go`: the handler that turns the ordered bytes of both
directions of every connection into filtered events on the queue.

A call of the processor returns, besides the new state, what it did to the
outside in order (`Effect`): metrics, filter decisions and enqueued events.
The time a call observes is its input. Left out are `onBytesCount` and the
debug log it guards.

Key definitions: `StreamProcessor`, `dispatch`, `handleClient`, `handleServer`,
`onBytes`, `onClose`, `step`.
-/
import PgShadow.Filter.Decide
import PgShadow.Lib.Machine
import PgShadow.Protocol.Collaborators

namespace PgShadow

/-- The framing parsers of the two directions of a connection. -/
structure ConnParsers where
  client : StreamParser
  server : StreamParser
deriving DecidableEq

structure StreamProcessor where
  cfg : ProtocolConfig
  /-- Whether there is a metrics collector. -/
  collector : Bool
  sm : StateMachine
  flt : FilterImpl
  cls : Classifier
  eb : EventBuilder
  txGen : TxIDGenerator
  binder : BindCorrelator
  copies : CopyTracker
  timer : SourceExecTimer
  parsers : GoMap ConnID ConnParsers
  seq : GoMap ConnID ℕ
  lastSQL : GoMap ConnID Bytes

/-- What a call does to the outside. -/
inductive Effect
  /-- `collector.ParseError()`. -/
  | parseError
  /-- `collector.Classified(class, kept)`, from the filter's hook. -/
  | classified (cls : StmtClass) (kept : Bool)
  /-- `collector.ExecTime(stmt, source, 0)`. -/
  | execTime (stmt : Bytes) (source : ℤ)
  /-- `flt.Decide(ev, state)`. -/
  | decide (ev : SQLEvent) (state : TxStatus)
  /-- `q.Enqueue(ev)`. -/
  | enqueue (ev : SQLEvent)
deriving DecidableEq

def newStreamProcessor (U : CaseTable) (pcfg : ProtocolConfig) (fcfg : FilterConfig) (collector : Bool) :
    Except FilterError StreamProcessor :=
  (newFilter U fcfg).map fun flt =>
    { cfg := pcfg
      collector
      sm := GoMap.empty
      flt
      cls := newClassifier U fcfg.builtinFunctions
      eb := newEventBuilder pcfg
      txGen := ⟨GoMap.empty, 0⟩
      binder := GoMap.empty
      copies := CopyTracker.newWithLimit CopyTracker.defaultMaxCopyBytes
      timer := GoMap.empty
      parsers := GoMap.empty
      seq := GoMap.empty
      lastSQL := GoMap.empty }

/-- The processor of the default filter configuration. -/
def defaultProcessor (U : CaseTable) (pcfg : ProtocolConfig) (collector : Bool) : StreamProcessor :=
  { cfg := pcfg
    collector
    sm := GoMap.empty
    flt := ⟨newClassifier U [], defaultRules, [], [], []⟩
    cls := newClassifier U []
    eb := newEventBuilder pcfg
    txGen := ⟨GoMap.empty, 0⟩
    binder := GoMap.empty
    copies := CopyTracker.newWithLimit CopyTracker.defaultMaxCopyBytes
    timer := GoMap.empty
    parsers := GoMap.empty
    seq := GoMap.empty
    lastSQL := GoMap.empty }

/-- Some connection, for runs on fixed inputs. -/
def someConn : ConnID := ⟨.zero, 50000, .zero, 5432⟩

theorem new_default (U : CaseTable) (pcfg : ProtocolConfig) (collector : Bool) :
    newStreamProcessor U pcfg {} collector = .ok (defaultProcessor U pcfg collector) := by
  have hmode : toLower U (trimSpace ({} : FilterConfig).mode) = [] := by
    simp [toLower, trimSpace, trimWords, mapRunes]
  have hrules : resolveRules U {} = .ok defaultRules := by
    unfold resolveRules
    rw [if_pos (Or.inl hmode)]
    rfl
  unfold newStreamProcessor newFilter
  rw [hrules]
  rfl

namespace StreamProcessor

/-- A call to the metrics collector, if there is one. -/
def metric (sp : StreamProcessor) (e : Effect) : List Effect := if sp.collector then [e] else []

/-- Clear the protocol state that a pooler's next session must not see. -/
def resetPoolerSession (sp : StreamProcessor) (conn : ConnID) : StreamProcessor :=
  { sp with
    binder := sp.binder.forget conn
    copies := sp.copies.discard conn
    txGen := sp.txGen.reset conn
    timer := sp.timer.forget conn }

/-- The session-reset commands of poolers. -/
def isPoolerResetQuery (U : CaseTable) (sql : Bytes) : Bool :=
  if sql.length < 9 then false
  else
    let upper := toUpper U (trimSpace sql)
    upper == bytes "DISCARD ALL" || upper == bytes "RESET ALL" || upper == bytes "DEALLOCATE ALL" ||
      (bytes "DISCARD ALL;").isPrefixOf upper || (bytes "RESET ALL;").isPrefixOf upper ||
      (bytes "DEALLOCATE ALL;").isPrefixOf upper

/-- A new transaction group begins on BEGIN, or on the first DML, DDL or COPY
while none is active. -/
def groupTx (sp : StreamProcessor) (conn : ConnID) (cls : StmtClass) : StreamProcessor :=
  if cls = .begin then { sp with txGen := sp.txGen.advance conn }
  else if sp.txGen.currentOf conn = 0 ∧ (cls = .dml ∨ cls = .ddl ∨ cls = .copyFrom) then
    { sp with txGen := sp.txGen.advance conn }
  else sp

/-- Stamp the event with its transaction id and sequence number, let the filter
decide on it, and advance the transaction state. -/
def dispatch (sp : StreamProcessor) (conn : ConnID) (ev : SQLEvent) : StreamProcessor × List Effect :=
  let cls := sp.cls.classify ev.sql
  let sp := sp.groupTx conn cls
  let ev := { ev with txID := sp.txGen.currentOf conn, seq := (sp.seq conn).getD 0 + 1 }
  let sp := { sp with seq := sp.seq.set conn ev.seq, lastSQL := sp.lastSQL.set conn ev.sql }
  let state := sp.sm.state conn
  let decision := sp.flt.decide ev state
  let effects := .decide ev state :: sp.metric (.classified decision.2 (decision.1 = .keep)) ++
    if decision.1 = .keep then [.enqueue ev] else []
  let sp := { sp with sm := sp.sm.onStatement conn cls }
  let sp := if cls = .commitRollback then { sp with txGen := sp.txGen.reset conn } else sp
  let sp :=
    if sp.cfg.connectionPooler ∧ cls = .utility ∧ isPoolerResetQuery sp.cls.unicode ev.sql then
      sp.resetPoolerSession conn
    else sp
  (sp, effects)

/-- `eb.Build`, with its parse-error hook. -/
def build (sp : StreamProcessor) (conn : ConnID) (msg : PGMessage) (ts : ℤ) :
    StreamProcessor × Option SQLEvent × List Effect :=
  let r := sp.eb.build conn msg ts
  ({ sp with eb := r.1 }, r.2.event, if r.2.parseError then sp.metric .parseError else [])

/-- The execution that the backend now runs starts at `ts`. -/
def startTimer (sp : StreamProcessor) (conn : ConnID) (ts : ℤ) : StreamProcessor :=
  { sp with timer := sp.timer.onClientQuery conn ts }

/-- Route one client message. -/
def handleClient (sp : StreamProcessor) (conn : ConnID) (msg : PGMessage) (ts : ℤ) :
    StreamProcessor × List Effect :=
  if msg.type = startupMsgType ∧ 4 ≤ msg.payload.length ∧ uint32 msg.payload = cancelRequestCode then (sp, [])
  else if msg.type = msgParse then
    match sp.build conn msg ts with
    | (sp, some ev, effects) =>
      ({ sp with binder := sp.binder.onParse conn ev.stmtName ev.sql (ev.params.map (·.oid)) }, effects)
    | (sp, none, effects) => (sp, effects)
  else if msg.type = msgBind then
    match sp.binder.onBind conn msg.payload with
    | some res =>
      let ev : SQLEvent :=
        { conn, sql := res.sql, stmtName := res.stmtName, params := res.params, extended := true, timestamp := ts }
      let r := sp.dispatch conn ev
      (r.1.startTimer conn ts, r.2)
    | none => (sp, sp.metric .parseError)
  else if msg.type = msgCopyData then ({ sp with copies := sp.copies.data conn msg.payload }, [])
  else if msg.type = msgCopyDone then
    let r := sp.copies.done conn
    let sp := { sp with copies := r.1 }
    match r.2 with
    | some buf => sp.dispatch conn { conn, sql := buf.sql, copyData := buf.data, timestamp := ts }
    | none => (sp, [])
  else if msg.type = msgCopyFail then ({ sp with copies := sp.copies.fail conn }, [])
  else
    match sp.build conn msg ts with
    | (sp, none, effects) => (sp, effects)
    | (sp, some ev, effects) =>
      if sp.cls.classify ev.sql = .copyFrom then
        -- the event is deferred to CopyDone
        (startTimer { sp with copies := sp.copies.start conn ev.sql } conn ts, effects)
      else
        let r := sp.dispatch conn ev
        (r.1.startTimer conn ts, effects ++ r.2)

/-- Record the execution time of the statement that just completed. -/
def recordExec (sp : StreamProcessor) (conn : ConnID) (ts : ℤ) : StreamProcessor × List Effect :=
  let r := sp.timer.onBackendComplete conn ts
  let sp := { sp with timer := r.1 }
  match r.2 with
  | some d => (sp, if d ≤ 0 then [] else sp.metric (.execTime ((sp.lastSQL conn).getD []) d))
  | none => (sp, [])

/-- Route one server message. -/
def handleServer (sp : StreamProcessor) (conn : ConnID) (msg : PGMessage) (ts : ℤ) :
    StreamProcessor × List Effect :=
  if msg.type = msgReadyForQuery then
    match extractReadyForQuery msg with
    | some status => recordExec { sp with sm := sp.sm.onReadyForQuery conn status } conn ts
    | none => sp.recordExec conn ts
  else if msg.type = msgCommandComplete then sp.recordExec conn ts
  else (sp, [])

/-- Route one message of either direction. -/
def handle (sp : StreamProcessor) (conn : ConnID) (fromClient : Bool) (ts : ℤ) (msg : PGMessage) :
    StreamProcessor × List Effect :=
  if fromClient then sp.handleClient conn msg ts else sp.handleServer conn msg ts

/-- The parsers of the connection, fresh on first use. -/
def parsersFor (sp : StreamProcessor) (conn : ConnID) : ConnParsers :=
  (sp.parsers conn).getD ⟨newParser true, newParser false⟩

/-- What a call did: the messages it handled, each with what came of it, and
the framing error. -/
structure Report where
  handled : List (PGMessage × List Effect) := []
  err : Option FrameError := none
  /-- The metrics call for the framing error. -/
  errEffects : List Effect := []

/-- Everything the call did to the outside, in order. -/
def Report.effects (r : Report) : List Effect := r.errEffects ++ r.handled.flatMap (·.2)

/-- Frame the bytes of one direction and handle each message. -/
def onBytes (sp : StreamProcessor) (conn : ConnID) (fromClient : Bool) (data : Bytes) (ts : ℤ) :
    StreamProcessor × Report :=
  let cp := sp.parsersFor conn
  let r := (if fromClient then cp.client else cp.server).feed data
  let cp := if fromClient then { cp with client := r.1 } else { cp with server := r.1 }
  let sp := { sp with parsers := sp.parsers.set conn cp }
  let errEffects := if r.2.2.isSome then sp.metric .parseError else []
  let handler := fun sp msg => handle sp conn fromClient ts msg
  (Machine.final handler sp r.2.1,
    { handled := r.2.1.zip (Machine.outs handler sp r.2.1), err := r.2.2, errEffects })

/-- Release all state of the connection, except the event builder's. -/
def onClose (sp : StreamProcessor) (conn : ConnID) : StreamProcessor :=
  { sp with
    sm := sp.sm.forget conn
    binder := sp.binder.forget conn
    copies := sp.copies.discard conn
    timer := sp.timer.forget conn
    txGen := sp.txGen.reset conn
    parsers := sp.parsers.erase conn
    seq := sp.seq.erase conn
    lastSQL := sp.lastSQL.erase conn }

end StreamProcessor

/-- A callback of the processor; `ts` is the time it observes. -/
inductive Call
  | onBytes (conn : ConnID) (fromClient : Bool) (data : Bytes) (ts : ℤ)
  | onClose (conn : ConnID)
deriving DecidableEq

/-- The connection of a call. -/
def Call.conn : Call → ConnID
  | .onBytes conn _ _ _ => conn
  | .onClose conn => conn

/-- One callback. -/
def StreamProcessor.step (sp : StreamProcessor) : Call → StreamProcessor × StreamProcessor.Report
  | .onBytes conn fromClient data ts => sp.onBytes conn fromClient data ts
  | .onClose conn => (sp.onClose conn, {})

end PgShadow
