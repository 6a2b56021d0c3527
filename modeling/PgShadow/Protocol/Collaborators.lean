/-
# The stateful collaborators of the parser

The components of `pkg/protocol` that keep a map from connections to some
state: the event builder (`eventbuilder.go`), the Bind correlator
(`bindcorrelator.go`), the COPY tracker (`copybuffer.go`), the transaction id
generator (`txid.go`) and the source execution timer (`sourceexectimer.go`).

The event builder's `txGen` and `binder` are never set by the pipeline and are
left out; its `copyState` is made and never written.

Key definitions: `EventBuilder.build`, `BindCorrelator.onBind`,
`CopyTracker.data`, `TxIDGenerator.advance`.
-/
import PgShadow.Protocol.Messages

namespace PgShadow

/-- The parser configuration. -/
structure ProtocolConfig where
  maxSQLLength : ℤ := 0
  extendedQuery : Bool := true
  connectionPooler : Bool := false

/-- The configured maximum, or 1 MiB. -/
def effectiveMaxSQLLength (cfg : ProtocolConfig) : ℤ :=
  if 0 < cfg.maxSQLLength then cfg.maxSQLLength else 1048576

/-- The SQL is longer than the effective maximum. -/
def oversized (cfg : ProtocolConfig) (sql : Bytes) : Bool :=
  let max := effectiveMaxSQLLength cfg
  if max ≤ 0 then false else max < sql.length

/-- An in-progress COPY: its statement and the payloads so far. -/
structure CopyBuffer where
  sql : Bytes
  data : List Bytes
deriving DecidableEq

/-! ### EventBuilder -/

structure EventBuilder where
  cfg : ProtocolConfig
  seq : GoMap ConnID ℕ
  copyState : GoMap ConnID CopyBuffer

def newEventBuilder (cfg : ProtocolConfig) : EventBuilder := ⟨cfg, GoMap.empty, GoMap.empty⟩

/-- Build the event with the connection's next sequence number. -/
def EventBuilder.emit (b : EventBuilder) (conn : ConnID) (ts : ℤ) (sql stmtName : Bytes) (extended : Bool)
    (oids : List ℕ) : EventBuilder × SQLEvent :=
  let seq := (b.seq conn).getD 0 + 1
  ({ b with seq := b.seq.set conn seq },
    { conn, sql, timestamp := ts, seq, extended, stmtName, params := oids.map fun oid => { oid } })

/-- What `Build` returns: the event, if the message carries SQL, and whether
the parse-error hook was called. -/
structure Built where
  event : Option SQLEvent
  parseError : Bool

/-- Extract an event from a client message. -/
def EventBuilder.build (b : EventBuilder) (conn : ConnID) (msg : PGMessage) (ts : ℤ) : EventBuilder × Built :=
  if msg.type = msgSimpleQuery then
    let sql := extractSimpleQuerySQL msg.payload
    if oversized b.cfg sql then (b, ⟨none, true⟩)
    else
      let r := b.emit conn ts sql [] false []
      (r.1, ⟨some r.2, false⟩)
  else if msg.type = msgParse then
    if !b.cfg.extendedQuery then (b, ⟨none, false⟩)
    else
      match parseParseMessage msg.payload with
      | none => (b, ⟨none, true⟩)
      | some (stmtName, sql, oids) =>
        if oversized b.cfg sql then (b, ⟨none, true⟩)
        else
          let r := b.emit conn ts sql stmtName true oids
          (r.1, ⟨some r.2, false⟩)
  else (b, ⟨none, false⟩)

/-! ### BindCorrelator -/

/-- What a Parse declared. -/
structure ParseInfo where
  sql : Bytes
  paramOIDs : List ℕ
deriving DecidableEq

/-- The prepared statements of each connection, by name. -/
abbrev BindCorrelator := GoMap ConnID (GoMap Bytes ParseInfo)

structure BindResult where
  stmtName : Bytes
  sql : Bytes
  params : List ParamInfo

namespace BindCorrelator

def onParse (c : BindCorrelator) (conn : ConnID) (stmtName sql : Bytes) (paramOIDs : List ℕ) : BindCorrelator :=
  c.set conn (((c conn).getD GoMap.empty).set stmtName ⟨sql, paramOIDs⟩)

/-- The statement a Bind names with the values it supplies, if the payload
decodes and the name is known on the connection. -/
def onBind (c : BindCorrelator) (conn : ConnID) (payload : Bytes) : Option BindResult := do
  let (srcStmt, formats, values) ← parseBindMessage payload
  let stmts ← c conn
  let info ← stmts srcStmt
  return ⟨srcStmt, info.sql, zipParams info.paramOIDs formats values⟩

def forget (c : BindCorrelator) (conn : ConnID) : BindCorrelator := c.erase conn

end BindCorrelator

/-! ### CopyTracker -/

structure CopyTracker where
  active : GoMap ConnID CopyBuffer
  sizes : GoMap ConnID ℕ
  overflow : GoMap ConnID Bool
  maxBytes : ℕ

namespace CopyTracker

/-- 256 MiB. -/
def defaultMaxCopyBytes : ℕ := 268435456

def newWithLimit (maxBytes : ℤ) : CopyTracker :=
  ⟨GoMap.empty, GoMap.empty, GoMap.empty, if maxBytes ≤ 0 then defaultMaxCopyBytes else maxBytes.toNat⟩

/-- Remove all state of the connection. -/
def clear (t : CopyTracker) (conn : ConnID) : CopyTracker :=
  { t with active := t.active.erase conn, sizes := t.sizes.erase conn, overflow := t.overflow.erase conn }

/-- Enter COPY mode; an unfinished COPY is superseded. -/
def start (t : CopyTracker) (conn : ConnID) (sql : Bytes) : CopyTracker :=
  let t := t.clear conn
  { t with active := t.active.set conn ⟨sql, []⟩ }

/-- Append a payload to the active COPY, unless it would breach the cap. -/
def data (t : CopyTracker) (conn : ConnID) (payload : Bytes) : CopyTracker :=
  match t.active conn with
  | none => t
  | some buf =>
    if (t.overflow conn).getD false then t
    else if t.maxBytes < (t.sizes conn).getD 0 + payload.length then
      { t with
        overflow := t.overflow.set conn true
        active := t.active.set conn { buf with data := [] }
        sizes := t.sizes.set conn 0 }
    else
      { t with
        active := t.active.set conn { buf with data := buf.data ++ [payload] }
        sizes := t.sizes.set conn ((t.sizes conn).getD 0 + payload.length) }

/-- Finish the active COPY: its statement and data, unless it overflowed. -/
def done (t : CopyTracker) (conn : ConnID) : CopyTracker × Option CopyBuffer :=
  (t.clear conn, if (t.overflow conn).getD false then none else t.active conn)

def fail (t : CopyTracker) (conn : ConnID) : CopyTracker := t.clear conn

def discard (t : CopyTracker) (conn : ConnID) : CopyTracker := t.clear conn

end CopyTracker

/-! ### TxIDGenerator -/

structure TxIDGenerator where
  current : GoMap ConnID ℕ
  counter : ℕ

namespace TxIDGenerator

/-- The id of the connection's transaction group, 0 when there is none. -/
def currentOf (g : TxIDGenerator) (conn : ConnID) : ℕ := (g.current conn).getD 0

/-- Allocate the next id for the connection. -/
def advance (g : TxIDGenerator) (conn : ConnID) : TxIDGenerator :=
  ⟨g.current.set conn (g.counter + 1), g.counter + 1⟩

def reset (g : TxIDGenerator) (conn : ConnID) : TxIDGenerator := { g with current := g.current.erase conn }

end TxIDGenerator

/-! ### SourceExecTimer -/

/-- The start of the statement in flight on each connection. -/
abbrev SourceExecTimer := GoMap ConnID ℤ

namespace SourceExecTimer

def onClientQuery (t : SourceExecTimer) (conn : ConnID) (ts : ℤ) : SourceExecTimer := t.set conn ts

/-- The time since the pending start, which is cleared. -/
def onBackendComplete (t : SourceExecTimer) (conn : ConnID) (ts : ℤ) : SourceExecTimer × Option ℤ :=
  match t conn with
  | none => (t, none)
  | some start => (t.erase conn, some (ts - start))

def forget (t : SourceExecTimer) (conn : ConnID) : SourceExecTimer := t.erase conn

end SourceExecTimer

end PgShadow
