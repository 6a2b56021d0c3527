/-
# The payloads of client and server messages

The decoders of `pkg/protocol` that read one message's payload: the SQL of a
Simple_Query, a Parse and a Bind (`eventbuilder.go`, `bindcorrelator.go`), and
the status byte of a ReadyForQuery (`readyforquery.go`).

Key definitions: `extractSimpleQuerySQL`, `parseParseMessage`,
`parseBindMessage`, `zipParams`, `extractReadyForQuery`.
-/
import PgShadow.Protocol.Framing

namespace PgShadow

def msgSimpleQuery : UInt8 := chr 'Q'
def msgParse : UInt8 := chr 'P'
def msgBind : UInt8 := chr 'B'
def msgCopyData : UInt8 := chr 'd'
def msgCopyDone : UInt8 := chr 'c'
def msgCopyFail : UInt8 := chr 'f'
def msgCommandComplete : UInt8 := chr 'C'
def msgReadyForQuery : UInt8 := chr 'Z'

/-- The text up to the first NUL and what follows it. -/
def readCString (buf : Bytes) : Option (Bytes × Bytes) :=
  match buf.dropWhile (· != 0) with
  | [] => none
  | _ :: rest => some (buf.takeWhile (· != 0), rest)

/-- An unsigned 16-bit count. -/
def readInt16 (buf : Bytes) : Option (ℕ × Bytes) :=
  if buf.length < 2 then none else some (BigEndian.ofBytes (buf.take 2), buf.drop 2)

/-- The two's complement reading of a `w`-bit word. -/
def signed (w n : ℕ) : ℤ := if n < 2 ^ (w - 1) then n else (n : ℤ) - 2 ^ w

/-- A signed 32-bit length. -/
def readInt32 (buf : Bytes) : Option (ℤ × Bytes) :=
  if buf.length < 4 then none else some (signed 32 (uint32 buf), buf.drop 4)

/-- The payload without one trailing NUL. -/
def extractSimpleQuerySQL (payload : Bytes) : Bytes :=
  if payload.getLast? = some 0 then payload.dropLast else payload

/-- As many of `n` parameter OIDs as are there. -/
def readOIDs : ℕ → Bytes → List ℕ
  | 0, _ => []
  | n + 1, rest => if 4 ≤ rest.length then uint32 rest :: readOIDs n (rest.drop 4) else []

/-- The statement name, SQL and parameter OIDs of a Parse payload. -/
def parseParseMessage (payload : Bytes) : Option (Bytes × Bytes × List ℕ) :=
  match readCString payload with
  | none => none
  | some (stmtName, rest) =>
    match readCString rest with
    | none => none
    | some (sql, rest) =>
      match readInt16 rest with
      | none => some (stmtName, sql, [])
      | some (n, rest) => some (stmtName, sql, readOIDs n rest)

/-- `n` format codes. -/
def readFormats : ℕ → Bytes → Option (List ℤ × Bytes)
  | 0, p => some ([], p)
  | n + 1, p => do
    let (fc, p) ← readInt16 p
    let (fs, p) ← readFormats n p
    return (signed 16 fc :: fs, p)

/-- `n` parameter values; a negative length is NULL. -/
def readValues : ℕ → Bytes → Option (List (Option Bytes) × Bytes)
  | 0, p => some ([], p)
  | n + 1, p => do
    let (length, p) ← readInt32 p
    if length < 0 then
      let (vs, p) ← readValues n p
      return (none :: vs, p)
    else if (p.length : ℤ) < length then none
    else
      let (vs, q) ← readValues n (p.drop length.toNat)
      return (some (p.take length.toNat) :: vs, q)

/-- The source statement, format codes and values of a Bind payload. -/
def parseBindMessage (payload : Bytes) : Option (Bytes × List ℤ × List (Option Bytes)) := do
  let (_, p) ← readCString payload
  let (srcStmt, p) ← readCString p
  let (formatCount, p) ← readInt16 p
  let (formats, p) ← readFormats formatCount p
  let (valueCount, p) ← readInt16 p
  if 10000 < valueCount then none
  else
    let (values, _) ← readValues valueCount p
    return (srcStmt, formats, values)

/-- Pair declared OIDs with bound values, each side padded to the longer. -/
def zipParams (oids : List ℕ) (formats : List ℤ) (values : List (Option Bytes)) : List ParamInfo :=
  (List.range (max oids.length values.length)).map fun i =>
    { oid := oids.getD i 0
      value := values.getD i none
      format :=
        match formats with
        | [] => 0
        | [f] => f
        | fs => fs.getD i 0 }

/-- The transaction status byte of a ReadyForQuery. -/
def extractReadyForQuery (msg : PGMessage) : Option UInt8 :=
  if msg.type = msgReadyForQuery then msg.payload.head? else none

example : parseParseMessage (bytes "s1\x00SELECT $1\x00\x00\x01\x00\x00\x00\x17") =
    some (bytes "s1", bytes "SELECT $1", [23]) := by decide +kernel

end PgShadow
