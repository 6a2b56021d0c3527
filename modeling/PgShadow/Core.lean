/-
# The data that flows through the pipeline

The types of `pkg/core`: the connection four-tuple, the framed message, the
SQL event and the transaction status. Text is what Go strings are, byte
sequences of any content. Transaction ids and sequence numbers are natural
numbers here and 64-bit counters in the source, so a result about them is about
a run that draws fewer than 2^64 of them; after that they start again at zero
and repeat. The counter of the replay guard and that of the SSL capture are
taken modulo 2^64.
-/
import Mathlib.Data.Int.Notation
import Mathlib.Data.Nat.Notation
import Mathlib.Logic.Function.Basic

namespace PgShadow

/-- A Go string or byte slice. -/
abbrev Bytes := List UInt8

/-- The bytes of a Go string literal. -/
def bytes (s : String) : Bytes := s.toUTF8.data.toList

/-- The byte of an ASCII character. -/
def chr (c : Char) : UInt8 := UInt8.ofNat c.toNat

/-- A `netip.Addr`: the zero value, or an IPv4 or (zoned) IPv6 address. -/
inductive Addr
  | zero
  | v4 (a : BitVec 32)
  | v6 (a : BitVec 128) (zone : Bytes)
deriving DecidableEq

/-- The four-tuple identifying one captured TCP connection. -/
structure ConnID where
  srcIP : Addr
  srcPort : UInt16
  dstIP : Addr
  dstPort : UInt16
deriving DecidableEq

/-- One Extended_Query parameter. `value = none` is SQL NULL (Go's nil). -/
structure ParamInfo where
  oid : ℕ := 0
  value : Option Bytes := none
  format : ℤ := 0
deriving DecidableEq

/-- A framed wire-protocol message. -/
structure PGMessage where
  type : UInt8
  length : ℕ
  payload : Bytes
deriving DecidableEq

/-- The transaction status of a connection. -/
inductive TxStatus
  | idle
  | inTx
  | failed
deriving DecidableEq

/-- The unit that flows through filter, queue and replayer. `copyData = []`
is Go's nil. `SourceExecTime` and `User` are never set before the queue. -/
structure SQLEvent where
  conn : ConnID
  sql : Bytes
  timestamp : ℤ
  txID : ℕ := 0
  seq : ℕ := 0
  extended : Bool := false
  stmtName : Bytes := []
  params : List ParamInfo := []
  copyData : List Bytes := []
  sourceExecTime : ℤ := 0
  user : Bytes := []
deriving DecidableEq

/-! ### Go maps -/

/-- A Go map from `K` to `V`. -/
abbrev GoMap (K V : Type) := K → Option V

namespace GoMap

variable {K V : Type} [DecidableEq K]

/-- `make(map[K]V)`. -/
def empty : GoMap K V := fun _ => none

/-- `m[k] = v`. -/
def set (m : GoMap K V) (k : K) (v : V) : GoMap K V := Function.update m k (some v)

/-- `delete(m, k)`. -/
def erase (m : GoMap K V) (k : K) : GoMap K V := Function.update m k none

@[simp] theorem set_self (m : GoMap K V) (k : K) (v : V) : m.set k v k = some v :=
  Function.update_self ..

@[simp] theorem set_of_ne (m : GoMap K V) {k k' : K} (v : V) (h : k' ≠ k) : m.set k v k' = m k' :=
  Function.update_of_ne h ..

@[simp] theorem erase_self (m : GoMap K V) (k : K) : m.erase k k = none :=
  Function.update_self ..

@[simp] theorem erase_of_ne (m : GoMap K V) {k k' : K} (h : k' ≠ k) : m.erase k k' = m k' :=
  Function.update_of_ne h ..

omit [DecidableEq K] in
@[simp] theorem empty_apply (k : K) : (empty : GoMap K V) k = none := rfl

end GoMap

end PgShadow
