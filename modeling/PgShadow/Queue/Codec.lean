/-
# The binary codec of SQL events

`pkg/queue/filequeue_codec.go`: the record an event is stored as by the file
queue and carried as by the Kafka queue. `encodeBinary` appends field after
field; `decodeBinary` reads them back at an offset, checking before each field
that its bytes are there.

The two are compared by the laws of `Lib.Scan`: every event whose lengths fit
their 32-bit prefixes comes back as `stored ev` (`decode_encode`), which is the
event except for what the record has no room for. In particular a parameter
value of no bytes comes back as NULL.

Key definitions: `encodeBinary`, `decodeBinary`, `estimateEventSize`, `stored`.
Key theorems: `decode_encode`, `length_encodeBinary_le`.
-/
import Mathlib.Algebra.Order.BigOperators.Group.List
import PgShadow.Core
import PgShadow.Lib.BigEndian
import PgShadow.Lib.Scan

namespace PgShadow

open Scan

/-- The value of a parameter as the bytes it is written with: a nil slice has none. -/
def ParamInfo.bytes (p : ParamInfo) : Bytes := p.value.getD []

/-- `estimateEventSize`. -/
def estimateEventSize (ev : SQLEvent) : ℕ :=
  (1 + 16 + 2 + 1 + 16 + 2) + (4 + ev.sql.length) + (8 + 8 + 8 + 1) + (4 + ev.stmtName.length) + 4 +
    (ev.params.map fun p => 4 + 2 + 4 + p.bytes.length).sum + 4 +
    (ev.copyData.map fun d => 4 + d.length).sum + 8

/-! ### Writing -/

/-- `uint64(x)` and `uint16(x)` of a signed `x`, in `w` bytes. -/
def encodeInt (w : ℕ) (z : ℤ) : Bytes := LittleEndian.toBytes w (z % 256 ^ w).toNat

/-- The length byte and the address: `As4` of an IPv4 address, else `As16`. -/
def encodeAddr : Addr → Bytes
  | .zero => 16 :: BigEndian.toBytes 16 0
  | .v4 a => 4 :: BigEndian.toBytes 4 a.toNat
  | .v6 a _ => 16 :: BigEndian.toBytes 16 a.toNat

/-- A length prefix and the bytes. -/
def encodeText (s : Bytes) : Bytes := LittleEndian.toBytes 4 s.length ++ s

def encodeParam (p : ParamInfo) : Bytes :=
  LittleEndian.toBytes 4 p.oid ++ (encodeInt 2 p.format ++ encodeText p.bytes)

/-- A count and the elements. -/
def encodeList {α : Type} (enc : α → Bytes) (xs : List α) : Bytes :=
  LittleEndian.toBytes 4 xs.length ++ xs.flatMap enc

/-- `encodeBinary`. The bytes do not depend on the buffer they are written to. -/
def encodeBinary (ev : SQLEvent) : Bytes :=
  encodeAddr ev.conn.srcIP ++ (LittleEndian.toBytes 2 ev.conn.srcPort.toNat ++
  (encodeAddr ev.conn.dstIP ++ (LittleEndian.toBytes 2 ev.conn.dstPort.toNat ++
  (encodeText ev.sql ++ (encodeInt 8 ev.timestamp ++ (LittleEndian.toBytes 8 ev.txID ++
  (LittleEndian.toBytes 8 ev.seq ++ (LittleEndian.toBytes 1 ev.extended.toNat ++
  (encodeText ev.stmtName ++ (encodeList encodeParam ev.params ++
  (encodeList encodeText ev.copyData ++ encodeInt 8 ev.sourceExecTime)))))))))))

/-! ### Reading -/

/-- The errors of `decodeBinary`. -/
inductive DecodeError
  | emptyPayload
  | shortRead (off need left : ℕ)
deriving DecidableEq

/-- The closure `need`. -/
def needBytes (n : ℕ) : Scanner DecodeError Unit := need n fun off left => .shortRead off n left

/-- `int64(x)` and `int16(x)` of a word of `w` bytes. -/
def readInt (w : ℕ) : Scanner DecodeError ℤ := do
  let n ← word w
  pure (Int.bmod n (256 ^ w))

/-- An address. The length byte is checked against the buffer, but any length
other than 4 reads 16 bytes. -/
def readAddr : Scanner DecodeError Addr := do
  needBytes 1
  let n ← word 1
  needBytes n
  if n = 4 then do
    let a ← look 4
    skip n
    pure (.v4 (BitVec.ofNat 32 (BigEndian.ofBytes a)))
  else do
    let a ← look 16
    skip n
    pure (.v6 (BitVec.ofNat 128 (BigEndian.ofBytes a)) [])

def readPort : Scanner DecodeError UInt16 := do
  needBytes 2
  let n ← word 2
  pure (UInt16.ofNat n)

/-- A length prefix and as many bytes. -/
def readText : Scanner DecodeError Bytes := do
  needBytes 4
  let n ← word 4
  needBytes n
  take n

/-- One parameter. A value of length 0 stays nil. -/
def readParam : Scanner DecodeError ParamInfo := do
  needBytes 10
  let oid ← word 4
  let format ← readInt 2
  let n ← word 4
  needBytes n
  let v ← take n
  pure ⟨oid, if n = 0 then none else some v, format⟩

/-- A count and as many elements. -/
def readList {α : Type} (p : Scanner DecodeError α) : Scanner DecodeError (List α) := do
  needBytes 4
  let n ← word 4
  times p n

/-- The fields in order. `User` has none. -/
def readEvent : Scanner DecodeError SQLEvent := do
  let srcIP ← readAddr
  let srcPort ← readPort
  let dstIP ← readAddr
  let dstPort ← readPort
  let sql ← readText
  needBytes 8
  let timestamp ← readInt 8
  needBytes 16
  let txID ← word 8
  let seq ← word 8
  needBytes 1
  let extended ← word 1
  let stmtName ← readText
  let params ← readList readParam
  let copyData ← readList readText
  needBytes 8
  let sourceExecTime ← readInt 8
  pure { conn := ⟨srcIP, srcPort, dstIP, dstPort⟩, sql, timestamp, txID, seq, extended := extended = 1,
         stmtName, params, copyData, sourceExecTime }

/-- `decodeBinary`. -/
def decodeBinary (data : Bytes) : Except (Fault DecodeError) SQLEvent :=
  if data = [] then .error (.refused .emptyPayload) else Scan.run readEvent data

/-! ### What comes back -/

/-- An address as it comes back: the zero address as `::`, a zone dropped. -/
def Addr.stored : Addr → Addr
  | .zero => .v6 0 []
  | .v4 a => .v4 a
  | .v6 a _ => .v6 a []

def ConnID.stored (c : ConnID) : ConnID := { c with srcIP := c.srcIP.stored, dstIP := c.dstIP.stored }

/-- A parameter as it comes back: an empty value as NULL. -/
def ParamInfo.stored (p : ParamInfo) : ParamInfo :=
  ⟨p.oid % 256 ^ 4, if p.bytes = [] then none else some p.bytes, Int.bmod p.format (256 ^ 2)⟩

/-- An event as it comes back from its record. -/
def stored (ev : SQLEvent) : SQLEvent :=
  { ev with
    conn := ev.conn.stored
    timestamp := Int.bmod ev.timestamp (256 ^ 8)
    txID := ev.txID % 256 ^ 8
    seq := ev.seq % 256 ^ 8
    params := ev.params.map ParamInfo.stored
    sourceExecTime := Int.bmod ev.sourceExecTime (256 ^ 8)
    user := [] }

/-- The lengths of an event fit their 32-bit prefixes. -/
structure Encodable (ev : SQLEvent) : Prop where
  sql : ev.sql.length < 256 ^ 4
  stmtName : ev.stmtName.length < 256 ^ 4
  params : ev.params.length < 256 ^ 4
  values : ∀ p ∈ ev.params, p.bytes.length < 256 ^ 4
  copyData : ev.copyData.length < 256 ^ 4
  chunks : ∀ d ∈ ev.copyData, d.length < 256 ^ 4

theorem reads_int (w : ℕ) (z : ℤ) : Reads (readInt w) (encodeInt w z) (Int.bmod z (256 ^ w)) := by
  have hne : (256 : ℤ) ^ w ≠ 0 := pow_ne_zero w (by decide)
  have h := (reads_word (ε := DecodeError) w (z % 256 ^ w).toNat).map fun n => Int.bmod n (256 ^ w)
  have hz : (((z % 256 ^ w).toNat % 256 ^ w : ℕ) : ℤ) = z % 256 ^ w := by
    push_cast
    rw [Int.toNat_of_nonneg (Int.emod_nonneg z hne), Int.emod_emod_of_dvd z dvd_rfl]
  have hm := Int.emod_bmod z (256 ^ w)
  push_cast at hm
  rwa [hz, hm] at h

theorem reads_text {s : Bytes} (h : s.length < 256 ^ 4) : Reads readText (encodeText s) s := by
  refine Reads.need _ (by simp [encodeText]) ((reads_word_of_lt h).bind ?_)
  exact Reads.need _ le_rfl (reads_take rfl)

theorem reads_port (p : UInt16) : Reads readPort (LittleEndian.toBytes 2 p.toNat) p := by
  have h := (reads_word_of_lt (ε := DecodeError) (w := 2) p.toNat_lt).map UInt16.ofNat
  rw [UInt16.ofNat_toNat] at h
  exact Reads.need _ (by simp) h

/-- An address of the length its length byte says, read by either branch. -/
theorem reads_addr_of {bs : Bytes} {n : UInt8} {a : Addr} (hn : bs.length = n.toNat)
    (h4 : n.toNat = 4 → a = .v4 (BitVec.ofNat 32 (BigEndian.ofBytes bs)))
    (h16 : n.toNat ≠ 4 → bs.length = 16 ∧ a = .v6 (BitVec.ofNat 128 (BigEndian.ofBytes bs)) []) :
    Reads readAddr (n :: bs) a := by
  refine Reads.need _ (by simp) ?_
  have hw : Reads (word 1 : Scanner DecodeError ℕ) [n] n.toNat := by
    have := reads_word_of_lt (ε := DecodeError) (w := 1) n.toNat_lt
    simpa [LittleEndian.toBytes] using this
  refine hw.bind (Reads.need _ hn.ge ?_ : Reads _ bs a)
  intro pre post
  by_cases h : n.toNat = 4
  · rw [if_pos h, bind_ok (by rw [← h, ← hn]; exact look_append pre bs post), h4 h, hn]
    rfl
  · rw [if_neg h, bind_ok (by rw [← (h16 h).1]; exact look_append pre bs post), (h16 h).2, hn]
    rfl

theorem reads_addr : ∀ a : Addr, Reads readAddr (encodeAddr a) a.stored
  | .zero => reads_addr_of (by simp) (by decide) fun _ => ⟨by simp, by decide⟩
  | .v4 a => by
    refine reads_addr_of (by simp) (fun _ => ?_) fun h => absurd rfl h
    rw [BigEndian.ofBytes_toBytes 4 _ a.isLt, BitVec.ofNat_toNat, BitVec.setWidth_eq]
    rfl
  | .v6 a _ => by
    refine reads_addr_of (by simp) (fun h => absurd h (by decide)) fun _ => ⟨by simp, ?_⟩
    rw [BigEndian.ofBytes_toBytes 16 _ a.isLt, BitVec.ofNat_toNat, BitVec.setWidth_eq]
    rfl

theorem reads_param {p : ParamInfo} (h : p.bytes.length < 256 ^ 4) :
    Reads readParam (encodeParam p) p.stored := by
  refine Reads.need _ (by simp [encodeParam, encodeInt, encodeText]; omega) ((reads_word 4 p.oid).bind ?_)
  refine (reads_int 2 p.format).bind ((reads_word_of_lt h).bind (Reads.need _ le_rfl ?_))
  have := (reads_take (ε := DecodeError) (rfl : p.bytes.length = _)).map fun v =>
    (⟨p.oid % 256 ^ 4, if p.bytes.length = 0 then none else some v, Int.bmod p.format (256 ^ 2)⟩ : ParamInfo)
  simpa only [ParamInfo.stored, List.length_eq_zero_iff] using this

theorem reads_list {α β : Type} {p : Scanner DecodeError β} {enc : α → Bytes} {f : α → β} {xs : List α}
    (hlen : xs.length < 256 ^ 4) (h : ∀ x ∈ xs, Reads p (enc x) (f x)) :
    Reads (readList p) (encodeList enc xs) (xs.map f) :=
  Reads.need _ (by simp [encodeList]) ((reads_word_of_lt hlen).bind (Reads.times h))

theorem reads_event {ev : SQLEvent} (h : Encodable ev) : Reads readEvent (encodeBinary ev) (stored ev) := by
  have hx : Reads (word 1 : Scanner DecodeError ℕ) (LittleEndian.toBytes 1 ev.extended.toNat)
      ev.extended.toNat := reads_word_of_lt (lt_of_le_of_lt ev.extended.toNat_le (by decide))
  have hcopy := reads_list h.copyData fun d hd => reads_text (h.chunks d hd)
  rw [List.map_id'] at hcopy
  refine (reads_addr _).bind ((reads_port _).bind ((reads_addr _).bind ((reads_port _).bind ?_)))
  refine (reads_text h.sql).bind (Reads.need _ (by simp [encodeInt]) ((reads_int 8 _).bind ?_))
  refine Reads.need _ (by simp; omega) ((reads_word 8 _).bind ((reads_word 8 _).bind ?_))
  refine Reads.need _ (by simp) (hx.bind ((reads_text h.stmtName).bind ?_))
  refine (reads_list h.params fun p hp => reads_param (h.values p hp)).bind ?_
  refine hcopy.bind ?_
  have hext : decide (ev.extended.toNat = 1) = ev.extended := by cases ev.extended <;> rfl
  have hev : ({ stored ev with extended := decide (ev.extended.toNat = 1) } : SQLEvent) = stored ev := by
    rw [hext]
    rfl
  rw [← hev]
  exact Reads.need _ (by simp [encodeInt]) ((reads_int 8 ev.sourceExecTime).map _)

theorem encodeBinary_ne_nil (ev : SQLEvent) : encodeBinary ev ≠ [] := by
  rw [encodeBinary]
  cases ev.conn.srcIP <;> simp [encodeAddr]

/-- **The round trip**: an event whose lengths fit comes back as `stored ev`. -/
theorem decode_encode {ev : SQLEvent} (h : Encodable ev) : decodeBinary (encodeBinary ev) = .ok (stored ev) := by
  have hrun := (reads_event h).run []
  rw [List.append_nil] at hrun
  rw [decodeBinary, if_neg (encodeBinary_ne_nil ev), hrun]

theorem length_encodeAddr_le (a : Addr) : (encodeAddr a).length ≤ 17 := by
  cases a <;> simp [encodeAddr]

theorem length_encodeList {α : Type} (enc : α → Bytes) (xs : List α) :
    (encodeList enc xs).length = 4 + (xs.map fun x => (enc x).length).sum := by
  rw [encodeList, List.length_append, LittleEndian.length_toBytes, List.length_flatMap]

theorem length_encodeText (s : Bytes) : (encodeText s).length = 4 + s.length := by
  rw [encodeText, List.length_append, LittleEndian.length_toBytes]

theorem length_encodeParam (p : ParamInfo) : (encodeParam p).length = 4 + 2 + 4 + p.bytes.length := by
  rw [encodeParam, List.length_append, List.length_append, LittleEndian.length_toBytes, encodeInt,
    LittleEndian.length_toBytes, length_encodeText]
  omega

/-- The record but for the addresses, whose length depends on their family. -/
theorem length_encodeBinary (ev : SQLEvent) :
    (encodeBinary ev).length + 34 =
      estimateEventSize ev + (encodeAddr ev.conn.srcIP).length + (encodeAddr ev.conn.dstIP).length := by
  simp only [encodeBinary, estimateEventSize, List.length_append, LittleEndian.length_toBytes, encodeInt,
    length_encodeText, length_encodeList, length_encodeParam]
  omega

/-- **The estimate suffices**: the appends of `encodeBinary` never outgrow a
buffer of the estimated size. -/
theorem length_encodeBinary_le (ev : SQLEvent) : (encodeBinary ev).length ≤ estimateEventSize ev := by
  have h := length_encodeBinary ev
  have h1 := length_encodeAddr_le ev.conn.srcIP
  have h2 := length_encodeAddr_le ev.conn.dstIP
  omega

/-- A record shorter than 4 GiB has lengths that fit. -/
theorem encodable_of_length {ev : SQLEvent} (h : (encodeBinary ev).length < 256 ^ 4) : Encodable ev := by
  have hlen := length_encodeBinary ev
  have hp : ∀ (x : ℕ) (l : List ℕ), x ∈ l → x ≤ l.sum := fun x l => List.single_le_sum (by simp) x
  have hparams : ev.params.length ≤ (ev.params.map fun p => 4 + 2 + 4 + p.bytes.length).sum := by
    simpa using List.length_le_sum_of_one_le (ev.params.map fun p => 4 + 2 + 4 + p.bytes.length) (by simp; omega)
  have hcopy : ev.copyData.length ≤ (ev.copyData.map fun d => 4 + d.length).sum := by
    simpa using List.length_le_sum_of_one_le (ev.copyData.map fun d => 4 + d.length) (by simp; omega)
  rw [estimateEventSize] at hlen
  refine ⟨by omega, by omega, by omega, fun p hmem => ?_, by omega, fun d hmem => ?_⟩
  · have := hp _ _ (List.mem_map.mpr ⟨p, hmem, rfl⟩ : _ ∈ ev.params.map fun p => 4 + 2 + 4 + p.bytes.length)
    omega
  · have := hp _ _ (List.mem_map.mpr ⟨d, hmem, rfl⟩ : _ ∈ ev.copyData.map fun d => 4 + d.length)
    omega

end PgShadow
