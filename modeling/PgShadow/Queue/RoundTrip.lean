/-
# What the codec gives back

`encodeBinary` of `pkg/queue/filequeue_codec.go` appends to a buffer that the caller
hands in if its capacity reaches the estimate, else to a new one. `Buffer` is a slice
with its backing array, `encodeInto` the sequence of appends; whatever was in the
buffer, what is in it afterwards is the record (`contents_encodeInto`), and the
appends never outgrow it (`array_encodeInto`).

A record has no room for the zone of an address, the user, a time out of range or
the difference between an empty value and none. For an event without these
(`Storable`) decoding inverts encoding (`codec_round_trip`).

Key definitions: `Buffer`, `encodeInto`, `Storable`.
Key theorems: `contents_encodeInto`, `stored_eq_self`, `codec_round_trip`.
-/
import PgShadow.Queue.Codec

namespace PgShadow

/-! ### The buffer -/

/-- A byte slice from the start of its backing array. -/
structure Buffer where
  array : Bytes
  len : ℕ
  len_le : len ≤ array.length

namespace Buffer

/-- The bytes of the slice. -/
def contents (b : Buffer) : Bytes := b.array.take b.len

/-- `make([]byte, 0, size)`. -/
def make (size : ℕ) : Buffer := ⟨List.replicate size 0, 0, Nat.zero_le _⟩

/-- `b[:0]`. -/
def reset (b : Buffer) : Buffer := ⟨b.array, 0, Nat.zero_le _⟩

/-- `append(b, bs...)`: in place if the capacity suffices, else in an array that is
larger by some room. -/
def append (room : ℕ) (b : Buffer) (bs : Bytes) : Buffer :=
  if b.len + bs.length ≤ b.array.length then
    ⟨b.contents ++ bs ++ b.array.drop (b.len + bs.length), b.len + bs.length, by
      simp only [contents, List.length_append, List.length_take, Nat.min_eq_left b.len_le]; omega⟩
  else
    ⟨b.contents ++ bs ++ List.replicate room 0, b.len + bs.length, by
      simp only [contents, List.length_append, List.length_take, Nat.min_eq_left b.len_le]; omega⟩

@[simp] theorem length_contents (b : Buffer) : b.contents.length = b.len :=
  List.length_take_of_le b.len_le

theorem contents_append (room : ℕ) (b : Buffer) (bs : Bytes) :
    (b.append room bs).contents = b.contents ++ bs := by
  have hlen : (b.contents ++ bs).length = b.len + bs.length := by rw [List.length_append, length_contents]
  unfold append
  split_ifs
  · exact List.take_left' hlen
  · exact List.take_left' hlen

/-- The fields one after another. -/
def appendAll (room : ℕ) (b : Buffer) (fields : List Bytes) : Buffer := fields.foldl (append room) b

theorem contents_appendAll (room : ℕ) : ∀ (fields : List Bytes) (b : Buffer),
    (b.appendAll room fields).contents = b.contents ++ fields.flatten
  | [], b => (List.append_nil _).symm
  | bs :: fields, b => by
    have ih := contents_appendAll room fields (b.append room bs)
    rw [contents_append, List.append_assoc, ← List.flatten_cons] at ih
    exact ih

/-- Appends that fit stay in the array. -/
theorem length_appendAll (room : ℕ) : ∀ (fields : List Bytes) (b : Buffer),
    b.len + fields.flatten.length ≤ b.array.length →
      (b.appendAll room fields).array.length = b.array.length
  | [], _, _ => rfl
  | bs :: fields, b, h => by
    rw [List.flatten_cons, List.length_append] at h
    have hfit : b.len + bs.length ≤ b.array.length := by omega
    have harray : (b.append room bs).array.length = b.array.length := by
      unfold append
      rw [if_pos hfit]
      simp only [List.length_append, length_contents, List.length_drop]
      omega
    have hlen : (b.append room bs).len = b.len + bs.length := by
      unfold append
      rw [if_pos hfit]
    rw [← harray]
    exact length_appendAll room fields (b.append room bs) (by rw [hlen, harray]; omega)

end Buffer

/-! ### Encoding into it -/

/-- The length byte and the bytes of an address. -/
def addrFields : Addr → List Bytes
  | .zero => [[16], BigEndian.toBytes 16 0]
  | .v4 a => [[4], BigEndian.toBytes 4 a.toNat]
  | .v6 a _ => [[16], BigEndian.toBytes 16 a.toNat]

/-- What `encodeBinary` appends, in order. -/
def eventFields (ev : SQLEvent) : List Bytes :=
  addrFields ev.conn.srcIP ++ [LittleEndian.toBytes 2 ev.conn.srcPort.toNat] ++
    (addrFields ev.conn.dstIP ++ [LittleEndian.toBytes 2 ev.conn.dstPort.toNat]) ++
    [LittleEndian.toBytes 4 ev.sql.length, ev.sql, encodeInt 8 ev.timestamp, LittleEndian.toBytes 8 ev.txID,
      LittleEndian.toBytes 8 ev.seq, [if ev.extended then 1 else 0], LittleEndian.toBytes 4 ev.stmtName.length,
      ev.stmtName, LittleEndian.toBytes 4 ev.params.length] ++
    (ev.params.flatMap fun p =>
      [LittleEndian.toBytes 4 p.oid, encodeInt 2 p.format, LittleEndian.toBytes 4 p.bytes.length, p.bytes]) ++
    [LittleEndian.toBytes 4 ev.copyData.length] ++
    (ev.copyData.flatMap fun d => [LittleEndian.toBytes 4 d.length, d]) ++ [encodeInt 8 ev.sourceExecTime]

/-- `encodeBinary(ev, reuse)`. -/
def encodeInto (room : ℕ) (ev : SQLEvent) (reuse : Buffer) : Buffer :=
  let size := estimateEventSize ev
  let buf := if size ≤ reuse.array.length then reuse.reset else Buffer.make size
  buf.appendAll room (eventFields ev)

theorem flatten_addrFields (a : Addr) : (addrFields a).flatten = encodeAddr a := by
  cases a <;> simp only [addrFields, encodeAddr, List.flatten_cons, List.flatten_nil, List.append_nil,
    List.singleton_append]

theorem flatten_flatMap {α : Type} (f : α → List Bytes) (g : α → Bytes) (h : ∀ x, (f x).flatten = g x) :
    ∀ xs : List α, (xs.flatMap f).flatten = xs.flatMap g
  | [] => rfl
  | x :: xs => by
    rw [List.flatMap_cons, List.flatMap_cons, List.flatten_append, h, flatten_flatMap f g h xs]

theorem flatten_eventFields (ev : SQLEvent) : (eventFields ev).flatten = encodeBinary ev := by
  have hparams := flatten_flatMap (fun p : ParamInfo =>
      [LittleEndian.toBytes 4 p.oid, encodeInt 2 p.format, LittleEndian.toBytes 4 p.bytes.length, p.bytes])
    encodeParam (fun p => by simp [encodeParam, encodeText]) ev.params
  have hcopy := flatten_flatMap (fun d : Bytes => [LittleEndian.toBytes 4 d.length, d])
    encodeText (fun d => by simp [encodeText]) ev.copyData
  have hext : ([if ev.extended then 1 else 0] : Bytes) = LittleEndian.toBytes 1 ev.extended.toNat := by
    rcases ev.extended with _ | _ <;> rfl
  simp only [eventFields, encodeBinary, List.flatten_append, List.flatten_cons, List.flatten_nil, List.append_nil,
    flatten_addrFields, hparams, hcopy, hext, encodeText, encodeList, List.append_assoc]

/-- **The record does not depend on the buffer.** -/
theorem contents_encodeInto (room : ℕ) (ev : SQLEvent) (reuse : Buffer) :
    (encodeInto room ev reuse).contents = encodeBinary ev := by
  unfold encodeInto
  dsimp only
  rw [Buffer.contents_appendAll, flatten_eventFields]
  split_ifs <;> rfl

/-- **The buffer does not grow**: a buffer of the estimated capacity is written in
place. -/
theorem array_encodeInto (room : ℕ) (ev : SQLEvent) (reuse : Buffer) :
    (encodeInto room ev reuse).array.length =
      if estimateEventSize ev ≤ reuse.array.length then reuse.array.length else estimateEventSize ev := by
  have hle := length_encodeBinary_le ev
  unfold encodeInto
  dsimp only
  rw [Buffer.length_appendAll]
  · split_ifs
    · rfl
    · exact List.length_replicate
  · rw [flatten_eventFields]
    split_ifs with h
    · exact (Nat.zero_add _).le.trans (hle.trans h)
    · exact (Nat.zero_add _).le.trans (hle.trans List.length_replicate.ge)

/-! ### Events that come back -/

/-- A valid address without a zone. -/
def Addr.plain : Addr → Bool
  | .zero => false
  | .v4 _ => true
  | .v6 _ zone => zone.isEmpty

/-- The numbers of an event are values of their Go types: `uint64`, `int64`, `uint32`
and `int16`. -/
structure SQLEvent.Typed (ev : SQLEvent) : Prop where
  txID : ev.txID < 2 ^ 64
  seq : ev.seq < 2 ^ 64
  sourceExecTime : -2 ^ 63 ≤ ev.sourceExecTime ∧ ev.sourceExecTime < 2 ^ 63
  params : ∀ p ∈ ev.params, p.oid < 2 ^ 32 ∧ -2 ^ 15 ≤ p.format ∧ p.format < 2 ^ 15

/-- What the record has room for: valid addresses without zone, a time in nanoseconds
that fits `int64`, lengths and counts below 2^32, no value that is empty and not nil,
no user. -/
structure Storable (ev : SQLEvent) : Prop where
  srcIP : ev.conn.srcIP.plain = true
  dstIP : ev.conn.dstIP.plain = true
  timestamp : -2 ^ 63 ≤ ev.timestamp ∧ ev.timestamp < 2 ^ 63
  lengths : Encodable ev
  values : ∀ p ∈ ev.params, p.value ≠ some []
  user : ev.user = []

theorem Addr.stored_plain {a : Addr} (h : a.plain = true) : a.stored = a := by
  rcases a with _ | a | ⟨a, zone⟩
  · cases h
  · rfl
  · rw [Addr.stored, List.isEmpty_iff.mp h]

theorem ParamInfo.stored_eq_self {p : ParamInfo} (hoid : p.oid < 2 ^ 32)
    (hformat : -2 ^ 15 ≤ p.format ∧ p.format < 2 ^ 15) (hvalue : p.value ≠ some []) : p.stored = p := by
  have hv : (if p.bytes = [] then none else some p.bytes) = p.value := by
    unfold ParamInfo.bytes
    rcases hp : p.value with _ | v
    · rfl
    · rw [hp] at hvalue
      rw [Option.getD_some, if_neg fun hnil => hvalue (congrArg some hnil)]
  rw [ParamInfo.stored, hv, Nat.mod_eq_of_lt (by omega), Int.bmod_eq_of_le_mul_two (by omega) (by omega)]

theorem stored_eq_self {ev : SQLEvent} (ht : ev.Typed) (h : Storable ev) : stored ev = ev := by
  have hparams : ev.params.map ParamInfo.stored = ev.params :=
    (List.map_congr_left fun p hp =>
      ParamInfo.stored_eq_self (ht.params p hp).1 (ht.params p hp).2 (h.values p hp)).trans (List.map_id _)
  have htime := h.timestamp
  have hexec := ht.sourceExecTime
  have htx := ht.txID
  have hseq := ht.seq
  rw [stored, ConnID.stored, Addr.stored_plain h.srcIP, Addr.stored_plain h.dstIP, hparams,
    Int.bmod_eq_of_le_mul_two (x := ev.timestamp) (by omega) (by omega),
    Int.bmod_eq_of_le_mul_two (x := ev.sourceExecTime) (by omega) (by omega),
    Nat.mod_eq_of_lt (a := ev.txID) (by omega), Nat.mod_eq_of_lt (a := ev.seq) (by omega), ← h.user]

/-- **The round trip.** An event that the record has room for comes back as it was,
whatever buffer it is encoded into, and two such events with the same record are the
same event. -/
theorem codec_round_trip (room : ℕ) (ev : SQLEvent) (reuse : Buffer) (ht : ev.Typed) (h : Storable ev) :
    decodeBinary (encodeInto room ev reuse).contents = .ok ev ∧
      ∀ (room' : ℕ) (ev' : SQLEvent) (reuse' : Buffer), ev'.Typed → Storable ev' →
        (encodeInto room ev reuse).contents = (encodeInto room' ev' reuse').contents → ev = ev' := by
  have hback : ∀ e : SQLEvent, e.Typed → Storable e → decodeBinary (encodeBinary e) = .ok e := by
    intro e he hs
    rw [decode_encode hs.lengths, stored_eq_self he hs]
  refine ⟨by rw [contents_encodeInto, hback ev ht h], fun room' ev' reuse' ht' h' heq => ?_⟩
  rw [contents_encodeInto, contents_encodeInto] at heq
  have hok := hback ev ht h
  rw [heq, hback ev' ht' h'] at hok
  exact (Except.ok.inj hok).symm

/-- An extended query with a NULL and an IPv6 client, encoded into a buffer that holds
something else. -/
theorem codec_round_trip_null :
    let ev : SQLEvent :=
      { conn := ⟨.v6 1 [], 50000, .v4 2, 5432⟩, sql := [83], timestamp := -5, extended := true, stmtName := [115]
        params := [⟨23, none, 1⟩, ⟨25, some [7, 8], -1⟩], copyData := [[9], []], sourceExecTime := 4 }
    let reuse : Buffer := ⟨List.replicate 300 255, 7, by rw [List.length_replicate]; decide⟩
    ev.Typed ∧ Storable ev ∧ decodeBinary (encodeInto 0 ev reuse).contents = .ok ev := by
  intro ev reuse
  have ht : ev.Typed := ⟨by decide, by decide, by decide, by decide⟩
  have hs : Storable ev :=
    ⟨rfl, rfl, by decide, ⟨by decide, by decide, by decide, by decide, by decide, by decide⟩, by decide, rfl⟩
  exact ⟨ht, hs, (codec_round_trip 0 ev reuse ht hs).1⟩

end PgShadow
