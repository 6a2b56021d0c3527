/-
# Parse and Bind messages

The payloads of the extended query protocol, as a client encodes them (`ParseMsg`,
`BindMsg`), against the decoders of `eventbuilder.go` and `bindcorrelator.go`. The
decoder of a Bind payload is one reader after the other (`readBind`), so that it reads
the encoding field by field, whatever the result formats that follow, and fails on
every payload cut off before them.

Key definitions: `ParseMsg`, `BindMsg`, `formatOf`.
Key theorems: `parseParseMessage_payload`, `reads_bind`, `extended_query_inverts`.
-/
import PgShadow.Lib.Reader
import PgShadow.Protocol.Collaborators

namespace PgShadow

open Coding

/-! ### Encodings -/

/-- A Parse message. -/
structure ParseMsg where
  stmtName : Bytes
  sql : Bytes
  paramOIDs : List ℕ
  stmtName_text : (0 : UInt8) ∉ stmtName
  sql_text : (0 : UInt8) ∉ sql
  count_le : paramOIDs.length ≤ 65535
  oid_lt : ∀ oid ∈ paramOIDs, oid < 2 ^ 32

/-- A Bind message: the portal, the format codes, the values (`none` is NULL), and the
result formats at the end, which are not looked at. -/
structure BindMsg where
  portal : Bytes
  formats : List ℤ
  values : List (Option Bytes)
  resultFormats : Bytes
  portal_text : (0 : UInt8) ∉ portal
  formats_le : formats.length ≤ 65535
  format_range : ∀ f ∈ formats, -2 ^ 15 ≤ f ∧ f < 2 ^ 15
  values_le : values.length ≤ 10000
  value_lt : ∀ v ∈ values, ∀ b ∈ v, b.length < 2 ^ 31

/-- A text with its terminator. -/
def cstring (s : Bytes) : Bytes := s ++ [0]

/-- A parameter value with its length, which is -1 for NULL. -/
def encodeValue : Option Bytes → Bytes
  | none => BigEndian.toBytes 4 (2 ^ 32 - 1)
  | some b => BigEndian.toBytes 4 b.length ++ b

def encodeFormat (f : ℤ) : Bytes := BigEndian.toBytes 2 (f % 2 ^ 16).toNat

def ParseMsg.payload (m : ParseMsg) : Bytes :=
  cstring m.stmtName ++ (cstring m.sql ++ (BigEndian.toBytes 2 m.paramOIDs.length ++
    m.paramOIDs.flatMap (BigEndian.toBytes 4)))

/-- A Bind payload up to the end of the values. -/
def BindMsg.head (m : BindMsg) (srcStmt : Bytes) : Bytes :=
  cstring m.portal ++ (cstring srcStmt ++
    ((BigEndian.toBytes 2 m.formats.length ++ m.formats.flatMap encodeFormat) ++
      (BigEndian.toBytes 2 m.values.length ++ m.values.flatMap encodeValue)))

def BindMsg.payload (m : BindMsg) (srcStmt : Bytes) : Bytes := m.head srcStmt ++ m.resultFormats

/-- The format code of parameter `i`: text without codes, the code if there is one, and
otherwise the one at its place, or text. -/
def formatOf (formats : List ℤ) (i : ℕ) : ℤ :=
  if formats.length = 0 then 0 else if formats.length = 1 then formats.headD 0 else formats.getD i 0

/-! ### Fields -/

theorem dropWhile_text : ∀ {s : Bytes}, (0 : UInt8) ∉ s → ∀ rest : Bytes,
    (s ++ rest).dropWhile (· != 0) = rest.dropWhile (· != 0) ∧
      (s ++ 0 :: rest).takeWhile (· != 0) = s
  | [], _, rest => ⟨rfl, rfl⟩
  | c :: s, h, rest => by
    obtain ⟨hc, hs⟩ := not_or.mp (mt List.mem_cons.mpr h)
    obtain ⟨hdrop, htake⟩ := dropWhile_text hs rest
    have hne : (c != 0) = true := bne_iff_ne.mpr (Ne.symm hc)
    constructor
    · rw [List.cons_append, List.dropWhile_cons_of_pos (p := (· != 0)) hne, hdrop]
    · rw [List.cons_append, List.takeWhile_cons_of_pos (p := (· != 0)) hne, htake]

theorem reads_cstring {s : Bytes} (hs : (0 : UInt8) ∉ s) : Reads readCString (cstring s) s where
  append rest := by
    obtain ⟨hdrop, -⟩ := dropWhile_text hs (0 :: rest)
    obtain ⟨-, htake⟩ := dropWhile_text hs rest
    rw [cstring, List.append_assoc, List.singleton_append, readCString, hdrop, htake]
    rfl
  cut pre hpre hne := by
    obtain ⟨htext, -⟩ | ⟨pre', rfl, hpre'⟩ := prefix_append_cases hpre
    · have hno : (0 : UInt8) ∉ pre := fun hmem => hs (htext.subset hmem)
      obtain ⟨hdrop, -⟩ := dropWhile_text hno []
      rw [List.append_nil] at hdrop
      rw [readCString, hdrop]
      rfl
    · -- nothing but the terminator is cut off
      obtain rfl | rfl : pre' = [] ∨ pre' = [0] := by
        obtain _ | ⟨b, pre'⟩ := pre'
        · exact .inl rfl
        · obtain ⟨rfl, hnil⟩ := List.cons_prefix_cons.mp hpre'
          exact .inr (congrArg _ (List.prefix_nil.mp hnil))
      · obtain ⟨hdrop, -⟩ := dropWhile_text hs []
        rw [readCString, hdrop]
        rfl
      · exact absurd rfl hne

theorem reads_int16 {n : ℕ} (hn : n ≤ 65535) : Reads readInt16 (BigEndian.toBytes 2 n) n := by
  have h := reads_fixed BigEndian.ofBytes (BigEndian.length_toBytes 2 n)
  rwa [BigEndian.ofBytes_toBytes 2 n (by omega)] at h

theorem reads_int32 {n : ℕ} (hn : n < 2 ^ 32) : Reads readInt32 (BigEndian.toBytes 4 n) (signed 32 n) := by
  have h := reads_fixed (fun b => signed 32 (BigEndian.ofBytes b)) (BigEndian.length_toBytes 4 n)
  rwa [BigEndian.ofBytes_toBytes 4 n (by omega)] at h

/-- The loop over the format codes, one turn at a time. -/
def readFormat : Reader UInt8 ℤ := map (signed 16) readInt16

theorem readFormats_many : ∀ n : ℕ, readFormats n = many readFormat n
  | 0 => rfl
  | n + 1 => by
    funext p
    rw [many, ← readFormats_many n, readFormats, Coding.bind, readFormat, map]
    rcases readInt16 p with _ | ⟨fc, q⟩
    · rfl
    · show (readFormats n q).bind _ = (readFormats n q).map _
      rcases readFormats n q with _ | ⟨fs, r⟩ <;> rfl

theorem reads_format {f : ℤ} (hf : -2 ^ 15 ≤ f ∧ f < 2 ^ 15) : Reads readFormat (encodeFormat f) f := by
  have h := (reads_int16 (n := (f % 2 ^ 16).toNat) (by omega)).map (signed 16)
  have hsigned : signed 16 (f % 2 ^ 16).toNat = f := by
    unfold signed
    split_ifs <;> omega
  rwa [hsigned] at h

/-- The bytes of a value of the given length. -/
def valueBytes (length : ℤ) : Reader UInt8 (Option Bytes) := fun p =>
  if length < 0 then some (none, p)
  else if (p.length : ℤ) < length then none
  else some (some (p.take length.toNat), p.drop length.toNat)

/-- The loop over the values, one turn at a time. -/
def readValue : Reader UInt8 (Option Bytes) := Coding.bind readInt32 valueBytes

theorem readValues_many : ∀ n : ℕ, readValues n = many readValue n
  | 0 => rfl
  | n + 1 => by
    funext p
    rw [many, ← readValues_many n, readValues, Coding.bind, readValue, Coding.bind]
    rcases readInt32 p with _ | ⟨length, q⟩
    · rfl
    rw [Option.bind_some, valueBytes]
    dsimp only
    by_cases hnull : length < 0
    · rw [if_pos hnull]
      show (if length < 0 then _ else _) = _
      rw [if_pos hnull]
      show (readValues n q).bind _ = (readValues n q).map _
      rcases readValues n q with _ | ⟨vs, r⟩ <;> rfl
    · rw [if_neg hnull]
      show (if length < 0 then _ else _) = _
      rw [if_neg hnull]
      by_cases hshort : (q.length : ℤ) < length
      · rw [if_pos hshort, if_pos hshort]
        rfl
      · rw [if_neg hshort, if_neg hshort]
        show (readValues n (q.drop length.toNat)).bind _ = (readValues n (q.drop length.toNat)).map _
        rcases readValues n (q.drop length.toNat) with _ | ⟨vs, r⟩ <;> rfl

theorem reads_value {v : Option Bytes} (hv : ∀ b ∈ v, b.length < 2 ^ 31) : Reads readValue (encodeValue v) v := by
  rcases v with _ | b
  · have hnull : valueBytes (signed 32 (2 ^ 32 - 1)) = fun p => some (none, p) := rfl
    have hbytes : Reads (valueBytes (signed 32 (2 ^ 32 - 1))) [] none := hnull ▸ .nil none
    have h := (reads_int32 (n := 2 ^ 32 - 1) (by decide)).bind hbytes
    rwa [List.append_nil] at h
  · have hlt := hv b rfl
    have hsigned : signed 32 b.length = b.length := if_pos hlt
    have hfixed : valueBytes b.length = fixed b.length some := by
      funext p
      unfold valueBytes fixed
      rw [if_neg (by omega), Int.toNat_natCast]
      simp only [Nat.cast_lt]
    have hbytes : Reads (valueBytes (signed 32 b.length)) b (some b) := by
      rw [hsigned, hfixed]
      exact reads_fixed some rfl
    exact (reads_int32 (by omega)).bind hbytes

/-! ### Messages -/

/-- `parseBindMessage`, as a reader that leaves the result formats. -/
def readBind : Reader UInt8 (Bytes × List ℤ × List (Option Bytes)) :=
  Coding.bind readCString fun _ => Coding.bind readCString fun srcStmt =>
    Coding.bind (Coding.bind readInt16 (many readFormat)) fun formats =>
      map (fun values => (srcStmt, formats, values))
        (Coding.bind readInt16 fun n => if 10000 < n then fun _ => none else many readValue n)

theorem parseBindMessage_readBind (payload : Bytes) : parseBindMessage payload = (readBind payload).map Prod.fst := by
  unfold parseBindMessage readBind Coding.bind map
  rcases readCString payload with _ | ⟨portal, p⟩
  · rfl
  rcases h2 : readCString p with _ | ⟨srcStmt, q⟩
  · simp [h2]
  rcases h3 : readInt16 q with _ | ⟨n, r⟩
  · simp [h2, h3]
  rcases h4 : readFormats n r with _ | ⟨formats, u⟩
  · simp [h2, h3, ← readFormats_many, h4]
  rcases h5 : readInt16 u with _ | ⟨k, w⟩
  · simp [h2, h3, ← readFormats_many, h4, h5]
  by_cases hk : 10000 < k
  · simp [h2, h3, ← readFormats_many, h4, h5, hk]
  · rcases h6 : readValues k w with _ | ⟨values, x⟩
    · simp [h2, h3, ← readFormats_many, ← readValues_many, h4, h5, hk, h6]
    · simp [h2, h3, ← readFormats_many, ← readValues_many, h4, h5, hk, h6]

/-- **The head of a Bind payload is read field by field.** -/
theorem reads_bind (m : BindMsg) {srcStmt : Bytes} (hstmt : (0 : UInt8) ∉ srcStmt) :
    Reads readBind (m.head srcStmt) (srcStmt, m.formats, m.values) := by
  have hformats : Reads (Coding.bind readInt16 (many readFormat))
      (BigEndian.toBytes 2 m.formats.length ++ m.formats.flatMap encodeFormat) m.formats :=
    (reads_int16 m.formats_le).bind (.many fun f hf => reads_format (m.format_range f hf))
  have hvalues : Reads (Coding.bind readInt16 fun n => if 10000 < n then fun _ => none else many readValue n)
      (BigEndian.toBytes 2 m.values.length ++ m.values.flatMap encodeValue) m.values := by
    refine (reads_int16 (m.values_le.trans (by decide))).bind ?_
    rw [if_neg (Nat.not_lt.mpr m.values_le)]
    exact .many fun v hv => reads_value (m.value_lt v hv)
  exact (reads_cstring m.portal_text).bind ((reads_cstring hstmt).bind (hformats.bind (hvalues.map _)))

theorem readOIDs_flatMap : ∀ {oids : List ℕ}, (∀ oid ∈ oids, oid < 2 ^ 32) →
    readOIDs oids.length (oids.flatMap (BigEndian.toBytes 4)) = oids
  | [], _ => rfl
  | oid :: oids, h => by
    obtain ⟨hoid, hoids⟩ := List.forall_mem_cons.mp h
    have hlen := BigEndian.length_toBytes 4 oid
    rw [List.flatMap_cons, List.length_cons, readOIDs, if_pos (by rw [List.length_append, hlen]; omega), uint32,
      List.take_left' hlen, List.drop_left' hlen, BigEndian.ofBytes_toBytes 4 oid (by omega), readOIDs_flatMap hoids]

theorem parseParseMessage_payload (m : ParseMsg) :
    parseParseMessage m.payload = some (m.stmtName, m.sql, m.paramOIDs) := by
  rw [parseParseMessage, ParseMsg.payload, (reads_cstring m.stmtName_text).append]
  dsimp only
  rw [(reads_cstring m.sql_text).append]
  dsimp only
  rw [(reads_int16 m.count_le).append]
  dsimp only
  rw [readOIDs_flatMap m.oid_lt]

/-- The code's choice of a format is the protocol's. -/
theorem zipParams_formatOf (oids : List ℕ) (formats : List ℤ) (values : List (Option Bytes)) :
    zipParams oids formats values = (List.range (max oids.length values.length)).map fun i =>
      { oid := oids.getD i 0, value := values.getD i none, format := formatOf formats i } := by
  unfold zipParams formatOf
  rcases formats with _ | ⟨f, _ | ⟨g, fs⟩⟩
  · rfl
  · rfl
  · rfl

/-- **Extended-query decoding inverts the wire format.** A Parse payload gives back its
statement, and a Bind payload for it the parameters, each with its OID, its value and
its format; and no Bind payload that is cut off before the end of its values is
accepted. -/
theorem extended_query_inverts (c : BindCorrelator) (conn : ConnID) (p : ParseMsg) (b : BindMsg) :
    parseParseMessage p.payload = some (p.stmtName, p.sql, p.paramOIDs) ∧
      (∃ r, (c.onParse conn p.stmtName p.sql p.paramOIDs).onBind conn (b.payload p.stmtName) = some r ∧
        r.stmtName = p.stmtName ∧ r.sql = p.sql ∧ r.params.length = max p.paramOIDs.length b.values.length ∧
        ∀ i < max p.paramOIDs.length b.values.length, r.params[i]? =
          some { oid := p.paramOIDs.getD i 0, value := b.values.getD i none, format := formatOf b.formats i }) ∧
      ∀ pre, pre <+: b.payload p.stmtName → pre.length < (b.head p.stmtName).length → parseBindMessage pre = none := by
  have hreads := reads_bind b p.stmtName_text
  refine ⟨parseParseMessage_payload p, ?_, ?_⟩
  · have hbind : parseBindMessage (b.payload p.stmtName) = some (p.stmtName, b.formats, b.values) := by
      rw [parseBindMessage_readBind, BindMsg.payload, hreads.append]
      rfl
    refine ⟨⟨p.stmtName, p.sql, zipParams p.paramOIDs b.formats b.values⟩, ?_, rfl, rfl, ?_, ?_⟩
    · simp [BindCorrelator.onBind, BindCorrelator.onParse, hbind]
    · rw [zipParams_formatOf, List.length_map, List.length_range]
    · intro i hi
      rw [zipParams_formatOf, List.getElem?_map, List.getElem?_range hi]
      rfl
  · intro pre hpre hlen
    have hhead : pre <+: b.head p.stmtName :=
      List.prefix_of_prefix_length_le hpre (List.prefix_append _ _) hlen.le
    rw [parseBindMessage_readBind, hreads.cut pre hhead (fun heq => absurd (congrArg List.length heq) hlen.ne)]
    rfl

end PgShadow
