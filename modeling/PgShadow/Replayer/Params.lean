/-
# Bound parameters from the wire to the target

A parameter value passes three representations: the length field of the Bind
(-1 for NULL), a Go slice (nil for NULL) and, in the file and Kafka queues, the
length field of the record (`Queue.Codec`). `splitParams`
(`pkg/replayer/replayer_impl.go`) hands what comes out to the target.

The record has no length for NULL, so a value of no bytes comes out as NULL.
The arrays are exactly the Bind's if no bound value is empty on such a queue,
no length is below -1, and the Parse declared no more parameters than were
bound (`params_preserved_iff`).

Key definitions: `splitParams`, `Backend.deliver`, `carried`, `boundArrays`.
Key theorems: `params_preserved_iff`, `empty_becomes_null`.
-/
import Mathlib.Data.List.GetD
import PgShadow.Pipeline.Trace
import PgShadow.Queue.Codec

namespace PgShadow

/-- `splitParams`: OIDs, values and format codes. -/
def splitParams (params : List ParamInfo) : List ℕ × List (Option Bytes) × List ℤ :=
  (params.map (·.oid), params.map (·.value), params.map (·.format))

/-- The queue backends. -/
inductive Backend
  | ringbuffer
  | file
  | kafka
deriving DecidableEq

/-- The event that comes out of a queue for one that went in: the ring buffer
hands on the event itself, the others a record of it. -/
def Backend.deliver : Backend → SQLEvent → Option SQLEvent
  | .ringbuffer, ev => some ev
  | .file, ev => (decodeBinary (encodeBinary ev)).toOption
  | .kafka, ev => (decodeBinary (encodeBinary ev)).toOption

/-! ### What a Bind carries -/

/-- `n` values as they stand on the wire, each with its length field. -/
def carriedValues : ℕ → Bytes → Option (List (ℤ × Bytes) × Bytes)
  | 0, p => some ([], p)
  | n + 1, p => do
    let (length, p) ← readInt32 p
    if (p.length : ℤ) < length then none
    else
      let (vs, q) ← carriedValues n (p.drop length.toNat)
      return ((length, p.take length.toNat) :: vs, q)

/-- The statement name, format codes and values that a Bind carries. -/
def carried (payload : Bytes) : Option (Bytes × List ℤ × List (ℤ × Bytes)) := do
  let (_, p) ← readCString payload
  let (srcStmt, p) ← readCString p
  let (formatCount, p) ← readInt16 p
  let (formats, p) ← readFormats formatCount p
  let (valueCount, p) ← readInt16 p
  if 10000 < valueCount then none
  else
    let (values, _) ← carriedValues valueCount p
    return (srcStmt, formats, values)

/-- The format code in force for parameter `i`: text if the Bind has none, the
same for all if it has one. -/
def effectiveFormat (formats : List ℤ) (i : ℕ) : ℤ :=
  match formats with
  | [] => 0
  | [f] => f
  | fs => fs.getD i 0

/-- The value that was bound: length -1 is NULL, anything else the bytes sent. -/
def sent (v : ℤ × Bytes) : Option Bytes := if v.1 = -1 then none else some v.2

/-- The arrays that say what was bound, one entry for each value of the Bind. -/
def boundArrays (oids : List ℕ) (formats : List ℤ) (vs : List (ℤ × Bytes)) :
    List ℕ × List (Option Bytes) × List ℤ :=
  ((List.range vs.length).map fun i => oids.getD i 0, vs.map sent,
    (List.range vs.length).map (effectiveFormat formats))

/-- A value as `parseBindMessage` understands it. -/
def heard (v : ℤ × Bytes) : Option Bytes := if v.1 < 0 then none else some v.2

theorem readValues_eq : ∀ (n : ℕ) (p : Bytes),
    readValues n p = (carriedValues n p).map fun r => (r.1.map heard, r.2)
  | 0, _ => rfl
  | n + 1, p => by
    rw [readValues, carriedValues]
    rcases readInt32 p with _ | ⟨length, p⟩
    · rfl
    · by_cases hneg : length < 0
      · have hnat : length.toNat = 0 := Int.toNat_of_nonpos hneg.le
        have hlen : ¬ (p.length : ℤ) < length := by omega
        simp only [Option.bind_eq_bind, Option.bind_some, if_pos hneg, if_neg hlen, hnat, List.drop_zero,
          readValues_eq n p]
        rcases carriedValues n p with _ | ⟨vs, q⟩
        · rfl
        · simp [heard, hneg]
      · by_cases hlen : (p.length : ℤ) < length
        · simp only [Option.bind_eq_bind, Option.bind_some, if_neg hneg, if_pos hlen, Option.map_none]
        · simp only [Option.bind_eq_bind, Option.bind_some, if_neg hneg, if_neg hlen, readValues_eq n]
          rcases carriedValues n (p.drop length.toNat) with _ | ⟨vs, q⟩
          · rfl
          · simp [heard, hneg]

theorem parseBindMessage_eq (payload : Bytes) :
    parseBindMessage payload = (carried payload).map fun r => (r.1, r.2.1, r.2.2.map heard) := by
  unfold parseBindMessage carried
  rcases readCString payload with _ | ⟨_, p⟩
  · rfl
  simp only [Option.bind_eq_bind, Option.bind_some]
  rcases readCString p with _ | ⟨srcStmt, p⟩
  · rfl
  simp only [Option.bind_some]
  rcases readInt16 p with _ | ⟨formatCount, p⟩
  · rfl
  simp only [Option.bind_some]
  rcases readFormats formatCount p with _ | ⟨formats, p⟩
  · rfl
  simp only [Option.bind_some]
  rcases readInt16 p with _ | ⟨valueCount, p⟩
  · rfl
  simp only [Option.bind_some, readValues_eq]
  by_cases h : 10000 < valueCount
  · rw [if_pos h, if_pos h]
    rfl
  · rw [if_neg h, if_neg h]
    rcases carriedValues valueCount p with _ | r <;> rfl

/-! ### Sizes and ranges of what was read -/

theorem word_lt {w : ℕ} {p : Bytes} (h : w ≤ p.length) : BigEndian.ofBytes (p.take w) < 256 ^ w := by
  have hlt := BigEndian.ofBytes_lt (p.take w)
  rwa [List.length_take, min_eq_left h] at hlt

theorem length_readCString {buf s rest : Bytes} (h : readCString buf = some (s, rest)) :
    s.length + rest.length + 1 = buf.length := by
  unfold readCString at h
  have happ := congrArg List.length (List.takeWhile_append_dropWhile (p := (· != 0)) (l := buf))
  rw [List.length_append] at happ
  rcases hd : buf.dropWhile (· != 0) with _ | ⟨_, tl⟩ <;> rw [hd] at h happ
  · cases h
  · obtain ⟨rfl, rfl⟩ := Prod.mk.inj (Option.some.inj h)
    rw [List.length_cons] at happ
    omega

theorem readInt16_bounds {buf rest : Bytes} {n : ℕ} (h : readInt16 buf = some (n, rest)) :
    rest.length + 2 = buf.length ∧ n < 65536 := by
  unfold readInt16 at h
  by_cases h2 : buf.length < 2
  · rw [if_pos h2] at h
    cases h
  · rw [if_neg h2] at h
    obtain ⟨rfl, rfl⟩ := Prod.mk.inj (Option.some.inj h)
    exact ⟨by rw [List.length_drop]; omega, word_lt (not_lt.1 h2)⟩

theorem readOIDs_bounds : ∀ (n : ℕ) (p : Bytes),
    (readOIDs n p).length ≤ p.length ∧ ∀ oid ∈ readOIDs n p, oid < 256 ^ 4
  | 0, p => ⟨Nat.zero_le _, fun _ h => absurd h List.not_mem_nil⟩
  | n + 1, p => by
    rw [readOIDs]
    by_cases h : 4 ≤ p.length
    · obtain ⟨hlen, hlt⟩ := readOIDs_bounds n (p.drop 4)
      rw [List.length_drop] at hlen
      rw [if_pos h]
      refine ⟨by rw [List.length_cons]; omega, fun oid hmem => ?_⟩
      rcases List.mem_cons.1 hmem with rfl | hmem
      · exact word_lt h
      · exact hlt oid hmem
    · rw [if_neg h]
      exact ⟨Nat.zero_le _, fun _ h => absurd h List.not_mem_nil⟩

theorem readFormats_bounds : ∀ (n : ℕ) {p q : Bytes} {fs : List ℤ}, readFormats n p = some (fs, q) →
    q.length ≤ p.length ∧ ∀ f ∈ fs, -32768 ≤ f ∧ f < 32768
  | 0, p, q, fs, h => by
    obtain ⟨rfl, rfl⟩ := Prod.mk.inj (Option.some.inj h)
    exact ⟨le_rfl, fun f hf => absurd hf List.not_mem_nil⟩
  | n + 1, p, q, fs, h => by
    simp only [readFormats, Option.bind_eq_bind, Option.bind_eq_some_iff] at h
    obtain ⟨⟨fc, r⟩, hr, ⟨gs, q'⟩, hrest, heq⟩ := h
    obtain ⟨rfl, rfl⟩ := Prod.mk.inj (Option.some.inj heq)
    obtain ⟨hlen, hrange⟩ := readFormats_bounds n hrest
    obtain ⟨hrlen, hlt⟩ := readInt16_bounds hr
    refine ⟨by dsimp only at hlen ⊢; omega, fun f hf => ?_⟩
    rcases List.mem_cons.1 hf with rfl | hf
    · unfold signed
      split <;> dsimp only at hlt ⊢ <;> omega
    · exact hrange f hf

/-- Each value takes its length field and its bytes from the payload. -/
theorem carriedValues_bounds : ∀ (n : ℕ) {p q : Bytes} {vs : List (ℤ × Bytes)},
    carriedValues n p = some (vs, q) → vs.length ≤ p.length ∧
      ∀ v ∈ vs, v.2.length = v.1.toNat ∧ v.2.length ≤ p.length
  | 0, p, q, vs, h => by
    obtain ⟨rfl, rfl⟩ := Prod.mk.inj (Option.some.inj h)
    exact ⟨Nat.zero_le _, fun v hv => absurd hv List.not_mem_nil⟩
  | n + 1, p, q, vs, h => by
    simp only [carriedValues, readInt32, Option.bind_eq_bind, Option.bind_eq_some_iff] at h
    obtain ⟨⟨length, r⟩, hr, h⟩ := h
    by_cases h4 : p.length < 4
    · rw [if_pos h4] at hr
      cases hr
    · rw [if_neg h4] at hr
      obtain ⟨rfl, rfl⟩ := Prod.mk.inj (Option.some.inj hr)
      by_cases hshort : ((p.drop 4).length : ℤ) < signed 32 (uint32 p)
      · simp only [if_pos hshort] at h
        cases h
      · simp only [if_neg hshort, Option.bind_eq_some_iff] at h
        obtain ⟨⟨ws, q'⟩, hrest, heq⟩ := h
        obtain ⟨rfl, rfl⟩ := Prod.mk.inj (Option.some.inj heq)
        obtain ⟨hlen, hmem⟩ := carriedValues_bounds n hrest
        rw [List.length_drop, List.length_drop] at hlen
        rw [List.length_drop] at hshort
        refine ⟨by show ws.length + 1 ≤ p.length; omega, fun v hv => ?_⟩
        rcases List.mem_cons.1 hv with rfl | hv
        · rw [List.length_take, List.length_drop]
          omega
        · obtain ⟨heq, hle⟩ := hmem v hv
          rw [List.length_drop, List.length_drop] at hle
          exact ⟨heq, by omega⟩

/-- **What a Bind carries is no longer than its payload, and its format codes are
16-bit.** -/
theorem carried_bounds {payload name : Bytes} {formats : List ℤ} {vs : List (ℤ × Bytes)}
    (h : carried payload = some (name, formats, vs)) :
    name.length ≤ payload.length ∧ vs.length ≤ payload.length ∧ (∀ f ∈ formats, -32768 ≤ f ∧ f < 32768) ∧
      ∀ v ∈ vs, v.2.length = v.1.toNat ∧ v.2.length ≤ payload.length := by
  simp only [carried, Option.bind_eq_bind, Option.bind_eq_some_iff] at h
  obtain ⟨⟨portal, p₁⟩, h₁, ⟨srcStmt, p₂⟩, h₂, ⟨formatCount, p₃⟩, h₃, ⟨fs, p₄⟩, h₄, ⟨valueCount, p₅⟩, h₅, h⟩ := h
  by_cases hcount : 10000 < valueCount
  · rw [if_pos hcount] at h
    cases h
  · simp only [if_neg hcount, Option.bind_eq_some_iff] at h
    obtain ⟨⟨ws, q⟩, hws, heq⟩ := h
    cases heq
    dsimp only at h₂ h₃ h₄ h₅ hws
    have hlen₁ := length_readCString h₁
    have hlen₂ := length_readCString h₂
    have hlen₃ := (readInt16_bounds h₃).1
    have hlen₄ := (readFormats_bounds _ h₄).1
    have hlen₅ := (readInt16_bounds h₅).1
    obtain ⟨hlen, hmem⟩ := carriedValues_bounds valueCount hws
    refine ⟨by omega, by show ws.length ≤ _; omega, (readFormats_bounds _ h₄).2, fun v hv => ?_⟩
    obtain ⟨heq, hle⟩ := hmem v hv
    exact ⟨heq, by omega⟩

/-! ### What the queue hands on -/

theorem zipParams_eq (oids : List ℕ) (formats : List ℤ) (values : List (Option Bytes)) :
    zipParams oids formats values = (List.range (max oids.length values.length)).map fun i =>
      ⟨oids.getD i 0, values.getD i none, effectiveFormat formats i⟩ :=
  rfl

theorem map_range_heard (g : Option Bytes → Option Bytes) (vs : List (ℤ × Bytes)) :
    (List.range vs.length).map (fun i => g ((vs.map heard).getD i none)) = vs.map fun v => g (heard v) := by
  refine List.ext_getElem (by simp) fun i hi _ => ?_
  rw [List.length_map, List.length_range] at hi
  simp [hi]

/-- The parameters of an event whose values went through `g`, against the arrays
that were bound: the number of parameters decides, then each value. -/
theorem arrays_eq_iff (g : Option Bytes → Option Bytes) (oids : List ℕ) (formats : List ℤ)
    (vs : List (ℤ × Bytes)) :
    splitParams ((zipParams oids formats (vs.map heard)).map fun p => { p with value := g p.value }) =
        boundArrays oids formats vs ↔
      oids.length ≤ vs.length ∧ ∀ v ∈ vs, g (heard v) = sent v := by
  simp only [zipParams_eq, splitParams, boundArrays, List.map_map, Function.comp_def, List.length_map,
    Prod.mk.injEq]
  constructor
  · rintro ⟨hoids, hvalues, -⟩
    have hmax : max oids.length vs.length = vs.length := by simpa using congrArg List.length hoids
    rw [hmax, map_range_heard, List.map_inj_left] at hvalues
    exact ⟨max_eq_right_iff.1 hmax, hvalues⟩
  · rintro ⟨hle, hvalues⟩
    rw [max_eq_right hle, map_range_heard]
    exact ⟨rfl, List.map_congr_left hvalues, rfl⟩

/-- The value that a record gives back. -/
def recorded (v : Option Bytes) : Option Bytes := if v.getD [] = [] then none else v

theorem recorded_eq (v : Option Bytes) : recorded v = if v.getD [] = [] then none else some (v.getD []) := by
  rcases v with _ | bs <;> rfl

theorem stored_param {p : ParamInfo} (hoid : p.oid < 256 ^ 4) (hf : -32768 ≤ p.format ∧ p.format < 32768) :
    p.stored = { p with value := recorded p.value } := by
  have hformat : Int.bmod p.format (256 ^ 2) = p.format := Int.bmod_eq_of_le (by omega) (by omega)
  rw [ParamInfo.stored, Nat.mod_eq_of_lt hoid, hformat, recorded_eq]
  rfl

theorem heard_eq_sent {v : ℤ × Bytes} : heard v = sent v ↔ -1 ≤ v.1 := by
  unfold heard sent
  by_cases hnull : v.1 = -1
  · simp [hnull]
  · by_cases hneg : v.1 < 0
    · simp only [if_pos hneg, if_neg hnull, reduceCtorEq, false_iff]
      omega
    · simp only [if_neg hneg, if_neg hnull, true_iff]
      omega

/-- A record keeps the value that was bound, apart from the empty one. -/
theorem recorded_heard_eq_sent {v : ℤ × Bytes} (hlen : v.2.length = v.1.toNat) :
    recorded (heard v) = sent v ↔ -1 ≤ v.1 ∧ v.1 ≠ 0 := by
  by_cases hzero : v.1 = 0
  · have hnil : v.2 = [] := List.length_eq_zero_iff.1 (by omega)
    simp [recorded, heard, sent, hzero, hnil]
  · have hsame : recorded (heard v) = heard v := by
      unfold recorded heard
      by_cases hneg : v.1 < 0
      · simp [hneg]
      · have hne : v.2 ≠ [] := List.ne_nil_of_length_pos (by omega)
        simp [hneg, hne]
    rw [hsame, heard_eq_sent, and_iff_left hzero]

theorem effectiveFormat_range {formats : List ℤ} (h : ∀ f ∈ formats, -32768 ≤ f ∧ f < 32768) (i : ℕ) :
    -32768 ≤ effectiveFormat formats i ∧ effectiveFormat formats i < 32768 := by
  unfold effectiveFormat
  split
  · decide
  · rename_i f
    exact h f (List.mem_singleton_self f)
  · by_cases hi : i < formats.length
    · rw [List.getD_eq_getElem _ _ hi]
      exact h _ (List.getElem_mem hi)
    · rw [List.getD_eq_default _ _ (not_lt.1 hi)]
      decide

theorem getD_oid_lt {oids : List ℕ} (h : ∀ oid ∈ oids, oid < 256 ^ 4) (i : ℕ) : oids.getD i 0 < 256 ^ 4 := by
  by_cases hi : i < oids.length
  · rw [List.getD_eq_getElem _ _ hi]
    exact h _ (List.getElem_mem hi)
  · rw [List.getD_eq_default _ _ (not_lt.1 hi)]
    decide

/-- The statement a Parse declares fits the payload, and its OIDs their words. -/
theorem parseParseMessage_bounds {payload name sql : Bytes} {oids : List ℕ}
    (h : parseParseMessage payload = some (name, sql, oids)) :
    sql.length ≤ payload.length ∧ oids.length ≤ payload.length ∧ ∀ oid ∈ oids, oid < 256 ^ 4 := by
  unfold parseParseMessage at h
  rcases h₁ : readCString payload with _ | ⟨stmtName, p₁⟩ <;> simp only [h₁] at h
  · cases h
  rcases h₂ : readCString p₁ with _ | ⟨text, p₂⟩ <;> simp only [h₂] at h
  · cases h
  have hlen₁ := length_readCString h₁
  have hlen₂ := length_readCString h₂
  rcases h₃ : readInt16 p₂ with _ | ⟨n, p₃⟩ <;> simp only [h₃] at h
  · cases h
    exact ⟨by omega, Nat.zero_le _, fun _ hmem => absurd hmem List.not_mem_nil⟩
  · cases h
    have hlen₃ := (readInt16_bounds h₃).1
    obtain ⟨hlen, hlt⟩ := readOIDs_bounds n p₃
    exact ⟨by omega, by omega, hlt⟩

/-- The event that a Bind of a declared statement enqueues. -/
theorem bind_enqueues {sp : StreamProcessor} {conn : ConnID} {ts : ℤ} {msg : PGMessage} {name sql : Bytes}
    {oids : List ℕ} {formats : List ℤ} {vs : List (ℤ × Bytes)} {ev : SQLEvent} (htype : msg.type = msgBind)
    (hinfo : (sp.binder conn).bind (· name) = some ⟨sql, oids⟩)
    (hcarried : carried msg.payload = some (name, formats, vs))
    (hev : Effect.enqueue ev ∈ (sp.handleClient conn msg ts).2) :
    ev.sql = sql ∧ ev.stmtName = name ∧ ev.params = zipParams oids formats (vs.map heard) ∧
      ev.copyData = [] := by
  have hsees := sees_self sp conn
  have hstmts : (sp.session conn).stmts name = some ⟨sql, oids⟩ := by
    obtain ⟨stmts, hconn, hname⟩ := Option.bind_eq_some_iff.1 hinfo
    show (sp.binder conn).getD GoMap.empty name = _
    rw [hconn]
    exact hname
  have hreq : sp.env.request msg = .execute name formats (vs.map heard) := by
    unfold Env.request
    simp only [htype, parseBindMessage_eq, hcarried]
    rfl
  rw [(sees_handleClient hsees msg ts).2, hreq] at hev
  have hmem := (enqueued_answer_sublist _ _ _ _ _).subset (List.mem_filterMap.2 ⟨_, hev, rfl⟩)
  simp only [decided_answer, Session.eventOf, hstmts, Option.map_some, Option.toList_some,
    List.mem_singleton] at hmem
  subst hmem
  exact ⟨rfl, rfl, rfl, rfl⟩

theorem mem_zipParams {oids : List ℕ} {formats : List ℤ} {values : List (Option Bytes)} {p : ParamInfo}
    (h : p ∈ zipParams oids formats values) :
    ∃ i, p = ⟨oids.getD i 0, values.getD i none, effectiveFormat formats i⟩ := by
  rw [zipParams_eq] at h
  obtain ⟨i, -, rfl⟩ := List.mem_map.1 h
  exact ⟨i, rfl⟩

theorem length_getD_heard {vs : List (ℤ × Bytes)} {n : ℕ} (h : ∀ v ∈ vs, v.2.length ≤ n) (i : ℕ) :
    (((vs.map heard).getD i none).getD []).length ≤ n := by
  by_cases hi : i < vs.length
  · have hv := h _ (List.getElem_mem hi)
    rw [List.getD_eq_getElem _ _ (by rwa [List.length_map]), List.getElem_map]
    unfold heard
    by_cases hneg : vs[i].1 < 0
    · rw [if_pos hneg]
      exact Nat.zero_le _
    · rw [if_neg hneg]
      exact hv
  · rw [List.getD_eq_default _ _ (by rw [List.length_map]; omega)]
    exact Nat.zero_le _

/-- **What the target is given is what was bound**, exactly if no empty value goes
through a record. Fewer values than declared, and lengths below -1, are what the
server refuses a Bind for. -/
theorem params_preserved_iff (b : Backend) (sp : StreamProcessor) (conn : ConnID) (ts : ℤ) (parse : Bytes)
    (msg : PGMessage) (name sql : Bytes) (oids : List ℕ) (formats : List ℤ) (vs : List (ℤ × Bytes))
    (ev : SQLEvent) (hparse : parse.length < 256 ^ 4) (hmsg : msg.payload.length < 256 ^ 4)
    (hdecl : parseParseMessage parse = some (name, sql, oids)) (htype : msg.type = msgBind)
    (hinfo : (sp.binder conn).bind (· name) = some ⟨sql, oids⟩)
    (hcarried : carried msg.payload = some (name, formats, vs))
    (hev : Effect.enqueue ev ∈ (sp.handleClient conn msg ts).2) :
    (b.deliver ev).map (fun out => splitParams out.params) = some (boundArrays oids formats vs) ↔
      oids.length ≤ vs.length ∧ (∀ v ∈ vs, -1 ≤ v.1) ∧ (b = .ringbuffer ∨ ∀ v ∈ vs, v.1 ≠ 0) := by
  obtain ⟨hsql, hname, hparams, hcopy⟩ := bind_enqueues htype hinfo hcarried hev
  obtain ⟨hnamelen, hcount, hformats, hvs⟩ := carried_bounds hcarried
  obtain ⟨hsqllen, hoidcount, hoids⟩ := parseParseMessage_bounds hdecl
  have hdirect : splitParams ev.params = boundArrays oids formats vs ↔
      oids.length ≤ vs.length ∧ ∀ v ∈ vs, -1 ≤ v.1 := by
    have h := arrays_eq_iff id oids formats vs
    simp only [id_eq, heard_eq_sent] at h
    rw [hparams, ← h, List.map_id']
  have hrecord : ((decodeBinary (encodeBinary ev)).toOption.map fun out => splitParams out.params) =
      some (boundArrays oids formats vs) ↔ oids.length ≤ vs.length ∧ ∀ v ∈ vs, -1 ≤ v.1 ∧ v.1 ≠ 0 := by
    have henc : Encodable ev := by
      refine ⟨by rw [hsql]; omega, by rw [hname]; omega, ?_, fun p hp => ?_, by rw [hcopy]; decide, ?_⟩
      · rw [hparams, zipParams_eq, List.length_map, List.length_range, List.length_map]
        omega
      · rw [hparams] at hp
        obtain ⟨i, rfl⟩ := mem_zipParams hp
        exact (length_getD_heard (fun v hv => (hvs v hv).2) i).trans_lt hmsg
      · rw [hcopy]
        exact fun d hd => absurd hd List.not_mem_nil
    have hstored : (stored ev).params = ev.params.map fun p => { p with value := recorded p.value } := by
      refine List.map_congr_left fun p hp => ?_
      rw [hparams] at hp
      obtain ⟨i, rfl⟩ := mem_zipParams hp
      exact stored_param (getD_oid_lt hoids i) (effectiveFormat_range hformats i)
    rw [decode_encode henc]
    show some (splitParams (stored ev).params) = _ ↔ _
    rw [hstored, hparams, Option.some_inj, arrays_eq_iff]
    refine and_congr_right fun _ => forall₂_congr fun v hv => ?_
    exact recorded_heard_eq_sent (hvs v hv).1
  rcases b with _ | _ | _
  · show some (splitParams ev.params) = _ ↔ _
    rw [Option.some_inj, hdirect]
    simp
  · show ((decodeBinary (encodeBinary ev)).toOption.map fun out => splitParams out.params) = _ ↔ _
    rw [hrecord]
    simp [forall_and]
  · show ((decodeBinary (encodeBinary ev)).toOption.map fun out => splitParams out.params) = _ ↔ _
    rw [hrecord]
    simp [forall_and]

/-- A statement with one parameter of type text. -/
def insertOne : Bytes := bytes "s\x00INSERT INTO t VALUES ($1)\x00\x00\x01\x00\x00\x00\x19"

/-- A processor that saw it declared. -/
def inserting : StreamProcessor :=
  ((defaultProcessor ⟨id, id⟩ {} false).handleClient someConn (typedMsg (msgParse, insertOne)) 0).1

/-- A Bind of it to the value `v`, which is shorter than 256 bytes. -/
def bindOne (v : Bytes) : PGMessage :=
  typedMsg (msgBind, bytes "\x00s\x00\x00\x00\x00\x01\x00\x00\x00" ++ [UInt8.ofNat v.length] ++ v)

/-- The event of that Bind. -/
def insertion (v : Bytes) : SQLEvent :=
  { conn := someConn
    sql := bytes "INSERT INTO t VALUES ($1)"
    timestamp := 0
    txID := 1
    seq := 1
    extended := true
    stmtName := bytes "s"
    params := [⟨25, some v, 0⟩] }

theorem params_preserved_text :
    (Backend.file.deliver (insertion (bytes "a"))).map (fun out => splitParams out.params) =
      some (boundArrays [25] [] [(1, bytes "a")]) :=
  (params_preserved_iff .file inserting someConn 0 insertOne (bindOne (bytes "a")) (bytes "s")
    (bytes "INSERT INTO t VALUES ($1)") _ _ _ _ (by decide +kernel) (by decide +kernel) (by decide +kernel) rfl
    (by decide +kernel) (by decide +kernel) (by decide +kernel)).2 (by decide +kernel)

/-- The empty value is bound, and the file and Kafka queues deliver NULL. -/
theorem empty_becomes_null :
    carried (bindOne []).payload = some (bytes "s", [], [(0, [])]) ∧
      Effect.enqueue (insertion []) ∈ (inserting.handleClient someConn (bindOne []) 0).2 ∧
      boundArrays [25] [] [(0, [])] = ([25], [some []], [0]) ∧
      ∀ b : Backend, (b.deliver (insertion [])).map (fun out => splitParams out.params) =
        some ([25], [if b = .ringbuffer then some [] else none], [0]) := by
  refine ⟨by decide +kernel, by decide +kernel, by decide +kernel, fun b => ?_⟩
  rcases b with _ | _ | _ <;> decide +kernel

end PgShadow
