/-
# The codec on arbitrary bytes

A damaged record or a foreign message reaches `decodeBinary` of
`pkg/queue/filequeue_codec.go` as any bytes at all. Two things go wrong. An address
whose length byte is not 4 is read as 16 bytes, but only as many as the length byte
says were checked for; and the counts of parameters and COPY chunks are allocated
as they stand, before anything is read.

The layouts of a record (`IsAddr`, `IsText`, `IsParam`, `IsHead`) say where the
decoder finds what it reads. With them the records that break it are described by
their bytes (`ShortAddress`, `ExcessCount`), and there are no others
(`decode_safe_iff`).

Key definitions: `allocated`, `ShortAddress`, `ExcessCount`.
Key theorems: `outOfRange_iff`, `decode_safe_iff`.
-/
import PgShadow.Queue.Codec

namespace PgShadow

open Scan

/-! ### What is allocated -/

/-- A count word. -/
def readCount : Scanner DecodeError ℕ := do
  needBytes 4
  word 4

/-- The fields before the parameters. -/
def readHead : Scanner DecodeError SQLEvent := do
  let srcIP ← readAddr
  let srcPort ← readPort
  let dstIP ← readAddr
  let dstPort ← readPort
  let sql ← readText
  needBytes 8
  let timestamp ← readInt 8
  needBytes 16
  let txID ← word 8
  let seq ← word 8
  needBytes 1
  let extended ← word 1
  let stmtName ← readText
  pure { conn := ⟨srcIP, srcPort, dstIP, dstPort⟩, sql, timestamp, txID, seq, extended := extended = 1, stmtName }

/-- The chunks and the rest. -/
def readTail (ev : SQLEvent) (params : List ParamInfo) : Scanner DecodeError SQLEvent := do
  let copyData ← readList readText
  needBytes 8
  let sourceExecTime ← readInt 8
  pure { ev with params, copyData, sourceExecTime }

theorem readEvent_eq : readEvent = readHead >>= fun ev => readList readParam >>= readTail ev := by
  simp only [readEvent, readHead, bind_assoc, pure_bind]
  rfl

/-- The word that a scanner stops at, if it gets there. -/
def countAfter {α : Type} (p : Scanner DecodeError α) (data : Bytes) : Option ℕ :=
  match (p >>= fun _ => readCount) data 0 with
  | .ok (n, _) => some n
  | .error _ => none

/-- The element counts that `decodeBinary` allocates: `make([]core.ParamInfo, n)` at
the count of the parameters, `make([][]byte, n)` at that of the chunks. -/
def allocated (data : Bytes) : List ℕ :=
  (countAfter readHead data).toList ++
    (countAfter (readHead >>= fun _ => readList readParam) data).toList

/-! ### Layouts -/

/-- A length byte and as many bytes. -/
def IsAddr (bs : Bytes) : Prop := ∃ n a, bs = n :: a ∧ a.length = n.toNat

/-- A length word and as many bytes. -/
def IsText (bs : Bytes) : Prop := ∃ w s, bs = w ++ s ∧ w.length = 4 ∧ LittleEndian.ofBytes w = s.length

/-- Type, format and value of a parameter. -/
def IsParam (bs : Bytes) : Prop := ∃ h t, bs = h ++ t ∧ h.length = 6 ∧ IsText t

/-- The two addresses with their ports, the statement, time, transaction, number
and kind, and the name of the prepared statement. -/
def IsHead (bs : Bytes) : Prop :=
  ∃ a p a' p' sql mid stmt, bs = a ++ (p ++ (a' ++ (p' ++ (sql ++ (mid ++ stmt))))) ∧
    IsAddr a ∧ p.length = 2 ∧ IsAddr a' ∧ p'.length = 2 ∧ IsText sql ∧ mid.length = 25 ∧ IsText stmt

/-- The length byte is not 4 and not more than the bytes behind it, but these are
fewer than 16. -/
def ShortAt (s : Bytes) : Prop := ∃ n rest, s = n :: rest ∧ n.toNat ≠ 4 ∧ n.toNat ≤ rest.length ∧ rest.length < 16

/-- The source or the destination address is such. -/
def ShortAddress (data : Bytes) : Prop :=
  ShortAt data ∨ ∃ a p rest, data = a ++ (p ++ rest) ∧ IsAddr a ∧ p.length = 2 ∧ ShortAt rest

/-- The count of the parameters or, behind them, of the chunks exceeds the length of
the input. -/
def ExcessCount (data : Bytes) : Prop :=
  (∃ head w rest, data = head ++ (w ++ rest) ∧ IsHead head ∧ w.length = 4 ∧ data.length < LittleEndian.ofBytes w) ∨
    ∃ head w, ∃ parts : List Bytes, ∃ w' rest, data = head ++ (w ++ (parts.flatten ++ (w' ++ rest))) ∧
      IsHead head ∧ w.length = 4 ∧ LittleEndian.ofBytes w = parts.length ∧ (∀ b ∈ parts, IsParam b) ∧ w'.length = 4 ∧
      data.length < LittleEndian.ofBytes w'

/-! ### Addresses -/

theorem readAddr_nil {buf : Bytes} {off : ℕ} (h : buf.drop off = []) :
    readAddr buf off = .error (.refused (.shortRead off 1 (buf.length - off))) := by
  have hlen := congrArg List.length h
  rw [List.length_drop, List.length_nil] at hlen
  exact bind_error (if_neg (by omega))

/-- **Reading an address**, by its length byte and what is behind it. -/
theorem readAddr_cons {buf rest : Bytes} {off : ℕ} {b : UInt8} (h : buf.drop off = b :: rest) :
    readAddr buf off =
      if b.toNat ≤ rest.length then
        if b.toNat = 4 then .ok (.v4 (BitVec.ofNat 32 (BigEndian.ofBytes (rest.take 4))), off + 1 + b.toNat)
        else if 16 ≤ rest.length then
          .ok (.v6 (BitVec.ofNat 128 (BigEndian.ofBytes (rest.take 16))) [], off + 1 + b.toNat)
        else .error .outOfRange
      else .error (.refused (.shortRead (off + 1) b.toNat (buf.length - (off + 1)))) := by
  have hlen := congrArg List.length h
  rw [List.length_drop, List.length_cons] at hlen
  have hrest : buf.drop (off + 1) = rest := by rw [← List.drop_drop, h, List.drop_succ_cons, List.drop_zero]
  have hword : (word 1 : Scanner DecodeError ℕ) buf off = .ok (b.toNat, off + 1) := by
    rw [word, bind_ok (take_eq (by omega)), h]
    simp only [List.take_succ_cons, List.take_zero, LittleEndian.ofBytes, Nat.mul_zero, Nat.add_zero]
    rfl
  have hlook : ∀ n, n ≤ rest.length → (look n : Scanner DecodeError _) buf (off + 1) = .ok (rest.take n, off + 1) := by
    intro n hn
    rw [look, if_pos (by omega), hrest]
  have hneed : ∀ {n : ℕ} {o : ℕ}, o + n ≤ buf.length → needBytes n buf o = .ok ((), o) := fun hn => if_pos hn
  rw [readAddr, bind_ok (hneed (by omega)), bind_ok hword]
  by_cases hb : b.toNat ≤ rest.length
  · rw [if_pos hb, bind_ok (hneed (by omega))]
    by_cases h4 : b.toNat = 4
    · rw [if_pos h4, if_pos h4, bind_ok (hlook 4 (by omega))]
      rfl
    · rw [if_neg h4, if_neg h4]
      by_cases h16 : 16 ≤ rest.length
      · rw [if_pos h16, bind_ok (hlook 16 h16)]
        rfl
      · rw [if_neg h16, bind_error (if_neg (by omega))]
  · rw [if_neg hb, bind_error (if_neg (by omega))]

/-- An address reaches outside exactly if it is short. -/
theorem readAddr_outOfRange_iff (buf : Bytes) (off : ℕ) :
    readAddr buf off = .error .outOfRange ↔ ShortAt (buf.drop off) := by
  rcases h : buf.drop off with _ | ⟨b, rest⟩
  · rw [readAddr_nil h]
    exact iff_of_false nofun fun ⟨_, _, hnil, _⟩ => by cases hnil
  · rw [readAddr_cons h]
    constructor
    · intro ho
      split_ifs at ho with hb h4 h16
      · exact ⟨b, rest, rfl, h4, hb, not_le.mp h16⟩
      · cases ho
    · rintro ⟨n, r, heq, h4, hb, h16⟩
      cases heq
      rw [if_pos hb, if_neg h4, if_neg (not_le.mpr h16)]

theorem takes_addr : Takes readAddr fun bs _ => IsAddr bs := by
  intro buf off x off' hx
  rcases h : buf.drop off with _ | ⟨b, rest⟩
  · rw [readAddr_nil h] at hx
    cases hx
  · rw [readAddr_cons h] at hx
    by_cases hb : b.toNat ≤ rest.length
    · have hlen : (rest.take b.toNat).length = b.toNat := List.length_take_of_le hb
      have hoff : off' = off + 1 + b.toNat := by
        rw [if_pos hb] at hx
        split_ifs at hx <;> cases hx <;> rfl
      refine ⟨b :: rest.take b.toNat, rest.drop b.toNat, ?_, ?_, b, _, rfl, hlen⟩
      · rw [List.cons_append, List.take_append_drop]
      · rw [List.length_cons, hlen, hoff, Nat.add_assoc, Nat.add_comm 1]
    · rw [if_neg hb] at hx
      cases hx

theorem passes_addr {bs : Bytes} (h : IsAddr bs) : Passes readAddr bs fun _ => True := by
  obtain ⟨n, a, rfl, ha⟩ := h
  intro pre post
  have hdrop : (pre ++ (n :: a) ++ post).drop pre.length = n :: (a ++ post) := by
    rw [List.append_assoc, List.drop_left, List.cons_append]
  have hn : n.toNat ≤ (a ++ post).length := by
    rw [List.length_append]
    omega
  have hoff : pre.length + 1 + n.toNat = pre.length + (n :: a).length := by
    rw [List.length_cons, ha]
    omega
  rw [readAddr_cons hdrop, if_pos hn, hoff]
  split_ifs
  · exact Or.inr ⟨_, trivial, rfl⟩
  · exact Or.inr ⟨_, trivial, rfl⟩
  · exact Or.inl rfl

/-! ### The other fields -/

theorem inside_port : Inside readPort := Safe.need (n := 2) _ (Safe.word (m := 0) fun _ => (Inside.pure _).safe 0)

theorem inside_text : Inside readText :=
  Safe.need (n := 4) _ (Safe.word (m := 0) fun n => (Safe.need _ (safe_take n)).safe 0)

theorem inside_count : Inside readCount :=
  Safe.need (n := 4) _ fun buf off h => by
    rw [word, bind_ok (take_eq h)]
    intro he
    cases he

theorem readInt_bind {α : Type} (w : ℕ) (k : ℤ → Scanner DecodeError α) :
    readInt w >>= k = word w >>= fun n => k (Int.bmod n (256 ^ w)) := by
  rw [readInt, bind_assoc]
  rfl

theorem Safe.readInt {α : Type} {w m : ℕ} {k : ℤ → Scanner DecodeError α} (hk : ∀ z, Safe m (k z)) :
    Safe (w + m) (readInt w >>= k) := by
  rw [readInt_bind]
  exact Safe.word fun n => hk _

theorem inside_param : Inside readParam := by
  refine Safe.need (n := 10) _ (Safe.word (m := 6) fun oid => ?_)
  refine Safe.readInt (w := 2) (m := 4) fun format => Safe.word (m := 0) fun n => Inside.safe (Safe.need _ ?_) 0
  exact Safe.take (m := 0) fun v => (Inside.pure _).safe 0

theorem inside_list {α : Type} {p : Scanner DecodeError α} (hp : Inside p) : Inside (readList p) :=
  Safe.need (n := 4) _ (Safe.word (m := 0) fun n => (Inside.times hp n).safe 0)

theorem inside_tail (ev : SQLEvent) (params : List ParamInfo) : Inside (readTail ev params) :=
  (inside_list inside_text).bind fun _ =>
    Safe.need (n := 8) _ (Safe.readInt (w := 8) (m := 0) fun _ => (Inside.pure _).safe 0)

theorem takes_text : Takes readText fun bs _ => IsText bs := by
  refine ((takes_word 4).bind fun n => Takes.need _ (takes_take n)).need _ |>.imp ?_
  rintro _ _ ⟨n, b, c, rfl, ⟨hb, rfl⟩, hc, -⟩
  exact ⟨b, c, rfl, hb, hc.symm⟩

theorem takes_count : Takes readCount fun bs n => bs.length = 4 ∧ n = LittleEndian.ofBytes bs :=
  Takes.need _ (takes_word 4)

theorem takes_port : Takes readPort fun bs _ => bs.length = 2 := by
  refine (Takes.need _ ((takes_word 2).bind fun n => Takes.pure (UInt16.ofNat n))).imp ?_
  rintro _ _ ⟨n, b, c, rfl, ⟨hb, -⟩, rfl, -⟩
  rwa [List.append_nil]

theorem takes_int (w : ℕ) : Takes (readInt w) fun bs _ => bs.length = w := by
  refine ((takes_word w).bind fun n => Takes.pure (Int.bmod n (256 ^ w))).imp ?_
  rintro _ _ ⟨n, b, c, rfl, ⟨hb, -⟩, rfl, -⟩
  rwa [List.append_nil]

theorem takes_param : Takes readParam fun bs _ => IsParam bs := by
  refine (Takes.need _ ((takes_word 4).bind fun oid => (takes_int 2).bind fun format =>
    (takes_word 4).bind fun n => Takes.need _ ((takes_take n).bind fun v => Takes.pure _))).imp ?_
  rintro _ _ ⟨oid, b, _, rfl, ⟨hb, -⟩, format, c, _, rfl, hc, n, w, _, rfl, ⟨hw, rfl⟩, v, s, _, rfl, ⟨hs, -⟩, rfl, -⟩
  refine ⟨b ++ c, w ++ s, ?_, by rw [List.length_append, hb, hc], w, s, rfl, hw, hs.symm⟩
  rw [List.append_nil, List.append_assoc]

theorem takes_list {α : Type} {p : Scanner DecodeError α} {L : Bytes → Prop} (hp : Takes p fun bs _ => L bs) :
    Takes (readList p) fun bs _ => ∃ w parts, bs = w ++ List.flatten parts ∧ w.length = 4 ∧
      LittleEndian.ofBytes w = parts.length ∧ ∀ b ∈ parts, L b := by
  refine (Takes.need _ ((takes_word 4).bind fun n => hp.times n)).imp ?_
  rintro _ xs ⟨n, w, _, rfl, ⟨hw, rfl⟩, parts, hn, rfl, hparts⟩
  refine ⟨w, parts, rfl, hw, hn.symm, fun b hb => ?_⟩
  obtain ⟨i, hi, rfl⟩ := List.getElem_of_mem hb
  exact hparts.get hi (hparts.length_eq ▸ hi)

theorem takes_head : Takes readHead fun bs _ => IsHead bs := by
  have hword : ∀ w, Takes (word w : Scanner DecodeError ℕ) fun bs _ => bs.length = w :=
    fun w => (takes_word w).imp fun _ _ h => h.1
  refine (takes_addr.followed fun srcIP => takes_port.followed fun srcPort => takes_addr.followed fun dstIP =>
    takes_port.followed fun dstPort => takes_text.followed fun sql => Takes.need _ ((takes_int 8).followed fun time =>
    Takes.need _ ((hword 8).followed fun tx => (hword 8).followed fun seq => Takes.need _ ((hword 1).followed fun x =>
    takes_text.followed fun stmt => (Takes.pure _).imp fun bs _ h => h.1)))).imp ?_
  rintro _ _ ⟨a, _, rfl, ha, p, _, rfl, hp, a', _, rfl, ha', p', _, rfl, hp', sql, _, rfl, hsql,
    t, _, rfl, ht, x, _, rfl, hx, y, _, rfl, hy, z, _, rfl, hz, stmt, _, rfl, hstmt, rfl⟩
  refine ⟨a, p, a', p', sql, t ++ (x ++ (y ++ z)), stmt, ?_, ha, hp, ha', hp', hsql, ?_, hstmt⟩
  · simp only [List.append_nil, List.append_assoc]
  · simp only [List.length_append, ht, hx, hy, hz]

theorem passes_text {bs : Bytes} (h : IsText bs) : Passes readText bs fun _ => True := by
  obtain ⟨w, s, rfl, hw, hs⟩ := h
  refine Passes.need _ (by rw [List.length_append]; omega) ?_
  refine ((reads_word_of_length hw).passes (X := fun n => n = s.length) hs).bind fun n hn => ?_
  subst hn
  exact Passes.need _ le_rfl ((reads_take rfl).passes trivial)

theorem passes_port {bs : Bytes} (h : bs.length = 2) : Passes readPort bs fun _ => True :=
  Passes.need _ h.ge (((reads_word_of_length h).map UInt16.ofNat).passes trivial)

theorem passes_param {bs : Bytes} (h : IsParam bs) : Passes readParam bs fun _ => True := by
  obtain ⟨hd, _, rfl, hlen, w, s, rfl, hw, hs⟩ := h
  have hsplit : hd = hd.take 4 ++ hd.drop 4 := (List.take_append_drop 4 hd).symm
  refine Passes.need _ (by simp only [List.length_append]; omega) ?_
  rw [hsplit, List.append_assoc]
  have h4 : (hd.take 4).length = 4 := by rw [List.length_take]; omega
  have h2 : (hd.drop 4).length = 2 := by rw [List.length_drop]; omega
  refine ((reads_word_of_length h4).passes (X := fun _ => True) trivial).bind fun oid _ => ?_
  rw [readInt_bind]
  refine ((reads_word_of_length h2).passes (X := fun _ => True) trivial).bind fun format _ => ?_
  refine ((reads_word_of_length hw).passes (X := fun n => n = s.length) hs).bind fun n hn => ?_
  subst hn
  exact Passes.need _ le_rfl (((reads_take rfl).map _).passes trivial)

theorem passes_list {α : Type} {p : Scanner DecodeError α} {w : Bytes} {parts : List Bytes} (hw : w.length = 4)
    (hn : LittleEndian.ofBytes w = parts.length) (hp : ∀ b ∈ parts, Passes p b fun _ => True) :
    Passes (readList p) (w ++ parts.flatten) fun _ => True := by
  refine Passes.need _ (by rw [List.length_append]; omega) ?_
  refine ((reads_word_of_length hw).passes (X := fun n => n = parts.length) hn).bind fun n hn => ?_
  subst hn
  exact Passes.times hp

theorem passes_count {w : Bytes} (hw : w.length = 4) : Passes readCount w fun n => n = LittleEndian.ofBytes w :=
  Passes.need _ hw.ge ((reads_word_of_length hw).passes rfl)

theorem passes_head {bs : Bytes} (h : IsHead bs) : Passes readHead bs fun _ => True := by
  obtain ⟨a, p, a', p', sql, mid, stmt, rfl, ha, hp, ha', hp', hsql, hmid, hstmt⟩ := h
  have hcut : ∀ (n : ℕ) (l : Bytes), n ≤ l.length → ∃ u v, l = u ++ v ∧ u.length = n := fun n l h =>
    ⟨l.take n, l.drop n, (List.take_append_drop n l).symm, List.length_take_of_le h⟩
  -- the fixed fields, cut where the decoder reads them
  obtain ⟨t, l, rfl, ht⟩ := hcut 8 mid (by omega)
  rw [List.length_append] at hmid
  obtain ⟨x, m, rfl, hx⟩ := hcut 8 l (by omega)
  rw [List.length_append] at hmid
  obtain ⟨y, z, rfl, hy⟩ := hcut 8 m (by omega)
  rw [List.length_append] at hmid
  simp only [List.append_assoc]
  refine (passes_addr ha).bind fun srcIP _ => (passes_port hp).bind fun srcPort _ =>
    (passes_addr ha').bind fun dstIP _ => (passes_port hp').bind fun dstPort _ =>
    (passes_text hsql).bind fun text _ => ?_
  refine Passes.need _ (by simp only [List.length_append]; omega) ?_
  rw [readInt_bind]
  refine ((reads_word_of_length ht).passes (X := fun _ => True) trivial).bind fun time _ => ?_
  refine Passes.need _ (by simp only [List.length_append]; omega) ?_
  refine ((reads_word_of_length hx).passes (X := fun _ => True) trivial).bind fun tx _ => ?_
  refine ((reads_word_of_length hy).passes (X := fun _ => True) trivial).bind fun seq _ => ?_
  refine Passes.need _ (by simp only [List.length_append]; omega) ?_
  refine ((reads_word_of_length (by omega : z.length = 1)).passes (X := fun _ => True) trivial).bind fun ext _ => ?_
  exact (passes_text hstmt).map _

/-! ### The records that break the decoder -/

theorem readHead_outOfRange_iff (data : Bytes) : readHead data 0 = .error .outOfRange ↔ ShortAddress data := by
  rw [readHead, bind_outOfRange_iff, readAddr_outOfRange_iff, List.drop_zero]
  constructor
  · rintro (h | ⟨srcIP, o, hsrc, h⟩)
    · exact Or.inl h
    obtain ⟨a, r, hdata, ho, ha⟩ := takes_addr data 0 srcIP o hsrc
    rw [List.drop_zero] at hdata
    rw [bind_outOfRange_iff] at h
    rcases h with h | ⟨srcPort, o', hport, h⟩
    · exact absurd h (inside_port data o)
    obtain ⟨p, r', hr, ho', hp⟩ := takes_port data o srcPort o' hport
    have hrest : data.drop o' = r' := by rw [ho', ← List.drop_drop, hr, List.drop_left]
    rw [ho, Nat.zero_add, hdata, List.drop_left] at hr
    rw [bind_outOfRange_iff, readAddr_outOfRange_iff, hrest] at h
    rcases h with h | ⟨dstIP, o'', -, h⟩
    · exact Or.inr ⟨a, p, r', by rw [hdata, hr], ha, hp, h⟩
    · -- everything behind the second address is checked for
      refine absurd h (Inside.bind inside_port (fun _ => inside_text.bind fun _ => Safe.need (n := 8) _
        (Safe.readInt (w := 8) (m := 0) fun _ => Inside.safe (Safe.need (n := 16) _ (Safe.word (m := 8) fun _ =>
          Safe.word (m := 0) fun _ => Inside.safe (Safe.need (n := 1) _ (Safe.word (m := 0) fun _ =>
            Inside.safe (inside_text.bind fun _ => Inside.pure _) 0)) 0)) 0)) data o'')
  · rintro (h | ⟨a, p, rest, rfl, ha, hp, hshort⟩)
    · exact Or.inl h
    rcases passes_addr ha [] (p ++ rest) with h | ⟨srcIP, -, h⟩ <;>
      rw [List.nil_append, List.length_nil] at h
    · rw [readAddr_outOfRange_iff, List.drop_zero] at h
      exact Or.inl h
    rcases passes_port hp a rest with h' | ⟨srcPort, -, h'⟩
    · exact absurd h' (inside_port _ _)
    refine Or.inr ⟨srcIP, _, h, ?_⟩
    rw [Nat.zero_add, ← List.append_assoc, bind_ok h']
    refine bind_error ((readAddr_outOfRange_iff _ _).mpr ?_)
    rwa [← List.length_append, List.drop_left]

theorem readEvent_outOfRange_iff (data : Bytes) : readEvent data 0 = .error .outOfRange ↔ ShortAddress data := by
  rw [readEvent_eq, bind_outOfRange_iff, readHead_outOfRange_iff]
  refine or_iff_left ?_
  rintro ⟨ev, o, -, h⟩
  exact (inside_list inside_param).bind (inside_tail ev) data o h

/-- **The decoder reaches outside its input** exactly if an address is short. -/
theorem outOfRange_iff (data : Bytes) : decodeBinary data = .error .outOfRange ↔ ShortAddress data := by
  have hrun : Scan.run readEvent data = .error .outOfRange ↔ readEvent data 0 = .error .outOfRange := by
    rw [Scan.run]
    rcases readEvent data 0 with e | ⟨x, o⟩
    · rw [Except.map, Except.error.injEq, Except.error.injEq]
    · exact iff_of_false (fun h => by cases h) (fun h => by cases h)
  rw [← readEvent_outOfRange_iff, ← hrun, decodeBinary]
  by_cases hnil : data = []
  · subst hnil
    rw [if_pos rfl, hrun, readEvent_eq, readHead, bind_error (bind_error (readAddr_nil rfl))]
    exact iff_of_false (fun h => by cases h) (fun h => by cases h)
  · rw [if_neg hnil]

theorem countAfter_eq_some_iff {α : Type} {p : Scanner DecodeError α} {data : Bytes} {n : ℕ} :
    countAfter p data = some n ↔ ∃ o, (p >>= fun _ => readCount) data 0 = .ok (n, o) := by
  rw [countAfter]
  rcases (p >>= fun _ => readCount) data 0 with e | ⟨m, o⟩
  · simp
  · simp

/-- A count that is reached stands behind what was read before it. -/
theorem countAfter_layout {α : Type} {p : Scanner DecodeError α} {L : Bytes → Prop} {data : Bytes} {n : ℕ}
    (hp : Takes p fun bs _ => L bs) (h : countAfter p data = some n) :
    ∃ bs w rest, data = bs ++ (w ++ rest) ∧ L bs ∧ w.length = 4 ∧ n = LittleEndian.ofBytes w := by
  obtain ⟨o, ho⟩ := countAfter_eq_some_iff.mp h
  obtain ⟨_, rest, hdata, -, x, bs, w, rfl, hbs, hw, hn⟩ := (hp.bind fun _ => takes_count) data 0 n o ho
  rw [List.drop_zero, List.append_assoc] at hdata
  exact ⟨bs, w, rest, hdata, hbs, hw, hn⟩

/-- A count that stands behind what gets read is reached, unless the reader reaches
outside before. -/
theorem countAfter_of_layout {α : Type} {p : Scanner DecodeError α} {bs w rest : Bytes}
    (hp : Passes p bs fun _ => True) (hw : w.length = 4) (hin : p (bs ++ (w ++ rest)) 0 ≠ .error .outOfRange) :
    countAfter p (bs ++ (w ++ rest)) = some (LittleEndian.ofBytes w) := by
  have h := (hp.bind fun _ _ => passes_count hw) [] rest
  rw [List.nil_append, List.length_nil, List.append_assoc] at h
  rcases h with h | ⟨n, rfl, h⟩
  · rw [bind_outOfRange_iff] at h
    rcases h with h | ⟨x, o, -, h⟩
    · exact absurd h hin
    · exact absurd h (inside_count _ _)
  · exact countAfter_eq_some_iff.mpr ⟨_, h⟩

theorem takes_params : Takes (readHead >>= fun _ => readList readParam) fun bs _ =>
    ∃ head w, ∃ parts : List Bytes, bs = head ++ (w ++ parts.flatten) ∧ IsHead head ∧ w.length = 4 ∧
      LittleEndian.ofBytes w = parts.length ∧ ∀ b ∈ parts, IsParam b := by
  refine (takes_head.bind fun _ => takes_list takes_param).imp ?_
  rintro _ _ ⟨-, head, _, rfl, hhead, w, parts, rfl, hw, hn, hparts⟩
  exact ⟨head, w, parts, rfl, hhead, hw, hn, hparts⟩

/-- If the decoder stays inside its input, it allocates too much exactly if a count
that it finds is too large. -/
theorem excess_iff {data : Bytes} (hin : ¬ ShortAddress data) :
    (∃ n ∈ allocated data, data.length < n) ↔ ExcessCount data := by
  have hhead : readHead data 0 ≠ .error .outOfRange := mt (readHead_outOfRange_iff data).mp hin
  have hparams : (readHead >>= fun _ => readList readParam) data 0 ≠ .error .outOfRange := by
    rw [ne_eq, bind_outOfRange_iff]
    rintro (h | ⟨x, o, -, h⟩)
    · exact hhead h
    · exact inside_list inside_param data o h
  simp only [allocated, List.mem_append, Option.mem_toList]
  constructor
  · rintro ⟨n, h | h, hn⟩
    · obtain ⟨head, w, rest, hdata, hh, hw, rfl⟩ := countAfter_layout takes_head h
      exact Or.inl ⟨head, w, rest, hdata, hh, hw, hn⟩
    · obtain ⟨_, w', rest, hdata, ⟨head, w, parts, rfl, hh, hw, hlen, hparts⟩, hw', rfl⟩ :=
        countAfter_layout takes_params h
      rw [List.append_assoc, List.append_assoc] at hdata
      exact Or.inr ⟨head, w, parts, w', rest, hdata, hh, hw, hlen, hparts, hw', hn⟩
  · rintro (⟨head, w, rest, hdata, hh, hw, hn⟩ | ⟨head, w, parts, w', rest, hdata, hh, hw, hlen, hparts, hw', hn⟩)
    · rw [hdata] at hhead ⊢
      exact ⟨_, Or.inl (countAfter_of_layout (passes_head hh) hw hhead), hdata ▸ hn⟩
    · have hpass := (passes_head hh).bind fun _ _ => passes_list hw hlen fun b hb => passes_param (hparts b hb)
      have hsplit : data = (head ++ (w ++ parts.flatten)) ++ (w' ++ rest) := by
        rw [hdata, List.append_assoc, List.append_assoc]
      rw [hsplit] at hparams ⊢
      exact ⟨_, Or.inr (countAfter_of_layout hpass hw' hparams), hsplit ▸ hn⟩

/-- **When decoding is safe.** For any bytes: `decodeBinary` returns an error or an
event, without an access outside its input, and allocates no more elements than its
input has bytes, if and only if no address that it reads is short and no count that
it finds exceeds the length of the input. -/
theorem decode_safe_iff (data : Bytes) :
    ((∃ e, decodeBinary data = .error (.refused e)) ∨ ∃ ev, decodeBinary data = .ok ev) ∧
        (∀ n ∈ allocated data, n ≤ data.length) ↔
      ¬ ShortAddress data ∧ ¬ ExcessCount data := by
  have hreturns : ((∃ e, decodeBinary data = .error (.refused e)) ∨ ∃ ev, decodeBinary data = .ok ev) ↔
      ¬ ShortAddress data := by
    rw [← outOfRange_iff]
    rcases decodeBinary data with (e | _) | ev
    · exact iff_of_true (Or.inl ⟨e, rfl⟩) nofun
    · exact iff_of_false (by rintro (⟨_, h⟩ | ⟨_, h⟩) <;> cases h) (not_not.mpr rfl)
    · exact iff_of_true (Or.inr ⟨ev, rfl⟩) nofun
  rw [hreturns]
  refine and_congr_right fun hin => ?_
  rw [← excess_iff hin]
  push Not
  rfl

/-- A record that ends with the count of its parameters, 2^32 - 1. -/
def hugeCount : Bytes :=
  [4, 10, 0, 0, 1, 0, 0, 4, 10, 0, 0, 2, 0, 0] ++ List.replicate 33 0 ++ [255, 255, 255, 255]

/-- **Counterexample**: a single zero byte announces an address of no bytes, and the
decoder slices 16. And a record of 51 bytes makes it allocate 2^32 - 1 parameters. -/
theorem decode_unsafe :
    decodeBinary [0] = .error .outOfRange ∧ hugeCount.length = 51 ∧ allocated hugeCount = [4294967295] := by
  decide

end PgShadow
