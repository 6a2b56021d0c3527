/-
# Wire-protocol framing

`pkg/protocol/framing.go`: the parser of one direction of one connection. It
turns a byte stream into messages, in one of two framings (untyped while
`inStartup`, typed after it), and keeps the bytes of an unfinished message
between `Feed` calls.

The loop of `Feed` is the `drain` of a decoder (`framing`) whose phase is
`inStartup`. What `Feed` adds is the stall rule: a call that completes no
message and is left with more than `maxStalledBuffer` bytes, whose leading
header does not declare an acceptable length, drops the buffer and the parser
discards all further input. Only a startup header can be such a header, since
`frameTyped` refuses the others itself, so the rule comes down to `Overlong`.

`compact` only reallocates the buffer, so it has no counterpart here; the
parser's `cfg` and `fromClient` are stored and never read.

Key definitions: `frameTyped`, `frameStartup`, `framing`, `StreamParser.feed`.
Key theorems: `feed_overlong`, `feed_live`.
-/
import PgShadow.Core
import PgShadow.Lib.BigEndian
import PgShadow.Lib.Decoder

namespace PgShadow

open StreamDecoder

def sslRequestCode : ℕ := 80877103
def gssEncRequestCode : ℕ := 80877104
def cancelRequestCode : ℕ := 80877102

/-- 1 type byte and 4 length bytes. -/
abbrev typedHeaderLen : ℕ := 5

/-- 4 length bytes. -/
abbrev startupHeaderLen : ℕ := 4

/-- 1 MiB. -/
abbrev maxStalledBuffer : ℕ := 1048576

/-- 256 MiB. -/
abbrev maxFrameLength : ℕ := 268435456

/-- The synthetic type of an untyped startup-phase message. -/
def startupMsgType : UInt8 := 0

/-- The errors of `frameTyped` and `frameStartup`, with the values their texts
print. -/
inductive FrameError
  | invalidLength (length : ℕ) (typ : UInt8)
  | exceedsMax (length max : ℕ) (typ : UInt8)
  | invalidStartupLength (length : ℕ)
deriving DecidableEq

/-- `binary.BigEndian.Uint32` of the first four bytes. -/
def uint32 (b : Bytes) : ℕ := BigEndian.ofBytes (b.take 4)

/-- Frame one typed message from the front of `buf`: the message and the bytes
consumed, or `none` when more bytes are needed. -/
def frameTyped (buf : Bytes) : Except FrameError (Option (PGMessage × ℕ)) :=
  if buf.length < typedHeaderLen then .ok none
  else
    let typ := buf.headD 0
    let length := uint32 (buf.drop 1)
    if length < 4 then .error (.invalidLength length typ)
    else if maxFrameLength < length then .error (.exceedsMax length maxFrameLength typ)
    else
      let total := 1 + length
      if buf.length < total then .ok none
      else .ok (some (⟨typ, length, (buf.take total).drop typedHeaderLen⟩, total))

/-- Frame one untyped startup-phase message from the front of `buf`. There is
no upper bound on its declared length. -/
def frameStartup (buf : Bytes) : Except FrameError (Option (PGMessage × ℕ)) :=
  if buf.length < startupHeaderLen then .ok none
  else
    let length := uint32 buf
    if length < 4 then .error (.invalidStartupLength length)
    else
      let total := length
      if buf.length < total then .ok none
      else .ok (some (⟨startupMsgType, length, (buf.take total).drop startupHeaderLen⟩, total))

/-- Whether a startup-phase message switches the connection to typed framing. -/
def transitionToTyped (msg : PGMessage) : Bool :=
  if msg.payload.length < 4 then true
  else
    let code := uint32 msg.payload
    !(code == sslRequestCode || code == gssEncRequestCode || code == cancelRequestCode)

/-! ### The framing decoder -/

theorem uint32_append {b : Bytes} (h : 4 ≤ b.length) (t : Bytes) : uint32 (b ++ t) = uint32 b := by
  rw [uint32, uint32, List.take_append_of_le_length h]

/-- One iteration of the loop in `Feed`: the phase is `inStartup`. -/
def frontMsg (inStartup : Bool) (buf : Bytes) : Verdict Bool PGMessage FrameError :=
  match if inStartup then frameStartup buf else frameTyped buf with
  | .error e => .bad e
  | .ok none => .more
  | .ok (some (msg, consumed)) => .item msg (inStartup && !transitionToTyped msg) consumed

/-! Both framings read a header of `headerLen` bytes whose last four declare a
length, refuse it or wait for `off + declared` bytes. -/

/-- Where the length field of the header stands. -/
def off (inStartup : Bool) : ℕ := if inStartup then 0 else 1

/-- The length the header at the front of `buf` declares. -/
def declared (inStartup : Bool) (buf : Bytes) : ℕ := uint32 (buf.drop (off inStartup))

/-- Why the header at the front of `buf` is refused, if it is. -/
def refusal (inStartup : Bool) (buf : Bytes) : Option FrameError :=
  let n := declared inStartup buf
  if inStartup then if n < 4 then some (.invalidStartupLength n) else none
  else if n < 4 then some (.invalidLength n (buf.headD 0))
  else if 268435456 < n then some (.exceedsMax n 268435456 (buf.headD 0))
  else none

/-- The message at the front of `buf`. -/
def frontOf (inStartup : Bool) (buf : Bytes) : PGMessage :=
  ⟨if inStartup then startupMsgType else buf.headD 0, declared inStartup buf,
    (buf.take (off inStartup + declared inStartup buf)).drop (off inStartup + 4)⟩

theorem frontMsg_eq (st : Bool) (buf : Bytes) : frontMsg st buf =
    if buf.length < off st + 4 then .more
    else match refusal st buf with
      | some e => .bad e
      | none =>
        if buf.length < off st + declared st buf then .more
        else .item (frontOf st buf) (st && !transitionToTyped (frontOf st buf)) (off st + declared st buf) := by
  unfold frontMsg
  cases st with
  | true =>
    by_cases h4 : buf.length < 4
    · simp [frameStartup, off, h4]
    · by_cases hn : uint32 buf < 4
      · simp [frameStartup, off, declared, refusal, h4, hn]
      · by_cases hb : buf.length < uint32 buf <;>
          simp [frameStartup, off, declared, refusal, frontOf, h4, hn, hb]
  | false =>
    by_cases h5 : buf.length < 5
    · simp [frameTyped, off, h5]
    · by_cases hn : uint32 buf.tail < 4
      · simp [frameTyped, off, declared, refusal, h5, hn]
      · by_cases hm : 268435456 < uint32 buf.tail
        · simp [frameTyped, off, declared, refusal, h5, hn, hm]
        · by_cases hb : buf.length < 1 + uint32 buf.tail <;>
            simp [frameTyped, off, declared, refusal, frontOf, h5, hn, hm, hb]

theorem declared_append {st : Bool} {buf : Bytes} (h : off st + 4 ≤ buf.length) (t : Bytes) :
    declared st (buf ++ t) = declared st buf := by
  unfold declared
  rw [List.drop_append_of_le_length (by omega), uint32_append (by simp only [List.length_drop]; omega)]

theorem refusal_append {st : Bool} {buf : Bytes} (h : off st + 4 ≤ buf.length) (t : Bytes) :
    refusal st (buf ++ t) = refusal st buf := by
  have hd : (buf ++ t).headD 0 = buf.headD 0 := by
    cases buf with
    | nil => simp at h
    | cons b bs => rfl
  unfold refusal
  rw [declared_append h, hd]

theorem frontOf_append {st : Bool} {buf : Bytes} (h : off st + 4 ≤ buf.length)
    (hn : off st + declared st buf ≤ buf.length) (t : Bytes) : frontOf st (buf ++ t) = frontOf st buf := by
  have hd : (buf ++ t).headD 0 = buf.headD 0 := by
    cases buf with
    | nil => simp at h
    | cons b bs => rfl
  unfold frontOf
  rw [declared_append h, hd, List.take_append_of_le_length hn]

theorem refusal_none {st : Bool} {buf : Bytes} (h : refusal st buf = none) : 4 ≤ declared st buf := by
  unfold refusal at h
  by_contra hlt
  cases st <;> simp_all

/-- An item needs a header that is not refused and all its bytes. -/
theorem frontMsg_item {st st' : Bool} {buf : Bytes} {m : PGMessage} {n : ℕ}
    (h : frontMsg st buf = .item m st' n) :
    off st + 4 ≤ buf.length ∧ refusal st buf = none ∧ n = off st + declared st buf ∧ n ≤ buf.length ∧
      m = frontOf st buf ∧ st' = (st && !transitionToTyped m) := by
  rw [frontMsg_eq] at h
  by_cases h4 : buf.length < off st + 4
  · rw [if_pos h4] at h; cases h
  · rw [if_neg h4] at h
    cases hr : refusal st buf with
    | some e => rw [hr] at h; cases h
    | none =>
      rw [hr] at h
      by_cases hb : buf.length < off st + declared st buf
      · simp only [hb, if_true] at h; cases h
      · simp only [hb, if_false, Verdict.item.injEq] at h
        obtain ⟨rfl, rfl, rfl⟩ := h
        exact ⟨by omega, rfl, rfl, by omega, rfl, rfl⟩

theorem frontMsg_of_item {st : Bool} {buf : Bytes} (h4 : off st + 4 ≤ buf.length)
    (hr : refusal st buf = none) (hn : off st + declared st buf ≤ buf.length) :
    frontMsg st buf =
      .item (frontOf st buf) (st && !transitionToTyped (frontOf st buf)) (off st + declared st buf) := by
  rw [frontMsg_eq, if_neg (by omega), hr]
  simp only
  rw [if_neg (by omega)]

theorem frontMsg_bad {st : Bool} {buf : Bytes} {e : FrameError} :
    frontMsg st buf = .bad e ↔ off st + 4 ≤ buf.length ∧ refusal st buf = some e := by
  rw [frontMsg_eq]
  by_cases h4 : buf.length < off st + 4
  · simp only [h4, if_true, reduceCtorEq, false_iff, not_and]
    omega
  · simp only [h4, if_false, Nat.le_of_not_lt h4, true_and]
    cases refusal st buf with
    | some e' => simp
    | none => by_cases hb : buf.length < off st + declared st buf <;> simp [hb]

/-- The parser waits on a header, or on the bytes its header declares. -/
theorem frontMsg_more {st : Bool} {buf : Bytes} : frontMsg st buf = .more ↔
    buf.length < off st + 4 ∨ refusal st buf = none ∧ buf.length < off st + declared st buf := by
  rw [frontMsg_eq]
  by_cases h4 : buf.length < off st + 4
  · simp [h4]
  · simp only [h4, if_false, false_or]
    cases refusal st buf with
    | some e => simp
    | none => by_cases hb : buf.length < off st + declared st buf <;> simp [hb]

/-- The framing decoder: untyped messages while `inStartup`, typed ones after. -/
def framing : Decoder UInt8 Bool PGMessage FrameError where
  front := frontMsg
  item_len h := by
    obtain ⟨h4, hr, rfl, hn, -, -⟩ := frontMsg_item h
    have := refusal_none hr
    omega
  item_local {st buf m q n} h t := by
    obtain ⟨h4, hr, rfl, hn, rfl, rfl⟩ := frontMsg_item h
    have h4n := refusal_none hr
    -- the item is framed from its own bytes, so it survives any change after them
    set b := buf.take (off st + declared st buf) with hb
    have hlen : b.length = off st + declared st buf := by rw [hb, List.length_take, min_eq_left hn]
    have hbuf : b ++ buf.drop (off st + declared st buf) = buf := List.take_append_drop _ _
    have h4b : off st + 4 ≤ b.length := by omega
    have hd : declared st b = declared st buf := by rw [← declared_append h4b, hbuf]
    have hrb : refusal st b = none := by rw [← refusal_append h4b, hbuf, hr]
    have hf : frontOf st b = frontOf st buf := by rw [← frontOf_append h4b (by omega), hbuf]
    have h4t : off st + 4 ≤ (b ++ t).length := by rw [List.length_append]; omega
    rw [frontMsg_of_item h4t (by rw [refusal_append h4b, hrb])
      (by rw [declared_append h4b, List.length_append]; omega), declared_append h4b,
      frontOf_append h4b (by omega), hd, hf]
  bad_append {st buf e} h t := by
    obtain ⟨h4, hr⟩ := frontMsg_bad.mp h
    exact frontMsg_bad.mpr ⟨by rw [List.length_append]; omega, by rw [refusal_append h4, hr]⟩

theorem front_nil (st : Bool) : framing.front st [] = .more :=
  frontMsg_more.mpr (Or.inl (by rw [List.length_nil]; omega))

/-! ### The parser -/

/-- The parser of one direction of one connection. -/
structure StreamParser where
  inStartup : Bool
  buf : Bytes
  stalled : Bool
deriving DecidableEq

/-- A fresh parser: only the client's direction starts untyped. -/
def newParser (fromClient : Bool) : StreamParser := ⟨fromClient, [], false⟩

/-- Whether the buffer starts with a header whose declared length is
acceptable. -/
def StreamParser.hasValidPendingFrame (p : StreamParser) : Bool :=
  if p.inStartup then
    if startupHeaderLen ≤ p.buf.length then
      let length := uint32 p.buf
      decide (4 ≤ length ∧ length ≤ 256 * 1024 * 1024)
    else false
  else if typedHeaderLen ≤ p.buf.length then
    let length := uint32 (p.buf.drop 1)
    decide (4 ≤ length ∧ length ≤ 256 * 1024 * 1024)
  else false

/-- Append `data` and emit every message that is now complete. -/
def StreamParser.feed (p : StreamParser) (data : Bytes) :
    StreamParser × (List PGMessage × Option FrameError) :=
  if p.stalled then (p, [], none)
  else
    let r := framing.drain p.inStartup (p.buf ++ data)
    let p' : StreamParser := { p with inStartup := r.phase, buf := r.rest }
    match r.err with
    | some e => (p', r.items, some e)
    | none =>
      if r.items.isEmpty && maxStalledBuffer < p'.buf.length && !p'.hasValidPendingFrame then
        ({ p' with buf := [], stalled := true }, [], none)
      else (p', r.items, none)

/-! ### What a `Feed` does -/

/-- The buffer the stall rule drops: more than `maxStalledBuffer` bytes of an
untyped message that declares more than 256 MiB. -/
def Overlong (inStartup : Bool) (buf : Bytes) : Prop :=
  inStartup = true ∧ 1048576 < buf.length ∧ 268435456 < declared true buf ∧
    buf.length < declared true buf

instance (st : Bool) (buf : Bytes) : Decidable (Overlong st buf) := by unfold Overlong; infer_instance

/-- The length field is in the buffer. -/
theorem Overlong.append {st : Bool} {buf : Bytes} (h : Overlong st buf) (v : Bytes) :
    refusal true (buf ++ v) = none ∧ declared true (buf ++ v) = declared true buf := by
  obtain ⟨-, h1, h2, -⟩ := h
  have hd : declared true (buf ++ v) = declared true buf :=
    declared_append (by simp only [off, if_true]; omega) v
  refine ⟨?_, hd⟩
  simp only [refusal, if_true]
  rw [if_neg (by omega)]

theorem Overlong.more {st : Bool} {buf : Bytes} (h : Overlong st buf) : framing.front st buf = .more := by
  obtain ⟨rfl, h1, h2, h3⟩ := h
  have hr : refusal true buf = none := by
    simp only [refusal, if_true]
    rw [if_neg (by omega)]
  exact frontMsg_more.mpr (Or.inr ⟨hr, by simp only [off, if_true]; omega⟩)

theorem Overlong.drain {st : Bool} {buf : Bytes} (h : Overlong st buf) :
    framing.drain st buf = ⟨[], st, buf, none⟩ :=
  Decoder.drain_more h.more

/-- Where `Feed` would wait, the stall rule fires exactly on an overlong
buffer: the header of a typed message is acceptable or refused. -/
theorem stalls_iff {st : Bool} {buf : Bytes} (h : framing.front st buf = .more) :
    1048576 < buf.length ∧ StreamParser.hasValidPendingFrame ⟨st, buf, false⟩ = false ↔
      Overlong st buf := by
  rcases frontMsg_more.mp h with hs | ⟨hr, hlt⟩
  · have hoff : off st ≤ 1 := by cases st <;> simp [off]
    constructor
    · rintro ⟨h1, -⟩; omega
    · rintro ⟨-, h1, -⟩; omega
  · have h4 := refusal_none hr
    cases st with
    | true =>
      simp only [off, if_true, declared, List.drop_zero, Nat.zero_add] at h4 hlt
      unfold StreamParser.hasValidPendingFrame Overlong
      simp only [if_true, declared, off, List.drop_zero, true_and]
      constructor
      · rintro ⟨h1, h2⟩
        rw [if_pos (show 4 ≤ buf.length by omega)] at h2
        simp only [decide_eq_false_iff_not, not_and] at h2
        exact ⟨h1, by have := h2 h4; omega, hlt⟩
      · rintro ⟨h1, h2, -⟩
        refine ⟨h1, ?_⟩
        rw [if_pos (show 4 ≤ buf.length by omega)]
        simp only [decide_eq_false_iff_not, not_and]
        omega
    | false =>
      have hle : declared false buf ≤ 268435456 := by
        unfold refusal at hr
        simp only [Bool.false_eq_true, if_false] at hr
        by_contra hgt
        rw [if_neg (by omega), if_pos (by omega)] at hr
        cases hr
      unfold StreamParser.hasValidPendingFrame Overlong
      simp only [Bool.false_eq_true, if_false, false_and, iff_false, not_and]
      intro h1
      rw [if_pos (show 5 ≤ buf.length by omega)]
      simp only [declared, off, Bool.false_eq_true, if_false] at h4 hle
      simp only [decide_eq_false_iff_not, not_not]
      exact ⟨h4, hle⟩

/-- An overlong buffer is dropped and the parser stalls. -/
theorem feed_overlong {p : StreamParser} {data : Bytes} (hp : p.stalled = false)
    (h : Overlong p.inStartup (p.buf ++ data)) : p.feed data = (⟨p.inStartup, [], true⟩, [], none) := by
  obtain ⟨h1, h2⟩ := (stalls_iff h.more).mpr h
  unfold StreamParser.feed
  rw [hp, h.drain]
  simp only [Bool.false_eq_true, if_false]
  rw [if_pos]
  simp only [List.isEmpty_nil, Bool.true_and, Bool.and_eq_true, decide_eq_true_eq, Bool.not_eq_true']
  exact ⟨h1, h2⟩

/-- Otherwise `Feed` drains the buffer. -/
theorem feed_live {p : StreamParser} {data : Bytes} (hp : p.stalled = false)
    (h : ¬ Overlong p.inStartup (p.buf ++ data)) :
    p.feed data =
      (⟨(framing.drain p.inStartup (p.buf ++ data)).phase, (framing.drain p.inStartup (p.buf ++ data)).rest,
        false⟩, (framing.drain p.inStartup (p.buf ++ data)).items,
        (framing.drain p.inStartup (p.buf ++ data)).err) := by
  set r := framing.drain p.inStartup (p.buf ++ data) with hr
  unfold StreamParser.feed
  simp only [hp, Bool.false_eq_true, if_false, ← hr]
  cases he : r.err with
  | some e => rfl
  | none =>
    refine if_neg fun hc => h ?_
    simp only [Bool.and_eq_true, List.isEmpty_iff, decide_eq_true_eq, Bool.not_eq_true'] at hc
    obtain ⟨⟨hi, hl⟩, hv⟩ := hc
    -- no message and no error: the decoder waits on the whole buffer
    have hmore : framing.front p.inStartup (p.buf ++ data) = .more := by
      cases hf : framing.front p.inStartup (p.buf ++ data) with
      | more => rfl
      | item m q n => rw [hr, Decoder.drain_item hf] at hi; cases hi
      | bad e => rw [hr, Decoder.drain_bad hf] at he; cases he
    rw [hr, Decoder.drain_more hmore] at hl hv
    exact (stalls_iff hmore).mp ⟨hl, hv⟩

theorem feed_stalled {p : StreamParser} (hp : p.stalled = true) (data : Bytes) :
    p.feed data = (p, [], none) := by
  unfold StreamParser.feed
  rw [if_pos hp]

end PgShadow
