/-
# What a parser makes of a chunked stream

A fresh parser fed the chunks of a stream has framed the messages the decoder
`framing` takes off the stream and holds the rest, or it has stalled on an
untyped message of more than 256 MiB somewhere on the way (`Fed`, `fed_of_feed`).

* `feed_chunking`: up to 256 MiB of stream, the chunking does not matter.
* `feed_inverts_wire`: a parser fed the wire encoding of messages gives back
  the messages.
* `retained_le_iff`: the bytes a parser retains stay within 256 MiB, one byte
  and a chunk exactly as long as no more than that many bytes stand behind a
  header it refuses. A refused header is never dropped, and the stall rule is
  not reached past it.

Key definitions: `fedMsgs`, `Fed`, `wireStartup`, `wireTyped`, `Backlogged`.
-/
import Mathlib.Tactic.NormNum
import PgShadow.Lib.Machine
import PgShadow.Protocol.Framing

namespace PgShadow

open StreamDecoder

/-- All messages a parser returns over the `Feed`s of the chunks. -/
def fedMsgs (p : StreamParser) (cs : List Bytes) : List PGMessage :=
  (Machine.outs StreamParser.feed p cs).flatMap (·.1)

/-- No `Feed` of the chunks returns an error. -/
def fedClean (p : StreamParser) (cs : List Bytes) : Prop :=
  ∀ o ∈ Machine.outs StreamParser.feed p cs, o.2 = none

/-- The parser after the chunks. -/
def fedState (p : StreamParser) (cs : List Bytes) : StreamParser :=
  Machine.final StreamParser.feed p cs

/-- Where a parser that started in phase `st` can be after the bytes `s`, and
the messages it has returned. -/
inductive Fed (st : Bool) (s : Bytes) (q : StreamParser) (ms : List PGMessage) : Prop
  | live : q = ⟨(framing.drain st s).phase, (framing.drain st s).rest, false⟩ →
      ms = (framing.drain st s).items → Fed st s q ms
  | stalled (u v : Bytes) : s = u ++ v → (framing.drain st u).err = none →
      Overlong (framing.drain st u).phase (framing.drain st u).rest →
      q = ⟨(framing.drain st u).phase, [], true⟩ → ms = (framing.drain st u).items → Fed st s q ms

theorem fedMsgs_stalled {p : StreamParser} (hp : p.stalled = true) :
    ∀ cs, fedMsgs p cs = [] ∧ fedState p cs = p ∧ fedClean p cs
  | [] => ⟨rfl, rfl, fun o ho => by cases ho⟩
  | c :: cs => by
    obtain ⟨h1, h2, h3⟩ := fedMsgs_stalled hp cs
    unfold fedMsgs fedState fedClean at *
    rw [Machine.outs_cons, Machine.final_cons, feed_stalled hp]
    refine ⟨h1, h2, fun o ho => ?_⟩
    rcases List.mem_cons.mp ho with rfl | ho
    · rfl
    · exact h3 o ho

/-- **A chunked stream.** The parser `p` holds a buffer with no complete
message; what the chunks make of it depends on their concatenation only, up to
where it stalls. -/
theorem fed_of_feed : ∀ (cs : List Bytes) (p : StreamParser), p.stalled = false →
    (framing.drain p.inStartup p.buf).items = [] →
    Fed p.inStartup (p.buf ++ cs.flatten) (fedState p cs) (fedMsgs p cs)
  | [], p, hp, hs => by
    refine .live ?_ ?_
    · rw [List.flatten_nil, List.append_nil]
      cases hf : framing.front p.inStartup p.buf with
      | item m q n => rw [Decoder.drain_item hf] at hs; cases hs
      | more => rw [Decoder.drain_more hf, ← hp]; rfl
      | bad e => rw [Decoder.drain_bad hf, ← hp]; rfl
    · rw [List.flatten_nil, List.append_nil, hs]; rfl
  | c :: cs, p, hp, _ => by
    have hflat : p.buf ++ (c :: cs).flatten = (p.buf ++ c) ++ cs.flatten := by
      rw [List.flatten_cons, List.append_assoc]
    have hmsgs : fedMsgs p (c :: cs) = (p.feed c).2.1 ++ fedMsgs (p.feed c).1 cs := rfl
    have hstate : fedState p (c :: cs) = fedState (p.feed c).1 cs := rfl
    rw [hflat, hmsgs, hstate]
    by_cases ho : Overlong p.inStartup (p.buf ++ c)
    · rw [feed_overlong hp ho]
      obtain ⟨h1, h2, -⟩ := fedMsgs_stalled (p := ⟨p.inStartup, [], true⟩) rfl cs
      refine .stalled (p.buf ++ c) cs.flatten rfl ?_ ?_ ?_ ?_
      · rw [ho.drain]
      · rw [ho.drain]; exact ho
      · rw [ho.drain, h2]
      · rw [ho.drain, h1]; rfl
    · rw [feed_live hp ho]
      set r := framing.drain p.inStartup (p.buf ++ c) with hr
      have hrest : framing.drain r.phase r.rest = { r with items := [] } := Decoder.drain_rest _ _
      have ih := fed_of_feed cs ⟨r.phase, r.rest, false⟩ rfl (by simp only [hrest])
      simp only at ih ⊢
      have happ := Decoder.drain_append (D := framing) p.inStartup (p.buf ++ c)
      rw [← hr] at happ
      cases ih with
      | live hq hm =>
        refine .live ?_ ?_
        · rw [happ, hq]
        · rw [happ, hm]
      | stalled u v hu he hov hq hm =>
        -- the stalling prefix `u` of the rest, behind the messages already framed
        obtain ⟨bs, hb, hsp⟩ := Decoder.exists_spells (D := framing) p.inStartup (p.buf ++ c)
        rw [← hr] at hb hsp
        have hd := Decoder.drain_spells hsp u
        refine .stalled (bs ++ u) v ?_ ?_ ?_ ?_ ?_
        · rw [hb, List.append_assoc, List.append_assoc, hu]
        · rw [hd]; exact he
        · rw [hd]; exact hov
        · rw [hd]; exact hq
        · rw [hd, hm]

theorem fed_fresh (fromClient : Bool) (cs : List Bytes) :
    Fed fromClient cs.flatten (fedState (newParser fromClient) cs) (fedMsgs (newParser fromClient) cs) := by
  exact fed_of_feed cs (newParser fromClient) rfl
    (congrArg Out.items (Decoder.drain_more (front_nil fromClient)))

/-! ### Chunking -/

theorem Overlong.more_append {st : Bool} {buf v : Bytes} (h : Overlong st buf)
    (hv : (buf ++ v).length ≤ 268435456) : framing.front st (buf ++ v) = .more := by
  obtain ⟨hr, hd⟩ := h.append v
  obtain ⟨rfl, -, h2, -⟩ := h
  exact frontMsg_more.mpr (Or.inr ⟨hr, by rw [hd]; omega⟩)

/-- Up to 256 MiB, a stalled parser has missed nothing. -/
theorem Fed.msgs {st : Bool} {s : Bytes} {q : StreamParser} {ms : List PGMessage} (h : Fed st s q ms)
    (hs : s.length ≤ 268435456) : ms = (framing.drain st s).items := by
  cases h with
  | live _ hm => exact hm
  | stalled u v hu _ hov _ hm =>
    obtain ⟨bs, hb, -⟩ := Decoder.exists_spells (D := framing) st u
    have hlen : ((framing.drain st u).rest ++ v).length ≤ 268435456 := by
      have : s.length = bs.length + ((framing.drain st u).rest ++ v).length := by
        rw [hu]
        conv_lhs => rw [hb]
        rw [List.append_assoc, List.length_append]
      omega
    rw [hu, Decoder.drain_append, Decoder.drain_more (hov.more_append hlen), hm]
    simp

/-- A parser, stalled or not, has returned a first part of the messages. -/
theorem Fed.msgs_start {st : Bool} {s : Bytes} {q : StreamParser} {ms : List PGMessage} (h : Fed st s q ms) :
    ms <+: (framing.drain st s).items := by
  cases h with
  | live _ hm =>
    subst hm
    exact List.prefix_rfl
  | stalled u v hu _ _ _ hm =>
    rw [hu, hm, Decoder.drain_append]
    exact List.prefix_append _ _

/-- **Chunking does not matter.** Over every cutting of a stream of at most
256 MiB, in either direction, a fresh parser returns the messages that it
returns for the whole stream at once. -/
theorem feed_chunking (fromClient : Bool) (cs : List Bytes) (h : cs.flatten.length ≤ 268435456) :
    fedMsgs (newParser fromClient) cs = ((newParser fromClient).feed cs.flatten).2.1 := by
  have hone : ((newParser fromClient).feed cs.flatten).2.1 = fedMsgs (newParser fromClient) [cs.flatten] := by
    simp [fedMsgs, Machine.outs_cons]
  have h1 := fed_fresh fromClient [cs.flatten]
  rw [List.flatten_singleton] at h1
  rw [hone, (fed_fresh fromClient cs).msgs h, h1.msgs h]

theorem feed_chunking_sync :
    fedMsgs (newParser false) [[83, 0], [], [0, 0, 4, 81]] =
      ((newParser false).feed [83, 0, 0, 0, 4, 81]).2.1 :=
  feed_chunking false [[83, 0], [], [0, 0, 4, 81]] (by decide)

/-! ### Wire encodings -/

/-- The bytes of an untyped message with the payload `b`. -/
def wireStartup (b : Bytes) : Bytes := BigEndian.toBytes 4 (4 + b.length) ++ b

/-- The bytes of a typed message: its type and its payload. -/
def wireTyped (m : UInt8 × Bytes) : Bytes := m.1 :: (BigEndian.toBytes 4 (4 + m.2.length) ++ m.2)

/-- The message an untyped payload is framed as. -/
def startupMsg (b : Bytes) : PGMessage := ⟨startupMsgType, 4 + b.length, b⟩

/-- The message a type and a payload are framed as. -/
def typedMsg (m : UInt8 × Bytes) : PGMessage := ⟨m.1, 4 + m.2.length, m.2⟩

/-- The payload carries an SSLRequest, GSSENCRequest or CancelRequest code. -/
def Negotiates (b : Bytes) : Prop :=
  4 ≤ b.length ∧ (uint32 b = sslRequestCode ∨ uint32 b = gssEncRequestCode ∨ uint32 b = cancelRequestCode)

instance (b : Bytes) : Decidable (Negotiates b) := by unfold Negotiates; infer_instance

theorem transitionToTyped_startupMsg (b : Bytes) :
    transitionToTyped (startupMsg b) = !decide (Negotiates b) := by
  unfold transitionToTyped startupMsg Negotiates
  by_cases h : b.length < 4
  · simp [h, Nat.not_le_of_lt h]
  · simp only [h, Nat.le_of_not_lt h, if_false, true_and, Bool.decide_or, Bool.or_assoc]
    rfl

theorem uint32_toBytes {n : ℕ} (h : n < 4294967296) (t : Bytes) :
    uint32 (BigEndian.toBytes 4 n ++ t) = n := by
  rw [uint32, List.take_left' (BigEndian.length_toBytes 4 n), BigEndian.ofBytes_toBytes 4 n (by omega)]

theorem length_wireStartup (b : Bytes) : (wireStartup b).length = 4 + b.length := by
  simp [wireStartup]

theorem length_wireTyped (m : UInt8 × Bytes) : (wireTyped m).length = 5 + m.2.length := by
  simp [wireTyped]
  omega

theorem front_wireStartup {b : Bytes} (h : 4 + b.length < 4294967296) (t : Bytes) :
    framing.front true (wireStartup b ++ t) =
      .item (startupMsg b) (decide (Negotiates b)) (wireStartup b).length := by
  have hlen := length_wireStartup b
  have hd : declared true (wireStartup b ++ t) = 4 + b.length := by
    unfold declared wireStartup
    rw [off, if_pos rfl, List.drop_zero, List.append_assoc, uint32_toBytes h]
  have hr : refusal true (wireStartup b ++ t) = none := by
    simp only [refusal, if_true, hd]
    rw [if_neg (by omega)]
  have hoff : off true = 0 := rfl
  have hf : frontOf true (wireStartup b ++ t) = startupMsg b := by
    unfold frontOf startupMsg
    rw [hd, hoff, Nat.zero_add, Nat.zero_add, ← hlen, List.take_left, if_pos rfl]
    unfold wireStartup
    rw [List.drop_left' (BigEndian.length_toBytes 4 _), List.length_append, BigEndian.length_toBytes]
  have := frontMsg_of_item (by rw [List.length_append]; omega) hr (by rw [hd, List.length_append]; omega)
  rw [hf, hd, transitionToTyped_startupMsg, Bool.not_not, Bool.true_and, hoff, Nat.zero_add, ← hlen] at this
  exact this

theorem front_wireTyped {m : UInt8 × Bytes} (h : 4 + m.2.length ≤ 268435456) (t : Bytes) :
    framing.front false (wireTyped m ++ t) = .item (typedMsg m) false (wireTyped m).length := by
  have hlen := length_wireTyped m
  have hoff : off false = 1 := rfl
  have hd : declared false (wireTyped m ++ t) = 4 + m.2.length := by
    unfold declared wireTyped
    rw [hoff, List.cons_append, List.drop_one, List.tail_cons, List.append_assoc, uint32_toBytes (by omega)]
  have hr : refusal false (wireTyped m ++ t) = none := by
    simp only [refusal, Bool.false_eq_true, if_false, hd]
    rw [if_neg (by omega), if_neg (by omega)]
  have hf : frontOf false (wireTyped m ++ t) = typedMsg m := by
    unfold frontOf typedMsg
    rw [hd, hoff, show 1 + (4 + m.2.length) = (wireTyped m).length by omega, List.take_left]
    unfold wireTyped
    simp only [Bool.false_eq_true, if_false, List.cons_append, List.headD_cons, PGMessage.mk.injEq, true_and]
    rw [show 1 + 4 = 4 + 1 from rfl, List.drop_succ_cons, List.drop_left' (BigEndian.length_toBytes 4 _)]
  have := frontMsg_of_item (by rw [List.length_append]; omega) hr (by rw [hd, List.length_append]; omega)
  rw [hf, hd, Bool.false_and, hoff, show 1 + (4 + m.2.length) = (wireTyped m).length by omega] at this
  exact this

/-- Typed messages on the wire spell themselves. -/
theorem spells_typed : ∀ ms : List (UInt8 × Bytes), (∀ m ∈ ms, 4 + m.2.length ≤ 268435456) →
    framing.Spells false (ms.flatMap wireTyped) (ms.map typedMsg) false
  | [], _ => .nil false
  | m :: ms, h => by
    rw [List.flatMap_cons, List.map_cons]
    exact .cons (front_wireTyped (h m List.mem_cons_self))
      (spells_typed ms fun x hx => h x (List.mem_cons_of_mem _ hx))

/-- Negotiation messages on the wire spell themselves and stay untyped. -/
theorem spells_negotiation : ∀ bs : List Bytes, (∀ b ∈ bs, Negotiates b ∧ 4 + b.length < 4294967296) →
    framing.Spells true (bs.flatMap wireStartup) (bs.map startupMsg) true
  | [], _ => .nil true
  | b :: bs, h => by
    rw [List.flatMap_cons, List.map_cons]
    obtain ⟨hn, hl⟩ := h b List.mem_cons_self
    refine .cons (fun t => ?_) (spells_negotiation bs fun x hx => h x (List.mem_cons_of_mem _ hx))
    rw [front_wireStartup hl, decide_eq_true hn]

/-- A startup phase: negotiation messages, then one that ends it. -/
theorem spells_startup {pre : List Bytes} {last : Bytes}
    (hpre : ∀ b ∈ pre, Negotiates b ∧ 4 + b.length < 4294967296) (hlast : ¬ Negotiates last)
    (hl : 4 + last.length < 4294967296) :
    framing.Spells true (pre.flatMap wireStartup ++ wireStartup last)
      (pre.map startupMsg ++ [startupMsg last]) false := by
  refine (spells_negotiation pre hpre).append ?_
  have := Decoder.Spells.cons (D := framing) (p := true) (b := wireStartup last) (m := startupMsg last)
    (q := false) (fun t => by rw [front_wireStartup hl, decide_eq_false hlast]) (.nil false)
  rwa [List.append_nil] at this

/-! ### Framing inverts encoding -/

theorem fedClean_of_drain : ∀ (cs : List Bytes) (p : StreamParser), p.stalled = false →
    (framing.drain p.inStartup (p.buf ++ cs.flatten)).err = none → fedClean p cs
  | [], _, _, _ => fun o ho => by cases ho
  | c :: cs, p, hp, h => by
    rw [List.flatten_cons, ← List.append_assoc] at h
    have hc : (framing.drain p.inStartup (p.buf ++ c)).err = none := Decoder.err_none_of_append h
    intro o ho
    rw [Machine.outs_cons] at ho
    by_cases hov : Overlong p.inStartup (p.buf ++ c)
    · rw [feed_overlong hp hov] at ho
      rcases List.mem_cons.mp ho with rfl | ho
      · rfl
      · exact (fedMsgs_stalled (p := ⟨p.inStartup, [], true⟩) rfl cs).2.2 o ho
    · rw [feed_live hp hov] at ho
      rcases List.mem_cons.mp ho with rfl | ho
      · exact hc
      · rw [Decoder.drain_append] at h
        exact fedClean_of_drain cs ⟨_, _, false⟩ rfl h o ho

/-- A buffer the parser would stall on can only complete to a message of more
than 256 MiB. -/
theorem Overlong.front_append {st : Bool} {buf : Bytes} (h : Overlong st buf) (v : Bytes) :
    framing.front st (buf ++ v) = .more ∨
      ∃ m q n, framing.front st (buf ++ v) = .item m q n ∧ 268435456 < m.length := by
  obtain ⟨hr, hd⟩ := h.append v
  obtain ⟨rfl, h1, h2, -⟩ := h
  by_cases hb : (buf ++ v).length < off true + declared true (buf ++ v)
  · exact Or.inl (frontMsg_more.mpr (Or.inr ⟨hr, hb⟩))
  · refine Or.inr ⟨_, _, _, frontMsg_of_item ?_ hr (by omega), ?_⟩
    · simp only [off, if_true, List.length_append]; omega
    · simp only [frontOf, hd]; exact h2

theorem drain_of_spells {st q : Bool} {s : Bytes} {ms : List PGMessage} (h : framing.Spells st s ms q) :
    framing.drain st s = ⟨ms, q, [], none⟩ := by
  have := Decoder.drain_spells h []
  rwa [List.append_nil, Decoder.drain_more (front_nil q), List.append_nil] at this

/-- A stream that spells messages of at most 256 MiB, in any chunking, gives
these messages and leaves nothing. -/
theorem fed_of_spells {st q : Bool} {ms : List PGMessage} {cs : List Bytes}
    (h : framing.Spells st cs.flatten ms q) (hlen : ∀ m ∈ ms, m.length ≤ 268435456) :
    fedMsgs (newParser st) cs = ms ∧ fedClean (newParser st) cs ∧
      fedState (newParser st) cs = ⟨q, [], false⟩ := by
  have hd := drain_of_spells h
  have hclean : fedClean (newParser st) cs := fedClean_of_drain cs (newParser st) rfl (by
    rw [show (newParser st).inStartup = st from rfl, show (newParser st).buf = [] from rfl, List.nil_append, hd])
  cases fed_fresh st cs with
  | live hq hm => exact ⟨by rw [hm, hd], hclean, by rw [hq, hd]⟩
  | stalled u v hu he hov _ _ =>
    -- the message it stalled on would be one of `ms`
    exfalso
    rw [hu, Decoder.drain_append] at hd
    rcases hov.front_append v with hf | ⟨m, q', n, hf, hm⟩
    · rw [Decoder.drain_more hf] at hd
      have := congrArg Out.rest hd
      have hl := hov.2.1
      simp only [List.append_eq_nil_iff] at this
      rw [this.1] at hl
      simp at hl
    · rw [Decoder.drain_item hf] at hd
      have hmem : m ∈ ms := by
        have hi : _ = ms := congrArg Out.items hd
        rw [← hi]
        exact List.mem_append_right _ List.mem_cons_self
      have := hlen m hmem
      omega

theorem typedMsg_length_le {ms : List (UInt8 × Bytes)} (h : ∀ m ∈ ms, 4 + m.2.length ≤ 268435456) :
    ∀ m ∈ ms.map typedMsg, m.length ≤ 268435456 := by
  intro m hm
  obtain ⟨x, hx, rfl⟩ := List.mem_map.mp hm
  exact h x hx

/-- A client's parser on the wire encoding of a session. -/
theorem fed_client_wire {pre : List Bytes} {last : Bytes} {ms : List (UInt8 × Bytes)} {cs : List Bytes}
    (hpre : ∀ b ∈ pre, Negotiates b) (hlast : ¬ Negotiates last)
    (hl : ∀ b ∈ last :: pre, 4 + b.length ≤ 268435456) (hms : ∀ m ∈ ms, 4 + m.2.length ≤ 268435456)
    (hcs : cs.flatten = pre.flatMap wireStartup ++ wireStartup last ++ ms.flatMap wireTyped) :
    fedMsgs (newParser true) cs = pre.map startupMsg ++ [startupMsg last] ++ ms.map typedMsg ∧
      fedClean (newParser true) cs ∧ fedState (newParser true) cs = ⟨false, [], false⟩ := by
  have hneg : ∀ b ∈ pre, Negotiates b ∧ 4 + b.length < 4294967296 := by
    intro b hb
    have := hl b (List.mem_cons_of_mem _ hb)
    exact ⟨hpre b hb, by omega⟩
  have hs := spells_startup hneg hlast (by have := hl last List.mem_cons_self; omega)
  refine fed_of_spells (hcs ▸ hs.append (spells_typed ms hms)) fun m hm => ?_
  rcases List.mem_append.mp hm with hm | hm
  · obtain ⟨b, hb, rfl⟩ : ∃ b ∈ last :: pre, startupMsg b = m := by
      rcases List.mem_append.mp hm with hm | hm
      · obtain ⟨b, hb, rfl⟩ := List.mem_map.mp hm
        exact ⟨b, List.mem_cons_of_mem _ hb, rfl⟩
      · exact ⟨last, List.mem_cons_self, (List.mem_singleton.mp hm).symm⟩
    exact hl b hb
  · exact typedMsg_length_le hms m hm

/-- A server's parser on the wire encoding of typed messages. -/
theorem fed_server_wire {ms : List (UInt8 × Bytes)} {cs : List Bytes}
    (hms : ∀ m ∈ ms, 4 + m.2.length ≤ 268435456) (hcs : cs.flatten = ms.flatMap wireTyped) :
    fedMsgs (newParser false) cs = ms.map typedMsg ∧ fedClean (newParser false) cs ∧
      fedState (newParser false) cs = ⟨false, [], false⟩ :=
  fed_of_spells (hcs ▸ spells_typed ms hms) (typedMsg_length_le hms)

/-- **Framing inverts encoding.** A client's startup messages, all but the last
carrying a negotiation code, and the typed messages after them come back from
any chunking of their wire encoding, in order and with no error, and the parser
is left typed and empty; so do typed messages alone from a server. -/
theorem feed_inverts_wire :
    (∀ (pre : List Bytes) (last : Bytes) (ms : List (UInt8 × Bytes)) (cs : List Bytes),
      (∀ b ∈ pre, Negotiates b) → ¬ Negotiates last → (∀ b ∈ last :: pre, 4 + b.length ≤ 268435456) →
      (∀ m ∈ ms, 4 + m.2.length ≤ 268435456) →
      cs.flatten = pre.flatMap wireStartup ++ wireStartup last ++ ms.flatMap wireTyped →
      fedMsgs (newParser true) cs = pre.map startupMsg ++ [startupMsg last] ++ ms.map typedMsg ∧
        fedClean (newParser true) cs ∧ fedState (newParser true) cs = ⟨false, [], false⟩) ∧
    (∀ (ms : List (UInt8 × Bytes)) (cs : List Bytes), (∀ m ∈ ms, 4 + m.2.length ≤ 268435456) →
      cs.flatten = ms.flatMap wireTyped →
      fedMsgs (newParser false) cs = ms.map typedMsg ∧ fedClean (newParser false) cs ∧
        fedState (newParser false) cs = ⟨false, [], false⟩) := by
  refine ⟨?_, ?_⟩
  · intro pre last ms cs hpre hlast hl hms hcs
    exact fed_client_wire hpre hlast hl hms hcs
  · intro ms cs hms hcs
    exact fed_server_wire hms hcs

/-- An SSLRequest, a StartupMessage of protocol 3.0 and a Sync, cut inside the
second header. -/
theorem feed_inverts_wire_session :
    fedMsgs (newParser true) [[0, 0, 0, 8, 4, 210, 22, 47, 0, 0], [0, 8, 0, 3, 0, 0, 83, 0, 0, 0, 4]] =
      [startupMsg [4, 210, 22, 47], startupMsg [0, 3, 0, 0], typedMsg (83, [])] :=
  (feed_inverts_wire.1 [[4, 210, 22, 47]] [0, 3, 0, 0] [(83, [])] _ (by decide) (by decide) (by decide)
    (by decide) (by decide)).1

/-! ### The bytes retained -/

/-- The header at the front of `buf` is complete and refused. -/
def Refused (inStartup : Bool) (buf : Bytes) : Prop :=
  off inStartup + 4 ≤ buf.length ∧ (refusal inStartup buf).isSome = true

instance (st : Bool) (buf : Bytes) : Decidable (Refused st buf) := by unfold Refused; infer_instance

/-- With the chunk `c`, the parser `p` holds a refused header, behind complete
messages, with more than `bound` bytes from it on. -/
def Backlogged (bound : ℕ) (p : StreamParser) (c : Bytes) : Prop :=
  p.stalled = false ∧ ∃ bs rest ms q, p.buf ++ c = bs ++ rest ∧ framing.Spells p.inStartup bs ms q ∧
    Refused q rest ∧ bound < rest.length

/-- No complete message is left in the buffer. -/
def Settled (p : StreamParser) : Prop := (framing.drain p.inStartup p.buf).items = []

theorem settled_nil (st stalled : Bool) : Settled ⟨st, [], stalled⟩ := by
  unfold Settled
  rw [Decoder.drain_more (front_nil st)]

theorem settled_feed {p : StreamParser} (h : Settled p) (c : Bytes) : Settled (p.feed c).1 := by
  cases hp : p.stalled with
  | true => rw [feed_stalled hp]; exact h
  | false =>
    by_cases ho : Overlong p.inStartup (p.buf ++ c)
    · rw [feed_overlong hp ho]; exact settled_nil _ _
    · rw [feed_live hp ho]
      unfold Settled
      rw [Decoder.drain_rest]

theorem settled_final (fromClient : Bool) (cs : List Bytes) : Settled (fedState (newParser fromClient) cs) := by
  induction cs using List.reverseRecOn with
  | nil => exact settled_nil _ _
  | append_singleton cs c ih =>
    unfold fedState at *
    rw [Machine.final_append]
    exact settled_feed ih c

/-- A typed header that is not refused declares at most 256 MiB. -/
theorem declared_le_of_typed {buf : Bytes} (h : refusal false buf = none) : declared false buf ≤ 268435456 := by
  unfold refusal at h
  simp only [Bool.false_eq_true, if_false] at h
  by_contra hgt
  by_cases h4 : declared false buf < 4
  · rw [if_pos h4] at h; cases h
  · rw [if_neg h4, if_pos (by omega)] at h; cases h

/-- What one `Feed` retains, unless a refused header is in the way: part of a
message of at most 256 MiB, at most 1 MiB of a longer one, or less than the
chunk. -/
theorem feed_retains {p : StreamParser} {c : Bytes} {bound : ℕ} (hs : Settled p) (hbuf : p.buf.length ≤ bound)
    (hb : 268435456 + 1 + c.length ≤ bound) (hn : ¬ Backlogged bound p c) : (p.feed c).1.buf.length ≤ bound := by
  cases hp : p.stalled with
  | true => rw [feed_stalled hp]; exact hbuf
  | false =>
    by_cases ho : Overlong p.inStartup (p.buf ++ c)
    · rw [feed_overlong hp ho]; exact Nat.zero_le _
    · rw [feed_live hp ho]
      set r := framing.drain p.inStartup (p.buf ++ c) with hr
      show r.rest.length ≤ bound
      cases he : r.err with
      | some e =>
        obtain ⟨bs, hbs, hsp⟩ := Decoder.exists_spells (D := framing) p.inStartup (p.buf ++ c)
        rw [← hr] at hbs hsp
        have hbad := Decoder.front_err (D := framing) p.inStartup (p.buf ++ c) he
        rw [← hr] at hbad
        obtain ⟨h4, href⟩ := frontMsg_bad.mp hbad
        by_contra hgt
        exact hn ⟨hp, bs, r.rest, r.items, r.phase, hbs, hsp, ⟨h4, by rw [href]; rfl⟩, by omega⟩
      | none =>
        have hmore := Decoder.front_rest (D := framing) p.inStartup (p.buf ++ c) he
        rw [← hr] at hmore
        have hoff : off r.phase ≤ 1 := by cases r.phase <;> simp [off]
        rcases frontMsg_more.mp hmore with hsh | ⟨href, hlt⟩
        · omega
        · by_cases hd : declared r.phase r.rest ≤ 268435456
          · omega
          · -- an untyped message of more than 256 MiB
            have hst : r.phase = true := by
              cases hph : r.phase with
              | true => rfl
              | false => rw [hph] at href hd; exact absurd (declared_le_of_typed href) hd
            by_cases hi : r.items = []
            · have hfront : framing.front p.inStartup (p.buf ++ c) = .more := by
                cases hf : framing.front p.inStartup (p.buf ++ c) with
                | more => rfl
                | item m q n => rw [hr, Decoder.drain_item hf] at hi; cases hi
                | bad e => rw [hr, Decoder.drain_bad hf] at he; cases he
              have hrest : r.rest = p.buf ++ c := by rw [hr, Decoder.drain_more hfront]
              have hphase : r.phase = p.inStartup := by rw [hr, Decoder.drain_more hfront]
              by_contra hgt
              refine ho ⟨by rw [← hphase, hst], ?_, ?_, ?_⟩
              · rw [← hrest]; omega
              · rw [← hrest, ← hst]; omega
              · rw [hst] at hlt
                rw [← hrest]
                simpa [off] using hlt
            · have := Decoder.rest_length_lt (D := framing) hs hi
              rw [← hr] at this
              omega

/-- A backlogged `Feed` retains everything from the refused header on. -/
theorem feed_backlogged {p : StreamParser} {c : Bytes} {bound : ℕ} (h : Backlogged bound p c) :
    bound < (p.feed c).1.buf.length := by
  obtain ⟨hp, bs, rest, ms, q, hsplit, hsp, ⟨h4, href⟩, hlen⟩ := h
  obtain ⟨e, he⟩ := Option.isSome_iff_exists.mp href
  have hbad : framing.front q rest = .bad e := frontMsg_bad.mpr ⟨h4, he⟩
  have hd := Decoder.drain_spells hsp rest
  rw [Decoder.drain_bad hbad, ← hsplit] at hd
  have ho : ¬ Overlong p.inStartup (p.buf ++ c) := by
    intro ho
    rw [ho.drain] at hd
    have : none = some e := congrArg Out.err hd
    cases this
  rw [feed_live hp ho, hd]
  exact hlen

/-- **When the buffer is bounded.** Over chunks of at most `C` bytes, the bytes
retained after each call stay within `2^28 + 1 + C` exactly if no call leaves
more than that many bytes behind a refused header. -/
theorem retained_le_iff (C : ℕ) (fromClient : Bool) (cs : List Bytes) (hC : ∀ c ∈ cs, c.length ≤ C) :
    (∀ u v, cs = u ++ v → (fedState (newParser fromClient) u).buf.length ≤ 2 ^ 28 + 1 + C) ↔
    (∀ u c v, cs = u ++ c :: v → ¬ Backlogged (2 ^ 28 + 1 + C) (fedState (newParser fromClient) u) c) := by
  have hstep : ∀ u c, fedState (newParser fromClient) (u ++ [c]) =
      ((fedState (newParser fromClient) u).feed c).1 := fun u c => Machine.final_append _ _ _ _
  constructor
  · intro h u c v hcs hb
    have hle := h (u ++ [c]) v (by rw [hcs, List.append_assoc]; rfl)
    have hlt := feed_backlogged hb
    rw [hstep] at hle
    omega
  · intro h u
    -- the calls so far, one more at a time
    induction u using List.reverseRecOn with
    | nil => intro v _; exact Nat.zero_le _
    | append_singleton u c ih =>
      intro v hcs
      have hcs' : cs = u ++ c :: v := by rw [hcs, List.append_assoc]; rfl
      have hc := hC c (by rw [hcs']; simp)
      rw [hstep]
      exact feed_retains (settled_final fromClient u) (ih _ hcs') (by omega) (h u c v hcs')

/-- Half a header: nothing is refused. -/
theorem retained_le_half_header : (fedState (newParser false) [[81, 0]]).buf.length ≤ 2 ^ 28 + 1 + 2 := by
  refine (retained_le_iff 2 false [[81, 0]] (by decide)).mpr (fun u c v hcs hb => ?_) [[81, 0]] [] rfl
  obtain ⟨rfl, rfl, rfl⟩ : u = [] ∧ c = [81, 0] ∧ v = [] := by
    cases u with
    | nil => simpa [eq_comm] using hcs
    | cons x xs => simp at hcs
  obtain ⟨-, bs, rest, -, -, hsplit, -, -, hlt⟩ := hb
  have hlen : [81, 0].length = (bs ++ rest).length := congrArg List.length hsplit
  rw [List.length_append] at hlen
  simp only [List.length_cons, List.length_nil] at hlen
  omega

/-- A typed stream stays typed. -/
theorem drain_typed_phase (buf : Bytes) : (framing.drain false buf).phase = false := by
  have key : ∀ st buf, st = false → (framing.drain st buf).phase = false := by
    intro st buf
    induction st, buf using Decoder.drain_induction (D := framing) with
    | item st buf m q n h ih =>
      intro hst
      obtain ⟨-, -, -, -, -, hq⟩ := frontMsg_item h
      rw [Decoder.drain_item h]
      exact ih (by rw [hq, hst, Bool.false_and])
    | more st buf h => intro hst; rw [Decoder.drain_more h]; exact hst
    | bad st buf e h => intro hst; rw [Decoder.drain_bad h]; exact hst
  exact key false buf rfl

/-- The server's parser never stalls. -/
theorem fed_server (cs : List Bytes) :
    fedState (newParser false) cs = ⟨false, (framing.drain false cs.flatten).rest, false⟩ ∧
      fedMsgs (newParser false) cs = (framing.drain false cs.flatten).items := by
  cases fed_fresh false cs with
  | live hq hm => exact ⟨by rw [hq, drain_typed_phase], hm⟩
  | stalled u v _ _ hov _ _ =>
    have := hov.1
    rw [drain_typed_phase] at this
    cases this

theorem drain_zeros {n : ℕ} (hn : 5 ≤ n) :
    (framing.drain false (List.replicate n 0)).rest = List.replicate n 0 := by
  have hd : declared false (List.replicate n 0) = 0 := by
    unfold declared uint32
    rw [show off false = 1 from rfl, List.drop_replicate, List.take_replicate, min_eq_left (by omega)]
    rfl
  have hh : (List.replicate n (0 : UInt8)).headD 0 = 0 := by cases n <;> rfl
  have hbad : framing.front false (List.replicate n 0) = .bad (.invalidLength 0 0) := by
    refine frontMsg_bad.mpr ⟨by rw [List.length_replicate]; exact hn, ?_⟩
    unfold refusal
    rw [hd, hh]
    rfl
  rw [Decoder.drain_bad hbad]

/-- Three chunks of 256 MiB of zeros from a server: the first header declares
length 0, and the parser holds on to all of it. -/
theorem retained_zeros :
    (∀ c ∈ List.replicate 3 (List.replicate (2 ^ 28) (0 : UInt8)), c.length ≤ 2 ^ 28) ∧
    ¬ (fedState (newParser false) (List.replicate 3 (List.replicate (2 ^ 28) 0))).buf.length ≤
      2 ^ 28 + 1 + 2 ^ 28 := by
  refine ⟨fun c hc => ?_, ?_⟩
  · rw [List.eq_of_mem_replicate hc, List.length_replicate]
  · have hflat : (List.replicate 3 (List.replicate (2 ^ 28) (0 : UInt8))).flatten =
        List.replicate (3 * 2 ^ 28) 0 := List.flatten_replicate_replicate
    rw [(fed_server _).1, hflat, drain_zeros (by norm_num), List.length_replicate]
    norm_num

end PgShadow
