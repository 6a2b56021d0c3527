/-
# The bytes before the first typed message

A client's stream begins untyped, a server's does not, and `parsersFor` takes
both for granted. Two kinds of connection break the assumption.

* A server that declines an SSLRequest or GSSENCRequest answers with the single
  byte `N`, which the server's parser takes for the type of a message.
  `declined_negotiation_iff`: the messages after such bytes are never framed.
* A connection that is observed from the middle, because capture began late or
  because it was flushed as idle and went on, has no untyped message to begin
  with, and the type and length of its first message are taken for the length
  of one. `midstream_undispatched`: nothing is dispatched from then on.
  With the startup message in front, every query is (`startup_dispatches`).

Key definitions: `frontendTypes`, `plainQueries`.
-/
import PgShadow.Pipeline.Trace

namespace PgShadow

open StreamDecoder

theorem le_uint32_cons (b : UInt8) {r : Bytes} (h : 3 ≤ r.length) : b.toNat * 16777216 ≤ uint32 (b :: r) := by
  have hlen : (r.take 3).length = 3 := by rw [List.length_take]; omega
  have hle := BigEndian.le_ofBytes_cons b (r.take 3)
  rw [hlen] at hle
  exact hle

/-! ### Declined negotiations -/

/-- A server's parser that reports no error has refused nothing. -/
theorem drain_of_fedClean : ∀ (cs : List Bytes) (buf : Bytes), (framing.drain false buf).err = none →
    fedClean ⟨false, buf, false⟩ cs → (framing.drain false (buf ++ cs.flatten)).err = none
  | [], buf, h, _ => by rw [List.flatten_nil, List.append_nil]; exact h
  | c :: cs, buf, _, hclean => by
    have hlive : ¬ Overlong false (buf ++ c) := fun ho => by cases ho.1
    have hfeed := feed_live (p := ⟨false, buf, false⟩) rfl hlive
    unfold fedClean at hclean
    rw [Machine.outs_cons, hfeed] at hclean
    have hc : (framing.drain false (buf ++ c)).err = none := hclean _ List.mem_cons_self
    have hphase := drain_typed_phase (buf ++ c)
    have hrest : (framing.drain false (framing.drain false (buf ++ c)).rest).err = none := by
      have := Decoder.drain_rest (D := framing) false (buf ++ c)
      rw [hphase] at this
      rw [this]
      exact hc
    have ih := drain_of_fedClean cs (framing.drain false (buf ++ c)).rest hrest fun o ho =>
      hclean o (List.mem_cons_of_mem _ (by rw [hphase]; exact ho))
    rw [List.flatten_cons, ← List.append_assoc, Decoder.drain_append, hphase]
    exact ih

theorem mem_errs_iff {p : StreamParser} {cs : List Bytes} :
    (∀ e ∈ (Machine.outs StreamParser.feed p cs).map (·.2), e = none) ↔ fedClean p cs := by
  unfold fedClean
  simp only [List.mem_map, forall_exists_index, and_imp, forall_apply_eq_imp_iff₂]

/-- The second byte of a typed header that is not refused is at most 16. -/
theorem second_le_of_accepted {a b : UInt8} {r : Bytes} (hr : 3 ≤ r.length)
    (h : refusal false (a :: b :: r) = none) : b.toNat ≤ 16 := by
  have hle := declared_le_of_typed h
  have hb : b.toNat * 16777216 ≤ declared false (a :: b :: r) := le_uint32_cons b hr
  omega

/-- The first message framed from a typed stream has the stream's first byte
for its type. -/
theorem head_type_of_items {buf : Bytes} {m : PGMessage} {ms : List PGMessage}
    (h : (framing.drain false buf).items = m :: ms) : m.type = buf.headD 0 := by
  cases hf : framing.front false buf with
  | more => rw [Decoder.drain_more hf] at h; cases h
  | bad e => rw [Decoder.drain_bad hf] at h; cases h
  | item m' q n =>
    rw [Decoder.drain_item hf] at h
    obtain ⟨-, -, -, -, hm, -⟩ := frontMsg_item hf
    have : m' = m := (List.cons.inj h).1
    rw [← this, hm]
    rfl

/-- `k` declined negotiations and then typed messages are framed as those
messages only if there are none and `k` bytes are no header yet. -/
theorem short_of_declined {k : ℕ} (hk : 0 < k) {ms : List (UInt8 × Bytes)}
    (hitems : (framing.drain false (List.replicate k (chr 'N') ++ ms.flatMap wireTyped)).items = ms.map typedMsg)
    (herr : (framing.drain false (List.replicate k (chr 'N') ++ ms.flatMap wireTyped)).err = none) :
    (List.replicate k (chr 'N') ++ ms.flatMap wireTyped).length < 5 := by
  by_contra hlen
  have hacc : refusal false (List.replicate k (chr 'N') ++ ms.flatMap wireTyped) = none := by
    cases hr : refusal false (List.replicate k (chr 'N') ++ ms.flatMap wireTyped) with
    | none => rfl
    | some e =>
      have hbad : framing.front false (List.replicate k (chr 'N') ++ ms.flatMap wireTyped) = .bad e :=
        frontMsg_bad.mpr ⟨by rw [show off false = 1 from rfl]; omega, hr⟩
      rw [Decoder.drain_bad hbad] at herr
      cases herr
  obtain ⟨j, rfl⟩ : ∃ j, k = j + 1 := ⟨k - 1, by omega⟩
  rw [List.replicate_succ, List.cons_append] at hacc hitems hlen
  cases j with
  | succ j =>
    -- two replies: the second is the leading byte of a length
    rw [List.replicate_succ, List.cons_append] at hacc hlen
    have := second_le_of_accepted (by simp only [List.length_cons] at hlen; omega) hacc
    revert this
    decide
  | zero =>
    cases ms with
    | nil => simp at hlen
    | cons m ms =>
      obtain ⟨t, p⟩ := m
      have hcons : List.replicate 0 (chr 'N') ++ ((t, p) :: ms).flatMap wireTyped =
          t :: (BigEndian.toBytes 4 (4 + p.length) ++ p ++ ms.flatMap wireTyped) := by
        simp [wireTyped]
      rw [hcons] at hacc hitems
      -- the type is the leading byte of a length, so it is not `N`
      have ht := second_le_of_accepted (by simp only [List.length_append, BigEndian.length_toBytes]; omega) hacc
      have htype : t = chr 'N' := head_type_of_items hitems
      rw [htype] at ht
      revert ht
      decide

/-- **Declined negotiations.** After `k` reply bytes `N`, in any chunking and
next to any other traffic, the server direction handles the typed messages that
follow, without a parse error, exactly if there were no replies, or if there are
no messages and the replies are too short for a header. -/
theorem declined_negotiation_iff (sp : StreamProcessor) (c : ConnID) (hnew : sp.parsers c = none)
    (calls : List Call) (hopen : Call.onClose c ∉ calls) (k : ℕ) (ms : List (UInt8 × Bytes))
    (hms : ∀ m ∈ ms, 4 + m.2.length ≤ 268435456)
    (hbytes : (chunksOf false c calls).flatten = List.replicate k (chr 'N') ++ ms.flatMap wireTyped) :
    (msgsOf false (sp.trace calls c) = ms.map typedMsg ∧ ∀ e ∈ errsOf false (sp.history calls c), e = none) ↔
      k = 0 ∨ ms = [] ∧ k < 5 := by
  obtain ⟨hmsgs, herrs⟩ := framed_of_run false c calls sp hopen
  rw [fresh_of_unseen hnew] at hmsgs herrs
  rw [hmsgs, herrs, mem_errs_iff]
  constructor
  · rintro ⟨hitems, hclean⟩
    have herr := drain_of_fedClean (chunksOf false c calls) []
      (congrArg Out.err (Decoder.drain_more (front_nil false))) hclean
    rw [List.nil_append, hbytes] at herr
    rw [(fed_server _).2, hbytes] at hitems
    rcases Nat.eq_zero_or_pos k with hk | hk
    · exact Or.inl hk
    · have hlt := short_of_declined hk hitems herr
      rw [List.length_append, List.length_replicate] at hlt
      refine Or.inr ⟨?_, by omega⟩
      cases ms with
      | nil => rfl
      | cons m ms =>
        rw [List.flatMap_cons, List.length_append, length_wireTyped] at hlt
        omega
  · rintro (rfl | ⟨rfl, hk5⟩)
    · rw [List.replicate_zero, List.nil_append] at hbytes
      obtain ⟨hfed, hclean, -⟩ := fed_server_wire hms hbytes
      exact ⟨hfed, hclean⟩
    · have hmore : framing.front false (List.replicate k (chr 'N')) = .more :=
        frontMsg_more.mpr (Or.inl (by rw [List.length_replicate]; exact hk5))
      have hdrain := Decoder.drain_more hmore
      rw [List.flatMap_nil, List.append_nil] at hbytes
      rw [(fed_server _).2, hbytes, hdrain]
      refine ⟨rfl, fedClean_of_drain _ (newParser false) rfl ?_⟩
      rw [show (newParser false).buf ++ _ = _ from List.nil_append _, hbytes]
      exact congrArg Out.err hdrain

/-- A declined SSLRequest, and the ReadyForQuery of the session after it. -/
def declinedCalls (c : ConnID) : List Call :=
  [.onBytes c true (wireStartup [4, 210, 22, 47]) 0, .onBytes c false [78] 1,
    .onBytes c true (wireStartup [0, 3, 0, 0]) 2, .onBytes c false (wireTyped (90, [73])) 3]

theorem declined_negotiation_reply :
    msgsOf false ((defaultProcessor ⟨id, id⟩ {} true).trace ((declinedCalls someConn).take 2) someConn) = [] :=
  ((declined_negotiation_iff _ _ rfl _ (by decide) 1 [] (by decide) (by decide +kernel)).mpr (by decide)).1

/-- The ReadyForQuery after a declined SSLRequest is not handled, and a parse
error is reported. -/
theorem declined_negotiation_lost :
    let sp := defaultProcessor ⟨id, id⟩ {} true
    let c := someConn
    newStreamProcessor ⟨id, id⟩ {} {} true = .ok sp ∧
      (chunksOf true c (declinedCalls c)).flatten = wireStartup [4, 210, 22, 47] ++ wireStartup [0, 3, 0, 0] ∧
      (chunksOf false c (declinedCalls c)).flatten =
        [chr 'N'] ++ [(msgReadyForQuery, [chr 'I'])].flatMap wireTyped ∧
      msgsOf false (sp.trace (declinedCalls c) c) = [] ∧
      (sp.history (declinedCalls c) c).map (·.2.effects) = [[], [], [], [.parseError]] :=
  ⟨new_default _ _ _, by decide +kernel, by decide +kernel, by decide +kernel, by decide +kernel⟩

/-! ### Connections observed from the middle -/

/-- The types of the messages a client sends once the session has started. -/
def frontendTypes : List UInt8 :=
  [chr 'B', chr 'C', chr 'D', chr 'E', chr 'F', chr 'H', chr 'P', chr 'Q', chr 'S', chr 'X', chr 'c', chr 'd',
    chr 'f', chr 'p']

/-- The texts of the Simple_Querys that are neither oversized nor a COPY. -/
def plainQueries (E : Env) (ms : List PGMessage) : List Bytes :=
  ms.filterMap fun m =>
    match E.request m with
    | .query sql => if E.cls.classify sql = .copyFrom then none else some sql
    | _ => none

/-- An untyped header that begins with a large byte declares more than 1 GiB. -/
theorem more_of_large {b : UInt8} {r : Bytes} (hb : 66 ≤ b.toNat) (hr : (b :: r).length ≤ 1074790400) :
    framing.front true (b :: r) = .more ∧ (1048576 < (b :: r).length → Overlong true (b :: r)) := by
  by_cases h4 : (b :: r).length < 4
  · refine ⟨frontMsg_more.mpr (Or.inl h4), fun h => ?_⟩
    omega
  · have h3 : 3 ≤ r.length := by rw [List.length_cons] at h4; omega
    have hd : b.toNat * 16777216 ≤ declared true (b :: r) := le_uint32_cons b h3
    have href : refusal true (b :: r) = none := by
      unfold refusal
      simp only [if_true]
      rw [if_neg (by omega)]
    refine ⟨frontMsg_more.mpr (Or.inr ⟨href, ?_⟩), fun h => ⟨rfl, h, by omega, by omega⟩⟩
    rw [show off true = 0 from rfl]
    omega

/-- A client's parser that waits on at most 1 MiB of a stream beginning with a
large byte makes nothing of it, as long as no chunk has more than 1 GiB. -/
theorem midstream_silent : ∀ (cs : List Bytes) (buf : Bytes), buf.length ≤ 1048576 →
    (∀ d ∈ cs, d.length ≤ 1073741824) → (∀ b ∈ (buf ++ cs.flatten).head?, 66 ≤ b.toNat) →
    fedMsgs ⟨true, buf, false⟩ cs = []
  | [], _, _, _, _ => rfl
  | d :: cs, buf, hbuf, hcs, hhead => by
    have hd := hcs d List.mem_cons_self
    have hlen : (buf ++ d).length ≤ 1074790400 := by rw [List.length_append]; omega
    have hcs' : ∀ d ∈ cs, d.length ≤ 1073741824 := fun x hx => hcs x (List.mem_cons_of_mem _ hx)
    rw [List.flatten_cons, ← List.append_assoc] at hhead
    have hfront : framing.front true (buf ++ d) = .more ∧
        (1048576 < (buf ++ d).length → Overlong true (buf ++ d)) := by
      cases hbd : buf ++ d with
      | nil => exact ⟨front_nil true, fun h => by simp at h⟩
      | cons b r =>
        rw [hbd] at hhead hlen
        exact more_of_large (hhead b rfl) hlen
    show (StreamParser.feed ⟨true, buf, false⟩ d).2.1 ++
      fedMsgs (StreamParser.feed ⟨true, buf, false⟩ d).1 cs = []
    by_cases ho : Overlong true (buf ++ d)
    · rw [feed_overlong (p := ⟨true, buf, false⟩) rfl ho]
      exact (fedMsgs_stalled (p := ⟨true, [], true⟩) rfl cs).1
    · have hshort : (buf ++ d).length ≤ 1048576 := by
        by_contra hgt
        exact ho (hfront.2 (by omega))
      rw [feed_live (p := ⟨true, buf, false⟩) rfl ho]
      simp only [Decoder.drain_more hfront.1, List.nil_append]
      exact midstream_silent cs (buf ++ d) hshort hcs' hhead

/-- Without a client message nothing is decided. -/
theorem decided_of_no_client {sp : StreamProcessor} {calls : List Call} {c : ConnID}
    (h : msgsOf true (sp.trace calls c) = []) : decided (effectsOf (sp.trace calls c)) = [] := by
  refine trace_induction (E := sp.env) (c := c)
    (P := fun _ tr => msgsOf true tr = [] → decided (effectsOf tr) = [])
    ?_ ?_ ?_ ?_ rfl (fun _ => rfl) calls h
  · intro s n tr msg ts _ hmsgs
    rw [msgsOf_append] at hmsgs
    simp [msgsOf] at hmsgs
  · intro s tr msg ts ih hmsgs
    rw [msgsOf_append] at hmsgs
    rw [decided_concat_server]
    exact ih (List.append_eq_nil_iff.mp hmsgs).1
  · intro s tr fromClient data ih hmsgs
    exact ih hmsgs
  · intro s tr ih hmsgs
    rw [msgsOf_append] at hmsgs
    rw [decided_concat_close]
    exact ih (List.append_eq_nil_iff.mp hmsgs).1

/-- On a connection whose first bytes are typed client messages, in chunks of at
most 1 GiB, nothing is dispatched. -/
theorem midstream_undispatched {sp : StreamProcessor} {c : ConnID} (hnew : sp.parsers c = none)
    {calls : List Call} (hopen : Call.onClose c ∉ calls) {ms : List (UInt8 × Bytes)}
    (htypes : ∀ m ∈ ms, m.1 ∈ frontendTypes) (hbytes : (chunksOf true c calls).flatten = ms.flatMap wireTyped)
    (hchunks : ∀ d ∈ chunksOf true c calls, d.length ≤ 1073741824) :
    decided (effectsOf (sp.trace calls c)) = [] := by
  have hhead : ∀ b ∈ (([] : Bytes) ++ (chunksOf true c calls).flatten).head?, 66 ≤ b.toNat := by
    intro b hb
    rw [List.nil_append, hbytes] at hb
    cases ms with
    | nil => cases hb
    | cons m ms =>
      obtain rfl : m.1 = b := Option.some.inj hb
      have hall : ∀ t ∈ frontendTypes, 66 ≤ t.toNat := by decide +kernel
      exact hall _ (htypes m List.mem_cons_self)
  apply decided_of_no_client
  rw [(framed_of_run true c calls sp hopen).1, fresh_of_unseen hnew]
  exact midstream_silent _ [] (by decide) hchunks hhead

/-- The client's stream, one byte a call. -/
def bytewise (c : ConnID) (stream : Bytes) : List Call := stream.map fun b => .onBytes c true [b] 0

theorem chunksOf_bytewise (c : ConnID) : ∀ stream, chunksOf true c (bytewise c stream) = stream.map fun b => [b]
  | [] => rfl
  | b :: stream => by
    rw [List.map_cons, ← chunksOf_bytewise c stream]
    exact chunksOf_cons_self c true [b] 0 (bytewise c stream)

/-- **Connections observed from the middle.** On a connection whose first bytes
are typed client messages, the plain queries among them are dispatched, however
the bytes arrive, exactly if there are none. -/
theorem midstream_dispatches_iff (sp : StreamProcessor) (c : ConnID) (hnew : sp.parsers c = none)
    (ms : List (UInt8 × Bytes)) (htypes : ∀ m ∈ ms, m.1 ∈ frontendTypes) :
    (∀ calls, Call.onClose c ∉ calls → (chunksOf true c calls).flatten = ms.flatMap wireTyped →
        (plainQueries sp.env (ms.map typedMsg)).Sublist
          ((decided (effectsOf (sp.trace calls c))).map (·.sql))) ↔
      plainQueries sp.env (ms.map typedMsg) = [] := by
  constructor
  · intro h
    have hopen : Call.onClose c ∉ bytewise c (ms.flatMap wireTyped) := by simp [bytewise]
    have hbytes : (chunksOf true c (bytewise c (ms.flatMap wireTyped))).flatten = ms.flatMap wireTyped := by
      rw [chunksOf_bytewise, ← List.flatMap_def, List.flatMap_singleton']
    have hsub := h _ hopen hbytes
    rw [midstream_undispatched hnew hopen htypes hbytes] at hsub
    · exact List.sublist_nil.mp hsub
    · intro d hd
      rw [chunksOf_bytewise] at hd
      obtain ⟨b, -, rfl⟩ := List.mem_map.mp hd
      rw [List.length_singleton]
      omega
  · intro h calls _ _
    rw [h]
    exact List.nil_sublist _

/-- A Sync is no query. -/
theorem midstream_dispatches_sync :
    let sp := defaultProcessor ⟨id, id⟩ {} true
    let c := someConn
    ∀ calls, Call.onClose c ∉ calls → (chunksOf true c calls).flatten = [(chr 'S', [])].flatMap wireTyped →
      (plainQueries sp.env ([(chr 'S', [])].map typedMsg)).Sublist
        ((decided (effectsOf (sp.trace calls c))).map (·.sql)) :=
  (midstream_dispatches_iff _ _ rfl [(chr 'S', [])] (by decide)).mpr (by decide +kernel)

/-- A query on a connection observed from the middle gives no event. -/
theorem midstream_query_lost :
    let sp := defaultProcessor ⟨id, id⟩ {} true
    let c := someConn
    let q : UInt8 × Bytes := (chr 'Q', bytes "INSERT INTO t VALUES (1)\x00")
    newStreamProcessor ⟨id, id⟩ {} {} true = .ok sp ∧
      plainQueries sp.env [typedMsg q] = [bytes "INSERT INTO t VALUES (1)"] ∧
      decided (effectsOf (sp.trace [.onBytes c true (wireTyped q) 0] c)) = [] ∧
      decided (effectsOf (sp.trace [.onClose c, .onBytes c true (wireTyped q) 0] c)) = [] :=
  ⟨new_default _ _ _, by decide +kernel, by decide +kernel, by decide +kernel⟩

/-- In every run, the plain queries that the client direction handles are among
the events dispatched. -/
theorem queries_dispatched (sp : StreamProcessor) (c : ConnID) (calls : List Call) :
    (plainQueries sp.env (msgsOf true (sp.trace calls c))).Sublist
      ((decided (effectsOf (sp.trace calls c))).map (·.sql)) := by
  refine trace_induction (E := sp.env) (c := c)
    (P := fun _ tr => (plainQueries sp.env (msgsOf true tr)).Sublist ((decided (effectsOf tr)).map (·.sql)))
    ?_ ?_ ?_ ?_ rfl (List.Sublist.refl _) calls
  · intro s n tr msg ts ih
    rw [msgsOf_append, effectsOf_append, decided_append, List.map_append, effectsOf_singleton, Obs.effects,
      decided_answer]
    unfold plainQueries at ih ⊢
    rw [List.filterMap_append]
    refine ih.append ?_
    cases hreq : sp.env.request msg with
    | query sql =>
      by_cases hcopy : sp.env.cls.classify sql = .copyFrom
      · simp [msgsOf, hreq, hcopy]
      · simp [msgsOf, hreq, hcopy, Session.eventOf, Session.stamp]
    | _ => simp [msgsOf, hreq]
  · intro s tr msg ts ih
    rw [msgsOf_append, decided_concat_server]
    simpa [msgsOf] using ih
  · intro s tr fromClient data ih
    exact ih
  · intro s tr ih
    rw [msgsOf_append, decided_concat_close]
    simpa [msgsOf] using ih

/-- With the startup message in front, every plain query is dispatched. -/
theorem startup_dispatches (sp : StreamProcessor) (c : ConnID) (hnew : sp.parsers c = none)
    (calls : List Call) (hopen : Call.onClose c ∉ calls) (startup : Bytes) (ms : List (UInt8 × Bytes))
    (hstart : ¬ Negotiates startup) (hlen : 4 + startup.length ≤ 268435456)
    (hms : ∀ m ∈ ms, 4 + m.2.length ≤ 268435456)
    (hbytes : (chunksOf true c calls).flatten = wireStartup startup ++ ms.flatMap wireTyped) :
    (plainQueries sp.env (ms.map typedMsg)).Sublist ((decided (effectsOf (sp.trace calls c))).map (·.sql)) := by
  have hneg : ∀ b ∈ ([] : List Bytes), Negotiates b := by simp
  have hl : ∀ b ∈ [startup], 4 + b.length ≤ 268435456 := by simpa using hlen
  have hfed := fed_client_wire hneg hstart hl hms hbytes
  have hmsgs : msgsOf true (sp.trace calls c) = startupMsg startup :: ms.map typedMsg := by
    rw [(framed_of_run true c calls sp hopen).1, fresh_of_unseen hnew]
    exact hfed.1
  have hquery := queries_dispatched sp c calls
  rw [hmsgs] at hquery
  exact hquery

end PgShadow
