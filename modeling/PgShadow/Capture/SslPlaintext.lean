/-
# What reaches the pipeline of the plaintext

The bytes that a thread reads or writes through `SSL_read` and `SSL_write`,
against the payloads of the packets that `readLoop` makes of the thread's
records, whatever other threads do in between.

A call of up to 4095 bytes comes through as it is, unless the kernel fails to read
the buffer and leaves zeros. Of a longer call the program announces 4096 bytes, but
the mask on the length turns 4096 into 0, so it copies none: the packet carries what
an earlier record left in the slot of the ring buffer. Nothing comes through of a call
whose entry found no room for its arguments. `plaintext_iff` says exactly that,
`full_buffer_lost` is a 4096-byte query replaced by zeros.

Key definitions: `sslCalls`, `SslCall.plaintext`, `sslPayloads`, `SslCall.Intact`.
Key theorems: `flatMap_sslPayloads_run`, `plaintext_iff`.
-/
import Mathlib.Algebra.Order.BigOperators.Group.List
import Mathlib.Algebra.Order.Group.Nat
import PgShadow.Capture.Ssl

namespace PgShadow

/-! ### Calls -/

/-- A call by one thread in one direction. -/
structure SslCall where
  bufPtr : UInt64
  /-- The entry probe stored the arguments. -/
  stored : Bool
  r : SslReturn

/-- The plaintext buffer of a call. -/
def SslCall.plaintext (c : SslCall) : Bytes := c.r.mem.read c.bufPtr c.r.ret.toNat

section Thread

variable (d : SslDirection) (k : PidTgid)

/-- The calls of a thread in a run of the program; `pending` is the call that
the thread is in. -/
def sslCalls (p : SslProgram) (pending : Option (UInt64 × Bool)) : List Probe → List SslCall
  | [] => []
  | .enter d' k' bufPtr :: hits =>
    if d' = d ∧ k' = k then
      sslCalls (p.step (.enter d' k' bufPtr)) (some (bufPtr, p.shouldTrace k && (p.args d).hasRoom k)) hits
    else sslCalls (p.step (.enter d' k' bufPtr)) pending hits
  | .exit d' k' r :: hits =>
    if d' = d ∧ k' = k then
      (pending.map fun call => ⟨call.1, call.2, r⟩).toList ++ sslCalls (p.step (.exit d' k' r)) none hits
    else sslCalls (p.step (.exit d' k' r)) pending hits

/-- The thread enters and leaves one call after the other, each successful and
with a slot of the ring buffer for its record. -/
def Successful (inCall : Bool) : List Probe → Prop
  | [] => inCall = false
  | .enter d' k' _ :: hits =>
    if d' = d ∧ k' = k then inCall = false ∧ Successful true hits else Successful inCall hits
  | .exit d' k' r :: hits =>
    if d' = d ∧ k' = k then inCall = true ∧ 0 < r.ret ∧ r.slot.isSome ∧ Successful false hits
    else Successful inCall hits

/-- The payloads of the packets made of the thread's records. -/
def sslPayloads (records : List Bytes) : List Bytes :=
  ((readLoop (records.map (·, true))).filter fun x =>
    x.1.pid = k.pid ∧ x.1.tid = k.tid ∧ x.1.direction = d.code).map (·.2.payload)

end Thread

/-! ### Packets of records -/

/-- The event of a record and the payload of its packet. -/
def recordPayload (raw : Bytes) : Option (SslEvent × Bytes) :=
  if raw.length < sslEventSize then none
  else
    let ev := parseSslEvent raw
    if ev.dataLen = 0 then none
    else some (ev, ev.data.take (if ev.dataLen > 4096 then 4096 else ev.dataLen).toNat)

theorem buildSyntheticPacket_payload (payload : Bytes) (direction : UInt8) (pid tid seq : UInt32) :
    (buildSyntheticPacket payload direction pid tid seq).payload = payload := by
  unfold buildSyntheticPacket
  split_ifs <;> rfl

/-- The payload of a packet does not depend on the sequence numbers. -/
theorem handleRecord_payload (s : SslSource) (raw : Bytes) :
    ((s.handleRecord (raw, true)).2.map fun x => (x.1, x.2.payload)) = recordPayload raw := by
  unfold SslSource.handleRecord recordPayload
  by_cases hshort : raw.length < sslEventSize
  · rw [if_pos hshort, if_pos hshort]
    rfl
  · rw [if_neg hshort, if_neg hshort]
    by_cases hzero : (parseSslEvent raw).dataLen = 0
    · simp only [hzero, if_true, Option.map_none]
    · simp only [hzero, if_false, if_true, Option.map_some, buildSyntheticPacket_payload]

theorem outs_payload : ∀ (records : List Bytes) (s : SslSource),
    ((Machine.outs SslSource.handleRecord s (records.map (·, true))).filterMap id).map
      (fun x => (x.1, x.2.payload)) = records.filterMap recordPayload
  | [], _ => rfl
  | raw :: records, s => by
    rw [List.map_cons, Machine.outs_cons, List.filterMap_cons, List.filterMap_cons, ← handleRecord_payload s raw]
    rcases (s.handleRecord (raw, true)).2 with _ | x
    · exact outs_payload records _
    · exact congrArg _ (outs_payload records _)

theorem sslPayloads_eq (d : SslDirection) (k : PidTgid) (records : List Bytes) :
    sslPayloads d k records =
      ((records.filterMap recordPayload).filter fun x =>
        x.1.pid = k.pid ∧ x.1.tid = k.tid ∧ x.1.direction = d.code).map (·.2) := by
  rw [sslPayloads, readLoop, ← outs_payload records {}, List.filter_map, List.map_map]
  rfl

theorem sslPayloads_append (d : SslDirection) (k : PidTgid) (xs ys : List Bytes) :
    sslPayloads d k (xs ++ ys) = sslPayloads d k xs ++ sslPayloads d k ys := by
  simp only [sslPayloads_eq, List.filterMap_append, List.filter_append, List.map_append]

theorem SslDirection.code_inj {d d' : SslDirection} : d.code = d'.code ↔ d = d' := by
  cases d <;> cases d' <;> decide

/-- A record's packet belongs to the thread that wrote the record. -/
theorem sslPayloads_sslRecord (d d' : SslDirection) (k k' : PidTgid) (old : RingSlot) (fd : UInt32) (now : UInt64)
    {n : ℕ} {data : Bytes} (hpos : 0 < n) (hn : n ≤ maxDataLen) (hdata : data.length ≤ maxDataLen) :
    sslPayloads d k [sslRecord old k' fd (UInt32.ofNat n) d' now data] =
      if d' = d ∧ k' = k then [(data ++ old.1.drop (32 + data.length)).take n] else [] := by
  unfold maxDataLen at hn
  have hlen : (UInt32.ofNat n).toNat = n := by
    rw [UInt32.toNat_ofNat']
    omega
  have hzero : UInt32.ofNat n ≠ 0 := by
    rw [ne_eq, ← UInt32.toNat_inj, hlen]
    exact hpos.ne'
  have hclamp : ¬ UInt32.ofNat n > 4096 := by
    rw [gt_iff_lt, UInt32.lt_iff_toNat_lt, hlen]
    exact hn.not_gt
  have hrec : recordPayload (sslRecord old k' fd (UInt32.ofNat n) d' now data) =
      some (⟨k'.pid, k'.tid, fd, UInt32.ofNat n, d'.code, now, data ++ old.1.drop (32 + data.length)⟩,
        (data ++ old.1.drop (32 + data.length)).take n) := by
    rw [recordPayload, if_neg (by rw [length_sslRecord old k' fd _ d' now hdata]; exact lt_irrefl _),
      parseSslEvent_sslRecord old k' fd _ d' now hdata]
    simp only [hzero, hclamp, if_false, hlen]
  have hkey : (k'.pid = k.pid ∧ k'.tid = k.tid ∧ d'.code = d.code) ↔ d' = d ∧ k' = k := by
    rcases k with ⟨pid, tid⟩
    rcases k' with ⟨pid', tid'⟩
    rw [SslDirection.code_inj, PidTgid.mk.injEq]
    constructor
    · rintro ⟨hpid, htid, hd⟩
      exact ⟨hd, hpid, htid⟩
    · rintro ⟨hd, hpid, htid⟩
      exact ⟨hpid, htid, hd⟩
  rw [sslPayloads_eq, List.filterMap_cons, hrec, List.filterMap_nil]
  by_cases h : d' = d ∧ k' = k
  · rw [if_pos h, List.filter_cons_of_pos (by simpa using hkey.2 h)]
    rfl
  · rw [if_neg h, List.filter_cons_of_neg (by simpa using fun h1 h2 h3 => h (hkey.1 ⟨h1, h2, h3⟩))]
    rfl

/-! ### Runs -/

/-- What the packet of a call carries. -/
def SslCall.payload (c : SslCall) : Bytes :=
  match c.stored, c.r.slot with
  | true, some old =>
    let n := min c.r.ret.toNat maxDataLen
    let data := c.r.probeReadUser c.bufPtr (n &&& (maxDataLen - 1))
    (data ++ old.1.drop (32 + data.length)).take n
  | _, _ => []

/-- The stored arguments are those of the call that the thread is in. -/
structure InCall (d : SslDirection) (k : PidTgid) (p : SslProgram) (pending : Option (UInt64 × Bool)) : Prop where
  stored : (p.args d).find k = pending.bind fun call => if call.2 then some { bufPtr := call.1 } else none
  traced : ∀ call ∈ pending, call.2 = true → p.shouldTrace k = true

theorem shouldTrace_congr {p q : SslProgram} (h : q.targetPid = p.targetPid) (k : PidTgid) :
    q.shouldTrace k = p.shouldTrace k := by
  rw [SslProgram.shouldTrace, SslProgram.shouldTrace, h]

variable {d : SslDirection} {k : PidTgid} {p : SslProgram} {pending : Option (UInt64 × Bool)}

/-- What another thread or the other direction does leaves the thread's call as
it is. -/
theorem InCall.frame (h : InCall d k p pending) {q : SslProgram} (htarget : q.targetPid = p.targetPid)
    (hfind : (q.args d).find k = (p.args d).find k) : InCall d k q pending where
  stored := hfind.trans h.stored
  traced call hcall hs := by rw [shouldTrace_congr htarget]; exact h.traced call hcall hs

/-- The record of a return yields the payload of its thread's call. -/
theorem sslPayloads_recordOf (d d' : SslDirection) (k k' : PidTgid) (args : SslArgs) (r : SslReturn) :
    (sslPayloads d k (SslProgram.recordOf d' k' args r)).flatten =
      if d' = d ∧ k' = k then SslCall.payload ⟨args.bufPtr, true, r⟩ else [] := by
  unfold SslProgram.recordOf SslCall.payload
  rcases r.slot with _ | old
  · exact (ite_self []).symm
  · by_cases hret : r.ret ≤ 0
    · have hzero : min r.ret.toNat maxDataLen = 0 := by omega
      simp only [hret, if_true, hzero, List.take_zero, ite_self]
      rfl
    · have hpos : 0 < min r.ret.toNat maxDataLen := by
        unfold maxDataLen
        omega
      have hmask : min r.ret.toNat maxDataLen &&& (maxDataLen - 1) ≤ maxDataLen :=
        Nat.le_trans Nat.and_le_left (Nat.min_le_right _ _)
      simp only [hret, if_false]
      rw [sslPayloads_sslRecord d d' k k' old args.fd r.now hpos (Nat.min_le_right _ _)
        (by rwa [SslReturn.length_probeReadUser])]
      split_ifs <;> simp

theorem InCall.enter (h : InCall d k p pending) (bufPtr : UInt64) :
    InCall d k (p.uprobeEnter d k bufPtr) (some (bufPtr, p.shouldTrace k && (p.args d).hasRoom k)) := by
  obtain ⟨-, htarget, hfind⟩ := p.uprobeEnter_eq d k bufPtr
  constructor
  · rw [hfind]
    by_cases htrace : p.shouldTrace k = true
    · simp [htrace]
    · -- nothing is stored for a thread that is not traced
      have hnone : (p.args d).find k = none := by
        rw [h.stored]
        rcases pending with _ | call
        · rfl
        · have hfalse : ¬ call.2 = true := fun hs => htrace (h.traced call rfl hs)
          simp [hfalse]
      simp [htrace, hnone]
  · rintro call ⟨⟩ hs
    rw [shouldTrace_congr htarget]
    exact (Bool.and_eq_true_iff.1 hs).1

theorem InCall.exit (h : InCall d k p pending) (r : SslReturn) : InCall d k (p.uretprobeExit d k r) none := by
  obtain ⟨-, -, hfind⟩ := p.uretprobeExit_eq d k r
  refine ⟨?_, fun call hcall => absurd hcall (by simp)⟩
  rw [hfind]
  by_cases htrace : p.shouldTrace k = true
  · simp [htrace]
  · rw [if_neg fun hc => htrace hc.1, h.stored]
    rcases pending with _ | call
    · rfl
    · have hfalse : ¬ call.2 = true := fun hs => htrace (h.traced call rfl hs)
      simp [hfalse]

/-- The return of the thread's call adds the payload of the call. -/
theorem InCall.exit_payload (h : InCall d k p pending) (r : SslReturn) :
    (sslPayloads d k (if p.shouldTrace k then
        ((p.args d).find k).elim [] (fun args => SslProgram.recordOf d k args r) else [])).flatten =
      (pending.map fun call => (⟨call.1, call.2, r⟩ : SslCall)).toList.flatMap SslCall.payload := by
  rw [h.stored]
  rcases pending with _ | ⟨bufPtr, stored⟩
  · rw [Option.bind_none, Option.elim_none, ite_self]
    rfl
  · rcases stored with _ | _
    · simp only [Option.bind_some, Bool.false_eq_true, if_false, Option.elim_none, ite_self]
      rfl
    · simp only [Option.bind_some, if_true, Option.elim_some, h.traced _ rfl rfl]
      rw [sslPayloads_recordOf, if_pos ⟨rfl, rfl⟩]
      exact (List.append_nil _).symm

/-- The return of another call adds nothing. -/
theorem exit_payload_of_ne {d' : SslDirection} {k' : PidTgid} (hne : ¬(d = d' ∧ k = k')) (r : SslReturn) :
    (sslPayloads d k (if p.shouldTrace k' then
        ((p.args d').find k').elim [] (fun args => SslProgram.recordOf d' k' args r) else [])).flatten = [] := by
  by_cases htrace : p.shouldTrace k' = true
  · rw [if_pos htrace]
    rcases (p.args d').find k' with _ | args
    · rfl
    · rw [Option.elim_some, sslPayloads_recordOf, if_neg fun hc => hne ⟨hc.1.symm, hc.2.symm⟩]
  · rw [if_neg htrace]
    rfl

/-- **The payloads of a thread's packets** are those of its calls, one after the
other, whatever the other threads do. -/
theorem flatMap_sslPayloads_run : ∀ (hits : List Probe) (p : SslProgram) (pending : Option (UInt64 × Bool)),
    InCall d k p pending →
    (sslPayloads d k (p.run hits).sslEvents).flatten =
      (sslPayloads d k p.sslEvents).flatten ++ (sslCalls d k p pending hits).flatMap SslCall.payload
  | [], p, pending, _ => (List.append_nil _).symm
  | .enter d' k' bufPtr :: hits, p, pending, h => by
    obtain ⟨hevents, htarget, hfind⟩ := p.uprobeEnter_eq d' k' bufPtr
    rw [SslProgram.run_cons, SslProgram.step_enter, sslCalls, SslProgram.step_enter]
    by_cases hself : d = d' ∧ k = k'
    · obtain ⟨rfl, rfl⟩ := hself
      rw [if_pos ⟨rfl, rfl⟩, flatMap_sslPayloads_run hits _ _ (h.enter bufPtr), hevents]
    · have hother : ((p.uprobeEnter d' k' bufPtr).args d).find k = (p.args d).find k := by
        rw [hfind, if_neg fun hc => hself hc.2]
      rw [if_neg fun hc => hself ⟨hc.1.symm, hc.2.symm⟩, flatMap_sslPayloads_run hits _ _ (h.frame htarget hother),
        hevents]
  | .exit d' k' r :: hits, p, pending, h => by
    obtain ⟨hevents, htarget, hfind⟩ := p.uretprobeExit_eq d' k' r
    rw [SslProgram.run_cons, SslProgram.step_exit, sslCalls, SslProgram.step_exit]
    by_cases hself : d = d' ∧ k = k'
    · obtain ⟨rfl, rfl⟩ := hself
      rw [if_pos ⟨rfl, rfl⟩, flatMap_sslPayloads_run hits _ _ (h.exit r), hevents, sslPayloads_append,
        List.flatten_append, h.exit_payload r, List.flatMap_append, List.append_assoc]
    · have hother : ((p.uretprobeExit d' k' r).args d).find k = (p.args d).find k := by
        rw [hfind, if_neg fun hc => hself hc.2]
      rw [if_neg fun hc => hself ⟨hc.1.symm, hc.2.symm⟩, flatMap_sslPayloads_run hits _ _ (h.frame htarget hother),
        hevents, sslPayloads_append, List.flatten_append, exit_payload_of_ne hself, List.append_nil]

/-! ### Intact calls -/

/-- The call comes through: its arguments were stored, and it has less than 4096
bytes, copied or zeros anyway, or 4096 that stand in the slot already. -/
def SslCall.Intact (c : SslCall) : Prop :=
  c.stored = true ∧ (c.r.ret < 4096 ∧ (c.r.copied = true ∨ ∀ b ∈ c.plaintext, b = 0) ∨
    c.r.ret = 4096 ∧ ∃ old ∈ c.r.slot, old.1.drop 32 = c.plaintext)

theorem SslCall.length_payload_le (c : SslCall) : c.payload.length ≤ c.plaintext.length := by
  rw [plaintext, UserMemory.length_read, payload]
  split
  · exact Nat.le_trans (List.length_take_le _ _) (Nat.min_le_left _ _)
  · exact Nat.zero_le _

/-- A failed copy is right if the buffer holds zeros. -/
theorem SslReturn.probeReadUser_eq_iff (r : SslReturn) (ptr : UInt64) (n : ℕ) :
    r.probeReadUser ptr n = r.mem.read ptr n ↔ r.copied = true ∨ ∀ b ∈ r.mem.read ptr n, b = 0 := by
  unfold probeReadUser
  rcases r.copied with _ | _
  · rw [if_neg Bool.false_ne_true, or_iff_right Bool.false_ne_true, eq_comm, List.eq_replicate_iff,
      and_iff_right (UserMemory.length_read ..)]
  · exact iff_of_true rfl (.inl rfl)

/-- Of 4096 bytes none is copied. -/
theorem SslCall.payload_full (bufPtr : UInt64) (r : SslReturn) {old : RingSlot} (hret : r.ret = 4096)
    (hslot : r.slot = some old) : payload ⟨bufPtr, true, r⟩ = old.1.drop 32 := by
  have hlen : (old.1.drop 32).length = 4096 := by
    rw [List.length_drop, old.2]
    rfl
  have hnone : r.probeReadUser bufPtr 0 = [] := List.length_eq_zero_iff.1 (r.length_probeReadUser bufPtr 0)
  simp only [payload, hslot, hret]
  show (r.probeReadUser bufPtr 0 ++ old.1.drop (32 + (r.probeReadUser bufPtr 0).length)).take 4096 = old.1.drop 32
  rw [hnone]
  exact List.take_of_length_le hlen.le

theorem SslCall.payload_eq_plaintext_iff {c : SslCall} (hret : 0 < c.r.ret) (hslot : c.r.slot.isSome) :
    c.payload = c.plaintext ↔ c.Intact := by
  obtain ⟨bufPtr, stored, r⟩ := c
  obtain ⟨old, hold⟩ := Option.isSome_iff_exists.1 hslot
  dsimp only at hret hold
  have hplain : (plaintext ⟨bufPtr, stored, r⟩).length = r.ret.toNat := UserMemory.length_read ..
  rcases stored with _ | _
  · -- nothing was stored, and the call has some byte
    have hne : payload ⟨bufPtr, false, r⟩ ≠ plaintext ⟨bufPtr, false, r⟩ := by
      intro he
      have hlen := congrArg List.length he
      rw [hplain, payload, List.length_nil] at hlen
      omega
    exact iff_of_false hne fun h => Bool.false_ne_true h.1
  have hpay : payload ⟨bufPtr, true, r⟩ = (r.probeReadUser bufPtr (min r.ret.toNat 4096 &&& 4095) ++
      old.1.drop (32 + (min r.ret.toNat 4096 &&& 4095))).take (min r.ret.toNat 4096) := by
    simp only [payload, hold, maxDataLen, SslReturn.length_probeReadUser]
  rw [hpay]
  rcases lt_trichotomy r.ret 4096 with hlt | heq | hgt
  · have hmin : min r.ret.toNat 4096 = r.ret.toNat := by omega
    have hmask : r.ret.toNat &&& 4095 = r.ret.toNat := by
      rw [Nat.and_two_pow_sub_one_eq_mod _ 12]
      omega
    rw [hmin, hmask, List.take_left' (SslReturn.length_probeReadUser ..), plaintext, r.probeReadUser_eq_iff bufPtr]
    constructor
    · exact fun hcopy => ⟨rfl, Or.inl ⟨hlt, hcopy⟩⟩
    · rintro ⟨-, ⟨-, hcopy⟩ | ⟨heq, -⟩⟩
      · exact hcopy
      · exact absurd heq hlt.ne
  · rw [← hpay, payload_full bufPtr r heq hold]
    constructor
    · exact fun he => ⟨rfl, Or.inr ⟨heq, old, hold, he⟩⟩
    · rintro ⟨-, ⟨hlt, -⟩ | ⟨-, old', hold', he⟩⟩
      · exact absurd heq hlt.ne
      · obtain rfl : old = old' := Option.some_inj.1 (hold.symm.trans hold')
        exact he
  · have hne : ∀ l : Bytes, l.take (min r.ret.toNat 4096) ≠ plaintext ⟨bufPtr, true, r⟩ := by
      intro l he
      have hlen := congrArg List.length he
      rw [hplain, List.length_take] at hlen
      omega
    refine iff_of_false (hne _) ?_
    rintro ⟨-, ⟨hlt, -⟩ | ⟨heq, -⟩⟩
    · exact absurd hlt hgt.not_gt
    · exact hgt.ne' heq

/-- Pieces that are no longer than others amount to the same only if each one is
the same. -/
theorem flatMap_eq_iff {α β : Type} {f g : α → List β} : ∀ {l : List α}, (∀ a ∈ l, (f a).length ≤ (g a).length) →
    (l.flatMap f = l.flatMap g ↔ ∀ a ∈ l, f a = g a)
  | [], _ => by simp
  | a :: l, h => by
    have ih := flatMap_eq_iff fun b hb => h b (List.mem_cons_of_mem a hb)
    have hlen : (l.flatMap f).length ≤ (l.flatMap g).length := by
      rw [List.length_flatMap, List.length_flatMap]
      exact List.sum_le_sum fun b hb => h b (List.mem_cons_of_mem a hb)
    rw [List.flatMap_cons, List.flatMap_cons, List.forall_mem_cons, ← ih]
    constructor
    · intro he
      have htotal := congrArg List.length he
      have hhead := h a List.mem_cons_self
      rw [List.length_append, List.length_append] at htotal
      exact List.append_inj he (by omega)
    · rintro ⟨h1, h2⟩
      rw [h1, h2]

theorem Successful.calls : ∀ {hits : List Probe} {b : Bool} {p : SslProgram} {pending : Option (UInt64 × Bool)},
    Successful d k b hits → ∀ c ∈ sslCalls d k p pending hits, 0 < c.r.ret ∧ c.r.slot.isSome
  | [], _, _, _, _, c, hc => absurd hc List.not_mem_nil
  | .enter d' k' bufPtr :: hits, b, p, pending, h, c, hc => by
    rw [Successful] at h
    rw [sslCalls] at hc
    by_cases hself : d' = d ∧ k' = k
    · rw [if_pos hself] at h hc
      exact h.2.calls c hc
    · rw [if_neg hself] at h hc
      exact h.calls c hc
  | .exit d' k' r :: hits, b, p, pending, h, c, hc => by
    rw [Successful] at h
    rw [sslCalls] at hc
    by_cases hself : d' = d ∧ k' = k
    · rw [if_pos hself] at h hc
      obtain ⟨-, hret, hslot, hrest⟩ := h
      rcases List.mem_append.1 hc with hc | hc
      · obtain ⟨call, -, rfl⟩ := Option.map_eq_some_iff.1 (Option.mem_toList.1 hc)
        exact ⟨hret, hslot⟩
      · exact hrest.calls c hc
    · rw [if_neg hself] at h hc
      exact h.calls c hc

/-- **Plaintext reaches the pipeline** unchanged exactly if every call of the
thread comes through. -/
theorem plaintext_iff (target : UInt32) (d : SslDirection) (k : PidTgid) (hits : List Probe)
    (h : Successful d k false hits) :
    (sslPayloads d k (SslProgram.run { targetPid := target } hits).sslEvents).flatten =
        (sslCalls d k { targetPid := target } none hits).flatMap SslCall.plaintext ↔
      ∀ c ∈ sslCalls d k { targetPid := target } none hits, c.Intact := by
  have hstart : InCall d k { targetPid := target } none := by
    refine ⟨?_, fun call hcall => absurd hcall (by simp)⟩
    cases d <;> rfl
  have hrun := flatMap_sslPayloads_run hits _ _ hstart
  rw [hrun.trans (List.nil_append _), flatMap_eq_iff fun c _ => c.length_payload_le]
  exact forall₂_congr fun c hc =>
    SslCall.payload_eq_plaintext_iff (h.calls c hc).1 (h.calls c hc).2

/-- A thread reads `n` times the byte Q into a buffer at address 4096; the ring
buffer is new. -/
def oneRead (n : ℤ) : List Probe :=
  [.enter .read ⟨1, 1⟩ 4096,
    .exit .read ⟨1, 1⟩ ⟨n, fun _ => chr 'Q', true, 0, some ⟨List.replicate sslEventSize 0, List.length_replicate⟩⟩]

theorem oneRead_successful {n : ℤ} (hn : 0 < n) : Successful .read ⟨1, 1⟩ false (oneRead n) :=
  ⟨rfl, rfl, hn, rfl, rfl⟩

theorem oneRead_calls (n : ℤ) : sslCalls .read ⟨1, 1⟩ {} none (oneRead n) =
    [⟨4096, true, n, fun _ => chr 'Q', true, 0, some ⟨List.replicate sslEventSize 0, List.length_replicate⟩⟩] := rfl

theorem oneRead_plaintext (n : ℤ) :
    (sslCalls .read ⟨1, 1⟩ {} none (oneRead n)).flatMap SslCall.plaintext = List.replicate n.toNat (chr 'Q') := by
  rw [oneRead_calls, List.flatMap_singleton, SslCall.plaintext, UserMemory.read, List.map_const', List.length_range]

theorem short_read_intact :
    (sslPayloads .read ⟨1, 1⟩ (SslProgram.run {} (oneRead 100)).sslEvents).flatten =
      (sslCalls .read ⟨1, 1⟩ {} none (oneRead 100)).flatMap SslCall.plaintext :=
  (plaintext_iff 0 .read ⟨1, 1⟩ (oneRead 100) (oneRead_successful (by decide))).2 (by
    rw [oneRead_calls]
    exact List.forall_mem_singleton.2 ⟨rfl, Or.inl ⟨by decide, Or.inl rfl⟩⟩)

/-- A read of 4096 bytes comes out as 4096 zeros. -/
theorem full_buffer_lost :
    Successful .read ⟨1, 1⟩ false (oneRead 4096) ∧
      (sslCalls .read ⟨1, 1⟩ {} none (oneRead 4096)).flatMap SslCall.plaintext = List.replicate 4096 (chr 'Q') ∧
      (sslPayloads .read ⟨1, 1⟩ (SslProgram.run {} (oneRead 4096)).sslEvents).flatten =
        List.replicate 4096 0 := by
  refine ⟨oneRead_successful (by decide), oneRead_plaintext 4096, ?_⟩
  have hrun := flatMap_sslPayloads_run (d := .read) (k := ⟨1, 1⟩) (oneRead 4096) {} none
    ⟨rfl, fun call hcall => absurd hcall (by simp)⟩
  rw [hrun.trans (List.nil_append _), oneRead_calls, List.flatMap_singleton, SslCall.payload_full _ _ rfl rfl]
  exact List.drop_replicate

end PgShadow
