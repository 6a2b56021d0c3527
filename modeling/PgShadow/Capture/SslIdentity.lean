/-
# The connections of the synthetic packets

`buildSyntheticPacket` of `pkg/capture/source_ebpf_ssl.go` writes the process and the
thread of a record into the addresses of its packet, and the reassembler tells
connections apart by those. The two directions of a thread are the two directions of
one connection (`conn_write`). Three address bytes and a port do not hold the two
numbers: the upper bits of the process are dropped, and the thread whose port would be
5432 gets that of the next one. `clientConn_eq_iff` says which threads fall together,
`same_connection_iff` that these are the ones `readLoop` mixes.

Key definitions: `SyntheticPacket.conn`, `clientConn`, `Merged`.
Key theorems: `clientConn_eq_iff`, `unique_identity_iff`, `same_connection_iff`.
-/
import PgShadow.Capture.Ssl

namespace PgShadow

/-- The four-tuple of the other direction. -/
def ConnID.mirror (c : ConnID) : ConnID := ⟨c.dstIP, c.dstPort, c.srcIP, c.srcPort⟩

/-- The four-tuple of a packet. -/
def SyntheticPacket.conn (pkt : SyntheticPacket) : ConnID := ⟨pkt.srcIP, pkt.srcPort, pkt.dstIP, pkt.dstPort⟩

/-- The same, from the client to the server: what is written goes to the client. -/
def clientConn (direction : UInt8) (pkt : SyntheticPacket) : ConnID :=
  if direction = 1 then pkt.conn.mirror else pkt.conn

/-- The port of the client. -/
def threadPort (tid : UInt32) : UInt16 :=
  if (tid &&& 0xFFFF).toUInt16 = 5432 then 5433 else (tid &&& 0xFFFF).toUInt16

/-- The connection of a thread does not depend on the packet. -/
theorem clientConn_buildSyntheticPacket (payload : Bytes) (direction : UInt8) (pid tid seq : UInt32) :
    clientConn direction (buildSyntheticPacket payload direction pid tid seq) =
      ⟨ipv4 10 (pid >>> 8).toUInt8 pid.toUInt8 (tid >>> 16).toUInt8, threadPort tid, ipv4 127 0 0 1, 5432⟩ := by
  unfold clientConn buildSyntheticPacket
  by_cases hdir : direction = 1
  · rw [if_pos hdir, if_pos hdir]
    rfl
  · rw [if_neg hdir, if_neg hdir]
    rfl

/-- **The directions of a thread are those of one connection.** -/
theorem conn_write (payload payload' : Bytes) (pid tid seq seq' : UInt32) :
    (buildSyntheticPacket payload SslDirection.write.code pid tid seq).conn =
      (buildSyntheticPacket payload' SslDirection.read.code pid tid seq').conn.mirror :=
  rfl

/-! ### What the addresses hold -/

theorem append_inj {v w : ℕ} {x x' : BitVec v} {y y' : BitVec w} (h : x ++ y = x' ++ y') : x = x' ∧ y = y' := by
  have hleft := congrArg (BitVec.extractLsb' w v) h
  have hright := congrArg (BitVec.extractLsb' 0 w) h
  rw [BitVec.extractLsb'_append_eq_left, BitVec.extractLsb'_append_eq_left] at hleft
  rw [BitVec.extractLsb'_append_eq_right, BitVec.extractLsb'_append_eq_right] at hright
  exact ⟨hleft, hright⟩

theorem ipv4_inj {a b c d a' b' c' d' : UInt8} (h : ipv4 a b c d = ipv4 a' b' c' d') :
    b = b' ∧ c = c' ∧ d = d' := by
  obtain ⟨habc, hd⟩ := append_inj (Addr.v4.inj h)
  obtain ⟨hab, hc⟩ := append_inj habc
  obtain ⟨-, hb⟩ := append_inj hab
  exact ⟨UInt8.toBitVec_inj.mp hb, UInt8.toBitVec_inj.mp hc, UInt8.toBitVec_inj.mp hd⟩

/-- The low half of the thread, with 5432 moved up by one. -/
theorem threadPort_toNat (tid : UInt32) :
    (threadPort tid).toNat = if tid.toNat % 65536 = 5432 then 5433 else tid.toNat % 65536 := by
  have hlow : (tid &&& 0xFFFF).toUInt16.toNat = tid.toNat % 65536 := by
    rw [UInt32.toNat_toUInt16, UInt32.toNat_and, show (0xFFFF : UInt32).toNat = 2 ^ 16 - 1 from rfl,
      Nat.and_two_pow_sub_one_eq_mod, Nat.mod_mod]
  have hport : (tid &&& 0xFFFF).toUInt16 = 5432 ↔ tid.toNat % 65536 = 5432 := by
    rw [← UInt16.toNat_inj, hlow]
    rfl
  unfold threadPort
  by_cases h : (tid &&& 0xFFFF).toUInt16 = 5432
  · rw [if_pos h, if_pos (hport.mp h)]
    rfl
  · rw [if_neg h, if_neg (mt hport.mpr h), hlow]

/-- Two threads whose packets cannot be told apart: their processes agree in the lower
16 bits, and they are one number, or two in a row of which the first would have the port
5432. -/
def Merged (k k' : PidTgid) : Prop :=
  k.pid.toNat % 2 ^ 16 = k'.pid.toNat % 2 ^ 16 ∧
    (k.tid = k'.tid ∨ (k.tid.toNat % 2 ^ 16 = 5432 ∧ k'.tid.toNat = k.tid.toNat + 1) ∨
      (k'.tid.toNat % 2 ^ 16 = 5432 ∧ k.tid.toNat = k'.tid.toNat + 1))

/-- The bytes of the two numbers, against the numbers. -/
theorem merged_iff {k k' : PidTgid} (htid : k.tid.toNat < 2 ^ 22) (htid' : k'.tid.toNat < 2 ^ 22) :
    Merged k k' ↔ (k.pid >>> 8).toUInt8 = (k'.pid >>> 8).toUInt8 ∧ k.pid.toUInt8 = k'.pid.toUInt8 ∧
      (k.tid >>> 16).toUInt8 = (k'.tid >>> 16).toUInt8 ∧ threadPort k.tid = threadPort k'.tid := by
  unfold Merged
  rw [← UInt8.toNat_inj, ← UInt8.toNat_inj, ← UInt8.toNat_inj, ← UInt16.toNat_inj, ← UInt32.toNat_inj,
    threadPort_toNat, threadPort_toNat]
  simp only [UInt32.toNat_toUInt8, UInt32.toNat_shiftRight, Nat.shiftRight_eq_div_pow]
  have h8 : (8 : UInt32).toNat % 32 = 8 := rfl
  have h16 : (16 : UInt32).toNat % 32 = 16 := rfl
  rw [h8, h16]
  split_ifs <;> omega

/-- **Which threads fall together.** -/
theorem clientConn_eq_iff {k k' : PidTgid} (htid : k.tid.toNat < 2 ^ 22) (htid' : k'.tid.toNat < 2 ^ 22)
    (payload payload' : Bytes) (direction direction' : UInt8) (seq seq' : UInt32) :
    clientConn direction (buildSyntheticPacket payload direction k.pid k.tid seq) =
        clientConn direction' (buildSyntheticPacket payload' direction' k'.pid k'.tid seq') ↔ Merged k k' := by
  rw [clientConn_buildSyntheticPacket, clientConn_buildSyntheticPacket, merged_iff htid htid']
  constructor
  · intro h
    obtain ⟨hip, hport, -, -⟩ := ConnID.mk.inj h
    obtain ⟨hhigh, hlow, hthread⟩ := ipv4_inj hip
    exact ⟨hhigh, hlow, hthread, hport⟩
  · intro ⟨hhigh, hlow, hthread, hport⟩
    rw [hhigh, hlow, hthread, hport]

/-- **Identities are unique** exactly among threads that do not fall together; the two
directions of a thread always mirror each other. -/
theorem unique_identity_iff (k k' : PidTgid) (htid : k.tid.toNat < 2 ^ 22) (htid' : k'.tid.toNat < 2 ^ 22)
    (payload payload' : Bytes) (direction direction' : UInt8) (seq seq' : UInt32) :
    (clientConn direction (buildSyntheticPacket payload direction k.pid k.tid seq) ≠
          clientConn direction' (buildSyntheticPacket payload' direction' k'.pid k'.tid seq') ∧
        (buildSyntheticPacket payload SslDirection.write.code k.pid k.tid seq).conn =
          (buildSyntheticPacket payload' SslDirection.read.code k.pid k.tid seq').conn.mirror) ↔
      ¬Merged k k' := by
  rw [and_iff_left (conn_write ..), Ne, clientConn_eq_iff htid htid']

/-- Two threads of one process. -/
theorem threads_apart :
    clientConn 0 (buildSyntheticPacket [] 0 1000 1000 1) ≠ clientConn 1 (buildSyntheticPacket [] 1 1000 1001 1) :=
  ((unique_identity_iff ⟨1000, 1000⟩ ⟨1000, 1001⟩ (by decide) (by decide) [] [] 0 1 1 1).mpr
    (by unfold Merged; decide)).1

/-- Two processes whose numbers differ by 65536, each with a single thread. -/
theorem processes_merged :
    (⟨1000, 1000⟩ : PidTgid) ≠ ⟨66536, 1000⟩ ∧
      clientConn 0 (buildSyntheticPacket [] 0 1000 1000 1) = clientConn 0 (buildSyntheticPacket [] 0 66536 1000 1) := by
  decide

/-! ### Runs -/

theorem handleRecord_packet (s : SslSource) (input : Bytes × Bool) {ev : SslEvent} {pkt : SyntheticPacket}
    (h : (s.handleRecord input).2 = some (ev, pkt)) :
    ∃ payload seq, pkt = buildSyntheticPacket payload ev.direction ev.pid ev.tid seq := by
  unfold SslSource.handleRecord at h
  by_cases hshort : input.1.length < sslEventSize
  · rw [if_pos hshort] at h
    cases h
  · rw [if_neg hshort] at h
    dsimp only at h
    by_cases hempty : (parseSslEvent input.1).dataLen = 0
    · rw [if_pos hempty] at h
      cases h
    · rw [if_neg hempty] at h
      rcases hroom : input.2 with _ | _
      · simp [hroom] at h
      · simp only [hroom, if_true] at h
        obtain ⟨rfl, rfl⟩ := Prod.mk.inj (Option.some.inj h)
        exact ⟨_, _, rfl⟩

/-- Every packet is built from its event. -/
theorem mem_readLoop {records : List (Bytes × Bool)} {ev : SslEvent} {pkt : SyntheticPacket}
    (h : (ev, pkt) ∈ readLoop records) :
    ∃ payload seq, pkt = buildSyntheticPacket payload ev.direction ev.pid ev.tid seq := by
  obtain ⟨o, ho, hid⟩ := List.mem_filterMap.mp h
  have hall : ∀ o ∈ Machine.outs SslSource.handleRecord {} records, ∀ ev pkt, o = some (ev, pkt) →
      ∃ payload seq, pkt = buildSyntheticPacket payload ev.direction ev.pid ev.tid seq :=
    Machine.forall_outs _ (fun s input _ _ => handleRecord_packet s input) records {}
  exact hall o ho ev pkt hid

/-- **Which sessions are spliced.** Two packets of a run belong to one connection
exactly if their threads fall together. -/
theorem same_connection_iff {records : List (Bytes × Bool)} {ev ev' : SslEvent} {pkt pkt' : SyntheticPacket}
    (h : (ev, pkt) ∈ readLoop records) (h' : (ev', pkt') ∈ readLoop records) (htid : ev.tid.toNat < 2 ^ 22)
    (htid' : ev'.tid.toNat < 2 ^ 22) :
    clientConn ev.direction pkt = clientConn ev'.direction pkt' ↔ Merged ⟨ev.pid, ev.tid⟩ ⟨ev'.pid, ev'.tid⟩ := by
  obtain ⟨payload, seq, rfl⟩ := mem_readLoop h
  obtain ⟨payload', seq', rfl⟩ := mem_readLoop h'
  have hiff := @clientConn_eq_iff ⟨ev.pid, ev.tid⟩ ⟨ev'.pid, ev'.tid⟩ htid htid'
  exact hiff payload payload' ev.direction ev'.direction seq seq'

end PgShadow
