/-
# Frames mirrored by the XDP program

`pkg/capture/bpf/pgshadow_xdp.c` and the reading side of `pkg/capture/source_ebpf.go`:
the program that mirrors the frames of the target port into the ring buffer, and the
loop that turns the records back into packets.

A frame is an input of the program, with what the kernel answers: the slot of the ring
buffer that is reserved, which still holds what was written there before (`none` if
the ring buffer is full), and whether the copy succeeds. The program always lets the
frame pass; that is not part of the model.

A captured frame of up to 4095 bytes comes through as it is if the channel has room for
it (`short_frames_arrive`, over whole runs). Of a longer one the program announces 4096
bytes, but the mask on the length turns 4096 into 0, so that the record carries what
its slot held before (`frame_carried_iff`).

Key definitions: `tcpHeader`, `XdpProgram.pgshadowXdp`, `EbpfSource.handleRecord`.
Key theorems: `decodeRecord_pktRecord`, `frame_carried_iff`, `short_frames_arrive`.
-/
import PgShadow.Capture.Ssl

namespace PgShadow

/-! ### The program in the kernel -/

def fixedSnapLen : ℕ := 4096

def pktRecordHeaderSize : ℕ := 8

/-- The frame between `data` and `data_end`, which are 32 bits wide. -/
def XdpFrame := { f : Bytes // f.length < 2 ^ 32 }

/-- A reserved `struct pkt_record`, with what it held before. -/
def PktSlot := { s : Bytes // s.length = pktRecordHeaderSize + fixedSnapLen }

/-- A field of 16 bits in network byte order. -/
def be16 (f : Bytes) (off : ℕ) : ℕ := BigEndian.ofBytes ((f.drop off).take 2)

/-- Where the TCP header of a frame starts: behind the Ethernet header and the IPv4 or
IPv6 header. -/
def tcpHeader (f : Bytes) : Option ℕ :=
  if f.length < 14 then none
  else if be16 f 12 = 0x0800 then
    if f.length < 14 + 20 then none
    else if f.getD (14 + 9) 0 ≠ 6 then none
    else
      -- the low half of the first byte, in words
      let ipHlen := (f.getD 14 0).toNat % 16 * 4
      if ipHlen < 20 ∨ 60 < ipHlen then none
      else if f.length < 14 + ipHlen + 20 then none
      else some (14 + ipHlen)
  else if be16 f 12 = 0x86DD then
    if f.length < 14 + 40 then none
    else if f.getD (14 + 6) 0 ≠ 6 then none
    else if f.length < 14 + 40 + 20 then none
    else some (14 + 40)
  else none

/-- A frame that arrives, and what the kernel answers. -/
structure XdpHit where
  frame : XdpFrame
  /-- `bpf_ringbuf_reserve`. -/
  slot : Option PktSlot
  /-- `bpf_probe_read_kernel` does not fail. -/
  copied : Bool

structure XdpProgram where
  /-- The target port. -/
  cfgPort : Option UInt16
  /-- The records submitted to the ring buffer, in order. -/
  pktRing : List Bytes := []
  received : ℕ := 0
  dropped : ℕ := 0

/-- The fields of a `struct pkt_record` over what its slot held before; `data` replaces
the first bytes of the data field only. -/
def pktRecord (old : PktSlot) (len capLen : ℕ) (data : Bytes) : Bytes :=
  leBytes 4 len ++ (leBytes 4 capLen ++ (data ++ old.1.drop (pktRecordHeaderSize + data.length)))

namespace XdpProgram

/-- `pgshadow_xdp`. -/
def pgshadowXdp (p : XdpProgram) (hit : XdpHit) : XdpProgram :=
  let f := hit.frame.1
  match tcpHeader f with
  | none => p
  | some tcp =>
    match p.cfgPort with
    | none => p
    | some port =>
      if be16 f tcp ≠ port.toNat ∧ be16 f (tcp + 2) ≠ port.toNat then p
      else
        let frameLen := f.length
        if frameLen = 0 then p
        else
          let capLen := if frameLen > fixedSnapLen then fixedSnapLen else frameLen
          match hit.slot with
          | none => { p with dropped := p.dropped + 1 }
          | some old =>
            if f.length < capLen then p
            else if !hit.copied then p
            else
              let data := f.take (capLen &&& (fixedSnapLen - 1))
              { p with
                pktRing := p.pktRing ++ [pktRecord old frameLen capLen data]
                received := p.received + 1 }

def run (p : XdpProgram) (hits : List XdpHit) : XdpProgram := hits.foldl pgshadowXdp p

/-- The frame is of the target port. -/
def isMatched (p : XdpProgram) (f : Bytes) : Bool :=
  (tcpHeader f).any fun tcp => p.cfgPort.any fun port => be16 f tcp = port.toNat || be16 f (tcp + 2) = port.toNat

/-- The slot in which a record of the frame is submitted. -/
def taken (p : XdpProgram) (hit : XdpHit) : Option PktSlot :=
  if p.isMatched hit.frame.1 && hit.copied then hit.slot else none

end XdpProgram

/-- The record of a frame. -/
def frameRecord (old : PktSlot) (f : Bytes) : Bytes :=
  pktRecord old f.length (min f.length fixedSnapLen) (f.take (min f.length fixedSnapLen &&& (fixedSnapLen - 1)))

/-- A frame with a TCP header is not empty. -/
theorem tcpHeader_pos {f : Bytes} {tcp : ℕ} (h : tcpHeader f = some tcp) : f.length ≠ 0 := by
  intro hlen
  rw [tcpHeader, if_pos (by omega)] at h
  cases h

/-- What a frame does: its record is added to the ring buffer if a slot is taken. -/
theorem XdpProgram.pgshadowXdp_eq (p : XdpProgram) (hit : XdpHit) :
    (p.pgshadowXdp hit).pktRing = p.pktRing ++ ((p.taken hit).map (frameRecord · hit.frame.1)).toList ∧
      (p.pgshadowXdp hit).cfgPort = p.cfgPort := by
  obtain ⟨cfgPort, ring, received, dropped⟩ := p
  unfold pgshadowXdp taken isMatched
  dsimp only
  rcases htcp : tcpHeader hit.frame.1 with _ | tcp
  · exact ⟨(List.append_nil _).symm, rfl⟩
  rcases cfgPort with _ | port
  · exact ⟨(List.append_nil _).symm, rfl⟩
  dsimp only
  rw [Option.any_some, Option.any_some]
  by_cases hother : be16 hit.frame.1 tcp ≠ port.toNat ∧ be16 hit.frame.1 (tcp + 2) ≠ port.toNat
  · rw [if_pos hother, decide_eq_false hother.1, decide_eq_false hother.2]
    exact ⟨(List.append_nil _).symm, rfl⟩
  have hmatched : (decide (be16 hit.frame.1 tcp = port.toNat) ||
      decide (be16 hit.frame.1 (tcp + 2) = port.toNat)) = true := by
    simpa only [Bool.or_eq_true, decide_eq_true_eq, ne_eq, not_and_or, not_not] using hother
  have hmin : (if hit.frame.1.length > fixedSnapLen then fixedSnapLen else hit.frame.1.length) =
      min hit.frame.1.length fixedSnapLen := by
    split_ifs <;> omega
  rw [if_neg hother, hmatched, Bool.true_and, if_neg (tcpHeader_pos htcp), hmin]
  rcases hit.slot with _ | old
  · rw [ite_self]
    exact ⟨(List.append_nil _).symm, rfl⟩
  dsimp only
  rw [if_neg (Nat.not_lt.mpr (Nat.min_le_left _ _))]
  rcases hit.copied
  · exact ⟨(List.append_nil _).symm, rfl⟩
  · exact ⟨rfl, rfl⟩

/-- A matched frame with a slot has its record submitted. -/
theorem XdpProgram.submits {p : XdpProgram} {hit : XdpHit} {old : PktSlot} (hmatched : p.isMatched hit.frame.1 = true)
    (hcopied : hit.copied = true) (hslot : hit.slot = some old) :
    (p.pgshadowXdp hit).pktRing = p.pktRing ++ [frameRecord old hit.frame.1] := by
  rw [(p.pgshadowXdp_eq hit).1, taken, hmatched, hcopied, hslot]
  rfl

/-! ### The reading side -/

/-- The bytes of a record that are decoded as an Ethernet frame; `none` if the record is
skipped. -/
def decodeRecord (raw : Bytes) : Option Bytes :=
  if raw.length < pktRecordHeaderSize + 1 then none
  else
    let capLen := leUint ((raw.drop 4).take 4)
    let capLen := if capLen > fixedSnapLen then fixedSnapLen else capLen
    if raw.length - pktRecordHeaderSize < capLen then none
    else some ((raw.drop pktRecordHeaderSize).take capLen)

structure EbpfSource where
  /-- The frames sent onto the channel. -/
  packets : List Bytes := []
  received : ℕ := 0
  dropped : ℕ := 0

namespace EbpfSource

/-- One turn of `readLoop`: the record, and whether the channel has room for a packet. -/
def handleRecord (s : EbpfSource) (input : Bytes × Bool) : EbpfSource :=
  match decodeRecord input.1 with
  | none => s
  | some pkt =>
    if input.2 then { s with packets := s.packets ++ [pkt], received := s.received + 1 }
    else { s with received := s.received + 1, dropped := s.dropped + 1 }

def readLoop (s : EbpfSource) (records : List (Bytes × Bool)) : EbpfSource := records.foldl handleRecord s

/-- The packet of a record, if the channel has room for it. -/
def sent (input : Option Bytes × Bool) : Option Bytes := if input.2 then input.1 else none

theorem packets_handleRecord (s : EbpfSource) (raw : Bytes) (room : Bool) :
    (s.handleRecord (raw, room)).packets = s.packets ++ (sent (decodeRecord raw, room)).toList := by
  unfold handleRecord sent
  rcases decodeRecord raw with _ | pkt <;> rcases room with _ | _
  all_goals first | exact (List.append_nil _).symm | rfl

/-- The channel gets what the records decode to, as far as there is room. -/
theorem packets_readLoop : ∀ (raws : List Bytes) (room : List Bool) (s : EbpfSource),
    (s.readLoop (raws.zip room)).packets = s.packets ++ ((raws.map decodeRecord).zip room).filterMap sent
  | [], _, s => (List.append_nil _).symm
  | _ :: _, [], s => (List.append_nil _).symm
  | raw :: raws, r :: room, s => by
    have ih := packets_readLoop raws room (s.handleRecord (raw, r))
    rw [packets_handleRecord] at ih
    rw [List.zip_cons_cons, readLoop, List.foldl_cons, ← readLoop, ih, List.append_assoc, List.map_cons,
      List.zip_cons_cons, List.filterMap_cons]
    rcases sent (decodeRecord raw, r) with _ | pkt <;> rfl

end EbpfSource

/-- The fields of a record are where they are looked for. -/
theorem pktRecord_fields (old : PktSlot) (len : ℕ) {capLen : ℕ} (data : Bytes) (hcap : capLen ≤ fixedSnapLen) :
    leUint (((pktRecord old len capLen data).drop 4).take 4) = capLen ∧
      (pktRecord old len capLen data).drop pktRecordHeaderSize =
        data ++ old.1.drop (pktRecordHeaderSize + data.length) := by
  unfold fixedSnapLen at hcap
  have h0 : (pktRecord old len capLen data).drop 0 = _ := rfl
  have h4 := drop_field h0 (length_leBytes 4 _)
  refine ⟨?_, drop_field h4 (length_leBytes 4 _)⟩
  rw [h4, List.take_left' (length_leBytes 4 capLen), leUint_leBytes (by omega)]

/-- **User space reads the record that the kernel wrote.** -/
theorem decodeRecord_pktRecord (old : PktSlot) (len : ℕ) {capLen : ℕ} {data : Bytes} (hcap : capLen ≤ fixedSnapLen)
    (hdata : data.length ≤ fixedSnapLen) :
    decodeRecord (pktRecord old len capLen data) =
      some ((data ++ old.1.drop (pktRecordHeaderSize + data.length)).take capLen) := by
  obtain ⟨hword, hrest⟩ := pktRecord_fields old len data hcap
  have hold : old.1.length = 4104 := old.2
  unfold fixedSnapLen at hcap hdata
  have hlen : (pktRecord old len capLen data).length = 4104 := by
    simp only [pktRecord, pktRecordHeaderSize, List.length_append, length_leBytes, List.length_drop, hold]
    omega
  unfold decodeRecord
  rw [hlen, hword, hrest, if_neg (by decide)]
  dsimp only
  rw [if_neg (show ¬capLen > fixedSnapLen by unfold fixedSnapLen; omega),
    if_neg (show ¬4104 - pktRecordHeaderSize < capLen by unfold pktRecordHeaderSize; omega)]

/-! ### Frames and records -/

theorem snap_mask {n : ℕ} (h : n < fixedSnapLen) : n &&& (fixedSnapLen - 1) = n :=
  (Nat.and_two_pow_sub_one_eq_mod n 12).trans (Nat.mod_eq_of_lt h)

/-- What a record carries: the frame if it is short, and otherwise what the slot held. -/
theorem frameRecord_data (old : PktSlot) (f : Bytes) :
    let capLen := min f.length fixedSnapLen
    leUint (((frameRecord old f).drop 4).take 4) = capLen ∧
      ((frameRecord old f).drop pktRecordHeaderSize).take capLen =
        (if f.length < fixedSnapLen then f else old.1.drop pktRecordHeaderSize) ∧
      decodeRecord (frameRecord old f) =
        some (if f.length < fixedSnapLen then f else old.1.drop pktRecordHeaderSize) := by
  intro capLen
  have hcap : capLen ≤ fixedSnapLen := Nat.min_le_right _ _
  have hdata : (f.take (capLen &&& (fixedSnapLen - 1))).length ≤ fixedSnapLen :=
    (List.length_take_le _ _).trans (Nat.and_le_left.trans hcap)
  obtain ⟨hword, hrest⟩ := pktRecord_fields old f.length (f.take (capLen &&& (fixedSnapLen - 1))) hcap
  have hdecode := decodeRecord_pktRecord old f.length hcap hdata
  have htaken : (f.take (capLen &&& (fixedSnapLen - 1)) ++ old.1.drop (pktRecordHeaderSize +
      (f.take (capLen &&& (fixedSnapLen - 1))).length)).take capLen =
        if f.length < fixedSnapLen then f else old.1.drop pktRecordHeaderSize := by
    by_cases hshort : f.length < fixedSnapLen
    · rw [if_pos hshort, show capLen = f.length from Nat.min_eq_left hshort.le, snap_mask hshort, List.take_length,
        List.take_left]
    · -- the length 4096 is masked to zero
      rw [if_neg hshort, show capLen = fixedSnapLen from Nat.min_eq_right (Nat.le_of_not_lt hshort)]
      refine List.take_of_length_le ?_
      rw [show fixedSnapLen &&& (fixedSnapLen - 1) = 0 by decide, List.take_zero, List.nil_append, List.length_drop,
        old.2]
      exact Nat.le_of_eq (Nat.add_sub_cancel_left _ _)
  rw [htaken] at hdecode
  refine ⟨hword, ?_, hdecode⟩
  unfold frameRecord
  rw [hrest, htaken]

/-- **Which frames a record carries.** The record of a frame carries its first bytes,
and user space decodes them, exactly if the frame has less than 4096 bytes or its slot
held those bytes before. -/
theorem frame_carried_iff (p : XdpProgram) (hit : XdpHit) (raw : Bytes) (s : EbpfSource)
    (hsubmit : (p.pgshadowXdp hit).pktRing = p.pktRing ++ [raw]) :
    let f := hit.frame.1
    let capLen := min f.length fixedSnapLen
    (leUint ((raw.drop 4).take 4) = capLen ∧ (raw.drop pktRecordHeaderSize).take capLen = f.take capLen ∧
        (s.handleRecord (raw, true)).packets = s.packets ++ [f.take capLen]) ↔
      (f.length < fixedSnapLen ∨ ∃ old ∈ hit.slot, old.1.drop pktRecordHeaderSize = f.take fixedSnapLen) := by
  intro f capLen
  rw [(p.pgshadowXdp_eq hit).1] at hsubmit
  have htaken := List.append_cancel_left hsubmit
  rcases hslot : p.taken hit with _ | old
  · rw [hslot] at htaken
    cases htaken
  rw [hslot] at htaken
  obtain rfl := (List.cons.inj htaken).1
  have hold : hit.slot = some old := by
    unfold XdpProgram.taken at hslot
    split_ifs at hslot
    exact hslot
  obtain ⟨hword, hdata, hdecode⟩ := frameRecord_data old f
  rw [s.packets_handleRecord, EbpfSource.sent, if_pos rfl]
  change _ ∧ _ ∧ _ = _ ↔ _
  rw [hword, hdata, hdecode, hold]
  by_cases hshort : f.length < fixedSnapLen
  · have htake : f.take capLen = f := List.take_of_length_le (Nat.le_of_eq (Nat.min_eq_left hshort.le).symm)
    rw [if_pos hshort, htake]
    exact iff_of_true ⟨rfl, rfl, rfl⟩ (.inl hshort)
  · have hcap : capLen = fixedSnapLen := Nat.min_eq_right (Nat.le_of_not_lt hshort)
    rw [if_neg hshort, hcap]
    constructor
    · intro ⟨_, heq, _⟩
      exact .inr ⟨old, rfl, heq⟩
    · intro hcond
      obtain hlt | ⟨old', hmem, heq⟩ := hcond
      · exact absurd hlt hshort
      · obtain rfl := Option.some.inj hmem
        rw [heq]
        exact ⟨hcap, rfl, rfl⟩

/-- An IPv4 frame to port 5432, up to its payload. -/
def someHeaders : Bytes :=
  [2, 0, 0, 0, 0, 1, 2, 0, 0, 0, 0, 2, 8, 0, 69, 0, 0, 40, 0, 0, 0, 0, 64, 6, 0, 0, 10, 0, 0, 1, 10, 0, 0, 2,
    195, 80, 21, 56, 0, 0, 0, 1, 0, 0, 0, 0, 80, 24, 255, 255, 0, 0, 0, 0]

/-- A slot that nothing was written to. -/
def zeroSlot : PktSlot := ⟨List.replicate 4104 0, List.length_replicate⟩

/-- A frame without payload is carried. -/
theorem headers_carried :
    let hit : XdpHit := ⟨⟨someHeaders, by decide⟩, some zeroSlot, true⟩
    let raw := frameRecord zeroSlot someHeaders
    (({ cfgPort := some 5432 } : XdpProgram).pgshadowXdp hit).pktRing = [raw] ∧
      (EbpfSource.handleRecord {} (raw, true)).packets = [someHeaders.take (min someHeaders.length fixedSnapLen)] := by
  intro hit raw
  have hsubmit : (XdpProgram.pgshadowXdp { cfgPort := some 5432 } hit).pktRing = [raw] :=
    XdpProgram.submits (by decide) rfl rfl
  have hcarried := (frame_carried_iff { cfgPort := some 5432 } hit raw {} hsubmit).mpr (.inl (by decide))
  exact ⟨hsubmit, hcarried.2.2⟩

/-- A frame of 4096 bytes. -/
def longFrame : XdpFrame :=
  ⟨someHeaders ++ List.replicate 4042 1, by rw [List.length_append, List.length_replicate]; decide⟩

/-- Of a frame of 4096 bytes the record carries nothing. -/
theorem long_frame_lost :
    longFrame.1.length = 4096 ∧
      ∃ raw, (({ cfgPort := some 5432 } : XdpProgram).pgshadowXdp ⟨longFrame, some zeroSlot, true⟩).pktRing = [raw] ∧
        (raw.drop pktRecordHeaderSize).take 4096 = List.replicate 4096 0 ∧
          longFrame.1.take 4096 ≠ List.replicate 4096 0 := by
  have hlen : longFrame.1.length = 4096 := by
    rw [longFrame, List.length_append, List.length_replicate]
    rfl
  have hdata := (frameRecord_data zeroSlot longFrame.1).2.1
  rw [if_neg (by rw [hlen]; decide), hlen] at hdata
  refine ⟨hlen, frameRecord zeroSlot longFrame.1, XdpProgram.submits ?_ rfl rfl, hdata.trans ?_, fun h => ?_⟩
  · decide +kernel
  · rw [zeroSlot, List.drop_replicate]
    rfl
  · exact absurd (congrArg List.head? h) (by decide +kernel)

/-! ### Runs -/

/-- Over a run the records of the captured frames are added, if these are short. -/
theorem XdpProgram.decoded_run : ∀ (hits : List XdpHit) (p : XdpProgram),
    (∀ hit ∈ hits, (p.taken hit).isSome → hit.frame.1.length < fixedSnapLen) →
      (p.run hits).pktRing.map decodeRecord =
        p.pktRing.map decodeRecord ++ (hits.filter fun hit => (p.taken hit).isSome).map (some ·.frame.1)
  | [], p, _ => (List.append_nil _).symm
  | hit :: hits, p, hshort => by
    obtain ⟨hfirst, hrest⟩ := List.forall_mem_cons.mp hshort
    obtain ⟨hring, hport⟩ := p.pgshadowXdp_eq hit
    have hsame : ∀ hit', (p.pgshadowXdp hit).taken hit' = p.taken hit' := by
      intro hit'
      unfold taken isMatched
      rw [hport]
    have ih := decoded_run hits (p.pgshadowXdp hit) (by simpa only [hsame] using hrest)
    simp only [hsame, hring, List.map_append, List.append_assoc] at ih
    rw [run, List.foldl_cons, ← run, ih, List.filter_cons]
    rcases htaken : p.taken hit with _ | old
    · rfl
    · have hdecode := (frameRecord_data old hit.frame.1).2.2
      rw [if_pos (hfirst (by rw [htaken]; rfl))] at hdecode
      simp [hdecode]

/-- **Short frames arrive.** A frame is captured if it is of the target port, a slot of
the ring buffer is reserved for it and the kernel's copy succeeds. Over any run in which
no captured frame has 4096 bytes or more, user space sends on the captured frames for
which the channel has room, one after the other. -/
theorem short_frames_arrive (port : Option UInt16) (hits : List XdpHit) (room : List Bool) (s : EbpfSource)
    (hshort : ∀ hit ∈ hits, (XdpProgram.taken { cfgPort := port } hit).isSome → hit.frame.1.length < fixedSnapLen) :
    let captured := hits.filter fun hit => (XdpProgram.taken { cfgPort := port } hit).isSome
    (s.readLoop ((XdpProgram.run { cfgPort := port } hits).pktRing.zip room)).packets =
      s.packets ++ ((captured.zip room).filter (·.2)).map (·.1.frame.1) := by
  intro captured
  rw [s.packets_readLoop, XdpProgram.decoded_run hits _ hshort, List.map_nil, List.nil_append, List.zip_map_left,
    List.filterMap_map, ← List.filterMap_eq_map, List.filterMap_filter]
  rfl

theorem short_frames_arrive_twice :
    let hit : XdpHit := ⟨⟨someHeaders, by decide⟩, some zeroSlot, true⟩
    (EbpfSource.readLoop {} ((XdpProgram.run { cfgPort := some 5432 } [hit, hit, hit]).pktRing.zip
      [true, false, true])).packets = [someHeaders, someHeaders] := by
  intro hit
  have htaken : (XdpProgram.taken { cfgPort := some 5432 } hit).isSome = true := by decide
  rw [short_frames_arrive (some 5432) [hit, hit, hit] _ {} (by simpa using fun _ => by decide)]
  simp [htaken, hit]

end PgShadow
