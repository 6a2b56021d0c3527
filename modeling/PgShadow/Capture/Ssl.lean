/-
# Plaintext from SSL_read and SSL_write

`pkg/capture/bpf/pgshadow_ssl.c` and `pkg/capture/source_ebpf_ssl.go`: the
probes on entry and return of `SSL_read` and `SSL_write`, the records they put
into the ring buffer, and the loop that turns the records into TCP packets with
sequence numbers of its own.

A probe hit is an input of the program. A return carries what the kernel finds
there: the value returned, the memory of the process and whether it can be read,
the clock, and the slot of the ring buffer that is reserved, which still holds what
was written there before (`none` if the ring buffer is full).

Not modelled: the reuse of a hash entry between its deletion and the last read of it.

Key definitions: `SslProgram.step`, `parseSslEvent`, `SslSource.nextSeq`,
`SslSource.handleRecord`, `buildSyntheticPacket`.
Key theorem: `parseSslEvent_sslRecord`.
-/
import PgShadow.Core
import PgShadow.Lib.BigEndian
import PgShadow.Lib.Machine

namespace PgShadow

/-! ### The program in the kernel -/

def maxDataLen : ℕ := 4096

/-- `MAX_ENTRIES` of the two argument maps. -/
def maxEntries : ℕ := 10240

/-- The size of `struct ssl_event`. -/
def sslEventSize : ℕ := 4 + 4 + 4 + 4 + 1 + 7 + 8 + 4096

/-- `DIR_READ` and `DIR_WRITE`. -/
inductive SslDirection
  | read
  | write
deriving DecidableEq

def SslDirection.code : SslDirection → UInt8
  | .read => 0
  | .write => 1

/-- `bpf_get_current_pid_tgid`: the upper and the lower half. -/
structure PidTgid where
  pid : UInt32
  tid : UInt32
deriving DecidableEq

structure SslArgs where
  bufPtr : UInt64
  fd : UInt32 := 0
deriving DecidableEq

/-- A `BPF_MAP_TYPE_HASH` of at most `maxEntries` entries. -/
abbrev ArgsMap := List (PidTgid × SslArgs)

namespace ArgsMap

/-- `bpf_map_lookup_elem`. -/
def find (m : ArgsMap) (k : PidTgid) : Option SslArgs := (m.find? (·.1 = k)).map (·.2)

/-- `bpf_map_delete_elem`. -/
def delete (m : ArgsMap) (k : PidTgid) : ArgsMap := m.filter (·.1 ≠ k)

/-- A new entry for `k` fits, or there is one to be replaced. -/
def hasRoom (m : ArgsMap) (k : PidTgid) : Bool := (m.find k).isSome || m.length < maxEntries

/-- `bpf_map_update_elem` with `BPF_ANY`; the callers do not look at its error. -/
def update (m : ArgsMap) (k : PidTgid) (args : SslArgs) : ArgsMap :=
  if m.hasRoom k then (k, args) :: m.delete k else m

theorem find_delete_self (m : ArgsMap) (k : PidTgid) : (m.delete k).find k = none := by
  simp [find, delete, List.find?_filter]

theorem find_delete_of_ne (m : ArgsMap) {k k' : PidTgid} (h : k' ≠ k) : (m.delete k).find k' = m.find k' := by
  unfold find delete
  rw [List.find?_filter]
  congr 2
  funext e
  by_cases he : e.1 = k'
  · simp [he, h]
  · simp [he]

theorem find_update_self (m : ArgsMap) (k : PidTgid) (args : SslArgs) :
    (m.update k args).find k = if m.hasRoom k then some args else none := by
  unfold update
  by_cases hroom : m.hasRoom k
  · rw [if_pos hroom, if_pos hroom]
    simp [find]
  · rw [if_neg hroom, if_neg hroom]
    simp only [hasRoom, Bool.or_eq_true, not_or, Bool.not_eq_true, Option.isSome_eq_false_iff,
      Option.isNone_iff_eq_none] at hroom
    exact hroom.1

theorem find_update_of_ne (m : ArgsMap) {k k' : PidTgid} (args : SslArgs) (h : k' ≠ k) :
    (m.update k args).find k' = m.find k' := by
  unfold update
  by_cases hroom : m.hasRoom k
  · rw [if_pos hroom, ← find_delete_of_ne m h]
    simp [find, Ne.symm h]
  · rw [if_neg hroom]

end ArgsMap

/-- A reserved slot of the ring buffer, with what it held before. -/
def RingSlot := { s : Bytes // s.length = sslEventSize }

/-- The memory of a process. -/
abbrev UserMemory := UInt64 → UInt8

/-- The `n` bytes at the address `ptr`. -/
def UserMemory.read (mem : UserMemory) (ptr : UInt64) (n : ℕ) : Bytes :=
  (List.range n).map fun i => mem (ptr + UInt64.ofNat i)

@[simp] theorem UserMemory.length_read (mem : UserMemory) (ptr : UInt64) (n : ℕ) :
    (mem.read ptr n).length = n := by
  simp [UserMemory.read]

/-- What a return probe finds. -/
structure SslReturn where
  /-- The `int` that the function returns. -/
  ret : ℤ
  mem : UserMemory
  /-- `bpf_probe_read_user` does not fail. -/
  copied : Bool
  now : UInt64
  slot : Option RingSlot

/-- `bpf_probe_read_user`: the program does not look at its result, and a failed copy
leaves zeros. -/
def SslReturn.probeReadUser (r : SslReturn) (ptr : UInt64) (n : ℕ) : Bytes :=
  if r.copied then r.mem.read ptr n else List.replicate n 0

@[simp] theorem SslReturn.length_probeReadUser (r : SslReturn) (ptr : UInt64) (n : ℕ) :
    (r.probeReadUser ptr n).length = n := by
  unfold probeReadUser
  split_ifs
  · exact UserMemory.length_read ..
  · exact List.length_replicate

/-- A hit of one of the four probes by the thread `k`. -/
inductive Probe
  | enter (dir : SslDirection) (k : PidTgid) (bufPtr : UInt64)
  | exit (dir : SslDirection) (k : PidTgid) (r : SslReturn)

structure SslProgram where
  /-- `target_pid`: 0 traces every process. -/
  targetPid : UInt32 := 0
  sslReadArgs : ArgsMap := []
  sslWriteArgs : ArgsMap := []
  /-- The records submitted to the ring buffer, in order. -/
  sslEvents : List Bytes := []
  captured : ℕ := 0
  dropped : ℕ := 0

namespace SslProgram

def shouldTrace (p : SslProgram) (k : PidTgid) : Bool := p.targetPid = 0 || k.pid = p.targetPid

def args (p : SslProgram) : SslDirection → ArgsMap
  | .read => p.sslReadArgs
  | .write => p.sslWriteArgs

def setArgs (p : SslProgram) : SslDirection → ArgsMap → SslProgram
  | .read, m => { p with sslReadArgs := m }
  | .write, m => { p with sslWriteArgs := m }

@[simp] theorem args_setArgs_self (p : SslProgram) (d : SslDirection) (m : ArgsMap) : (p.setArgs d m).args d = m := by
  cases d <;> rfl

theorem args_setArgs_of_ne (p : SslProgram) {d d' : SslDirection} (m : ArgsMap) (h : d' ≠ d) :
    (p.setArgs d m).args d' = p.args d' := by
  cases d <;> cases d' <;> first | rfl | exact absurd rfl h

@[simp] theorem sslEvents_setArgs (p : SslProgram) (d : SslDirection) (m : ArgsMap) :
    (p.setArgs d m).sslEvents = p.sslEvents := by
  cases d <;> rfl

@[simp] theorem targetPid_setArgs (p : SslProgram) (d : SslDirection) (m : ArgsMap) :
    (p.setArgs d m).targetPid = p.targetPid := by
  cases d <;> rfl

end SslProgram

/-- A little-endian word. -/
def leBytes (w n : ℕ) : Bytes := (BigEndian.toBytes w n).reverse

/-- `binary.LittleEndian`. -/
def leUint (bs : Bytes) : ℕ := BigEndian.ofBytes bs.reverse

/-- The fields of a `struct ssl_event` over what its slot held before; `data`
replaces the first bytes of the data field only. -/
def sslRecord (old : RingSlot) (k : PidTgid) (fd dataLen : UInt32) (dir : SslDirection) (now : UInt64)
    (data : Bytes) : Bytes :=
  leBytes 4 k.pid.toNat ++ (leBytes 4 k.tid.toNat ++ (leBytes 4 fd.toNat ++ (leBytes 4 dataLen.toNat ++
    (dir.code :: ((old.1.drop 17).take 7 ++ (leBytes 8 now.toNat ++ (data ++ old.1.drop (32 + data.length))))))))

namespace SslProgram

/-- The body of the two entry probes. -/
def uprobeEnter (dir : SslDirection) (p : SslProgram) (k : PidTgid) (bufPtr : UInt64) : SslProgram :=
  if p.shouldTrace k then p.setArgs dir ((p.args dir).update k { bufPtr }) else p

def uprobeSslReadEnter : SslProgram → PidTgid → UInt64 → SslProgram := uprobeEnter .read
def uprobeSslWriteEnter : SslProgram → PidTgid → UInt64 → SslProgram := uprobeEnter .write

/-- The return probes once the stored arguments are deleted: reserve a slot, fill
it and submit it. -/
def submitEvent (dir : SslDirection) (p : SslProgram) (k : PidTgid) (args : SslArgs) (r : SslReturn) : SslProgram :=
  if r.ret ≤ 0 then p
  else
    let dataLen := if r.ret.toNat > maxDataLen then maxDataLen else r.ret.toNat
    match r.slot with
    | none => { p with dropped := p.dropped + 1 }
    | some old =>
      let data := r.probeReadUser args.bufPtr (dataLen &&& (maxDataLen - 1))
      { p with
        sslEvents := p.sslEvents ++ [sslRecord old k args.fd (UInt32.ofNat dataLen) dir r.now data]
        captured := p.captured + 1 }

/-- The body of the two return probes. -/
def uretprobeExit (dir : SslDirection) (p : SslProgram) (k : PidTgid) (r : SslReturn) : SslProgram :=
  if !p.shouldTrace k then p
  else
    match (p.args dir).find k with
    | none => p
    | some args => (p.setArgs dir ((p.args dir).delete k)).submitEvent dir k args r

def uretprobeSslReadExit : SslProgram → PidTgid → SslReturn → SslProgram := uretprobeExit .read
def uretprobeSslWriteExit : SslProgram → PidTgid → SslReturn → SslProgram := uretprobeExit .write

/-- The program that a probe hit runs. -/
def step (p : SslProgram) : Probe → SslProgram
  | .enter .read k bufPtr => p.uprobeSslReadEnter k bufPtr
  | .enter .write k bufPtr => p.uprobeSslWriteEnter k bufPtr
  | .exit .read k r => p.uretprobeSslReadExit k r
  | .exit .write k r => p.uretprobeSslWriteExit k r

def run (p : SslProgram) (hits : List Probe) : SslProgram := hits.foldl step p

theorem step_enter (p : SslProgram) (dir : SslDirection) (k : PidTgid) (bufPtr : UInt64) :
    p.step (.enter dir k bufPtr) = p.uprobeEnter dir k bufPtr := by
  cases dir <;> rfl

theorem step_exit (p : SslProgram) (dir : SslDirection) (k : PidTgid) (r : SslReturn) :
    p.step (.exit dir k r) = p.uretprobeExit dir k r := by
  cases dir <;> rfl

/-- The record of a successful return, if there is a slot for it. -/
def recordOf (dir : SslDirection) (k : PidTgid) (args : SslArgs) (r : SslReturn) : List Bytes :=
  match r.slot with
  | none => []
  | some old =>
    if r.ret ≤ 0 then []
    else
      [sslRecord old k args.fd (UInt32.ofNat (min r.ret.toNat maxDataLen)) dir r.now
        (r.probeReadUser args.bufPtr (min r.ret.toNat maxDataLen &&& (maxDataLen - 1)))]

theorem submitEvent_eq (p : SslProgram) (d : SslDirection) (k : PidTgid) (args : SslArgs) (r : SslReturn) :
    (p.submitEvent d k args r).sslEvents = p.sslEvents ++ recordOf d k args r ∧
      (p.submitEvent d k args r).targetPid = p.targetPid ∧
      ∀ d', (p.submitEvent d k args r).args d' = p.args d' := by
  have hmin : (if r.ret.toNat > maxDataLen then maxDataLen else r.ret.toNat) = min r.ret.toNat maxDataLen := by
    split_ifs <;> omega
  have hargs : ∀ (q : SslProgram) (d' : SslDirection), q.sslReadArgs = p.sslReadArgs →
      q.sslWriteArgs = p.sslWriteArgs → q.args d' = p.args d' := by
    rintro q (_ | _) h1 h2
    · exact h1
    · exact h2
  unfold submitEvent recordOf
  rw [hmin]
  by_cases hret : r.ret ≤ 0
  · simp only [hret, if_true, implies_true, and_true]
    rcases r.slot with _ | old <;> exact (List.append_nil _).symm
  · simp only [hret, if_false]
    rcases r.slot with _ | old
    · exact ⟨(List.append_nil _).symm, rfl, fun d' => hargs _ d' rfl rfl⟩
    · exact ⟨rfl, rfl, fun d' => hargs _ d' rfl rfl⟩

theorem find_args_setArgs_delete (p : SslProgram) (d d' : SslDirection) (k k' : PidTgid) :
    ((p.setArgs d ((p.args d).delete k)).args d').find k' =
      if d' = d ∧ k' = k then none else (p.args d').find k' := by
  by_cases hd : d' = d
  · subst hd
    rw [args_setArgs_self]
    by_cases hk : k' = k
    · rw [if_pos ⟨rfl, hk⟩, hk, ArgsMap.find_delete_self]
    · rw [if_neg fun h => hk h.2, ArgsMap.find_delete_of_ne _ hk]
  · rw [if_neg fun h => hd h.1, args_setArgs_of_ne p _ hd]

/-- What a return does: the record of the stored arguments is added to the ring
buffer, and the arguments are gone. -/
theorem uretprobeExit_eq (p : SslProgram) (d : SslDirection) (k : PidTgid) (r : SslReturn) :
    (p.uretprobeExit d k r).sslEvents = p.sslEvents ++
        (if p.shouldTrace k then ((p.args d).find k).elim [] (fun args => recordOf d k args r) else []) ∧
      (p.uretprobeExit d k r).targetPid = p.targetPid ∧
      ∀ d' k', ((p.uretprobeExit d k r).args d').find k' =
        if p.shouldTrace k ∧ d' = d ∧ k' = k then none else (p.args d').find k' := by
  unfold uretprobeExit
  by_cases htrace : p.shouldTrace k = true
  · simp only [htrace, Bool.not_true, Bool.false_eq_true, if_false, if_true, true_and]
    rcases hargs : (p.args d).find k with _ | args
    · refine ⟨(List.append_nil _).symm, rfl, fun d' k' => ?_⟩
      by_cases h : d' = d ∧ k' = k
      · rw [if_pos h, h.1, h.2]
        exact hargs
      · rw [if_neg h]
    · obtain ⟨h1, h2, h3⟩ := (p.setArgs d ((p.args d).delete k)).submitEvent_eq d k args r
      refine ⟨h1.trans (by rw [sslEvents_setArgs]; rfl), h2.trans (targetPid_setArgs ..), fun d' k' => ?_⟩
      exact (congrArg (ArgsMap.find · k') (h3 d')).trans (p.find_args_setArgs_delete d d' k k')
  · simp [htrace]

/-- What an entry does: the arguments are stored if there is room. -/
theorem uprobeEnter_eq (p : SslProgram) (d : SslDirection) (k : PidTgid) (bufPtr : UInt64) :
    (p.uprobeEnter d k bufPtr).sslEvents = p.sslEvents ∧ (p.uprobeEnter d k bufPtr).targetPid = p.targetPid ∧
      ∀ d' k', ((p.uprobeEnter d k bufPtr).args d').find k' =
        if p.shouldTrace k ∧ d' = d ∧ k' = k then (if (p.args d).hasRoom k then some { bufPtr } else none)
        else (p.args d').find k' := by
  unfold uprobeEnter
  by_cases htrace : p.shouldTrace k = true
  · simp only [htrace, if_true, true_and]
    refine ⟨sslEvents_setArgs .., targetPid_setArgs .., fun d' k' => ?_⟩
    by_cases hd : d' = d
    · subst hd
      rw [args_setArgs_self]
      by_cases hk : k' = k
      · rw [if_pos ⟨rfl, hk⟩, hk, ArgsMap.find_update_self]
      · rw [if_neg fun h => hk h.2, ArgsMap.find_update_of_ne _ _ hk]
    · rw [if_neg fun h => hd h.1, args_setArgs_of_ne p _ hd]
  · simp [htrace]

theorem run_cons (p : SslProgram) (h : Probe) (hits : List Probe) : p.run (h :: hits) = (p.step h).run hits := rfl

end SslProgram

/-! ### Records -/

structure SslEvent where
  pid : UInt32
  tid : UInt32
  fd : UInt32
  dataLen : UInt32
  direction : UInt8
  timestampNs : UInt64
  data : Bytes
deriving DecidableEq

def parseSslEvent (raw : Bytes) : SslEvent where
  pid := UInt32.ofNat (leUint (raw.take 4))
  tid := UInt32.ofNat (leUint ((raw.drop 4).take 4))
  fd := UInt32.ofNat (leUint ((raw.drop 8).take 4))
  dataLen := UInt32.ofNat (leUint ((raw.drop 12).take 4))
  direction := (raw.drop 16).headD 0
  timestampNs := UInt64.ofNat (leUint ((raw.drop 24).take 8))
  data := (raw.drop 32).take 4096

@[simp] theorem length_leBytes (w n : ℕ) : (leBytes w n).length = w := by simp [leBytes]

theorem leUint_leBytes {w n : ℕ} (h : n < 256 ^ w) : leUint (leBytes w n) = n := by
  rw [leUint, leBytes, List.reverse_reverse, BigEndian.ofBytes_toBytes w n h]

theorem length_sslRecord (old : RingSlot) (k : PidTgid) (fd dataLen : UInt32) (dir : SslDirection)
    (now : UInt64) {data : Bytes} (h : data.length ≤ maxDataLen) :
    (sslRecord old k fd dataLen dir now data).length = sslEventSize := by
  have hold := old.2
  unfold maxDataLen at h
  simp only [sslEventSize] at hold
  simp only [sslRecord, sslEventSize, List.length_append, List.length_cons, List.length_take, List.length_drop,
    length_leBytes, hold]
  omega

theorem ofNat_leUint32 (v : UInt32) : UInt32.ofNat (leUint (leBytes 4 v.toNat)) = v := by
  rw [leUint_leBytes (by simpa using v.toNat_lt), UInt32.ofNat_toNat]

theorem ofNat_leUint64 (v : UInt64) : UInt64.ofNat (leUint (leBytes 8 v.toNat)) = v := by
  rw [leUint_leBytes (by simpa using v.toNat_lt), UInt64.ofNat_toNat]

/-- Past one more field. -/
theorem drop_field {raw l r : Bytes} {i w : ℕ} (h : raw.drop i = l ++ r) (hl : l.length = w) :
    raw.drop (i + w) = r := by
  rw [← List.drop_drop, h, List.drop_left' hl]

/-- **User space reads the record that the kernel wrote.** The layouts agree,
padding included. -/
theorem parseSslEvent_sslRecord (old : RingSlot) (k : PidTgid) (fd dataLen : UInt32) (dir : SslDirection)
    (now : UInt64) {data : Bytes} (h : data.length ≤ maxDataLen) :
    parseSslEvent (sslRecord old k fd dataLen dir now data) =
      { pid := k.pid, tid := k.tid, fd, dataLen, direction := dir.code, timestampNs := now
        data := data ++ old.1.drop (32 + data.length) } := by
  have hold : old.1.length = 4128 := old.2
  have hpad : ((old.1.drop 17).take 7).length = 7 := by
    rw [List.length_take, List.length_drop, hold]
    omega
  have hdata : (data ++ old.1.drop (32 + data.length)).length = 4096 := by
    unfold maxDataLen at h
    rw [List.length_append, List.length_drop, hold]
    omega
  have h0 : (sslRecord old k fd dataLen dir now data).drop 0 = _ := rfl
  have h4 := drop_field h0 (length_leBytes 4 _)
  have h8 := drop_field h4 (length_leBytes 4 _)
  have h12 := drop_field h8 (length_leBytes 4 _)
  have h16 := drop_field h12 (length_leBytes 4 _)
  have h17 := drop_field (l := [dir.code]) (w := 1) h16 rfl
  have h24 := drop_field h17 hpad
  have h32 := drop_field h24 (length_leBytes 8 _)
  have hword : ∀ (w n : ℕ) (r : Bytes), (leBytes w n ++ r).take w = leBytes w n :=
    fun w n r => List.take_left' (length_leBytes w n)
  unfold parseSslEvent
  rw [h4, h8, h12, h16, h24, h32]
  unfold sslRecord
  simp only [hword, ofNat_leUint32, ofNat_leUint64, List.headD_cons, List.take_of_length_le hdata.le]

/-! ### Sequence numbers -/

/-- The sequence numbers of the source: one for each thread and direction, with
the number of the call that last used it. -/
structure SslSource where
  seqNums : GoMap UInt64 UInt32 := GoMap.empty
  seqLastSeen : GoMap UInt64 UInt64 := GoMap.empty
  seqPurgeCounter : UInt64 := 0

/-- The map key of a thread and direction. -/
def seqKey (pid tid : UInt32) (direction : UInt8) : UInt64 :=
  ((pid.toUInt64 <<< 32 ||| tid.toUInt64) <<< 1) ||| direction.toUInt64

namespace SslSource

/-- Some entry was seen before `cutoff`, by its number. -/
def stale (s : SslSource) (cutoff : UInt64) (key : UInt64) : Bool :=
  (s.seqLastSeen key).any fun lastSeen => lastSeen < cutoff

/-- Remove the entries not seen in the last 500000 calls; the difference is
unsigned. -/
def purgeStaleSeqs (s : SslSource) : SslSource :=
  let cutoff := s.seqPurgeCounter - 500000
  { s with
    seqNums := fun key => if s.stale cutoff key then none else s.seqNums key
    seqLastSeen := fun key => if s.stale cutoff key then none else s.seqLastSeen key }

theorem purgeStaleSeqs_seqNums (s : SslSource) (key : UInt64) :
    s.purgeStaleSeqs.seqNums key =
      if s.stale (s.seqPurgeCounter - 500000) key then none else s.seqNums key := rfl

theorem purgeStaleSeqs_seqLastSeen (s : SslSource) (key : UInt64) :
    s.purgeStaleSeqs.seqLastSeen key =
      if s.stale (s.seqPurgeCounter - 500000) key then none else s.seqLastSeen key := rfl

/-- The entry of `key` goes on by `dataLen` bytes; a new one starts at 1. -/
def advance (s : SslSource) (key : UInt64) (dataLen : UInt32) : SslSource where
  seqNums := s.seqNums.set key ((s.seqNums key).getD 1 + dataLen)
  seqLastSeen := s.seqLastSeen.set key s.seqPurgeCounter
  seqPurgeCounter := s.seqPurgeCounter + 1

theorem advance_seqNums (s : SslSource) (key : UInt64) (dataLen : UInt32) :
    (s.advance key dataLen).seqNums = s.seqNums.set key ((s.seqNums key).getD 1 + dataLen) := rfl

theorem advance_seqLastSeen (s : SslSource) (key : UInt64) (dataLen : UInt32) :
    (s.advance key dataLen).seqLastSeen = s.seqLastSeen.set key s.seqPurgeCounter := rfl

/-- The sequence number of a packet of `dataLen` bytes. -/
def nextSeq (s : SslSource) (pid tid : UInt32) (direction : UInt8) (dataLen : UInt32) : SslSource × UInt32 :=
  let key := seqKey pid tid direction
  let s' := s.advance key dataLen
  (if s'.seqPurgeCounter % 100000 = 0 then s'.purgeStaleSeqs else s', (s.seqNums key).getD 1)

end SslSource

/-! ### Packets -/

/-- A synthetic packet: the addresses, ports and sequence number of its headers
and its payload. -/
structure SyntheticPacket where
  srcIP : Addr
  dstIP : Addr
  srcPort : UInt16
  dstPort : UInt16
  seq : UInt32
  payload : Bytes
deriving DecidableEq

/-- `net.IPv4`. -/
def ipv4 (a b c d : UInt8) : Addr := .v4 (a.toBitVec ++ b.toBitVec ++ c.toBitVec ++ d.toBitVec)

def buildSyntheticPacket (payload : Bytes) (direction : UInt8) (pid tid seq : UInt32) : SyntheticPacket :=
  let srcIP := ipv4 10 (pid >>> 8).toUInt8 pid.toUInt8 (tid >>> 16).toUInt8
  let dstIP := ipv4 127 0 0 1
  let low := (tid &&& 0xFFFF).toUInt16
  let srcPort := if low = 5432 then 5433 else low
  if direction = 1 then { srcIP := dstIP, dstIP := srcIP, srcPort := 5432, dstPort := srcPort, seq, payload }
  else { srcIP, dstIP, srcPort, dstPort := 5432, seq, payload }

/-- One turn of `readLoop`: the record, and whether the channel has room for a
packet. A packet comes with the event it was made of. -/
def SslSource.handleRecord (s : SslSource) (input : Bytes × Bool) : SslSource × Option (SslEvent × SyntheticPacket) :=
  if input.1.length < sslEventSize then (s, none)
  else
    let ev := parseSslEvent input.1
    if ev.dataLen = 0 then (s, none)
    else
      let dataLen := if ev.dataLen > 4096 then 4096 else ev.dataLen
      let (s, seq) := s.nextSeq ev.pid ev.tid ev.direction dataLen
      let pkt := buildSyntheticPacket (ev.data.take dataLen.toNat) ev.direction ev.pid ev.tid seq
      (s, if input.2 then some (ev, pkt) else none)

/-- `readLoop` from the start of the source: the packets it sends. -/
def readLoop (records : List (Bytes × Bool)) : List (SslEvent × SyntheticPacket) :=
  (Machine.outs SslSource.handleRecord {} records).filterMap id

end PgShadow
