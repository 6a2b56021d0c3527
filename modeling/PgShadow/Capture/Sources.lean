/-
# The capture sources

`Open` of `pkg/capture/capture.go` as a whole, with the sources of its four modes
(`source_pcap.go`, `source_afpacket.go`, `source_ebpf.go`, `source_ebpf_ssl.go`
and their stubs for builds without them). A source is opened by operations of
libpcap and the kernel, one after the other; what these answer is an input.

If the source of the mode fails, every handle that it had opened is closed, the
last one first (`failed_open_closes`). The size of an AF_PACKET frame is doubled
until it holds a snapshot; for snapshots of more than 2^62 bytes this does not
end (`afpacketSizing_isSome_iff`).

A custom filter is never validated: `withDefaults` has filled in the filter by
the time that `Open` compares it with the built one. So a filter that
`QuickBPFFilterValidation` rejects is refused exactly if libpcap or the kernel
refuse something themselves, and before the interface is opened exactly if they
do so up to that point (`rejected_filter_refused_iff`). The eBPF sources do not
read the filter at all (`newSource_ebpf_filter`), so they open with any.

Key definitions: `SourceOp`, `newSource`, `captureOpen`.
Key theorems: `captureOpen_eq`, `failed_open_closes`, `rejected_filter_refused_iff`.
-/
import PgShadow.Capture.Open
import PgShadow.Lib.Acquire

namespace PgShadow

/-! ### The operations of the sources -/

/-- `bpf.RawInstruction`. -/
structure RawInstruction where
  op : UInt16
  jt : UInt8
  jf : UInt8
  k : UInt32
deriving DecidableEq

/-- What a source asks of libpcap and the kernel. -/
inductive SourceOp
  | newInactiveHandle (iface : Bytes)
  | setSnapLen (snapLen : ℤ)
  | setPromisc
  | setTimeout
  | setBufferSize (size : ℤ)
  | activate
  | setDirectionIn
  | setBPFFilter (filter : Bytes)
  | newTPacket (iface : Bytes) (frameSize blockSize numBlocks : ℤ)
  | compileBPFFilter (snapLen : ℤ) (filter : Bytes)
  | setBPF (insns : List RawInstruction)
  | removeMemlock
  | loadXdpObjects
  | updateCfgPort (portNet : UInt16)
  | attachXDP (index : ℤ) (generic : Bool)
  | newReader
  | findLibSSL (targetPID : ℤ)
  | loadSslObjects
  | updateTargetPid (pid : UInt32)
  | openExecutable (path : Bytes)
  | uprobe (symbol : Bytes)
  | uretprobe (symbol : Bytes)
deriving DecidableEq

/-- The operation opens what is captured from. -/
def SourceOp.attaches : SourceOp → Bool
  | .activate | .newTPacket .. | .attachXDP .. | .uprobe _ | .uretprobe _ => true
  | _ => false

inductive SourceHandle
  /-- The handle of libpcap, inactive at first. -/
  | pcap
  | tpacket
  | objs
  | xdpLnk
  | readEnter
  | readExit
  | writeEnter
  | writeExit
  | reader
deriving DecidableEq

inductive SourceError
  | request (e : CaptureError)
  | cannotOpenInterface (iface cause : Bytes)
  /-- `cannotOpenInterface` for `ebpf: failed to attach XDP to interface %q (tried
  native and generic mode)`. -/
  | cannotAttachXDP (iface cause : Bytes)
  | invalidBPF (filter cause : Bytes)
  /-- `ebpf_ssl: ` what: cause. -/
  | ebpfSSL (what cause : Bytes)
  /-- `ebpf_ssl: open %q`. -/
  | ebpfSSLOpen (path cause : Bytes)
deriving DecidableEq

abbrev SourceStep := Acquire.Step SourceOp SourceHandle Bytes SourceError

abbrev SourceOutcome := Acquire.Outcome SourceOp SourceHandle SourceError

/-- Libpcap and the kernel, at the time of an `Open`. -/
structure CaptureSystem where
  /-- The error of an operation, if it fails. -/
  answer : SourceOp → Option Bytes
  /-- The instructions that a filter is compiled to. -/
  compiled : ℤ → Bytes → List RawInstruction
  interfaceByName : Bytes → Option ℤ
  /-- The path that `findLibSSL` finds. -/
  libSSL : Bytes

/-- The platform and the build tags. -/
structure Build where
  goos : Bytes
  pcap : Bool
  ebpf : Bool

/-- What a constructor comes to. -/
inductive SourceScript
  | refused (e : SourceError)
  | steps (l : List SourceStep)
  /-- The constructor does not return. -/
  | diverges

def SourceScript.run (sys : CaptureSystem) : SourceScript → Option SourceOutcome
  | .refused e => some { error := some e, done := [], opened := [], closed := [] }
  | .steps l => some (Acquire.run sys.answer l)
  | .diverges => none

def errCannotOpenInterface (iface cause : Bytes) : SourceError :=
  .cannotOpenInterface (if iface = [] then bytes "<empty>" else iface) cause

/-- The constructor of a mode that is only there on Linux, in a build without it. -/
def linuxStub (build : Build) (cfg : CaptureConfig) (mode hint : String) : SourceScript :=
  if build.goos ≠ bytes "linux" then
    .refused (errCannotOpenInterface cfg.interface
      (bytes mode ++ bytes " mode requires Linux (current GOOS=" ++ build.goos ++ bytes ")"))
  else .refused (errCannotOpenInterface cfg.interface
    (bytes mode ++ bytes " mode is unavailable in this build; rebuild with -tags " ++ bytes hint))

/-! ### libpcap -/

def newPcapSource (build : Build) (cfg : CaptureConfig) : SourceScript :=
  if build.pcap then
    -- the branches before `Activate` leave the handle to the deferred `CleanUp`
    let onInterface (op : SourceOp) : SourceStep :=
      { op, closes := [.pcap], failure := errCannotOpenInterface cfg.interface }
    .steps (
      [{ op := .newInactiveHandle cfg.interface, closes := [], failure := errCannotOpenInterface cfg.interface
         opens := some .pcap },
       onInterface (.setSnapLen cfg.snapLen), onInterface .setPromisc, onInterface .setTimeout] ++
      (if 0 < cfg.bufferSize then [onInterface (.setBufferSize cfg.bufferSize)] else []) ++
      [onInterface .activate] ++
      (if cfg.bidirectional then [] else [onInterface .setDirectionIn]) ++
      [{ op := .setBPFFilter cfg.bpfFilter, closes := [.pcap], failure := .invalidBPF cfg.bpfFilter }])
  else .refused (errCannotOpenInterface cfg.interface
    (bytes "pcap mode is unavailable in this build; rebuild with -tags pcap (requires cgo + libpcap)"))

/-! ### AF_PACKET -/

/-- The loop that doubles the frame size, on 64-bit integers; `none` if `fuel`
rounds are not enough. -/
def frameLoop (snapLen : ℤ) : ℕ → ℤ → Option ℤ
  | 0, _ => none
  | fuel + 1, frameSize =>
    if frameSize < snapLen then frameLoop snapLen fuel (Int.bmod (2 * frameSize) 18446744073709551616)
    else some frameSize

/-- Frame size, block size and number of blocks. From a frame size of 1 the loop
ends within 63 rounds or not at all. -/
def afpacketSizing (cfg : CaptureConfig) : Option (ℤ × ℤ × ℤ) :=
  (if 4096 < cfg.snapLen then frameLoop cfg.snapLen 63 1 else some 4096).map fun frameSize =>
    let blockSize := if 524288 < frameSize then frameSize else 524288
    let numBlocks := if 0 < cfg.bufferSize ∧ 128 < cfg.bufferSize / blockSize then cfg.bufferSize / blockSize else 128
    (frameSize, blockSize, numBlocks)

/-- Below 2^62 doubling does not overflow. -/
theorem bmod_double {k : ℕ} (hk : k < 62) :
    Int.bmod (2 * ((2 ^ k : ℕ) : ℤ)) 18446744073709551616 = ((2 ^ (k + 1) : ℕ) : ℤ) := by
  have hpow : 2 ^ k ≤ 2 ^ 61 := Nat.pow_le_pow_right (by decide) (by omega)
  rw [Nat.pow_succ]
  generalize 2 ^ k = m at hpow ⊢
  rw [Int.bmod_eq_of_le (by omega) (by omega)]
  omega

/-- Up to 2^62 the loop comes to a power of two that is large enough. -/
theorem frameLoop_pow {snapLen : ℤ} (h : snapLen ≤ 4611686018427387904) : ∀ (n k : ℕ), k + n = 62 →
    ∃ j : ℕ, frameLoop snapLen (n + 1) ((2 ^ k : ℕ) : ℤ) = some ((2 ^ j : ℕ) : ℤ) ∧ snapLen ≤ ((2 ^ j : ℕ) : ℤ)
  | n, k, hk => by
    rw [frameLoop]
    by_cases hlt : ((2 ^ k : ℕ) : ℤ) < snapLen
    · rw [if_pos hlt]
      have hsmall : k < 62 := by
        by_contra hge
        obtain rfl : k = 62 := by omega
        exact absurd (hlt.trans_le h) (by decide)
      obtain ⟨m, rfl⟩ : ∃ m, n = m + 1 := ⟨n - 1, by omega⟩
      rw [bmod_double hsmall]
      exact frameLoop_pow h m (k + 1) (by omega)
    · rw [if_neg hlt]
      exact ⟨k, rfl, not_lt.1 hlt⟩

/-- What the frame size runs through if it never gets large enough. -/
def Doubling (v : ℤ) : Prop := (∃ k ≤ 62, v = ((2 ^ k : ℕ) : ℤ)) ∨ v = -9223372036854775808 ∨ v = 0

theorem Doubling.bmod {v : ℤ} (h : Doubling v) : Doubling (Int.bmod (2 * v) 18446744073709551616) := by
  rcases h with ⟨k, hk, rfl⟩ | rfl | rfl
  · by_cases hlast : k = 62
    · subst hlast
      exact Or.inr (Or.inl (by decide))
    · exact Or.inl ⟨k + 1, by omega, bmod_double (by omega)⟩
  · exact Or.inr (Or.inr (by decide))
  · exact Or.inr (Or.inr (by decide))

/-- Above 2^62 no number of rounds is enough: the size overflows and stays 0. -/
theorem frameLoop_none {snapLen : ℤ} (h : 4611686018427387904 < snapLen) : ∀ (fuel : ℕ) {v : ℤ}, Doubling v →
    frameLoop snapLen fuel v = none
  | 0, _, _ => rfl
  | fuel + 1, v, hv => by
    have hlt : v < snapLen := by
      rcases hv with ⟨k, hk, rfl⟩ | rfl | rfl
      · have hpow : 2 ^ k ≤ 2 ^ 62 := Nat.pow_le_pow_right (by decide) hk
        omega
      · omega
      · omega
    rw [frameLoop, if_pos hlt]
    exact frameLoop_none h fuel hv.bmod

/-- The sizes are found exactly for snapshots of up to 2^62 bytes; then one of these
fits in a frame, and a frame in a block. -/
theorem afpacketSizing_isSome_iff (cfg : CaptureConfig) :
    ((afpacketSizing cfg).isSome = true ↔ cfg.snapLen ≤ 4611686018427387904) ∧
      ∀ sizes ∈ afpacketSizing cfg, cfg.snapLen ≤ sizes.1 ∧ sizes.1 ≤ sizes.2.1 := by
  rw [afpacketSizing, Option.isSome_map]
  by_cases hlarge : 4096 < cfg.snapLen
  · rw [if_pos hlarge]
    by_cases h : cfg.snapLen ≤ 4611686018427387904
    · obtain ⟨j, hj, hle⟩ := frameLoop_pow h 62 0 rfl
      rw [show frameLoop cfg.snapLen 63 1 = _ from hj]
      refine ⟨iff_of_true rfl h, ?_⟩
      rintro sizes ⟨⟩
      exact ⟨hle, by dsimp only; split_ifs <;> omega⟩
    · have hnone := frameLoop_none (not_le.1 h) 63 (v := 1) (Or.inl ⟨0, by decide, rfl⟩)
      rw [hnone]
      exact ⟨iff_of_false (by decide) h, by rintro sizes ⟨⟩⟩
  · rw [if_neg hlarge]
    refine ⟨iff_of_true rfl (by omega), ?_⟩
    rintro sizes ⟨⟩
    exact ⟨not_lt.1 hlarge, by dsimp only; split_ifs <;> omega⟩

def newAFPacketSource (build : Build) (sys : CaptureSystem) (cfg : CaptureConfig) : SourceScript :=
  if build.goos = bytes "linux" ∧ build.pcap = true then
    match afpacketSizing cfg with
    | none => .diverges
    | some (frameSize, blockSize, numBlocks) =>
      .steps [
        { op := .newTPacket cfg.interface frameSize blockSize numBlocks, closes := []
          failure := errCannotOpenInterface cfg.interface, opens := some .tpacket },
        { op := .compileBPFFilter cfg.snapLen cfg.bpfFilter, closes := [.tpacket]
          failure := .invalidBPF cfg.bpfFilter },
        { op := .setBPF (sys.compiled cfg.snapLen cfg.bpfFilter), closes := [.tpacket]
          failure := .invalidBPF cfg.bpfFilter }]
  else linuxStub build cfg "af_packet" "pcap (requires cgo + libpcap)"

/-! ### eBPF -/

def hostToNet16 (v : UInt16) : UInt16 := (v >>> 8) ||| (v <<< 8)

def ifaceIndex (sys : CaptureSystem) (name : Bytes) : ℤ := (sys.interfaceByName name).getD 0

def newEBPFSource (build : Build) (sys : CaptureSystem) (cfg : CaptureConfig) : SourceScript :=
  if build.goos = bytes "linux" ∧ build.ebpf = true then
    let failure (what : Bytes) (cause : Bytes) : SourceError :=
      errCannotOpenInterface cfg.interface (bytes "ebpf: failed to " ++ what ++ bytes ": " ++ cause)
    let port := if cfg.port = 0 then defaultPort else cfg.port
    let idx := ifaceIndex sys cfg.interface
    .steps [
      { op := .removeMemlock, closes := [], failure := failure (bytes "remove memlock rlimit") },
      { op := .loadXdpObjects, closes := [], failure := failure (bytes "load BPF objects"), opens := some .objs },
      { op := .updateCfgPort (hostToNet16 (UInt16.ofNat (port % 65536).toNat)), closes := [.objs]
        failure := failure (bytes "set capture port " ++ formatInt port ++ bytes " in BPF map") },
      { op := .attachXDP idx false, fallback := some (.attachXDP idx true), closes := [.objs]
        failure := .cannotAttachXDP cfg.interface, opens := some .xdpLnk },
      { op := .newReader, closes := [.xdpLnk, .objs], failure := failure (bytes "open ring buffer")
        opens := some .reader }]
  else linuxStub build cfg "ebpf"
    "ebpf (requires a recent Linux kernel, an eBPF loader dependency, and CAP_BPF/CAP_NET_ADMIN)"

structure SSLConfig where
  targetPID : ℤ := 0
  libSSLPath : Bytes := []

def newEBPFSSLSource (build : Build) (sys : CaptureSystem) (cfg : CaptureConfig) (sslCfg : SSLConfig) :
    SourceScript :=
  if build.goos = bytes "linux" ∧ build.ebpf = true then
    let failure (what : String) : Bytes → SourceError := .ebpfSSL (bytes what)
    let libsslPath := if sslCfg.libSSLPath = [] then sys.libSSL else sslCfg.libSSLPath
    .steps (
      [{ op := .removeMemlock, closes := [], failure := failure "remove memlock" }] ++
      (if sslCfg.libSSLPath = [] then
        [{ op := .findLibSSL sslCfg.targetPID, closes := [], failure := failure "auto-detect libssl" }] else []) ++
      [{ op := .loadSslObjects, closes := [], failure := failure "load BPF objects", opens := some .objs },
       { op := .updateTargetPid (UInt32.ofNat (sslCfg.targetPID % 4294967296).toNat), closes := [.objs]
         failure := failure "set target PID" },
       { op := .openExecutable libsslPath, closes := [.objs], failure := .ebpfSSLOpen libsslPath },
       { op := .uprobe (bytes "SSL_read"), closes := [.objs], failure := failure "attach uprobe SSL_read"
         opens := some .readEnter },
       { op := .uretprobe (bytes "SSL_read"), closes := [.readEnter, .objs]
         failure := failure "attach uretprobe SSL_read", opens := some .readExit },
       { op := .uprobe (bytes "SSL_write"), closes := [.readExit, .readEnter, .objs]
         failure := failure "attach uprobe SSL_write", opens := some .writeEnter },
       { op := .uretprobe (bytes "SSL_write"), closes := [.writeEnter, .readExit, .readEnter, .objs]
         failure := failure "attach uretprobe SSL_write", opens := some .writeExit },
       { op := .newReader, closes := [.writeExit, .writeEnter, .readExit, .readEnter, .objs]
         failure := failure "open ring buffer", opens := some .reader }])
  else linuxStub build cfg "ebpf_ssl" "ebpf"

/-! ### Open -/

/-- The source of the mode. -/
def newSource (build : Build) (sys : CaptureSystem) (cfg : CaptureConfig) : SourceScript :=
  if cfg.mode = bytes "pcap" then newPcapSource build cfg
  else if cfg.mode = bytes "af_packet" then newAFPacketSource build sys cfg
  else if cfg.mode = bytes "ebpf" then newEBPFSource build sys cfg
  else if cfg.mode = bytes "ebpf_ssl" then newEBPFSSLSource build sys cfg {}
  else .refused (.request (.invalidMode cfg.mode))

/-- `Open`; `none` if it does not return. -/
def captureOpen (build : Build) (tool : Option (Bytes → Except BPFError Unit)) (sys : CaptureSystem)
    (cfg : CaptureConfig) : Option SourceOutcome :=
  match openRequest tool cfg with
  | .error e => (SourceScript.refused (.request e)).run sys
  | .ok cfg => (newSource build sys cfg).run sys

section Open

variable {build : Build} {tool : Option (Bytes → Except BPFError Unit)} {sys : CaptureSystem} {cfg : CaptureConfig}

/-- The checks of `Open` look at the interface and the mode only: where the filter
is compared with the built one, it is the built one. -/
theorem openRequest_eq (hiface : cfg.interface ≠ []) (hmode : captureModes.contains cfg.withDefaults.mode = true) :
    openRequest tool cfg = .ok cfg.withDefaults := by
  have hfilter : ¬(cfg.withDefaults.bpfFilter ≠ [] ∧ cfg.withDefaults.bpfFilter ≠ buildBPFFilter cfg.withDefaults) := by
    rintro ⟨hne, hcustom⟩
    exact hcustom (buildBPFFilter_withDefaults cfg hne).symm
  have hiface' : cfg.withDefaults.interface ≠ [] := hiface
  simp only [openRequest, if_neg hiface', hmode, Bool.not_true, if_neg hfilter]
  rfl

/-- `Open` is the source of the mode, which gets the filter as it is. -/
theorem captureOpen_eq (hiface : cfg.interface ≠ []) (hmode : captureModes.contains cfg.withDefaults.mode = true) :
    captureOpen build tool sys cfg = (newSource build sys cfg.withDefaults).run sys := by
  rw [captureOpen, openRequest_eq hiface hmode]

end Open

/-! ### Failures -/

/-- What holds of the steps of every source: a failure branch closes what is open,
and a fallback is of the kind of the operation that it stands for. -/
structure Orderly (steps : List SourceStep) : Prop where
  nested : Acquire.Nested [] steps
  fallback : ∀ s ∈ steps, ∀ op, s.fallback = some op → op.attaches = s.op.attaches

/-- The steps, if there are any, are orderly. -/
def SourceScript.Orderly : SourceScript → Prop
  | .steps l => PgShadow.Orderly l
  | _ => True

section Orderly

variable (build : Build) (sys : CaptureSystem) (cfg : CaptureConfig)

theorem orderly_linuxStub (mode hint : String) : (linuxStub build cfg mode hint).Orderly := by
  unfold linuxStub
  split_ifs <;> trivial

theorem orderly_newPcapSource : (newPcapSource build cfg).Orderly := by
  unfold newPcapSource
  split_ifs
  all_goals first
    | trivial
    | exact ⟨by simp [Acquire.Nested], by simp⟩

theorem orderly_newAFPacketSource : (newAFPacketSource build sys cfg).Orderly := by
  unfold newAFPacketSource
  split_ifs
  · split
    · trivial
    · exact ⟨by simp [Acquire.Nested], by simp⟩
  · exact orderly_linuxStub build cfg _ _

theorem orderly_newEBPFSource : (newEBPFSource build sys cfg).Orderly := by
  unfold newEBPFSource
  by_cases hbuild : build.goos = bytes "linux" ∧ build.ebpf = true
  · rw [if_pos hbuild]
    exact ⟨by simp [Acquire.Nested], by simp [SourceOp.attaches]⟩
  · rw [if_neg hbuild]
    exact orderly_linuxStub build cfg _ _

theorem orderly_newEBPFSSLSource (sslCfg : SSLConfig) : (newEBPFSSLSource build sys cfg sslCfg).Orderly := by
  unfold newEBPFSSLSource
  split_ifs
  · exact ⟨by simp [Acquire.Nested], by simp⟩
  · exact ⟨by simp [Acquire.Nested], by simp⟩
  · exact orderly_linuxStub build cfg _ _

theorem orderly_newSource : (newSource build sys cfg).Orderly := by
  unfold newSource
  split_ifs
  · exact orderly_newPcapSource build cfg
  · exact orderly_newAFPacketSource build sys cfg
  · exact orderly_newEBPFSource build sys cfg
  · exact orderly_newEBPFSSLSource build sys cfg {}
  · trivial

end Orderly

/-- No operation that succeeded opens what is captured from. -/
def Untouched (o : SourceOutcome) : Prop := ∀ op ∈ o.done, op.attaches = false

namespace SourceScript

variable {sys : CaptureSystem} {script : SourceScript}

/-- Libpcap or the kernel refuse an operation, or the build has no such source. -/
def Refused (sys : CaptureSystem) : SourceScript → Prop
  | .refused _ => True
  | .steps l => ∃ s ∈ l, s.Refused sys.answer
  | .diverges => False

/-- They refuse one up to the operation that opens what is captured from. -/
def RefusedEarly (sys : CaptureSystem) : SourceScript → Prop
  | .refused _ => True
  | .steps l => ∃ s ∈ Acquire.upTo SourceOp.attaches l, s.Refused sys.answer
  | .diverges => False

theorem run_error_iff : (∃ o, script.run sys = some o ∧ o.error.isSome = true) ↔ script.Refused sys := by
  rcases script with e | l | _
  · exact iff_of_true ⟨_, rfl, rfl⟩ trivial
  · simp only [run, Option.some.injEq, exists_eq_left', Acquire.run_error_iff, Refused]
  · exact iff_of_false (by simp [run]) not_false

theorem run_untouched_iff (h : script.Orderly) :
    (∃ o, script.run sys = some o ∧ o.error.isSome = true ∧ Untouched o) ↔ script.RefusedEarly sys := by
  rcases script with e | l | _
  · exact iff_of_true ⟨_, rfl, rfl, by simp [Untouched]⟩ trivial
  · simp only [run, Option.some.injEq, exists_eq_left', RefusedEarly]
    exact Acquire.run_untouched_iff (PgShadow.Orderly.fallback h)
  · exact iff_of_false (by simp [run]) not_false

theorem closed_run (h : script.Orderly) {o : SourceOutcome} (ho : script.run sys = some o)
    (herror : o.error.isSome = true) : o.closed = o.opened.reverse := by
  rcases script with e | l | _
  · cases ho
    rfl
  · obtain rfl := Option.some.inj ho
    rw [(PgShadow.Orderly.nested h).closed_run herror, List.append_nil]
  · cases ho

end SourceScript

/-- **A failed `Open` leaves nothing open**: what it opened it has closed, the last
one first. -/
theorem failed_open_closes {build : Build} {tool : Option (Bytes → Except BPFError Unit)} {sys : CaptureSystem}
    {cfg : CaptureConfig} {o : SourceOutcome} (ho : captureOpen build tool sys cfg = some o)
    (herror : o.error.isSome = true) : o.closed = o.opened.reverse := by
  unfold captureOpen at ho
  split at ho
  · rename_i e _
    have hrefused : (SourceScript.refused (.request e)).Orderly := trivial
    exact SourceScript.closed_run hrefused ho herror
  · exact SourceScript.closed_run (orderly_newSource build sys _) ho herror

/-! ### Filters -/

section Filters

variable {build : Build} {tool : Option (Bytes → Except BPFError Unit)} {sys : CaptureSystem} {cfg : CaptureConfig}

theorem newSource_ebpf_filter (hmode : cfg.mode = bytes "ebpf" ∨ cfg.mode = bytes "ebpf_ssl") (filter : Bytes) :
    newSource build sys { cfg with bpfFilter := filter } = newSource build sys cfg := by
  have hpcap : cfg.mode ≠ bytes "pcap" := by
    rcases hmode with h | h <;> rw [h] <;> decide +kernel
  have hafpacket : cfg.mode ≠ bytes "af_packet" := by
    rcases hmode with h | h <;> rw [h] <;> decide +kernel
  simp only [newSource, if_neg hpcap, if_neg hafpacket]
  rfl

/-- The eBPF sources do not look at the filter. -/
theorem captureOpen_ebpf_filter (hiface : cfg.interface ≠ [])
    (hmode : cfg.mode = bytes "ebpf" ∨ cfg.mode = bytes "ebpf_ssl") (filter : Bytes) :
    captureOpen build tool sys { cfg with bpfFilter := filter } = captureOpen build tool sys cfg := by
  have hdefault : cfg.withDefaults.mode = cfg.mode := by
    refine if_neg ?_
    rcases hmode with h | h <;> rw [h] <;> decide +kernel
  have hsupported : captureModes.contains cfg.withDefaults.mode = true := by
    rw [hdefault]
    rcases hmode with h | h <;> rw [h] <;> decide +kernel
  have hopen : captureOpen build tool sys { cfg with bpfFilter := filter } =
      (newSource build sys { cfg with bpfFilter := filter }.withDefaults).run sys := captureOpen_eq hiface hsupported
  rw [hopen, captureOpen_eq hiface hsupported]
  exact congrArg (SourceScript.run sys) (newSource_ebpf_filter (hdefault ▸ hmode) _)

/-- An interface, a supported mode and a filter of one's own that
`QuickBPFFilterValidation` rejects. -/
structure RejectedFilter (cfg : CaptureConfig) : Prop where
  interface : cfg.interface ≠ []
  mode : captureModes.contains cfg.withDefaults.mode = true
  custom : cfg.bpfFilter ≠ []
  rejected : ∃ cause, quickBPFFilterValidation cfg.bpfFilter = .error cause

end Filters

/-- **A rejected filter is refused** exactly if libpcap or the kernel refuse an
operation of the source themselves, or the build does not have the source; and
before anything is opened exactly if they refuse one up to there. -/
theorem rejected_filter_refused_iff (build : Build) (tool : Option (Bytes → Except BPFError Unit))
    (sys : CaptureSystem) {cfg : CaptureConfig} (h : RejectedFilter cfg) :
    ((∃ o, captureOpen build tool sys cfg = some o ∧ o.error.isSome = true) ↔
        (newSource build sys cfg.withDefaults).Refused sys) ∧
      ((∃ o, captureOpen build tool sys cfg = some o ∧ o.error.isSome = true ∧ Untouched o) ↔
        (newSource build sys cfg.withDefaults).RefusedEarly sys) := by
  rw [captureOpen_eq h.interface h.mode]
  exact ⟨SourceScript.run_error_iff, SourceScript.run_untouched_iff (orderly_newSource build sys _)⟩

/-- A configuration for the interface eth0. -/
def eth0Config (mode filter : String) : CaptureConfig :=
  { interface := bytes "eth0", mode := bytes mode, bpfFilter := bytes filter, bidirectional := true }

/-- Linux with both build tags. -/
def linuxBuild : Build := { goos := bytes "linux", pcap := true, ebpf := true }

/-- Nothing is refused but filters with unbalanced parentheses. -/
def balancedOnly : CaptureSystem where
  answer
    | .setBPFFilter filter =>
      if filter.count (chr '(') = filter.count (chr ')') then none else some (bytes "syntax error")
    | _ => none
  compiled _ _ := []
  interfaceByName _ := some 2
  libSSL := bytes "/lib/libssl.so.3"

/-- The interface may not be opened. -/
def noPermission : CaptureSystem where
  answer
    | .activate => some (bytes "socket: Operation not permitted")
    | _ => none
  compiled _ _ := []
  interfaceByName _ := some 2
  libSSL := bytes "/lib/libssl.so.3"

/-- `Activate` comes before the filter is set. -/
theorem refusedEarly_of_activate {build : Build} {sys : CaptureSystem} {cfg : CaptureConfig}
    (hmode : cfg.mode = bytes "pcap") (hbuild : build.pcap = true) {cause : Bytes}
    (hactivate : sys.answer .activate = some cause) : (newSource build sys cfg).RefusedEarly sys := by
  unfold newSource newPcapSource
  rw [if_pos hmode, if_pos hbuild]
  refine ⟨{ op := .activate, closes := [.pcap], failure := errCannotOpenInterface cfg.interface }, ?_, cause, ?_⟩
  · split_ifs <;> simp [Acquire.upTo, SourceOp.attaches]
  · simp [Acquire.Step.attempt, hactivate]

theorem rejected_filter_no_permission :
    ∃ o, captureOpen linuxBuild none noPermission (eth0Config "pcap" "tcp port (5432") = some o ∧
      o.error.isSome = true ∧ Untouched o := by
  have hrejected : RejectedFilter (eth0Config "pcap" "tcp port (5432") :=
    ⟨by decide +kernel, by decide +kernel, by decide +kernel, .unbalancedParentheses 1 0, by decide +kernel⟩
  exact (rejected_filter_refused_iff linuxBuild none noPermission hrejected).2.2
    (refusedEarly_of_activate (by decide +kernel) rfl rfl)

/-- Filters that `QuickBPFFilterValidation` rejects: the XDP source opens, libpcap
takes the blank filter for no filter, and refuses the unbalanced one when the
interface is open already. -/
theorem rejected_filter_opened :
    (quickBPFFilterValidation (bytes "tcp port (5432") = .error (.unbalancedParentheses 1 0) ∧
        (captureOpen linuxBuild none balancedOnly (eth0Config "ebpf" "tcp port (5432")).map (·.error) = some none) ∧
      (quickBPFFilterValidation (bytes " ") = .error .empty ∧
        (captureOpen linuxBuild none balancedOnly (eth0Config "pcap" " ")).map (·.error) = some none) ∧
      (captureOpen linuxBuild none balancedOnly (eth0Config "pcap" "tcp port (5432")).map
          (fun o => (o.error, o.done.contains .activate)) =
        some (some (.invalidBPF (bytes "tcp port (5432") (bytes "syntax error")), true) := by
  decide +kernel

/-- libpcap refuses the filter when the interface is open. -/
theorem failed_open_closes_pcap :
    ∃ o, captureOpen linuxBuild none balancedOnly (eth0Config "pcap" "tcp port (5432") = some o ∧ o.opened ≠ [] ∧
      o.closed = o.opened.reverse :=
  ⟨_, (Option.some_get (by decide +kernel)).symm, by decide +kernel,
    failed_open_closes (Option.some_get _).symm (by decide +kernel)⟩

end PgShadow
