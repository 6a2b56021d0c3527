/-
# Source host and port from the configuration to the capture

Three layers fill in the BPF filter: `applyDerivedDefaults` of the configuration,
`withDefaults` of the capture, and `restartCapture`, which sets a new source host
and opens the capture again; each leaves a filter that is there already. The
first one never looks at the source host, so the filter is `tcp port P` before
the others see it, and host and source port have no effect (`source_host_iff`,
`source_host_ignored`). The direction of a segment is decided by `port`, also
where `source_port` differs.

Key definitions: `Config.serverPort`, `classifiesFromClient`.
Key theorems: `load_bpfFilter`, `pipelineRun_bpfFilter`, `source_host_iff`.
-/
import PgShadow.Capture.Reassembler
import PgShadow.Cmd.Pipeline
import PgShadow.Config.Load

namespace PgShadow

/-- The port that the source database listens on: `source_port` if set, `port`
otherwise. -/
def Config.serverPort (c : Config) : ℤ := if c.capture.sourcePort = 0 then c.capture.port else c.capture.sourcePort

/-- The server port of `NewReassembler`: `uint16(port)`. -/
def reassemblerPort (cfg : CaptureConfig) : UInt16 :=
  UInt16.ofNat ((if cfg.port = 0 then defaultPort else cfg.port) % 65536).toNat

/-- The reassembler takes the segment for one from the client. -/
def classifiesFromClient (cfg : CaptureConfig) (cc : CaptureContext) : Bool :=
  (streamFactoryNew (reassemblerPort cfg) (some cc)).fromClient .clientToServer

/-- The segment comes from or goes to the port. -/
def CaptureContext.hasPort (cc : CaptureContext) (p : ℤ) : Prop :=
  (cc.dstPort.toNat : ℤ) = p ∨ (cc.srcPort.toNat : ℤ) = p

/-! ### The filter -/

theorem space_notMem_formatInt (n : ℤ) : (32 : UInt8) ∉ formatInt n := by
  have hdigits : ∀ m : ℕ, (32 : UInt8) ∉ formatUint 10 m := by
    intro m hm
    exact absurd (digit_of_mem_formatUint hm).1 (by decide)
  unfold formatInt
  split_ifs
  · rw [List.mem_cons, not_or]
    exact ⟨by decide, hdigits _⟩
  · exact hdigits _

/-- A filter with a host is never one without. -/
theorem portFilter_ne_hostFilter (p q : ℤ) (host : Bytes) : portFilter p ≠ hostFilter q host := by
  intro he
  unfold hostFilter portFilter at he
  rw [List.append_assoc, List.append_assoc, List.append_cancel_left_eq] at he
  apply space_notMem_formatInt p
  rw [he]
  exact List.mem_append_right _ (List.mem_append_left _ (by decide +kernel))

theorem portFilter_ne_nil (p : ℤ) : portFilter p ≠ [] := by
  unfold portFilter
  exact List.append_ne_nil_of_left_ne_nil (by decide +kernel) _

/-- The derived defaults: a filter that is there stays, otherwise it is the one
for the port. -/
theorem applyDerivedDefaults_bpfFilter (raw : Config) :
    raw.applyDerivedDefaults.capture.bpfFilter =
      if raw.capture.bpfFilter = [] then portFilter raw.applyDerivedDefaults.capture.port
      else raw.capture.bpfFilter := by
  unfold Config.applyDerivedDefaults
  by_cases hempty : raw.capture.bpfFilter = []
  · simp only [hempty, if_true]
    split_ifs <;> rfl
  · simp only [hempty, if_false]
    split_ifs <;> rfl

/-- A restart does not touch the filter. -/
theorem restartCapture_bpfFilter (st : PipelineState) (newIP : Bytes) (opens : Bool) :
    (st.restartCapture newIP opens).cfg.bpfFilter = st.cfg.bpfFilter := by
  unfold PipelineState.restartCapture
  split_ifs <;> rfl

theorem request_bpfFilter (st : PipelineState) (req : CaptureRequest) :
    (st.request req).cfg.bpfFilter = st.cfg.bpfFilter := by
  rcases req with (_ | opens) | ⟨newIP, opens⟩
  · show st.pauseCapture.cfg.bpfFilter = _
    unfold PipelineState.pauseCapture
    split_ifs <;> rfl
  · show (st.resumeCapture opens).1.cfg.bpfFilter = _
    unfold PipelineState.resumeCapture
    split_ifs <;> rfl
  · exact restartCapture_bpfFilter st newIP opens

theorem pipelineStep_bpfFilter (cfg : CaptureConfig) (call : PipelineCall) {s : Process} {st' : PipelineState}
    (hs : ∀ st, s = .running st → st.cfg.bpfFilter = cfg.bpfFilter) (hstep : pipelineStep cfg s call = .running st') :
    st'.cfg.bpfFilter = cfg.bpfFilter := by
  cases s with
  | notStarted => cases call <;> cases hstep; rfl
  | panicked => cases call <;> cases hstep
  | running st =>
    rw [← hs st rfl]
    cases call with
    | startPipeline =>
      simp only [pipelineStep] at hstep
      split_ifs at hstep
      cases hstep
      rfl
    | request req =>
      cases hstep
      exact request_bpfFilter st req

/-- Neither does anything else in a run. -/
theorem pipelineRun_bpfFilter (cfg : CaptureConfig) (calls : List PipelineCall) {st : PipelineState}
    (hrun : pipelineRun cfg calls = .running st) : st.cfg.bpfFilter = cfg.bpfFilter := by
  induction calls using List.reverseRecOn generalizing st with
  | nil => cases hrun
  | append_singleton calls call ih =>
    rw [pipelineRun, List.foldl_append] at hrun
    exact pipelineStep_bpfFilter cfg call (fun _ hst => ih hst) hrun

section Load

variable {readFile : Option Bytes} {decode : Bytes → Config → Option Config} {lookupEnv : Bytes → Option Bytes}
  {data : Bytes} {raw cfg : Config}

/-- The filter of a loaded configuration, and that it is a filter. -/
theorem load_bpfFilter (hload : load readFile decode lookupEnv = .ok cfg) (hdata : readFile = some data)
    (hraw : decode data {} = some raw) :
    cfg.capture.bpfFilter ≠ [] ∧ cfg.capture.bpfFilter =
      if raw.capture.bpfFilter = [] then portFilter cfg.capture.port else raw.capture.bpfFilter := by
  obtain ⟨data', raw', password, hdata', hraw', hcfg, -⟩ := load_eq_ok hload
  obtain rfl : data = data' := Option.some_inj.1 (hdata.symm.trans hdata')
  obtain rfl : raw = raw' := Option.some_inj.1 (hraw.symm.trans hraw')
  have heq : cfg.capture.bpfFilter =
      if raw.capture.bpfFilter = [] then portFilter cfg.capture.port else raw.capture.bpfFilter := by
    rw [hcfg]
    exact applyDerivedDefaults_bpfFilter raw
  refine ⟨?_, heq⟩
  rw [heq]
  split_ifs with hempty
  · exact portFilter_ne_nil _
  · exact hempty

theorem load_port (hload : load readFile decode lookupEnv = .ok cfg) :
    1 ≤ cfg.capture.port ∧ cfg.capture.port ≤ 65535 := by
  obtain ⟨-, -, -, -, -, -, hvalid⟩ := load_eq_ok hload
  exact (validate_capture hvalid).2

/-- A filter with a host is used only if the document has it. -/
theorem filter_eq_hostFilter_iff (hload : load readFile decode lookupEnv = .ok cfg) (hdata : readFile = some data)
    (hraw : decode data {} = some raw) (host : Bytes) :
    cfg.capture.bpfFilter = hostFilter cfg.serverPort host ↔
      raw.capture.bpfFilter = hostFilter cfg.serverPort host := by
  rw [(load_bpfFilter hload hdata hraw).2]
  split_ifs with hempty
  · refine iff_of_false (portFilter_ne_hostFilter _ _ _) ?_
    rw [hempty, hostFilter]
    exact fun he => portFilter_ne_nil cfg.serverPort (List.append_eq_nil_iff.1 (List.append_eq_nil_iff.1 he.symm).1).1
  · rfl

/-! ### Directions -/

theorem reassemblerPort_toNat (hport : 1 ≤ cfg.capture.port ∧ cfg.capture.port ≤ 65535) :
    ((reassemblerPort cfg.capture).toNat : ℤ) = cfg.capture.port := by
  unfold reassemblerPort
  rw [if_neg (by omega), UInt16.toNat_ofNat']
  omega

theorem classifiesFromClient_iff (c : CaptureConfig) (cc : CaptureContext) :
    classifiesFromClient c cc = true ↔ cc.dstPort = reassemblerPort c ∨ cc.srcPort ≠ reassemblerPort c := by
  unfold classifiesFromClient streamFactoryNew Stream.fromClient
  by_cases hdst : cc.dstPort = reassemblerPort c
  · simp [hdst]
  · by_cases hsrc : cc.srcPort = reassemblerPort c
    · simp [hdst, hsrc]
    · simp [hdst, hsrc]

theorem toNat_eq_port_iff (hport : 1 ≤ cfg.capture.port ∧ cfg.capture.port ≤ 65535) (q : UInt16) :
    (q.toNat : ℤ) = cfg.capture.port ↔ q = reassemblerPort cfg.capture := by
  rw [← reassemblerPort_toNat hport, ← UInt16.toNat_inj]
  exact Int.ofNat_inj

theorem exists_third_port (a : UInt16) (p : ℤ) : ∃ q : UInt16, q ≠ a ∧ (q.toNat : ℤ) ≠ p := by
  by_contra hnone
  have hall : ∀ q : UInt16, q ≠ a → (q.toNat : ℤ) = p := fun q hq => not_not.1 fun hp => hnone ⟨q, hq, hp⟩
  by_cases h0 : (0 : UInt16) = a
  · have h1 := hall 1 (h0 ▸ by decide)
    have h2 := hall 2 (h0 ▸ by decide)
    exact absurd (h1.trans h2.symm) (by decide)
  · by_cases h1 : (1 : UInt16) = a
    · have h2 := hall 2 (h1 ▸ by decide)
      exact absurd ((hall 0 h0).trans h2.symm) (by decide)
    · exact absurd ((hall 0 h0).trans (hall 1 h1).symm) (by decide)

/-- Segments are told apart by the server's port exactly if it is `port`, or no
port at all. -/
theorem direction_iff (hport : 1 ≤ cfg.capture.port ∧ cfg.capture.port ≤ 65535) (p : ℤ) :
    (∀ cc : CaptureContext, cc.hasPort p →
        (classifiesFromClient cfg.capture cc = true ↔ (cc.dstPort.toNat : ℤ) = p)) ↔
      p = cfg.capture.port ∨ p < 0 ∨ 65535 < p := by
  constructor
  · intro hall
    by_contra hbad
    -- a segment from `p` to some third port goes for one of the client
    obtain ⟨q, hq, hqp⟩ := exists_third_port (reassemblerPort cfg.capture) p
    let cc : CaptureContext := ⟨.zero, .zero, UInt16.ofNat p.toNat, q⟩
    have hsrc : (cc.srcPort.toNat : ℤ) = p := by
      rw [UInt16.toNat_ofNat']
      omega
    have hne : cc.srcPort ≠ reassemblerPort cfg.capture := by
      rw [ne_eq, ← toNat_eq_port_iff hport, hsrc]
      tauto
    exact hqp ((hall cc (Or.inr hsrc)).1 ((classifiesFromClient_iff _ cc).2 (Or.inr hne)))
  · rintro (rfl | hrange) cc hcc
    · rw [classifiesFromClient_iff, toNat_eq_port_iff hport]
      rw [CaptureContext.hasPort, toNat_eq_port_iff hport, toNat_eq_port_iff hport] at hcc
      tauto
    · have h1 := cc.dstPort.toNat_lt
      have h2 := cc.srcPort.toNat_lt
      rcases hcc with h | h <;> omega

/-- One segment, of any two ports, is put in the right direction. -/
theorem classifies_right_iff (hport : 1 ≤ cfg.capture.port ∧ cfg.capture.port ≤ 65535) (p : ℤ) (cc : CaptureContext) :
    (classifiesFromClient cfg.capture cc = true ↔ (cc.dstPort.toNat : ℤ) = p) ↔
      if (cc.dstPort.toNat : ℤ) = p then p = cfg.capture.port ∨ (cc.srcPort.toNat : ℤ) ≠ cfg.capture.port
      else (cc.dstPort.toNat : ℤ) ≠ cfg.capture.port ∧ (cc.srcPort.toNat : ℤ) = cfg.capture.port := by
  rw [classifiesFromClient_iff, ← toNat_eq_port_iff hport, ne_eq, ← toNat_eq_port_iff hport]
  split_ifs with hdst
  · rw [hdst]
    tauto
  · tauto

/-- **Source host and port of the configuration.** For every configuration that
`Load` accepts, with server port `p` and source host `h`: the capture is opened
with the filter for `p` and `h` exactly if `bpf_filter` says so itself; after a
failover to `newIP` at any time, with the filter for `newIP` exactly if
`bpf_filter` says that. A segment is put in the right direction as `port` tells,
and all segments of `p` are exactly if `source_port` does not set another port.
Without a `bpf_filter` the filter is the one for `port` alone, from the first
opening through all failovers. -/
theorem source_host_iff (hload : load readFile decode lookupEnv = .ok cfg) (hdata : readFile = some data)
    (hraw : decode data {} = some raw) :
    (cfg.capture.withDefaults.bpfFilter = hostFilter cfg.serverPort cfg.capture.sourceHost ↔
        raw.capture.bpfFilter = hostFilter cfg.serverPort cfg.capture.sourceHost) ∧
      (∀ calls st newIP opens, pipelineRun cfg.capture calls = .running st →
        ((st.restartCapture newIP opens).cfg.withDefaults.bpfFilter = hostFilter cfg.serverPort newIP ↔
          raw.capture.bpfFilter = hostFilter cfg.serverPort newIP)) ∧
      (∀ cc : CaptureContext,
        (classifiesFromClient cfg.capture cc = true ↔ (cc.dstPort.toNat : ℤ) = cfg.serverPort) ↔
          if (cc.dstPort.toNat : ℤ) = cfg.serverPort then
            cfg.serverPort = cfg.capture.port ∨ (cc.srcPort.toNat : ℤ) ≠ cfg.capture.port
          else (cc.dstPort.toNat : ℤ) ≠ cfg.capture.port ∧ (cc.srcPort.toNat : ℤ) = cfg.capture.port) ∧
      ((∀ cc : CaptureContext, cc.hasPort cfg.serverPort →
          (classifiesFromClient cfg.capture cc = true ↔ (cc.dstPort.toNat : ℤ) = cfg.serverPort)) ↔
        cfg.serverPort = cfg.capture.port ∨ cfg.serverPort < 0 ∨ 65535 < cfg.serverPort) ∧
      (raw.capture.bpfFilter = [] → cfg.capture.withDefaults.bpfFilter = portFilter cfg.capture.port ∧
        ∀ calls st newIP opens, pipelineRun cfg.capture calls = .running st →
          (st.restartCapture newIP opens).cfg.withDefaults.bpfFilter = portFilter cfg.capture.port) := by
  obtain ⟨hne, hfilter⟩ := load_bpfFilter hload hdata hraw
  have hrestart : ∀ calls st newIP opens, pipelineRun cfg.capture calls = .running st →
      (st.restartCapture newIP opens).cfg.withDefaults.bpfFilter = cfg.capture.bpfFilter := by
    intro calls st newIP opens hrun
    have hsame : (st.restartCapture newIP opens).cfg.bpfFilter = cfg.capture.bpfFilter := by
      rw [restartCapture_bpfFilter, pipelineRun_bpfFilter _ calls hrun]
    rw [withDefaults_bpfFilter_of_ne (by rwa [hsame]), hsame]
  refine ⟨?_, ?_, classifies_right_iff (load_port hload) _, direction_iff (load_port hload) _, ?_⟩
  · rw [withDefaults_bpfFilter_of_ne hne]
    exact filter_eq_hostFilter_iff hload hdata hraw _
  · intro calls st newIP opens hrun
    rw [hrestart calls st newIP opens hrun]
    exact filter_eq_hostFilter_iff hload hdata hraw newIP
  · intro hempty
    rw [if_pos hempty] at hfilter
    rw [withDefaults_bpfFilter_of_ne hne, ← hfilter]
    exact ⟨rfl, hrestart⟩

end Load

/-- A document with a source host and no filter. -/
def sourceHostDocument (_ : Bytes) (c : Config) : Option Config :=
  some { c with
    capture := { c.capture with interface := bytes "eth0", sourceHost := bytes "10.0.0.1", sourcePort := 6432 }
    replayer :=
      { c.replayer with targetHost := bytes "shadow", targetDatabase := bytes "db", targetUser := bytes "u" } }

/-- What `Load` makes of it. -/
def sourceHostConfig : Config :=
  { capture :=
      { interface := bytes "eth0", mode := bytes "pcap", port := 5432, bpfFilter := bytes "tcp port 5432",
        bufferSize := 64 * 2 ^ 20, bidirectional := true, sourceHost := bytes "10.0.0.1", sourcePort := 6432 }
    replayer := { targetHost := bytes "shadow", targetDatabase := bytes "db", targetUser := bytes "u" }
    targetPassword := bytes "secret" }

theorem load_sourceHostDocument :
    load (some []) sourceHostDocument (fun _ => some (bytes "secret")) = .ok sourceHostConfig := by
  decide +kernel

theorem sourceHostConfig_filter : sourceHostConfig.capture.withDefaults.bpfFilter = portFilter 5432 :=
  ((source_host_iff load_sourceHostDocument rfl rfl).2.2.2.2 rfl).1

/-- The configured host and port are ignored, also after a failover, and a
segment from the server is taken for one of the client. -/
theorem source_host_ignored :
    load (some []) sourceHostDocument (fun _ => some (bytes "secret")) = .ok sourceHostConfig ∧
      sourceHostConfig.capture.withDefaults.bpfFilter = bytes "tcp port 5432" ∧
      hostFilter sourceHostConfig.serverPort sourceHostConfig.capture.sourceHost =
        bytes "tcp port 6432 and host 10.0.0.1" ∧
      ((PipelineState.startPipeline sourceHostConfig.capture 0 []).restartCapture (bytes "10.0.0.2")
        true).cfg.withDefaults.bpfFilter = bytes "tcp port 5432" ∧
      classifiesFromClient sourceHostConfig.capture ⟨.v4 0x0A000001, .v4 0x0A000009, 6432, 50000⟩ = true := by
  decide +kernel

end PgShadow
