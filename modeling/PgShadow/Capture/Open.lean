/-
# Opening a capture source

`pkg/capture/capture.go` and `bpf_validator.go`: the defaults of a capture
configuration, the BPF filter built from it, and the checks that `Open` makes
before it hands the configuration to the source of its mode. Whether that
source opens is the operating system's affair.

`withDefaults` fills in the filter, so the validation of a custom filter in
`Open` compares the filter with itself and is never reached (`buildBPFFilter_withDefaults`).

Key definitions: `CaptureConfig`, `buildBPFFilter`, `CaptureConfig.withDefaults`, `openRequest`.
-/
import Mathlib.Algebra.Order.Group.Int
import PgShadow.Go.Netip
import PgShadow.Go.Strings

namespace PgShadow

/-- `%d`. -/
def formatInt (n : ℤ) : Bytes := if n < 0 then chr '-' :: formatUint 10 n.natAbs else formatUint 10 n.natAbs

/-- `capture.Config`. -/
structure CaptureConfig where
  interface : Bytes := []
  port : ℤ := 0
  mode : Bytes := []
  bpfFilter : Bytes := []
  bufferSize : ℤ := 0
  bidirectional : Bool := false
  snapLen : ℤ := 0
  sourceHost : Bytes := []
  sourcePort : ℤ := 0
deriving DecidableEq

abbrev defaultPort : ℤ := 5432

/-- The filter for one port. -/
def portFilter (port : ℤ) : Bytes := bytes "tcp port " ++ formatInt port

/-- The filter for one port and host. -/
def hostFilter (port : ℤ) (host : Bytes) : Bytes := portFilter port ++ bytes " and host " ++ host

/-- The configured filter, or one built from port and source host. -/
def buildBPFFilter (cfg : CaptureConfig) : Bytes :=
  if cfg.bpfFilter ≠ [] then cfg.bpfFilter
  else
    let port := if cfg.port = 0 then defaultPort else cfg.port
    if cfg.sourceHost ≠ [] then hostFilter (if cfg.sourcePort = 0 then port else cfg.sourcePort) cfg.sourceHost
    else portFilter port

def CaptureConfig.withDefaults (c : CaptureConfig) : CaptureConfig :=
  let out : CaptureConfig :=
    { c with
      mode := if c.mode = [] then bytes "pcap" else c.mode
      port := if c.port = 0 then defaultPort else c.port
      bufferSize := if c.bufferSize = 0 then 64 * 2 ^ 20 else c.bufferSize
      snapLen := if c.snapLen = 0 then 65536 else c.snapLen }
  { out with bpfFilter := buildBPFFilter out }

/-- Why `QuickBPFFilterValidation` rejects a filter. -/
inductive BPFError
  | empty
  | unbalancedParentheses (openCount closeCount : ℕ)
  | unbalancedQuotes
  | emptyParentheses
  | tooLong
  | tool (message : Bytes)
deriving DecidableEq

def quickBPFFilterValidation (filter : Bytes) : Except BPFError Unit :=
  let openCount := filter.count (chr '(')
  let closeCount := filter.count (chr ')')
  if trimSpace filter = [] then .error .empty
  else if openCount ≠ closeCount then .error (.unbalancedParentheses openCount closeCount)
  else if filter.count (chr '\'') % 2 ≠ 0 then .error .unbalancedQuotes
  else if (indexOf (bytes "()") filter).isSome then .error .emptyParentheses
  else if 4096 < filter.length then .error .tooLong
  else .ok ()

inductive CaptureError
  | cannotOpenInterface (iface : Bytes)
  | invalidMode (mode : Bytes)
  | invalidBPF (filter : Bytes) (cause : BPFError)
deriving DecidableEq

def captureModes : List Bytes := List.map bytes ["pcap", "af_packet", "ebpf", "ebpf_ssl"]

/-- `Open` up to the source of the mode: the configuration that the source is
opened with. `tool` is what tcpdump says of a filter, if it is installed. -/
def openRequest (tool : Option (Bytes → Except BPFError Unit)) (cfg : CaptureConfig) :
    Except CaptureError CaptureConfig :=
  let cfg := cfg.withDefaults
  if cfg.interface = [] then .error (.cannotOpenInterface (bytes "<empty>"))
  else if !captureModes.contains cfg.mode then .error (.invalidMode cfg.mode)
  else if cfg.bpfFilter ≠ [] ∧ cfg.bpfFilter ≠ buildBPFFilter cfg then
    match quickBPFFilterValidation cfg.bpfFilter, tool with
    | .error e, _ => .error (.invalidBPF cfg.bpfFilter e)
    | .ok _, none => .ok cfg
    | .ok _, some validate =>
      match validate cfg.bpfFilter with
      | .error e => .error (.invalidBPF cfg.bpfFilter e)
      | .ok _ => .ok cfg
  else .ok cfg

theorem buildBPFFilter_of_ne {cfg : CaptureConfig} (h : cfg.bpfFilter ≠ []) : buildBPFFilter cfg = cfg.bpfFilter :=
  if_pos h

theorem withDefaults_bpfFilter_of_ne {c : CaptureConfig} (h : c.bpfFilter ≠ []) :
    c.withDefaults.bpfFilter = c.bpfFilter :=
  buildBPFFilter_of_ne h

/-- After the defaults the filter is the built one. -/
theorem buildBPFFilter_withDefaults (c : CaptureConfig) (h : c.withDefaults.bpfFilter ≠ []) :
    buildBPFFilter c.withDefaults = c.withDefaults.bpfFilter :=
  buildBPFFilter_of_ne h

end PgShadow
