/-
# From reassembled TCP chunks to the stream handler

`pkg/capture/reassembler.go`: the callbacks of the TCP reassembly library, and
what they hand to the `StreamHandler`. The library delivers the chunks of each
direction in order and says with each one how many bytes are missing before it
(`Info`); `ReassembledSG` reads the direction and not this number.

The code copies bytes without looking at them, so it is modelled for any type of
bytes. With bytes that know their position in the TCP stream one can then say
what a `StreamHandler` is promised: contiguous payload, so that no message is
framed from both sides of a hole. That holds exactly as long as no bytes are
missing between bytes that are handed on: `contiguous_iff`, `gap_swallowed`.

Key definitions: `streamFactoryNew`, `reassembledSG`, `Callback.handle`, `InOrder`,
`Unbroken`.
Key theorems: `contiguous_iff`, `streamFactoryNew_swap`.
-/
import PgShadow.Pipeline.Statements

namespace PgShadow

/-! ### Streams -/

/-- The four-tuple of the packet that creates a connection. -/
structure CaptureContext where
  srcIP : Addr
  dstIP : Addr
  srcPort : UInt16
  dstPort : UInt16

/-- `stream`: both half-connections of one TCP connection. -/
structure Stream where
  conn : ConnID
  /-- The packet that created the connection went from the client to the server. -/
  firstFromClient : Bool

/-- `streamFactory.New`: the connection, oriented from the client to the server. -/
def streamFactoryNew (serverPort : UInt16) : Option CaptureContext → Stream
  | none => ⟨⟨.zero, 0, .zero, 0⟩, true⟩
  | some cc =>
    let firstFromClient :=
      if cc.dstPort = serverPort then true else if cc.srcPort = serverPort then false else true
    { conn :=
        if firstFromClient then ⟨cc.srcIP, cc.srcPort, cc.dstIP, cc.dstPort⟩
        else ⟨cc.dstIP, cc.dstPort, cc.srcIP, cc.srcPort⟩
      firstFromClient }

/-- The packet of the other direction. -/
def CaptureContext.swap (cc : CaptureContext) : CaptureContext := ⟨cc.dstIP, cc.srcIP, cc.dstPort, cc.srcPort⟩

/-- A direction relative to the packet that created the connection. -/
inductive TCPFlowDirection
  | clientToServer
  | serverToClient
deriving DecidableEq

def TCPFlowDirection.reverse : TCPFlowDirection → TCPFlowDirection
  | .clientToServer => .serverToClient
  | .serverToClient => .clientToServer

def Stream.fromClient (s : Stream) (dir : TCPFlowDirection) : Bool :=
  if dir = .serverToClient then !s.firstFromClient else s.firstFromClient

/-- **Either packet may come first.** If exactly one of the ports is the
server's, a connection has one id and its directions the same meaning whichever
side is seen first. -/
theorem streamFactoryNew_swap {serverPort : UInt16} {cc : CaptureContext}
    (h : cc.dstPort = serverPort ↔ cc.srcPort ≠ serverPort) :
    (streamFactoryNew serverPort (some cc.swap)).conn = (streamFactoryNew serverPort (some cc)).conn ∧
      ∀ dir, (streamFactoryNew serverPort (some cc.swap)).fromClient dir.reverse =
        (streamFactoryNew serverPort (some cc)).fromClient dir := by
  by_cases hdst : cc.dstPort = serverPort
  · refine ⟨by simp [streamFactoryNew, CaptureContext.swap, hdst, h.1 hdst], fun dir => ?_⟩
    cases dir <;> simp [streamFactoryNew, CaptureContext.swap, Stream.fromClient,
      TCPFlowDirection.reverse, hdst, h.1 hdst]
  · have hsrc : cc.srcPort = serverPort := not_not.1 fun hne => hdst (h.2 hne)
    refine ⟨by simp [streamFactoryNew, CaptureContext.swap, hdst, hsrc], fun dir => ?_⟩
    cases dir <;> simp [streamFactoryNew, CaptureContext.swap, Stream.fromClient, TCPFlowDirection.reverse, hdst, hsrc]

/-! ### Callbacks -/

/-- A `reassembly.ScatterGather`: what `Info` says and the bytes available. -/
structure ScatterGather (β : Type) where
  dir : TCPFlowDirection
  /-- How many bytes are missing before this chunk; -1 if that is not known. -/
  skip : ℤ
  bytes : List β
deriving DecidableEq

/-- What the handler is called with. -/
inductive Handed (β : Type)
  | onBytes (conn : ConnID) (fromClient : Bool) (data : List β)
  | onClose (conn : ConnID)

variable {β : Type}

/-- `ReassembledSG`. -/
def reassembledSG (s : Stream) (sg : ScatterGather β) : Option (Handed β) :=
  if sg.bytes.length = 0 then none else some (.onBytes s.conn (s.fromClient sg.dir) sg.bytes)

/-- `ReassemblyComplete`. -/
def reassemblyComplete (s : Stream) : Handed β := .onClose s.conn

/-- A callback of the library on one of the streams. -/
inductive Callback (β : Type)
  | reassembledSG (s : Stream) (sg : ScatterGather β)
  | reassemblyComplete (s : Stream)

def Callback.handle : Callback β → Option (Handed β)
  | .reassembledSG s sg => PgShadow.reassembledSG s sg
  | .reassemblyComplete s => some (PgShadow.reassemblyComplete s)

/-- The callback with `f` applied to its bytes. -/
def Callback.map {γ : Type} (f : β → γ) : Callback β → Callback γ
  | .reassembledSG s sg => .reassembledSG s ⟨sg.dir, sg.skip, sg.bytes.map f⟩
  | .reassemblyComplete s => .reassemblyComplete s

/-- The call that the processor gets at the time `ts`. -/
def Handed.call (ts : ℤ) : Handed UInt8 → Call
  | .onBytes c fromClient data => .onBytes c fromClient data ts
  | .onClose c => .onClose c

/-- The bytes of one direction of `c` handed on since its last close. -/
def handedOn (c : ConnID) (fromClient : Bool) (hs : List (Handed β)) : List β :=
  hs.foldl (fun acc h =>
    match h with
    | .onBytes c' d data => if c' = c ∧ d = fromClient then acc ++ data else acc
    | .onClose c' => if c' = c then [] else acc) []

/-- The chunks of one direction of `c` since its last close. -/
def chunksSince (c : ConnID) (fromClient : Bool) (evs : List (Callback β)) : List (ScatterGather β) :=
  evs.foldl (fun acc ev =>
    match ev with
    | .reassembledSG s sg => if s.conn = c ∧ s.fromClient sg.dir = fromClient then acc ++ [sg] else acc
    | .reassemblyComplete s => if s.conn = c then [] else acc) []

/-- The handler gets the bytes of every chunk. -/
theorem handedOn_eq (c : ConnID) (fromClient : Bool) (evs : List (Callback β)) :
    handedOn c fromClient (evs.filterMap Callback.handle) =
      (chunksSince c fromClient evs).flatMap ScatterGather.bytes := by
  induction evs using List.reverseRecOn with
  | nil => rfl
  | append_singleton evs ev ih =>
    unfold handedOn chunksSince at *
    rw [List.filterMap_append, List.foldl_append, ih, List.foldl_append]
    rcases ev with ⟨s, sg⟩ | s
    · by_cases hempty : sg.bytes.length = 0
      · have hnil : sg.bytes = [] := List.length_eq_zero_iff.1 hempty
        simp only [Callback.handle, reassembledSG, hempty, if_true, List.filterMap_cons, List.filterMap_nil,
          List.foldl_nil, List.foldl_cons]
        split_ifs
        · rw [List.flatMap_append, List.flatMap_singleton, hnil, List.append_nil]
        · rfl
      · simp only [Callback.handle, reassembledSG, hempty, if_false, List.filterMap_cons, List.filterMap_nil,
          List.foldl_nil, List.foldl_cons]
        split_ifs
        · rw [List.flatMap_append, List.flatMap_singleton]
        · rfl
    · simp only [Callback.handle, reassemblyComplete, List.filterMap_cons, List.filterMap_nil, List.foldl_nil,
        List.foldl_cons]
      split_ifs <;> rfl

/-! ### Positions -/

/-- The positions are consecutive. -/
def Contiguous (l : List ℕ) : Prop := ∃ a, l = List.range' a l.length

theorem Contiguous.window {l w : List ℕ} (h : Contiguous l) (hw : w <:+: l) : Contiguous w := by
  obtain ⟨a, ha⟩ := h
  obtain ⟨u, v, rfl⟩ := hw
  obtain ⟨k, -, hk, -⟩ := List.range'_eq_append_iff.1 ha.symm
  obtain ⟨j, -, -, hj⟩ := List.range'_eq_append_iff.1 hk.symm
  exact ⟨a + j * 1, by rw [hj, List.length_range']⟩

theorem eq_range'_iff_nil {l : List ℕ} {a : ℕ} (h : ∀ x ∈ l, a < x) : l = List.range' a l.length ↔ l = [] := by
  rcases l with _ | ⟨x, l⟩
  · simp
  · have hx := h x List.mem_cons_self
    simp only [List.length_cons, List.range'_succ, List.cons.injEq, reduceCtorEq, iff_false, not_and]
    intro hxa
    omega

theorem contiguous_range'_append {a n : ℕ} (hn : 0 < n) (l : List ℕ) :
    Contiguous (List.range' a n ++ l) ↔ l = List.range' (a + n) l.length := by
  constructor
  · rintro ⟨b, hb⟩
    rw [List.length_append, List.length_range', ← List.range'_append_1] at hb
    obtain ⟨h1, h2⟩ := List.append_inj hb (by simp)
    obtain rfl : a = b := by
      have hhead := congrArg List.head? h1
      rwa [List.head?_range', List.head?_range', if_neg hn.ne', if_neg hn.ne', Option.some_inj] at hhead
    exact h2
  · intro h
    refine ⟨a, ?_⟩
    rw [List.length_append, List.length_range', ← List.range'_append_1, ← h]

variable (pos : β → ℕ)

/-- What the library promises of the chunks of one direction, when `next` is the
position after the chunk before them: they are in order, and `skip` tells how
many bytes are missing, or is -1 if that is some unknown number. -/
def InOrder : ℕ → List (ScatterGather β) → Prop
  | _, [] => True
  | next, sg :: sgs => ∃ missing : ℕ, (sg.skip = missing ∨ sg.skip = -1 ∧ 0 < missing) ∧
      sg.bytes.map pos = List.range' (next + missing) sg.bytes.length ∧
      InOrder (next + missing + sg.bytes.length) sgs

/-- A chunk with bytes missing before it has nothing handed on before it, or
nothing from it on. -/
def Unbroken (sgs : List (ScatterGather β)) : Prop :=
  ∀ i < sgs.length, (sgs.map (·.skip)).getD i 0 ≠ 0 →
    (∀ sg ∈ sgs.take i, sg.bytes = []) ∨ ∀ sg ∈ sgs.drop i, sg.bytes = []

instance [DecidableEq β] (sgs : List (ScatterGather β)) : Decidable (Unbroken sgs) :=
  inferInstanceAs (Decidable (∀ i < sgs.length, _))

variable {pos}

/-- No byte lies before the first chunk. -/
theorem le_pos_cons {sg : ScatterGather β} {sgs : List (ScatterGather β)} {first : ℕ}
    (hbytes : sg.bytes.map pos = List.range' first sg.bytes.length)
    (hrest : ∀ b ∈ sgs.flatMap ScatterGather.bytes, first + sg.bytes.length ≤ pos b) :
    ∀ b ∈ (sg :: sgs).flatMap ScatterGather.bytes, first ≤ pos b := by
  intro b hb
  rw [List.flatMap_cons, List.mem_append] at hb
  rcases hb with hb | hb
  · have hmem : pos b ∈ sg.bytes.map pos := List.mem_map_of_mem hb
    rw [hbytes, List.mem_range'_1] at hmem
    exact hmem.1
  · exact le_trans (Nat.le_add_right _ _) (hrest b hb)

theorem InOrder.le_pos : ∀ {sgs : List (ScatterGather β)} {next : ℕ}, InOrder pos next sgs →
    ∀ b ∈ sgs.flatMap ScatterGather.bytes, next ≤ pos b
  | [], _, _, _, hb => absurd hb List.not_mem_nil
  | _ :: _, _, ⟨_, _, hbytes, hrest⟩, b, hb =>
    le_trans (Nat.le_add_right _ _) (le_pos_cons hbytes hrest.le_pos b hb)

/-- Once bytes were handed on, the following ones continue them exactly if no
bytes are missing before the last chunk that has any. -/
theorem continues_iff : ∀ {sgs : List (ScatterGather β)} {next : ℕ}, InOrder pos next sgs →
    ((sgs.flatMap ScatterGather.bytes).map pos =
        List.range' next ((sgs.flatMap ScatterGather.bytes).map pos).length ↔
      ∀ i < sgs.length, (sgs.map (·.skip)).getD i 0 ≠ 0 → ∀ sg ∈ sgs.drop i, sg.bytes = [])
  | [], _, _ => by simp
  | sg :: sgs, next, ⟨missing, hskip, hbytes, hrest⟩ => by
    rw [List.length_cons, Nat.forall_lt_succ_left]
    simp only [List.map_cons, List.getD_cons_zero, List.getD_cons_succ, List.drop_zero, List.drop_succ_cons]
    by_cases hzero : missing = 0
    · have hs : sg.skip = 0 := by omega
      subst hzero
      rw [Nat.add_zero] at hrest hbytes
      rw [List.flatMap_cons, List.map_append, hbytes, List.length_append, List.length_range',
        ← List.range'_append_1, List.append_cancel_left_eq, continues_iff hrest]
      simp [hs]
    · -- what follows begins after the hole
      have hs : sg.skip ≠ 0 := by omega
      have hlt : ∀ x ∈ ((sg :: sgs).flatMap ScatterGather.bytes).map pos, next < x := by
        intro x hx
        obtain ⟨b, hb, rfl⟩ := List.mem_map.1 hx
        have hle := le_pos_cons hbytes hrest.le_pos b hb
        omega
      rw [eq_range'_iff_nil hlt, List.map_eq_nil_iff, List.flatMap_eq_nil_iff]
      constructor
      · intro hall
        refine ⟨fun _ => hall, fun i _ _ sg hsg => ?_⟩
        exact hall sg (List.mem_cons_of_mem _ (List.mem_of_mem_drop hsg))
      · exact fun hall => hall.1 hs

theorem contiguous_chunks_iff : ∀ {sgs : List (ScatterGather β)} {next : ℕ}, InOrder pos next sgs →
    (Contiguous ((sgs.flatMap ScatterGather.bytes).map pos) ↔ Unbroken sgs)
  | [], _, _ => by simp [Contiguous, Unbroken]
  | sg :: sgs, next, ⟨missing, _, hbytes, hrest⟩ => by
    unfold Unbroken
    rw [List.length_cons, Nat.forall_lt_succ_left]
    simp only [List.map_cons, List.getD_cons_zero, List.getD_cons_succ, List.take_zero, List.not_mem_nil,
      false_implies, implies_true, true_or, true_and, List.take_succ_cons, List.drop_succ_cons,
      List.forall_mem_cons]
    by_cases hempty : sg.bytes = []
    · rw [List.flatMap_cons, hempty, List.nil_append, contiguous_chunks_iff hrest]
      simp [Unbroken]
    · have hpos : 0 < sg.bytes.length := List.length_pos_iff.2 hempty
      rw [List.flatMap_cons, List.map_append, hbytes, contiguous_range'_append hpos, continues_iff hrest]
      simp [hempty]

variable (pos) in
/-- **What the handler gets is contiguous** exactly if no bytes are missing
between bytes that are handed on: then and only then every run of bytes, such
as those a message is framed from, is without a hole. -/
theorem contiguous_iff (evs : List (Callback β)) (c : ConnID) (fromClient : Bool)
    (h : InOrder pos 0 (chunksSince c fromClient evs)) :
    (∀ w, w <:+: handedOn c fromClient (evs.filterMap Callback.handle) → Contiguous (w.map pos)) ↔
      Unbroken (chunksSince c fromClient evs) := by
  rw [handedOn_eq, ← contiguous_chunks_iff h]
  constructor
  · exact fun hall => hall _ (List.infix_refl _)
  · exact fun hwhole w hw => hwhole.window (hw.map pos)

/-- Two queries of a client and where each byte stands in its TCP stream. -/
def twoQueries : List (UInt8 × ℕ) :=
  (wireStartup [0, 3, 0, 0] ++ wireTyped (msgSimpleQuery, bytes "INSERT INTO t VALUES (1)\x00") ++
    wireTyped (msgSimpleQuery, bytes "UPDATE t SET a = (SELECT 5)\x00")).zipIdx

/-- The client's bytes in two chunks, without those from `i` to `j`. -/
def twoChunks (i j : ℕ) : List (Callback (UInt8 × ℕ)) :=
  [.reassembledSG ⟨someConn, true⟩ ⟨.clientToServer, 0, twoQueries.take i⟩,
    .reassembledSG ⟨someConn, true⟩ ⟨.clientToServer, (j - i : ℕ), twoQueries.drop j⟩]

theorem contiguous_two_chunks :
    Contiguous ((handedOn someConn true ((twoChunks 27 27).filterMap Callback.handle)).map Prod.snd) :=
  (contiguous_iff Prod.snd (twoChunks 27 27) someConn true
    ⟨0, Or.inl rfl, by decide +kernel, 0, Or.inl rfl, by decide +kernel, trivial⟩).2 (by decide +kernel) _
    (List.infix_refl _)

/-- The bytes from 27 to 60 are lost, the library says so, and the processor
dispatches a statement that nobody sent. -/
theorem gap_swallowed :
    InOrder Prod.snd 0 (chunksSince someConn true (twoChunks 27 60)) ∧
      ¬ Contiguous ((handedOn someConn true ((twoChunks 27 60).filterMap Callback.handle)).map Prod.snd) ∧
      (decided (effectsOf ((defaultProcessor ⟨id, id⟩ {} false).trace
        ((((twoChunks 27 60).map (Callback.map Prod.fst)).filterMap Callback.handle).map (Handed.call 0))
          someConn))).map (·.sql) = [bytes "INSERT INTO t (SELECT 5)"] := by
  have horder : InOrder Prod.snd 0 (chunksSince someConn true (twoChunks 27 60)) :=
    ⟨0, Or.inl rfl, by decide +kernel, 33, Or.inl rfl, by decide +kernel, trivial⟩
  refine ⟨horder, ?_, by decide +kernel⟩
  rw [handedOn_eq, contiguous_chunks_iff horder]
  decide +kernel

end PgShadow
