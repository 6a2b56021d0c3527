/-
# The user filter

What `IncludeUsers` lets through of the events that the pipeline captures. The user
of a connection stands in its StartupMessage (`startupUser`). No event carries it:
the three places where the processor builds an event leave the user empty
(`user_of_enqueued`), and a record of the queue has no field for it
(`user_of_delivered`). So the guard looks up the empty name, and a filter that names
the user of the connection blocks all of its events, unless it names the empty user
as well (`user_filter_iff`).

Key definitions: `startupUser`, `NamesUser`, `GuardRules.OnlyUsers`.
Key theorems: `user_of_enqueued`, `user_of_delivered`, `user_filter_iff`.
-/
import PgShadow.Pipeline.Isolation
import PgShadow.Replayer.Params
import PgShadow.Replayguard.New
import PgShadow.Replayguard.ReadOnly

namespace PgShadow

/-! ### The user of a connection -/

/-- The parameters of a StartupMessage: pairs of texts, up to an empty one. -/
def startupParams : ℕ → Bytes → List (Bytes × Bytes)
  | 0, _ => []
  | n + 1, p =>
    match readCString p with
    | some (key, rest) =>
      if key = [] then []
      else
        match readCString rest with
        | some (value, rest) => (key, value) :: startupParams n rest
        | none => []
    | none => []

/-- The user of a StartupMessage of protocol 3: the server takes the last one. -/
def startupUser (payload : Bytes) : Option Bytes :=
  if payload.take 2 = [0, 3] then (startupParams payload.length (payload.drop 4)).reverse.lookup (bytes "user")
  else none

/-- A StartupMessage in the trace has a user that is one of the names, case
ignored. -/
def NamesUser (U : CaseTable) (names : List Bytes) (tr : List Obs) : Prop :=
  ∃ msg ∈ msgsOf true tr, msg.type = startupMsgType ∧
    ∃ u ∈ startupUser msg.payload, ∃ name ∈ names, toLower U name = toLower U u

/-! ### The user of an event -/

/-- **No user on an event.** Whatever the clients send, the events put on the queue
have an empty user. -/
theorem user_of_enqueued (sp : StreamProcessor) (calls : List Call) (c : ConnID) :
    ∀ ev ∈ enqueued (effectsOf (sp.trace calls c)), ev.user = [] := by
  refine trace_induction (E := sp.env) (c := c) (P := fun _ tr => ∀ ev ∈ enqueued (effectsOf tr), ev.user = [])
    ?_ ?_ (fun s tr fromClient data h => h) ?_ rfl (by simp [effectsOf]) calls
  · intro s n tr msg ts h ev hev
    rw [effectsOf_append, effectsOf_singleton, enqueued_append, List.mem_append] at hev
    rcases hev with hev | hev
    · exact h ev hev
    · exact (owner_of_answer hev).2
  · intro s tr msg ts h ev hev
    rw [enqueued_concat_server] at hev
    exact h ev hev
  · intro s tr h ev hev
    rw [effectsOf_append, effectsOf_singleton, enqueued_append, List.mem_append] at hev
    rcases hev with hev | hev
    · exact h ev hev
    · cases hev

theorem yields_user : Scan.Yields readEvent fun ev => ev.user = [] := by
  unfold readEvent
  -- one step for each field and each check
  iterate 17 refine Scan.Yields.bind fun _ => ?_
  exact Scan.Yields.pure rfl

/-- **No user in a record.** An event without a user comes out of every queue without
one; out of a file or a Kafka queue, every event does. -/
theorem user_of_delivered {b : Backend} {ev out : SQLEvent} (h : b.deliver ev = some out) (huser : ev.user = []) :
    out.user = [] := by
  have hrecord : ∀ data : Bytes, (decodeBinary data).toOption = some out → out.user = [] := by
    intro data hdata
    rcases hdec : decodeBinary data with e | ev'
    · rw [hdec] at hdata
      cases hdata
    · rw [hdec] at hdata
      cases hdata
      rw [decodeBinary] at hdec
      split at hdec
      · cases hdec
      · exact yields_user.run hdec
  cases b with
  | ringbuffer =>
    cases h
    exact huser
  | file => exact hrecord _ h
  | kafka => exact hrecord _ h

/-! ### The empty name -/

theorem encodeRune_ne_nil (r : ℕ) : encodeRune r ≠ [] := by
  unfold encodeRune
  split_ifs <;> exact List.cons_ne_nil _ _

theorem toLower_eq_nil (U : CaseTable) (s : Bytes) : toLower U s = [] ↔ s = [] := by
  rcases s with _ | ⟨b, t⟩
  · simp [toLower, mapRunes]
  · refine iff_of_false ?_ (List.cons_ne_nil b t)
    rw [toLower, mapRunes]
    exact List.append_ne_nil_of_left_ne_nil (encodeRune_ne_nil _) _

/-! ### The filter -/

variable {F : Type} [Float64 F]

/-- No rule of the guard but the user filter. -/
structure GuardRules.OnlyUsers (cfg : GuardRules F) : Prop extends cfg.NoOthers where
  rewriteTimeFunctions : cfg.rewriteTimeFunctions = false

/-- Such a guard blocks what its user filter blocks. -/
theorem GuardRules.OnlyUsers.block_iff {U : CaseTable} {R : Regexes} {cfg : GuardRules F} (h : cfg.OnlyUsers)
    {s : Guard F} (hs : s.Of U R cfg) (T : TimeTexts) (ev : SQLEvent) :
    (s.apply U T ev).1 = .block ↔ cfg.includeUsers ≠ [] ∧ toLower U ev.user ∉ cfg.includeUsers.map (toLower U) := by
  obtain ⟨g, n, hg, rfl⟩ := hs
  obtain ⟨⟨hddl, hexternal, hreadOnly, hpercentage, -, hinclude, hexclude⟩, -⟩ := h
  rw [newGuard, hinclude, hexclude] at hg
  cases hg
  rw [Guard.apply_block_iff U T .user, or_iff_left]
  · simp [Guard.blocks, Guard.userBlocks]
  · rintro ⟨rule, hrule, hblocks⟩
    cases rule with
    | user => exact hrule rfl
    | percentage => simp [Guard.blocks, Guard.percentageBlocks, Guard.samples, hpercentage] at hblocks
    | readOnly => simp [Guard.blocks, Guard.readOnlyBlocks, hreadOnly] at hblocks
    | ddl => simp [Guard.blocks, Guard.ddlBlocks, hddl] at hblocks
    | external => simp [Guard.blocks, Guard.externalBlocks, hexternal] at hblocks
    | table => simp [Guard.blocks, Guard.tableBlocks] at hblocks

/-- **The user filter.** Let a guard have no rule but a user filter that names the
user of the connection. An event that the connection put on a queue, as any queue
delivers it, passes the guard if and only if the filter names the empty user. -/
theorem user_filter_iff {U : CaseTable} {R : Regexes} {cfg : GuardRules F} (honly : cfg.OnlyUsers) {s : Guard F}
    (hs : s.Of U R cfg) (T : TimeTexts) (sp : StreamProcessor) (calls : List Call) (c : ConnID)
    (hnames : NamesUser U cfg.includeUsers (sp.trace calls c)) (b : Backend) {ev out : SQLEvent}
    (hev : ev ∈ enqueued (effectsOf (sp.trace calls c))) (hout : b.deliver ev = some out) :
    (s.apply U T out).1 ≠ .block ↔ [] ∈ cfg.includeUsers := by
  have huser : out.user = [] := user_of_delivered hout (user_of_enqueued sp calls c ev hev)
  have hne : cfg.includeUsers ≠ [] := by
    obtain ⟨-, -, -, -, -, name, hname, -⟩ := hnames
    exact List.ne_nil_of_mem hname
  rw [Ne, honly.block_iff hs, huser, (toLower_eq_nil U []).mpr rfl]
  simp [hne, toLower_eq_nil]

/-- A connection of alice that inserts a row. -/
def aliceCalls : List Call :=
  [.onBytes someConn true (wireStartup ([0, 3, 0, 0] ++ bytes "user" ++ [0] ++ bytes "alice" ++ [0, 0])) 0,
    .onBytes someConn true (wireTyped (msgSimpleQuery, bytes "INSERT INTO t VALUES (1)" ++ [0])) 1]

/-- Its event. -/
def aliceEvent : SQLEvent :=
  { conn := someConn, sql := bytes "INSERT INTO t VALUES (1)", timestamp := 1, txID := 1, seq := 1 }

def usersRules (users : List Bytes) : GuardRules ℚ :=
  { maxReplayLagSeconds := 0, replayPercentage := 0, includeUsers := users }

/-- A filter for the user and for the empty name lets the event through. -/
theorem named_with_empty :
    let T : TimeTexts := ⟨fun _ => [], fun _ => [], fun _ => []⟩
    ∃ g out, newGuard ⟨id, id⟩ noRegexes (usersRules [bytes "ALICE", []]) = some g ∧
      Backend.file.deliver aliceEvent = some out ∧ (g.apply ⟨id, id⟩ T out).1 ≠ .block := by
  intro T
  have honly : (usersRules [bytes "ALICE", []]).OnlyUsers :=
    ⟨⟨rfl, rfl, rfl, by decide +kernel, rfl, rfl, rfl⟩, rfl⟩
  have hnames : NamesUser ⟨id, id⟩ [bytes "ALICE", []]
      ((defaultProcessor ⟨id, id⟩ {} false).trace aliceCalls someConn) := by
    refine ⟨startupMsg ([0, 3, 0, 0] ++ bytes "user" ++ [0] ++ bytes "alice" ++ [0, 0]), by decide +kernel, rfl,
      bytes "alice", by decide +kernel, bytes "ALICE", List.mem_cons_self, by decide +kernel⟩
  have hdeliver : Backend.file.deliver aliceEvent = some (stored aliceEvent) := by decide +kernel
  refine ⟨_, _, rfl, hdeliver, ?_⟩
  exact (user_filter_iff honly (Guard.new_of rfl) T (defaultProcessor ⟨id, id⟩ {} false) aliceCalls someConn hnames
    .file (by decide +kernel) hdeliver).mpr (by decide +kernel)

/-- What the guard of a list of users decides on the event as a queue delivers it. -/
def aliceDecision (users : List Bytes) (b : Backend) : Option Decision := do
  let g ← newGuard ⟨id, id⟩ noRegexes (usersRules users)
  let out ← b.deliver aliceEvent
  return (g.apply ⟨id, id⟩ ⟨fun _ => [], fun _ => [], fun _ => []⟩ out).1

/-- **Counterexample**: a filter for the user blocks the event, out of every queue. -/
theorem named_user_blocked :
    let tr := (defaultProcessor ⟨id, id⟩ {} false).trace aliceCalls someConn
    (msgsOf true tr).head?.map (fun msg => (msg.type, startupUser msg.payload)) =
        some (startupMsgType, some (bytes "alice")) ∧
      enqueued (effectsOf tr) = [aliceEvent] ∧
      ∀ b : Backend, aliceDecision [bytes "Alice"] b = some .block := by
  intro tr
  refine ⟨by decide +kernel, by decide +kernel, fun b => ?_⟩
  cases b <;> decide +kernel

end PgShadow
