/-
# Valid messages among bad ones

What `EventBuilder.Build` makes of a client's messages, whatever comes between them: a
query or a Parse whose SQL fits gives an event with the next number (`wanted`), a Parse
that cannot be read and SQL that is too long call the hook (`isBad`), and everything
else does nothing. One message (`build_wire`) and then a stream of them, framed from
any chunks (`valid_messages_survive`).

Key definitions: `ClientMsg`, `ClientMsg.wanted`, `ClientMsg.isBad`.
Key theorems: `build_wire`, `built_stream`, `valid_messages_survive`.
-/
import PgShadow.Protocol.BindRoundTrip
import PgShadow.Protocol.Chunks

namespace PgShadow

/-- A typed message of a client, by what it means to the builder. -/
inductive ClientMsg
  | query (sql : Bytes)
  /-- The parameter section is not looked at beyond its OIDs. -/
  | parse (stmtName sql params : Bytes) (hname : (0 : UInt8) ∉ stmtName) (hsql : (0 : UInt8) ∉ sql)
  | badParse (payload : Bytes) (hnul : payload.count 0 < 2)
  | other (type : UInt8) (payload : Bytes) (hquery : type ≠ msgSimpleQuery) (hparse : type ≠ msgParse)

namespace ClientMsg

/-- The type and the payload. -/
def wire : ClientMsg → UInt8 × Bytes
  | query sql => (msgSimpleQuery, cstring sql)
  | parse stmtName sql params _ _ => (msgParse, cstring stmtName ++ (cstring sql ++ params))
  | badParse payload _ => (msgParse, payload)
  | other type payload _ _ => (type, payload)

/-- The SQL and the statement name of a message that carries SQL. -/
def carried : ClientMsg → Option (Bytes × Bytes)
  | query sql => some (sql, [])
  | parse stmtName sql _ _ _ => some (sql, stmtName)
  | badParse _ _ | other _ _ _ _ => none

/-- The same, if the SQL is within the limit. -/
def wanted (limit : ℤ) (m : ClientMsg) : Option (Bytes × Bytes) := m.carried.filter fun x => x.1.length ≤ limit

/-- The Parse is malformed or the SQL is oversized. -/
def isBad (limit : ℤ) : ClientMsg → Bool
  | query sql | parse _ sql _ _ _ => limit < sql.length
  | badParse _ _ => true
  | other _ _ _ _ => false

end ClientMsg

/-! ### One message -/

theorem oversized_eq (cfg : ProtocolConfig) (sql : Bytes) :
    oversized cfg sql = decide (effectiveMaxSQLLength cfg < sql.length) := by
  have hpos : 0 < effectiveMaxSQLLength cfg := by
    unfold effectiveMaxSQLLength
    split_ifs <;> omega
  exact if_neg (Int.not_le.mpr hpos)

theorem extractSimpleQuerySQL_cstring (sql : Bytes) : extractSimpleQuerySQL (cstring sql) = sql := by
  unfold extractSimpleQuerySQL cstring
  rw [if_pos List.getLast?_concat, List.dropLast_concat]

/-- A text that is read has a terminator behind it. -/
theorem readCString_split {buf s rest : Bytes} (h : readCString buf = some (s, rest)) : buf = s ++ 0 :: rest := by
  have hsplit := List.takeWhile_append_dropWhile (p := (· != 0)) (l := buf)
  unfold readCString at h
  rcases hdrop : buf.dropWhile (· != 0) with _ | ⟨c, rest'⟩
  · rw [hdrop] at h
    cases h
  · rw [hdrop] at h hsplit
    obtain ⟨hs, hrest⟩ := Prod.mk.inj (Option.some.inj h)
    have hc : c = 0 := by
      have hhead := List.head?_dropWhile_not (· != 0) buf
      rw [hdrop] at hhead
      simpa using hhead
    rw [hs, hc, hrest] at hsplit
    exact hsplit.symm

/-- A Parse with fewer than two terminators cannot be read. -/
theorem parseParseMessage_bad {payload : Bytes} (h : payload.count 0 < 2) : parseParseMessage payload = none := by
  unfold parseParseMessage
  rcases hname : readCString payload with _ | ⟨stmtName, rest⟩
  · rfl
  dsimp only
  rcases hsql : readCString rest with _ | ⟨sql, rest'⟩
  · rfl
  · rw [readCString_split hname, readCString_split hsql] at h
    simp only [List.count_append, List.count_cons_self] at h
    omega

/-- The OIDs do not matter for what is read of a Parse. -/
theorem parseParseMessage_good {stmtName sql : Bytes} (params : Bytes) (hname : (0 : UInt8) ∉ stmtName)
    (hsql : (0 : UInt8) ∉ sql) :
    ∃ oids, parseParseMessage (cstring stmtName ++ (cstring sql ++ params)) = some (stmtName, sql, oids) := by
  unfold parseParseMessage
  rw [(reads_cstring hname).append]
  dsimp only
  rw [(reads_cstring hsql).append]
  dsimp only
  rcases readInt16 params with _ | ⟨n, rest⟩
  · exact ⟨_, rfl⟩
  · exact ⟨_, rfl⟩

/-- The builder's answer to a message. -/
structure BuildAnswer (b : EventBuilder) (conn : ConnID) (m : ClientMsg) (r : EventBuilder × Built) : Prop where
  cfg : r.1.cfg = b.cfg
  parseError : r.2.parseError = m.isBad (effectiveMaxSQLLength b.cfg)
  event : r.2.event.map (fun ev => (ev.sql, ev.stmtName, ev.seq)) =
    (m.wanted (effectiveMaxSQLLength b.cfg)).map fun x => (x.1, x.2, (b.seq conn).getD 0 + 1)
  next : (r.1.seq conn).getD 0 = (b.seq conn).getD 0 + (m.wanted (effectiveMaxSQLLength b.cfg)).toList.length

theorem wanted_eq {m : ClientMsg} {sql stmtName : Bytes} (h : m.carried = some (sql, stmtName)) (limit : ℤ) :
    m.wanted limit = if limit < sql.length then none else some (sql, stmtName) := by
  unfold ClientMsg.wanted
  by_cases hlarge : limit < sql.length
  · rw [h, if_pos hlarge]
    simp [Option.filter, Int.not_le.mpr hlarge]
  · rw [h, if_neg hlarge]
    simp [Option.filter, Int.not_lt.mp hlarge]

/-- The answer to SQL: an event with the next number, unless it is oversized. -/
theorem buildAnswer_carried {b : EventBuilder} {conn : ConnID} {m : ClientMsg} {sql stmtName : Bytes}
    (hcarried : m.carried = some (sql, stmtName))
    (hbad : m.isBad (effectiveMaxSQLLength b.cfg) = decide (effectiveMaxSQLLength b.cfg < sql.length))
    (ts : ℤ) (extended : Bool) (oids : List ℕ) :
    BuildAnswer b conn m (if oversized b.cfg sql then (b, ⟨none, true⟩)
      else ((b.emit conn ts sql stmtName extended oids).1,
        ⟨some (b.emit conn ts sql stmtName extended oids).2, false⟩)) := by
  have hwanted := wanted_eq hcarried (effectiveMaxSQLLength b.cfg)
  rw [oversized_eq]
  by_cases hlarge : effectiveMaxSQLLength b.cfg < sql.length
  · rw [if_pos hlarge] at hwanted
    rw [if_pos (decide_eq_true hlarge)]
    exact ⟨rfl, by rw [hbad, decide_eq_true hlarge], by rw [hwanted]; rfl, by rw [hwanted]; rfl⟩
  · rw [if_neg hlarge] at hwanted
    rw [if_neg (by simpa using hlarge)]
    refine ⟨rfl, by rw [hbad, decide_eq_false hlarge], by rw [hwanted]; rfl, ?_⟩
    rw [hwanted]
    exact congrArg (Option.getD · 0) (GoMap.set_self ..)

theorem buildAnswer_nothing {b : EventBuilder} {conn : ConnID} {m : ClientMsg} (hcarried : m.carried = none)
    {bad : Bool} (hbad : m.isBad (effectiveMaxSQLLength b.cfg) = bad) : BuildAnswer b conn m (b, ⟨none, bad⟩) := by
  have hwanted : m.wanted (effectiveMaxSQLLength b.cfg) = none := by
    rw [ClientMsg.wanted, hcarried]
    rfl
  exact ⟨rfl, hbad.symm, by rw [hwanted]; rfl, by rw [hwanted]; rfl⟩

theorem build_query (b : EventBuilder) (conn : ConnID) {msg : PGMessage} (ts : ℤ) {sql : Bytes}
    (htype : msg.type = msgSimpleQuery) (hsql : extractSimpleQuerySQL msg.payload = sql) :
    b.build conn msg ts =
      if oversized b.cfg sql then (b, ⟨none, true⟩)
      else ((b.emit conn ts sql [] false []).1, ⟨some (b.emit conn ts sql [] false []).2, false⟩) := by
  subst hsql
  exact if_pos htype

theorem build_badParse {b : EventBuilder} (hext : b.cfg.extendedQuery = true) (conn : ConnID) {msg : PGMessage} (ts : ℤ)
    (htype : msg.type = msgParse) (hparsed : parseParseMessage msg.payload = none) :
    b.build conn msg ts = (b, ⟨none, true⟩) := by
  rw [EventBuilder.build, if_neg (by rw [htype]; decide), if_pos htype, if_neg (by simp [hext]), hparsed]

theorem build_parse {b : EventBuilder} (hext : b.cfg.extendedQuery = true) (conn : ConnID) {msg : PGMessage} (ts : ℤ)
    {stmtName sql : Bytes} {oids : List ℕ} (htype : msg.type = msgParse)
    (hparsed : parseParseMessage msg.payload = some (stmtName, sql, oids)) :
    b.build conn msg ts =
      if oversized b.cfg sql then (b, ⟨none, true⟩)
      else ((b.emit conn ts sql stmtName true oids).1,
        ⟨some (b.emit conn ts sql stmtName true oids).2, false⟩) := by
  rw [EventBuilder.build, if_neg (by rw [htype]; decide), if_pos htype, if_neg (by simp [hext]), hparsed]

theorem build_other (b : EventBuilder) (conn : ConnID) {msg : PGMessage} (ts : ℤ) (hquery : msg.type ≠ msgSimpleQuery)
    (hparse : msg.type ≠ msgParse) : b.build conn msg ts = (b, ⟨none, false⟩) := by
  rw [EventBuilder.build, if_neg hquery, if_neg hparse]

/-- **One message.** -/
theorem build_wire (b : EventBuilder) (hext : b.cfg.extendedQuery = true) (conn : ConnID) (m : ClientMsg) (ts : ℤ) :
    BuildAnswer b conn m (b.build conn (typedMsg m.wire) ts) := by
  cases m with
  | query sql =>
    rw [build_query b conn ts rfl (extractSimpleQuerySQL_cstring sql)]
    exact buildAnswer_carried rfl rfl ts false []
  | parse stmtName sql params hname hsql =>
    obtain ⟨oids, hread⟩ := parseParseMessage_good params hname hsql
    rw [build_parse hext conn ts rfl hread]
    exact buildAnswer_carried rfl rfl ts true oids
  | badParse payload hnul =>
    rw [build_badParse hext conn ts rfl (parseParseMessage_bad hnul)]
    exact buildAnswer_nothing rfl rfl
  | other type payload hquery hparse =>
    rw [build_other b conn ts hquery hparse]
    exact buildAnswer_nothing rfl rfl

/-! ### Streams -/

/-- `Build` as a machine, on messages with the times they came at. -/
def buildStep (conn : ConnID) (b : EventBuilder) (input : PGMessage × ℤ) : EventBuilder × Built :=
  b.build conn input.1 input.2

/-- What the events of a stream say: their SQL, statement name and number. -/
def announced (outs : List Built) : List (Bytes × Bytes × ℕ) :=
  outs.filterMap fun r => r.event.map fun ev => (ev.sql, ev.stmtName, ev.seq)

/-- The wanted messages, numbered from `n + 1`. -/
def numbered (n : ℕ) (xs : List (Bytes × Bytes)) : List (Bytes × Bytes × ℕ) :=
  (xs.zipIdx (n + 1)).map fun x => (x.1.1, x.1.2, x.2)

/-- **A stream of messages.** The induction carries the number of the last event. -/
theorem built_stream (conn : ConnID) : ∀ (ms : List ClientMsg) (tss : List ℤ) (b : EventBuilder),
    b.cfg.extendedQuery = true → tss.length = ms.length →
      let limit := effectiveMaxSQLLength b.cfg
      let outs := Machine.outs (buildStep conn) b ((ms.map (typedMsg ·.wire)).zip tss)
      announced outs = numbered ((b.seq conn).getD 0) (ms.filterMap (·.wanted limit)) ∧
        outs.map (·.event.isSome) = ms.map (fun m => (m.wanted limit).isSome) ∧
        outs.map (·.parseError) = ms.map (·.isBad limit)
  | [], _, _, _, _ => ⟨rfl, rfl, rfl⟩
  | m :: ms, [], _, _, hlen => by cases hlen
  | m :: ms, ts :: tss, b, hext, hlen => by
    intro limit outs
    obtain ⟨hcfg, herror, hevent, hnext⟩ := build_wire b hext conn m ts
    have ih := built_stream conn ms tss (b.build conn (typedMsg m.wire) ts).1 (by rw [hcfg, hext]) (Nat.succ.inj hlen)
    rw [hcfg] at ih
    obtain ⟨hevents, hsome, hbad⟩ := ih
    have houts : outs = (b.build conn (typedMsg m.wire) ts).2 :: Machine.outs (buildStep conn)
        (b.build conn (typedMsg m.wire) ts).1 ((ms.map (typedMsg ·.wire)).zip tss) := rfl
    rw [houts]
    refine ⟨?_, ?_, ?_⟩
    · rw [announced, List.filterMap_cons, hevent, ← announced, hevents, hnext, List.filterMap_cons]
      rcases m.wanted limit with _ | x
      · rfl
      · rfl
    · rw [List.map_cons, List.map_cons, hsome,
        ← Option.isSome_map (f := fun ev : SQLEvent => (ev.sql, ev.stmtName, ev.seq)), hevent, Option.isSome_map]
    · rw [List.map_cons, List.map_cons, hbad, herror]

/-- **Valid messages survive any number of bad neighbours.** -/
theorem valid_messages_survive (cfg : ProtocolConfig) (hext : cfg.extendedQuery = true) (conn : ConnID)
    (startup : Bytes) (hstartup : ¬Negotiates startup) (hstartupLen : 4 + startup.length ≤ 268435456)
    (ms : List ClientMsg) (hms : ∀ m ∈ ms, 4 + m.wire.2.length ≤ 268435456) (cs : List Bytes)
    (hcs : cs.flatten = wireStartup startup ++ ms.flatMap (wireTyped ·.wire))
    (tss : List ℤ) (htss : tss.length = (fedMsgs (newParser true) cs).length) :
    let limit := effectiveMaxSQLLength cfg
    let outs := Machine.outs (buildStep conn) (newEventBuilder cfg) ((fedMsgs (newParser true) cs).zip tss)
    announced outs = numbered 0 (ms.filterMap (·.wanted limit)) ∧
      outs.map (·.event.isSome) = false :: ms.map (fun m => (m.wanted limit).isSome) ∧
      outs.map (·.parseError) = false :: ms.map (·.isBad limit) := by
  intro limit outs
  have hfed : fedMsgs (newParser true) cs = startupMsg startup :: ms.map (typedMsg ·.wire) := by
    have hwire := @fed_client_wire [] startup (ms.map (·.wire)) cs (fun _ hb => absurd hb List.not_mem_nil) hstartup
      (by simpa using hstartupLen) (by simpa using hms) (by rw [hcs, List.flatMap_map]; rfl)
    rw [hwire.1, List.map_map]
    rfl
  obtain _ | ⟨ts, tss⟩ := tss
  · rw [hfed] at htss
    cases htss
  rw [hfed] at htss
  obtain ⟨hevents, hsome, hbad⟩ := built_stream conn ms tss (newEventBuilder cfg) hext (by simpa using htss)
  have houts : outs = ⟨none, false⟩ :: Machine.outs (buildStep conn) (newEventBuilder cfg)
      ((ms.map (typedMsg ·.wire)).zip tss) := by
    show Machine.outs (buildStep conn) (newEventBuilder cfg) ((fedMsgs (newParser true) cs).zip (ts :: tss)) = _
    rw [hfed, List.zip_cons_cons, Machine.outs_cons, buildStep,
      build_other _ conn ts (show startupMsgType ≠ _ by decide) (show startupMsgType ≠ _ by decide)]
  rw [houts]
  exact ⟨hevents, congrArg (false :: ·) hsome, congrArg (false :: ·) hbad⟩

/-- A query, a malformed Parse, an oversized query, an unknown type and a Parse. -/
def mixedMsgs : List ClientMsg :=
  [.query (bytes "a"), .badParse (bytes "x") (by decide), .query (bytes "long"),
    .other (chr 'X') [] (by decide) (by decide), .parse (bytes "s") (bytes "b") [] (by decide) (by decide)]

theorem mixed_survivors :
    let cs := [wireStartup [0, 3, 0, 0], mixedMsgs.flatMap (wireTyped ·.wire)]
    let inputs := (fedMsgs (newParser true) cs).zip (List.replicate (fedMsgs (newParser true) cs).length 0)
    let outs := Machine.outs (buildStep ⟨.v4 1, 50000, .v4 2, 5432⟩) (newEventBuilder { maxSQLLength := 3 }) inputs
    announced outs = [(bytes "a", [], 1), (bytes "b", bytes "s", 2)] ∧
      outs.map (·.parseError) = [false, false, true, true, false, false] := by
  intro cs inputs outs
  obtain ⟨hevents, -, hbad⟩ := valid_messages_survive { maxSQLLength := 3 } rfl ⟨.v4 1, 50000, .v4 2, 5432⟩ [0, 3, 0, 0]
    (by decide) (by decide) mixedMsgs (by decide) cs (by simp [cs]) (List.replicate _ 0) List.length_replicate
  exact ⟨hevents.trans (by decide), hbad.trans (by decide)⟩

end PgShadow
