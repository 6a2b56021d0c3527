/-
# Session resets of a connection pooler

With `connection_pooler` on, a session-reset command is to keep the prepared
statements, the COPY in progress and the transaction of one logical session from
the next (`Isolates`). `dispatch` resets when two recognisers agree: the test of
the text's beginning, and the class of the whole text, which has to be Utility.
`pooler_reset_iff` says that the class, and a text that is not oversized, is
what it takes. DEALLOCATE ALL has class Unknown, and a batch the class of its
weightiest statement, so neither resets: `deallocate_all_leaks`.

Key definitions: `Separate`, `Isolates`.
Key theorem: `pooler_reset_iff`.
-/
import PgShadow.Pipeline.Isolation
import PgShadow.Pipeline.Statements

namespace PgShadow

/-- The client declares the statement `name`, or tries to. -/
def Obs.parses (name : Bytes) : Obs → Bool
  | .client msg _ => parsedName msg == some name
  | _ => false

/-- Nothing from before shows in the trace `v`: a Bind of a name that `v` has no
Parse for gives no event, and a CopyDone only that of a COPY begun in `v`. -/
structure Separate (E : Env) (v : List Obs) : Prop where
  binds : ∀ w msg effects x, v = w ++ .client msg effects :: x → msg.type = msgBind →
    ∀ name formats values, parseBindMessage msg.payload = some (name, formats, values) →
      (∀ o ∈ w, o.parses name = false) → decided effects = []
  copies : ∀ w msg effects x, v = w ++ .client msg effects :: x → msg.type = msgCopyDone →
    ∀ ev ∈ decided effects, Carries E w ev.sql ev.copyData

/-- Once the Simple_Query `sql` was handled, whatever came before it: nothing
from before shows any more, and no transaction group is open. -/
def Isolates (sp : StreamProcessor) (sql : Bytes) : Prop :=
  ∀ calls c u v msg effects, sp.trace calls c = u ++ .client msg effects :: v → msg.type = msgSimpleQuery →
    extractSimpleQuerySQL msg.payload = sql →
      Separate sp.env v ∧ (v = [] → (sp.run calls).txGen.currentOf c = 0)

/-! ### What a reset ends -/

theorem liveParse_after {E : Env} {u w : List Obs} {o : Obs} {name : Bytes} (ho : o.forgets E = true)
    (hw : ∀ x ∈ w, x.parses name = false) : liveParse E name (u ++ o :: w) = none := by
  induction w using List.reverseRecOn with
  | nil =>
    unfold liveParse
    rw [List.foldl_concat, if_pos ho]
  | append_singleton w x ih =>
    have hx := hw x (List.mem_append_right w (List.mem_singleton_self x))
    have hnone := ih fun y hy => hw y (List.mem_append_left _ hy)
    rw [← List.cons_append, ← List.append_assoc]
    unfold liveParse at hnone ⊢
    rw [List.foldl_concat, hnone]
    rcases x with ⟨msg, effects⟩ | ⟨msg, effects⟩ | _
    · have hname : parsedName msg ≠ some name := by simpa [Obs.parses] using hx
      simp [hname]
    · simp
    · simp

theorem Carries.after {E : Env} {u w : List Obs} {o : Obs} {sql : Bytes} {data : List Bytes}
    (h : Carries E (u ++ o :: w) sql data) (hends : o.endsCopy E = true) (hopens : o.opensCopy E = false) :
    Carries E w sql data := by
  obtain ⟨p, msg, effects, rows, heq, hreq, hcls, hpay, hno⟩ := h
  have hstart : (Obs.client msg effects).opensCopy E = true := by
    simp [Obs.opensCopy, Env.opensCopy, hreq, hcls]
  have hother : o ≠ .client msg effects := by
    rintro rfl
    rw [hstart] at hopens
    cases hopens
  -- the COPY does not begin before `o`, since `o` would have ended it
  rcases List.append_eq_append_iff.1 heq with ⟨a, rfl, hsplit⟩ | ⟨a, rfl, hsplit⟩
  · rcases a with _ | ⟨x, a⟩
    · exact absurd (List.cons.inj hsplit).1 hother
    · obtain ⟨-, rfl⟩ := List.cons.inj hsplit
      exact ⟨a, msg, effects, rows, rfl, hreq, hcls, hpay, hno⟩
  · rcases a with _ | ⟨x, a⟩
    · exact absurd (List.cons.inj hsplit).1.symm hother
    · obtain ⟨-, rfl⟩ := List.cons.inj hsplit
      have hended := (hno o (by simp)).2
      rw [hends] at hended
      cases hended

section Reset

variable {U : CaseTable} {pcfg : ProtocolConfig} {fcfg : FilterConfig} {collector : Bool} {sp : StreamProcessor}

/-- Of the reset commands, those of class Utility reset. -/
theorem resets_iff (hsp : newStreamProcessor U pcfg fcfg collector = .ok sp)
    (hpool : pcfg.connectionPooler = true) {sql : Bytes}
    (hreset : StreamProcessor.isPoolerResetQuery U sql = true) :
    sp.env.resets sql = true ↔ sp.cls.classify sql = .utility := by
  obtain ⟨hcfg, hU, -, -⟩ := new_parts hsp
  have hcfg' : sp.env.cfg.connectionPooler = true := by
    rw [show sp.env.cfg = sp.cfg from rfl, hcfg, hpool]
  have hreset' : StreamProcessor.isPoolerResetQuery sp.env.cls.unicode sql = true := by
    rw [show sp.env.cls = sp.cls from rfl, hU, hreset]
  simp only [Env.resets, hcfg', hreset', decide_eq_true_eq, true_and, and_true]
  rfl

theorem request_query (hsp : newStreamProcessor U pcfg fcfg collector = .ok sp) {msg : PGMessage}
    (hQ : msg.type = msgSimpleQuery) (hsize : oversized pcfg (extractSimpleQuerySQL msg.payload) = false) :
    sp.env.request msg = .query (extractSimpleQuerySQL msg.payload) := by
  unfold Env.request
  rw [if_pos hQ, new_build hsp]
  simp only [hsize, Bool.false_eq_true, if_false]

/-- What a run tells of one of its client messages. -/
theorem answered {calls : List Call} {c : ConnID} {u v : List Obs} {msg : PGMessage} {effects : List Effect}
    (h : sp.trace calls c = u ++ .client msg effects :: v) :
    ∃ l ts, effects = (Session.answer sp.env c ts l (sp.env.request msg)).2 := by
  obtain ⟨s, n, ts, -, heffects⟩ := trace_client (P := fun _ _ => True) (fun _ _ _ _ _ _ => trivial)
    (fun _ _ _ _ _ => trivial) (fun _ _ _ _ _ => trivial) (fun _ _ _ => trivial) rfl trivial h
  exact ⟨(s, n), ts, heffects⟩

/-- A reset is seen in the trace. -/
theorem forgets_of_resets {calls : List Call} {c : ConnID} {u v : List Obs} {msg : PGMessage}
    {effects : List Effect} (h : sp.trace calls c = u ++ .client msg effects :: v) {sql : Bytes}
    (hreq : sp.env.request msg = .query sql) (hres : sp.env.resets sql = true) :
    (Obs.client msg effects).forgets sp.env = true := by
  have hcls : sp.env.cls.classify sql ≠ .copyFrom := by
    rw [(decide_eq_true_iff.1 hres).2.1]
    decide
  obtain ⟨l, ts, rfl⟩ := answered h
  rw [forgets_answer, hreq]
  simp [Session.eventOf, hcls, hres]

/-- After a reset the connection is in no transaction group. -/
theorem tx_of_resets {calls : List Call} {c : ConnID} {u : List Obs} {msg : PGMessage} {effects : List Effect}
    (h : sp.trace calls c = u ++ [.client msg effects]) {sql : Bytes} (hreq : sp.env.request msg = .query sql)
    (hres : sp.env.resets sql = true) :
    (sp.run calls).txGen.currentOf c = 0 := by
  have hcls : sp.env.cls.classify sql ≠ .copyFrom := by
    rw [(decide_eq_true_iff.1 hres).2.1]
    decide
  refine trace_induction (E := sp.env) (c := c)
    (P := fun s tr => ∀ u msg effects, tr = u ++ [.client msg effects] → sp.env.request msg = .query sql →
      s.tx = 0)
    ?_ ?_ ?_ ?_ rfl ?_ calls u msg effects h hreq
  · intro s n tr msg ts _ u msg' effects' heq hreq
    obtain ⟨-, hlast⟩ := List.append_inj' heq rfl
    obtain ⟨rfl, -⟩ := Obs.client.inj (List.cons.inj hlast).1
    have hev : s.eventOf sp.env c ts (sp.env.request msg) = some { conn := c, sql, timestamp := ts } := by
      rw [hreq, Session.eventOf, if_neg hcls]
    rw [Session.answer_event hev]
    dsimp only
    rw [Session.conclude_tx, if_pos (Or.inr hres)]
  · intro s tr msg ts _ u msg' effects' heq
    obtain ⟨-, hlast⟩ := List.append_inj' heq rfl
    cases (List.cons.inj hlast).1
  · intro s tr fromClient data hp u msg effects heq hreq
    have htx := hp u msg effects heq hreq
    rcases fromClient with _ | _ <;> exact htx
  · intro s tr _ u msg' effects' heq
    obtain ⟨-, hlast⟩ := List.append_inj' heq rfl
    cases (List.cons.inj hlast).1
  · intro u msg effects heq
    simp at heq

/-- A reset isolates. -/
theorem isolates_of_resets (hsp : newStreamProcessor U pcfg fcfg collector = .ok sp) {sql : Bytes}
    (hsize : oversized pcfg sql = false) (hres : sp.env.resets sql = true) : Isolates sp sql := by
  rintro calls c u v msg effects htrace hQ rfl
  have hreq := request_query hsp hQ hsize
  have hforgets := forgets_of_resets htrace hreq hres
  refine ⟨⟨?_, ?_⟩, ?_⟩
  · rintro w m e x rfl hB name formats values hpayload hw
    have htrace' : sp.trace calls c = (u ++ .client msg effects :: w) ++ .client m e :: x := by
      rw [htrace, List.append_assoc, List.cons_append]
    have hdec := decided_bind hsp htrace' hB hpayload
    rw [liveParse_after hforgets hw] at hdec
    exact List.map_eq_nil_iff.1 hdec
  · rintro w m e x rfl hdone ev hev
    have htrace' : sp.trace calls c = (u ++ .client msg effects :: w) ++ .client m e :: x := by
      rw [htrace, List.append_assoc, List.cons_append]
    refine (decided_copyDone hsp htrace' hdone hev).after ?_ ?_
    · simp [Obs.endsCopy, hforgets]
    · have hcls := (decide_eq_true_iff.1 hres).2.1
      simp [Obs.opensCopy, Env.opensCopy, hreq, hcls]
  · rintro rfl
    exact tx_of_resets htrace hreq hres

/-! ### Texts that do not reset -/

/-- Only a query, a Bind or a CopyDone can forget. -/
theorem not_forgets {calls : List Call} {c : ConnID} {u v : List Obs} {msg : PGMessage} {effects : List Effect}
    (h : sp.trace calls c = u ++ .client msg effects :: v) (hB : msg.type ≠ msgBind) (hd : msg.type ≠ msgCopyDone)
    (hQ : ∀ sql, sp.env.request msg = .query sql → sp.env.resets sql = false) :
    (Obs.client msg effects).forgets sp.env = false := by
  obtain ⟨l, ts, rfl⟩ := answered h
  rw [forgets_answer]
  have hfits := sp.env.request_fits msg
  rcases hreq : sp.env.request msg with sql | ⟨name, info⟩ | ⟨name, formats, values⟩ | payload | _ | _ | _ | _
  · by_cases hcopy : sp.env.cls.classify sql = .copyFrom
    · simp [Session.eventOf, hcopy]
    · simp [Session.eventOf, hcopy, hQ sql hreq]
  · rfl
  · rw [hreq] at hfits
    exact absurd hfits.1 hB
  · rfl
  · rw [hreq] at hfits
    exact absurd hfits hd
  · rfl
  · rfl
  · rfl

theorem oversized_nil (cfg : ProtocolConfig) : oversized cfg [] = false := by
  unfold oversized effectiveMaxSQLLength
  simp only [List.length_nil, Nat.cast_zero]
  split_ifs
  all_goals simp
  all_goals omega

/-- The statement `s` is declared as `stmt`, then `sql` is sent, then `s` is executed. -/
def acrossSession (stmt sql : Bytes) : List (UInt8 × Bytes) :=
  [(msgParse, bytes "s\x00" ++ stmt ++ [0, 0, 0]), (msgSimpleQuery, sql ++ [0]),
    (msgBind, bytes "\x00s\x00\x00\x00\x00\x00")]

/-- The message that declares `s` as the empty statement. -/
def declaration : PGMessage := typedMsg (msgParse, bytes "s\x00\x00\x00\x00")

theorem request_declaration (hsp : newStreamProcessor U pcfg fcfg collector = .ok sp)
    (hext : pcfg.extendedQuery = true) : sp.env.request declaration = .prepare (bytes "s") ⟨[], []⟩ := by
  have hparse : parseParseMessage (bytes "s\x00\x00\x00\x00") = some (bytes "s", [], []) := by decide +kernel
  unfold Env.request
  rw [new_build hsp]
  simp only [declaration, typedMsg, hext, hparse, oversized_nil]
  rfl

theorem liveParse_quiet {E : Env} {name : Bytes} {o : Obs} (hf : o.forgets E = false) (hp : o.parses name = false)
    (tr : List Obs) : liveParse E name (tr ++ [o]) = liveParse E name tr := by
  unfold liveParse
  rw [List.foldl_concat, hf, if_neg Bool.false_ne_true]
  rcases o with ⟨msg, effects⟩ | ⟨msg, effects⟩ | _
  · have hname : parsedName msg ≠ some name := by simpa [Obs.parses] using hp
    exact if_neg hname
  · rfl
  · rfl

/-- The declaration is in force once it is sent. -/
theorem liveParse_declaration (hsp : newStreamProcessor U pcfg fcfg collector = .ok sp)
    (hext : pcfg.extendedQuery = true) {effects : List Effect}
    (hf : (Obs.client declaration effects).forgets sp.env = false) (tr : List Obs) :
    liveParse sp.env (bytes "s") (tr ++ [.client declaration effects]) = some ⟨[], []⟩ := by
  have hname : parsedName declaration = some (bytes "s") := by decide +kernel
  have hacc : sp.env.accepted declaration = some ⟨[], []⟩ := by
    unfold Env.accepted
    rw [request_declaration hsp hext]
  unfold liveParse
  rw [List.foldl_concat, hf, if_neg Bool.false_ne_true]
  dsimp only
  rw [if_pos hname, hacc, Option.some_or]

/-- If `sql` does not reset, the statement declared before it is executed after it. -/
theorem not_isolates (hsp : newStreamProcessor U pcfg fcfg collector = .ok sp) (hext : pcfg.extendedQuery = true)
    {sql : Bytes} (hlen : 5 + sql.length ≤ 268435456)
    (hres : oversized pcfg sql = false → sp.env.resets sql = false) : ¬ Isolates sp sql := by
  intro hiso
  have hms : ∀ m ∈ acrossSession [] sql, 4 + m.2.length ≤ 268435456 := by
    simp only [acrossSession, List.forall_mem_cons, List.length_append, List.length_singleton, List.not_mem_nil,
      false_implies, implies_true, and_true]
    exact ⟨by decide, by omega, by decide⟩
  obtain ⟨l, htrace⟩ := trace_sessionCalls (new_session hsp someConn) hms
  obtain ⟨e₀, e₁, e₂, e₃, htrace⟩ : ∃ e₀ e₁ e₂ e₃,
      sp.trace (sessionCalls someConn (acrossSession [] sql)) someConn =
        [.client (startupMsg [0, 3, 0, 0]) e₀, .client declaration e₁,
          .client (typedMsg (msgSimpleQuery, sql ++ [0])) e₂,
          .client (typedMsg (msgBind, bytes "\x00s\x00\x00\x00\x00\x00")) e₃] := ⟨_, _, _, _, htrace⟩
  have hsql : extractSimpleQuerySQL (sql ++ [0]) = sql := by
    simp [extractSimpleQuerySQL]
  have hbind : parseBindMessage (bytes "\x00s\x00\x00\x00\x00\x00") = some (bytes "s", [], []) := by
    decide +kernel
  have hnone := (hiso _ someConn [_, _] [_] _ e₂ htrace rfl hsql).1.binds [] _ e₃ [] rfl rfl (bytes "s") [] []
    hbind (by simp)
  -- the declaration is in force, and `sql` leaves it so
  have h₁ : (Obs.client declaration e₁).forgets sp.env = false :=
    not_forgets (u := [_]) htrace (by decide) (by decide) fun sql' hreq => by
      rw [request_declaration hsp hext] at hreq
      cases hreq
  have h₂ : (Obs.client (typedMsg (msgSimpleQuery, sql ++ [0])) e₂).forgets sp.env = false := by
    have hne : msgSimpleQuery ≠ msgBind ∧ msgSimpleQuery ≠ msgCopyDone := by decide
    refine not_forgets (u := [_, _]) htrace hne.1 hne.2 fun sql' hreq => ?_
    have hfits := sp.env.request_fits (typedMsg (msgSimpleQuery, sql ++ [0]))
    rw [hreq] at hfits
    obtain ⟨-, rfl, hsize⟩ := hfits
    rw [new_build hsp] at hsize
    rw [show (typedMsg (msgSimpleQuery, sql ++ [0])).payload = sql ++ [0] from rfl, hsql] at hsize ⊢
    exact hres hsize
  have hlive : liveParse sp.env (bytes "s") [.client (startupMsg [0, 3, 0, 0]) e₀, .client declaration e₁,
      .client (typedMsg (msgSimpleQuery, sql ++ [0])) e₂] = some ⟨[], []⟩ :=
    (liveParse_quiet h₂ rfl [_, _]).trans (liveParse_declaration hsp hext h₁ [_])
  have hdec := decided_bind (u := [_, _, _]) hsp htrace rfl hbind
  rw [hnone, hlive] at hdec
  cases hdec

/-- **Session resets.** With the pooler option on, a reset command isolates what
comes after it from what came before if it is of class Utility and not
oversized; with the extended protocol on, only then. -/
theorem pooler_reset_iff (hsp : newStreamProcessor U pcfg fcfg collector = .ok sp)
    (hpool : pcfg.connectionPooler = true) (sql : Bytes)
    (hreset : StreamProcessor.isPoolerResetQuery U sql = true) :
    (oversized pcfg sql = false ∧ sp.cls.classify sql = .utility → Isolates sp sql) ∧
      (pcfg.extendedQuery = true → 5 + sql.length ≤ 268435456 → Isolates sp sql →
        oversized pcfg sql = false ∧ sp.cls.classify sql = .utility) := by
  have hiff := resets_iff hsp hpool hreset
  refine ⟨fun ⟨hsize, hcls⟩ => isolates_of_resets hsp hsize (hiff.2 hcls), fun hext hlen hiso => ?_⟩
  by_contra hno
  refine not_isolates hsp hext hlen (fun hsize => ?_) hiso
  rw [← Bool.not_eq_true, hiff]
  exact fun hcls => hno ⟨hsize, hcls⟩

end Reset

/-- The processor of a capture behind a pooler. -/
def poolerProcessor : StreamProcessor := defaultProcessor ⟨id, id⟩ { connectionPooler := true } false

theorem discard_all_isolates :
    StreamProcessor.isPoolerResetQuery ⟨id, id⟩ (bytes " Discard All; SELECT 1") = true ∧
      Isolates poolerProcessor (bytes " Discard All; SELECT 1") := by
  have hreset : StreamProcessor.isPoolerResetQuery ⟨id, id⟩ (bytes " Discard All; SELECT 1") = true := by
    decide +kernel
  refine ⟨hreset, (pooler_reset_iff (new_default ⟨id, id⟩ { connectionPooler := true } false) rfl _ hreset).1 ?_⟩
  exact ⟨by decide +kernel, by decide +kernel⟩

/-- DEALLOCATE ALL is a reset command, yet the statement declared before it is
executed after it; so is the one before DISCARD ALL at the head of a batch. -/
theorem deallocate_all_leaks :
    [bytes "DEALLOCATE ALL", bytes "DISCARD ALL; INSERT INTO t VALUES (1)"].Forall fun sql =>
      let calls := sessionCalls someConn (acrossSession (bytes "DELETE FROM t") sql)
      StreamProcessor.isPoolerResetQuery ⟨id, id⟩ sql = true ∧
        (poolerProcessor.trace calls someConn).getLast?.map (fun o => (decided o.effects).map (·.sql)) =
          some [bytes "DELETE FROM t"] := by
  decide +kernel

end PgShadow
