/-
# The processor is a family of sessions

The processor keeps what a session holds in ten maps of six collaborators. Each
collaborator has a view of one connection, with a lemma for what an operation
does to the view of its own connection and one for the views of the others;
`StreamProcessor.session` puts the views together. A missing map entry stands
for the entry's default, so that closing a connection is going back to
`Session.fresh`. The event builder's own sequence numbers, which `dispatch`
overwrites, are not part of a session.

`partitioned` is the refinement: a callback of the processor is a step of the
session of its connection, and all other sessions stay as they are.

Key definitions: `StreamProcessor.session`, `StreamProcessor.env`, `Sees`.
Key theorem: `partitioned`.
-/
import PgShadow.Pipeline.Session

namespace PgShadow

namespace StateMachine

variable (m : StateMachine) {c c' : ConnID}

@[simp] theorem state_onStatement_self (cls : StmtClass) : (m.onStatement c cls).state c =
    if cls = .begin then .inTx else if cls = .commitRollback then .idle else m.state c := by
  unfold onStatement state
  by_cases hb : cls = .begin
  · simp [hb]
  · by_cases hc : cls = .commitRollback <;> simp [hc, hb]

@[simp] theorem state_onStatement_of_ne (cls : StmtClass) (h : c' ≠ c) :
    (m.onStatement c cls).state c' = m.state c' := by
  unfold onStatement state
  by_cases hb : cls = .begin
  · simp [hb, h]
  · by_cases hc : cls = .commitRollback <;> simp [hc, hb, h]

@[simp] theorem state_onReadyForQuery_self (b : UInt8) :
    (m.onReadyForQuery c b).state c = (statusOf b).getD (m.state c) := by
  unfold onReadyForQuery state
  cases statusOf b <;> simp

@[simp] theorem state_onReadyForQuery_of_ne (b : UInt8) (h : c' ≠ c) :
    (m.onReadyForQuery c b).state c' = m.state c' := by
  unfold onReadyForQuery state
  cases statusOf b <;> simp [h]

@[simp] theorem state_forget_self : (m.forget c).state c = .idle := by simp [forget, state]

@[simp] theorem state_forget_of_ne (h : c' ≠ c) : (m.forget c).state c' = m.state c' := by
  simp [forget, state, h]

end StateMachine

namespace TxIDGenerator

variable (g : TxIDGenerator) {c c' : ConnID}

@[simp] theorem currentOf_advance_self : (g.advance c).currentOf c = g.counter + 1 := by
  simp [advance, currentOf]

@[simp] theorem currentOf_advance_of_ne (h : c' ≠ c) : (g.advance c).currentOf c' = g.currentOf c' := by
  simp [advance, currentOf, h]

@[simp] theorem currentOf_reset_self : (g.reset c).currentOf c = 0 := by simp [reset, currentOf]

@[simp] theorem currentOf_reset_of_ne (h : c' ≠ c) : (g.reset c).currentOf c' = g.currentOf c' := by
  simp [reset, currentOf, h]

@[simp] theorem counter_advance : (g.advance c).counter = g.counter + 1 := rfl

@[simp] theorem counter_reset : (g.reset c).counter = g.counter := rfl

end TxIDGenerator

namespace BindCorrelator

variable (b : BindCorrelator) {c c' : ConnID}

/-- The prepared statements of a connection. -/
def stmts (c : ConnID) : GoMap Bytes ParseInfo := (b c).getD GoMap.empty

@[simp] theorem stmts_onParse_self (name sql : Bytes) (oids : List ℕ) :
    (b.onParse c name sql oids).stmts c = (b.stmts c).set name ⟨sql, oids⟩ := by
  simp [onParse, stmts]

@[simp] theorem stmts_onParse_of_ne (name sql : Bytes) (oids : List ℕ) (h : c' ≠ c) :
    (b.onParse c name sql oids).stmts c' = b.stmts c' := by
  simp [onParse, stmts, h]

@[simp] theorem stmts_forget_self : (b.forget c).stmts c = GoMap.empty := by simp [forget, stmts]

@[simp] theorem stmts_forget_of_ne (h : c' ≠ c) : (b.forget c).stmts c' = b.stmts c' := by
  simp [forget, stmts, h]

theorem onBind_eq (payload : Bytes) : b.onBind c payload =
    (parseBindMessage payload).bind fun p =>
      (b.stmts c p.1).map fun info => ⟨p.1, info.sql, zipParams info.paramOIDs p.2.1 p.2.2⟩ := by
  unfold onBind stmts
  cases parseBindMessage payload with
  | none => rfl
  | some p =>
    cases b c with
    | none => rfl
    | some stmts =>
      show (stmts p.1).bind _ = (stmts p.1).map _
      cases stmts p.1 <;> rfl

end BindCorrelator

namespace CopyTracker

variable (t : CopyTracker) {c c' : ConnID}

/-- The COPY of a connection. -/
def copying (c : ConnID) : Option Copying :=
  (t.active c).map fun b => ⟨b.sql, b.data, (t.sizes c).getD 0, (t.overflow c).getD false⟩

@[simp] theorem copying_clear_self : (t.clear c).copying c = none := by simp [clear, copying]

@[simp] theorem copying_clear_of_ne (h : c' ≠ c) : (t.clear c).copying c' = t.copying c' := by
  simp [clear, copying, h]

@[simp] theorem maxBytes_clear : (t.clear c).maxBytes = t.maxBytes := rfl

@[simp] theorem copying_start_self (sql : Bytes) : (t.start c sql).copying c = some { sql } := by
  simp [start, clear, copying]

@[simp] theorem copying_start_of_ne (sql : Bytes) (h : c' ≠ c) : (t.start c sql).copying c' = t.copying c' := by
  simp [start, clear, copying, h]

@[simp] theorem copying_data_self (payload : Bytes) :
    (t.data c payload).copying c = (t.copying c).map (Session.receive t.maxBytes · payload) := by
  unfold data copying Session.receive
  cases ha : t.active c with
  | none => simp [ha]
  | some b =>
    by_cases ho : (t.overflow c).getD false = true
    · simp [ha, ho]
    · by_cases hm : t.maxBytes < (t.sizes c).getD 0 + payload.length <;> simp [ho, hm]

/-- A chunk leaves the limit and the other connections alone. -/
theorem data_frame (c : ConnID) (payload : Bytes) : (t.data c payload).maxBytes = t.maxBytes ∧
    ∀ c' ≠ c, (t.data c payload).copying c' = t.copying c' := by
  unfold data copying
  cases t.active c with
  | none => exact ⟨rfl, fun _ _ => rfl⟩
  | some b =>
    by_cases ho : (t.overflow c).getD false = true
    · simp [ho]
    · by_cases hm : t.maxBytes < (t.sizes c).getD 0 + payload.length
      · simp +contextual [ho, hm]
      · simp +contextual [ho, hm]

@[simp] theorem copying_data_of_ne (payload : Bytes) (h : c' ≠ c) :
    (t.data c payload).copying c' = t.copying c' := (t.data_frame c payload).2 c' h

@[simp] theorem maxBytes_data (payload : Bytes) : (t.data c payload).maxBytes = t.maxBytes :=
  (t.data_frame c payload).1

theorem done_eq : t.done c =
    (t.clear c, (t.copying c).bind fun b => if b.overflow then none else some ⟨b.sql, b.data⟩) := by
  unfold done copying
  by_cases ho : (t.overflow c).getD false = true <;> cases t.active c <;> simp [ho]

end CopyTracker

namespace StreamProcessor

def env (sp : StreamProcessor) : Env := ⟨sp.cfg, sp.eb.cfg, sp.collector, sp.flt, sp.cls, sp.copies.maxBytes⟩

/-- What the processor knows of a connection. -/
def session (sp : StreamProcessor) (c : ConnID) : Session where
  client := (sp.parsersFor c).client
  server := (sp.parsersFor c).server
  status := sp.sm.state c
  tx := sp.txGen.currentOf c
  seq := (sp.seq c).getD 0
  lastSQL := (sp.lastSQL c).getD []
  stmts := sp.binder.stmts c
  copying := sp.copies.copying c
  inflight := sp.timer c

/-- What the sessions share: the configuration and the number of transaction
ids drawn. -/
def shared (sp : StreamProcessor) : Env × ℕ := (sp.env, sp.txGen.counter)

theorem groupTx_eq (sp : StreamProcessor) (c : ConnID) (cls : StmtClass) : sp.groupTx c cls =
    { sp with txGen := if (sp.session c).groups cls then sp.txGen.advance c else sp.txGen } := by
  have htx : (sp.session c).tx = sp.txGen.currentOf c := rfl
  unfold groupTx Session.groups
  rw [htx]
  by_cases hb : cls = .begin
  · simp [hb]
  · by_cases hg : sp.txGen.currentOf c = 0 ∧ (cls = .dml ∨ cls = .ddl ∨ cls = .copyFrom)
    · rw [if_neg hb, if_pos hg, if_pos (decide_eq_true (Or.inr hg))]
    · rw [if_neg hb, if_neg hg, if_neg]
      rw [decide_eq_true_iff]
      exact not_or.mpr ⟨hb, hg⟩

/-- `dispatch` in one piece. -/
theorem dispatch_eq (sp : StreamProcessor) (c : ConnID) (ev : SQLEvent) : sp.dispatch c ev =
    ({ sp with
        txGen :=
          let g := if (sp.session c).groups (sp.cls.classify ev.sql) then sp.txGen.advance c else sp.txGen
          if sp.cls.classify ev.sql = .commitRollback ∨ sp.env.resets ev.sql then g.reset c else g
        seq := sp.seq.set c ((sp.seq c).getD 0 + 1)
        lastSQL := sp.lastSQL.set c ev.sql
        sm := sp.sm.onStatement c (sp.cls.classify ev.sql)
        binder := if sp.env.resets ev.sql then sp.binder.forget c else sp.binder
        copies := if sp.env.resets ev.sql then sp.copies.discard c else sp.copies
        timer := if sp.env.resets ev.sql then sp.timer.forget c else sp.timer },
      sp.env.judge ((sp.session c).stamp sp.env sp.txGen.counter ev) (sp.session c).status) := by
  have hr : sp.env.resets ev.sql = true ↔
      sp.cfg.connectionPooler = true ∧ sp.cls.classify ev.sql = .utility ∧
        isPoolerResetQuery sp.cls.unicode ev.sql = true := decide_eq_true_iff
  have hid : (if (sp.session c).groups (sp.cls.classify ev.sql) then sp.txGen.advance c else sp.txGen).currentOf c =
      (sp.session c).txFor sp.txGen.counter (sp.cls.classify ev.sql) := by
    unfold Session.txFor
    by_cases hg : (sp.session c).groups (sp.cls.classify ev.sql) = true
    · simp [hg, TxIDGenerator.advance, TxIDGenerator.currentOf]
    · rw [if_neg hg, if_neg hg]
      rfl
  unfold dispatch
  simp only [groupTx_eq, hid]
  by_cases hres : sp.env.resets ev.sql = true
  · have hnc : sp.cls.classify ev.sql ≠ .commitRollback := by
      rw [(hr.mp hres).2.1]
      decide
    rw [if_neg hnc, if_pos (hr.mp hres), if_pos (Or.inr hres), if_pos hres, if_pos hres, if_pos hres]
    rfl
  · by_cases hc : sp.cls.classify ev.sql = .commitRollback
    · rw [if_pos hc, if_neg (fun h => hres (hr.mpr h)), if_pos (Or.inl hc), if_neg hres, if_neg hres, if_neg hres]
      rfl
    · rw [if_neg hc, if_neg (fun h => hres (hr.mpr h)), if_neg (not_or.mpr ⟨hc, hres⟩), if_neg hres, if_neg hres,
        if_neg hres]
      rfl

end StreamProcessor

/-- The processor `sp` has the configuration `E`, `l` is the session of `c`
beside the counter, and `F` are the other sessions. -/
structure Sees (E : Env) (c : ConnID) (F : ConnID → Session) (sp : StreamProcessor) (l : Session × ℕ) :
    Prop where
  env : sp.env = E
  own : sp.session c = l.1
  counter : sp.txGen.counter = l.2
  other : ∀ c', c' ≠ c → sp.session c' = F c'

theorem sees_self (sp : StreamProcessor) (c : ConnID) :
    Sees sp.env c sp.session sp (sp.session c, sp.txGen.counter) :=
  ⟨rfl, rfl, rfl, fun _ _ => rfl⟩

section Refinement

open StreamProcessor

variable {E : Env} {c : ConnID} {F : ConnID → Session} {sp : StreamProcessor} {l : Session × ℕ}

/-- An event is dispatched. -/
theorem sees_dispatch (h : Sees E c F sp l) (ev : SQLEvent) :
    Sees E c F (sp.dispatch c ev).1
        (l.1.after E l.2 ev.sql, if l.1.groups (E.cls.classify ev.sql) then l.2 + 1 else l.2) ∧
      (sp.dispatch c ev).2 = E.judge (l.1.stamp E l.2 ev) l.1.status := by
  obtain ⟨s, n⟩ := l
  obtain ⟨rfl, rfl, rfl, hother⟩ := h
  rw [dispatch_eq]
  refine ⟨?_, rfl⟩
  unfold Session.after Session.txFor
  have hcls : sp.env.cls = sp.cls := rfl
  simp only [hcls]
  generalize sp.env.resets ev.sql = res
  generalize (sp.session c).groups (sp.cls.classify ev.sql) = g
  refine ⟨?_, ?_, ?_, fun c' hc' => hother c' hc' ▸ ?_⟩
  · cases res <;> rfl
  · by_cases hc : sp.cls.classify ev.sql = .commitRollback <;> cases res <;> cases g <;>
      simp [session, hc, StreamProcessor.parsersFor, CopyTracker.discard, SourceExecTimer.forget]
  · by_cases hc : sp.cls.classify ev.sql = .commitRollback <;> cases res <;> cases g <;> simp [hc]
  · by_cases hc : sp.cls.classify ev.sql = .commitRollback <;> cases res <;> cases g <;>
      simp [session, hc, hc', StreamProcessor.parsersFor, CopyTracker.discard, SourceExecTimer.forget]

/-- The event builder's numbering is not part of a session. -/
theorem Sees.of_eb (h : Sees E c F sp l) {b : EventBuilder} (hb : b.cfg = sp.eb.cfg) :
    Sees E c F { sp with eb := b } l := by
  refine ⟨?_, h.own, h.counter, h.other⟩
  rw [← h.env]
  unfold StreamProcessor.env
  rw [hb]

theorem Sees.startTimer (h : Sees E c F sp l) (ts : ℤ) :
    Sees E c F (sp.startTimer c ts) ({ l.1 with inflight := some ts }, l.2) := by
  obtain ⟨s, n⟩ := l
  obtain ⟨rfl, rfl, rfl, hother⟩ := h
  refine ⟨rfl, ?_, rfl, fun c' hc' => hother c' hc' ▸ ?_⟩
  · simp [StreamProcessor.startTimer, session, StreamProcessor.parsersFor, SourceExecTimer.onClientQuery]
  · simp [StreamProcessor.startTimer, session, StreamProcessor.parsersFor, SourceExecTimer.onClientQuery, hc']

theorem Sees.of_copies (h : Sees E c F sp l) {t : CopyTracker} (hm : t.maxBytes = sp.copies.maxBytes)
    (ho : ∀ c', c' ≠ c → t.copying c' = sp.copies.copying c') :
    Sees E c F { sp with copies := t } ({ l.1 with copying := t.copying c }, l.2) := by
  obtain ⟨s, n⟩ := l
  obtain ⟨rfl, rfl, rfl, hother⟩ := h
  refine ⟨?_, rfl, rfl, fun c' hc' => hother c' hc' ▸ ?_⟩
  · unfold StreamProcessor.env
    rw [hm]
  · simp [session, StreamProcessor.parsersFor, ho c' hc']

theorem env_build (h : Sees E c F sp l) : E.build = sp.eb.cfg := by rw [← h.env]; rfl

theorem env_metric (h : Sees E c F sp l) (e : Effect) : sp.metric e = E.metric e := by rw [← h.env]; rfl

theorem sees_query (h : Sees E c F sp l) {msg : PGMessage} (hq : msg.type = msgSimpleQuery) (ts : ℤ) :
    Sees E c F (sp.handleClient c msg ts).1 (Session.answer E c ts l (E.request msg)).1 ∧
      (sp.handleClient c msg ts).2 = (Session.answer E c ts l (E.request msg)).2 := by
  have hne : msg.type ≠ startupMsgType ∧ msg.type ≠ msgParse ∧ msg.type ≠ msgBind ∧ msg.type ≠ msgCopyData ∧
      msg.type ≠ msgCopyDone ∧ msg.type ≠ msgCopyFail := by rw [hq]; decide
  obtain ⟨h0, hP, hB, hd, hc, hf⟩ := hne
  unfold StreamProcessor.handleClient Env.request
  rw [if_neg (fun hx => h0 hx.1), if_neg hP, if_neg hB, if_neg hd, if_neg hc, if_neg hf, if_pos hq,
    env_build h]
  by_cases hov : oversized sp.eb.cfg (extractSimpleQuerySQL msg.payload) = true
  · have hbuild : sp.build c msg ts = (sp, none, sp.metric .parseError) := by
      simp [StreamProcessor.build, EventBuilder.build, hq, hov]
    rw [hbuild, env_metric h, if_pos hov]
    exact ⟨h, rfl⟩
  · have hbuild : sp.build c msg ts =
        ({ sp with eb := (sp.eb.emit c ts (extractSimpleQuerySQL msg.payload) [] false []).1 },
          some (sp.eb.emit c ts (extractSimpleQuerySQL msg.payload) [] false []).2, []) := by
      simp [StreamProcessor.build, EventBuilder.build, hq, hov]
    have h' : Sees E c F { sp with eb := (sp.eb.emit c ts (extractSimpleQuerySQL msg.payload) [] false []).1 } l :=
      h.of_eb rfl
    have hcls : E.cls = sp.cls := by rw [← h.env]; rfl
    rw [hbuild, if_neg hov]
    by_cases hcopy : sp.cls.classify (extractSimpleQuerySQL msg.payload) = .copyFrom
    · have hs := (h'.of_copies (t := sp.copies.start c (extractSimpleQuerySQL msg.payload)) rfl
        (fun c' hc' => CopyTracker.copying_start_of_ne _ _ hc')).startTimer ts
      rw [CopyTracker.copying_start_self] at hs
      have hno : l.1.eventOf E c ts (.query (extractSimpleQuerySQL msg.payload)) = none := by
        simp only [Session.eventOf, hcls, hcopy, if_true]
      rw [Session.answer_none hno]
      simp only [EventBuilder.emit, hcopy, if_true]
      exact ⟨hs, rfl⟩
    · obtain ⟨hs, he⟩ := sees_dispatch h' { conn := c, sql := extractSimpleQuerySQL msg.payload, timestamp := ts }
      have hev : l.1.eventOf E c ts (.query (extractSimpleQuerySQL msg.payload)) =
          some { conn := c, sql := extractSimpleQuerySQL msg.payload, timestamp := ts } := by
        simp only [Session.eventOf, hcls, hcopy, if_false]
      rw [Session.answer_event hev]
      simp only [EventBuilder.emit, hcopy, if_false]
      exact ⟨hs.startTimer ts, he⟩

/-- A prepared statement is registered. -/
theorem Sees.onParse (h : Sees E c F sp l) (name sql : Bytes) (oids : List ℕ) :
    Sees E c F { sp with binder := sp.binder.onParse c name sql oids }
      ({ l.1 with stmts := l.1.stmts.set name ⟨sql, oids⟩ }, l.2) := by
  obtain ⟨s, n⟩ := l
  obtain ⟨rfl, rfl, rfl, hother⟩ := h
  refine ⟨rfl, ?_, rfl, fun c' hc' => hother c' hc' ▸ ?_⟩
  · simp [session, StreamProcessor.parsersFor]
  · simp [session, StreamProcessor.parsersFor, hc']

theorem sees_parse (h : Sees E c F sp l) {msg : PGMessage} (hp : msg.type = msgParse) (ts : ℤ) :
    Sees E c F (sp.handleClient c msg ts).1 (Session.answer E c ts l (E.request msg)).1 ∧
      (sp.handleClient c msg ts).2 = (Session.answer E c ts l (E.request msg)).2 := by
  have hne : msg.type ≠ startupMsgType ∧ msg.type ≠ msgSimpleQuery := by rw [hp]; decide
  obtain ⟨h0, hQ⟩ := hne
  unfold StreamProcessor.handleClient Env.request
  rw [if_neg (fun hx => h0 hx.1), if_pos hp, if_neg hQ, if_pos hp, env_build h]
  by_cases hx : sp.eb.cfg.extendedQuery = true
  · rw [if_neg (by simp [hx])]
    cases hm : parseParseMessage msg.payload with
    | none =>
      have hbuild : sp.build c msg ts = (sp, none, sp.metric .parseError) := by
        simp [StreamProcessor.build, EventBuilder.build, hp, hx, hm, show msgParse ≠ msgSimpleQuery by decide]
      rw [hbuild, env_metric h]
      exact ⟨h, rfl⟩
    | some p =>
      obtain ⟨name, sql, oids⟩ := p
      by_cases hov : oversized sp.eb.cfg sql = true
      · have hbuild : sp.build c msg ts = (sp, none, sp.metric .parseError) := by
          simp [StreamProcessor.build, EventBuilder.build, hp, hx, hm, hov,
            show msgParse ≠ msgSimpleQuery by decide]
        simp only [hbuild, env_metric h, hov, if_true]
        exact ⟨h, rfl⟩
      · have hbuild : sp.build c msg ts =
            ({ sp with eb := (sp.eb.emit c ts sql name true oids).1 },
              some (sp.eb.emit c ts sql name true oids).2, []) := by
          simp [StreamProcessor.build, EventBuilder.build, hp, hx, hm, hov,
            show msgParse ≠ msgSimpleQuery by decide]
        have h' : Sees E c F { sp with eb := (sp.eb.emit c ts sql name true oids).1 } l := h.of_eb rfl
        have hoids : (sp.eb.emit c ts sql name true oids).2.params.map (·.oid) = oids := by
          show (oids.map _).map _ = oids
          rw [List.map_map]
          exact List.map_id _
        simp only [hbuild, hov, hoids]
        exact ⟨h'.onParse name sql oids, rfl⟩
  · have hbuild : sp.build c msg ts = (sp, none, []) := by
      simp [StreamProcessor.build, EventBuilder.build, hp, hx, show msgParse ≠ msgSimpleQuery by decide]
    rw [hbuild, if_pos (by simp [hx])]
    exact ⟨h, rfl⟩

theorem sees_bind (h : Sees E c F sp l) {msg : PGMessage} (hb : msg.type = msgBind) (ts : ℤ) :
    Sees E c F (sp.handleClient c msg ts).1 (Session.answer E c ts l (E.request msg)).1 ∧
      (sp.handleClient c msg ts).2 = (Session.answer E c ts l (E.request msg)).2 := by
  have hne : msg.type ≠ startupMsgType ∧ msg.type ≠ msgSimpleQuery ∧ msg.type ≠ msgParse := by rw [hb]; decide
  obtain ⟨h0, hQ, hP⟩ := hne
  have hstmts : sp.binder.stmts c = l.1.stmts := by rw [← h.own]; rfl
  unfold StreamProcessor.handleClient Env.request
  rw [if_neg (fun hx => h0 hx.1), if_neg hP, if_pos hb, if_neg hQ, if_neg hP, if_pos hb,
    BindCorrelator.onBind_eq, hstmts]
  cases hm : parseBindMessage msg.payload with
  | none =>
    rw [env_metric h]
    exact ⟨h, rfl⟩
  | some p =>
    obtain ⟨name, formats, values⟩ := p
    cases hi : l.1.stmts name with
    | none =>
      have hno : l.1.eventOf E c ts (.execute name formats values) = none := by
        simp only [Session.eventOf, hi, Option.map_none]
      rw [Session.answer_none hno]
      simp only [Option.bind_some, hi, Option.map_none, env_metric h]
      exact ⟨h, rfl⟩
    | some info =>
      obtain ⟨hs, he⟩ := sees_dispatch h
        { conn := c, sql := info.sql, stmtName := name, params := zipParams info.paramOIDs formats values
          extended := true, timestamp := ts }
      have hev : l.1.eventOf E c ts (.execute name formats values) = some
          { conn := c, sql := info.sql, stmtName := name, params := zipParams info.paramOIDs formats values
            extended := true, timestamp := ts } := by
        simp only [Session.eventOf, hi, Option.map_some]
      rw [Session.answer_event hev]
      simp only [Option.bind_some, hi, Option.map_some]
      exact ⟨hs.startTimer ts, he⟩

theorem sees_copy (h : Sees E c F sp l) {msg : PGMessage}
    (hm : msg.type = msgCopyData ∨ msg.type = msgCopyDone ∨ msg.type = msgCopyFail) (ts : ℤ) :
    Sees E c F (sp.handleClient c msg ts).1 (Session.answer E c ts l (E.request msg)).1 ∧
      (sp.handleClient c msg ts).2 = (Session.answer E c ts l (E.request msg)).2 := by
  have hne : msg.type ≠ startupMsgType ∧ msg.type ≠ msgSimpleQuery ∧ msg.type ≠ msgParse ∧
      msg.type ≠ msgBind := by
    rcases hm with hm | hm | hm <;> rw [hm] <;> decide
  obtain ⟨h0, hQ, hP, hB⟩ := hne
  have hcop : sp.copies.copying c = l.1.copying := by rw [← h.own]; rfl
  have hclear := h.of_copies (t := sp.copies.clear c) rfl (fun c' hc' => CopyTracker.copying_clear_of_ne _ hc')
  rw [CopyTracker.copying_clear_self] at hclear
  unfold StreamProcessor.handleClient Env.request
  rw [if_neg (fun hx => h0 hx.1), if_neg hP, if_neg hB, if_neg hQ, if_neg hP, if_neg hB]
  rcases hm with hm | hm | hm
  · have hs := h.of_copies (t := sp.copies.data c msg.payload) (CopyTracker.maxBytes_data _ _)
      (fun c' hc' => CopyTracker.copying_data_of_ne _ _ hc')
    rw [CopyTracker.copying_data_self, hcop, show sp.copies.maxBytes = E.maxCopy by rw [← h.env]; rfl] at hs
    rw [if_pos hm, if_pos hm]
    exact ⟨hs, rfl⟩
  · have hd : msg.type ≠ msgCopyData := by rw [hm]; decide
    rw [if_neg hd, if_neg hd, if_pos hm, if_pos hm, CopyTracker.done_eq, hcop]
    cases hcp : l.1.copying with
    | none =>
      have hno : l.1.eventOf E c ts .copyDone = none := by
        simp only [Session.eventOf, hcp, Option.bind_none]
      rw [Session.answer_none hno]
      exact ⟨hclear, rfl⟩
    | some b =>
      by_cases ho : b.overflow = true
      · have hno : l.1.eventOf E c ts .copyDone = none := by
          simp only [Session.eventOf, hcp, Option.bind_some, ho, if_true]
        rw [Session.answer_none hno]
        simp only [Option.bind_some, ho, if_true]
        exact ⟨hclear, rfl⟩
      · have hev : l.1.eventOf E c ts .copyDone =
            some { conn := c, sql := b.sql, copyData := b.data, timestamp := ts } := by
          simp only [Session.eventOf, hcp, Option.bind_some, ho]
          rfl
        rw [Session.answer_event hev]
        simp only [Option.bind_some, ho]
        obtain ⟨hs, he⟩ := sees_dispatch hclear { conn := c, sql := b.sql, copyData := b.data, timestamp := ts }
        -- the source clears the tracker before it dispatches
        have hafter : ({ l.1 with copying := none } : Session).after E l.2 b.sql =
            l.1.conclude E l.2 ts b.sql .copyDone := by
          simp only [Session.conclude, Session.after, ite_self]
          rfl
        rw [hafter] at hs
        exact ⟨hs, he⟩
  · have hd : msg.type ≠ msgCopyData ∧ msg.type ≠ msgCopyDone := by rw [hm]; decide
    rw [if_neg hd.1, if_neg hd.1, if_neg hd.2, if_neg hd.2, if_pos hm, if_pos hm]
    exact ⟨hclear, rfl⟩

theorem sees_other (h : Sees E c F sp l) {msg : PGMessage}
    (hm : msg.type ≠ msgSimpleQuery ∧ msg.type ≠ msgParse ∧ msg.type ≠ msgBind ∧ msg.type ≠ msgCopyData ∧
      msg.type ≠ msgCopyDone ∧ msg.type ≠ msgCopyFail) (ts : ℤ) :
    Sees E c F (sp.handleClient c msg ts).1 (Session.answer E c ts l (E.request msg)).1 ∧
      (sp.handleClient c msg ts).2 = (Session.answer E c ts l (E.request msg)).2 := by
  obtain ⟨hQ, hP, hB, hd, hc, hf⟩ := hm
  have hbuild : sp.build c msg ts = (sp, none, []) := by
    simp [StreamProcessor.build, EventBuilder.build, hQ, hP]
  unfold StreamProcessor.handleClient Env.request
  rw [if_neg hQ, if_neg hP, if_neg hP, if_neg hB, if_neg hB, if_neg hd, if_neg hd, if_neg hc, if_neg hc,
    if_neg hf, if_neg hf, hbuild]
  by_cases hx : msg.type = startupMsgType ∧ 4 ≤ msg.payload.length ∧ uint32 msg.payload = cancelRequestCode
  · rw [if_pos hx]
    exact ⟨h, rfl⟩
  · rw [if_neg hx]
    exact ⟨h, rfl⟩

/-- A client message is an answer of the session. -/
theorem sees_handleClient (h : Sees E c F sp l) (msg : PGMessage) (ts : ℤ) :
    Sees E c F (sp.handleClient c msg ts).1 (Session.answer E c ts l (E.request msg)).1 ∧
      (sp.handleClient c msg ts).2 = (Session.answer E c ts l (E.request msg)).2 := by
  by_cases hQ : msg.type = msgSimpleQuery
  · exact sees_query h hQ ts
  by_cases hP : msg.type = msgParse
  · exact sees_parse h hP ts
  by_cases hB : msg.type = msgBind
  · exact sees_bind h hB ts
  by_cases hC : msg.type = msgCopyData ∨ msg.type = msgCopyDone ∨ msg.type = msgCopyFail
  · exact sees_copy h hC ts
  · obtain ⟨hd, hc, hf⟩ := not_or.mp hC |>.imp_right not_or.mp
    exact sees_other h ⟨hQ, hP, hB, hd, hc, hf⟩ ts

theorem sees_recordExec (h : Sees E c F sp l) (ts : ℤ) :
    Sees E c F (sp.recordExec c ts).1 ((Session.complete E l.1 ts).1, l.2) ∧
      (sp.recordExec c ts).2 = (Session.complete E l.1 ts).2 := by
  obtain ⟨s, n⟩ := l
  obtain ⟨rfl, rfl, rfl, hother⟩ := h
  have hin : (sp.session c).inflight = sp.timer c := rfl
  unfold recordExec SourceExecTimer.onBackendComplete Session.complete
  simp only [hin]
  cases ht : sp.timer c with
  | none =>
    refine ⟨⟨rfl, ?_, rfl, hother⟩, rfl⟩
    simp [session, ht, StreamProcessor.parsersFor]
  | some start =>
    refine ⟨⟨rfl, ?_, rfl, fun c' hc' => hother c' hc' ▸ ?_⟩, rfl⟩
    · simp [session, StreamProcessor.parsersFor]
    · simp [session, StreamProcessor.parsersFor, hc']

theorem Sees.of_sm (h : Sees E c F sp l) {m : StateMachine} (ho : ∀ c', c' ≠ c → m.state c' = sp.sm.state c') :
    Sees E c F { sp with sm := m } ({ l.1 with status := m.state c }, l.2) := by
  obtain ⟨s, n⟩ := l
  obtain ⟨rfl, rfl, rfl, hother⟩ := h
  refine ⟨rfl, rfl, rfl, fun c' hc' => hother c' hc' ▸ ?_⟩
  simp [session, StreamProcessor.parsersFor, ho c' hc']

/-- A server message is noted by the session. -/
theorem sees_handleServer (h : Sees E c F sp l) (msg : PGMessage) (ts : ℤ) :
    Sees E c F (sp.handleServer c msg ts).1 ((Session.note E ts l.1 msg).1, l.2) ∧
      (sp.handleServer c msg ts).2 = (Session.note E ts l.1 msg).2 := by
  unfold StreamProcessor.handleServer Session.note extractReadyForQuery
  by_cases hZ : msg.type = msgReadyForQuery
  · rw [if_pos hZ, if_pos hZ, if_pos hZ]
    cases hb : msg.payload.head? with
    | none => exact sees_recordExec h ts
    | some b =>
      have hs := h.of_sm (m := sp.sm.onReadyForQuery c b)
        (fun c' hc' => StateMachine.state_onReadyForQuery_of_ne _ _ hc')
      rw [StateMachine.state_onReadyForQuery_self, show sp.sm.state c = l.1.status by rw [← h.own]; rfl] at hs
      exact sees_recordExec hs ts
  · rw [if_neg hZ, if_neg hZ]
    by_cases hC : msg.type = msgCommandComplete
    · rw [if_pos hC, if_pos hC]
      exact sees_recordExec h ts
    · rw [if_neg hC, if_neg hC]
      exact ⟨h, rfl⟩

theorem sees_handle (fromClient : Bool) (ts : ℤ) (sp : StreamProcessor) (l : Session × ℕ) (msg : PGMessage)
    (h : Sees E c F sp l) :
    Sees E c F (sp.handle c fromClient ts msg).1 (Session.message E c fromClient ts l msg).1 ∧
      (sp.handle c fromClient ts msg).2 = (Session.message E c fromClient ts l msg).2 := by
  cases fromClient with
  | true => exact sees_handleClient h msg ts
  | false => exact sees_handleServer h msg ts

/-- The parsers of the connection move on. -/
theorem Sees.of_parsers (h : Sees E c F sp l) (fromClient : Bool) (data : Bytes) :
    Sees E c F
      { sp with
        parsers := sp.parsers.set c
          (if fromClient then { sp.parsersFor c with client := ((sp.parsersFor c).client.feed data).1 }
            else { sp.parsersFor c with server := ((sp.parsersFor c).server.feed data).1 }) }
      (l.1.fed fromClient data, l.2) := by
  obtain ⟨s, n⟩ := l
  obtain ⟨rfl, rfl, rfl, hother⟩ := h
  refine ⟨rfl, ?_, rfl, fun c' hc' => hother c' hc' ▸ ?_⟩
  · cases fromClient <;> simp [session, StreamProcessor.parsersFor, Session.fed]
  · simp [session, StreamProcessor.parsersFor, hc']

theorem sees_onBytes (h : Sees E c F sp l) (fromClient : Bool) (data : Bytes) (ts : ℤ) :
    Sees E c F (sp.onBytes c fromClient data ts).1
        ((Session.step (E, l.2) l.1 (.onBytes c fromClient data ts)).1.1,
          (Session.step (E, l.2) l.1 (.onBytes c fromClient data ts)).1.2.2) ∧
      (sp.onBytes c fromClient data ts).2 = (Session.step (E, l.2) l.1 (.onBytes c fromClient data ts)).2 := by
  have hframed : ((if fromClient then (sp.parsersFor c).client else (sp.parsersFor c).server).feed data).2 =
      l.1.framed fromClient data := by rw [← h.own]; rfl
  have hfed := h.of_parsers fromClient data
  have hm := env_metric hfed .parseError
  obtain ⟨hs, ho⟩ := Machine.simulation (sees_handle (E := E) (c := c) (F := F) fromClient ts)
    (l.1.framed fromClient data).1 _ _ hfed
  unfold StreamProcessor.onBytes Session.step
  simp only [hframed]
  cases fromClient with
  | true => exact ⟨hs, by rw [← ho, ← hm]; rfl⟩
  | false => exact ⟨hs, by rw [← ho, ← hm]; rfl⟩

theorem sees_onClose (h : Sees E c F sp l) : Sees E c F (sp.onClose c) (.fresh, l.2) := by
  obtain ⟨s, n⟩ := l
  obtain ⟨rfl, rfl, rfl, hother⟩ := h
  refine ⟨rfl, ?_, rfl, fun c' hc' => hother c' hc' ▸ ?_⟩
  · simp [session, StreamProcessor.parsersFor, StreamProcessor.onClose, Session.fresh, CopyTracker.discard,
      SourceExecTimer.forget]
  · simp [session, StreamProcessor.parsersFor, StreamProcessor.onClose, CopyTracker.discard,
      SourceExecTimer.forget, hc']

theorem sees_step (sp : StreamProcessor) (call : Call) :
    Sees sp.env call.conn sp.session (sp.step call).1
        ((Session.step sp.shared (sp.session call.conn) call).1.1,
          (Session.step sp.shared (sp.session call.conn) call).1.2.2) ∧
      (sp.step call).2 = (Session.step sp.shared (sp.session call.conn) call).2 := by
  have h := sees_self sp call.conn
  cases call with
  | onBytes c fromClient data ts => exact sees_onBytes h fromClient data ts
  | onClose c => exact ⟨sees_onClose h, rfl⟩

end Refinement

/-! ### Fresh processors and connections -/

section New

variable {U : CaseTable} {pcfg : ProtocolConfig} {fcfg : FilterConfig} {collector : Bool} {sp : StreamProcessor}

/-- A new processor knows nothing of any connection, and its builder has its
configuration. -/
theorem new_fresh (h : newStreamProcessor U pcfg fcfg collector = .ok sp) :
    (∀ c, sp.session c = .fresh) ∧ sp.env.build = pcfg := by
  unfold newStreamProcessor at h
  cases hf : newFilter U fcfg with
  | error e => rw [hf] at h; cases h
  | ok flt =>
    rw [hf] at h
    cases h
    exact ⟨fun _ => rfl, rfl⟩

theorem new_session (h : newStreamProcessor U pcfg fcfg collector = .ok sp) (c : ConnID) :
    sp.session c = .fresh :=
  (new_fresh h).1 c

theorem new_build (h : newStreamProcessor U pcfg fcfg collector = .ok sp) : sp.env.build = pcfg :=
  (new_fresh h).2

/-- What its parts are. -/
theorem new_parts (h : newStreamProcessor U pcfg fcfg collector = .ok sp) :
    sp.cfg = pcfg ∧ sp.cls.unicode = U ∧ sp.eb = newEventBuilder pcfg ∧ sp.txGen = ⟨GoMap.empty, 0⟩ := by
  unfold newStreamProcessor at h
  rcases hf : newFilter U fcfg with e | flt <;> rw [hf] at h <;> cases h
  exact ⟨rfl, rfl, rfl, rfl⟩

end New

/-- A connection without parsers starts with fresh ones. -/
theorem fresh_of_unseen {sp : StreamProcessor} {c : ConnID} (h : sp.parsers c = none) (d : Bool) :
    (sp.session c).parser d = newParser d := by
  have hp : sp.parsersFor c = ⟨newParser true, newParser false⟩ := by
    unfold StreamProcessor.parsersFor
    rw [h]
    rfl
  cases d with
  | true => exact congrArg ConnParsers.client hp
  | false => exact congrArg ConnParsers.server hp

/-- A session never changes the configuration. -/
theorem Session.step_env (r : Env × ℕ) (s : Session) (call : Call) : (Session.step r s call).1.2.1 = r.1 := by
  cases call <;> rfl

/-- **The processor is a family of sessions.** A callback is a step of the
session of its connection, and the sessions of other connections stay as they
are. -/
theorem partitioned : Machine.Partitioned StreamProcessor.step Call.conn StreamProcessor.session
    StreamProcessor.shared Session.step where
  own sp call := (sees_step sp call).1.own
  sharing sp call := by
    have h := (sees_step sp call).1
    refine Prod.ext ?_ h.counter
    rw [Session.step_env]
    exact h.env
  out sp call := (sees_step sp call).2
  other sp call c hc := (sees_step sp call).1.other c hc

end PgShadow
