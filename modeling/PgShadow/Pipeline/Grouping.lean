/-
# Transaction groups

Transaction ids are drawn from one counter by all connections. The events that
the processor dispatches, over all connections and in order, are the acts of a
ticket machine (`Lib.Tickets`): BEGIN opens a group, a DML, DDL or COPY wants
one, COMMIT, ROLLBACK or a pooler's reset query closes it, and closing a
connection gives its number back (`follows_actIn_run`). What holds of tickets then
holds of transaction ids (`grouped`). Ids are unbounded here; the source counts
in 64 bits, so this is about the first 2^64 - 1 ids.

Key definitions: `Entry`, `StreamProcessor.log`, `Entry.actIn`, `Follows`.
Key theorems: `follows_actIn_run`, `grouped`.
-/
import PgShadow.Lib.Tickets
import PgShadow.Pipeline.Isolation

namespace PgShadow

/-- What a run shows of transactions: a dispatched event, or a close. -/
inductive Entry
  | event (ev : SQLEvent)
  | close (c : ConnID)
deriving DecidableEq

/-- What a callback shows. -/
def entriesOf : Call × StreamProcessor.Report → List Entry
  | (.onBytes _ _ _ _, r) => (decided r.effects).map .event
  | (.onClose c, _) => [.close c]

/-- The dispatched events of all connections and the closes, in order. -/
def StreamProcessor.log (sp : StreamProcessor) (calls : List Call) : List Entry :=
  (calls.zip (Machine.outs StreamProcessor.step sp calls)).flatMap entriesOf

/-- The events of a log. -/
def eventsOf (l : List Entry) : List SQLEvent :=
  l.filterMap fun
    | .event ev => some ev
    | .close _ => none

/-! ### Events as acts of the ticket machine -/

/-- What an entry does to the groups of its connection. -/
def Entry.act (cls : Classifier) : Entry → Tickets.Act ConnID
  | .event ev =>
    let k := cls.classify ev.sql
    .stamp ev.conn (k = .begin) (k = .dml ∨ k = .ddl ∨ k = .copyFrom) (k = .commitRollback)
  | .close c => .forget c

/-- The number an entry carries. -/
def Entry.number : Entry → ℕ
  | .event ev => ev.txID
  | .close _ => 0

/-- The numbers of the connections. -/
def StreamProcessor.tickets (sp : StreamProcessor) : Tickets.State ConnID :=
  ⟨sp.txGen.counter, fun c => (sp.session c).tx⟩

/-- What an entry does to the groups of its connection, where a pooler's reset query
ends one too. -/
def Entry.actIn (E : Env) : Entry → Tickets.Act ConnID
  | .event ev =>
    let k := E.cls.classify ev.sql
    .stamp ev.conn (k = .begin) (k = .dml ∨ k = .ddl ∨ k = .copyFrom) (k = .commitRollback ∨ E.resets ev.sql)
  | .close c => .forget c

theorem Entry.actIn_of_pooler_off {E : Env} (hpool : E.cfg.connectionPooler = false) :
    Entry.actIn E = Entry.act E.cls := by
  funext e
  cases e with
  | event ev => simp [Entry.actIn, Entry.act, Env.resets, hpool]
  | close c => rfl

/-- The entries, read as acts, lead from `s` to `s'`, with the numbers they carry. -/
structure Follows (act : Entry → Tickets.Act ConnID) (s : Tickets.State ConnID) (l : List Entry)
    (s' : Tickets.State ConnID) : Prop where
  final : Machine.final Tickets.step s (l.map act) = s'
  outs : Machine.outs Tickets.step s (l.map act) = l.map Entry.number

theorem Follows.nil (act : Entry → Tickets.Act ConnID) (s : Tickets.State ConnID) : Follows act s [] s := ⟨rfl, rfl⟩

theorem Follows.append {act : Entry → Tickets.Act ConnID} {s s' s'' : Tickets.State ConnID} {l l' : List Entry}
    (h : Follows act s l s') (h' : Follows act s' l' s'') : Follows act s (l ++ l') s'' := by
  refine ⟨?_, ?_⟩
  · rw [List.map_append, Machine.final_append, h.final, h'.final]
  · rw [List.map_append, Machine.outs_append, h.outs, h.final, h'.outs, List.map_append]

/-- **What a message does to the transaction of its connection**: nothing, or it gives
one event. -/
theorem tx_message (E : Env) (c : ConnID) (fromClient : Bool) (ts : ℤ) (l : Session × ℕ) (msg : PGMessage) :
    let r := Session.message E c fromClient ts l msg
    (decided r.2 = [] ∧ r.1.1.tx = l.1.tx ∧ r.1.2 = l.2) ∨
      ∃ ev, decided r.2 = [ev] ∧ ev.conn = c ∧ ev.txID = l.1.txFor l.2 (E.cls.classify ev.sql) ∧
        r.1.1.tx = (if E.cls.classify ev.sql = .commitRollback ∨ E.resets ev.sql then 0 else ev.txID) ∧
        r.1.2 = if l.1.groups (E.cls.classify ev.sql) then l.2 + 1 else l.2 := by
  rcases fromClient with _ | _
  · obtain ⟨status, inflight, hnote⟩ := Session.note_frame E ts l.1 msg
    refine Or.inl ⟨(silent_note E ts l.1 msg).1, ?_, rfl⟩
    show (Session.note E ts l.1 msg).1.tx = l.1.tx
    rw [hnote]
  · have hdec := decided_answer E c ts l (E.request msg)
    rcases hev : l.1.eventOf E c ts (E.request msg) with _ | ev
    · rw [hev] at hdec
      refine Or.inl ⟨hdec, ?_, ?_⟩
      · show (Session.answer E c ts l (E.request msg)).1.1.tx = l.1.tx
        rw [Session.answer_none hev]
        rcases E.request msg with _ | _ | _ | _ | _ | _ | _ | _ <;> rfl
      · show (Session.answer E c ts l (E.request msg)).1.2 = l.2
        rw [Session.answer_none hev]
    · rw [hev] at hdec
      refine Or.inr ⟨l.1.stamp E l.2 ev, hdec, ((owner_of_eventOf hev).1 : ev.conn = c), rfl, ?_, ?_⟩
      · show (Session.answer E c ts l (E.request msg)).1.1.tx = _
        rw [Session.answer_event hev]
        dsimp only
        rw [Session.conclude_tx]
        rfl
      · show (Session.answer E c ts l (E.request msg)).1.2 = _
        rw [Session.answer_event hev]
        rfl

namespace StreamProcessor

/-- What is seen of a connection, as tickets. -/
theorem tickets_of_sees {E : Env} {c : ConnID} {sp sp' : StreamProcessor} {l : Session × ℕ}
    (h : Sees E c sp.session sp' l) : sp'.tickets = ⟨l.2, Function.update sp.tickets.current c l.1.tx⟩ := by
  unfold tickets
  rw [h.counter]
  congr 1
  funext c'
  by_cases hc : c' = c
  · rw [hc, h.own, Function.update_self]
  · rw [h.other c' hc, Function.update_of_ne hc]

/-- A session draws an id when the ticket machine does. -/
theorem draws_eq (sp : StreamProcessor) (c : ConnID) (k : StmtClass) :
    sp.tickets.draws c (k = .begin) (k = .dml ∨ k = .ddl ∨ k = .copyFrom) = (sp.session c).groups k := by
  rw [Bool.eq_iff_iff]
  simp only [Tickets.State.draws, tickets, Session.groups, Bool.or_eq_true, Bool.and_eq_true, decide_eq_true_eq,
    beq_iff_eq]
  rw [and_comm]

/-- The event of a connection is its act. -/
theorem step_act {sp : StreamProcessor} {c : ConnID} {ev : SQLEvent} (hconn : ev.conn = c)
    (hid : ev.txID = (sp.session c).txFor sp.txGen.counter (sp.cls.classify ev.sql)) :
    Tickets.step sp.tickets (Entry.actIn sp.env (.event ev)) =
      (⟨if (sp.session c).groups (sp.cls.classify ev.sql) then sp.txGen.counter + 1 else sp.txGen.counter,
        Function.update sp.tickets.current c
          (if sp.cls.classify ev.sql = .commitRollback ∨ sp.env.resets ev.sql then 0 else ev.txID)⟩, ev.txID) := by
  simp only [Entry.actIn, Tickets.step, Tickets.State.number, hconn, hid, Session.txFor, decide_eq_true_eq,
    show sp.env.cls = sp.cls from rfl, draws_eq]
  rfl

/-- One message: a dispatched event is an act of its connection. -/
theorem follows_handle (sp : StreamProcessor) (c : ConnID) (fromClient : Bool) (ts : ℤ) (msg : PGMessage) :
    Follows (Entry.actIn sp.env) sp.tickets ((decided (sp.handle c fromClient ts msg).2).map .event)
      (sp.handle c fromClient ts msg).1.tickets := by
  obtain ⟨hs, ho⟩ := sees_handle fromClient ts sp _ msg (sees_self sp c)
  rw [ho, tickets_of_sees hs]
  rcases tx_message sp.env c fromClient ts (sp.session c, sp.txGen.counter) msg with
    ⟨hdec, htx, hn⟩ | ⟨ev, hdec, hconn, hid, htx, hn⟩
  · rw [hdec, htx, hn, show (sp.session c).tx = sp.tickets.current c from rfl, Function.update_eq_self]
    exact Follows.nil _ _
  · rw [hdec, htx, hn]
    have hstep := step_act hconn hid
    exact ⟨congrArg Prod.fst hstep, congrArg (fun r : Tickets.State ConnID × ℕ => [r.2]) hstep⟩

/-- The messages of a call. -/
theorem follows_messages {E : Env} (c : ConnID) (fromClient : Bool) (ts : ℤ) :
    ∀ (ms : List PGMessage) (sp : StreamProcessor) {s : Tickets.State ConnID}, sp.env = E → sp.tickets = s →
    Follows (Entry.actIn E) s
      ((decided (Machine.outs (fun sp msg => handle sp c fromClient ts msg) sp ms).flatten).map .event)
      (Machine.final (fun sp msg => handle sp c fromClient ts msg) sp ms).tickets
  | [], sp, _, _, hs => hs ▸ Follows.nil _ _
  | msg :: ms, sp, _, henv, hs => by
    have henv' : (sp.handle c fromClient ts msg).1.env = sp.env :=
      (sees_handle fromClient ts sp _ msg (sees_self sp c)).1.env
    have hrest := follows_messages c fromClient ts ms (sp.handle c fromClient ts msg).1 (henv'.trans henv) rfl
    have hfirst := follows_handle sp c fromClient ts msg
    rw [henv, hs] at hfirst
    have happ := hfirst.append hrest
    rwa [← List.map_append, ← decided_append] at happ

theorem decided_onBytes (sp : StreamProcessor) (c : ConnID) (fromClient : Bool) (data : Bytes) (ts : ℤ) :
    decided (sp.onBytes c fromClient data ts).2.effects =
      decided ((sp.onBytes c fromClient data ts).2.handled.flatMap (·.2)) := by
  have herr : decided (sp.onBytes c fromClient data ts).2.errEffects = [] := by
    unfold onBytes metric
    dsimp only
    split_ifs <;> rfl
  rw [Report.effects, decided_append, herr, List.nil_append]

theorem follows_step (sp : StreamProcessor) (call : Call) :
    Follows (Entry.actIn sp.env) sp.tickets (entriesOf (call, (sp.step call).2)) (sp.step call).1.tickets := by
  rcases call with ⟨c, fromClient, data, ts⟩ | c
  · show Follows _ _ ((decided (sp.onBytes c fromClient data ts).2.effects).map .event)
      (sp.onBytes c fromClient data ts).1.tickets
    rw [decided_onBytes]
    unfold onBytes
    dsimp only
    rw [List.flatMap_def, List.map_snd_zip (by rw [Machine.length_outs])]
    exact follows_messages c fromClient ts _ _ rfl rfl
  · exact ⟨(tickets_of_sees (sees_onClose (sees_self sp c))).symm, rfl⟩

/-- **The log is a run of the ticket machine.** -/
theorem follows_actIn_run : ∀ (calls : List Call) (sp : StreamProcessor),
    Follows (Entry.actIn sp.env) sp.tickets (sp.log calls) (sp.run calls).tickets
  | [], sp => Follows.nil _ _
  | call :: calls, sp => by
    have henv : (sp.step call).1.env = sp.env := (sees_step sp call).1.env
    have hrest := follows_actIn_run calls (sp.step call).1
    rw [henv] at hrest
    exact (follows_step sp call).append hrest

/-- With the pooler option off only COMMIT and ROLLBACK close a group. -/
theorem follows_run (calls : List Call) (sp : StreamProcessor) (hpool : sp.cfg.connectionPooler = false) :
    Follows (Entry.act sp.cls) sp.tickets (sp.log calls) (sp.run calls).tickets := by
  have hrun := follows_actIn_run calls sp
  rwa [Entry.actIn_of_pooler_off hpool] at hrun

end StreamProcessor

/-! ### Groups -/

def Entry.conn : Entry → ConnID
  | .event ev => ev.conn
  | .close c => c

section Follows

variable {act : Entry → Tickets.Act ConnID} {s s' : Tickets.State ConnID} {l l' : List Entry}

theorem Follows.stamps (howner : ∀ e, (act e).owner = e.conn) (h : Follows act s l s') :
    Tickets.stamps s (l.map act) = l.map fun e => (e.conn, e.number) := by
  unfold Tickets.stamps
  rw [h.outs, List.map_map, List.zip_map']
  exact List.map_congr_left fun e _ => by rw [Function.comp_apply, howner]

theorem Follows.split (h : Follows act s (l ++ l') s') :
    Follows act s l (Machine.final Tickets.step s (l.map act)) ∧
      Follows act (Machine.final Tickets.step s (l.map act)) l' s' := by
  obtain ⟨hf, ho⟩ := h
  rw [List.map_append, Machine.final_append] at hf
  rw [List.map_append, Machine.outs_append, List.map_append] at ho
  obtain ⟨ho, ho'⟩ := List.append_inj ho (by rw [Machine.length_outs, List.length_map, List.length_map])
  exact ⟨⟨rfl, ho⟩, ⟨hf, ho'⟩⟩

theorem Follows.head {e : Entry} (h : Follows act s (e :: l) s') :
    (Tickets.step s (act e)).2 = e.number ∧ Follows act (Tickets.step s (act e)).1 l s' := by
  obtain ⟨hf, ho⟩ := h
  obtain ⟨ho, ho'⟩ := List.cons.inj ho
  exact ⟨ho, ⟨hf, ho'⟩⟩

variable {cls : Classifier}

theorem Entry.owner_act (e : Entry) : (Entry.act cls e).owner = e.conn := by
  cases e <;> rfl

end Follows

theorem mem_eventsOf {l : List Entry} {ev : SQLEvent} : ev ∈ eventsOf l ↔ .event ev ∈ l := by
  unfold eventsOf
  rw [List.mem_filterMap]
  constructor
  · rintro ⟨e | c, he, heq⟩
    · rwa [← Option.some.inj heq]
    · cases heq
  · exact fun h => ⟨_, h, rfl⟩

/-- The acts between a BEGIN and the end of its group. -/
theorem within_of_open {cls : Classifier} {c : ConnID} {between : List Entry} (hclose : .close c ∉ between)
    (hopen : ∀ x ∈ eventsOf between, x.conn = c → cls.classify x.sql ≠ .begin ∧
      cls.classify x.sql ≠ .commitRollback) : ∀ a ∈ between.map (Entry.act cls), a.Within c := by
  intro a ha
  obtain ⟨e, he, rfl⟩ := List.mem_map.1 ha
  rcases e with x | c'
  · intro hx
    obtain ⟨hb, hc⟩ := hopen x (mem_eventsOf.2 he) hx
    exact ⟨decide_eq_false hb, decide_eq_false hc⟩
  · rintro rfl
    exact hclose he

/-- An event that does not begin a group carries the number of the group it is in. -/
theorem number_of_open {cls : Classifier} {s : Tickets.State ConnID} {ev : SQLEvent} {c : ConnID}
    (hconn : ev.conn = c) (hkind : cls.classify ev.sql ≠ .begin) (hpos : s.current c ≠ 0) :
    (Tickets.step s (Entry.act cls (.event ev))).2 = s.current c := by
  show s.number ev.conn (decide (cls.classify ev.sql = .begin)) _ = _
  rw [hconn, decide_eq_false hkind]
  exact Tickets.number_of_current hpos _

section Group

variable {cls : Classifier} {s' : Tickets.State ConnID} {before after : List Entry} {first : SQLEvent}

/-- A BEGIN draws a number that no event before it has. -/
theorem Follows.fresh (h : Follows (Entry.act cls) Tickets.init (before ++ .event first :: after) s')
    (hbegin : cls.classify first.sql = .begin) :
    first.txID ≠ 0 ∧ ∀ ev ∈ eventsOf before, ev.txID ≠ first.txID := by
  obtain ⟨hbefore, hfrom⟩ := h.split
  obtain ⟨hfirst, -⟩ := hfrom.head
  have hact : Entry.act cls (.event first) = .stamp first.conn true false false := by
    simp [Entry.act, hbegin]
  obtain ⟨hpos, hfresh⟩ := Tickets.fresh (before.map (Entry.act cls)) first.conn false false
  rw [hact] at hfirst
  rw [hfirst] at hpos hfresh
  rw [hbefore.stamps Entry.owner_act] at hfresh
  exact ⟨hpos, fun ev hev => (hfresh _ (List.mem_map_of_mem (mem_eventsOf.1 hev))).ne⟩

/-- The events up to the end of its group have that number. -/
theorem Follows.group {between rest : List Entry} {ev : SQLEvent}
    (h : Follows (Entry.act cls) Tickets.init (before ++ .event first :: (between ++ .event ev :: rest)) s')
    (hbegin : cls.classify first.sql = .begin) (hconn : ev.conn = first.conn) (hclose : .close first.conn ∉ between)
    (hopen : ∀ x ∈ eventsOf between, x.conn = first.conn → cls.classify x.sql ≠ .begin ∧
      cls.classify x.sql ≠ .commitRollback) (hkind : cls.classify ev.sql ≠ .begin) : ev.txID = first.txID := by
  have hpos := (h.fresh hbegin).1
  obtain ⟨hfirst, hafter⟩ := h.split.2.head
  obtain ⟨hev, -⟩ := hafter.split.2.head
  have hact : Entry.act cls (.event first) = .stamp first.conn true false false := by
    simp [Entry.act, hbegin]
  rw [hact] at hfirst hev
  -- the number stays until the act of `ev`, which keeps it
  have hcur : ∀ s : Tickets.State ConnID,
      (Tickets.step s (.stamp first.conn true false false)).1.current first.conn =
        (Tickets.step s (.stamp first.conn true false false)).2 :=
    fun s => Function.update_self ..
  have hkept := Tickets.kept (k := first.conn) (by rw [hcur, hfirst]; exact hpos) (within_of_open hclose hopen)
  rw [hcur, hfirst] at hkept
  have hnumber := number_of_open hconn hkind (by rw [hkept]; exact hpos)
  exact (hev.symm.trans hnumber).trans hkept

end Group

/-- A new processor has given out no id. -/
theorem new_tickets {U : CaseTable} {pcfg : ProtocolConfig} {fcfg : FilterConfig} {collector : Bool}
    {sp : StreamProcessor} (hsp : newStreamProcessor U pcfg fcfg collector = .ok sp) : sp.tickets = Tickets.init := by
  obtain ⟨-, -, -, htx⟩ := new_parts hsp
  unfold StreamProcessor.tickets
  simp only [htx, new_session hsp]
  rfl

/-- **Transaction groups.** With the pooler option off: events that share an id
share the connection; the ids of a connection do not decrease; and from a BEGIN
to the event that ends its group, all events of the connection have one id,
which no event before the BEGIN has. -/
theorem grouped {U : CaseTable} {pcfg : ProtocolConfig} {fcfg : FilterConfig} {collector : Bool}
    {sp : StreamProcessor} (hsp : newStreamProcessor U pcfg fcfg collector = .ok sp)
    (hpool : pcfg.connectionPooler = false) (calls : List Call) :
    let kind := fun ev : SQLEvent => sp.cls.classify ev.sql
    (∀ ev ∈ eventsOf (sp.log calls), ∀ ev' ∈ eventsOf (sp.log calls),
        ev.txID = ev'.txID → ev.txID ≠ 0 → ev.conn = ev'.conn) ∧
      (eventsOf (sp.log calls)).Pairwise (fun ev ev' =>
        ev.conn = ev'.conn → ev.txID ≠ 0 → ev'.txID ≠ 0 → ev.txID ≤ ev'.txID) ∧
      ∀ before first after, sp.log calls = before ++ .event first :: after → kind first = .begin →
        first.txID ≠ 0 ∧ (∀ ev ∈ eventsOf before, ev.txID ≠ first.txID) ∧
          ∀ between ev rest, after = between ++ .event ev :: rest → ev.conn = first.conn →
            .close first.conn ∉ between →
            (∀ x ∈ eventsOf between, x.conn = first.conn → kind x ≠ .begin ∧ kind x ≠ .commitRollback) →
            kind ev ≠ .begin → ev.txID = first.txID := by
  obtain ⟨hcfg, -, -, -⟩ := new_parts hsp
  have hrun := StreamProcessor.follows_run calls sp (by rw [hcfg]; exact hpool)
  rw [new_tickets hsp] at hrun
  have hinv := Tickets.inv_init.run ((sp.log calls).map (Entry.act sp.cls))
  rw [List.nil_append, hrun.stamps Entry.owner_act] at hinv
  refine ⟨fun ev hev ev' hev' => ?_, ?_, fun before first after hlog hbegin => ?_⟩
  · exact hinv.unique _ (List.mem_map_of_mem (mem_eventsOf.1 hev)) _ (List.mem_map_of_mem (mem_eventsOf.1 hev'))
  · refine List.Pairwise.filterMap _ ?_ (List.pairwise_map.1 hinv.monotone)
    rintro (e | c) (e' | c') h ev hev ev' hev'
    · cases hev
      cases hev'
      exact h
    · cases hev'
    · cases hev
    · cases hev
  · rw [hlog] at hrun
    obtain ⟨hpos, hfresh⟩ := hrun.fresh hbegin
    refine ⟨hpos, hfresh, fun between ev rest hsplit hconn hclose hopen hkind => ?_⟩
    rw [hsplit] at hrun
    exact hrun.group hbegin hconn hclose hopen hkind

/-- Two connections, one of them in a transaction. -/
theorem grouped_two_connections :
    let other : ConnID := { someConn with srcPort := 50001 }
    let query := fun c (sql : String) (ts : ℤ) =>
      Call.onBytes c true (wireTyped (msgSimpleQuery, bytes sql ++ [0])) ts
    let start := fun c => Call.onBytes c true (wireStartup [0, 3, 0, 0]) 0
    let calls := [start someConn, start other, query someConn "BEGIN" 1, query other "INSERT INTO t VALUES (1)" 2,
      query someConn "DELETE FROM t" 3, query someConn "COMMIT" 4]
    let sp := defaultProcessor ⟨id, id⟩ {} false
    (eventsOf (sp.log calls)).map (fun ev => (ev.conn.srcPort, ev.txID)) =
        [(50000, 1), (50001, 2), (50000, 1), (50000, 1)] ∧
      ∀ ev ∈ eventsOf (sp.log calls), ∀ ev' ∈ eventsOf (sp.log calls),
        ev.txID = ev'.txID → ev.txID ≠ 0 → ev.conn = ev'.conn := by
  intro other query start calls sp
  exact ⟨by decide +kernel, (grouped (new_default ⟨id, id⟩ {} false) rfl calls).1⟩

end PgShadow
