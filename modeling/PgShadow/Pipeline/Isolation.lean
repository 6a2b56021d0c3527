/-
# Connections do not interfere

The sessions of a processor share nothing but the counter that transaction ids
are drawn from. The events enqueued for a connection are therefore those of a
run on its own calls alone, except that their transaction ids are renamed: other
connections draw ids in between, so the same transactions get larger ids in the
same order.

The argument compares the two runs step by step. `Renames` relates the session
of the connection in both; a draw from the counter extends the renaming at its
end (`Renames.draw`), which is what keeps it strictly increasing, and a step of
another connection only moves the first counter (`counter_le_step`).

Key definitions: `StreamProcessor.effects`, `SQLEvent.rename`, `Renames`.
Key theorem: `isolated`.
-/
import Mathlib.Order.Monotone.Basic
import PgShadow.Pipeline.Trace

namespace PgShadow

/-- Everything that shows of a run. -/
def StreamProcessor.effects (sp : StreamProcessor) (calls : List Call) : List Effect :=
  (Machine.outs StreamProcessor.step sp calls).flatMap Report.effects

/-- The event under another transaction id. -/
def SQLEvent.rename (f : ℕ → ℕ) (ev : SQLEvent) : SQLEvent := { ev with txID := f ev.txID }

/-! ### Renamings -/

/-- A strictly increasing map can be redirected past `n` to any larger value. -/
theorem exists_extension {f : ℕ → ℕ} (hf : StrictMono f) {n m : ℕ} (h : f n ≤ m) :
    ∃ g : ℕ → ℕ, StrictMono g ∧ (∀ i ≤ n, g i = f i) ∧ g (n + 1) = m + 1 := by
  refine ⟨fun i => if i ≤ n then f i else m + (i - n), strictMono_nat_of_lt_succ fun i => ?_,
    fun i hi => if_pos hi, ?_⟩
  · rcases Nat.lt_trichotomy i n with hi | rfl | hi
    · rw [if_pos hi.le, if_pos (Nat.succ_le_of_lt hi)]
      exact hf (Nat.lt_succ_self i)
    · rw [if_pos le_rfl, if_neg (by omega)]
      omega
    · rw [if_neg (by omega), if_neg (by omega)]
      omega
  · show (if n + 1 ≤ n then f (n + 1) else m + (n + 1 - n)) = m + 1
    rw [if_neg (by omega)]
    omega

/-- A session and its events are those of another session with its transaction
ids renamed by `f`. Both sessions come with the number of ids drawn so far. -/
structure Renames (f : ℕ → ℕ) (l : Session × ℕ) (es : List SQLEvent) (l' : Session × ℕ)
    (es' : List SQLEvent) : Prop where
  mono : StrictMono f
  zero : f 0 = 0
  counter : f l'.2 ≤ l.2
  tx_le : l'.1.tx ≤ l'.2
  ids_le : ∀ ev ∈ es', ev.txID ≤ l'.2
  session : l.1 = { l'.1 with tx := f l'.1.tx }
  events : es = es'.map (SQLEvent.rename f)

namespace Renames

variable {f : ℕ → ℕ} {l l' : Session × ℕ} {es es' : List SQLEvent}

theorem groups (h : Renames f l es l' es') (cls : StmtClass) : l.1.groups cls = l'.1.groups cls := by
  have h0 : f l'.1.tx = 0 ↔ l'.1.tx = 0 := by
    conv_lhs => rw [← h.zero, h.mono.injective.eq_iff]
  rw [h.session]
  simp only [Session.groups, h0]

/-- The ids of a statement correspond, under the renaming extended by the id it
may have drawn. -/
theorem draw (h : Renames f l es l' es') (cls : StmtClass) :
    ∃ g : ℕ → ℕ, StrictMono g ∧ (∀ i ≤ l'.2, g i = f i) ∧ g (l'.1.txFor l'.2 cls) = l.1.txFor l.2 cls ∧
      g (if l'.1.groups cls then l'.2 + 1 else l'.2) ≤ (if l.1.groups cls then l.2 + 1 else l.2) ∧
      l'.1.txFor l'.2 cls ≤ (if l'.1.groups cls then l'.2 + 1 else l'.2) := by
  unfold Session.txFor
  rw [h.groups cls]
  by_cases hg : l'.1.groups cls = true
  · obtain ⟨g, hmono, hle, hnext⟩ := exists_extension h.mono h.counter
    simp only [hg, if_true]
    exact ⟨g, hmono, hle, hnext, hnext.le, le_rfl⟩
  · simp only [hg]
    exact ⟨f, h.mono, fun _ _ => rfl, by rw [h.session]; rfl, h.counter, h.tx_le⟩

/-- The past is not affected by how the renaming goes on. -/
theorem events_of_agree (h : Renames f l es l' es') {g : ℕ → ℕ} (hg : ∀ i ≤ l'.2, g i = f i) :
    es = es'.map (SQLEvent.rename g) := by
  rw [h.events]
  refine List.map_congr_left fun ev hev => ?_
  unfold SQLEvent.rename
  rw [hg _ (h.ids_le ev hev)]

/-- A step that draws no id, changes no id and enqueues nothing. -/
theorem quiet (h : Renames f l es l' es') {s s' : Session} (htx : s'.tx = l'.1.tx ∨ s'.tx = 0)
    (hs : s = { s' with tx := f s'.tx }) : Renames f (s, l.2) es (s', l'.2) es' := by
  refine ⟨h.mono, h.zero, h.counter, ?_, h.ids_le, hs, h.events⟩
  rcases htx with htx | htx
  · exact htx ▸ h.tx_le
  · exact htx ▸ Nat.zero_le _

/-- A request keeps the renaming, extended where it draws an id. -/
theorem answer (h : Renames f l es l' es') (E : Env) (c : ConnID) (ts : ℤ) (req : Request) :
    ∃ g, Renames g (Session.answer E c ts l req).1 (es ++ enqueued (Session.answer E c ts l req).2)
      (Session.answer E c ts l' req).1 (es' ++ enqueued (Session.answer E c ts l' req).2) := by
  -- what a request gives rise to does not depend on the transaction id
  have hev : l.1.eventOf E c ts req = l'.1.eventOf E c ts req := by rw [h.session]; cases req <;> rfl
  rcases hev' : l'.1.eventOf E c ts req with _ | ev
  · rw [Session.answer_none (hev.trans hev'), Session.answer_none hev', (silent_complaint E req).2,
      List.append_nil, List.append_nil]
    refine ⟨f, h.quiet (Or.inl ?_) ?_⟩
    · cases req <;> rfl
    · rw [h.session]
      cases req <;> rfl
  · obtain ⟨g, hmono, hagree, htx, hcounter, hle⟩ := h.draw (E.cls.classify ev.sql)
    have hzero : g 0 = 0 := (hagree 0 (Nat.zero_le _)).trans h.zero
    have hstamp : l.1.stamp E l.2 ev = (l'.1.stamp E l'.2 ev).rename g := by
      unfold Session.stamp SQLEvent.rename
      rw [← htx, h.session]
    have hstatus : l.1.status = l'.1.status := by rw [h.session]
    have henq : enqueued (E.judge (l.1.stamp E l.2 ev) l.1.status) =
        (enqueued (E.judge (l'.1.stamp E l'.2 ev) l'.1.status)).map (SQLEvent.rename g) := by
      rw [enqueued_judge, enqueued_judge, hstamp, hstatus, apply_ite (List.map (SQLEvent.rename g))]
      rfl
    rw [Session.answer_event (hev.trans hev'), Session.answer_event hev']
    refine ⟨g, hmono, hzero, hcounter, ?_, ?_, ?_, ?_⟩
    · rw [Session.conclude_tx]
      split
      · exact Nat.zero_le _
      · exact hle
    · intro e he
      rcases List.mem_append.mp he with he | he
      · exact (h.ids_le e he).trans (by dsimp only; split <;> omega)
      · rw [enqueued_judge] at he
        split at he
        · rw [List.mem_singleton.mp he]
          exact hle
        · cases he
    · have hnow : (l.1.conclude E l.2 ts ev.sql req).tx = g (l'.1.conclude E l'.2 ts ev.sql req).tx := by
        rw [Session.conclude_tx, Session.conclude_tx, apply_ite g, hzero, htx]
      rw [← hnow, h.session]
      cases req <;> rfl
    · rw [List.map_append, henq, h.events_of_agree hagree]

/-- So does a message of either direction. -/
theorem message (h : Renames f l es l' es') (E : Env) (c : ConnID) (fromClient : Bool) (ts : ℤ)
    (msg : PGMessage) :
    ∃ g, Renames g (Session.message E c fromClient ts l msg).1
      (es ++ enqueued (Session.message E c fromClient ts l msg).2)
      (Session.message E c fromClient ts l' msg).1
      (es' ++ enqueued (Session.message E c fromClient ts l' msg).2) := by
  cases fromClient with
  | true => exact h.answer E c ts (E.request msg)
  | false =>
    obtain ⟨status, inflight, hnote⟩ := Session.note_frame E ts l'.1 msg
    have hsame : (Session.note E ts l.1 msg).1 = { (Session.note E ts l'.1 msg).1 with tx := f l'.1.tx } := by
      rw [h.session]
      unfold Session.note
      by_cases hZ : msg.type = msgReadyForQuery
      · rw [if_pos hZ, if_pos hZ]; rfl
      · by_cases hC : msg.type = msgCommandComplete
        · rw [if_neg hZ, if_pos hC, if_neg hZ, if_pos hC]; rfl
        · rw [if_neg hZ, if_neg hC, if_neg hZ, if_neg hC]
    have htx : (Session.note E ts l'.1 msg).1.tx = l'.1.tx := by rw [hnote]
    unfold Session.message
    simp only [Bool.false_eq_true, if_false]
    rw [(silent_note E ts l.1 msg).2, (silent_note E ts l'.1 msg).2, List.append_nil, List.append_nil]
    exact ⟨f, h.quiet (Or.inl htx) (by rw [hsame, htx])⟩

theorem messages (E : Env) (c : ConnID) (fromClient : Bool) (ts : ℤ) :
    ∀ (ms : List PGMessage) {f : ℕ → ℕ} {l l' : Session × ℕ} {es es' : List SQLEvent}, Renames f l es l' es' →
      ∃ g, Renames g (Machine.final (Session.message E c fromClient ts) l ms)
        (es ++ enqueued (Machine.outs (Session.message E c fromClient ts) l ms).flatten)
        (Machine.final (Session.message E c fromClient ts) l' ms)
        (es' ++ enqueued (Machine.outs (Session.message E c fromClient ts) l' ms).flatten)
  | [], f, l, l', es, es', h => ⟨f, by simpa using h⟩
  | msg :: ms, f, l, l', es, es', h => by
    obtain ⟨g, hg⟩ := h.message E c fromClient ts msg
    obtain ⟨k, hk⟩ := messages E c fromClient ts ms hg
    refine ⟨k, ?_⟩
    simpa only [Machine.final_cons, Machine.outs_cons, List.flatten_cons, enqueued_append,
      List.append_assoc] using hk

end Renames

/-! ### Callbacks -/

theorem step_local (r : Env × ℕ) (s : Session) (c : ConnID) (fromClient : Bool) (data : Bytes) (ts : ℤ) :
    ((Session.step r s (.onBytes c fromClient data ts)).1.1,
        (Session.step r s (.onBytes c fromClient data ts)).1.2.2) =
      Machine.final (Session.message r.1 c fromClient ts) (s.fed fromClient data, r.2)
        (s.framed fromClient data).1 := rfl

/-- What a callback of a connection enqueues comes from its messages. -/
theorem enqueued_step (r : Env × ℕ) (s : Session) (c : ConnID) (fromClient : Bool) (data : Bytes) (ts : ℤ) :
    enqueued (Session.step r s (.onBytes c fromClient data ts)).2.effects =
      enqueued (Machine.outs (Session.message r.1 c fromClient ts) (s.fed fromClient data, r.2)
        (s.framed fromClient data).1).flatten := by
  have herr : enqueued (if (s.framed fromClient data).2.isSome then r.1.metric .parseError else []) = [] := by
    unfold Env.metric
    split <;> cases r.1.collector <;> rfl
  unfold StreamProcessor.Report.effects Session.step
  dsimp only
  rw [enqueued_append, herr, List.nil_append, List.flatMap_def, List.map_snd_zip]
  rw [Machine.length_outs]

/-- A callback keeps the renaming, extended by the ids it draws. -/
theorem Renames.step {f : ℕ → ℕ} {s s' : Session} {n n' : ℕ} {es es' : List SQLEvent}
    (h : Renames f (s, n) es (s', n') es') (E : Env) (call : Call) :
    ∃ g, Renames g ((Session.step (E, n) s call).1.1, (Session.step (E, n) s call).1.2.2)
      (es ++ enqueued (Session.step (E, n) s call).2.effects)
      ((Session.step (E, n') s' call).1.1, (Session.step (E, n') s' call).1.2.2)
      (es' ++ enqueued (Session.step (E, n') s' call).2.effects) := by
  obtain rfl : s = { s' with tx := f s'.tx } := h.session
  cases call with
  | onClose c =>
    have hfresh : Session.fresh = { Session.fresh with tx := f Session.fresh.tx } := by
      rw [show Session.fresh.tx = 0 from rfl, h.zero]
      rfl
    refine ⟨f, ?_⟩
    rw [show enqueued (Session.step (E, n') s' (.onClose c)).2.effects = [] from rfl, List.append_nil,
      show enqueued (Session.step (E, n) _ (.onClose c)).2.effects = [] from rfl, List.append_nil]
    exact h.quiet (Or.inr rfl) hfresh
  | onBytes c fromClient data ts =>
    -- the bytes are framed alike in both sessions
    have hfed : Renames f (Session.fed { s' with tx := f s'.tx } fromClient data, n) es
        (s'.fed fromClient data, n') es' :=
      h.quiet (Or.inl (by cases fromClient <;> rfl)) (by cases fromClient <;> rfl)
    have hframed : Session.framed { s' with tx := f s'.tx } fromClient data = s'.framed fromClient data := by
      cases fromClient <;> rfl
    rw [enqueued_step, enqueued_step, step_local, step_local, hframed]
    exact Renames.messages E c fromClient ts (s'.framed fromClient data).1 hfed

theorem counter_le_message (E : Env) (c : ConnID) (fromClient : Bool) (ts : ℤ) :
    ∀ ms l, l.2 ≤ (Machine.final (Session.message E c fromClient ts) l ms).2
  | [], _ => le_rfl
  | msg :: ms, l => by
    rw [Machine.final_cons]
    refine le_trans ?_ (counter_le_message E c fromClient ts ms _)
    cases fromClient with
    | false => exact le_rfl
    | true =>
      show l.2 ≤ (Session.answer E c ts l (E.request msg)).1.2
      cases h : l.1.eventOf E c ts (E.request msg) with
      | none => rw [Session.answer_none h]
      | some ev =>
        rw [Session.answer_event h]
        dsimp only
        split <;> omega

/-- Transaction ids are only ever drawn. -/
theorem counter_le_step (r : Env × ℕ) (s : Session) (call : Call) : r.2 ≤ (Session.step r s call).1.2.2 := by
  cases call with
  | onBytes c fromClient data ts =>
    exact counter_le_message r.1 c fromClient ts (s.framed fromClient data).1 (s.fed fromClient data, r.2)
  | onClose c => exact le_rfl

/-- An event is of the connection, and of no user. -/
theorem owner_of_eventOf {E : Env} {c : ConnID} {ts : ℤ} {s : Session} {req : Request} {ev : SQLEvent}
    (h : s.eventOf E c ts req = some ev) : ev.conn = c ∧ ev.user = [] := by
  cases req with
  | query sql =>
    rw [Session.eventOf] at h
    split at h
    · cases h
    · rw [← Option.some.inj h]
      exact ⟨rfl, rfl⟩
  | execute name formats values =>
    obtain ⟨info, -, rfl⟩ := Option.map_eq_some_iff.mp h
    exact ⟨rfl, rfl⟩
  | copyDone =>
    obtain ⟨b, -, hb⟩ := Option.bind_eq_some_iff.mp h
    split at hb
    · cases hb
    · rw [← Option.some.inj hb]
      exact ⟨rfl, rfl⟩
  | prepare | copyData | copyFail | refused | other => cases h

theorem owner_of_answer {E : Env} {c : ConnID} {ts : ℤ} {l : Session × ℕ} {req : Request} {ev : SQLEvent}
    (h : ev ∈ enqueued (Session.answer E c ts l req).2) : ev.conn = c ∧ ev.user = [] := by
  have hdec := (enqueued_answer_sublist E c ts l req).subset h
  rw [decided_answer, Option.mem_toList, Option.map_eq_some_iff] at hdec
  obtain ⟨e, he, rfl⟩ := hdec
  show e.conn = c ∧ e.user = []
  exact owner_of_eventOf he

theorem conn_of_message (E : Env) (c : ConnID) (fromClient : Bool) (ts : ℤ) (l : Session × ℕ)
    (msg : PGMessage) :
    ∀ ev ∈ enqueued (Session.message E c fromClient ts l msg).2, ev.conn = c := by
  intro ev hev
  cases fromClient with
  | false =>
    have hnone := (silent_note E ts l.1 msg).2
    exact absurd (hnone ▸ hev) List.not_mem_nil
  | true => exact (owner_of_answer hev).1

/-- The events a callback enqueues are of its connection. -/
theorem conn_of_enqueued (r : Env × ℕ) (s : Session) (call : Call) :
    ∀ ev ∈ enqueued (Session.step r s call).2.effects, ev.conn = call.conn := by
  intro ev hev
  cases call with
  | onClose c => cases hev
  | onBytes c fromClient data ts =>
    rw [enqueued_step] at hev
    obtain ⟨e, he, hsome⟩ := List.mem_filterMap.mp hev
    obtain ⟨es, hes, hmem⟩ := List.mem_flatten.mp he
    exact Machine.forall_outs (P := fun es => ∀ ev ∈ enqueued es, ev.conn = c) _
      (conn_of_message r.1 c fromClient ts) _ _ es hes ev (List.mem_filterMap.mpr ⟨e, hmem, hsome⟩)

/-! ### Runs -/

theorem effects_cons (sp : StreamProcessor) (call : Call) (calls : List Call) :
    sp.effects (call :: calls) = (sp.step call).2.effects ++ (sp.step call).1.effects calls :=
  List.flatMap_cons

theorem effects_append (sp : StreamProcessor) (calls calls' : List Call) :
    sp.effects (calls ++ calls') = sp.effects calls ++ (sp.run calls).effects calls' := by
  unfold StreamProcessor.effects StreamProcessor.run
  rw [Machine.outs_append, List.flatMap_append]

/-- The events enqueued for a connection are those its own callbacks enqueue. -/
theorem filter_enqueued (c : ConnID) : ∀ (calls : List Call) (sp : StreamProcessor),
    (enqueued (sp.effects calls)).filter (fun ev => ev.conn = c) =
      enqueued ((sp.history calls c).flatMap (·.2.effects))
  | [], _ => rfl
  | call :: calls, sp => by
    have hconn : ∀ ev ∈ enqueued (sp.step call).2.effects, ev.conn = call.conn := by
      rw [partitioned.out]
      exact conn_of_enqueued _ _ call
    rw [effects_cons, enqueued_append, List.filter_append, filter_enqueued c calls]
    by_cases hc : call.conn = c
    · rw [history_cons_self hc, List.flatMap_cons, enqueued_append, List.filter_eq_self.mpr]
      exact fun ev hev => decide_eq_true ((hconn ev hev).trans hc)
    · rw [history_cons_of_ne hc, List.filter_eq_nil_iff.mpr, List.nil_append]
      intro ev hev hfilter
      exact hc ((hconn ev hev).symm.trans (of_decide_eq_true hfilter))

/-- A run on the callbacks of a connection enqueues events of no other. -/
theorem conn_of_run (c : ConnID) : ∀ (calls : List Call) (sp : StreamProcessor),
    (∀ call ∈ calls, call.conn = c) → ∀ ev ∈ enqueued (sp.effects calls), ev.conn = c
  | [], _, _, _, hev => absurd hev List.not_mem_nil
  | call :: calls, sp, h, ev, hev => by
    rw [effects_cons, enqueued_append, List.mem_append, partitioned.out] at hev
    rcases hev with hev | hev
    · exact (conn_of_enqueued _ _ call ev hev).trans (h call List.mem_cons_self)
    · exact conn_of_run c calls _ (fun x hx => h x (List.mem_cons_of_mem _ hx)) ev hev

/-- **Isolation.** In every run of a new processor, the events enqueued for a
connection are those of a run on the calls of that connection alone, in order
and in every field but the transaction id; the transaction ids correspond under
a strictly increasing renaming that fixes 0. -/
theorem isolated {U : CaseTable} {pcfg : ProtocolConfig} {fcfg : FilterConfig} {collector : Bool}
    {sp : StreamProcessor} (hsp : newStreamProcessor U pcfg fcfg collector = .ok sp) (calls : List Call)
    (c : ConnID) :
    ∃ f : ℕ → ℕ, StrictMono f ∧ f 0 = 0 ∧
      (enqueued (sp.effects calls)).filter (fun ev => ev.conn = c) =
        (enqueued (sp.effects (calls.filter fun call => call.conn = c))).map (SQLEvent.rename f) := by
  have hrun := partitioned.project (k := c)
    (R := fun r s h r' s' h' => r.1 = r'.1 ∧ ∃ f, Renames f (s, r.2) (enqueued (h.flatMap (·.2.effects)))
      (s', r'.2) (enqueued (h'.flatMap (·.2.effects)))) ?_ ?_ calls sp [] sp [] ?_
  · obtain ⟨-, f, hf⟩ := hrun
    refine ⟨f, hf.mono, hf.zero, ?_⟩
    have halone : ∀ ev ∈ enqueued (sp.effects (calls.filter fun call => call.conn = c)), ev.conn = c :=
      conn_of_run c _ sp fun call hcall => of_decide_eq_true (List.mem_filter.mp hcall).2
    set alone := calls.filter fun call => call.conn = c
    calc (enqueued (sp.effects calls)).filter (fun ev => ev.conn = c)
        = enqueued ((sp.history calls c).flatMap (·.2.effects)) := filter_enqueued c calls sp
      _ = (enqueued ((sp.history alone c).flatMap (·.2.effects))).map (SQLEvent.rename f) := hf.events
      _ = ((enqueued (sp.effects alone)).filter (fun ev => ev.conn = c)).map (SQLEvent.rename f) := by
          rw [filter_enqueued c alone sp]
      _ = (enqueued (sp.effects alone)).map (SQLEvent.rename f) := by
          rw [List.filter_eq_self.mpr fun ev hev => decide_eq_true (halone ev hev)]
  · -- a callback of the connection, in both runs
    rintro ⟨E, n⟩ s h ⟨E', n'⟩ s' h' call hc ⟨rfl, f, hf⟩
    refine ⟨by rw [Session.step_env, Session.step_env], ?_⟩
    simp only [List.flatMap_append, List.flatMap_singleton, enqueued_append]
    exact hf.step E call
  · -- a callback of another connection
    rintro ⟨E, n⟩ s h ⟨E', n'⟩ s' h' t call - ⟨rfl, f, hf⟩
    refine ⟨Session.step_env _ _ _, f, ?_⟩
    exact { hf with counter := hf.counter.trans (counter_le_step (E, n) t call) }
  · exact ⟨rfl, id, strictMono_id, rfl, le_rfl, by rw [new_session hsp]; exact Nat.zero_le _, by simp, rfl, rfl⟩

/-- Two clients that insert a row, one after the other. -/
def interleaved : List Call :=
  let session := wireStartup [0, 3, 0, 0] ++ wireTyped (msgSimpleQuery, bytes "INSERT INTO t VALUES (1)\x00")
  [.onBytes { someConn with srcPort := 50001 } true session 0, .onBytes someConn true session 0]

/-- The second client's transaction has the id 2, alone it has the id 1. -/
theorem isolated_interleaved :
    let sp := defaultProcessor ⟨id, id⟩ {} false
    (enqueued (sp.effects interleaved)).map (·.txID) = [1, 2] ∧
      (enqueued (sp.effects (interleaved.filter fun call => call.conn = someConn))).map (·.txID) = [1] ∧
      ∃ f : ℕ → ℕ, StrictMono f ∧ f 0 = 0 ∧
        (enqueued (sp.effects interleaved)).filter (fun ev => ev.conn = someConn) =
          (enqueued (sp.effects (interleaved.filter fun call => call.conn = someConn))).map
            (SQLEvent.rename f) :=
  ⟨by decide +kernel, by decide +kernel, isolated (new_default ⟨id, id⟩ {} false) interleaved someConn⟩

end PgShadow
