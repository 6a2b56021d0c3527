/-
# What closing a connection releases

`OnClose` is to release every piece of state that the processor and its
collaborators keep for a connection. `StreamProcessor.entries` gathers all of
it, map by map, and `entries_step_of_ne` says that the calls of one connection
never touch the entries of another.

Of the twelve maps `OnClose` clears ten. The event builder's `copyState` is
never written, but its `seq` has an entry from the first Simple_Query or Parse
on, and keeps it: `released_iff`, `seq_leaks`.

Key definitions: `Entries`, `StreamProcessor.entries`, `ProtocolConfig.carriesSQL`.
Key theorems: `entries_step_of_ne`, `released_iff`.
-/
import PgShadow.Pipeline.Statements

namespace PgShadow

/-- The entries of one connection in the maps of the processor and of its
collaborators. -/
structure Entries where
  status : Option TxStatus := none
  ebSeq : Option ℕ := none
  ebCopy : Option CopyBuffer := none
  tx : Option ℕ := none
  stmts : Option (GoMap Bytes ParseInfo) := none
  copy : Option CopyBuffer := none
  copySize : Option ℕ := none
  copyOverflow : Option Bool := none
  inflight : Option ℤ := none
  parsers : Option ConnParsers := none
  seq : Option ℕ := none
  lastSQL : Option Bytes := none

def StreamProcessor.entries (sp : StreamProcessor) (c : ConnID) : Entries where
  status := sp.sm c
  ebSeq := sp.eb.seq c
  ebCopy := sp.eb.copyState c
  tx := sp.txGen.current c
  stmts := sp.binder c
  copy := sp.copies.active c
  copySize := sp.copies.sizes c
  copyOverflow := sp.copies.overflow c
  inflight := sp.timer c
  parsers := sp.parsers c
  seq := sp.seq c
  lastSQL := sp.lastSQL c

/-! ### The event builder -/

/-- The message is a Simple_Query or a Parse that `Build` makes an event of. -/
def ProtocolConfig.carriesSQL (cfg : ProtocolConfig) (msg : PGMessage) : Bool :=
  if msg.type = msgSimpleQuery then !oversized cfg (extractSimpleQuerySQL msg.payload)
  else if msg.type = msgParse then
    cfg.extendedQuery && (parseParseMessage msg.payload).any fun p => !oversized cfg p.2.1
  else false

/-- `Build` numbers the messages that carry SQL, and does nothing else to the
builder. -/
theorem EventBuilder.build_state (b : EventBuilder) (c : ConnID) (msg : PGMessage) (ts : ℤ) :
    (b.build c msg ts).1 =
      { b with seq := if b.cfg.carriesSQL msg then b.seq.set c ((b.seq c).getD 0 + 1) else b.seq } := by
  unfold EventBuilder.build ProtocolConfig.carriesSQL
  by_cases hQ : msg.type = msgSimpleQuery
  · rw [if_pos hQ, if_pos hQ]
    by_cases hov : oversized b.cfg (extractSimpleQuerySQL msg.payload) = true
    · simp [hov]
    · simp [hov, EventBuilder.emit]
  rw [if_neg hQ, if_neg hQ]
  by_cases hP : msg.type = msgParse
  · rw [if_pos hP, if_pos hP]
    by_cases hx : b.cfg.extendedQuery = true
    · rcases hm : parseParseMessage msg.payload with _ | ⟨name, sql, oids⟩
      · simp [hx]
      · by_cases hov : oversized b.cfg sql = true
        · simp [hx, hov]
        · simp [hx, hov, EventBuilder.emit]
    · simp [hx]
  · simp [hP]

theorem EventBuilder.build_of_ne {msg : PGMessage} (hQ : msg.type ≠ msgSimpleQuery) (hP : msg.type ≠ msgParse)
    (b : EventBuilder) (c : ConnID) (ts : ℤ) : b.build c msg ts = (b, ⟨none, false⟩) := by
  rw [EventBuilder.build, if_neg hQ, if_neg hP]

namespace StreamProcessor

section Steps

variable {P : StreamProcessor → Prop} {c : ConnID} {msg : PGMessage} {ts : ℤ}

/-- **What a client's message can do to the processor**: it goes through the
builder, and then operations on its own connection follow. -/
theorem handleClient_induction {sp : StreamProcessor} (built : P { sp with eb := (sp.eb.build c msg ts).1 })
    (dispatch : ∀ sp ev, P sp → P (sp.dispatch c ev).1) (timer : ∀ sp, P sp → P (sp.startTimer c ts))
    (parse : ∀ sp name sql oids, P sp → P { sp with binder := sp.binder.onParse c name sql oids })
    (start : ∀ sp sql, P sp → P { sp with copies := sp.copies.start c sql })
    (data : ∀ sp payload, P sp → P { sp with copies := sp.copies.data c payload })
    (clear : ∀ sp, P sp → P { sp with copies := sp.copies.clear c }) : P (sp.handleClient c msg ts).1 := by
  have hunbuilt : msg.type ≠ msgSimpleQuery → msg.type ≠ msgParse → P sp := by
    intro hQ hP
    rwa [EventBuilder.build_of_ne hQ hP] at built
  unfold handleClient
  by_cases hx : msg.type = startupMsgType ∧ 4 ≤ msg.payload.length ∧ uint32 msg.payload = cancelRequestCode
  · rw [if_pos hx]
    apply hunbuilt <;> rw [hx.1] <;> decide
  rw [if_neg hx]
  by_cases hP : msg.type = msgParse
  · rw [if_pos hP]
    rcases hev : (sp.eb.build c msg ts).2.event with _ | ev
    · simp only [StreamProcessor.build, hev]
      exact built
    · simp only [StreamProcessor.build, hev]
      exact parse _ _ _ _ built
  rw [if_neg hP]
  by_cases hB : msg.type = msgBind
  · have hsp : P sp := hunbuilt (by rw [hB]; decide) hP
    rw [if_pos hB]
    rcases sp.binder.onBind c msg.payload with _ | res
    · exact hsp
    · exact timer _ (dispatch _ _ hsp)
  rw [if_neg hB]
  by_cases hd : msg.type = msgCopyData
  · rw [if_pos hd]
    exact data _ _ (hunbuilt (by rw [hd]; decide) hP)
  rw [if_neg hd]
  by_cases hc : msg.type = msgCopyDone
  · have hclear := clear sp (hunbuilt (by rw [hc]; decide) hP)
    rw [if_pos hc]
    unfold CopyTracker.done
    dsimp only
    rcases (if (sp.copies.overflow c).getD false = true then none else sp.copies.active c) with _ | buf
    · exact hclear
    · exact dispatch _ _ hclear
  rw [if_neg hc]
  by_cases hf : msg.type = msgCopyFail
  · rw [if_pos hf]
    exact clear _ (hunbuilt (by rw [hf]; decide) hP)
  rw [if_neg hf]
  rcases hev : (sp.eb.build c msg ts).2.event with _ | ev
  · simp only [StreamProcessor.build, hev]
    exact built
  · simp only [StreamProcessor.build, hev]
    by_cases hcopy : sp.cls.classify ev.sql = .copyFrom
    · rw [if_pos hcopy]
      exact timer _ (start _ _ built)
    · rw [if_neg hcopy]
      exact timer _ (dispatch _ _ built)

end Steps

/-- A client's message reaches the builder, whatever else comes of it. -/
theorem eb_handleClient (sp : StreamProcessor) (c : ConnID) (msg : PGMessage) (ts : ℤ) :
    (sp.handleClient c msg ts).1.eb = (sp.eb.build c msg ts).1 := by
  apply handleClient_induction (P := fun sp' => sp'.eb = (sp.eb.build c msg ts).1)
  · rfl
  · intro sp' ev h
    rw [dispatch_eq]
    exact h
  all_goals intros; assumption

/-- What a server's message can do to it. -/
theorem handleServer_induction {P : StreamProcessor → Prop} {c : ConnID} {sp : StreamProcessor} (hsp : P sp)
    (status : ∀ sp b, P sp → P { sp with sm := sp.sm.onReadyForQuery c b })
    (timer : ∀ sp, P sp → P { sp with timer := sp.timer.erase c }) (msg : PGMessage) (ts : ℤ) :
    P (sp.handleServer c msg ts).1 := by
  have hrecord : ∀ sp, P sp → P (sp.recordExec c ts).1 := by
    intro sp h
    unfold recordExec SourceExecTimer.onBackendComplete
    rcases sp.timer c with _ | began
    · exact h
    · exact timer sp h
  unfold handleServer
  by_cases hZ : msg.type = msgReadyForQuery
  · rw [if_pos hZ]
    rcases extractReadyForQuery msg with _ | b
    · exact hrecord _ hsp
    · exact hrecord _ (status _ _ hsp)
  rw [if_neg hZ]
  by_cases hC : msg.type = msgCommandComplete
  · rw [if_pos hC]
    exact hrecord _ hsp
  · rw [if_neg hC]
    exact hsp

theorem eb_handleServer (sp : StreamProcessor) (c : ConnID) (msg : PGMessage) (ts : ℤ) :
    (sp.handleServer c msg ts).1.eb = sp.eb :=
  handleServer_induction (P := fun sp' => sp'.eb = sp.eb) rfl (fun _ _ h => h) (fun _ h => h) msg ts

/-! ### The other connections -/

section Frame

variable {c c' : ConnID} (h : c' ≠ c) (sp : StreamProcessor)

include h

theorem entries_dispatch_of_ne (ev : SQLEvent) : (sp.dispatch c ev).1.entries c' = sp.entries c' := by
  rw [dispatch_eq]
  have htx : ∀ (g : TxIDGenerator) (p q : Prop) [Decidable p] [Decidable q],
      (let g' := if p then g.advance c else g; if q then g'.reset c else g').current c' = g.current c' := by
    intro g p q _ _
    by_cases hp : p <;> by_cases hq : q <;> simp [hp, hq, TxIDGenerator.advance, TxIDGenerator.reset, h]
  have hsm : sp.sm.onStatement c (sp.cls.classify ev.sql) c' = sp.sm c' := by
    unfold StateMachine.onStatement
    split_ifs <;> simp [h]
  unfold entries
  rw [htx]
  by_cases hres : sp.env.resets ev.sql = true
  · simp [hres, hsm, h, BindCorrelator.forget, CopyTracker.discard, CopyTracker.clear, SourceExecTimer.forget]
  · simp [hres, hsm, h]

theorem entries_data_of_ne (payload : Bytes) :
    ({ sp with copies := sp.copies.data c payload } : StreamProcessor).entries c' = sp.entries c' := by
  unfold entries CopyTracker.data
  rcases sp.copies.active c with _ | buf
  · rfl
  · dsimp only
    split_ifs <;> simp [h]

theorem entries_handle_of_ne (fromClient : Bool) (ts : ℤ) (msg : PGMessage) :
    (sp.handle c fromClient ts msg).1.entries c' = sp.entries c' := by
  rcases fromClient with _ | _
  · apply handleServer_induction (P := fun sp' => sp'.entries c' = sp.entries c') rfl
    · intro sp' b heq
      rw [← heq]
      unfold entries StateMachine.onReadyForQuery
      rcases StateMachine.statusOf b with _ | st <;> simp [h]
    · intro sp' heq
      rw [← heq]
      simp [entries, h]
  · apply handleClient_induction (P := fun sp' => sp'.entries c' = sp.entries c')
    · rw [EventBuilder.build_state]
      unfold entries
      dsimp only
      split_ifs <;> simp [h]
    · intro sp' ev heq
      rw [entries_dispatch_of_ne h, heq]
    · intro sp' heq
      rw [← heq]
      simp [entries, startTimer, SourceExecTimer.onClientQuery, h]
    · intro sp' name sql oids heq
      rw [← heq]
      simp [entries, BindCorrelator.onParse, h]
    · intro sp' sql heq
      rw [← heq]
      simp [entries, CopyTracker.start, CopyTracker.clear, h]
    · intro sp' payload heq
      rw [entries_data_of_ne h, heq]
    · intro sp' heq
      rw [← heq]
      simp [entries, CopyTracker.clear, h]

end Frame

/-- **The calls of one connection leave the entries of the others alone.** -/
theorem entries_step_of_ne {call : Call} {c : ConnID} (h : c ≠ call.conn) (sp : StreamProcessor) :
    (sp.step call).1.entries c = sp.entries c := by
  rcases call with ⟨c', fromClient, data, ts⟩ | c'
  · have hc : c ≠ c' := h
    refine (Machine.final_frame (f := fun sp => entries sp c) _
      (fun sp msg => entries_handle_of_ne hc sp fromClient ts msg) _ _).trans ?_
    simp [entries, hc]
  · show (sp.onClose c').entries c = sp.entries c
    simp [entries, onClose, StateMachine.forget, BindCorrelator.forget, CopyTracker.discard, CopyTracker.clear,
      SourceExecTimer.forget, TxIDGenerator.reset, show c ≠ c' from h]

/-! ### The numbering of the builder -/

theorem eb_handle (sp : StreamProcessor) (c : ConnID) (fromClient : Bool) (ts : ℤ) (msg : PGMessage) :
    (sp.handle c fromClient ts msg).1.eb = { sp.eb with
      seq := if fromClient ∧ sp.eb.cfg.carriesSQL msg then sp.eb.seq.set c ((sp.eb.seq c).getD 0 + 1)
        else sp.eb.seq } := by
  rcases fromClient with _ | _
  · rw [handle, if_neg Bool.false_ne_true, eb_handleServer]
    simp
  · rw [handle, if_pos rfl, eb_handleClient, EventBuilder.build_state]
    simp

/-- The messages of a call: the numbering of the connection begins with the
first one that carries SQL. -/
theorem seq_messages (c : ConnID) (fromClient : Bool) (ts : ℤ) : ∀ (ms : List PGMessage) (sp : StreamProcessor),
    (Machine.final (fun sp msg => handle sp c fromClient ts msg) sp ms).eb.seq c = none ↔
      sp.eb.seq c = none ∧ (fromClient = true → ∀ msg ∈ ms, sp.eb.cfg.carriesSQL msg = false)
  | [], sp => by simp
  | msg :: ms, sp => by
    rw [Machine.final_cons, seq_messages c fromClient ts ms, eb_handle, List.forall_mem_cons]
    dsimp only
    by_cases hm : fromClient = true ∧ sp.eb.cfg.carriesSQL msg = true
    · rw [if_pos hm, GoMap.set_self]
      simp [hm.1, hm.2]
    · rw [if_neg hm]
      rcases fromClient with _ | _
      · simp
      · have hno : sp.eb.cfg.carriesSQL msg = false := by simpa using hm
        simp [hno]

/-- Nothing else of the builder ever changes. -/
theorem eb_step (sp : StreamProcessor) (call : Call) :
    (sp.step call).1.eb.cfg = sp.eb.cfg ∧ (sp.step call).1.eb.copyState = sp.eb.copyState := by
  rcases call with ⟨c, fromClient, data, ts⟩ | c
  · refine Prod.ext_iff.1 (Machine.final_frame (f := fun sp => ((eb sp).cfg, (eb sp).copyState))
      (fun sp msg => handle sp c fromClient ts msg) (fun sp msg => ?_) _ _)
    rw [eb_handle]
  · exact ⟨rfl, rfl⟩

theorem eb_run (sp : StreamProcessor) (calls : List Call) :
    (sp.run calls).eb.cfg = sp.eb.cfg ∧ (sp.run calls).eb.copyState = sp.eb.copyState :=
  Prod.ext_iff.1 (Machine.final_frame (f := fun sp => ((eb sp).cfg, (eb sp).copyState)) _
    (fun sp call => Prod.ext_iff.2 (eb_step sp call)) calls sp)

/-- **The builder has an entry for a connection** once a message of its client
carried SQL, whether or not the connection closed since. -/
theorem seq_run (c : ConnID) : ∀ (calls : List Call) (sp : StreamProcessor),
    (sp.run calls).eb.seq c = none ↔
      sp.eb.seq c = none ∧ ∀ msg ∈ msgsOf true (sp.trace calls c), sp.eb.cfg.carriesSQL msg = false
  | [], sp => by simp [run, trace, history, Machine.history, msgsOf]
  | call :: calls, sp => by
    have hrest := seq_run c calls (sp.step call).1
    rw [(eb_step sp call).1] at hrest
    rw [run, Machine.final_cons]
    refine hrest.trans ?_
    by_cases hc : call.conn = c
    · rw [trace_cons_self hc, msgsOf_append, List.forall_mem_append, ← and_assoc]
      refine and_congr_left fun _ => ?_
      rcases call with ⟨c', fromClient, data, ts⟩ | c'
      · obtain rfl : c' = c := hc
        have hframed : (sp.step (.onBytes c' fromClient data ts)).2.handled.map (·.1) =
            ((sp.session c').framed fromClient data).1 :=
          List.map_fst_zip (by rw [Machine.length_outs])
        rw [msgsOf_observe, hframed]
        refine (seq_messages c' fromClient ts _ _).trans (and_congr_right fun _ => ?_)
        rcases fromClient with _ | _
        · simp
        · simp
          rfl
      · obtain rfl : c' = c := hc
        simp [step, onClose, msgsOf, observe]
    · rw [trace_cons_of_ne hc]
      exact Iff.of_eq (congrArg (fun e => Entries.ebSeq e = none ∧ _) (entries_step_of_ne (Ne.symm hc) sp))

/-! ### Closing -/

theorem entries_onClose (sp : StreamProcessor) (c : ConnID) :
    (sp.onClose c).entries c = { ebSeq := sp.eb.seq c, ebCopy := sp.eb.copyState c } := by
  simp [entries, onClose, StateMachine.forget, BindCorrelator.forget, CopyTracker.discard, CopyTracker.clear,
    SourceExecTimer.forget, TxIDGenerator.reset]

/-- A closed connection that sends nothing stays as it is. -/
theorem entries_closed {c : ConnID} {e : Entries} (he : e = { ebSeq := e.ebSeq, ebCopy := e.ebCopy }) :
    ∀ (calls : List Call) (sp : StreamProcessor), (∀ call ∈ calls, call.conn = c → call = .onClose c) →
      sp.entries c = e → (sp.run calls).entries c = e
  | [], _, _, h => h
  | call :: calls, sp, hcalls, h => by
    obtain ⟨hcall, hrest⟩ := List.forall_mem_cons.1 hcalls
    apply entries_closed he calls (sp.step call).1 hrest
    by_cases hc : call.conn = c
    · rw [hcall hc]
      refine (entries_onClose sp c).trans (he.trans ?_).symm
      rw [← h]
      rfl
    · rw [entries_step_of_ne (Ne.symm hc), h]

end StreamProcessor

/-- **What stays of a closed connection.** After `OnClose`, until the connection
sends again, none of the maps has an entry for it exactly if none of its
client's messages ever carried SQL. -/
theorem released_iff {U : CaseTable} {pcfg : ProtocolConfig} {fcfg : FilterConfig} {collector : Bool}
    {sp : StreamProcessor} (hsp : newStreamProcessor U pcfg fcfg collector = .ok sp) (c : ConnID)
    (calls later : List Call) (hlater : ∀ call ∈ later, call.conn = c → call = .onClose c) :
    (sp.run (calls ++ .onClose c :: later)).entries c = {} ↔
      ∀ msg ∈ msgsOf true (sp.trace calls c), pcfg.carriesSQL msg = false := by
  obtain ⟨-, -, hnew, -⟩ := new_parts hsp
  have hcopy : (sp.run calls).eb.copyState c = none := by
    rw [(StreamProcessor.eb_run sp calls).2, hnew]
    rfl
  have hseq := StreamProcessor.seq_run c calls sp
  rw [hnew] at hseq
  have hfinal : (sp.run (calls ++ .onClose c :: later)).entries c = { ebSeq := (sp.run calls).eb.seq c } := by
    rw [StreamProcessor.run, Machine.final_append, Machine.final_cons]
    refine StreamProcessor.entries_closed rfl later _ hlater ?_
    have hclose := StreamProcessor.entries_onClose (sp.run calls) c
    rwa [hcopy] at hclose
  rw [hfinal, Entries.mk.injEq]
  simp only [true_and, and_true]
  exact hseq.trans (and_iff_right rfl)

theorem released_after_startup :
    ((defaultProcessor ⟨id, id⟩ {} false).run (sessionCalls someConn [] ++ [.onClose someConn])).entries someConn =
      {} :=
  (released_iff (new_default _ _ _) someConn (sessionCalls someConn []) [] (by simp)).2 (by decide +kernel)

/-- After one query and the close, the builder's `seq` has an entry for the
connection. -/
theorem seq_leaks :
    let sp := (defaultProcessor ⟨id, id⟩ {} false).run
      (sessionCalls someConn [(msgSimpleQuery, bytes "SELECT 1\x00")] ++ [.onClose someConn])
    sp.eb.seq someConn = some 1 ∧ sp.entries someConn ≠ {} := by
  have h : ((defaultProcessor ⟨id, id⟩ {} false).run
      (sessionCalls someConn [(msgSimpleQuery, bytes "SELECT 1\x00")] ++ [.onClose someConn])).eb.seq someConn =
        some 1 := by
    decide +kernel
  refine ⟨h, fun hempty => ?_⟩
  have hnone := h.symm.trans (congrArg Entries.ebSeq hempty)
  cases hnone

end PgShadow
