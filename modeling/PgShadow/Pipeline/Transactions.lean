/-
# The transaction state without server traffic

With only the client's side of the traffic, the processor infers from the
statements whether a connection is in a transaction. On a sequence of
transaction-control queries that succeed, what it infers is `inferAll`: a query
that holds a statement taken for an end leaves the connection idle, else one
with a BEGIN in a transaction. `transactions_tracked_iff` compares that with the
server's own account, `execAll`: they go on agreeing with a query exactly if it
is `Followed`.

ABORT is not recognised, AND CHAIN and the order of a batch are not looked at,
and ROLLBACK WORK TO is taken for a ROLLBACK; the queries of
`transaction_lost` are not followed. Names that move the scan of the splitter
(`Item.legible`) are a failure of their own.

Key definitions: `TxControl.Query.inferred`, `TxControl.Query.Followed`.
Key theorem: `transactions_tracked_iff`.
-/
import PgShadow.Filter.TxClassify
import PgShadow.Pipeline.Isolation
import PgShadow.Pipeline.Statements

namespace PgShadow

namespace TxControl

/-! ### What is inferred -/

/-- What the source infers from a query. -/
def Query.inferred (q : Query) (inBlock : Bool) : Bool :=
  if q.stmts.any Stmt.takenForEnd then false else if q.stmts.any Stmt.opens then true else inBlock

def inferAll (qs : List Query) : Bool := qs.foldl (fun b q => q.inferred b) false

/-- The names and comments of the query are read as the server reads them. -/
def Query.Legible (q : Query) : Prop := ∀ i ∈ q.items, i.legible = true

/-- The query takes the connection from `before` to `after` in a way the source
can follow: into or within a block without a statement that is taken for an
end, out of it with one. -/
def Query.Followed (q : Query) (before after : Bool) : Prop :=
  if after then ∀ s ∈ q.stmts, s.takenForEnd = false
  else (∃ s ∈ q.stmts, s.takenForEnd = true) ∨ (before = false ∧ ∀ s ∈ q.stmts, s.opens = false)

instance (q : Query) : Decidable q.Legible := by
  unfold Query.Legible
  infer_instance

instance (q : Query) (before after : Bool) : Decidable (q.Followed before after) := by
  unfold Query.Followed
  infer_instance

/-- Without a BEGIN a session stays outside of a block. -/
theorem exec_outside : ∀ {ss : List Stmt} {b : Bool}, (∀ s ∈ ss, s.opens = false) →
    ss.foldlM (fun b s => s.exec b) false = some b → b = false
  | [], b, _, h => (Option.some.inj h).symm
  | s :: ss, b, hno, h => by
    rw [List.foldlM_cons] at h
    have hstep : s.exec false = none ∨ s.exec false = some false := by
      have hs := hno s List.mem_cons_self
      rcases s with ⟨_, _⟩ | _ | ⟨_, _, _ | _ | _⟩ | _ | _ | ⟨_, _⟩
      · cases hs
      · cases hs
      · exact Or.inr rfl
      · exact Or.inr rfl
      · exact Or.inl rfl
      · exact Or.inl rfl
      · exact Or.inl rfl
      · exact Or.inl rfl
    rcases hstep with hstep | hstep <;> rw [hstep] at h
    · cases h
    · exact exec_outside (fun s' hs' => hno s' (List.mem_cons_of_mem s hs')) h

/-- A query is followed exactly if what is inferred from it is so. -/
theorem followed_iff {q : Query} {b b' : Bool} (hexec : q.exec b = some b') :
    q.Followed b b' ↔ q.inferred b = b' := by
  unfold Query.Followed Query.inferred
  by_cases hend : q.stmts.any Stmt.takenForEnd = true
  · obtain ⟨s, hs, hs'⟩ := List.any_eq_true.1 hend
    rw [if_pos hend]
    rcases b' with _ | _
    · simp only [Bool.false_eq_true, if_false, iff_true]
      exact Or.inl ⟨s, hs, hs'⟩
    · simp only [if_true, Bool.false_eq_true, iff_false]
      intro hno
      rw [hno s hs] at hs'
      cases hs'
  rw [if_neg hend]
  have hno : ∀ s ∈ q.stmts, s.takenForEnd = false := by simpa using hend
  have hno' : ¬ ∃ s ∈ q.stmts, s.takenForEnd = true := by
    rintro ⟨s, hs, hs'⟩
    rw [hno s hs] at hs'
    cases hs'
  by_cases hopen : q.stmts.any Stmt.opens = true
  · obtain ⟨s, hs, hs'⟩ := List.any_eq_true.1 hopen
    rw [if_pos hopen]
    rcases b' with _ | _
    · simp only [Bool.false_eq_true, if_false, Bool.true_eq_false, iff_false]
      rintro (h | ⟨-, h⟩)
      · exact hno' h
      · rw [h s hs] at hs'
        cases hs'
    · simpa using hno
  · rw [if_neg hopen]
    have hopens : ∀ s ∈ q.stmts, s.opens = false := by simpa using hopen
    rcases b' with _ | _
    · simp only [Bool.false_eq_true, if_false]
      exact ⟨fun h => (h.resolve_left hno').1, fun h => Or.inr ⟨h, hopens⟩⟩
    · simp only [if_true]
      refine ⟨fun _ => ?_, fun _ => hno⟩
      -- outside of a block it would have stayed outside
      rcases b with _ | _
      · exact (exec_outside hopens hexec).symm
      · rfl

/-! ### No pooler's reset -/

theorem toUpper_letters (U : CaseTable) (r : Bytes) : ∀ {w : Bytes}, (∀ c ∈ w, letter c = true) →
    toUpper U (w ++ r) = (fold w).map (· - 32) ++ toUpper U r
  | [], _ => rfl
  | c :: w, h => by
    have hc := h c List.mem_cons_self
    have hbyte := forall_byte (p := fun c => letter c = true →
      (if 97 ≤ c ∧ c ≤ 122 then c - 32 else c) = (if 65 ≤ c ∧ c ≤ 90 then c + 32 else c) - 32)
      (by decide +kernel) c hc
    rw [List.cons_append, toUpper_cons U (letter_facts c hc).2.2.2, hbyte,
      toUpper_letters U r fun d hd => h d (List.mem_cons_of_mem c hd)]
    rfl

theorem reset_begins {U : CaseTable} {sql : Bytes} (h : StreamProcessor.isPoolerResetQuery U sql = true) :
    ∃ x ∈ [bytes "DISCARD ALL", bytes "RESET ALL", bytes "DEALLOCATE ALL"], x <+: toUpper U (trimSpace sql) := by
  unfold StreamProcessor.isPoolerResetQuery at h
  split_ifs at h
  simp only [Bool.or_eq_true, beq_iff_eq, List.isPrefixOf_iff_prefix] at h
  have hcut : ∀ x y z : Bytes, y = x ++ [chr ';'] → y <+: z → x <+: z := by
    rintro x y z rfl hz
    exact (List.prefix_append x _).trans hz
  rcases h with ((((h | h) | h) | h) | h) | h
  · exact ⟨bytes "DISCARD ALL", by simp, h ▸ List.prefix_rfl⟩
  · exact ⟨bytes "RESET ALL", by simp, h ▸ List.prefix_rfl⟩
  · exact ⟨bytes "DEALLOCATE ALL", by simp, h ▸ List.prefix_rfl⟩
  · exact ⟨bytes "DISCARD ALL", by simp, hcut _ _ _ (by decide) h⟩
  · exact ⟨bytes "RESET ALL", by simp, hcut _ _ _ (by decide) h⟩
  · exact ⟨bytes "DEALLOCATE ALL", by simp, hcut _ _ _ (by decide) h⟩

/-- Transaction control is no reset command of a pooler. -/
theorem not_reset (U : CaseTable) (q : Query) : StreamProcessor.isPoolerResetQuery U q.text = false := by
  by_contra hreset
  obtain ⟨x, hx, hpre⟩ := reset_begins (by simpa using hreset)
  rcases text_starts q with hnil | ⟨c, t, heq, hc⟩ | ⟨w, r, heq, hw⟩
  · rw [hnil, show toUpper U [] = [] by unfold toUpper; rw [mapRunes]] at hpre
    rw [List.prefix_nil.1 hpre] at hx
    exact absurd hx (by decide)
  · have hc' : c.toNat < 128 ∧ (if 97 ≤ c ∧ c ≤ 122 then c - 32 else c) = c := by
      rcases hc with rfl | rfl | rfl <;> decide
    rw [heq, toUpper_cons U hc'.1, hc'.2] at hpre
    have hhead : x.head? = some c := by
      rcases x with _ | ⟨d, x⟩
      · exact absurd hx (by decide)
      · rw [(List.cons_prefix_cons.1 hpre).1]
        rfl
    have hxs : ∀ x ∈ [bytes "DISCARD ALL", bytes "RESET ALL", bytes "DEALLOCATE ALL"],
        x.head? ≠ some (chr '-') ∧ x.head? ≠ some (chr '/') ∧ x.head? ≠ some (chr ';') := by decide
    rcases hc with rfl | rfl | rfl
    · exact (hxs x hx).1 hhead
    · exact (hxs x hx).2.1 hhead
    · exact (hxs x hx).2.2 hhead
  · have hleads : ∀ k ∈ leads, 3 ≤ (k.map (· - 32)).length ∧ k.all letter = true ∧
        ∀ x ∈ [bytes "DISCARD ALL", bytes "RESET ALL", bytes "DEALLOCATE ALL"],
          3 ≤ x.length ∧ x.take 3 ≠ (k.map (· - 32)).take 3 := by decide
    obtain ⟨hlen, hletters, hne⟩ := hleads _ hw
    rw [heq, toUpper_letters U r (letter_of_fold hletters)] at hpre
    obtain ⟨k, hk⟩ := hpre
    apply (hne x hx).2
    rw [← List.take_append_of_le_length (hne x hx).1, hk, List.take_append_of_le_length hlen]

end TxControl

open TxControl

/-! ### Runs -/

/-- The text of a Simple_Query. -/
def Obs.query? : Obs → Option Bytes
  | .client msg _ => if msg.type = msgSimpleQuery then some (extractSimpleQuerySQL msg.payload) else none
  | _ => none

/-- A message of the client, and none that executes a prepared statement or
ends a COPY. -/
def Obs.oneWay : Obs → Bool
  | .client msg _ => decide (msg.type ≠ msgBind ∧ msg.type ≠ msgCopyDone)
  | _ => false

/-- The status and the transaction id of a session say whether it is in a
transaction. -/
def Session.Says (s : Session) (inTx : Bool) : Prop :=
  s.status = (if inTx then .inTx else .idle) ∧ (s.tx = 0 ↔ inTx = false)

/-- A query of transaction control moves the session as inferred. -/
theorem says_query {E : Env} {c : ConnID} {ts : ℤ} {s : Session} {n : ℕ} {q : Query} (hleg : q.Legible) {b : Bool}
    (h : s.Says b) : (Session.answer E c ts (s, n) (.query q.text)).1.1.Says (q.inferred b) := by
  have hends := classify_commitRollback E.cls hleg
  have hbegins := classify_begin E.cls hleg
  have hrange := classify_mem E.cls hleg
  have hcopy : E.cls.classify q.text ≠ .copyFrom := by
    intro hcopy
    rw [hcopy] at hrange
    exact absurd hrange (by decide)
  have hev : s.eventOf E c ts (.query q.text) = some { conn := c, sql := q.text, timestamp := ts } := by
    rw [Session.eventOf, if_neg hcopy]
  have hres : E.resets q.text = false := by
    unfold Env.resets
    rw [not_reset]
    simp
  rw [Session.answer_event hev]
  unfold Session.Says Query.inferred
  dsimp only
  rw [Session.conclude_status, Session.conclude_tx, hres]
  by_cases hend : q.stmts.any Stmt.takenForEnd = true
  · have hcls := hends.2 (List.any_eq_true.1 hend)
    rw [hcls, if_pos hend]
    exact ⟨rfl, iff_of_true rfl rfl⟩
  have hno : ∀ s ∈ q.stmts, s.takenForEnd = false := by simpa using hend
  have hcommit : E.cls.classify q.text ≠ .commitRollback := fun hcls => hend (List.any_eq_true.2 (hends.1 hcls))
  rw [if_neg hend]
  by_cases hopen : q.stmts.any Stmt.opens = true
  · have hcls := hbegins.2 ⟨hno, List.any_eq_true.1 hopen⟩
    rw [hcls, if_pos hopen]
    refine ⟨rfl, iff_of_false ?_ Bool.true_eq_false.mp⟩
    exact Nat.succ_ne_zero n
  · have hbegin : E.cls.classify q.text ≠ .begin := fun hcls => hopen (List.any_eq_true.2 (hbegins.1 hcls).2)
    have hgroups : s.groups (E.cls.classify q.text) = false := by
      unfold Session.groups
      rw [decide_eq_false_iff_not]
      rintro (hcls | ⟨-, hcls⟩)
      · exact hbegin hcls
      · rcases hcls with hcls | hcls | hcls <;> rw [hcls] at hrange <;> exact absurd hrange (by decide)
    have hkeeps : ¬ (E.cls.classify q.text = .commitRollback ∨ false = true) := by simp [hcommit]
    rw [if_neg hopen, if_neg hbegin, if_neg hcommit, if_neg hkeeps, Session.txFor, hgroups]
    exact h

/-- A message without a query leaves it where it is. -/
theorem says_other {E : Env} {c : ConnID} {ts : ℤ} {s : Session} {n : ℕ} {msg : PGMessage}
    (hQ : msg.type ≠ msgSimpleQuery) (hB : msg.type ≠ msgBind) (hd : msg.type ≠ msgCopyDone) {b : Bool}
    (h : s.Says b) : (Session.answer E c ts (s, n) (E.request msg)).1.1.Says b := by
  have hfits := E.request_fits msg
  rcases hreq : E.request msg with sql | ⟨name, info⟩ | ⟨name, formats, values⟩ | payload | _ | _ | _ | _
  all_goals rw [hreq] at hfits
  · exact absurd hfits.1 hQ
  · exact h
  · exact absurd hfits.1 hB
  · exact h
  · exact absurd hfits hd
  · exact h
  · exact h
  · exact h

/-- Along a run, the session says what is inferred from its queries. -/
theorem says_run {sp : StreamProcessor} {c : ConnID} (hstart : sp.session c = .fresh) (calls : List Call) :
    ∀ qs : List Query, (∀ o ∈ sp.trace calls c, o.oneWay = true) →
      (sp.trace calls c).filterMap Obs.query? = qs.map Query.text →
      (∀ q ∈ qs, q.Legible ∧ oversized sp.env.build q.text = false) →
        ((sp.run calls).session c).Says (inferAll qs) := by
  refine trace_induction (E := sp.env) (c := c)
    (P := fun s tr => ∀ qs : List Query, (∀ o ∈ tr, o.oneWay = true) →
      tr.filterMap Obs.query? = qs.map Query.text →
        (∀ q ∈ qs, q.Legible ∧ oversized sp.env.build q.text = false) → s.Says (inferAll qs))
    ?_ ?_ ?_ ?_ rfl ?_ calls
  · intro s n tr msg ts ih qs hway hqs hleg
    have hlast := hway (.client msg _) (List.mem_append_right tr (List.mem_singleton_self _))
    obtain ⟨hB, hd⟩ := decide_eq_true_iff.1 hlast
    have hway' : ∀ o ∈ tr, o.oneWay = true := fun o ho => hway o (List.mem_append_left _ ho)
    rw [List.filterMap_append] at hqs
    by_cases hQ : msg.type = msgSimpleQuery
    · have hsome : (Obs.client msg (Session.answer sp.env c ts (s, n) (sp.env.request msg)).2).query? =
          some (extractSimpleQuerySQL msg.payload) := by
        rw [Obs.query?, if_pos hQ]
      rw [List.filterMap_cons_some hsome, List.filterMap_nil] at hqs
      obtain ⟨qs', ql, rfl, hqs', hql⟩ := List.map_eq_append_iff.1 hqs.symm
      obtain ⟨q, rfl, htext⟩ := List.map_eq_singleton_iff.1 hql
      have hq := hleg q (List.mem_append_right qs' (List.mem_singleton_self q))
      have hreq : sp.env.request msg = .query q.text := by
        unfold Env.request
        rw [if_pos hQ, ← htext]
        simp only [hq.2, Bool.false_eq_true, if_false]
      rw [hreq, inferAll, List.foldl_concat]
      exact says_query hq.1 (ih qs' hway' hqs'.symm fun p hp => hleg p (List.mem_append_left _ hp))
    · have hnone : (Obs.client msg (Session.answer sp.env c ts (s, n) (sp.env.request msg)).2).query? = none := by
        rw [Obs.query?, if_neg hQ]
      rw [List.filterMap_cons_none hnone, List.filterMap_nil, List.append_nil] at hqs
      exact says_other hQ hB hd (ih qs hway' hqs hleg)
  · intro s tr msg ts _ qs hway
    cases hway (.server msg _) (List.mem_append_right tr (List.mem_singleton_self _))
  · intro s tr fromClient data ih qs hway hqs hleg
    have h := ih qs hway hqs hleg
    rcases fromClient with _ | _ <;> exact h
  · intro s tr _ qs hway
    cases hway .close (List.mem_append_right tr (List.mem_singleton_self _))
  · intro qs _ hqs _
    obtain rfl : qs = [] := by simpa using hqs.symm
    rw [hstart]
    exact ⟨rfl, iff_of_true rfl rfl⟩

theorem inferAll_followed {qs : List Query} : ∀ {b : Bool}, execAll qs = some b →
    (∀ u q v, qs = u ++ q :: v → ∀ before after, execAll u = some before → q.exec before = some after →
      q.Followed before after) → inferAll qs = b := by
  induction qs using List.reverseRecOn with
  | nil => exact fun h _ => Option.some.inj h
  | append_singleton qs q ih =>
    intro b h hfollowed
    unfold execAll at h
    rw [List.foldlM_append, Option.bind_eq_bind, Option.bind_eq_some_iff] at h
    obtain ⟨before, hbefore, hexec⟩ := h
    have hexec : q.exec before = some b := by simpa using hexec
    have hinfer := ih hbefore fun u p v heq => hfollowed u p (v ++ [q]) (by rw [heq]; simp)
    have hlast := (followed_iff hexec).1 (hfollowed qs q [] rfl before b hbefore hexec)
    unfold inferAll at hinfer ⊢
    rw [List.foldl_concat, hinfer, hlast]

/-- **Transaction tracking.** On a connection of which only the client's
messages are seen, let all queries be transaction control that succeeds on the
server, and all but the last be followed. Then the recorded status and the
current transaction id say after the last query whether the session is in a
block exactly if it is followed too. -/
theorem transactions_tracked_iff {U : CaseTable} {pcfg : ProtocolConfig} {fcfg : FilterConfig} {collector : Bool}
    {sp : StreamProcessor} (hsp : newStreamProcessor U pcfg fcfg collector = .ok sp) (calls : List Call)
    (c : ConnID) (hway : ∀ o ∈ sp.trace calls c, o.oneWay = true) (qs : List Query) (q : Query)
    (htexts : (sp.trace calls c).filterMap Obs.query? = (qs ++ [q]).map Query.text)
    (hread : ∀ p ∈ qs ++ [q], p.Legible ∧ oversized pcfg p.text = false)
    (hfollowed : ∀ u p v, qs = u ++ p :: v → ∀ before after, execAll u = some before →
      p.exec before = some after → p.Followed before after)
    (before after : Bool) (hbefore : execAll qs = some before) (hafter : q.exec before = some after) :
    (((sp.run calls).sm.state c = .inTx ↔ after = true) ∧ ((sp.run calls).txGen.currentOf c = 0 ↔ after = false)) ↔
      q.Followed before after := by
  have hsays := says_run (new_session hsp c) calls (qs ++ [q]) hway htexts fun p hp => by
    rw [new_build hsp]
    exact hread p hp
  have hinfer : inferAll (qs ++ [q]) = q.inferred before := by
    have hprev := inferAll_followed hbefore hfollowed
    unfold inferAll at hprev ⊢
    rw [List.foldl_concat, hprev]
  rw [hinfer] at hsays
  obtain ⟨hstatus, htx⟩ := hsays
  change (sp.run calls).sm.state c = _ at hstatus
  change (sp.run calls).txGen.currentOf c = 0 ↔ _ at htx
  rw [followed_iff hafter, hstatus, htx]
  rcases q.inferred before with _ | _ <;> rcases after with _ | _ <;> decide

/-! ### Queries, followed and not -/

/-- Words with a blank between them. -/
def phrase : List String → List Item
  | [] => []
  | [w] => [.word (bytes w)]
  | w :: ws => .word (bytes w) :: .space 32 :: phrase ws

def beginSegment : Segment := ⟨some (.begin none []), phrase ["BEGIN"], by decide +kernel⟩

def commitSegment : Segment := ⟨some (.finish .commit none none), phrase ["COMMIT"], by decide +kernel⟩

def abortSegment : Segment := ⟨some (.finish .abort none none), phrase ["ABORT"], by decide +kernel⟩

def chainSegment : Segment :=
  ⟨some (.finish .commit none (some true)), phrase ["COMMIT", "AND", "CHAIN"], by decide +kernel⟩

def savepointSegment : Segment := ⟨some .savepoint, phrase ["Savepoint", "a"], by decide +kernel⟩

/-- `SAVEPOINT "a;commit"` -/
def oddSavepointSegment : Segment :=
  ⟨some .savepoint, phrase ["SAVEPOINT"] ++ [.space 32, .quoted (bytes "a;commit")], by decide +kernel⟩

def rollbackWorkToSegment : Segment :=
  ⟨some (.rollbackTo (some .work) false), phrase ["ROLLBACK", "WORK", "TO", "a"], by decide +kernel⟩

def beginQuery : Query := ⟨[beginSegment], by decide +kernel⟩

/-- `BEGIN;Savepoint a` -/
def nestedQuery : Query := ⟨[beginSegment, savepointSegment], by decide +kernel⟩

/-- `rollback to "a"; -- done\nCOMMIT work ;` -/
def doneQuery : Query :=
  ⟨[⟨some (.rollbackTo none false), phrase ["rollback", "to"] ++ [.quoted (bytes "a")], by decide +kernel⟩,
    ⟨some (.finish .commit (some .work) none),
      [.space 32, .line (bytes " done") 10] ++ phrase ["COMMIT", "work"] ++ [.space 32], by decide +kernel⟩,
    ⟨none, [], by decide +kernel⟩], by decide +kernel⟩

/-- The default processor after a connection sent the queries. -/
def afterQueries (qs : List Query) : StreamProcessor :=
  (defaultProcessor ⟨id, id⟩ {} false).run (sessionCalls someConn (qs.map fun q => (msgSimpleQuery, q.text ++ [0])))

theorem transactions_tracked_two :
    execAll [nestedQuery] = some true ∧ doneQuery.exec true = some false ∧
      (afterQueries [nestedQuery, doneQuery]).sm.state someConn ≠ .inTx ∧
      (afterQueries [nestedQuery, doneQuery]).txGen.currentOf someConn = 0 := by
  have hbefore : execAll [nestedQuery] = some true := by decide +kernel
  have hafter : doneQuery.exec true = some false := by decide +kernel
  have hfirst : ∀ u p v, [nestedQuery] = u ++ p :: v → ∀ before after, execAll u = some before →
      p.exec before = some after → p.Followed before after := by
    intro u p v heq before after hb ha
    rcases u with _ | ⟨x, u⟩
    · obtain ⟨rfl, -⟩ := List.cons.inj heq
      obtain rfl := Option.some.inj hb
      rw [show nestedQuery.exec false = some true by decide +kernel] at ha
      obtain rfl := Option.some.inj ha
      decide +kernel
    · simp at heq
  obtain ⟨hstate, htx⟩ := (transactions_tracked_iff (new_default ⟨id, id⟩ {} false)
    (sessionCalls someConn ([nestedQuery, doneQuery].map fun q => (msgSimpleQuery, q.text ++ [0]))) someConn
    (by decide +kernel) [nestedQuery] doneQuery (by decide +kernel) (by decide +kernel) hfirst true false
    hbefore hafter).2 (by decide +kernel)
  exact ⟨hbefore, hafter, fun h => Bool.false_ne_true (hstate.1 h), htx.2 rfl⟩

/-- Runs that end in a query that is not followed or not legible, and whether
the session is in a block then. -/
def lostRuns : List (List Query × Bool) :=
  [([beginQuery, ⟨[abortSegment], by decide +kernel⟩], false),
    ([beginQuery, ⟨[chainSegment], by decide +kernel⟩], true),
    ([nestedQuery, ⟨[rollbackWorkToSegment], by decide +kernel⟩], true),
    ([beginQuery, ⟨[commitSegment, beginSegment], by decide +kernel⟩], true),
    ([beginQuery, ⟨[oddSavepointSegment], by decide +kernel⟩], true)]

/-- After each of these runs the recorded status and the transaction id say the
opposite of what is the case. -/
theorem transaction_lost : lostRuns.Forall fun x => execAll x.1 = some x.2 ∧
    ((afterQueries x.1).sm.state someConn = .inTx ↔ x.2 = false) ∧
    ((afterQueries x.1).txGen.currentOf someConn = 0 ↔ x.2 = true) := by
  decide +kernel

end PgShadow
