/-
# Statements outside transactions

A DML, DDL or COPY outside a transaction block draws a transaction id if its connection
has none. The group it opens is not closed when the statement is over: only COMMIT,
ROLLBACK, a pooler's reset query and the end of the connection close one. So two such
statements have different ids if and only if one of these comes between them
(`autocommit_ids_iff`).

Key definitions: `Entry.ends`, `OutsideBlock`.
Key theorems: `Follows.same_id`, `Follows.new_id`, `autocommit_ids_iff`.
-/
import PgShadow.Pipeline.Grouping

namespace PgShadow

/-- The statement wants a transaction id. -/
def wantsTx (cls : Classifier) (ev : SQLEvent) : Prop :=
  cls.classify ev.sql = .dml ∨ cls.classify ev.sql = .ddl ∨ cls.classify ev.sql = .copyFrom

/-- The entry ends the group of the connection: COMMIT or ROLLBACK, a pooler's reset query,
or the end of the connection. -/
def Entry.ends (E : Env) (c : ConnID) : Entry → Prop
  | .event ev => ev.conn = c ∧ (E.cls.classify ev.sql = .commitRollback ∨ E.resets ev.sql = true)
  | .close c' => c' = c

/-- After these entries the connection is in no transaction block: every BEGIN is followed
by a COMMIT or ROLLBACK, or the connection was closed. -/
def OutsideBlock (cls : Classifier) (c : ConnID) (l : List Entry) : Prop :=
  ∀ u first v, l = u ++ .event first :: v → first.conn = c → cls.classify first.sql = .begin →
    (∃ ev ∈ eventsOf v, ev.conn = c ∧ cls.classify ev.sql = .commitRollback) ∨ .close c ∈ v

/-! ### The acts -/

section Acts

variable {E : Env} {c : ConnID}

/-- What wants an id neither begins nor ends a transaction. -/
theorem actIn_of_wantsTx {ev : SQLEvent} (h : wantsTx E.cls ev) :
    Entry.actIn E (.event ev) = .stamp ev.conn false true false := by
  have hreset : E.resets ev.sql = false := by
    unfold Env.resets
    obtain h | h | h := h <;> simp [h]
  unfold wantsTx at h
  obtain h | h | h := h <;> simp [Entry.actIn, h, hreset]

theorem Entry.closes_of_ends {e : Entry} (h : e.ends E c) : (e.actIn E).Closes c := by
  cases e with
  | event ev => exact ⟨h.1, decide_eq_true h.2⟩
  | close c' => exact h

/-- Outside a block nothing begins a group without ending it. -/
theorem within_of_outside {before between : List Entry} (hout : OutsideBlock E.cls c (before ++ between))
    (hends : ∀ e ∈ between, ¬e.ends E c) : ∀ a ∈ between.map (Entry.actIn E), a.Within c := by
  intro a ha
  obtain ⟨e, he, rfl⟩ := List.mem_map.mp ha
  cases e with
  | close c' => exact fun hc => hends _ he hc
  | event ev =>
    intro hconn
    refine ⟨decide_eq_false fun hbegin => ?_, decide_eq_false fun hend => hends _ he ⟨hconn, hend⟩⟩
    obtain ⟨u, v, rfl⟩ := List.append_of_mem he
    have hsub : ∀ e ∈ v, e ∈ u ++ Entry.event ev :: v := fun e hmem =>
      List.mem_append_right u (List.mem_cons_of_mem _ hmem)
    obtain ⟨x, hx, hxconn, hcommit⟩ | hclose := hout (before ++ u) ev v (by simp) hconn hbegin
    · exact hends _ (hsub _ (mem_eventsOf.mp hx)) ⟨hxconn, .inl hcommit⟩
    · exact hends _ (hsub _ hclose) rfl

end Acts

/-! ### Two statements -/

section Pair

variable {E : Env} {s s' : Tickets.State ConnID} {between rest : List Entry} {ev ev' : SQLEvent}

/-- The state and the id at the first statement. -/
theorem Follows.first_id (h : Follows (Entry.actIn E) s (.event ev :: rest) s') (hev : wantsTx E.cls ev) :
    ev.txID ≠ 0 ∧ ∃ s₁ : Tickets.State ConnID, s₁.current ev.conn = ev.txID ∧
      (s.current ev.conn ≤ s.counter → ev.txID ≤ s₁.counter) ∧ Follows (Entry.actIn E) s₁ rest s' := by
  obtain ⟨hid, hrest⟩ := h.head
  rw [actIn_of_wantsTx hev] at hid hrest
  have hnumber : s.number ev.conn false true = ev.txID := hid
  refine ⟨hnumber ▸ Tickets.number_ne_zero s ev.conn false, _, ?_, ?_, hrest⟩
  · exact (Function.update_self ..).trans hnumber
  · intro hle
    rw [← hnumber]
    show s.number ev.conn false true ≤ if s.draws ev.conn false true then s.counter + 1 else s.counter
    unfold Tickets.State.number
    split_ifs
    · exact Nat.le_refl _
    · exact hle

/-- The id of the second statement. -/
theorem Follows.second_id (h : Follows (Entry.actIn E) s (between ++ .event ev' :: rest) s')
    (hev' : wantsTx E.cls ev') :
    (Machine.final Tickets.step s (between.map (Entry.actIn E))).number ev'.conn false true = ev'.txID := by
  obtain ⟨hid, -⟩ := h.split.2.head
  rw [actIn_of_wantsTx hev'] at hid
  exact hid

variable (h : Follows (Entry.actIn E) s (.event ev :: (between ++ .event ev' :: rest)) s')
  (hconn : ev'.conn = ev.conn) (hev : wantsTx E.cls ev) (hev' : wantsTx E.cls ev')
include h hconn hev hev'

/-- Where nothing ends the group, the second statement is in it. -/
theorem Follows.same_id (hwithin : ∀ a ∈ between.map (Entry.actIn E), a.Within ev.conn) : ev'.txID = ev.txID := by
  obtain ⟨hpos, s₁, hcur, -, hafter⟩ := h.first_id hev
  have hkept := Tickets.kept (by rw [hcur]; exact hpos) hwithin
  rw [hcur] at hkept
  rw [← hafter.second_id hev', hconn, Tickets.number_of_current (by rw [hkept]; exact hpos), hkept]

/-- Where something ends it, the second statement has a new id. -/
theorem Follows.new_id (hle : s.current ev.conn ≤ s.counter) {e : Entry} (he : e ∈ between)
    (hends : e.ends E ev.conn) : ev.txID < ev'.txID := by
  obtain ⟨-, s₁, -, hcounter, hafter⟩ := h.first_id hev
  have hid := hafter.second_id hev'
  obtain ⟨u, v, rfl⟩ := List.append_of_mem he
  rw [List.map_append, Machine.final_append, List.map_cons, Machine.final_cons, hconn] at hid
  rw [← hid]
  have hn := (hcounter hle).trans (Tickets.counter_le (u.map (Entry.actIn E)) s₁)
  exact (Tickets.renewed (e.closes_of_ends hends) hn (v.map (Entry.actIn E))).lt_number false

end Pair

/-- **Two statements outside transaction blocks** have different ids, and each has one, if and
only if a COMMIT or ROLLBACK, a pooler's reset query or the end of the connection comes between
them. -/
theorem autocommit_ids_iff {U : CaseTable} {pcfg : ProtocolConfig} {fcfg : FilterConfig} {collector : Bool}
    {sp : StreamProcessor} (hsp : newStreamProcessor U pcfg fcfg collector = .ok sp) (calls : List Call)
    {before between rest : List Entry} {ev ev' : SQLEvent}
    (hlog : sp.log calls = before ++ .event ev :: (between ++ .event ev' :: rest)) (hconn : ev'.conn = ev.conn)
    (hev : wantsTx sp.cls ev) (hev' : wantsTx sp.cls ev')
    (hout : OutsideBlock sp.cls ev.conn (before ++ .event ev :: between)) :
    (ev.txID ≠ 0 ∧ ev'.txID ≠ 0 ∧ ev.txID ≠ ev'.txID) ↔ ∃ e ∈ between, e.ends sp.env ev.conn := by
  have hrun := StreamProcessor.follows_actIn_run calls sp
  rw [hlog, new_tickets hsp] at hrun
  have hfrom := hrun.split.2
  constructor
  · intro ⟨_, _, hne⟩
    by_contra hno
    have hends : ∀ e ∈ between, ¬e.ends sp.env ev.conn := fun e he hend => hno ⟨e, he, hend⟩
    have hout' : OutsideBlock sp.env.cls ev.conn ((before ++ [.event ev]) ++ between) := by
      rw [List.append_assoc]
      exact hout
    exact hne (hfrom.same_id hconn hev hev' (within_of_outside hout' hends)).symm
  · intro ⟨e, he, hends⟩
    have hle := (Tickets.inv_init.run (before.map (Entry.actIn sp.env))).current_le ev.conn
    have hlt := hfrom.new_id hconn hev hev' hle he hends
    exact ⟨(hfrom.first_id hev).1, Nat.ne_of_gt (Nat.zero_lt_of_lt hlt), hlt.ne⟩

theorem commit_between_inserts :
    let query := fun (sql : String) (ts : ℤ) =>
      Call.onBytes someConn true (wireTyped (msgSimpleQuery, bytes sql ++ [0])) ts
    let calls := [Call.onBytes someConn true (wireStartup [0, 3, 0, 0]) 0, query "INSERT INTO t VALUES (1)" 1,
      query "COMMIT" 2, query "INSERT INTO t VALUES (2)" 3]
    let sp := defaultProcessor ⟨id, id⟩ {} false
    let event := fun (sql : String) (timestamp : ℤ) (txID seq : ℕ) =>
      ({ conn := someConn, sql := bytes sql, timestamp, txID, seq } : SQLEvent)
    let ev := event "INSERT INTO t VALUES (1)" 1 1 1
    let commit := event "COMMIT" 2 1 2
    let ev' := event "INSERT INTO t VALUES (2)" 3 2 3
    sp.log calls = [] ++ .event ev :: ([.event commit] ++ .event ev' :: []) ∧
      ev.txID ≠ 0 ∧ ev'.txID ≠ 0 ∧ ev.txID ≠ ev'.txID := by
  intro query calls sp event ev commit ev'
  have hlog : sp.log calls = [] ++ .event ev :: ([.event commit] ++ .event ev' :: []) := by decide +kernel
  have hout : OutsideBlock sp.cls ev.conn ([] ++ .event ev :: [.event commit]) := by
    intro u first v hsplit _ hbegin
    have hmem : Entry.event first ∈ [.event ev, .event commit] := by
      rw [show [Entry.event ev, .event commit] = [] ++ .event ev :: [.event commit] from rfl, hsplit]
      exact List.mem_append_right u List.mem_cons_self
    obtain hfirst | hfirst := List.mem_pair.mp hmem
    · rw [Entry.event.inj hfirst] at hbegin
      exact absurd hbegin (by decide +kernel)
    · rw [Entry.event.inj hfirst] at hbegin
      exact absurd hbegin (by decide +kernel)
  exact ⟨hlog, (autocommit_ids_iff (new_default ⟨id, id⟩ {} false) calls hlog rfl (.inl (by decide +kernel))
    (.inl (by decide +kernel)) hout).mpr ⟨.event commit, List.mem_cons_self, rfl, .inl (by decide +kernel)⟩⟩

/-- Two INSERTs without a transaction share the id of the first. -/
theorem inserts_share_id :
    let query := fun (sql : String) (ts : ℤ) =>
      Call.onBytes someConn true (wireTyped (msgSimpleQuery, bytes sql ++ [0])) ts
    let calls := [Call.onBytes someConn true (wireStartup [0, 3, 0, 0]) 0, query "INSERT INTO t VALUES (1)" 1,
      query "INSERT INTO t VALUES (2)" 2]
    let sp := defaultProcessor ⟨id, id⟩ {} false
    (eventsOf (sp.log calls)).map (fun ev => (ev.sql, ev.txID)) =
        [(bytes "INSERT INTO t VALUES (1)", 1), (bytes "INSERT INTO t VALUES (2)", 1)] ∧
      ∀ ev ∈ eventsOf (sp.log calls), sp.cls.classify ev.sql = .dml := by
  decide +kernel

end PgShadow
