/-
# Which statement an event carries

Three ways in which a client message leads to an event, and what the trace of
the connection says about the event's text.

* A Bind executes the statement last registered under its name. A Parse that is
  skipped does not unregister the one before it: `bind_latest_iff`.
* The rows of a COPY are attached to the Simple_Query that last opened one. A
  statement sent after it does not end it: `copy_attributed`.
* A Simple_Query is dispatched at once unless its class is CopyFrom, which also
  a COPY from a file or a program has: `query_decided_iff`.

Key definitions: `latestParse`, `liveParse`, `Undisturbed`, `Attributed`,
`reached`.
-/
import Mathlib.Data.List.Infix
import PgShadow.Pipeline.Trace

namespace PgShadow

/-- A client's session in one chunk. -/
def sessionCalls (c : ConnID) (ms : List (UInt8 × Bytes)) : List Call :=
  [.onBytes c true (wireStartup [0, 3, 0, 0] ++ ms.flatMap wireTyped) 0]

/-! ### Prepared statements -/

/-- The statement name of a Parse, if it can be read. -/
def parsedName (msg : PGMessage) : Option Bytes :=
  if msg.type = msgParse then (readCString msg.payload).map (·.1) else none

/-- What a Parse declares, if it is not skipped. -/
def Env.accepted (E : Env) (msg : PGMessage) : Option ParseInfo :=
  match E.request msg with
  | .prepare _ info => some info
  | _ => none

/-- The connection closes, or a statement ends a pooler's session. -/
def Obs.forgets (E : Env) : Obs → Bool
  | .close => true
  | o => (decided o.effects).any fun ev => E.resets ev.sql

/-- The most recent Parse for `name` since the last close or pooler reset: what
it declared, `some none` if it was skipped. -/
def latestParse (E : Env) (name : Bytes) (tr : List Obs) : Option (Option ParseInfo) :=
  tr.foldl (fun cur o =>
    if o.forgets E then none
    else match o with
      | .client msg _ => if parsedName msg = some name then some (E.accepted msg) else cur
      | _ => cur) none

/-- The most recent Parse for `name` since the last close or pooler reset that
was not skipped. -/
def liveParse (E : Env) (name : Bytes) (tr : List Obs) : Option ParseInfo :=
  tr.foldl (fun cur o =>
    if o.forgets E then none
    else match o with
      | .client msg _ => if parsedName msg = some name then (E.accepted msg).or cur else cur
      | _ => cur) none

/-- The two differ only where a Parse was skipped. -/
theorem live_of_latest (E : Env) (name : Bytes) (tr : List Obs) :
    (latestParse E name tr = none → liveParse E name tr = none) ∧
      ∀ info, latestParse E name tr = some (some info) → liveParse E name tr = some info := by
  induction tr using List.reverseRecOn with
  | nil => exact ⟨fun _ => rfl, fun info h => by cases h⟩
  | append_singleton tr o ih =>
    unfold latestParse liveParse at *
    rw [List.foldl_concat, List.foldl_concat]
    by_cases hf : o.forgets E = true
    · rw [if_pos hf, if_pos hf]
      exact ⟨fun _ => rfl, fun info h => by cases h⟩
    rw [if_neg hf, if_neg hf]
    cases o with
    | client msg effs =>
      by_cases hn : parsedName msg = some name
      · simp only [hn, if_true]
        refine ⟨fun h => (by cases h), fun info h => ?_⟩
        rw [Option.some.inj h]
        rfl
      · simpa only [hn, if_false] using ih
    | _ => exact ih

theorem forgets_answer (E : Env) (c : ConnID) (ts : ℤ) (l : Session × ℕ) (req : Request) (msg : PGMessage) :
    (Obs.client msg (Session.answer E c ts l req).2).forgets E =
      (l.1.eventOf E c ts req).any fun ev => E.resets ev.sql := by
  unfold Obs.forgets Obs.effects
  simp only [decided_answer]
  cases l.1.eventOf E c ts req with
  | none => rfl
  | some ev => simp [Session.stamp]

theorem forgets_note (E : Env) (ts : ℤ) (s : Session) (msg : PGMessage) :
    (Obs.server msg (Session.note E ts s msg).2).forgets E = false := by
  unfold Obs.forgets Obs.effects
  simp only [(silent_note E ts s msg).1]
  rfl

/-- Only a Parse gives an entry, and only to the name it carries. -/
theorem parsedName_of_prepare {E : Env} {msg : PGMessage} {name : Bytes} {info : ParseInfo}
    (h : E.request msg = .prepare name info) : parsedName msg = some name := by
  have hfits := E.request_fits msg
  rw [h] at hfits
  obtain ⟨hP, hparse⟩ := hfits
  unfold parseParseMessage at hparse
  unfold parsedName
  rw [if_pos hP]
  cases hr : readCString msg.payload with
  | none => rw [hr] at hparse; cases hparse
  | some p =>
    obtain ⟨name', rest⟩ := p
    rw [hr] at hparse
    simp only at hparse
    cases hr2 : readCString rest with
    | none => rw [hr2] at hparse; cases hparse
    | some q =>
      obtain ⟨sql, rest'⟩ := q
      rw [hr2] at hparse
      simp only at hparse
      cases hi : readInt16 rest' with
      | none =>
        rw [hi] at hparse
        exact congrArg (Option.map (·.1)) hparse
      | some k =>
        rw [hi] at hparse
        exact congrArg (Option.map (·.1)) hparse

theorem parsedName_of_event {E : Env} {c : ConnID} {ts : ℤ} {s : Session} {msg : PGMessage} {ev : SQLEvent}
    (h : s.eventOf E c ts (E.request msg) = some ev) : parsedName msg = none := by
  have hfits := E.request_fits msg
  have hP : msg.type ≠ msgParse := by
    intro hP
    cases hr : E.request msg with
    | query sql => rw [hr] at hfits; rw [hfits.1] at hP; revert hP; decide
    | execute name formats values => rw [hr] at hfits; rw [hfits.1] at hP; revert hP; decide
    | copyDone => rw [hr] at hfits; rw [show msg.type = msgCopyDone from hfits] at hP; revert hP; decide
    | _ => rw [hr] at h; cases h
  unfold parsedName
  rw [if_neg hP]

/-- The registered statements are the Parses that were not skipped. -/
theorem stmts_answer {E : Env} {c : ConnID} {s : Session} {tr : List Obs}
    (h : ∀ name, s.stmts name = liveParse E name tr) (n : ℕ) (msg : PGMessage) (ts : ℤ) (name : Bytes) :
    (Session.answer E c ts (s, n) (E.request msg)).1.1.stmts name =
      liveParse E name (tr ++ [.client msg (Session.answer E c ts (s, n) (E.request msg)).2]) := by
  unfold liveParse at *
  rw [List.foldl_concat, forgets_answer, ← h name]
  cases hev : s.eventOf E c ts (E.request msg) with
  | some ev =>
    have hstmts : (Session.answer E c ts (s, n) (E.request msg)).1.1.stmts =
        if E.resets ev.sql then GoMap.empty else s.stmts := by
      rw [Session.answer_event hev]
      cases E.request msg <;> rfl
    rw [hstmts]
    by_cases hres : E.resets ev.sql = true
    · simp [hres]
    · simp [hres, parsedName_of_event hev]
  | none =>
    rw [Session.answer_none hev]
    cases hreq : E.request msg with
    | prepare name' info =>
      have hacc : E.accepted msg = some info := by unfold Env.accepted; rw [hreq]
      simp only [Session.absorb, Option.any_none, Bool.false_eq_true, if_false, parsedName_of_prepare hreq,
        Option.some.injEq, hacc]
      by_cases hn : name' = name
      · rw [hn, GoMap.set_self, if_pos rfl]
        rfl
      · rw [if_neg hn, GoMap.set_of_ne _ _ (Ne.symm hn)]
    | _ =>
      have hacc : E.accepted msg = none := by unfold Env.accepted; rw [hreq]
      simp [Session.absorb, hacc]

/-- A Bind executes what is registered under its name. -/
theorem decided_bind {U : CaseTable} {pcfg : ProtocolConfig} {fcfg : FilterConfig} {collector : Bool}
    {sp : StreamProcessor} (hsp : newStreamProcessor U pcfg fcfg collector = .ok sp) {calls : List Call}
    {c : ConnID} {u v : List Obs} {msg : PGMessage} {effects : List Effect}
    (htrace : sp.trace calls c = u ++ .client msg effects :: v) (hbind : msg.type = msgBind)
    {name : Bytes} {formats : List ℤ} {values : List (Option Bytes)}
    (hpayload : parseBindMessage msg.payload = some (name, formats, values)) :
    (decided effects).map (fun ev => (ev.sql, ev.params)) =
      ((liveParse sp.env name u).map fun info => (info.sql, zipParams info.paramOIDs formats values)).toList := by
  have hreq : sp.env.request msg = .execute name formats values := by
    unfold Env.request
    simp only [hbind, hpayload]
    rfl
  have hanswered : ∃ s n ts, (∀ name, s.stmts name = liveParse sp.env name u) ∧
      effects = (Session.answer sp.env c ts (s, n) (sp.env.request msg)).2 := by
    refine trace_client (P := fun s tr => ∀ name, s.stmts name = liveParse sp.env name tr)
      (fun s n tr msg ts h => stmts_answer h n msg ts) ?_ ?_ ?_ rfl (fun name => ?_) htrace
    · intro s tr msg ts h name
      obtain ⟨status, inflight, hnote⟩ := Session.note_frame sp.env ts s msg
      unfold liveParse at *
      rw [List.foldl_concat, forgets_note, ← h name, hnote]
      rfl
    · intro s tr fromClient data h name
      rcases fromClient with _ | _ <;> exact h name
    · intro s tr h name
      simp [liveParse, Obs.forgets]
      rfl
    · rw [new_session hsp]
      rfl
  obtain ⟨s, n, ts, hs, rfl⟩ := hanswered
  rw [decided_answer, hreq, ← hs name]
  rcases hi : s.stmts name with _ | info
  · simp [Session.eventOf, hi]
  · simp [Session.eventOf, hi, Session.stamp]

/-- **Binds.** The event of a Bind carries the SQL and OIDs of the most recent
Parse for its statement exactly unless that Parse was skipped while an earlier
one, since the last close or pooler reset, was not. -/
theorem bind_latest_iff {U : CaseTable} {pcfg : ProtocolConfig} {fcfg : FilterConfig} {collector : Bool}
    {sp : StreamProcessor} (hsp : newStreamProcessor U pcfg fcfg collector = .ok sp) (calls : List Call)
    (c : ConnID) (u v : List Obs) (msg : PGMessage) (effects : List Effect)
    (htrace : sp.trace calls c = u ++ .client msg effects :: v) (hbind : msg.type = msgBind)
    (name : Bytes) (formats : List ℤ) (values : List (Option Bytes))
    (hpayload : parseBindMessage msg.payload = some (name, formats, values)) :
    (∀ ev ∈ decided effects, ∃ info, latestParse sp.env name u = some (some info) ∧ ev.sql = info.sql ∧
        ev.params = zipParams info.paramOIDs formats values) ↔
      (latestParse sp.env name u = some none → liveParse sp.env name u = none) := by
  have key := decided_bind hsp htrace hbind hpayload
  obtain ⟨hnone, hsome⟩ := live_of_latest sp.env name u
  constructor
  · intro h hskip
    rcases hlive : liveParse sp.env name u with _ | info
    · rfl
    · -- the Bind has an event although the latest Parse was skipped
      rw [hlive] at key
      obtain ⟨ev, hev, -⟩ := List.map_eq_singleton_iff.mp key
      obtain ⟨info', hlatest, -⟩ := h ev (by rw [hev]; exact List.mem_singleton_self _)
      rw [hskip] at hlatest
      cases hlatest
  · intro h ev hev
    have hmem : (ev.sql, ev.params) ∈ (decided effects).map fun ev => (ev.sql, ev.params) :=
      List.mem_map_of_mem hev
    rw [key, Option.mem_toList, Option.map_eq_some_iff] at hmem
    obtain ⟨info, hlive, heq⟩ := hmem
    refine ⟨info, ?_, (congrArg Prod.fst heq).symm, (congrArg Prod.snd heq).symm⟩
    rcases hlatest : latestParse sp.env name u with _ | _ | info'
    · rw [hnone hlatest] at hlive; cases hlive
    · rw [h hlatest] at hlive; cases hlive
    · rw [hsome info' hlatest] at hlive
      rw [Option.some.inj hlive]

/-- A Parse of `s` and a Bind of it. -/
def parseThenBind : List (UInt8 × Bytes) :=
  [(msgParse, bytes "s\x00SELECT 1\x00\x00\x00"), (msgBind, bytes "\x00s\x00\x00\x00\x00\x00")]

theorem bind_latest_accepted :
    let sp := defaultProcessor ⟨id, id⟩ {} false
    let tr := sp.trace (sessionCalls someConn parseThenBind) someConn
    ∀ ev ∈ decided (tr.getD 2 .close).effects,
      ∃ info, latestParse sp.env (bytes "s") (tr.take 2) = some (some info) ∧ ev.sql = info.sql ∧
        ev.params = zipParams info.paramOIDs [] [] :=
  (bind_latest_iff (new_default _ _ _) (sessionCalls someConn parseThenBind) someConn _ []
    (typedMsg (msgBind, bytes "\x00s\x00\x00\x00\x00\x00")) _ (by decide +kernel) rfl _ _ _
    (by decide +kernel)).mpr (by decide +kernel)

/-- With SQL of at most 8 bytes, a second, longer Parse of `s` is skipped and
the Bind after it replays the first. -/
theorem bind_replays_superseded :
    let sp := defaultProcessor ⟨id, id⟩ { maxSQLLength := 8 } false
    let tr := sp.trace (sessionCalls someConn
      [(msgParse, bytes "s\x00SELECT 1\x00\x00\x00"), (msgParse, bytes "s\x00SELECT 22\x00\x00\x00"),
        (msgBind, bytes "\x00s\x00\x00\x00\x00\x00")]) someConn
    newStreamProcessor ⟨id, id⟩ { maxSQLLength := 8 } {} false = .ok sp ∧
      (msgsOf true tr).map parsedName = [none, some (bytes "s"), some (bytes "s"), none] ∧
      latestParse sp.env (bytes "s") (tr.take 3) = some none ∧
      tr.map (fun o => (decided o.effects).map (·.sql)) = [[], [], [], [bytes "SELECT 1"]] :=
  ⟨new_default _ _ _, by decide +kernel, by decide +kernel, by decide +kernel⟩

/-! ### COPY data -/

/-- A query that is taken for the beginning of a COPY. -/
def Env.opensCopy (E : Env) : Request → Bool
  | .query sql => E.cls.classify sql == .copyFrom
  | _ => false

namespace Obs

/-- A row of a COPY. -/
def isCopyData : Obs → Bool
  | .client msg _ => msg.type == msgCopyData
  | _ => false

/-- The client sends a statement: a Simple_Query, or a Bind, which executes one. -/
def isStatement : Obs → Bool
  | .client msg _ => msg.type == msgSimpleQuery || msg.type == msgBind
  | _ => false

/-- The text of the statement sent, if it is known. -/
def sentText : Obs → Option Bytes
  | .client msg effects =>
    if msg.type = msgSimpleQuery then some (extractSimpleQuerySQL msg.payload)
    else if msg.type = msgBind then (decided effects).head?.map (·.sql)
    else none
  | _ => none

/-- The client opens a COPY. -/
def opensCopy (E : Env) : Obs → Bool
  | .client msg _ => E.opensCopy (E.request msg)
  | _ => false

/-- The end of a COPY: CopyDone, CopyFail, a close or a pooler reset. -/
def endsCopy (E : Env) (o : Obs) : Bool :=
  o.forgets E ||
    match o with
    | .client msg _ => msg.type == msgCopyDone || msg.type == msgCopyFail
    | _ => false

end Obs

/-- The rows in a trace. -/
def payloads (tr : List Obs) : List Bytes :=
  tr.filterMap fun
    | .client msg _ => if msg.type = msgCopyData then some msg.payload else none
    | _ => none

/-- What comes before the first row. -/
def beforeRows (tr : List Obs) : List Obs := tr.takeWhile fun o => !o.isCopyData

/-- Between the COPY in progress and its first row, the client sends no
statement. -/
def Undisturbed (E : Env) (tr : List Obs) : Prop :=
  ∀ p o w, tr = p ++ o :: w → o.opensCopy E = true → (∀ x ∈ w, x.opensCopy E = false ∧ x.endsCopy E = false) →
    ∀ x ∈ beforeRows w, x.isStatement = false

/-- After `u`, the event has the text of the last statement sent before its
first row, and all rows since that statement. -/
def Attributed (u : List Obs) (ev : SQLEvent) : Prop :=
  ∃ p q w, u = p ++ q :: w ∧ q.isStatement = true ∧ q.sentText = some ev.sql ∧ payloads w = ev.copyData ∧
    ∀ x ∈ beforeRows w, x.isStatement = false

instance (u : List Obs) (ev : SQLEvent) : Decidable (Attributed u ev) :=
  decidable_of_iff
    (∃ t ∈ u.tails, (t.head?.any fun q => q.isStatement && q.sentText == some ev.sql) = true ∧
      payloads t.tail = ev.copyData ∧ ∀ x ∈ beforeRows t.tail, x.isStatement = false) <| by
    constructor
    · rintro ⟨t, ht, hq, hpay, hfirst⟩
      obtain ⟨p, rfl⟩ := (List.mem_tails _ _).mp ht
      cases t with
      | nil => cases hq
      | cons q w =>
        obtain ⟨hs, htext⟩ : q.isStatement = true ∧ q.sentText = some ev.sql := by simpa using hq
        exact ⟨p, q, w, rfl, hs, htext, hpay, hfirst⟩
    · rintro ⟨p, q, w, rfl, hs, htext, hpay, hfirst⟩
      exact ⟨q :: w, (List.mem_tails _ _).mpr ⟨p, rfl⟩, by simp [hs, htext], hpay, hfirst⟩

/-- In the trace, `sql` is the COPY in progress and its rows so far are `data`. -/
def Carries (E : Env) (tr : List Obs) (sql : Bytes) (data : List Bytes) : Prop :=
  ∃ p msg effects w, tr = p ++ .client msg effects :: w ∧ E.request msg = .query sql ∧
    E.cls.classify sql = .copyFrom ∧ payloads w = data ∧ ∀ x ∈ w, x.opensCopy E = false ∧ x.endsCopy E = false

theorem payloads_concat (w : List Obs) (o : Obs) : payloads (w ++ [o]) = payloads w ++ payloads [o] :=
  List.filterMap_append

theorem payloads_of_not_data {o : Obs} (h : o.isCopyData = false) : payloads [o] = [] := by
  cases o with
  | client msg effects =>
    have : msg.type ≠ msgCopyData := by simpa [Obs.isCopyData] using h
    simp [payloads, this]
  | _ => rfl

/-- A message that neither opens nor ends a COPY leaves it in progress. -/
theorem Carries.concat {E : Env} {tr : List Obs} {sql : Bytes} {data : List Bytes} (h : Carries E tr sql data)
    {o : Obs} (hends : o.endsCopy E = false) (hopens : o.opensCopy E = false) :
    Carries E (tr ++ [o]) sql (data ++ payloads [o]) := by
  obtain ⟨p, msg, effects, w, rfl, hreq, hcls, hpay, hno⟩ := h
  refine ⟨p, msg, effects, w ++ [o], by rw [List.append_assoc, List.cons_append], hreq, hcls, ?_, ?_⟩
  · rw [payloads_concat, hpay]
  · exact List.forall_mem_append.2 ⟨hno, List.forall_mem_singleton.2 ⟨hopens, hends⟩⟩

/-- It has the same rows unless the message is one. -/
theorem Carries.other {E : Env} {tr : List Obs} {sql : Bytes} {data : List Bytes} (h : Carries E tr sql data)
    {o : Obs} (hdata : o.isCopyData = false) (hends : o.endsCopy E = false) (hopens : o.opensCopy E = false) :
    Carries E (tr ++ [o]) sql data := by
  have := h.concat hends hopens
  rwa [payloads_of_not_data hdata, List.append_nil] at this

/-- Only CopyData, CopyDone and CopyFail touch a COPY. -/
theorem type_of_neutral {E : Env} {msg : PGMessage} (hdata : ∀ payload, E.request msg ≠ .copyData payload)
    (hdone : E.request msg ≠ .copyDone) (hfail : E.request msg ≠ .copyFail) :
    msg.type ≠ msgCopyData ∧ msg.type ≠ msgCopyDone ∧ msg.type ≠ msgCopyFail := by
  have hfits := E.request_fits msg
  cases hr : E.request msg with
  | query sql => rw [hr] at hfits; rw [hfits.1]; decide
  | prepare name info => rw [hr] at hfits; rw [hfits.1]; decide
  | execute name formats values => rw [hr] at hfits; rw [hfits.1]; decide
  | copyData payload => exact absurd hr (hdata payload)
  | copyDone => exact absurd hr hdone
  | copyFail => exact absurd hr hfail
  | refused =>
    rw [hr] at hfits
    rcases hfits with h | h | h <;> rw [h] <;> decide
  | other =>
    rw [hr] at hfits
    exact ⟨hfits.2.2.1, hfits.2.2.2.1, hfits.2.2.2.2⟩

theorem endsCopy_answer (E : Env) (c : ConnID) (ts : ℤ) (l : Session × ℕ) (msg : PGMessage)
    (hdone : msg.type ≠ msgCopyDone) (hfail : msg.type ≠ msgCopyFail) :
    (Obs.client msg (Session.answer E c ts l (E.request msg)).2).endsCopy E =
      (l.1.eventOf E c ts (E.request msg)).any fun ev => E.resets ev.sql := by
  unfold Obs.endsCopy
  rw [forgets_answer]
  simp [hdone, hfail]

theorem not_opens_of_event {E : Env} {c : ConnID} {ts : ℤ} {s : Session} {req : Request} {ev : SQLEvent}
    (h : s.eventOf E c ts req = some ev) : E.opensCopy req = false := by
  cases req with
  | query sql =>
    by_cases hcopy : E.cls.classify sql = .copyFrom
    · simp [Session.eventOf, hcopy] at h
    · simpa [Env.opensCopy] using hcopy
  | _ => rfl

section Rows

variable {E : Env} {c : ConnID} {s : Session} {tr : List Obs} {n : ℕ} {msg : PGMessage} {ts : ℤ} {b : Copying}

/-- A message that gives an event leaves the rows of a COPY as they are. -/
theorem carries_event (h : ∀ b, s.copying = some b → b.overflow = false → Carries E tr b.sql b.data)
    {ev : SQLEvent} (hev : s.eventOf E c ts (E.request msg) = some ev)
    (hb : (Session.answer E c ts (s, n) (E.request msg)).1.1.copying = some b) (ho : b.overflow = false) :
    Carries E (tr ++ [Obs.client msg (Session.answer E c ts (s, n) (E.request msg)).2]) b.sql b.data := by
  have hdone : E.request msg ≠ .copyDone := by
    intro hr
    rw [Session.answer_event hev, hr] at hb
    cases hb
  have hopens : E.opensCopy (E.request msg) = false := not_opens_of_event hev
  have hcop : (Session.answer E c ts (s, n) (E.request msg)).1.1.copying =
      if E.resets ev.sql then none else s.copying := by
    rw [Session.answer_event hev]
    cases hr : E.request msg with
    | copyDone => exact absurd hr hdone
    | _ => rfl
  rw [hcop] at hb
  by_cases hres : E.resets ev.sql = true
  · rw [if_pos hres] at hb
    cases hb
  · rw [if_neg hres] at hb
    have htype := type_of_neutral (fun payload hr => by rw [hr] at hev; cases hev) hdone
      (fun hr => by rw [hr] at hev; cases hev)
    refine (h b hb ho).other (by simp [Obs.isCopyData, htype.1]) ?_ hopens
    rw [endsCopy_answer E c ts (s, n) msg htype.2.1 htype.2.2, hev]
    simpa using hres

/-- One that gives none opens a COPY, adds a row to it, ends it, or leaves it. -/
theorem carries_absorb (h : ∀ b, s.copying = some b → b.overflow = false → Carries E tr b.sql b.data)
    (hev : s.eventOf E c ts (E.request msg) = none)
    (hb : (Session.answer E c ts (s, n) (E.request msg)).1.1.copying = some b) (ho : b.overflow = false) :
    Carries E (tr ++ [Obs.client msg (Session.answer E c ts (s, n) (E.request msg)).2]) b.sql b.data := by
  have hends : msg.type ≠ msgCopyDone → msg.type ≠ msgCopyFail →
      (Obs.client msg (Session.answer E c ts (s, n) (E.request msg)).2).endsCopy E = false := by
    intro h1 h2
    rw [endsCopy_answer E c ts (s, n) msg h1 h2, hev]
    rfl
  have hcop : (Session.answer E c ts (s, n) (E.request msg)).1.1.copying =
      (s.absorb E ts (E.request msg)).copying := by rw [Session.answer_none hev]
  rw [hcop] at hb
  have hkeep : ∀ req, E.request msg = req → (s.absorb E ts req).copying = s.copying → E.opensCopy req = false →
      msg.type ≠ msgCopyData ∧ msg.type ≠ msgCopyDone ∧ msg.type ≠ msgCopyFail →
      Carries E (tr ++ [.client msg (Session.answer E c ts (s, n) (E.request msg)).2]) b.sql b.data := by
    intro req hr hsame hopens htype
    rw [hr, hsame] at hb
    refine (h b hb ho).other (by simp [Obs.isCopyData, htype.1]) (hends htype.2.1 htype.2.2) ?_
    rw [Obs.opensCopy, hr]
    exact hopens
  cases hr : E.request msg with
  | query sql =>
    rw [hr] at hb hev
    obtain rfl : ({ sql } : Copying) = b := Option.some.inj hb
    refine ⟨tr, msg, _, [], rfl, hr, ?_, rfl, fun x hx => (by cases hx)⟩
    by_contra hcopy
    simp [Session.eventOf, hcopy] at hev
  | copyData payload =>
    have hfits := E.request_fits msg
    rw [hr] at hfits hb
    obtain ⟨hd, rfl⟩ := hfits
    obtain ⟨b₀, hb₀, rfl⟩ := Option.map_eq_some_iff.mp hb
    obtain ⟨ho₀, hsql, hdata⟩ := Session.receive_within ho
    have hd' : msg.type ≠ msgCopyDone ∧ msg.type ≠ msgCopyFail := by rw [hd]; decide
    have hrow := (h b₀ hb₀ ho₀).concat (hends hd'.1 hd'.2) (by rw [Obs.opensCopy, hr]; rfl)
    have hpay : ∀ effects, payloads [.client msg effects] = [msg.payload] := by simp [payloads, hd]
    rw [hpay] at hrow
    rw [hsql, hdata, ← hr]
    exact hrow
  | copyDone => rw [hr] at hb; cases hb
  | copyFail => rw [hr] at hb; cases hb
  | _ =>
    rw [← hr]
    refine hkeep _ hr rfl rfl (type_of_neutral (E := E) (fun payload hp => ?_) (fun hp => ?_) fun hp => ?_)
    all_goals
      rw [hr] at hp
      cases hp

/-- The rows of a session's COPY are those of its trace. -/
theorem carries_answer (h : ∀ b, s.copying = some b → b.overflow = false → Carries E tr b.sql b.data)
    (n : ℕ) (msg : PGMessage) (ts : ℤ) (b : Copying)
    (hb : (Session.answer E c ts (s, n) (E.request msg)).1.1.copying = some b) (ho : b.overflow = false) :
    Carries E (tr ++ [Obs.client msg (Session.answer E c ts (s, n) (E.request msg)).2]) b.sql b.data := by
  rcases hev : s.eventOf E c ts (E.request msg) with _ | ev
  · exact carries_absorb h hev hb ho
  · exact carries_event h hev hb ho

end Rows

/-- The event of a CopyDone is that of the COPY in progress. -/
theorem decided_copyDone {U : CaseTable} {pcfg : ProtocolConfig} {fcfg : FilterConfig} {collector : Bool}
    {sp : StreamProcessor} (hsp : newStreamProcessor U pcfg fcfg collector = .ok sp) {calls : List Call}
    {c : ConnID} {u v : List Obs} {msg : PGMessage} {effects : List Effect}
    (htrace : sp.trace calls c = u ++ .client msg effects :: v) (hdone : msg.type = msgCopyDone)
    {ev : SQLEvent} (hev : ev ∈ decided effects) : Carries sp.env u ev.sql ev.copyData := by
  have hreq : sp.env.request msg = .copyDone := by
    unfold Env.request
    simp only [hdone]
    rfl
  have hanswered : ∃ s n ts,
      (∀ b, s.copying = some b → b.overflow = false → Carries sp.env u b.sql b.data) ∧
        effects = (Session.answer sp.env c ts (s, n) (sp.env.request msg)).2 := by
    refine trace_client
      (P := fun s tr => ∀ b, s.copying = some b → b.overflow = false → Carries sp.env tr b.sql b.data)
      (fun s n tr msg ts h => carries_answer h n msg ts) ?_ ?_ ?_ rfl (fun b hb => ?_) htrace
    · intro s tr msg ts h b hb ho
      obtain ⟨status, inflight, hnote⟩ := Session.note_frame sp.env ts s msg
      rw [hnote] at hb
      refine (h b hb ho).other rfl ?_ rfl
      unfold Obs.endsCopy
      rw [forgets_note]
      rfl
    · intro s tr fromClient data h
      rcases fromClient with _ | _ <;> exact h
    · intro s tr h b hb
      cases hb
    · rw [new_session hsp] at hb
      cases hb
  obtain ⟨s, n, ts, hs, rfl⟩ := hanswered
  rw [decided_answer, hreq] at hev
  rcases hcop : s.copying with _ | b
  · simp [Session.eventOf, hcop] at hev
  · rcases hov : b.overflow with _ | _
    · obtain rfl : ev = s.stamp sp.env n { conn := c, sql := b.sql, copyData := b.data, timestamp := ts } := by
        simpa [Session.eventOf, hcop, hov] using hev
      exact hs b hcop hov
    · simp [Session.eventOf, hcop, hov] at hev

/-- **COPY data.** If no statement came between the COPY in progress and its
first row, an event with COPY data has the text of the last statement sent before the first
row, and exactly the rows since that statement. -/
theorem copy_attributed {U : CaseTable} {pcfg : ProtocolConfig} {fcfg : FilterConfig} {collector : Bool}
    {sp : StreamProcessor} (hsp : newStreamProcessor U pcfg fcfg collector = .ok sp) (calls : List Call)
    (c : ConnID) (u v : List Obs) (msg : PGMessage) (effects : List Effect)
    (htrace : sp.trace calls c = u ++ .client msg effects :: v) (hdone : msg.type = msgCopyDone)
    (ev : SQLEvent) (hev : ev ∈ decided effects) (hund : Undisturbed sp.env u) : Attributed u ev := by
  obtain ⟨p, q, effects', w, htr, hq, hcls, hpay, hno⟩ := decided_copyDone hsp htrace hdone hev
  have hopens : (Obs.client q effects').opensCopy sp.env = true := by
    simp [Obs.opensCopy, hq, Env.opensCopy, hcls]
  have hfits := sp.env.request_fits q
  rw [hq] at hfits
  obtain ⟨hQ, hsql, -⟩ := hfits
  refine ⟨p, .client q effects', w, htr, ?_, ?_, hpay, hund p _ w htr hopens hno⟩
  · simp [Obs.isStatement, hQ]
  · simp [Obs.sentText, hQ, hsql]

/-- A client that sends nothing but COPYs disturbs none. -/
theorem undisturbed_of_forall {E : Env} {tr : List Obs}
    (h : ∀ x ∈ tr, x.isStatement = true → x.opensCopy E = true) : Undisturbed E tr := by
  rintro p o w rfl - hno x hx
  have hw : x ∈ w := List.takeWhile_subset _ hx
  by_contra hs
  have := h x (by simp [hw]) (by simpa using hs)
  rw [(hno x hw).1] at this
  cases this

/-- A COPY from the client and its only row. -/
def copySession : List (UInt8 × Bytes) :=
  [(msgSimpleQuery, bytes "COPY t FROM STDIN\x00"), (msgCopyData, bytes "1\n"), (msgCopyDone, [])]

theorem copy_attributed_row :
    Attributed (((defaultProcessor ⟨id, id⟩ {} false).trace (sessionCalls someConn copySession) someConn).take 3)
      { conn := someConn, sql := bytes "COPY t FROM STDIN", timestamp := 0, txID := 1, seq := 1
        copyData := [bytes "1\n"] } :=
  copy_attributed (new_default ⟨id, id⟩ {} false) (sessionCalls someConn copySession) someConn _ []
    (typedMsg (msgCopyDone, [])) (((defaultProcessor ⟨id, id⟩ {} false).trace
      (sessionCalls someConn copySession) someConn).getD 3 .close).effects (by decide +kernel) rfl _
    (by decide +kernel) (undisturbed_of_forall (by decide +kernel))

/-- A COPY from a file on the server leaves the client's next rows to itself:
the row of a COPY into `u`, executed by a Bind, is attached to the COPY into
`t`. -/
theorem copy_misattributed :
    let sp := defaultProcessor ⟨id, id⟩ {} false
    let tr := sp.trace (sessionCalls someConn
      [(msgSimpleQuery, bytes "COPY t FROM '/tmp/f'\x00"), (msgParse, bytes "\x00COPY u FROM STDIN\x00\x00\x00"),
        (msgBind, bytes "\x00\x00\x00\x00\x00\x00"), (msgCopyData, bytes "1\n"), (msgCopyDone, [])]) someConn
    newStreamProcessor ⟨id, id⟩ {} {} false = .ok sp ∧
      (decided (effectsOf tr)).map (fun ev => (ev.sql, ev.copyData)) =
        [(bytes "COPY u FROM STDIN", []), (bytes "COPY t FROM '/tmp/f'", [bytes "1\n"])] ∧
      ∀ ev ∈ decided (tr.getD 5 .close).effects, ¬ Attributed (tr.take 5) ev :=
  ⟨new_default _ _ _, by decide +kernel, by decide +kernel⟩

/-! ### Queries -/

/-- The decisions on the COPY that is open before `tr`: those of its CopyDone,
unless the COPY is superseded or ended before. -/
def deferred (E : Env) : List Obs → ℕ
  | [] => 0
  | .client msg effects :: tr =>
    if msg.type = msgCopyDone then (decided effects).length
    else if (Obs.client msg effects).endsCopy E || (Obs.client msg effects).opensCopy E then 0
    else deferred E tr
  | .server _ _ :: tr => deferred E tr
  | .close :: _ => 0

/-- How often the filter decides on the query `o`, when `tr` comes after it. -/
def reached (E : Env) (o : Obs) (tr : List Obs) : ℕ :=
  (decided o.effects).length + if o.opensCopy E then deferred E tr else 0

/-- Some statement of the text is a COPY ... FROM STDIN. -/
def copiesFromStdin (U : CaseTable) (sql : Bytes) : Bool :=
  (splitOnDepthZeroSemicolons sql).any fun stmt =>
    let words := depthZeroWords U 0 (lex stmt)
    firstWord U (lex stmt) == bytes "copy" && (words.zip words.tail).contains (bytes "from", bytes "stdin")

/-- The messages of a session in one chunk are answered one after the other. -/
theorem trace_sessionCalls {sp : StreamProcessor} {c : ConnID} (hfresh : sp.session c = .fresh)
    {ms : List (UInt8 × Bytes)} (hms : ∀ m ∈ ms, 4 + m.2.length ≤ 268435456) :
    ∃ l, sp.trace (sessionCalls c ms) c =
      ((startupMsg [0, 3, 0, 0] :: ms.map typedMsg).zip (Machine.outs (Session.message sp.env c true 0) l
        (startupMsg [0, 3, 0, 0] :: ms.map typedMsg))).map fun h => .client h.1 h.2 := by
  have hneg : ∀ b ∈ ([] : List Bytes), Negotiates b := by simp
  have hstart : ∀ b ∈ [([0, 3, 0, 0] : Bytes)], 4 + b.length ≤ 268435456 := by decide
  have hcs : [wireStartup [0, 3, 0, 0] ++ ms.flatMap wireTyped].flatten =
      [].flatMap wireStartup ++ wireStartup [0, 3, 0, 0] ++ ms.flatMap wireTyped := by simp
  have hfed := (fed_client_wire hneg (by decide) hstart hms hcs).1
  have hmsgs : ((newParser true).feed (wireStartup [0, 3, 0, 0] ++ ms.flatMap wireTyped)).2.1 =
      startupMsg [0, 3, 0, 0] :: ms.map typedMsg := by
    simpa [fedMsgs, Machine.outs_cons] using hfed
  have hframed : (sp.session c).framed true (wireStartup [0, 3, 0, 0] ++ ms.flatMap wireTyped) =
      ((newParser true).feed (wireStartup [0, 3, 0, 0] ++ ms.flatMap wireTyped)).2 := by
    rw [hfresh]
    rfl
  refine ⟨((sp.session c).fed true (wireStartup [0, 3, 0, 0] ++ ms.flatMap wireTyped), sp.txGen.counter), ?_⟩
  have hself : Call.conn (.onBytes c true (wireStartup [0, 3, 0, 0] ++ ms.flatMap wireTyped) 0) = c := rfl
  unfold StreamProcessor.trace sessionCalls
  rw [history_cons_self hself, partitioned.out]
  show List.flatMap observe [_] = _
  rw [List.flatMap_singleton, ← hmsgs, ← hframed]
  rfl

/-- **Queries.** A Simple_Query that is not oversized reaches the filter exactly
once, whatever comes before and after it, if and only if its class is not
CopyFrom. -/
theorem query_decided_iff {U : CaseTable} {pcfg : ProtocolConfig} {fcfg : FilterConfig} {collector : Bool}
    {sp : StreamProcessor} (hsp : newStreamProcessor U pcfg fcfg collector = .ok sp) (payload : Bytes)
    (hsize : oversized pcfg (extractSimpleQuerySQL payload) = false) (hlen : 4 + payload.length ≤ 268435456) :
    (∀ calls c u v effects, sp.trace calls c = u ++ .client (typedMsg (msgSimpleQuery, payload)) effects :: v →
        reached sp.env (.client (typedMsg (msgSimpleQuery, payload)) effects) v = 1) ↔
      sp.cls.classify (extractSimpleQuerySQL payload) ≠ .copyFrom := by
  have hreq : sp.env.request (typedMsg (msgSimpleQuery, payload)) = .query (extractSimpleQuerySQL payload) := by
    unfold Env.request
    rw [new_build hsp]
    simp only [typedMsg, hsize, if_true]
    rfl
  constructor
  · intro h hcopy
    have hms : ∀ m ∈ [(msgSimpleQuery, payload)], 4 + m.2.length ≤ 268435456 := by simpa using hlen
    obtain ⟨l, htrace⟩ := trace_sessionCalls (new_session hsp someConn) hms
    simp only [List.map_cons, List.map_nil, Machine.outs_cons, Machine.outs_nil, List.zip_cons_cons,
      List.zip_nil_right] at htrace
    have hsilent : ∀ l,
        decided (Session.message sp.env someConn true 0 l (typedMsg (msgSimpleQuery, payload))).2 = [] := by
      intro l
      show decided (Session.answer sp.env someConn 0 l (sp.env.request _)).2 = []
      have hcls : sp.env.cls.classify (extractSimpleQuerySQL payload) = .copyFrom := hcopy
      rw [decided_answer, hreq]
      simp [Session.eventOf, hcls]
    -- the query comes last in this run, so nothing ever decides on it
    have hone := h _ _ [_] [] _ htrace
    simp only [reached, Obs.effects, hsilent, deferred, ite_self, List.length_nil] at hone
    cases hone
  · intro hcopy calls c u v effects htrace
    have hopens : (Obs.client (typedMsg (msgSimpleQuery, payload)) effects).opensCopy sp.env = false := by
      rw [Obs.opensCopy, hreq]
      exact beq_false_of_ne hcopy
    have hone : (decided effects).length = 1 := by
      refine trace_always (E := sp.env) (c := c) (P := fun _ _ => True)
        (G := fun _ o => ∀ effects, o = .client (typedMsg (msgSimpleQuery, payload)) effects →
          (decided effects).length = 1)
        ?_ ?_ ?_ ?_ rfl trivial calls u _ v htrace effects rfl
      · intro s n tr msg ts _
        refine ⟨trivial, fun effects ho => ?_⟩
        obtain ⟨rfl, rfl⟩ := Obs.client.inj ho
        rw [decided_answer, hreq]
        have hne : sp.env.cls.classify (extractSimpleQuerySQL payload) ≠ .copyFrom := hcopy
        simp [Session.eventOf, hne]
      · intro s tr msg ts _
        exact ⟨trivial, fun effects ho => (by cases ho)⟩
      · intro s tr fromClient data _
        trivial
      · intro s tr _
        exact ⟨trivial, fun effects ho => (by cases ho)⟩
    rw [reached, hopens]
    exact hone

theorem query_decided_select :
    newStreamProcessor ⟨id, id⟩ {} {} false = .ok (defaultProcessor ⟨id, id⟩ {} false) ∧
    (∀ calls c u v effects, (defaultProcessor ⟨id, id⟩ {} false).trace calls c =
        u ++ .client (typedMsg (msgSimpleQuery, bytes "SELECT 1\x00")) effects :: v →
      reached (defaultProcessor ⟨id, id⟩ {} false).env
        (.client (typedMsg (msgSimpleQuery, bytes "SELECT 1\x00")) effects) v = 1) :=
  ⟨new_default ⟨id, id⟩ {} false, (query_decided_iff (new_default ⟨id, id⟩ {} false) (bytes "SELECT 1\x00")
    (by decide +kernel) (by decide)).mpr (by decide +kernel)⟩

/-- A COPY from a file on the server never reaches the filter. -/
theorem query_lost_server_copy :
    let sp := defaultProcessor ⟨id, id⟩ {} false
    let tr := sp.trace (sessionCalls someConn
      [(msgSimpleQuery, bytes "COPY t FROM '/tmp/f'\x00"), (msgSimpleQuery, bytes "SELECT 1\x00")]) someConn
    newStreamProcessor ⟨id, id⟩ {} {} false = .ok sp ∧
      oversized {} (bytes "COPY t FROM '/tmp/f'") = false ∧
      copiesFromStdin ⟨id, id⟩ (bytes "COPY t FROM '/tmp/f'") = false ∧
      reached sp.env (tr.getD 1 .close) (tr.drop 2) = 0 ∧
      (decided (effectsOf tr)).map (·.sql) = [bytes "SELECT 1"] :=
  ⟨new_default _ _ _, by decide +kernel, by decide +kernel, by decide +kernel, by decide +kernel⟩

end PgShadow
