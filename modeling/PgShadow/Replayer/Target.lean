/-
# What the hook is told and what the target is sent

Two results about the production chain, for any configuration, state of the chain
and answers.

The hook behind the replay metrics is called once for each event. It is told an
error exactly if the last attempt that reached the target failed, if and only if
the event is `Counted` (`hook_iff`): the skip policy and exhausted retries swallow
the errors of the target, and an error of the limiter is told though nothing was
sent (`failure_not_counted`).

With the Greenplum dialect, no text with transaction control among its statements
reaches the base executor if and only if every event is `Silent`
(`no_control_iff`): the dialect looks at the first word of the text only, and the
reset of the error policy passes it by (`control_sent`).

Key definitions: `targetFailed`, `Counted`, `Silent`.
Key theorems: `hook_iff`, `no_control_iff`.
-/
import PgShadow.Replayer.Executor
import PgShadow.Sql.Scan

namespace PgShadow

/-! ### Attempts -/

theorem Outside.again_cases (a : Outside) : ∀ (n i : ℕ), 0 < i → (∀ j < i, (a.exec j).err ≠ none) →
    (∃ k, a.again n i = .succeeded k ∧ (a.exec k).err = none) ∨
    (∃ k, (a.again n i = .surfaced k ∨ a.again n i = .swallowed k) ∧ 0 < k ∧ ∀ j < k, (a.exec j).err ≠ none)
  | 0, i, hpos, hfail => Or.inr ⟨i, Or.inr rfl, hpos, hfail⟩
  | n + 1, i, hpos, hfail => by
    rw [Outside.again]
    by_cases hc : a.ctxErr i = true
    · rw [if_pos hc]
      exact Or.inr ⟨i, Or.inl rfl, hpos, hfail⟩
    · rw [if_neg hc]
      by_cases hx : (a.exec i).err = none
      · rw [if_pos hx]
        exact Or.inl ⟨i, rfl, hx⟩
      · rw [if_neg hx]
        apply Outside.again_cases a n (i + 1) (Nat.succ_pos i)
        intro j hj
        rcases Nat.lt_succ_iff_lt_or_eq.mp hj with hlt | rfl
        · exact hfail j hlt
        · exact hx

/-- An attempt goes through, or the first ones all fail. -/
theorem Outside.outcome_cases (a : Outside) (policy : ErrorPolicy) :
    (∃ k, a.outcome policy = .succeeded k ∧ (a.exec k).err = none) ∨
    (∃ k, (a.outcome policy = .surfaced k ∨ a.outcome policy = .swallowed k) ∧ 0 < k ∧
      ∀ j < k, (a.exec j).err ≠ none) := by
  unfold Outside.outcome
  by_cases hx : (a.exec 0).err = none
  · rw [if_pos hx]
    exact Or.inl ⟨0, rfl, hx⟩
  · have hfail : ∀ j < 1, (a.exec j).err ≠ none := by
      intro j hj
      rw [Nat.lt_one_iff.mp hj]
      exact hx
    rw [if_neg hx]
    split_ifs
    · exact Or.inr ⟨1, Or.inl rfl, Nat.one_pos, hfail⟩
    · rcases policy with _ | _ | _
      · exact Or.inr ⟨1, Or.inr rfl, Nat.one_pos, hfail⟩
      · exact a.again_cases _ 1 Nat.one_pos hfail
      · exact Or.inr ⟨1, Or.inl rfl, Nat.one_pos, hfail⟩

/-! ### The hook -/

/-- The last attempt that reached the target failed there. -/
def targetFailed (calls : List Sent) : Bool :=
  (calls.filter fun c => !c.reset && c.attempt.reached).getLast?.any fun c => c.attempt.err.isSome

/-- Attempts that all fail have failed at the target if one reached it. -/
theorem targetFailed_iff {calls : List Sent} (h : ∀ c ∈ calls, c.reset = false → c.attempt.err ≠ none) :
    targetFailed calls = true ↔ ∃ c ∈ calls, c.reset = false ∧ c.attempt.reached = true := by
  rcases hlast : (calls.filter fun c => !c.reset && c.attempt.reached).getLast? with _ | c <;> rw [targetFailed, hlast]
  · rw [List.getLast?_eq_none_iff, List.filter_eq_nil_iff] at hlast
    constructor
    · intro hf
      cases hf
    · rintro ⟨c, hc, hr, hreach⟩
      exact absurd (by simp [hr, hreach]) (hlast c hc)
  · obtain ⟨hc, hcond⟩ := List.mem_filter.mp (List.mem_of_getLast? hlast)
    obtain ⟨hr, hreach⟩ : c.reset = false ∧ c.attempt.reached = true := by simpa using hcond
    refine ⟨fun _ => ⟨c, hc, hr, hreach⟩, fun _ => ?_⟩
    exact Option.isSome_iff_ne_none.mpr (h c hc hr)

theorem Outside.mem_tries {a : Outside} {ev : SQLEvent} {n : ℕ} {c : Sent} :
    c ∈ a.tries ev n ↔ ∃ i < n, c = ⟨false, ev, a.exec i⟩ := by
  simp [Outside.tries, eq_comm]

/-- An attempt that goes through is the last one to reach the target. -/
theorem targetFailed_succeeded {a : Outside} {ev : SQLEvent} {i : ℕ} (hi : (a.exec i).err = none) :
    targetFailed (a.tries ev (i + 1)) = false := by
  have hok : a.exec i = .ok := by
    rcases hx : a.exec i with _ | err | err
    · rfl
    · rw [hx] at hi
      cases hi
    · rw [hx] at hi
      cases hi
  rw [Outside.tries_succ, hok]
  simp [targetFailed, Attempt.reached, Attempt.err]

/-- Attempts that all fail: whether the target failed. -/
theorem targetFailed_tries {a : Outside} {n : ℕ} (h : ∀ j < n, (a.exec j).err ≠ none) (ev : SQLEvent)
    (resets : List Sent) (hresets : ∀ c ∈ resets, c.reset = true) :
    targetFailed (a.tries ev n ++ resets) = true ↔ ∃ i < n, (a.exec i).reached = true := by
  rw [targetFailed_iff]
  · constructor
    · rintro ⟨c, hc, hr, hreach⟩
      rcases List.mem_append.mp hc with hc | hc
      · obtain ⟨i, hi, rfl⟩ := Outside.mem_tries.mp hc
        exact ⟨i, hi, hreach⟩
      · rw [hresets c hc] at hr
        cases hr
    · rintro ⟨i, hi, hreach⟩
      exact ⟨_, List.mem_append_left _ (Outside.mem_tries.mpr ⟨i, hi, rfl⟩), rfl, hreach⟩
  · intro c hc hr
    rcases List.mem_append.mp hc with hc | hc
    · obtain ⟨i, hi, rfl⟩ := Outside.mem_tries.mp hc
      exact h i hi
    · rw [hresets c hc] at hr
      cases hr

/-- The hook is told the truth: the event is not sent, or an attempt goes through,
or the error is returned and an attempt reached the target, or it is swallowed and
none did. -/
def Counted (a : Outside) : Fate → Prop
  | .refused _ => False
  | .dropped => True
  | .tried (.succeeded _) => True
  | .tried (.surfaced n) => ∃ i < n, (a.exec i).reached = true
  | .tried (.swallowed n) => ∀ i < n, (a.exec i).reached = false

variable {F : Type} [Float64 F] (U : CaseTable) (T : TimeTexts)

omit [Float64 F] in
theorem outcome_counted (a : Outside) (policy : ErrorPolicy) (conn : ConnID) (ev : SQLEvent) :
    let o := a.outcome policy
    ((o.err a ≠ none ↔ targetFailed (o.calls a conn ev) = true) ↔ Counted a (.tried o)) := by
  intro o
  rcases a.outcome_cases policy with ⟨k, ho, hk⟩ | ⟨k, ho | ho, hpos, hfail⟩
  · have hfalse : targetFailed (a.tries ev (k + 1)) = false := targetFailed_succeeded hk
    simp only [o, ho, Outcome.err, Outcome.calls, Counted, hfalse]
    simp
  · have htold : (a.exec (k - 1)).err ≠ none := hfail (k - 1) (Nat.sub_lt hpos Nat.one_pos)
    have htries := targetFailed_tries hfail ev [] (List.forall_mem_nil _)
    rw [List.append_nil] at htries
    simp only [o, ho, Outcome.err, Outcome.calls, Counted, htries]
    exact ⟨fun h => h.mp htold, fun h => ⟨fun _ => h, fun _ => htold⟩⟩
  · have htries := targetFailed_tries hfail ev [⟨true, rollbackEvent conn, a.exec k⟩] (by simp)
    simp only [o, ho, Outcome.err, Outcome.calls, Counted, htries]
    simp

namespace Chain

/-- **What the hook is told.** For every configuration, chain and event, the hook
is called once, and with an error exactly if the last attempt that reached the
target failed, if and only if the event is counted. -/
theorem hook_iff (cfg : ExecConfig F) (s : Chain F) (ev : SQLEvent) (a : Outside) :
    (∃ err, (s.exec U T cfg ev a).hooks = [err] ∧ (err ≠ none ↔ targetFailed (s.exec U T cfg ev a).calls = true)) ↔
      ∀ ev' ∈ s.admitted U T ev, Counted a (a.fate cfg ev') := by
  obtain ⟨hcalls, hhooks⟩ := exec_spec U T cfg s ev a
  have honce : ∀ (P : Option Bytes → Prop) (err : Option Bytes), (∃ e, [err] = [e] ∧ P e) ↔ P err := by
    intro P err
    simp
  rw [hhooks, hcalls, honce]
  rcases s.admitted U T ev with _ | ev'
  · simp [targetFailed]
  · simp only [Option.elim_some, Option.mem_some_iff, forall_eq']
    obtain ⟨err, hfate⟩ | hfate | hfate := a.fate_cases cfg ev'
    · simp [hfate, Fate.err, Fate.calls, targetFailed, Counted]
    · simp [hfate, Fate.err, Fate.calls, targetFailed, Counted]
    · rw [hfate]
      exact outcome_counted a cfg.errorPolicy ev.conn ev'

/-- An event, and a chain without a guard on it. -/
def someEvent (sql : Bytes) : SQLEvent :=
  { conn := ⟨.v4 0x0a000001, 5000, .v4 0x0a0000ff, 5432⟩, sql, timestamp := 0 }

def unguarded (cfg : ExecConfig ℚ) (sql : Bytes) (a : Outside) : Chain ℚ :=
  exec ⟨id, id⟩ ⟨fun _ => [], fun _ => [], fun _ => []⟩ cfg {} (someEvent sql) a

/-- **Counterexample**: with the default policy a statement fails at the target and
the hook is told that it went through; with a rate limit, an error of the limiter
is told for a statement that was not sent. -/
theorem failure_not_counted :
    let failed := unguarded { rateLimitQPS := 0, speedFactor := 0 } (bytes "INSERT INTO t VALUES (1)")
      { exec := fun _ => .failed (bytes "duplicate key") }
    let refused := unguarded { rateLimitQPS := 1, speedFactor := 0 } (bytes "SELECT 1")
      { wait := some (bytes "would exceed context deadline") }
    (targetFailed failed.calls = true ∧ failed.hooks = [none]) ∧
      (refused.calls = [] ∧ refused.hooks = [some (bytes "would exceed context deadline")]) := by
  decide +kernel

/-! ### Transaction control -/

/-- What the base executor is given for the event has no transaction control: it
is given nothing, or the text has none and no reset follows. -/
def Silent (ev : SQLEvent) : Fate → Prop
  | .refused _ => True
  | .dropped => True
  | .tried (.succeeded _) => Sql.hasTxControl ev.sql = false
  | .tried (.surfaced _) => Sql.hasTxControl ev.sql = false
  | .tried (.swallowed _) => False

theorem hasTxControl_rollback : Sql.hasTxControl (bytes "ROLLBACK") = true := by decide +kernel

theorem forall_tries_iff {a : Outside} {ev : SQLEvent} {n : ℕ} (hn : 0 < n) (P : SQLEvent → Prop) :
    (∀ c ∈ a.tries ev n, P c.ev) ↔ P ev := by
  constructor
  · intro h
    exact h _ (Outside.mem_tries.mpr ⟨0, hn, rfl⟩)
  · intro h c hc
    obtain ⟨i, -, rfl⟩ := Outside.mem_tries.mp hc
    exact h

theorem outcome_silent_iff (a : Outside) (policy : ErrorPolicy) (conn : ConnID) (ev : SQLEvent) :
    (∀ c ∈ (a.outcome policy).calls a conn ev, Sql.hasTxControl c.ev.sql = false) ↔
      Silent ev (.tried (a.outcome policy)) := by
  rcases a.outcome_cases policy with ⟨k, ho, -⟩ | ⟨k, ho | ho, hpos, -⟩ <;> rw [ho]
  · exact forall_tries_iff (Nat.succ_pos k) fun ev => Sql.hasTxControl ev.sql = false
  · exact forall_tries_iff hpos fun ev => Sql.hasTxControl ev.sql = false
  · refine iff_of_false (fun h => ?_) id
    -- the reset is sent to the base executor, past the dialect
    have hreset := h ⟨true, rollbackEvent conn, a.exec k⟩ (List.mem_append_right _ (List.mem_singleton_self _))
    rw [rollbackEvent, hasTxControl_rollback] at hreset
    cases hreset

theorem exec_silent_iff (cfg : ExecConfig F) (s : Chain F) (ev : SQLEvent) (a : Outside) :
    (∀ c ∈ (s.exec U T cfg ev a).calls, Sql.hasTxControl c.ev.sql = false) ↔
      ∀ ev' ∈ s.admitted U T ev, Silent ev' (a.fate cfg ev') := by
  rw [(exec_spec U T cfg s ev a).1]
  rcases s.admitted U T ev with _ | ev'
  · simp
  · simp only [Option.elim_some, Option.mem_some_iff, forall_eq']
    obtain ⟨err, hfate⟩ | hfate | hfate := a.fate_cases cfg ev'
    · simp [hfate, Fate.calls, Silent]
    · simp [hfate, Fate.calls, Silent]
    · rw [hfate]
      exact outcome_silent_iff a cfg.errorPolicy ev.conn ev'

/-- The calls of the base executor over a stream of events. -/
def sent (cfg : ExecConfig F) : Chain F → List (SQLEvent × Outside) → List Sent
  | _, [] => []
  | s, (ev, a) :: evs => (s.exec U T cfg ev a).calls ++ sent cfg (s.exec U T cfg ev a) evs

/-- Every event of the stream is silent, as the guard lets it pass. -/
def SilentStream (cfg : ExecConfig F) : Chain F → List (SQLEvent × Outside) → Prop
  | _, [] => True
  | s, (ev, a) :: evs =>
    (∀ ev' ∈ s.admitted U T ev, Silent ev' (a.fate cfg ev')) ∧ SilentStream cfg (s.exec U T cfg ev a) evs

/-- **Transaction control.** Over every stream of events, with every policy and
every pattern of failures, no text with transaction control among its top-level
statements reaches the base executor if and only if the stream is silent. -/
theorem no_control_iff (cfg : ExecConfig F) (s : Chain F) (evs : List (SQLEvent × Outside)) :
    (∀ c ∈ sent U T cfg s evs, Sql.hasTxControl c.ev.sql = false) ↔ SilentStream U T cfg s evs := by
  induction evs generalizing s with
  | nil => simp [sent, SilentStream]
  | cons e evs ih =>
    obtain ⟨ev, a⟩ := e
    rw [sent, SilentStream, ← ih, ← exec_silent_iff U T cfg s ev a]
    simp only [List.mem_append, or_imp, forall_and]

/-- **Counterexample**: with the Greenplum dialect, a batch that ends with `COMMIT`
is sent as it is, and so is a `COMMIT` behind a line comment that a carriage
return ends; a statement that fails is followed by `ROLLBACK`. -/
theorem control_sent :
    let cfg : ExecConfig ℚ := { targetDialect := bytes "greenplum", rateLimitQPS := 0, speedFactor := 0 }
    let batch := unguarded cfg (bytes "SELECT 1; COMMIT") {}
    let comment := unguarded cfg (bytes "--x\rCOMMIT") {}
    let failing := unguarded cfg (bytes "INSERT INTO t VALUES (1)") { exec := fun _ => .failed (bytes "duplicate key") }
    isGreenplum cfg.targetDialect = true ∧
      (batch.calls.map (·.ev.sql) = [bytes "SELECT 1; COMMIT"] ∧ Sql.hasTxControl (bytes "SELECT 1; COMMIT") = true) ∧
      (comment.calls.map (·.ev.sql) = [bytes "--x\rCOMMIT"] ∧ Sql.hasTxControl (bytes "--x\rCOMMIT") = true) ∧
      failing.calls.map (·.ev.sql) = [bytes "INSERT INTO t VALUES (1)", bytes "ROLLBACK"] := by
  decide +kernel

end Chain
end PgShadow
