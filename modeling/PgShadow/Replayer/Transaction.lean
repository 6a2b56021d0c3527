/-
# A replayed transaction

The error policy against a session of the target: `BEGIN`, some statements and
`COMMIT` of one connection, with session affinity, any policy, and any choice of
which executions fail. The session is idle, in a block, or in an aborted block.

Either all statements are committed or none, if and only if the choice is `Atomic`
(`all_or_none_iff`). It always is with the abort policy. With the others, the
`ROLLBACK` that follows a failed statement ends the block, and what comes after it
commits on its own (`half_committed`).

Key definitions: `TargetSession.step`, `TargetSession.execEvent`, `TargetSession.Atomic`.
Key theorems: `TargetSession.all_or_none_iff`.
-/
import PgShadow.Replayer.Executor
import PgShadow.Sql.Scan

namespace PgShadow

/-- The target's view of a session: idle, in a block with the statements executed
in it, or in an aborted block. -/
inductive TxState
  | idle
  | inTx (pending : List SQLEvent)
  | aborted
deriving DecidableEq

/-- A session and what was committed in it. `fails` says which executions of the
event at hand fail, `tries` counts them. -/
structure TargetSession where
  state : TxState := .idle
  committed : List SQLEvent := []
  cancelled : Bool := false
  fails : ℕ → Bool := fun _ => false
  tries : ℕ := 0

namespace TargetSession

/-- The transaction control that the text is, if it is one statement. -/
def command (sql : Bytes) : Option Sql.Control :=
  match Sql.statements sql with
  | [st] => Sql.control st
  | _ => none

/-- The session executes a text, which fails if `fail`: whether it did, the state
after it, and what it commits. -/
def onText (state : TxState) (cmd : Option Sql.Control) (ev : SQLEvent) (fail : Bool) :
    Bool × TxState × List SQLEvent :=
  match state, cmd with
  | .idle, some .begin => (fail, if fail then .idle else .inTx [], [])
  | .idle, some _ => (fail, .idle, [])
  | .idle, none => (fail, .idle, if fail then [] else [ev])
  | .inTx pending, some .begin => (fail, if fail then .aborted else .inTx pending, [])
  -- the block ends here also if it cannot be committed
  | .inTx pending, some .commit => (fail, .idle, if fail then [] else pending)
  | .inTx _, some .rollback => (fail, if fail then .aborted else .idle, [])
  | .inTx pending, none => (fail, if fail then .aborted else .inTx (pending ++ [ev]), [])
  | .aborted, some .commit => (fail, if fail then .aborted else .idle, [])
  | .aborted, some .rollback => (fail, if fail then .aborted else .idle, [])
  | .aborted, _ => (true, .aborted, [])

/-- An execution: whether it fails, and the session after it. With a cancelled
context nothing is sent. -/
def step (s : TargetSession) (ev : SQLEvent) : Bool × TargetSession :=
  if s.cancelled then (true, s)
  else
    let r := onText s.state (command ev.sql) ev (s.fails s.tries)
    (r.1, { s with state := r.2.1, committed := s.committed ++ r.2.2, tries := s.tries + 1 })

/-- The session as the base executor. -/
def base : Executor TargetSession := fun _ ev =>
  modifyGet fun s => (if (s.step ev).1 then some (bytes "error") else none, (s.step ev).2)

/-- The context of the run, which the abort hook cancels. -/
def host : Host TargetSession where
  ctxErr := modifyGet fun s => (s.cancelled, s)
  onAbort := modify fun s => { s with cancelled := true }
  wait := pure none
  swapPrev _ := pure none
  sleep _ := pure ()
  apply ev := pure (.allow, ev)

/-- An event, and which of its executions fail, the reset's included. -/
abbrev Choice := SQLEvent × (ℕ → Bool)

/-- An event through the error policy. -/
def execEvent (policy : ErrorPolicy) (s : TargetSession) (e : Choice) : TargetSession :=
  ((errorPolicyExecutor host policy (some base) base e.1.conn e.1).run { s with fails := e.2, tries := 0 }).2

/-- The session after the events. -/
def run (policy : ErrorPolicy) (es : List Choice) : TargetSession := es.foldl (execEvent policy) {}

/-! ### The policy on a session -/

/-- `n` more attempts, and a reset if they all fail. -/
def retry (ev : SQLEvent) : ℕ → TargetSession → TargetSession
  | 0, s => (s.step (rollbackEvent ev.conn)).2
  | n + 1, s =>
    if s.cancelled then s else if (s.step ev).1 then retry ev n (s.step ev).2 else (s.step ev).2

theorem run_ctxErr (f : Bool → StateM TargetSession (Option Bytes)) (s : TargetSession) :
    (host.ctxErr >>= f).run s = (f s.cancelled).run s := rfl

theorem run_base (conn : ConnID) (ev : SQLEvent) (f : Option Bytes → StateM TargetSession (Option Bytes))
    (s : TargetSession) :
    (base conn ev >>= f).run s = (f (if (s.step ev).1 then some (bytes "error") else none)).run (s.step ev).2 := rfl

theorem run_retryAgain (ev : SQLEvent) : ∀ (n : ℕ) (err : Bytes) (s : TargetSession),
    ((retryAgain host (some base) base ev.conn ev n err).run s).2 = retry ev n s
  | 0, _, _ => rfl
  | n + 1, err, s => by
    rw [retryAgain, run_ctxErr, retry]
    rcases s.cancelled with _ | _
    · rw [if_neg Bool.false_ne_true, if_neg Bool.false_ne_true, run_base]
      rcases (s.step ev).1 with _ | _
      · rfl
      · exact run_retryAgain ev n _ _
    · rfl

/-- The session after the first attempt and what the policy makes of it. -/
theorem execEvent_eq (policy : ErrorPolicy) (s : TargetSession) (ev : SQLEvent) (f : ℕ → Bool) :
    execEvent policy s (ev, f) =
      let s₀ : TargetSession := { s with fails := f, tries := 0 }
      let s₁ := (s₀.step ev).2
      if (s₀.step ev).1 then
        if s₁.cancelled then s₁
        else
          match policy with
          | .skip => retry ev 0 s₁
          | .retry => retry ev defaultRetryAttempts s₁
          | .abort => { s₁ with cancelled := true }
      else s₁ := by
  unfold execEvent errorPolicyExecutor
  rw [run_base]
  dsimp only
  rcases (TargetSession.step { s with fails := f, tries := 0 } ev).1 with _ | _
  · rfl
  · rw [if_pos rfl, if_pos rfl]
    dsimp only
    rw [run_ctxErr]
    rcases (TargetSession.step { s with fails := f, tries := 0 } ev).2.cancelled with _ | _
    · rcases policy with _ | _ | _
      · rfl
      · exact run_retryAgain ev _ _ _
      · rfl
    · rfl

/-! ### Skip and retry -/

/-- The attempts the policy makes at an event. -/
def attempts : ErrorPolicy → ℕ
  | .skip => 1
  | .retry => defaultRetryAttempts + 1
  | .abort => 1

theorem attempts_pos (policy : ErrorPolicy) : ∃ n, attempts policy = n + 1 := by
  rcases policy with _ | _ | _
  · exact ⟨0, rfl⟩
  · exact ⟨defaultRetryAttempts, rfl⟩
  · exact ⟨0, rfl⟩

/-- One of the attempts does not fail. -/
def delivered (policy : ErrorPolicy) (f : ℕ → Bool) : Bool := (List.range' 0 (attempts policy)).any fun j => !f j

/-- The session is in this state, with this committed, and the context is live. -/
structure At (s : TargetSession) (state : TxState) (committed : List SQLEvent) : Prop where
  state : s.state = state
  committed : s.committed = committed
  live : s.cancelled = false

/-- At the next event. -/
theorem At.next {s : TargetSession} {state : TxState} {committed : List SQLEvent} (h : At s state committed)
    (f : ℕ → Bool) : At { s with fails := f, tries := 0 } state committed := ⟨h.state, h.committed, h.live⟩

variable {policy : ErrorPolicy} {s : TargetSession} {ev : SQLEvent} {f : ℕ → Bool} {pending cs : List SQLEvent}

theorem execEvent_eq_retry (hp : policy ≠ .abort) (hc : s.cancelled = false) :
    execEvent policy s (ev, f) = retry ev (attempts policy) { s with fails := f, tries := 0 } := by
  have hstep : ((TargetSession.step { s with fails := f, tries := 0 } ev).2).cancelled = false := by
    simp [step, hc]
  rw [execEvent_eq]
  rcases policy with _ | _ | _
  · dsimp only [attempts, retry]
    rw [hstep, hc]
    rfl
  · dsimp only [attempts, retry]
    rw [hstep, hc]
    rfl
  · exact absurd rfl hp

/-- An execution under a live context. -/
theorem step_of_live (hc : s.cancelled = false) : s.step ev =
    ((onText s.state (command ev.sql) ev (s.fails s.tries)).1,
      { s with
        state := (onText s.state (command ev.sql) ev (s.fails s.tries)).2.1
        committed := s.committed ++ (onText s.state (command ev.sql) ev (s.fails s.tries)).2.2
        tries := s.tries + 1 }) := by
  rw [step, if_neg (by rw [hc]; exact Bool.false_ne_true)]

theorem command_rollback (conn : ConnID) : command (rollbackEvent conn).sql = some .rollback := by
  change command (bytes "ROLLBACK") = _
  decide +kernel

/-- The reset of an idle session. -/
theorem retry_idle_zero (h : At s .idle cs) : At (retry ev 0 s) .idle cs := by
  rw [retry, step_of_live h.live, command_rollback, h.state, h.committed]
  exact ⟨rfl, List.append_nil cs, h.live⟩

theorem retry_succ (n : ℕ) (hc : s.cancelled = false) :
    retry ev (n + 1) s =
      let r := onText s.state (command ev.sql) ev (s.fails s.tries)
      let s' := { s with state := r.2.1, committed := s.committed ++ r.2.2, tries := s.tries + 1 }
      if r.1 then retry ev n s' else s' := by
  rw [retry, if_neg (by rw [hc]; exact Bool.false_ne_true), step_of_live hc]

/-- An idle session stays idle until an attempt does not fail. -/
theorem retry_idle (st : TxState) (c : List SQLEvent)
    (hfail : onText .idle (command ev.sql) ev true = (true, .idle, []))
    (hok : onText .idle (command ev.sql) ev false = (false, st, c)) :
    ∀ (n : ℕ) {s : TargetSession} {cs : List SQLEvent}, At s .idle cs →
      let any := (List.range' s.tries n).any fun j => !s.fails j
      At (retry ev n s) (if any then st else .idle) (cs ++ if any then c else [])
  | 0, s, cs, h => by
    simpa using retry_idle_zero h
  | n + 1, s, cs, h => by
    rw [retry_succ n h.live, h.state, h.committed]
    dsimp only
    rw [List.range'_succ, List.any_cons]
    rcases hf : s.fails s.tries with _ | _
    · rw [hok, if_neg Bool.false_ne_true]
      exact ⟨rfl, rfl, h.live⟩
    · rw [hfail, if_pos rfl, List.append_nil]
      exact retry_idle st c hfail hok n ⟨rfl, rfl, h.live⟩

/-- Every attempt in an aborted block fails; a reset ends it, or does not. -/
theorem retry_aborted (hcmd : command ev.sql = none) : ∀ (n : ℕ) {s : TargetSession} {cs : List SQLEvent},
    At s .aborted cs → At (retry ev n s) (if s.fails (s.tries + n) then .aborted else .idle) cs
  | 0, s, cs, h => by
    rw [retry, step_of_live h.live, command_rollback, h.state, h.committed]
    exact ⟨rfl, List.append_nil cs, h.live⟩
  | n + 1, s, cs, h => by
    have hfail : ∀ b, onText .aborted none ev b = (true, .aborted, []) := fun b => rfl
    have hn : s.tries + (n + 1) = s.tries + 1 + n := by omega
    rw [retry_succ n h.live, h.state, h.committed, hcmd]
    dsimp only
    rw [hfail, if_pos rfl, List.append_nil, hn]
    exact retry_aborted hcmd n (s := { s with state := .aborted, committed := cs, tries := s.tries + 1 })
      ⟨rfl, rfl, h.live⟩

/-- In a block, a statement is executed or aborts it. -/
theorem retry_inTx (hcmd : command ev.sql = none) (n : ℕ) (h : At s (.inTx pending) cs) :
    At (retry ev (n + 1) s)
      (if s.fails s.tries then if s.fails (s.tries + (n + 1)) then .aborted else .idle
        else .inTx (pending ++ [ev])) cs := by
  have hn : s.tries + (n + 1) = s.tries + 1 + n := by omega
  rw [retry_succ n h.live, h.state, h.committed, hcmd]
  dsimp only [onText]
  rw [List.append_nil]
  rcases hf : s.fails s.tries with _ | _
  · exact ⟨rfl, rfl, h.live⟩
  · rw [if_pos rfl, if_pos rfl, if_pos rfl, hn]
    exact retry_aborted hcmd n (s := { s with state := .aborted, committed := cs, tries := s.tries + 1 })
      ⟨rfl, rfl, h.live⟩

/-- No block is in progress. -/
def Closed (state : TxState) : Prop := ∀ pending, state ≠ .inTx pending

/-- Then the end of a block commits nothing. -/
theorem onText_closed {st : TxState} (hst : Closed st) {c : Sql.Control} (hc : c ≠ .begin) (ev : SQLEvent)
    (fail : Bool) :
    Closed (onText st (some c) ev fail).2.1 ∧ (onText st (some c) ev fail).2.2 = [] := by
  rcases st with _ | pending | _
  · rcases c with _ | _ | _
    · exact absurd rfl hc
    · exact ⟨fun _ => TxState.noConfusion, rfl⟩
    · exact ⟨fun _ => TxState.noConfusion, rfl⟩
  · exact absurd rfl (hst pending)
  · rcases c with _ | _ | _
    · exact absurd rfl hc
    all_goals
      refine ⟨fun pending => ?_, rfl⟩
      rcases fail with _ | _ <;> exact TxState.noConfusion

theorem retry_commit_closed (hcmd : command ev.sql = some .commit) : ∀ (n : ℕ) {s : TargetSession},
    Closed s.state → s.cancelled = false → (retry ev n s).committed = s.committed
  | 0, s, hs, hc => by
    rw [retry, step_of_live hc, command_rollback]
    dsimp only
    rw [(onText_closed hs (by decide) _ _).2, List.append_nil]
  | n + 1, s, hs, hc => by
    obtain ⟨hs', hnil⟩ := onText_closed hs (c := .commit) (by decide) ev (s.fails s.tries)
    rw [retry_succ n hc, hcmd]
    dsimp only
    rw [hnil, List.append_nil]
    split_ifs
    · exact retry_commit_closed hcmd n hs' hc
    · rfl

theorem retry_commit_inTx (hcmd : command ev.sql = some .commit) (n : ℕ) (h : At s (.inTx pending) cs) :
    (retry ev (n + 1) s).committed = if s.fails s.tries then cs else cs ++ pending := by
  rw [retry_succ n h.live, h.state, h.committed, hcmd]
  dsimp only [onText]
  rcases hf : s.fails s.tries with _ | _
  · rfl
  · rw [if_pos rfl, if_pos rfl, if_pos rfl, List.append_nil]
    exact retry_commit_closed hcmd n (fun _ => TxState.noConfusion) h.live

/-! ### The transaction -/

theorem command_of_hasTxControl {sql : Bytes} (h : Sql.hasTxControl sql = false) : command sql = none := by
  unfold command
  split
  · rename_i st hst
    rw [Sql.hasTxControl, hst, List.any_cons, Bool.or_eq_false_iff] at h
    exact Option.not_isSome_iff_eq_none.mp (by simpa using h.1)
  · rfl

/-- The statements after the first reset that goes through, in an aborted block. -/
def afterFail (policy : ErrorPolicy) : List Choice → List Choice
  | [] => []
  | e :: es => if e.2 (attempts policy) then afterFail policy es else es

/-- The statements after the block was reset, if a first attempt fails. -/
def afterReset (policy : ErrorPolicy) : List Choice → List Choice
  | [] => []
  | e :: es => if e.2 0 then afterFail policy (e :: es) else afterReset policy es

/-- The statements of which an attempt goes through. -/
def through (policy : ErrorPolicy) (es : List Choice) : List SQLEvent :=
  (es.filter fun e => delivered policy e.2).map Prod.fst

theorem through_cons (policy : ErrorPolicy) (ev : SQLEvent) (f : ℕ → Bool) (es : List Choice) :
    through policy ((ev, f) :: es) = (if delivered policy f then [ev] else []) ++ through policy es := by
  unfold through
  rw [List.filter_cons]
  dsimp only
  split_ifs
  · rfl
  · rfl

theorem afterFail_length_le (policy : ErrorPolicy) : ∀ es, (afterFail policy es).length ≤ es.length
  | [] => le_rfl
  | e :: es => by
    rw [afterFail, List.length_cons]
    split_ifs
    · exact (afterFail_length_le policy es).trans (Nat.le_succ _)
    · exact Nat.le_succ _

theorem afterFail_length_lt (policy : ErrorPolicy) (e : Choice) (es : List Choice) :
    (afterFail policy (e :: es)).length < (e :: es).length := by
  rw [afterFail, List.length_cons, Nat.lt_succ_iff]
  split_ifs
  · exact afterFail_length_le policy es
  · exact le_rfl

/-- The session is out of the block, with this committed. -/
def Over (s : TargetSession) (cs : List SQLEvent) : Prop := ∃ st, Closed st ∧ At s st cs

section Steps

variable (hp : policy ≠ .abort)
include hp

/-- `BEGIN` opens a block, if an attempt goes through. -/
theorem execEvent_begin (hcmd : command ev.sql = some .begin) (h : At s .idle cs) :
    At (execEvent policy s (ev, f)) (if delivered policy f then .inTx [] else .idle) cs := by
  have hev := retry_idle (.inTx []) [] (by rw [hcmd]; rfl) (by rw [hcmd]; rfl) (attempts policy) (h.next f)
  rw [execEvent_eq_retry hp h.live]
  dsimp only at hev
  rwa [ite_self, List.append_nil] at hev

theorem execEvent_idle (hcmd : command ev.sql = none) (h : At s .idle cs) :
    At (execEvent policy s (ev, f)) .idle (cs ++ if delivered policy f then [ev] else []) := by
  have hev := retry_idle .idle [ev] (by rw [hcmd]; rfl) (by rw [hcmd]; rfl) (attempts policy) (h.next f)
  rw [execEvent_eq_retry hp h.live]
  dsimp only at hev
  rwa [ite_self] at hev

theorem execEvent_aborted (hcmd : command ev.sql = none) (h : At s .aborted cs) :
    At (execEvent policy s (ev, f)) (if f (attempts policy) then .aborted else .idle) cs := by
  have hev := retry_aborted hcmd (attempts policy) (h.next f)
  rw [execEvent_eq_retry hp h.live]
  rwa [Nat.zero_add] at hev

theorem execEvent_inTx (hcmd : command ev.sql = none) (h : At s (.inTx pending) cs) :
    At (execEvent policy s (ev, f))
      (if f 0 then if f (attempts policy) then .aborted else .idle else .inTx (pending ++ [ev])) cs := by
  obtain ⟨n, hn⟩ := attempts_pos policy
  have hev := retry_inTx hcmd n (h.next f)
  rw [execEvent_eq_retry hp h.live, hn]
  rwa [Nat.zero_add] at hev

/-- In an idle session, every statement that goes through is committed. -/
theorem foldl_idle : ∀ {es : List Choice} {s : TargetSession} {cs : List SQLEvent},
    (∀ e ∈ es, command e.1.sql = none) → At s .idle cs →
      At (es.foldl (execEvent policy) s) .idle (cs ++ through policy es)
  | [], s, cs, _, h => by
    rw [through, List.filter_nil, List.map_nil, List.append_nil]
    exact h
  | (ev, f) :: es, s, cs, hes, h => by
    have hev := execEvent_idle hp (f := f) (hes (ev, f) List.mem_cons_self) h
    have hrest := foldl_idle (fun e he => hes e (List.mem_cons_of_mem _ he)) hev
    rw [List.append_assoc] at hrest
    rw [through_cons]
    exact hrest

/-- In an aborted block, those after the first reset. -/
theorem foldl_aborted : ∀ {es : List Choice} {s : TargetSession} {cs : List SQLEvent},
    (∀ e ∈ es, command e.1.sql = none) → At s .aborted cs →
      Over (es.foldl (execEvent policy) s) (cs ++ through policy (afterFail policy es))
  | [], s, cs, _, h => by
    rw [afterFail, through, List.filter_nil, List.map_nil, List.append_nil]
    exact ⟨.aborted, fun _ => TxState.noConfusion, h⟩
  | (ev, f) :: es, s, cs, hes, h => by
    have hrest : ∀ e ∈ es, command e.1.sql = none := fun e he => hes e (List.mem_cons_of_mem _ he)
    have hev := execEvent_aborted hp (f := f) (hes (ev, f) List.mem_cons_self) h
    rw [List.foldl_cons, afterFail]
    dsimp only
    split_ifs at hev ⊢
    · exact foldl_aborted hrest hev
    · exact ⟨.idle, fun _ => TxState.noConfusion, foldl_idle hp hrest hev⟩

/-- In a block, all of them are executed, or it is left after one fails. -/
theorem foldl_inTx : ∀ {es : List Choice} {s : TargetSession} {pending cs : List SQLEvent},
    (∀ e ∈ es, command e.1.sql = none) → At s (.inTx pending) cs →
      At (es.foldl (execEvent policy) s) (.inTx (pending ++ es.map Prod.fst)) cs ∧ afterReset policy es = [] ∨
        Over (es.foldl (execEvent policy) s) (cs ++ through policy (afterReset policy es)) ∧
          (afterReset policy es).length < es.length
  | [], s, pending, cs, _, h => by
    rw [List.map_nil, List.append_nil]
    exact .inl ⟨h, rfl⟩
  | (ev, f) :: es, s, pending, cs, hes, h => by
    have hrest : ∀ e ∈ es, command e.1.sql = none := fun e he => hes e (List.mem_cons_of_mem _ he)
    have hev := execEvent_inTx hp (f := f) (hes (ev, f) List.mem_cons_self) h
    rw [List.foldl_cons, afterReset]
    dsimp only
    by_cases hf : f 0 = true
    · rw [if_pos hf] at hev
      rw [if_pos hf]
      refine .inr ⟨?_, afterFail_length_lt _ _ _⟩
      rw [afterFail]
      dsimp only
      split_ifs at hev ⊢
      · exact foldl_aborted hp hrest hev
      · exact ⟨.idle, fun _ => TxState.noConfusion, foldl_idle hp hrest hev⟩
    · rw [if_neg hf] at hev
      rw [if_neg hf]
      rcases foldl_inTx hrest hev with ⟨hat, hnil⟩ | ⟨hover, hlen⟩
      · rw [List.append_assoc] at hat
        exact .inl ⟨hat, hnil⟩
      · exact .inr ⟨hover, hlen.trans (Nat.lt_succ_self _)⟩

/-- `COMMIT` outside a block. -/
theorem execEvent_commit_over (hcmd : command ev.sql = some .commit) (h : Over s cs) :
    (execEvent policy s (ev, f)).committed = cs := by
  obtain ⟨st, hst, h⟩ := h
  rw [execEvent_eq_retry hp h.live, ← h.committed]
  exact retry_commit_closed hcmd _ (s := { s with fails := f, tries := 0 }) (h.state ▸ hst) h.live

theorem execEvent_commit_inTx (hcmd : command ev.sql = some .commit) (h : At s (.inTx pending) cs) :
    (execEvent policy s (ev, f)).committed = if f 0 then cs else cs ++ pending := by
  obtain ⟨n, hn⟩ := attempts_pos policy
  rw [execEvent_eq_retry hp h.live, hn]
  exact retry_commit_inTx hcmd n (h.next f)

end Steps

/-! ### Abort -/

/-- Under a cancelled context nothing is executed. -/
theorem execEvent_cancelled (hc : s.cancelled = true) :
    execEvent policy s (ev, f) = { s with fails := f, tries := 0 } := by
  have hstep : TargetSession.step { s with fails := f, tries := 0 } ev = (true, { s with fails := f, tries := 0 }) :=
    if_pos hc
  rw [execEvent_eq]
  dsimp only
  rw [hstep, if_pos rfl, if_pos hc]

theorem foldl_cancelled (policy : ErrorPolicy) : ∀ (es : List Choice) {s : TargetSession}, s.cancelled = true →
    (es.foldl (execEvent policy) s).cancelled = true ∧ (es.foldl (execEvent policy) s).committed = s.committed
  | [], _, hc => ⟨hc, rfl⟩
  | (ev, f) :: es, s, hc => by
    rw [List.foldl_cons, execEvent_cancelled hc]
    exact foldl_cancelled policy es (s := { s with fails := f, tries := 0 }) hc

/-- A failure cancels the context. -/
theorem execEvent_abort (hc : s.cancelled = false) :
    execEvent .abort s (ev, f) =
      let r := onText s.state (command ev.sql) ev (f 0)
      { state := r.2.1, committed := s.committed ++ r.2.2, cancelled := r.1, fails := f, tries := 1 } := by
  rw [execEvent_eq]
  dsimp only
  rw [step_of_live (s := { s with fails := f, tries := 0 }) hc]
  dsimp only
  rcases (onText s.state (command ev.sql) ev (f 0)).1 with _ | _
  · rw [if_neg Bool.false_ne_true, hc]
  · rw [if_pos rfl, if_neg (by rw [hc]; exact Bool.false_ne_true)]

/-- In a block, all statements are executed, or the run is over. -/
theorem foldl_abort_inTx : ∀ {es : List Choice} {s : TargetSession} {pending cs : List SQLEvent},
    (∀ e ∈ es, command e.1.sql = none) → At s (.inTx pending) cs →
      At (es.foldl (execEvent .abort) s) (.inTx (pending ++ es.map Prod.fst)) cs ∨
        (es.foldl (execEvent .abort) s).cancelled = true ∧ (es.foldl (execEvent .abort) s).committed = cs
  | [], s, pending, cs, _, h => by
    rw [List.map_nil, List.append_nil]
    exact .inl h
  | (ev, f) :: es, s, pending, cs, hes, h => by
    have hrest : ∀ e ∈ es, command e.1.sql = none := fun e he => hes e (List.mem_cons_of_mem _ he)
    rw [List.foldl_cons, execEvent_abort h.live, h.state, h.committed, hes (ev, f) List.mem_cons_self]
    dsimp only [onText]
    rw [List.append_nil]
    by_cases hf : f 0 = true
    · exact .inr (foldl_cancelled .abort es hf)
    · have hrun := foldl_abort_inTx hrest (s := ⟨.inTx (pending ++ [ev]), cs, f 0, f, 1⟩)
        ⟨rfl, rfl, Bool.eq_false_iff.mpr hf⟩
      rw [List.append_assoc] at hrun
      rw [if_neg hf]
      exact hrun

/-! ### All or nothing -/

/-- The choices of failures with which a transaction is committed as a whole or not
at all: the policy aborts; or the block was opened, and nothing goes through after
a reset; or it was not, and everything goes through or nothing. -/
def Atomic (policy : ErrorPolicy) (fb : ℕ → Bool) (ss : List Choice) : Prop :=
  policy = .abort ∨
    if delivered policy fb then ∀ e ∈ afterReset policy ss, delivered policy e.2 = false
    else (∀ e ∈ ss, delivered policy e.2 = true) ∨ ∀ e ∈ ss, delivered policy e.2 = false

theorem through_eq_nil {es : List Choice} :
    through policy es = [] ↔ ∀ e ∈ es, delivered policy e.2 = false := by
  rw [through, List.map_eq_nil_iff, List.filter_eq_nil_iff]
  simp only [Bool.not_eq_true]

theorem through_length_le (policy : ErrorPolicy) (es : List Choice) : (through policy es).length ≤ es.length := by
  rw [through, List.length_map]
  exact List.length_filter_le _ _

theorem through_eq_map {es : List Choice} :
    through policy es = es.map Prod.fst ↔ ∀ e ∈ es, delivered policy e.2 = true := by
  constructor
  · intro h
    have hlen := congrArg List.length h
    rw [through, List.length_map, List.length_map] at hlen
    exact List.length_filter_eq_length_iff.mp hlen
  · intro h
    rw [through, List.filter_eq_self.mpr h]

section Transaction

variable {bg cm : SQLEvent} {ss : List Choice} (fb fc : ℕ → Bool)

/-- With the abort policy, always. -/
theorem all_or_none_abort (hb : command bg.sql = some .begin) (hc : command cm.sql = some .commit)
    (hss : ∀ e ∈ ss, command e.1.sql = none) :
    (run .abort ((bg, fb) :: ss ++ [(cm, fc)])).committed = ss.map Prod.fst ∨
      (run .abort ((bg, fb) :: ss ++ [(cm, fc)])).committed = [] := by
  rw [run, List.cons_append, List.foldl_cons, List.foldl_append, execEvent_abort rfl, hb]
  dsimp only [onText]
  rw [List.append_nil]
  by_cases hf : fb 0 = true
  · have hrun := foldl_cancelled .abort ss (s := ⟨.idle, [], fb 0, fb, 1⟩) hf
    rw [if_pos hf]
    exact .inr ((foldl_cancelled .abort [(cm, fc)] hrun.1).2.trans hrun.2)
  · rw [if_neg hf]
    have hlive : fb 0 = false := Bool.eq_false_iff.mpr hf
    rcases foldl_abort_inTx hss (s := ⟨.inTx [], [], fb 0, fb, 1⟩) ⟨rfl, rfl, hlive⟩ with h | ⟨h, hcs⟩
    · rw [List.foldl_cons, List.foldl_nil, execEvent_abort h.live, h.state, h.committed, hc]
      dsimp only [onText]
      split_ifs
      · exact .inr rfl
      · exact .inl rfl
    · exact .inr ((foldl_cancelled .abort [(cm, fc)] h).2.trans hcs)

/-- With the others, after `BEGIN` went through. -/
theorem all_or_none_opened (hp : policy ≠ .abort) (hb : command bg.sql = some .begin)
    (hc : command cm.sql = some .commit) (hss : ∀ e ∈ ss, command e.1.sql = none) (hd : delivered policy fb = true) :
    ((run policy ((bg, fb) :: ss ++ [(cm, fc)])).committed = ss.map Prod.fst ∨
        (run policy ((bg, fb) :: ss ++ [(cm, fc)])).committed = []) ↔
      ∀ e ∈ afterReset policy ss, delivered policy e.2 = false := by
  have hopen : At _ _ [] := execEvent_begin hp (f := fb) hb (s := {}) ⟨rfl, rfl, rfl⟩
  rw [if_pos hd] at hopen
  rw [run, List.cons_append, List.foldl_cons, List.foldl_append, List.foldl_cons, List.foldl_nil]
  rcases foldl_inTx hp hss hopen with ⟨h, hnil⟩ | ⟨h, hlen⟩
  · rw [execEvent_commit_inTx hp hc h, hnil]
    refine iff_of_true ?_ (fun _ he => absurd he List.not_mem_nil)
    split_ifs
    · exact .inr rfl
    · exact .inl rfl
  · rw [execEvent_commit_over hp hc h, List.nil_append, ← through_eq_nil]
    refine or_iff_right fun hall => ?_
    -- what comes after the reset is shorter than the transaction
    have := congrArg List.length hall
    rw [List.length_map] at this
    exact absurd (through_length_le policy (afterReset policy ss)) (by omega)

/-- And after it did not. -/
theorem all_or_none_unopened (hp : policy ≠ .abort) (hb : command bg.sql = some .begin)
    (hc : command cm.sql = some .commit) (hss : ∀ e ∈ ss, command e.1.sql = none) (hd : ¬ delivered policy fb = true) :
    ((run policy ((bg, fb) :: ss ++ [(cm, fc)])).committed = ss.map Prod.fst ∨
        (run policy ((bg, fb) :: ss ++ [(cm, fc)])).committed = []) ↔
      (∀ e ∈ ss, delivered policy e.2 = true) ∨ ∀ e ∈ ss, delivered policy e.2 = false := by
  have hidle : At _ _ [] := execEvent_begin hp (f := fb) hb (s := {}) ⟨rfl, rfl, rfl⟩
  rw [if_neg hd] at hidle
  have hover : Over _ _ := ⟨.idle, fun _ => TxState.noConfusion, foldl_idle hp hss hidle⟩
  rw [run, List.cons_append, List.foldl_cons, List.foldl_append, List.foldl_cons, List.foldl_nil,
    execEvent_commit_over hp hc hover, List.nil_append, through_eq_map, through_eq_nil]

/-- **A transaction is committed as a whole or not at all if and only if the choice
of failures is atomic.** -/
theorem all_or_none_iff (policy : ErrorPolicy) (bg cm : SQLEvent) (ss : List Choice) (fb fc : ℕ → Bool)
    (hb : command bg.sql = some .begin) (hc : command cm.sql = some .commit)
    (hss : ∀ e ∈ ss, Sql.hasTxControl e.1.sql = false) :
    ((run policy ((bg, fb) :: ss ++ [(cm, fc)])).committed = ss.map Prod.fst ∨
        (run policy ((bg, fb) :: ss ++ [(cm, fc)])).committed = []) ↔
      Atomic policy fb ss := by
  have hss' : ∀ e ∈ ss, command e.1.sql = none := fun e he => command_of_hasTxControl (hss e he)
  by_cases hp : policy = .abort
  · subst hp
    exact iff_of_true (all_or_none_abort fb fc hb hc hss') (.inl rfl)
  · unfold Atomic
    rw [or_iff_right hp]
    split_ifs with hd
    · exact all_or_none_opened fb fc hp hb hc hss' hd
    · exact all_or_none_unopened fb fc hp hb hc hss' hd

end Transaction

/-- An event of one connection. -/
def someEvent (sql : String) : SQLEvent :=
  { conn := ⟨.v4 0x0a000001, 5000, .v4 0x0a0000ff, 5432⟩, sql := bytes sql, timestamp := 0 }

/-- Two statements in a block, of which the second fails. -/
theorem all_or_none_second_fails :
    let ss := [(someEvent "INSERT INTO t VALUES (1)", fun _ => false), (someEvent "INSERT INTO t VALUES (2)", (· == 0))]
    let t := run .skip ((someEvent "BEGIN", fun _ => false) :: ss ++ [(someEvent "COMMIT", fun _ => false)])
    t.committed = ss.map Prod.fst ∨ t.committed = [] := by
  refine (all_or_none_iff .skip _ _ _ _ _ ?_ ?_ ?_).mpr (.inr ?_)
  all_goals decide +kernel

/-- **Counterexample**: the first statement fails and is rolled back with the block;
the second, now outside of any block, is committed. -/
theorem half_committed :
    let ss := [(someEvent "INSERT INTO t VALUES (1)", (· == 0)), (someEvent "INSERT INTO t VALUES (2)", fun _ => false)]
    let t := run .skip ((someEvent "BEGIN", fun _ => false) :: ss ++ [(someEvent "COMMIT", fun _ => false)])
    t.committed = [someEvent "INSERT INTO t VALUES (2)"] := by
  decide +kernel

end TargetSession
end PgShadow
