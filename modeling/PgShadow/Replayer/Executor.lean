/-
# The executor chain

`pkg/replayer/exec_decorators.go`, `dialect.go` and `replayguard_executor.go`:
the decorators around the executor that talks to the target, and `buildExecutor`,
which stacks them: guard, pacing, rate limit, error policy, dialect, base. An
executor is a program over a state `σ`; what a decorator asks of its surroundings
is a `Host` over the same state, so that the chain can be run against any target.

`Chain.exec` runs one event against a list of answers (`Outside`): what the limiter,
each attempt at the target, and each look at the context say. What the error policy
makes of it is known from the answers alone (`Outside.outcome`, `yields_errorPolicy`),
and with it what the hook is told and what the base executor is given
(`Chain.exec_spec`).

Key definitions: `errorPolicyExecutor`, `greenplumExecutor`, `buildExecutor`,
`execAndRelease`, `Outside.outcome`.
-/
import Mathlib.Algebra.Order.Group.Int
import PgShadow.Go.Strings
import PgShadow.Replayguard.Guard

namespace PgShadow

/-- An executor over the state `σ`; `none` is Go's nil error. -/
abbrev Executor (σ : Type) := ConnID → SQLEvent → StateM σ (Option Bytes)

inductive ErrorPolicy
  | skip
  | retry
  | abort
deriving DecidableEq

abbrev defaultRetryAttempts : ℕ := 3

/-- 30 seconds. -/
abbrev maxPacingDelay : ℤ := 30000000000

/-- What the decorators ask of their surroundings. -/
structure Host (σ : Type) where
  /-- `ctx.Err() != nil`. -/
  ctxErr : StateM σ Bool
  /-- The abort hook, which cancels the context of the run. -/
  onAbort : StateM σ Unit
  /-- `limiter.Wait(ctx)`. -/
  wait : StateM σ (Option Bytes)
  /-- Store the time of the statement and return that of the one before. -/
  swapPrev : ℤ → StateM σ (Option ℤ)
  sleep : ℤ → StateM σ Unit
  /-- `Guard.Apply`, with the event as it leaves it. -/
  apply : SQLEvent → StateM σ (Decision × SQLEvent)

section Decorators

variable {σ : Type} (host : Host σ)

/-! ### Error policy -/

/-- The event of `resetTxState`. -/
def rollbackEvent (conn : ConnID) : SQLEvent := { conn, sql := bytes "ROLLBACK", timestamp := zeroTime }

/-- `resetTxState`. -/
def resetTxState (resetExec : Option (Executor σ)) (conn : ConnID) : StateM σ Unit :=
  match resetExec with
  | none => pure ()
  | some exec => do
    let _ ← exec conn (rollbackEvent conn)

/-- The loop of the retry policy, with the attempts left and the last error. -/
def retryAgain (resetExec : Option (Executor σ)) (next : Executor σ) (conn : ConnID) (ev : SQLEvent) :
    ℕ → Bytes → StateM σ (Option Bytes)
  | 0, _ => do
    resetTxState resetExec conn
    return none
  | n + 1, err => do
    if ← host.ctxErr then return some err
    match ← next conn ev with
    | none => return none
    | some err => retryAgain resetExec next conn ev n err

/-- `errorPolicyExecutor.Exec`. -/
def errorPolicyExecutor (policy : ErrorPolicy) (resetExec : Option (Executor σ)) (next : Executor σ) : Executor σ :=
  fun conn ev => do
    match ← next conn ev with
    | none => return none
    | some err =>
      if ← host.ctxErr then return some err
      match policy with
      | .retry => retryAgain host resetExec next conn ev defaultRetryAttempts err
      | .abort =>
        host.onAbort
        return some err
      | .skip =>
        resetTxState resetExec conn
        return none

/-! ### Dialect -/

/-- After a block comment, inside `d` more of them. -/
def skipBlockComment : ℕ → Bytes → Bytes
  | _, [] => []
  | d, 47 :: 42 :: t => skipBlockComment (d + 1) t
  | d, 42 :: 47 :: t => if d = 0 then t else skipBlockComment (d - 1) t
  | d, _ :: t => skipBlockComment d t

theorem skipBlockComment_suffix (d : ℕ) (s : Bytes) : skipBlockComment d s <:+ s := by
  fun_induction skipBlockComment d s with
  | case1 => exact List.suffix_rfl
  | case2 d t ih => exact ih.trans ⟨[47, 42], rfl⟩
  | case3 t => exact ⟨[42, 47], rfl⟩
  | case4 d t _ ih => exact ih.trans ⟨[42, 47], rfl⟩
  | case5 d b t _ _ ih => exact ih.trans (List.suffix_cons b t)

/-- `skipLeadingNoise`, as the text it leaves. -/
def skipLeadingNoise (sql : Bytes) : Bytes :=
  match sql with
  | [] => []
  | c :: t =>
    if c = 32 ∨ (9 ≤ c ∧ c ≤ 13) then skipLeadingNoise t
    else if c = 45 ∧ t.head? = some 45 then skipLeadingNoise ((t.drop 1).dropWhile (· ≠ 10))
    else if c = 47 ∧ t.head? = some 42 then skipLeadingNoise (skipBlockComment 0 (t.drop 1))
    else c :: t
termination_by sql.length
decreasing_by
  · exact Nat.lt_succ_self _
  · have hle := (List.dropWhile_suffix (l := t.drop 1) (· ≠ 10)).length_le
    simp only [List.length_drop, List.length_cons] at hle ⊢
    omega
  · have hle := (skipBlockComment_suffix 0 (t.drop 1)).length_le
    simp only [List.length_drop, List.length_cons] at hle ⊢
    omega

/-- `strings.ToLower` of a byte, on ASCII. -/
def lowerByte (c : UInt8) : UInt8 := if 65 ≤ c ∧ c ≤ 90 then c + 32 else c

/-- The bytes of a leading keyword. -/
def isKeywordByte (c : UInt8) : Bool := (97 ≤ c && c ≤ 122) || (65 ≤ c && c ≤ 90) || c == 95

/-- `leadingKeyword`. -/
def leadingKeyword (sql : Bytes) : Bytes := ((skipLeadingNoise sql).takeWhile isKeywordByte).map lowerByte

def txControlKeywords : List Bytes :=
  [bytes "begin", bytes "start", bytes "commit", bytes "end", bytes "rollback", bytes "abort"]

/-- `isTransactionControl`. -/
def isTransactionControl (sql : Bytes) : Bool := txControlKeywords.contains (leadingKeyword sql)

/-- `greenplumExecutor.Exec`. -/
def greenplumExecutor (next : Executor σ) : Executor σ := fun conn ev =>
  if isTransactionControl ev.sql then return none else next conn ev

/-- The dialect is Greenplum. None of these letters has a fold outside ASCII. -/
def isGreenplum (dialect : Bytes) : Bool := (trimSpace dialect).map lowerByte = bytes "greenplum"

/-- `newDialectExecutor`. -/
def newDialectExecutor (next : Executor σ) (dialect : Bytes) : Executor σ :=
  if isGreenplum dialect then greenplumExecutor next else next

/-! ### Pacing, rate limit and guard -/

variable {F : Type} [Float64 F]

/-- `time.Time.Sub`. -/
def timeSub (t u : ℤ) : ℤ := max (-2 ^ 63) (min (2 ^ 63 - 1) (t - u))

/-- `pacingDelay`; the factor is a number. -/
def pacingDelay (gap : ℤ) (factor : F) : ℤ :=
  if !Float64.lt (Float64.ofNat 0) factor || gap ≤ 0 then 0 else Float64.scale gap factor

/-- `pacingExecutor.Exec`. -/
def pacingExecutor (factor : F) (next : Executor σ) : Executor σ := fun conn ev => do
  let delay :=
    match ← host.swapPrev ev.timestamp with
    | some prev => pacingDelay (timeSub ev.timestamp prev) factor
    | none => 0
  let delay := if maxPacingDelay < delay then maxPacingDelay else delay
  if 0 < delay then host.sleep delay
  next conn ev

/-- `rateLimitExecutor.Exec`. -/
def rateLimitExecutor (next : Executor σ) : Executor σ := fun conn ev => do
  match ← host.wait with
  | some err => return some err
  | none => next conn ev

/-- `replayguardExecutor.Exec`. -/
def replayguardExecutor (next : Executor σ) : Executor σ := fun conn ev => do
  let (decision, ev) ← host.apply ev
  match decision with
  | .block => return none
  | .rewrite => next conn ev
  | .allow => next conn ev

/-- What `buildExecutor` reads of the configuration. -/
structure ExecConfig (F : Type) where
  errorPolicy : ErrorPolicy := .skip
  targetDialect : Bytes := []
  rateLimitQPS : F
  speedFactor : F

/-- There is a limiter. -/
def ExecConfig.limited (cfg : ExecConfig F) : Bool := Float64.lt (Float64.ofNat 0) cfg.rateLimitQPS

/-- `buildExecutor`, with the reset that `NewReplayerWithHook` wires into the error
policy. -/
def buildExecutor (cfg : ExecConfig F) (base resetExec : Executor σ) (guarded : Bool) : Executor σ :=
  let ex := newDialectExecutor base cfg.targetDialect
  let ex := errorPolicyExecutor host cfg.errorPolicy (some resetExec) ex
  let ex := if cfg.limited then rateLimitExecutor host ex else ex
  let ex := if Float64.lt (Float64.ofNat 0) cfg.speedFactor then pacingExecutor host cfg.speedFactor ex else ex
  if guarded then replayguardExecutor host ex else ex

/-- `execAndRelease`, with the hook. -/
def execAndRelease (exec : Executor σ) (execHook : Option Bytes → StateM σ Unit) (ev : SQLEvent) : StateM σ Unit := do
  let err ← exec ev.conn ev
  execHook err

end Decorators

/-! ### One event and the answers it meets -/

/-- What comes of a call of the base executor: the statement goes through, it
fails at the target, or it is not sent. -/
inductive Attempt
  | ok
  | failed (err : Bytes)
  | unsent (err : Bytes)
deriving DecidableEq

namespace Attempt

def err : Attempt → Option Bytes
  | .ok => none
  | .failed err => some err
  | .unsent err => some err

def reached : Attempt → Bool
  | .unsent _ => false
  | _ => true

end Attempt

/-- What an event meets: the limiter's answer, what comes of each call of the base
executor, and each look at the context. -/
structure Outside where
  wait : Option Bytes := none
  exec : ℕ → Attempt := fun _ => .ok
  ctxErr : ℕ → Bool := fun _ => false

/-- A call of the base executor, for the event or for a reset. -/
structure Sent where
  reset : Bool
  ev : SQLEvent
  attempt : Attempt
deriving DecidableEq

/-- The state of the chain, and what has happened since the event at hand was
taken up. -/
structure Chain (F : Type) where
  guard : Option (Guard F) := none
  prev : Option ℤ := none
  delays : List ℤ := []
  looked : ℕ := 0
  aborted : Bool := false
  calls : List Sent := []
  hooks : List (Option Bytes) := []

namespace Outside

variable {F : Type} [Float64 F] (U : CaseTable) (T : TimeTexts) (a : Outside)

def host : Host (Chain F) where
  ctxErr := modifyGet fun s => (a.ctxErr s.looked, { s with looked := s.looked + 1 })
  onAbort := modify fun s => { s with aborted := true }
  wait := pure a.wait
  swapPrev t := modifyGet fun s => (s.prev, { s with prev := some t })
  sleep d := modify fun s => { s with delays := s.delays ++ [d] }
  apply ev := modifyGet fun s =>
    match s.guard with
    | none => ((.allow, ev), s)
    | some g => (((g.apply U T ev).1, (g.apply U T ev).2.1), { s with guard := some (g.apply U T ev).2.2 })

/-- The base executor. -/
def base (reset : Bool) : Executor (Chain F) := fun _ ev =>
  modifyGet fun s =>
    ((a.exec s.calls.length).err, { s with calls := s.calls ++ [⟨reset, ev, a.exec s.calls.length⟩] })

end Outside

/-- What comes of an event at the error policy: attempt `i` goes through; `n`
attempts fail, and the error is returned; `n` attempts fail, and the error is
swallowed. -/
inductive Outcome
  | succeeded (i : ℕ)
  | surfaced (n : ℕ)
  | swallowed (n : ℕ)
deriving DecidableEq

namespace Outside

/-- From attempt `i` on, with `n` more to come. -/
def again (a : Outside) : ℕ → ℕ → Outcome
  | 0, i => .swallowed i
  | n + 1, i =>
    if a.ctxErr i then .surfaced i
    else if (a.exec i).err = none then .succeeded i
    else a.again n (i + 1)

def outcome (a : Outside) (policy : ErrorPolicy) : Outcome :=
  if (a.exec 0).err = none then .succeeded 0
  else if a.ctxErr 0 then .surfaced 1
  else
    match policy with
    | .retry => a.again defaultRetryAttempts 1
    | .abort => .surfaced 1
    | .skip => .swallowed 1

/-- The first `n` attempts. -/
def tries (a : Outside) (ev : SQLEvent) (n : ℕ) : List Sent := (List.range n).map fun i => ⟨false, ev, a.exec i⟩

theorem tries_succ (a : Outside) (ev : SQLEvent) (n : ℕ) :
    a.tries ev (n + 1) = a.tries ev n ++ [⟨false, ev, a.exec n⟩] := by
  rw [tries, tries, List.range_succ, List.map_append]
  rfl

@[simp] theorem length_tries (a : Outside) (ev : SQLEvent) (n : ℕ) : (a.tries ev n).length = n := by simp [tries]

end Outside

/-- The calls of the base executor. -/
def Outcome.calls (a : Outside) (conn : ConnID) (ev : SQLEvent) : Outcome → List Sent
  | .succeeded i => a.tries ev (i + 1)
  | .surfaced n => a.tries ev n
  | .swallowed n => a.tries ev n ++ [⟨true, rollbackEvent conn, a.exec n⟩]

/-- The error that is returned. -/
def Outcome.err (a : Outside) : Outcome → Option Bytes
  | .surfaced n => (a.exec (n - 1)).err
  | _ => none

section Policy

variable {F : Type} [Float64 F] (U : CaseTable) (T : TimeTexts) (a : Outside) {conn : ConnID} {ev : SQLEvent}
  {next : Executor (Chain F)}

/-- The result, the calls and the hooks of a program, from a state. -/
def Yields (x : StateM (Chain F) (Option Bytes)) (s : Chain F) (err : Option Bytes) (calls : List Sent) : Prop :=
  (x.run s).1 = err ∧ (x.run s).2.calls = calls ∧ (x.run s).2.hooks = s.hooks

theorem run_ctxErr (f : Bool → StateM (Chain F) (Option Bytes)) (s : Chain F) :
    ((a.host U T).ctxErr >>= f).run s = (f (a.ctxErr s.looked)).run { s with looked := s.looked + 1 } := rfl

omit [Float64 F] in
theorem run_base (reset : Bool) (f : Option Bytes → StateM (Chain F) (Option Bytes)) (s : Chain F) :
    (a.base reset conn ev >>= f).run s = (f (a.exec s.calls.length).err).run
      { s with calls := s.calls ++ [⟨reset, ev, a.exec s.calls.length⟩] } := rfl

/-- One turn of the loop: a look at the context and an attempt. -/
theorem run_retryAgain_succ (hnext : next conn ev = a.base false conn ev) (n : ℕ) (err : Bytes) (s : Chain F) :
    (retryAgain (a.host U T) (some (a.base true)) next conn ev (n + 1) err).run s =
      let s₁ := { s with looked := s.looked + 1 }
      let x := a.exec s.calls.length
      let s₂ := { s₁ with calls := s.calls ++ [⟨false, ev, x⟩] }
      if a.ctxErr s.looked then (some err, s₁)
      else
        match x.err with
        | none => (none, s₂)
        | some err => (retryAgain (a.host U T) (some (a.base true)) next conn ev n err).run s₂ := by
  rw [retryAgain, hnext, run_ctxErr]
  rcases a.ctxErr s.looked with _ | _
  · rw [if_neg Bool.false_ne_true, run_base]
    dsimp only
    rcases (a.exec s.calls.length).err with _ | err' <;> rfl
  · rfl

theorem yields_retryAgain (hnext : next conn ev = a.base false conn ev) :
    ∀ (n i : ℕ) {err : Bytes} {s : Chain F}, s.calls = a.tries ev (i + 1) → s.looked = i + 1 →
      (a.exec i).err = some err →
      Yields (retryAgain (a.host U T) (some (a.base true)) next conn ev n err) s ((a.again n (i + 1)).err a)
        ((a.again n (i + 1)).calls a conn ev)
  | 0, i, err, s, hcalls, hlooked, herr => by
    refine ⟨rfl, ?_, rfl⟩
    change s.calls ++ [⟨true, rollbackEvent conn, a.exec s.calls.length⟩] = _
    rw [hcalls, Outside.length_tries]
    rfl
  | n + 1, i, err, s, hcalls, hlooked, herr => by
    have hlen : s.calls.length = i + 1 := by rw [hcalls, Outside.length_tries]
    unfold Yields
    rw [run_retryAgain_succ U T a hnext, Outside.again, hlooked, hlen]
    dsimp only
    by_cases hc : a.ctxErr (i + 1) = true
    · rw [if_pos hc, if_pos hc]
      exact ⟨herr.symm, hcalls, rfl⟩
    · rw [if_neg hc, if_neg hc]
      have hmore : s.calls ++ [⟨false, ev, a.exec (i + 1)⟩] = a.tries ev (i + 2) := by
        rw [hcalls, Outside.tries_succ a ev (i + 1)]
      rcases hx : (a.exec (i + 1)).err with _ | err'
      · rw [if_pos rfl]
        exact ⟨rfl, hmore, rfl⟩
      · rw [if_neg (Option.some_ne_none err')]
        exact yields_retryAgain hnext n (i + 1) hmore rfl hx

/-- **The error policy.** What it returns and what it sends is known from the
answers. -/
theorem yields_errorPolicy (policy : ErrorPolicy) (hnext : next conn ev = a.base false conn ev) {s : Chain F}
    (hcalls : s.calls = []) (hlooked : s.looked = 0) :
    Yields (errorPolicyExecutor (a.host U T) policy (some (a.base true)) next conn ev) s ((a.outcome policy).err a)
      ((a.outcome policy).calls a conn ev) := by
  unfold Yields errorPolicyExecutor Outside.outcome
  rw [hnext, run_base, hcalls]
  dsimp only [List.length_nil]
  rcases hx : (a.exec 0).err with _ | err
  · exact ⟨rfl, rfl, rfl⟩
  · rw [if_neg (Option.some_ne_none err)]
    dsimp only
    rw [run_ctxErr]
    dsimp only
    rw [hlooked]
    rcases a.ctxErr 0 with _ | _
    · rcases policy with _ | _ | _
      · exact ⟨rfl, rfl, rfl⟩
      · exact yields_retryAgain U T a hnext _ 0 rfl rfl hx
      · exact ⟨hx.symm, rfl, rfl⟩
    · exact ⟨hx.symm, rfl, rfl⟩

/-- What comes of an event that the guard lets pass: the limiter refuses it, the
dialect drops it, or it is tried. -/
inductive Fate
  | refused (err : Bytes)
  | dropped
  | tried (o : Outcome)

/-- The dialect drops the text. -/
def ExecConfig.drops (cfg : ExecConfig F) (sql : Bytes) : Bool :=
  isGreenplum cfg.targetDialect && isTransactionControl sql

/-- Behind the limiter. -/
def Outside.handled (cfg : ExecConfig F) (ev : SQLEvent) : Fate :=
  if cfg.drops ev.sql then .dropped else .tried (a.outcome cfg.errorPolicy)

def Outside.fate (cfg : ExecConfig F) (ev : SQLEvent) : Fate :=
  match if cfg.limited then a.wait else none with
  | some err => .refused err
  | none => a.handled cfg ev

theorem Outside.fate_cases (cfg : ExecConfig F) (ev : SQLEvent) : (∃ err, a.fate cfg ev = .refused err) ∨
    a.fate cfg ev = .dropped ∨ a.fate cfg ev = .tried (a.outcome cfg.errorPolicy) := by
  unfold Outside.fate
  rcases if cfg.limited then a.wait else none with _ | err
  · unfold Outside.handled
    by_cases hdrops : cfg.drops ev.sql = true
    · exact .inr (.inl (if_pos hdrops))
    · exact .inr (.inr (if_neg hdrops))
  · exact .inl ⟨err, rfl⟩

def Fate.err : Fate → Option Bytes
  | .refused err => some err
  | .dropped => none
  | .tried o => o.err a

def Fate.calls (conn : ConnID) (ev : SQLEvent) : Fate → List Sent
  | .tried o => o.calls a conn ev
  | _ => []

variable {a} {s : Chain F}

omit [Float64 F] in
theorem Yields.of_run_eq {x y : StateM (Chain F) (Option Bytes)} (s' : Chain F) {err : Option Bytes} {calls : List Sent}
    (hrun : x.run s = y.run s') (hhooks : s'.hooks = s.hooks) (h : Yields y s' err calls) : Yields x s err calls := by
  unfold Yields
  rw [hrun]
  exact ⟨h.1, h.2.1, h.2.2.trans hhooks⟩

/-- The error policy around the dialect. -/
def policyExecutor (a : Outside) (cfg : ExecConfig F) : Executor (Chain F) :=
  errorPolicyExecutor (a.host U T) cfg.errorPolicy (some (a.base true))
    (newDialectExecutor (a.base false) cfg.targetDialect)

theorem yields_policyExecutor (cfg : ExecConfig F) (hcalls : s.calls = []) (hlooked : s.looked = 0) :
    Yields (policyExecutor U T a cfg conn ev) s ((a.handled cfg ev).err a) ((a.handled cfg ev).calls a conn ev) := by
  unfold policyExecutor Outside.handled
  by_cases hdrop : cfg.drops ev.sql = true
  · obtain ⟨hg, htx⟩ := Bool.and_eq_true_iff.mp hdrop
    have hnext : newDialectExecutor (σ := Chain F) (a.base false) cfg.targetDialect conn ev = pure none := by
      rw [newDialectExecutor, if_pos hg, greenplumExecutor, if_pos htx]
    rw [if_pos hdrop]
    unfold Yields errorPolicyExecutor
    rw [hnext]
    exact ⟨rfl, hcalls, rfl⟩
  · rw [if_neg hdrop]
    apply yields_errorPolicy U T a cfg.errorPolicy _ hcalls hlooked
    unfold newDialectExecutor
    split_ifs with hg
    · rw [greenplumExecutor, if_neg]
      intro htx
      exact hdrop (Bool.and_eq_true_iff.mpr ⟨hg, htx⟩)
    · rfl

/-- The rate limit around it. -/
def limitedExecutor (a : Outside) (cfg : ExecConfig F) : Executor (Chain F) :=
  if cfg.limited then rateLimitExecutor (a.host U T) (policyExecutor U T a cfg) else policyExecutor U T a cfg

theorem yields_limitedExecutor (cfg : ExecConfig F) (hcalls : s.calls = []) (hlooked : s.looked = 0) :
    Yields (limitedExecutor U T a cfg conn ev) s ((a.fate cfg ev).err a) ((a.fate cfg ev).calls a conn ev) := by
  have hpolicy : Yields (policyExecutor U T a cfg conn ev) s _ _ := yields_policyExecutor U T cfg hcalls hlooked
  unfold limitedExecutor Outside.fate
  by_cases hlim : cfg.limited = true
  · have hrun : (rateLimitExecutor (a.host U T) (policyExecutor U T a cfg) conn ev).run s =
        (match a.wait with
          | some err => pure (some err)
          | none => policyExecutor U T a cfg conn ev).run s := rfl
    rw [if_pos hlim, if_pos hlim]
    apply Yields.of_run_eq s hrun rfl
    rcases a.wait with _ | err
    · exact hpolicy
    · exact ⟨rfl, hcalls, rfl⟩
  · rw [if_neg hlim, if_neg hlim]
    exact hpolicy

/-- Pacing waits, and changes nothing else. -/
theorem yields_pacingExecutor {factor : F} {err : Option Bytes} {calls : List Sent}
    (h : ∀ s : Chain F, s.calls = [] → s.looked = 0 → Yields (next conn ev) s err calls) (hcalls : s.calls = [])
    (hlooked : s.looked = 0) : Yields (pacingExecutor (a.host U T) factor next conn ev) s err calls := by
  let gap := match s.prev with
    | some prev => pacingDelay (timeSub ev.timestamp prev) factor
    | none => 0
  let delay := if maxPacingDelay < gap then maxPacingDelay else gap
  let s₁ := { s with prev := some ev.timestamp }
  have hrun : (pacingExecutor (a.host U T) factor next conn ev).run s =
      (if 0 < delay then (a.host U T).sleep delay >>= fun _ => next conn ev else next conn ev).run s₁ := rfl
  by_cases hd : 0 < delay
  · rw [if_pos hd] at hrun
    exact Yields.of_run_eq { s₁ with delays := s.delays ++ [delay] } hrun rfl (h _ hcalls hlooked)
  · rw [if_neg hd] at hrun
    exact Yields.of_run_eq s₁ hrun rfl (h _ hcalls hlooked)

/-- The chain below the guard. -/
def pacedExecutor (a : Outside) (cfg : ExecConfig F) : Executor (Chain F) :=
  if Float64.lt (Float64.ofNat 0) cfg.speedFactor then
    pacingExecutor (a.host U T) cfg.speedFactor (limitedExecutor U T a cfg)
  else limitedExecutor U T a cfg

theorem yields_pacedExecutor (cfg : ExecConfig F) (hcalls : s.calls = []) (hlooked : s.looked = 0) :
    Yields (pacedExecutor U T a cfg conn ev) s ((a.fate cfg ev).err a) ((a.fate cfg ev).calls a conn ev) := by
  unfold pacedExecutor
  split_ifs
  · exact yields_pacingExecutor U T (fun s hc hl => yields_limitedExecutor U T cfg hc hl) hcalls hlooked
  · exact yields_limitedExecutor U T cfg hcalls hlooked

end Policy

namespace Chain

variable {F : Type} [Float64 F] (U : CaseTable) (T : TimeTexts)

/-- The production chain on one event: the state it leaves, with the calls and the
hooks of this event. -/
def exec (cfg : ExecConfig F) (s : Chain F) (ev : SQLEvent) (a : Outside) : Chain F :=
  let chain := buildExecutor (a.host U T) cfg (a.base false) (a.base true) s.guard.isSome
  let hook := fun err => modify fun s : Chain F => { s with hooks := s.hooks ++ [err] }
  ((execAndRelease chain hook ev).run { guard := s.guard, prev := s.prev }).2

/-- The event as the guard lets it pass. -/
def admitted (s : Chain F) (ev : SQLEvent) : Option SQLEvent :=
  match s.guard with
  | none => some ev
  | some g => if (g.apply U T ev).1 = .block then none else some (g.apply U T ev).2.1

/-- **The chain.** What is sent and what the hook is told. -/
theorem exec_spec (cfg : ExecConfig F) (s : Chain F) (ev : SQLEvent) (a : Outside) :
    (s.exec U T cfg ev a).calls = (s.admitted U T ev).elim [] (fun ev' => (a.fate cfg ev').calls a ev.conn ev') ∧
    (s.exec U T cfg ev a).hooks = [(s.admitted U T ev).elim none fun ev' => (a.fate cfg ev').err a] := by
  have hyields : Yields (buildExecutor (a.host U T) cfg (a.base false) (a.base true) s.guard.isSome ev.conn ev)
      { guard := s.guard, prev := s.prev } ((s.admitted U T ev).elim none fun ev' => (a.fate cfg ev').err a)
      ((s.admitted U T ev).elim [] fun ev' => (a.fate cfg ev').calls a ev.conn ev') := by
    unfold admitted
    rcases hg : s.guard with _ | g
    · exact yields_pacedExecutor U T cfg rfl rfl
    · have hrun : (buildExecutor (a.host U T) cfg (a.base false) (a.base true) true ev.conn ev).run
          { guard := some g, prev := s.prev } =
            (match (g.apply U T ev).1 with
              | .block => pure none
              | .rewrite => pacedExecutor U T a cfg ev.conn (g.apply U T ev).2.1
              | .allow => pacedExecutor U T a cfg ev.conn (g.apply U T ev).2.1).run
            { guard := some (g.apply U T ev).2.2, prev := s.prev } := rfl
      refine Yields.of_run_eq _ hrun rfl ?_
      have hpaced : Yields (pacedExecutor U T a cfg ev.conn (g.apply U T ev).2.1)
          { guard := some (g.apply U T ev).2.2, prev := s.prev } _ _ := yields_pacedExecutor U T cfg rfl rfl
      dsimp only
      rcases (g.apply U T ev).1 with _ | _ | _
      · rw [if_neg (by decide)]
        exact hpaced
      · rw [if_pos rfl]
        exact ⟨rfl, rfl, rfl⟩
      · rw [if_neg (by decide)]
        exact hpaced
  obtain ⟨herr, hcalls, hhooks⟩ := hyields
  refine ⟨hcalls, ?_⟩
  -- the hook is called once, with what the chain returned
  let x := (buildExecutor (a.host U T) cfg (a.base false) (a.base true) s.guard.isSome ev.conn ev).run
    { guard := s.guard, prev := s.prev }
  calc (s.exec U T cfg ev a).hooks = x.2.hooks ++ [x.1] := rfl
    _ = _ := by rw [hhooks, herr]; rfl

end Chain
end PgShadow
