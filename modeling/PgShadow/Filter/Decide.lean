/-
# The filter decision and the transaction state

`pkg/filter/decide.go`, `filter.go` and `state.go`: the rule matrix of a filter
mode, the ordered decision for an event, and the per-connection transaction
status that both directions of the traffic drive.

A compiled regular expression is known by the texts it matches; a nil pattern
is `none`.

Key definitions: `resolveRules`, `FilterImpl.decide`, `StateMachine`.
-/
import PgShadow.Filter.Classifier

namespace PgShadow

inductive Action
  | keep
  | drop
deriving DecidableEq

/-- The actions for a class inside and outside a transaction. -/
structure Rule where
  inTransaction : Action
  outTransaction : Action
deriving DecidableEq

/-- A compiled pattern: the texts it matches. -/
abbrev Pattern := Bytes → Bool

structure FilterConfig where
  mode : Bytes := []
  rules : GoMap StmtClass Rule := GoMap.empty
  excludePatterns : List (Option Pattern) := []
  includePatterns : List (Option Pattern) := []
  replayableProcedures : List Bytes := []
  builtinFunctions : List Bytes := []

/-- The error of a filter mode that is none of the presets. -/
inductive FilterError
  | invalidMode (mode : Bytes)

/-- The filter: its matrix, patterns and replayable names, fixed at construction. -/
structure FilterImpl where
  cls : Classifier
  rules : GoMap StmtClass Rule
  excluded : List (Option Pattern)
  included : List (Option Pattern)
  replayable : List Bytes

/-- Every class but `unknown` keeps, except a plain SELECT outside a
transaction. -/
def defaultRules : GoMap StmtClass Rule
  | .unknown => none
  | .plainSelect => some ⟨.keep, .drop⟩
  | _ => some ⟨.keep, .keep⟩

/-- Keep one class, drop every other. -/
def onlyKeep (keep : StmtClass) : GoMap StmtClass Rule
  | .unknown => none
  | c => if c = keep then some ⟨.keep, .keep⟩ else some ⟨.drop, .drop⟩

/-- The rule matrix of the configured mode. -/
def resolveRules (U : CaseTable) (cfg : FilterConfig) : Except FilterError (GoMap StmtClass Rule) :=
  let mode := toLower U (trimSpace cfg.mode)
  if mode = [] ∨ mode = bytes "custom" then .ok fun k => (cfg.rules k).or (defaultRules k)
  else if mode = bytes "write_only" then .ok (GoMap.set defaultRules .plainSelect ⟨.drop, .drop⟩)
  else if mode = bytes "all" then .ok (GoMap.set defaultRules .plainSelect ⟨.keep, .keep⟩)
  else if mode = bytes "ddl_only" then .ok (onlyKeep .ddl)
  else if mode = bytes "dml_only" then .ok (onlyKeep .dml)
  else .error (.invalidMode cfg.mode)

def newFilter (U : CaseTable) (cfg : FilterConfig) : Except FilterError FilterImpl :=
  (resolveRules U cfg).map fun rules =>
    { cls := newClassifier U cfg.builtinFunctions
      rules
      excluded := cfg.excludePatterns
      included := cfg.includePatterns
      replayable := (cfg.replayableProcedures.map fun p => toLower U (trimSpace p)).filter (· ≠ []) }

def matchesAny (res : List (Option Pattern)) (s : Bytes) : Bool := res.any fun re => re.any (· s)

/-- The action of the matrix for a class; a class without a rule is dropped. -/
def FilterImpl.ruleAction (f : FilterImpl) (cls : StmtClass) (state : TxStatus) : Action :=
  match f.rules cls with
  | none => .drop
  | some r => if state = .inTx then r.inTransaction else r.outTransaction

/-- The segments of a qualified name after the first and what follows it. -/
def nameSegments (U : CaseTable) : List Token → List Bytes × List Token
  | .dot :: .word w :: ts => (toLower U w :: (nameSegments U ts).1, (nameSegments U ts).2)
  | ts => ([], ts)

theorem nameSegments_length_le (U : CaseTable) (ts : List Token) :
    (nameSegments U ts).2.length ≤ ts.length := by
  fun_induction nameSegments U ts with
  | case1 w ts ih => simp only [List.length_cons]; omega
  | case2 => exact Nat.le_refl _

/-- `strings.Join(segs, ".")`. -/
def joinDots : List Bytes → Bytes
  | [] => []
  | [s] => s
  | s :: t => s ++ chr '.' :: joinDots t

/-- Some name before a parenthesis is a replayable procedure, by its last
segment or as a whole. -/
def invokesReplayableIn (U : CaseTable) (replayable : List Bytes) (toks : List Token) : Bool :=
  match toks with
  | [] => false
  | .word w :: ts =>
    let segs := toLower U w :: (nameSegments U ts).1
    let rest := (nameSegments U ts).2
    (rest.head? == some .lparen &&
        (replayable.contains (segs.getLastD []) || replayable.contains (joinDots segs))) ||
      invokesReplayableIn U replayable rest
  | _ :: ts => invokesReplayableIn U replayable ts
termination_by toks.length
decreasing_by
  · have := nameSegments_length_le U ts
    simp only [List.length_cons]
    omega
  · simp only [List.length_cons]
    omega

def FilterImpl.invokesReplayable (f : FilterImpl) (sql : Bytes) : Bool :=
  if f.replayable = [] then false else invokesReplayableIn f.cls.unicode f.replayable (lex sql)

/-- The ordered decision: exclude patterns, unknown class, SELECT overrides,
then the matrix. -/
def FilterImpl.decideClass (f : FilterImpl) (sql : Bytes) (cls : StmtClass) (state : TxStatus) : Action :=
  if matchesAny f.excluded sql then .drop
  else if cls = .unknown then .drop
  else if cls = .plainSelect ∨ cls = .procSelect then
    if matchesAny f.included sql || f.invokesReplayable sql then .keep else f.ruleAction cls state
  else f.ruleAction cls state

/-- `Filter.Decide`: the action and the class it reports to the metrics. -/
def FilterImpl.decide (f : FilterImpl) (ev : SQLEvent) (state : TxStatus) : Action × StmtClass :=
  let cls := f.cls.classify ev.sql
  (f.decideClass ev.sql cls state, cls)

/-! ### The transaction state machine -/

/-- The recorded status of each connection. -/
abbrev StateMachine := GoMap ConnID TxStatus

namespace StateMachine

/-- A connection with no recorded status is idle. -/
def state (m : StateMachine) (conn : ConnID) : TxStatus := (m conn).getD .idle

/-- The status a ReadyForQuery byte stands for. -/
def statusOf (b : UInt8) : Option TxStatus :=
  if b = chr 'I' then some .idle
  else if b = chr 'T' then some .inTx
  else if b = chr 'E' then some .failed
  else none

def onReadyForQuery (m : StateMachine) (conn : ConnID) (status : UInt8) : StateMachine :=
  match statusOf status with
  | some s => m.set conn s
  | none => m

def onStatement (m : StateMachine) (conn : ConnID) (cls : StmtClass) : StateMachine :=
  if cls = .begin then m.set conn .inTx
  else if cls = .commitRollback then m.set conn .idle
  else m

def forget (m : StateMachine) (conn : ConnID) : StateMachine := m.erase conn

end StateMachine

end PgShadow
