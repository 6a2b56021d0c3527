/-
# The replay guard

`pkg/replayguard/replayguard.go`: what is checked of an event, and rewritten in
it, before it is replayed (`Guard.apply`), and when the replayer is to pause
(`Guard.checkBackpressure`).

Go's `float64` is a parameter: a type with the comparison and the conversions the
code uses (`Float64`), so nothing depends on rounding. A compiled regular
expression is known by what it matches and how it replaces. A time is printed in
the zone of the capturing host, so its text is a parameter as well
(`TimeTexts`).

Key definitions: `Guard`, `Guard.apply`, `Guard.checkBackpressure`, `isSelect`.
-/
import Mathlib.Algebra.Order.Group.Nat
import Mathlib.Data.Rat.Defs
import PgShadow.Go.Strings

namespace PgShadow

/-- What is used of `float64`: the conversion of small integers, the comparison,
`time.Duration.Seconds`, and `time.Duration(float64(d) / x)`. -/
class Float64 (F : Type) where
  ofNat : ℕ → F
  lt : F → F → Bool
  seconds : ℤ → F
  scale : ℤ → F → ℤ

/-- Exact arithmetic. -/
instance : Float64 ℚ where
  ofNat n := n
  lt x y := x < y
  seconds n := n / 1000000000
  scale d x := (d / x).floor

/-- A compiled regular expression. -/
structure Regexp where
  matchString : Bytes → Bool
  replaceAllString : Bytes → Bytes → Bytes

/-- A capture time as text: `::timestamptz`, `::date` and `::timetz`. -/
structure TimeTexts where
  timestamptz : ℤ → Bytes
  date : ℤ → Bytes
  timetz : ℤ → Bytes

/-- `time.Time{}` in nanoseconds since 1970. -/
abbrev zeroTime : ℤ := -62135596800000000000

/-- The switches and thresholds of a guard. -/
structure GuardConfig (F : Type) where
  excludeDDL : Bool := false
  rewriteTimeFunctions : Bool := false
  skipExternalDeps : Bool := false
  maxReplayLagSeconds : F
  maxQueueDepth : ℤ := 0
  replayPercentage : F
  readOnly : Bool := false

/-- A guard with its compiled patterns. `includeUsers` are lowercased names,
`counter` the events that the percentage has counted. -/
structure Guard (F : Type) where
  cfg : GuardConfig F
  ddlPattern : Regexp
  timePatterns : List Regexp := []
  externalPatterns : List Regexp := []
  maskPatterns : List (Regexp × Bytes) := []
  tablePatterns : List Regexp := []
  excludeTablePat : List Regexp := []
  includeUsers : List Bytes := []
  counter : ℕ := 0

inductive Decision
  | allow
  | block
  | rewrite
deriving DecidableEq

/-! ### Quoted text -/

/-- `parseDollarTag` at the start of the text; `[]` if there is no tag. -/
def parseDollarTag : Bytes → Bytes
  | 36 :: t =>
    let name := t.takeWhile fun c => (97 ≤ c && c ≤ 122) || (65 ≤ c && c ≤ 90) || (48 ≤ c && c ≤ 57) || c == 95
    if (t.drop name.length).head? = some 36 then 36 :: name ++ [36] else []
  | _ => []

/-- `hasDollarQuote`. -/
def hasDollarQuote : Bytes → Bool
  | [] => false
  | b :: t => parseDollarTag (b :: t) ≠ [] || hasDollarQuote t

/-- Whether the guard takes a text apart. -/
def hasQuotes (sql : Bytes) : Bool := sql.contains 39 || hasDollarQuote sql

/-- The loop of `stripStringLiterals`, inside or outside a literal. -/
def stripFrom (inString : Bool) (s : Bytes) : Bytes :=
  match s with
  | [] => []
  | b :: t =>
    if inString then
      if b = 39 then if t.head? = some 39 then stripFrom true (t.drop 1) else 39 :: stripFrom false t
      else stripFrom true t
    else if b = 39 then 39 :: stripFrom true t
    else
      let tag := parseDollarTag (b :: t)
      if tag = [] then b :: stripFrom false t
      else
        let inner := t.drop (tag.length - 1)
        match indexOf tag inner with
        | some e => tag ++ tag ++ stripFrom false (inner.drop (e + tag.length))
        | none => tag ++ inner
termination_by s.length
decreasing_by all_goals simp only [List.length_drop, List.length_cons]; omega

/-- `stripStringLiterals`. -/
def stripStringLiterals (sql : Bytes) : Bytes := stripFrom false sql

/-- The loop of `replaceOutsideStrings`; `seg` is the text since `segStart`. -/
def replaceFrom (pat : Regexp) (replacement : Bytes) (inString : Bool) (seg s : Bytes) : Bytes :=
  match s with
  | [] => if inString then seg else pat.replaceAllString seg replacement
  | b :: t =>
    if inString then
      if b = 39 then
        if t.head? = some 39 then replaceFrom pat replacement true (seg ++ [39, 39]) (t.drop 1)
        else seg ++ 39 :: replaceFrom pat replacement false [] t
      else replaceFrom pat replacement true (seg ++ [b]) t
    else if b = 39 then pat.replaceAllString seg replacement ++ 39 :: replaceFrom pat replacement true [] t
    else
      let tag := parseDollarTag (b :: t)
      if tag = [] then replaceFrom pat replacement false (seg ++ [b]) t
      else
        let inner := t.drop (tag.length - 1)
        pat.replaceAllString seg replacement ++ tag ++
          match indexOf tag inner with
          | some e => inner.take e ++ tag ++ replaceFrom pat replacement false [] (inner.drop (e + tag.length))
          | none => inner
termination_by s.length
decreasing_by all_goals simp only [List.length_drop, List.length_cons]; omega

/-- `replaceOutsideStrings`. -/
def replaceOutsideStrings (sql : Bytes) (pat : Regexp) (replacement : Bytes) : Bytes :=
  replaceFrom pat replacement false [] sql

/-- The text without the contents of its literals, if it has any. -/
def strippedOf (sql : Bytes) : Bytes := if hasQuotes sql then stripStringLiterals sql else sql

/-! ### The checks -/

/-- Whether the trimmed text starts with one of the words, in any case. -/
def startsWithAny (U : CaseTable) (words : List Bytes) (sql : Bytes) : Bool :=
  let upper := toUpper U (trimSpace sql)
  words.any (·.isPrefixOf upper)

/-- `isSelect`. -/
def isSelect (U : CaseTable) : Bytes → Bool :=
  startsWithAny U [bytes "SELECT", bytes "WITH", bytes "EXPLAIN"]

/-- `isSessionCommand`. -/
def isSessionCommand (U : CaseTable) : Bytes → Bool :=
  startsWithAny U [bytes "SET ", bytes "RESET ", bytes "DISCARD "]

variable {F : Type} [Float64 F]

namespace Guard

/-- The data masking: the text and whether it was rewritten. -/
def mask (s : Guard F) (sql : Bytes) : Bytes × Bool :=
  s.maskPatterns.foldl (fun r m => if m.1.matchString r.1 then (m.1.replaceAllString r.1 m.2, true) else r)
    (sql, false)

/-- Whether the percentage filter is on. -/
def samples (s : Guard F) : Bool :=
  Float64.lt (Float64.ofNat 0) s.cfg.replayPercentage && Float64.lt s.cfg.replayPercentage (Float64.ofNat 100)

/-- The percentage filter blocks the event of this number. Where it is on, the
percentage is a number, so `>=` is the negation of `<`. -/
def percentageBlocks (s : Guard F) (cnt : ℕ) : Bool :=
  s.samples && !Float64.lt (Float64.ofNat (cnt % 100)) s.cfg.replayPercentage

def userBlocks (U : CaseTable) (s : Guard F) (user : Bytes) : Bool :=
  !s.includeUsers.isEmpty && !s.includeUsers.contains (toLower U user)

def readOnlyBlocks (U : CaseTable) (s : Guard F) (sql : Bytes) : Bool := s.cfg.readOnly && !isSelect U sql

def ddlBlocks (s : Guard F) (sql : Bytes) : Bool := s.cfg.excludeDDL && s.ddlPattern.matchString sql

def externalBlocks (s : Guard F) (stripped : Bytes) : Bool :=
  s.cfg.skipExternalDeps && s.externalPatterns.any (·.matchString stripped)

def tableBlocks (U : CaseTable) (s : Guard F) (sql stripped : Bytes) : Bool :=
  !isSessionCommand U sql &&
    ((!s.tablePatterns.isEmpty && !s.tablePatterns.any (·.matchString stripped)) ||
      s.excludeTablePat.any (·.matchString stripped))

/-- The rewriting of the time functions from pattern number `i` on. -/
def rewriteTimes (T : TimeTexts) (ts : ℤ) : ℕ → List Regexp → Bytes × Bool → Bytes × Bool
  | _, [], r => r
  | i, pat :: pats, (sql, rewritten) =>
    let text := if i = 2 then T.date ts else if i = 6 then T.timetz ts else T.timestamptz ts
    let cur := strippedOf sql
    let next :=
      if pat.matchString cur then
        (if cur = sql then pat.replaceAllString sql text else replaceOutsideStrings sql pat text, true)
      else (sql, rewritten)
    rewriteTimes T ts (i + 1) pats next

/-- `Apply`: the decision, the event with the SQL it leaves, and the guard with
its counter. -/
def apply (U : CaseTable) (T : TimeTexts) (s : Guard F) (ev : SQLEvent) : Decision × SQLEvent × Guard F :=
  let (sql, masked) := s.mask ev.sql
  let ev := { ev with sql }
  let stripped := strippedOf sql
  let cnt := if s.samples then (s.counter + 1) % 2 ^ 64 else s.counter
  let s := { s with counter := cnt }
  if s.percentageBlocks cnt || s.userBlocks U ev.user || s.readOnlyBlocks U sql || s.ddlBlocks sql ||
      s.externalBlocks stripped || s.tableBlocks U sql stripped then
    (.block, ev, s)
  else
    let (sql, rewritten) :=
      if s.cfg.rewriteTimeFunctions && ev.timestamp ≠ zeroTime then
        rewriteTimes T ev.timestamp 0 s.timePatterns (sql, masked)
      else (sql, masked)
    (if rewritten then .rewrite else .allow, { ev with sql }, s)

/-- `CheckBackpressure`. -/
def checkBackpressure (s : Guard F) (queueDepth : ℤ) (replayLagSec : F) : Bool :=
  (0 < s.cfg.maxQueueDepth && s.cfg.maxQueueDepth < queueDepth) ||
    (Float64.lt (Float64.ofNat 0) s.cfg.maxReplayLagSeconds &&
      Float64.lt s.cfg.maxReplayLagSeconds replayLagSec)

end Guard

end PgShadow
