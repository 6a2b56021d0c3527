/-
# The rules of a replay guard

`New` of `pkg/replayguard/replayguard.go`: the guard of a configuration, with its
patterns. The patterns that the code writes down are expressions of `Lib.Regex`
over runes, as `regexp/syntax` reads them with the flag `(?i)`: a letter stands for
the runes of its case orbit, so `k` also for the Kelvin sign and `s` for the long s,
while `\s` and `\b` know ASCII only. What is left open (`Regexes`) are the patterns
that a configuration writes down for masking, how a match is replaced, and the case
orbits beyond ASCII.

`Guard.Of cfg s` says that `s` is a guard of the configuration after any number of
events; only its counter has changed (`apply_of`).

Key definitions: `newGuard`, `ddlRegex`, `Guard.Of`.
Key theorems: `Guard.apply_of`.
-/
import PgShadow.Go.Runes
import PgShadow.Lib.Regex
import PgShadow.Replayguard.Guard

namespace PgShadow

/-! ### Patterns -/

/-- What is not modelled of `regexp`: the case orbits of runes from U+0080 on,
`Compile` of a pattern of the configuration, and `ReplaceAllString`. -/
structure Regexes where
  orbit : ℕ → ℕ → Bool
  compile : Bytes → Option Regexp
  replace : Regex ℕ → Bytes → Bytes → Bytes

/-- No orbits, masks or replacements, for runs on fixed inputs. -/
def noRegexes : Regexes := ⟨fun _ _ => false, fun _ => none, fun _ s _ => s⟩

/-- The ASCII rune of a pattern matches the rune of a text, case ignored. -/
def sameLetter (c r : ℕ) : Bool :=
  let c := if 65 ≤ c ∧ c ≤ 90 then c + 32 else c
  r == c || (97 ≤ c && c ≤ 122 && r + 32 == c) || (c == 107 && r == 0x212A) || (c == 115 && r == 0x17F)

/-- The rune of a pattern matches the rune of a text, case ignored. -/
def foldsTo (R : Regexes) (c r : ℕ) : Bool := if c < 0x80 then sameLetter c r else r == c || R.orbit c r

/-- `[\t\n\f\r ]`, which is `\s`. -/
def isBlankRune (r : ℕ) : Bool := r == 9 || r == 10 || r == 12 || r == 13 || r == 32

/-- `[0-9A-Za-z_]`. -/
def isWordRune (r : ℕ) : Bool :=
  (48 ≤ r && r ≤ 57) || (65 ≤ r && r ≤ 90) || (97 ≤ r && r ≤ 122) || r == 95

/-- A rune of `\w`, case ignored: the Kelvin sign and the long s fold to letters. -/
def isWordFold (r : ℕ) : Bool := isWordRune r || r == 0x212A || r == 0x17F

namespace Pattern

/-- `\s*`. -/
def blanks : Regex ℕ := .star true (.sym isBlankRune)

/-- A rune as it is. -/
def rune (c : Char) : Regex ℕ := .sym (· == c.toNat)

/-- An ASCII text, case ignored. -/
def text (s : String) : Regex ℕ := .word (s.toList.map fun c => sameLetter c.toNat)

/-- `\b`. -/
def boundary : Regex ℕ := .look fun a b => a.any isWordRune != b.any isWordRune

/-- `\w` under `(?i)`. -/
def wordRune : Regex ℕ := .sym isWordFold

def plus (r : Regex ℕ) : Regex ℕ := .seq r (.star true r)

/-- The expressions in order. -/
def inOrder : List (Regex ℕ) → Regex ℕ
  | [] => .eps
  | [r] => r
  | r :: rs => .seq r (inOrder rs)

/-- A function name and its opening parenthesis: `\bNAME\s*\(`. -/
def call (name : String) : Regex ℕ := inOrder [boundary, text name, blanks, rune '(']

/-- A call without arguments: `\bNAME\s*\(\s*\)`. -/
def emptyCall (name : String) : Regex ℕ :=
  inOrder [boundary, text name, blanks, rune '(', blanks, rune ')']

/-- `\bNAME\b`. -/
def name (s : String) : Regex ℕ := inOrder [boundary, text s, boundary]

end Pattern

open Pattern

def ddlKeywords : List String := ["CREATE", "ALTER", "DROP", "TRUNCATE", "GRANT", "REVOKE"]

/-- `--[^\n]*\n\s*`. -/
def lineComment : Regex ℕ :=
  .seq (rune '-') (.seq (rune '-') (.seq (.star true (.sym (· != 10))) (.seq (rune '\n') blanks)))

/-- From a `/*` to a `*/`, not greedy, and the blanks after it. -/
def blockComment : Regex ℕ :=
  .seq (rune '/') (.seq (rune '*') (.seq (.star false (.sym fun _ => true))
    (.seq (rune '*') (.seq (rune '/') blanks))))

/-- The DDL pattern: blanks and comments from the start of the text, one of the
keywords, and a blank. -/
def ddlRegex : Regex ℕ :=
  .seq .start (.seq blanks (.seq (.star true (.alt lineComment blockComment))
    (.seq (.anyOf (ddlKeywords.map text)) (.sym isBlankRune))))

/-- The time functions. -/
def timeRegexes : List (Regex ℕ) :=
  [emptyCall "now", name "current_timestamp", name "current_date", emptyCall "clock_timestamp",
    emptyCall "statement_timestamp", emptyCall "transaction_timestamp", name "current_time"]

/-- `\bnotify\s+\w`. -/
def notifyRegex : Regex ℕ := inOrder [boundary, text "notify", plus (.sym isBlankRune), wordRune]

/-- `\bfrom\s+\w+\.\w+\.\w+`. -/
def remoteRegex : Regex ℕ :=
  inOrder [boundary, text "from", plus (.sym isBlankRune), plus wordRune, rune '.', plus wordRune, rune '.',
    plus wordRune]

/-- The external dependencies. -/
def externalRegexes : List (Regex ℕ) :=
  [call "dblink", call "dblink_exec", call "pg_notify", notifyRegex, remoteRegex,
    call "lo_import", call "lo_export", call "pg_advisory_lock", call "pg_advisory_xact_lock",
    call "pg_try_advisory_lock", call "pg_try_advisory_xact_lock"]

/-- The name of a table, quoted: `\bNAME\b`. -/
def tableRegex (R : Regexes) (t : Bytes) : Regex ℕ :=
  inOrder [boundary, .word ((runes t).map (foldsTo R)), boundary]

/-- A compiled expression. -/
def Regexes.compiled (R : Regexes) (r : Regex ℕ) : Regexp := ⟨fun s => r.found (runes s), R.replace r⟩

/-! ### Configuration -/

/-- The configuration of a guard. A mask is a pattern and its replacement. -/
structure GuardRules (F : Type) extends GuardConfig F where
  maskPatterns : List (Bytes × Bytes) := []
  includeTables : List Bytes := []
  excludeTables : List Bytes := []
  includeUsers : List Bytes := []

variable {F : Type}

/-- No rule of the guard but time rewriting and the user filter. -/
structure GuardRules.NoOthers [Float64 F] (cfg : GuardRules F) : Prop where
  excludeDDL : cfg.excludeDDL = false
  skipExternalDeps : cfg.skipExternalDeps = false
  readOnly : cfg.readOnly = false
  percentage : (Float64.lt (Float64.ofNat 0) cfg.replayPercentage &&
    Float64.lt cfg.replayPercentage (Float64.ofNat 100)) = false
  maskPatterns : cfg.maskPatterns = []
  includeTables : cfg.includeTables = []
  excludeTables : cfg.excludeTables = []

/-- `New`. A mask whose pattern does not compile is left out; a table whose name is
not valid UTF-8 panics. -/
def newGuard (U : CaseTable) (R : Regexes) (cfg : GuardRules F) : Option (Guard F) :=
  if (cfg.includeTables ++ cfg.excludeTables).all validString then
    some
      { cfg := cfg.toGuardConfig
        ddlPattern := R.compiled ddlRegex
        timePatterns := timeRegexes.map R.compiled
        externalPatterns := externalRegexes.map R.compiled
        maskPatterns := cfg.maskPatterns.filterMap fun m => (R.compile m.1).map fun re => (re, m.2)
        tablePatterns := cfg.includeTables.map fun t => R.compiled (tableRegex R t)
        excludeTablePat := cfg.excludeTables.map fun t => R.compiled (tableRegex R t)
        includeUsers := cfg.includeUsers.map (toLower U) }
  else none

namespace Guard

variable (U : CaseTable) (R : Regexes) (T : TimeTexts)

/-- `s` is a guard of the configuration, whatever events it has seen. -/
def Of (cfg : GuardRules F) (s : Guard F) : Prop :=
  ∃ g counter, newGuard U R cfg = some g ∧ s = { g with counter }

variable {U R}

theorem new_of {cfg : GuardRules F} {g : Guard F} (h : newGuard U R cfg = some g) : Of U R cfg g :=
  ⟨g, g.counter, h, rfl⟩

theorem ite_guard {α β γ : Type} (blocked : Bool) (a a' : α) (b b' : β) (s : γ) :
    (if blocked then (a, b, s) else (a', b', s)).2.2 = s := by
  rcases blocked with _ | _ <;> rfl

theorem apply_counter [Float64 F] (s : Guard F) (ev : SQLEvent) :
    (s.apply U T ev).2.2 = { s with counter := if s.samples then (s.counter + 1) % 2 ^ 64 else s.counter } :=
  ite_guard _ _ _ _ _ _

/-- An event leaves the guard one of its configuration. -/
theorem apply_of [Float64 F] {cfg : GuardRules F} {s : Guard F} (h : Of U R cfg s) (ev : SQLEvent) :
    Of U R cfg (s.apply U T ev).2.2 := by
  obtain ⟨g, n, hg, rfl⟩ := h
  exact ⟨g, _, hg, apply_counter T { g with counter := n } ev⟩

end Guard

end PgShadow
