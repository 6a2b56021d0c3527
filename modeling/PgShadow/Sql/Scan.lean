/-
# SQL texts as the server reads them

The lexical structure of PostgreSQL: a text is taken apart into tokens (`scan`)
and these into top-level statements (`statements`). Comments, literals and quoted
identifiers hide what is in them; a semicolon ends a statement outside parentheses
and outside the `BEGIN ... END` body of a routine. `standard_conforming_strings`
is on.

Over it, what a statement does: whether it is transaction control (`control`),
whether it writes (`writes`), as a command, in a data-modifying `WITH`, or under
`EXPLAIN ANALYZE`, and whether it changes definitions or privileges (`isDDL`).
Nothing here comes from the code; it is what the code is
measured against.

Key definitions: `scan`, `statements`, `control`, `hasTxControl`, `hasWrite`, `hasDDL`.
-/
import PgShadow.Go.Strings

namespace PgShadow
namespace Sql

/-- Unquoted words are folded to lower case. -/
inductive Token
  | word (w : Bytes)
  | quoted
  | literal
  | number (digits : Bytes)
  | symbol (c : UInt8)
deriving DecidableEq

def isSpace (c : UInt8) : Bool := c == 32 || (9 ≤ c && c ≤ 13)

def isDigit (c : UInt8) : Bool := 48 ≤ c && c ≤ 57

/-- Letters, `_`, and every byte of a character beyond ASCII. -/
def isIdentStart (c : UInt8) : Bool := (65 ≤ c && c ≤ 90) || (97 ≤ c && c ≤ 122) || c == 95 || 128 ≤ c

/-- Digits and `$` may follow. -/
def isIdentCont (c : UInt8) : Bool := isIdentStart c || isDigit c || c == 36

def foldCase (c : UInt8) : UInt8 := if 65 ≤ c ∧ c ≤ 90 then c + 32 else c

/-- After a line comment. -/
def afterLine (s : Bytes) : Bytes := s.dropWhile fun c => c != 10 && c != 13

/-- After a block comment, inside `d` more of them. -/
def afterBlock : ℕ → Bytes → Bytes
  | d, 47 :: 42 :: t => afterBlock (d + 1) t
  | d, 42 :: 47 :: t => if d = 0 then t else afterBlock (d - 1) t
  | d, _ :: t => afterBlock d t
  | _, [] => []

/-- After the closing quote `q`, which is doubled in the text; with `escapes` a
backslash hides what follows it. -/
def afterQuote (q : UInt8) (escapes : Bool) : Bytes → Bytes
  | b :: c :: t =>
    if b = q then if c = q then afterQuote q escapes t else c :: t
    else if escapes && b == 92 then afterQuote q escapes t
    else afterQuote q escapes (c :: t)
  | _ => []

/-- The delimiter of a dollar-quoted literal, from after its first `$`. -/
def dollarTag (s : Bytes) : Option Bytes :=
  let name := s.takeWhile fun c => isIdentStart c || isDigit c
  if (s.drop name.length).head? = some 36 ∧ name.head?.all isIdentStart then some (36 :: name ++ [36]) else none

/-- After the closing delimiter. -/
def afterDollar (tag s : Bytes) : Bytes := ((indexOf tag s).map fun i => s.drop (i + tag.length)).getD []

/-- The token that starts with the visible byte `b`, and the text after it. -/
def tokenAt (b : UInt8) (t : Bytes) : Token × Bytes :=
  if b = 39 then (.literal, afterQuote 39 false t)
  else if (b = 101 ∨ b = 69) ∧ t.head? = some 39 then (.literal, afterQuote 39 true (t.drop 1))
  else if b = 34 then (.quoted, afterQuote 34 false t)
  else if b = 36 then
    match dollarTag t with
    | some tag => (.literal, afterDollar tag (t.drop (tag.length - 1)))
    | none => (.symbol b, t)
  else if isIdentStart b then
    (.word (foldCase b :: (t.takeWhile isIdentCont).map foldCase), t.dropWhile isIdentCont)
  else if isDigit b then (.number (b :: t.takeWhile isIdentCont), t.dropWhile isIdentCont)
  else (.symbol b, t)

/-- The tokens, each with the text after it, with fuel for each. -/
def lexemesFrom : ℕ → Bytes → List (Token × Bytes)
  | 0, _ => []
  | _, [] => []
  | n + 1, b :: t =>
    if isSpace b then lexemesFrom n t
    else if b = 45 ∧ t.head? = some 45 then lexemesFrom n (afterLine t)
    else if b = 47 ∧ t.head? = some 42 then lexemesFrom n (afterBlock 0 (t.drop 1))
    else tokenAt b t :: lexemesFrom n (tokenAt b t).2

/-- The tokens of a text, each with the text after it. -/
def lexemes (s : Bytes) : List (Token × Bytes) := lexemesFrom s.length s

/-- The tokens of a text. -/
def scan (s : Bytes) : List Token := (lexemes s).map Prod.fst

/-! ### Statements -/

/-- The keyword, as a token. -/
abbrev kw (s : String) : Token := .word (bytes s)

/-- The statement creates a function or a procedure. -/
def isRoutine : List Token → Bool
  | create :: rest =>
    create = kw "create" &&
      match rest with
      | a :: b :: c :: _ =>
        a = kw "function" || a = kw "procedure" ||
          (a = kw "or" && b = kw "replace" && (c = kw "function" || c = kw "procedure"))
      | a :: _ => a = kw "function" || a = kw "procedure"
      | [] => false
  | [] => false

/-- The bodies open after the token, in a statement that began with `cur`. -/
def bodies (cur : List Token) (parens begins : ℕ) (t : Token) : ℕ :=
  if parens = 0 ∧ isRoutine cur then
    if t = kw "begin" ∨ (t = kw "case" ∧ 0 < begins) then begins + 1
    else if t = kw "end" then begins - 1
    else begins
  else begins

/-- Statements from the lexemes, after `cur`, inside parentheses and bodies. -/
def splitFrom (cur : List (Token × Bytes)) (parens begins : ℕ) : List (Token × Bytes) → List (List (Token × Bytes))
  | [] => [cur]
  | h :: hs =>
    if h.1 = .symbol 59 ∧ parens = 0 ∧ begins = 0 then cur :: splitFrom [] 0 0 hs
    else
      let parens' := if h.1 = .symbol 40 then parens + 1 else if h.1 = .symbol 41 then parens - 1 else parens
      splitFrom (cur ++ [h]) parens' (bodies (cur.map Prod.fst) parens begins h.1) hs

/-- The top-level statements, each with the text after its tokens; one is empty if
nothing stands before a semicolon or at the end. -/
def pieces (s : Bytes) : List (List (Token × Bytes)) := splitFrom [] 0 0 (lexemes s)

/-- The top-level statements that are not empty. -/
def statements (s : Bytes) : List (List Token) := ((pieces s).filter (· ≠ [])).map (·.map Prod.fst)

/-! ### Transaction control -/

inductive Control
  | begin
  | commit
  | rollback
deriving DecidableEq

/-- `BEGIN`, `START TRANSACTION`, `COMMIT`, `END`, `ROLLBACK` and `ABORT`. -/
def control : List Token → Option Control
  | t :: ts =>
    if t = kw "begin" ∨ (t = kw "start" ∧ ts.head? = some (kw "transaction")) then some .begin
    else if t = kw "commit" ∨ t = kw "end" then some .commit
    else if t = kw "rollback" ∨ t = kw "abort" then some .rollback
    else none
  | [] => none

/-- One of the top-level statements is transaction control. -/
def hasTxControl (s : Bytes) : Bool := (statements s).any fun st => (control st).isSome

/-! ### Writes -/

/-- The tokens of a group in parentheses, from after the first one, and the rest. -/
def group : ℕ → List Token → List Token × List Token
  | _, [] => ([], [])
  | d, t :: ts =>
    if t = .symbol 41 ∧ d = 0 then ([], ts)
    else
      let d' := if t = .symbol 40 then d + 1 else if t = .symbol 41 then d - 1 else d
      ((t :: (group d' ts).1), (group d' ts).2)

/-- A word that can start the statement of a `WITH`. -/
def startsMain (t : Token) : Bool :=
  t ∈ [kw "select", kw "insert", kw "update", kw "delete", kw "merge", kw "values", kw "table", .symbol 40]

/-- The bodies of the common table expressions after `WITH`, and the statement. -/
def ctes : ℕ → List Token → List (List Token) × List Token
  | 0, _ => ([], [])
  | n + 1, ts =>
    match (ts.dropWhile (· ≠ kw "as")).drop 1 |>.dropWhile (fun t => t = kw "not" || t = kw "materialized") with
    | .symbol 40 :: body =>
      let (body, rest) := group 0 body
      let (more, main) :=
        match rest with
        | .symbol 44 :: rest => ctes n rest
        | t :: rest' =>
          if t = kw "search" ∨ t = kw "cycle" then
            -- the clause ends at the next expression or at the statement
            let rest' := rest'.dropWhile fun t => t ≠ kw "as" && !startsMain t
            if rest'.head? = some (kw "as") then ctes n rest' else ([], rest')
          else ([], rest)
        | [] => ([], [])
      (body :: more, main)
    | _ => ([], [])

/-- The statement that `EXPLAIN` executes, from after `EXPLAIN`. -/
def analyzed : List Token → Option (List Token)
  | .symbol 40 :: ts =>
    let (options, rest) := group 0 ts
    let settings := (options.splitOn (.symbol 44)).filter fun o =>
      o.head? = some (kw "analyze") || o.head? = some (kw "analyse")
    -- the last setting counts
    let enabled := settings.getLast?.any fun o => o.tail ∈ [[], [kw "on"], [kw "true"], [.number [49]]]
    if enabled then some rest else none
  | t :: ts =>
    if t = kw "analyze" ∨ t = kw "analyse" then some (ts.dropWhile (· = kw "verbose")) else none
  | [] => none

/-- The commands that change rows or definitions. -/
def writeWords : List Token :=
  [kw "insert", kw "update", kw "delete", kw "merge", kw "truncate", kw "create", kw "alter", kw "drop", kw "grant",
    kw "revoke"]

/-- The statement writes, with fuel for its nesting. -/
def writesFrom : ℕ → List Token → Bool
  | 0, _ => false
  | _, [] => false
  | n + 1, t :: ts =>
    t ∈ writeWords ||
      (t = kw "explain" && (analyzed ts).any (writesFrom n)) ||
      (t = kw "with" && ((ctes ts.length ts).1.any (writesFrom n) || writesFrom n (ctes ts.length ts).2))

def writes (st : List Token) : Bool := writesFrom st.length st

/-- One of the top-level statements writes. -/
def hasWrite (s : Bytes) : Bool := (statements s).any writes

/-! ### Definitions -/

/-- The commands that change definitions or privileges. -/
def ddlWords : List Token := [kw "create", kw "alter", kw "drop", kw "truncate", kw "grant", kw "revoke"]

/-- White space or a comment comes next. -/
def separated (s : Bytes) : Bool := s.head?.any isSpace || (bytes "--").isPrefixOf s || (bytes "/*").isPrefixOf s

/-- The command, with white space or a comment after its first word. -/
def isDDL (h : Token × Bytes) : Bool := h.1 ∈ ddlWords && separated h.2

/-- One of the top-level statements is such a command. -/
def hasDDL (s : Bytes) : Bool := (pieces s).any fun st => st.head?.any isDDL

example : hasTxControl (bytes "/* ; */ select ';commit' ; -- x
    ROLLBACK") = true := by decide +kernel

example :
    hasTxControl (bytes "create function f() returns int begin atomic select 1; end; select $x$;abort$x$") = false := by
  decide +kernel

end Sql
end PgShadow
