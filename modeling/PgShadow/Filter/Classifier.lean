/-
# The statement classifier

`pkg/filter/classifier.go`: a lightweight SQL lexer, the split of a text into
its top-level statements, and the classification of a statement by its leading
keyword (with the procedure heuristic for SELECT).

The source scans with an index into the text; here a scan position is the
suffix that starts at it. The lexer and the splitter share what they skip over
(comments, string literals, dollar-quoted literals); only the lexer knows
double-quoted identifiers.

Key definitions: `lex`, `splitOnDepthZeroSemicolons`, `Classifier.classifySingle`,
`Classifier.classify`.
-/
import Mathlib.Tactic.SplitIfs
import PgShadow.Go.Strings

namespace PgShadow

/-! ### Lexical scanning -/

inductive Token
  | word (text : Bytes)
  | lparen
  | rparen
  | dot
  | string
  | other
deriving DecidableEq

def isIdentStart (c : UInt8) : Bool :=
  c == chr '_' || (chr 'a' ≤ c && c ≤ chr 'z') || (chr 'A' ≤ c && c ≤ chr 'Z') || 0x80 ≤ c

def isDigit (c : UInt8) : Bool := chr '0' ≤ c && c ≤ chr '9'

def isIdentPart (c : UInt8) : Bool := isIdentStart c || isDigit c

/-- To the end of the line. -/
def skipLine (s : Bytes) : Bytes := s.dropWhile (· != 10)

/-- Past the end of `d` nested block comments. -/
def skipBlock : ℕ → Bytes → Bytes
  | 0, s => s
  | _ + 1, [] => []
  | _ + 1, [_] => []
  | d + 1, a :: b :: t =>
    if a = chr '/' ∧ b = chr '*' then skipBlock (d + 2) t
    else if a = chr '*' ∧ b = chr '/' then skipBlock d t
    else skipBlock (d + 1) (b :: t)

/-- The text up to the closing quote `q` and what follows it; a doubled quote does
not close. -/
def quotedText (q : UInt8) : Bytes → Bytes × Bytes
  | [] => ([], [])
  | [a] => if a = q then ([], []) else ([a], [])
  | a :: b :: t =>
    if a = q then
      if b = q then (q :: (quotedText q t).1, (quotedText q t).2) else ([], b :: t)
    else (a :: (quotedText q (b :: t)).1, (quotedText q (b :: t)).2)

/-- Past the closing quote of a string literal, whose text is dropped. -/
def skipString (s : Bytes) : Bytes := (quotedText (chr '\'') s).2

/-- The text of a quoted identifier and what follows its closing quote. -/
def quotedIdent (s : Bytes) : Bytes × Bytes := quotedText (chr '"') s

/-- The tag of a dollar-quote opener and what follows it, where `s` follows the
first `$`. A tag is empty or starts with a letter or underscore. -/
def dollarTag (s : Bytes) : Option (Bytes × Bytes) :=
  let tag := s.takeWhile isIdentPart
  match s.dropWhile isIdentPart with
  | [] => none
  | c :: r => if c = chr '$' ∧ (tag = [] ∨ isIdentStart (tag.headD 0) = true) then some (tag, r) else none

/-- The closing tag of a dollar-quoted literal. -/
def closeTag (tag : Bytes) : Bytes := chr '$' :: tag ++ [chr '$']

/-- Past the closing tag, or to the end of the text. -/
def afterTag (tag r : Bytes) : Bytes :=
  ((indexOf (closeTag tag) r).map fun idx => r.drop (idx + (closeTag tag).length)).getD []

/-- Past a dollar-quoted literal whose first `$` has been read. -/
def skipDollar (s : Bytes) : Option Bytes := (dollarTag s).map fun (tag, r) => afterTag tag r

theorem skipLine_suffix (t : Bytes) : skipLine (t.drop 1) <:+ t :=
  (List.dropWhile_suffix _).trans (List.drop_suffix 1 t)

theorem skipBlock_suffix : ∀ (d : ℕ) (s : Bytes), skipBlock d s <:+ s
  | 0, s => by
    unfold skipBlock
    exact List.suffix_rfl
  | _ + 1, [] => List.suffix_rfl
  | _ + 1, [_] => List.nil_suffix
  | d + 1, a :: b :: t => by
    have htail : t <:+ a :: b :: t := ⟨[a, b], rfl⟩
    rw [skipBlock]
    split_ifs
    · exact (skipBlock_suffix (d + 2) t).trans htail
    · exact (skipBlock_suffix d t).trans htail
    · exact (skipBlock_suffix (d + 1) (b :: t)).trans (List.suffix_cons a _)

theorem quotedText_suffix (q : UInt8) : ∀ s : Bytes, (quotedText q s).2 <:+ s
  | [] => List.suffix_rfl
  | [a] => by
    rw [quotedText]
    split_ifs <;> exact List.nil_suffix
  | a :: b :: t => by
    rw [quotedText]
    split_ifs
    · exact (quotedText_suffix q t).trans ⟨[a, b], rfl⟩
    · exact List.suffix_cons a _
    · exact (quotedText_suffix q (b :: t)).trans (List.suffix_cons a _)

theorem dollarTag_eq_some {s tag r : Bytes} (h : dollarTag s = some (tag, r)) :
    tag = s.takeWhile isIdentPart ∧ r <:+ s.dropWhile isIdentPart := by
  unfold dollarTag at h
  rcases hs : s.dropWhile isIdentPart with _ | ⟨c, v⟩
  · simp only [hs, reduceCtorEq] at h
  · simp only [hs, Option.ite_none_right_eq_some, Option.some.injEq, Prod.mk.injEq] at h
    exact ⟨h.2.1.symm, h.2.2 ▸ List.suffix_cons c v⟩

theorem dollarTag_suffix {s tag r : Bytes} (h : dollarTag s = some (tag, r)) : r <:+ s :=
  (dollarTag_eq_some h).2.trans (List.dropWhile_suffix _)

theorem afterTag_suffix (tag r : Bytes) : afterTag tag r <:+ r := by
  unfold afterTag
  cases indexOf (closeTag tag) r with
  | none => exact List.nil_suffix
  | some i => exact List.drop_suffix _ r

theorem skipDollar_eq {s tag r : Bytes} (h : dollarTag s = some (tag, r)) : skipDollar s = some (afterTag tag r) := by
  rw [skipDollar, h, Option.map_some]

theorem skipDollar_suffix {s r : Bytes} (h : skipDollar s = some r) : r <:+ s := by
  obtain ⟨⟨tag, v⟩, htag, rfl⟩ := Option.map_eq_some_iff.1 h
  exact (afterTag_suffix tag v).trans (dollarTag_suffix htag)

/-- Tokenize, dropping white space and comments and the content of literals. -/
def lex (s : Bytes) : List Token :=
  match s with
  | [] => []
  | c :: t =>
    if c == 32 || (9 ≤ c && c ≤ 13) then lex t
    else if c == chr '-' && t.head? == some (chr '-') then lex (skipLine (t.drop 1))
    else if c == chr '/' && t.head? == some (chr '*') then lex (skipBlock 1 (t.drop 1))
    else if c == chr '\'' then .string :: lex (skipString t)
    else if c == chr '"' then .word (quotedIdent t).1 :: lex (quotedIdent t).2
    else if c == chr '$' then
      match _h : skipDollar t with
      | some r => .string :: lex r
      | none => .other :: lex (t.dropWhile isDigit)
    else if c == chr '(' then .lparen :: lex t
    else if c == chr ')' then .rparen :: lex t
    else if c == chr '.' then .dot :: lex t
    else if isIdentStart c then .word (c :: t.takeWhile isIdentPart) :: lex (t.dropWhile isIdentPart)
    else .other :: lex t
termination_by s.length
decreasing_by
  all_goals simp only [List.length_cons]
  · omega
  · have := (skipLine_suffix t).length_le; omega
  · have := ((skipBlock_suffix 1 _).trans (List.drop_suffix 1 t)).length_le; omega
  · have := (quotedText_suffix (chr '\'') t).length_le
    unfold skipString
    omega
  · have := (quotedText_suffix (chr '"') t).length_le
    unfold quotedIdent
    omega
  · have := (skipDollar_suffix ‹_›).length_le; omega
  · have := (List.dropWhile_suffix (l := t) isDigit).length_le; omega
  · omega
  · omega
  · omega
  · have := (List.dropWhile_suffix (l := t) isIdentPart).length_le; omega
  · omega

/-! ### Top-level statements -/

/-- Past the comment or literal that `c :: t` starts with, if it does. The two
splitting loops also step over the newline that ends a line comment. -/
def skipRegion (c : UInt8) (t : Bytes) : Option Bytes :=
  if c == chr '-' && t.head? == some (chr '-') then some ((skipLine (t.drop 1)).drop 1)
  else if c == chr '/' && t.head? == some (chr '*') then some (skipBlock 1 (t.drop 1))
  else if c == chr '\'' then some (skipString t)
  else if c == chr '$' then skipDollar t
  else none

theorem skipRegion_suffix {c : UInt8} {t r : Bytes} (h : skipRegion c t = some r) : r <:+ t := by
  unfold skipRegion at h
  split_ifs at h
  · cases h
    exact (List.drop_suffix 1 _).trans (skipLine_suffix t)
  · cases h
    exact (skipBlock_suffix 1 _).trans (List.drop_suffix 1 t)
  · cases h
    exact quotedText_suffix (chr '\'') t
  · exact skipDollar_suffix h

/-- The parenthesis depth after the byte `c`. -/
def depthAfter (depth : ℕ) (c : UInt8) : ℕ :=
  if c == chr '(' then depth + 1 else if c == chr ')' then depth - 1 else depth

/-- The loop of `indexDepthZeroSemicolon` from byte `i` on, where `s` starts. -/
def indexDepthZeroFrom (i depth : ℕ) (s : Bytes) : Option ℕ :=
  match s with
  | [] => none
  | c :: t =>
    match _h : skipRegion c t with
    | some r => indexDepthZeroFrom (i + 1 + (t.length - r.length)) depth r
    | none =>
      if c == chr ';' && depth == 0 then
        if t.any fun ch => !(ch == 32 || ch == 9 || ch == 10 || ch == 13) then some i else none
      else indexDepthZeroFrom (i + 1) (depthAfter depth c) t
termination_by s.length
decreasing_by
  · have := (skipRegion_suffix ‹_›).length_le
    simp only [List.length_cons]
    omega
  · simp only [List.length_cons]
    omega

/-- The index of the first top-level semicolon, unless only blanks follow it. -/
def indexDepthZeroSemicolon (sql : Bytes) : Option ℕ := indexDepthZeroFrom 0 0 sql

/-- The loop of `splitOnDepthZeroSemicolons`: the current statement began where
`start` begins, the scan is at `s`. -/
def splitFrom (depth : ℕ) (start s : Bytes) : List Bytes :=
  match s with
  | [] => if start = [] then [] else [start]
  | c :: t =>
    match _h : skipRegion c t with
    | some r => splitFrom depth start r
    | none =>
      if c == chr ';' && depth == 0 then start.take (start.length - (c :: t).length) :: splitFrom 0 t t
      else splitFrom (depthAfter depth c) start t
termination_by s.length
decreasing_by
  · have := (skipRegion_suffix ‹_›).length_le
    simp only [List.length_cons]
    omega
  · simp only [List.length_cons]
    omega
  · simp only [List.length_cons]
    omega

/-- The texts between the top-level semicolons. -/
def splitOnDepthZeroSemicolons (sql : Bytes) : List Bytes := splitFrom 0 sql sql

/-! ### Classes -/

inductive StmtClass
  | unknown
  | plainSelect
  | procSelect
  | call
  | dml
  | ddl
  | begin
  | commitRollback
  | utility
  | copyFrom
deriving DecidableEq

/-- The baseline of function names that are no procedure invocations. -/
def defaultBuiltinFunctions : List Bytes := List.map bytes
  ["count", "sum", "avg", "min", "max", "array_agg", "string_agg", "bool_and", "bool_or", "every",
    "json_agg", "jsonb_agg", "json_object_agg", "jsonb_object_agg", "xmlagg", "row_number", "rank",
    "dense_rank", "percent_rank", "cume_dist", "ntile", "lead", "lag", "first_value", "last_value",
    "nth_value", "now", "current_timestamp", "current_date", "current_time", "clock_timestamp",
    "statement_timestamp", "transaction_timestamp", "age", "date_part", "date_trunc", "extract",
    "make_date", "make_interval", "make_time", "make_timestamp", "coalesce", "nullif", "greatest", "least",
    "cast", "to_char", "to_date", "to_number", "to_timestamp", "generate_series", "unnest", "array_length",
    "array_upper", "array_lower", "array_cat", "array_append", "array_remove", "length", "upper", "lower",
    "trim", "ltrim", "rtrim", "substring", "replace", "concat", "concat_ws", "format", "left", "right",
    "repeat", "reverse", "split_part", "abs", "ceil", "floor", "round", "trunc", "mod", "power", "sqrt",
    "random", "sign", "json_build_object", "jsonb_build_object", "json_build_array", "jsonb_build_array",
    "row_to_json", "to_json", "to_jsonb", "pg_typeof", "version", "current_database", "current_schema",
    "current_user", "session_user", "txid_current"]

/-- Words that may stand before a parenthesis without being invoked. -/
def sqlKeywordsBeforeParen : List Bytes := List.map bytes
  ["as", "in", "exists", "all", "any", "some", "values", "over", "filter", "within", "from", "where",
    "and", "or", "not", "on", "using", "when", "then", "case", "by", "having", "group", "order", "select",
    "union", "intersect", "except", "join", "into", "distinct", "between", "like", "ilike", "similar",
    "is", "null", "returning", "do", "else", "end", "limit", "offset", "fetch", "with", "recursive",
    "left", "right", "full", "inner", "outer", "cross", "lateral", "natural", "asc", "desc", "nulls",
    "first", "last", "for", "of", "only", "tablesample", "window", "partition", "range", "rows", "groups",
    "unbounded", "preceding", "following", "current", "row", "grouping", "cube", "rollup", "sets", "array",
    "set", "to", "if", "numeric", "decimal", "dec", "char", "character", "varchar", "varbit", "bit",
    "time", "timestamp", "timestamptz", "interval", "float", "double", "real", "int", "integer", "bigint",
    "smallint", "money", "bool", "boolean", "text", "bytea", "uuid", "json", "jsonb", "xml"]

/-- The classifier: its set of builtin names, lowercased. -/
structure Classifier where
  unicode : CaseTable
  builtins : List Bytes

def newClassifier (U : CaseTable) (extraBuiltins : List Bytes) : Classifier :=
  ⟨U, (defaultBuiltinFunctions ++ extraBuiltins).map (toLower U)⟩

/-- The keep priority of a class in a batch. -/
def stmtClassPriority : StmtClass → ℕ
  | .unknown => 0
  | .plainSelect => 1
  | .utility => 2
  | .procSelect => 3
  | .copyFrom => 4
  | .dml => 5
  | .ddl => 6
  | .begin => 7
  | .commitRollback => 8
  | .call => 5

/-- The word tokens, lowercased. -/
def wordsOf (U : CaseTable) (toks : List Token) : List Bytes :=
  toks.filterMap fun
    | .word w => some (toLower U w)
    | _ => none

/-- The first word, lowercased, or the empty text. -/
def firstWord (U : CaseTable) (toks : List Token) : Bytes := (wordsOf U toks).headD []

def hasSecondWord (U : CaseTable) (toks : List Token) (word : Bytes) : Bool :=
  ((wordsOf U toks)[1]?).any (· == word)

/-- The words outside parentheses, lowercased. -/
def depthZeroWords (U : CaseTable) : ℕ → List Token → List Bytes
  | _, [] => []
  | d, .lparen :: ts => depthZeroWords U (d + 1) ts
  | d, .rparen :: ts => depthZeroWords U (d - 1) ts
  | d, .word w :: ts => if d = 0 then toLower U w :: depthZeroWords U d ts else depthZeroWords U d ts
  | d, _ :: ts => depthZeroWords U d ts

def depthZeroHasWord (U : CaseTable) (toks : List Token) (word : Bytes) : Bool :=
  (depthZeroWords U 0 toks).contains word

/-- A command that WITH can govern. -/
def isCommand (w : Bytes) : Bool :=
  w == bytes "select" || w == bytes "insert" || w == bytes "update" || w == bytes "delete"

/-- The command a WITH prefix governs. -/
def primaryCommandAfterWith (U : CaseTable) (toks : List Token) : Bytes :=
  ((depthZeroWords U 0 toks).find? isCommand).getD []

/-- The rest of a qualified name: its last segment and what follows it. -/
def walkName (U : CaseTable) (last : Bytes) : List Token → Bytes × List Token
  | .dot :: .word w :: ts => walkName U (toLower U w) ts
  | ts => (last, ts)

theorem walkName_length_le (U : CaseTable) (last : Bytes) (ts : List Token) :
    (walkName U last ts).2.length ≤ ts.length := by
  fun_induction walkName U last ts with
  | case1 last w ts ih => simp only [List.length_cons]; omega
  | case2 => exact Nat.le_refl _

/-- A name that is neither a keyword nor a builtin, before a parenthesis. -/
def Classifier.isProcInvoking (c : Classifier) (toks : List Token) : Bool :=
  match toks with
  | [] => false
  | .word w :: ts =>
    let firstSeg := toLower c.unicode w
    let name := walkName c.unicode firstSeg ts
    (name.2.head? == some .lparen && !sqlKeywordsBeforeParen.contains firstSeg &&
        !sqlKeywordsBeforeParen.contains name.1 && !c.builtins.contains name.1) ||
      c.isProcInvoking name.2
  | _ :: ts => c.isProcInvoking ts
termination_by toks.length
decreasing_by
  · have := walkName_length_le c.unicode (toLower c.unicode w) ts
    simp only [List.length_cons]
    omega
  · simp only [List.length_cons]
    omega

theorem Classifier.isProcInvoking_skip (c : Classifier) {t : Token} (ht : ∀ w, t ≠ .word w) (ts : List Token) :
    c.isProcInvoking (t :: ts) = c.isProcInvoking ts := by
  rw [Classifier.isProcInvoking]
  exact ht

/-- The class of a statement by its leading word, whether its second word is TO,
whether it has FROM outside parentheses, the command behind WITH, and what the
procedure heuristic says. -/
def statementClass (leading : Bytes) (second source : Bool) (primary : Bytes) (proc : Bool) : StmtClass :=
  let selectClass := if proc then StmtClass.procSelect else .plainSelect
  if leading = [] then .unknown
  else if leading = bytes "call" then .call
  else if leading = bytes "insert" ∨ leading = bytes "update" ∨ leading = bytes "delete" then .dml
  else if leading = bytes "create" ∨ leading = bytes "alter" ∨ leading = bytes "drop" then .ddl
  else if leading = bytes "begin" ∨ leading = bytes "start" then .begin
  else if leading = bytes "commit" ∨ leading = bytes "end" then .commitRollback
  else if leading = bytes "rollback" then if second then .utility else .commitRollback
  else if leading = bytes "savepoint" ∨ leading = bytes "release" then .utility
  else if leading = bytes "set" ∨ leading = bytes "reset" ∨ leading = bytes "discard" then .utility
  else if leading = bytes "copy" then if source then .copyFrom else .unknown
  else if leading = bytes "select" then selectClass
  else if leading = bytes "with" then
    if primary = bytes "select" then selectClass
    else if primary = bytes "insert" ∨ primary = bytes "update" ∨ primary = bytes "delete" then .dml
    else .unknown
  else .unknown

/-- The class of a statement with the tokens `toks`. -/
def Classifier.tokenClass (c : Classifier) (toks : List Token) : StmtClass :=
  statementClass (firstWord c.unicode toks) (hasSecondWord c.unicode toks (bytes "to"))
    (depthZeroHasWord c.unicode toks (bytes "from")) (primaryCommandAfterWith c.unicode toks) (c.isProcInvoking toks)

/-- Classify one statement. -/
def Classifier.classifySingle (c : Classifier) (sql : Bytes) : StmtClass := c.tokenClass (lex sql)

/-- The class of highest priority among the statements, the first such. -/
def Classifier.classifyMultiStatement (c : Classifier) (sql : Bytes) : StmtClass :=
  (splitOnDepthZeroSemicolons sql).foldl (fun best stmt =>
    let trimmed := trimSpace stmt
    if trimmed = [] then best
    else
      let cls := c.classifySingle trimmed
      if stmtClassPriority best < stmtClassPriority cls then cls else best) .unknown

/-- Classify a text of one or more statements. -/
def Classifier.classify (c : Classifier) (sql : Bytes) : StmtClass :=
  if (indexDepthZeroSemicolon sql).isSome then c.classifyMultiStatement sql else c.classifySingle sql

/-- The heuristic for SELECT statements that invoke a procedure. -/
def Classifier.isProcInvokingSelect (c : Classifier) (sql : Bytes) : Bool :=
  let toks := lex sql
  let leading := firstWord c.unicode toks
  let isSelect :=
    if leading = bytes "with" then primaryCommandAfterWith c.unicode toks = bytes "select"
    else leading = bytes "select"
  isSelect && c.isProcInvoking toks

end PgShadow
