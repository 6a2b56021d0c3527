/-
# Read-only mode

What `Guard.Apply` blocks with `ReadOnly`. The check is on the first letters of the
text: a text whose first statement is a write is blocked (`first_write_blocked`),
but a write in a later statement, in a `WITH`, or under `EXPLAIN ANALYZE` is blocked
only by another filter (`read_only_iff`, `writes_allowed`).

Key definitions: `Guard.Rule`, `Guard.BlocksBesides`.
Key theorems: `Guard.first_write_blocked`, `Guard.read_only_iff`.
-/
import Mathlib.Data.List.Basic
import PgShadow.Replayguard.Guard
import PgShadow.Sql.Scan

namespace PgShadow

/-! ### The first statement -/

namespace Sql

theorem splitFrom_eq_cons : ∀ (hs cur : List (Token × Bytes)) (parens begins : ℕ),
    ∃ more rest, splitFrom cur parens begins hs = (cur ++ more) :: rest
  | [], cur, _, _ => ⟨[], [], by rw [splitFrom, List.append_nil]⟩
  | h :: hs, cur, parens, begins => by
    rw [splitFrom]
    split_ifs
    · exact ⟨[], _, by rw [List.append_nil]⟩
    all_goals
      obtain ⟨more, rest, he⟩ := splitFrom_eq_cons hs (cur ++ [h]) _ (bodies (cur.map Prod.fst) parens begins h.1)
      exact ⟨h :: more, rest, by rw [he, List.append_assoc]; rfl⟩

/-- The first piece begins with the first token, and is empty before a semicolon. -/
theorem pieces_eq_cons {s : Bytes} {h : Token × Bytes} {hs : List (Token × Bytes)} (hlex : lexemes s = h :: hs) :
    ∃ more rest, pieces s = (if h.1 = .symbol 59 then [] else h :: more) :: rest := by
  rw [pieces, hlex, splitFrom]
  by_cases hsemi : h.1 = .symbol 59
  · rw [if_pos ⟨hsemi, rfl, rfl⟩]
    exact ⟨[], _, by rw [if_pos hsemi]⟩
  · rw [if_neg fun hand => hsemi hand.1]
    obtain ⟨more, rest, he⟩ := splitFrom_eq_cons hs [h] _ (bodies [] 0 0 h.1)
    exact ⟨more, rest, by rw [if_neg hsemi]; exact he⟩

/-- The first statement begins with the first token, unless that is a semicolon. -/
theorem statements_head {s : Bytes} {t : Token} {ts : List Token} (hscan : scan s = t :: ts) (ht : t ≠ .symbol 59) :
    ∃ more rest, statements s = (t :: more) :: rest := by
  obtain ⟨h, hs, hlex, rfl, -⟩ := List.map_eq_cons_iff.1 hscan
  obtain ⟨more, rest, hpieces⟩ := pieces_eq_cons hlex
  rw [if_neg ht] at hpieces
  rw [statements, hpieces, List.filter_cons_of_pos (by simp)]
  exact ⟨_, _, rfl⟩

/-- The first token of a text is read after white space. -/
theorem scan_space {b : UInt8} (hb : isSpace b = true) (t : Bytes) : scan (b :: t) = scan t := by
  rw [scan, lexemes, List.length_cons, lexemesFrom, if_pos hb]
  rfl

theorem isIdentStart_byte {b : UInt8} (hb : isIdentStart b = true) :
    isSpace b = false ∧ b ≠ 45 ∧ b ≠ 47 ∧ b ≠ 39 ∧ b ≠ 34 ∧ b ≠ 36 := by
  grind [isIdentStart, isSpace]

/-- A letter starts a word, or a literal with escapes. -/
theorem scan_letter {b : UInt8} (hb : isIdentStart b = true) (t : Bytes) :
    ∃ ts, scan (b :: t) = .literal :: ts ∨ ∃ w, scan (b :: t) = .word (foldCase b :: w) :: ts := by
  obtain ⟨hspace, hdash, hslash, hquote, hdouble, hdollar⟩ := isIdentStart_byte hb
  rw [scan, lexemes, List.length_cons, lexemesFrom, hspace, if_neg Bool.false_ne_true, if_neg fun h => hdash h.1,
    if_neg fun h => hslash h.1, List.map_cons, tokenAt, if_neg hquote]
  split_ifs
  · exact ⟨_, .inl rfl⟩
  · exact ⟨_, .inr ⟨_, rfl⟩⟩

/-- The first letter of a word. -/
def Token.letter : Token → Option UInt8
  | .word w => w.head?
  | _ => none

/-- A write behind `EXPLAIN` or `WITH` in the first statement, or in a later one. -/
def writesBehind (s : Bytes) : Bool :=
  match statements s with
  | st :: rest => ((st.head? = some (kw "explain") || st.head? = some (kw "with")) && writes st) || rest.any writes
  | [] => false

/-- Every write is behind something, or is the first command. -/
theorem hasWrite_cases {s : Bytes} (h : hasWrite s = true) :
    writesBehind s = true ∨ ∃ t st rest, statements s = (t :: st) :: rest ∧ t ∈ writeWords := by
  unfold hasWrite at h
  unfold writesBehind
  rcases hst : statements s with _ | ⟨_ | ⟨t, st⟩, rest⟩
  · rw [hst] at h
    cases h
  · rw [hst, List.any_cons] at h
    exact .inl ((Bool.or_eq_true _ _).mpr (.inr h))
  · by_cases ht : t ∈ writeWords
    · exact .inr ⟨t, st, rest, rfl, ht⟩
    · rw [hst, List.any_cons, Bool.or_eq_true] at h
      rcases h with h | h
      · refine .inl ?_
        dsimp only
        rw [h, Bool.and_true, Bool.or_eq_true]
        simp only [writes, List.length_cons, writesFrom, Bool.or_eq_true, Bool.and_eq_true] at h
        rcases h with (h | h) | h
        · exact absurd (of_decide_eq_true h) ht
        · exact .inl (by rw [List.head?_cons, of_decide_eq_true h.1]; rfl)
        · exact .inl (by rw [List.head?_cons, of_decide_eq_true h.1]; rfl)
      · exact .inl ((Bool.or_eq_true _ _).mpr (.inr h))

theorem writeWords_letter : ∀ t ∈ writeWords, ∃ c ∈ t.letter, c ∈ bytes "iudmtcagr" := by decide

end Sql

/-! ### The first letters -/

theorem isSelect_space (U : CaseTable) {b : UInt8} (hb : Sql.isSpace b = true) (t : Bytes) :
    isSelect U (b :: t) = isSelect U t := by
  simp only [Sql.isSpace, Bool.or_eq_true, Bool.and_eq_true, decide_eq_true_eq, beq_iff_eq] at hb
  unfold isSelect startsWithAny trimSpace
  rw [trimWords_space hb]

theorem upper_first {b : UInt8} (h : (if 97 ≤ b ∧ b ≤ 122 then b - 32 else b) ∈ bytes "SWE") : b ∈ bytes "sSwWeE" := by
  rw [show bytes "SWE" = [83, 87, 69] from rfl] at h
  rw [show bytes "sSwWeE" = [115, 83, 119, 87, 101, 69] from rfl]
  grind

/-- The first letter of a text that passes as a query. -/
theorem isSelect_first (U : CaseTable) {b : UInt8} (hb : stops b = true) {t : Bytes} (h : isSelect U (b :: t) = true) :
    b ∈ bytes "sSwWeE" := by
  obtain ⟨r, -, htrim⟩ := trimSpace_append hb hb [] [] t (m := []) rfl
  have htrim' : trimSpace (b :: t) = b :: r := by rwa [trimWords] at htrim
  have hascii : b.toNat < 128 := by
    rw [stops, Bool.and_eq_true] at hb
    exact of_decide_eq_true hb.1
  have hwords : ∀ w ∈ [bytes "SELECT", bytes "WITH", bytes "EXPLAIN"], ∃ c ∈ w.head?, c ∈ bytes "SWE" := by
    decide
  obtain ⟨w, hw, hpre⟩ := List.any_eq_true.mp h
  obtain ⟨c, hhead, hc⟩ := hwords w hw
  obtain ⟨w', rfl⟩ := List.head?_eq_some_iff.mp hhead
  rw [htrim', toUpper_cons U hascii, List.isPrefixOf_iff_prefix] at hpre
  rw [(List.cons_prefix_cons.mp hpre).1] at hc
  exact upper_first hc

theorem first_not_write {b : UInt8} (hspace : Sql.isSpace b = false) (hb : b ∈ bytes "sSwWeE" ∨ stops b = false) :
    Sql.isIdentStart b = true ∧ Sql.foldCase b ∉ bytes "iudmtcagr" :=
  forall_byte (p := fun b => Sql.isSpace b = false → b ∈ bytes "sSwWeE" ∨ stops b = false →
    Sql.isIdentStart b = true ∧ Sql.foldCase b ∉ bytes "iudmtcagr") (by decide +kernel) b hspace hb

/-- A text that passes as a query starts with no semicolon and no write. -/
theorem isSelect_scan (U : CaseTable) : ∀ {s : Bytes} {t : Sql.Token} {ts : List Sql.Token},
    isSelect U s = true → Sql.scan s = t :: ts → t ∉ Sql.writeWords ∧ t ≠ .symbol 59
  | [], _, _, _, hscan => by cases hscan
  | b :: s, t, ts, h, hscan => by
    by_cases hspace : Sql.isSpace b = true
    · rw [isSelect_space U hspace] at h
      rw [Sql.scan_space hspace] at hscan
      exact isSelect_scan U h hscan
    · have hfirst : b ∈ bytes "sSwWeE" ∨ stops b = false := by
        by_cases hstops : stops b = true
        · exact .inl (isSelect_first U hstops h)
        · exact .inr (Bool.eq_false_iff.mpr hstops)
      obtain ⟨hletter, hnot⟩ := first_not_write (Bool.eq_false_iff.mpr hspace) hfirst
      obtain ⟨_, hlit | ⟨w, hword⟩⟩ := Sql.scan_letter hletter s
      · obtain ⟨rfl, -⟩ := List.cons.inj (hscan.symm.trans hlit)
        exact ⟨by decide, Sql.Token.noConfusion⟩
      · obtain ⟨rfl, -⟩ := List.cons.inj (hscan.symm.trans hword)
        refine ⟨fun hmem => ?_, Sql.Token.noConfusion⟩
        obtain ⟨c, hc, hmem'⟩ := Sql.writeWords_letter _ hmem
        obtain rfl := Option.some.inj hc
        exact hnot hmem'

/-- Nor does its first statement. -/
theorem isSelect_statements {U : CaseTable} {s : Bytes} {t : Sql.Token} {st : List Sql.Token}
    {rest : List (List Sql.Token)} (h : isSelect U s = true) (hst : Sql.statements s = (t :: st) :: rest) :
    t ∉ Sql.writeWords := by
  rcases hscan : Sql.scan s with _ | ⟨t', ts⟩
  · rw [Sql.statements, Sql.pieces, List.map_eq_nil_iff.1 hscan] at hst
    cases hst
  · obtain ⟨hwrite, hsemi⟩ := isSelect_scan U h hscan
    obtain ⟨more, rest', hst'⟩ := Sql.statements_head hscan hsemi
    obtain ⟨rfl, -⟩ := List.cons.inj (List.cons.inj (hst.symm.trans hst')).1
    exact hwrite

/-! ### The rules of a guard -/

namespace Guard

/-- The checks of `Apply` that block an event. -/
inductive Rule
  | percentage | user | readOnly | ddl | external | table

variable {F : Type} [Float64 F] (U : CaseTable) (T : TimeTexts)

/-- The rule blocks the event. -/
def blocks (s : Guard F) (ev : SQLEvent) : Rule → Bool
  | .percentage => s.percentageBlocks (if s.samples then (s.counter + 1) % 2 ^ 64 else s.counter)
  | .user => s.userBlocks U ev.user
  | .readOnly => s.readOnlyBlocks U (s.mask ev.sql).1
  | .ddl => s.ddlBlocks (s.mask ev.sql).1
  | .external => s.externalBlocks (strippedOf (s.mask ev.sql).1)
  | .table => s.tableBlocks U (s.mask ev.sql).1 (strippedOf (s.mask ev.sql).1)

/-- A rule other than this one blocks the event. -/
def BlocksBesides (s : Guard F) (rule : Rule) (ev : SQLEvent) : Prop := ∃ other ≠ rule, s.blocks U ev other = true

theorem block_iff {α : Type} (blocked rewritten : Bool) (a b : α) :
    (if blocked then (Decision.block, a) else (if rewritten then .rewrite else .allow, b)).1 = .block ↔
      blocked = true := by
  rcases blocked with _ | _
  · rcases rewritten with _ | _ <;> simp
  · simp

/-- An event is blocked if and only if one of the rules blocks it. -/
theorem apply_block_iff_exists (s : Guard F) (ev : SQLEvent) :
    (s.apply U T ev).1 = .block ↔ ∃ rule, s.blocks U ev rule = true := by
  have hcond : (s.apply U T ev).1 = .block ↔ (s.blocks U ev .percentage || s.blocks U ev .user ||
      s.blocks U ev .readOnly || s.blocks U ev .ddl || s.blocks U ev .external || s.blocks U ev .table) = true :=
    block_iff _ _ _ _
  rw [hcond]
  simp only [Bool.or_eq_true]
  constructor
  · rintro (((((h | h) | h) | h) | h) | h)
    all_goals exact ⟨_, h⟩
  · rintro ⟨rule, h⟩
    cases rule <;> simp [h]

theorem apply_block_iff (rule : Rule) (s : Guard F) (ev : SQLEvent) :
    (s.apply U T ev).1 = .block ↔ s.blocks U ev rule = true ∨ s.BlocksBesides U rule ev := by
  rw [apply_block_iff_exists]
  constructor
  · rintro ⟨other, h⟩
    by_cases heq : other = rule
    · exact .inl (heq ▸ h)
    · exact .inr ⟨other, heq, h⟩
  · rintro (h | ⟨other, -, h⟩)
    all_goals exact ⟨_, h⟩

/-! ### Read-only mode -/

/-- A text that starts with a write is blocked. -/
theorem first_write_blocked (s : Guard F) (ev : SQLEvent) (hro : s.cfg.readOnly = true)
    (hmask : (s.mask ev.sql).1 = ev.sql)
    {t : Sql.Token} {st : List Sql.Token} {rest : List (List Sql.Token)}
    (hst : Sql.statements ev.sql = (t :: st) :: rest) (ht : t ∈ Sql.writeWords) : (s.apply U T ev).1 = .block := by
  rw [apply_block_iff _ _ .readOnly, blocks, hmask, readOnlyBlocks, hro, Bool.true_and, Bool.not_eq_true']
  refine .inl (Bool.eq_false_iff.mpr fun hselect => ?_)
  exact isSelect_statements hselect hst ht

/-- **Read-only mode.** An event with a write is blocked if and only if its text,
as the masking leaves it, does not start like a query, or another filter blocks it.
A write that passes unmasked is behind `EXPLAIN`, `WITH` or another statement. -/
theorem read_only_iff (s : Guard F) (ev : SQLEvent) (hro : s.cfg.readOnly = true) (hw : Sql.hasWrite ev.sql = true) :
    ((s.apply U T ev).1 = .block ↔ isSelect U (s.mask ev.sql).1 = false ∨ s.BlocksBesides U .readOnly ev) ∧
      ((s.mask ev.sql).1 = ev.sql → (s.apply U T ev).1 = .block ∨ Sql.writesBehind ev.sql = true) := by
  constructor
  · rw [apply_block_iff _ _ .readOnly, blocks, readOnlyBlocks, hro, Bool.true_and, Bool.not_eq_true']
  · intro hmask
    rcases Sql.hasWrite_cases hw with hbehind | ⟨t, st, rest, hst, ht⟩
    · exact .inr hbehind
    · exact .inl (first_write_blocked U T s ev hro hmask hst ht)

/-- A guard with read-only mode and no pattern. -/
def readOnlyGuard : Guard ℚ where
  cfg := { maxReplayLagSeconds := 0, replayPercentage := 0, readOnly := true }
  ddlPattern := ⟨fun _ => false, fun s _ => s⟩

/-- The decision of that guard. -/
def readOnlyDecision (sql : String) : Decision :=
  (readOnlyGuard.apply ⟨id, id⟩ ⟨fun _ => [], fun _ => [], fun _ => []⟩
    { conn := ⟨.v4 0x0a000001, 5000, .v4 0x0a0000ff, 5432⟩, sql := bytes sql, timestamp := 0 }).1

/-- A text that starts with a write. -/
theorem read_only_insert : readOnlyDecision "INSERT INTO t SELECT 1; DELETE FROM t" = .block :=
  (read_only_iff _ _ readOnlyGuard _ rfl (by decide +kernel)).1.mpr (.inl (by decide +kernel))

/-- **Counterexample**: a write in the second statement, one in a `WITH`, and one
under `EXPLAIN ANALYZE` are let through. -/
theorem writes_allowed :
    ["SELECT 1; DELETE FROM t", "WITH d AS (DELETE FROM t RETURNING *) SELECT * FROM d",
        "EXPLAIN ANALYZE DELETE FROM t"].Forall fun sql =>
      Sql.hasWrite (bytes sql) = true ∧ readOnlyDecision sql = .allow := by
  decide +kernel

end Guard

end PgShadow
