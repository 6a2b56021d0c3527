/-
# What the Greenplum dialect drops

`greenplumExecutor` looks at the first word of a text, and a text can be a batch. The
events that reach the next executor are read off a recording one (`recorder`), and
the statements of a dropped text are those the server would read in it
(`Sql.statements`).

On a plain text (`isPlain`) the first word is the server's first word as well
(`plain_opens`), so that only the statements behind it can be lost; on the others (an
identifier that begins with a keyword, a comment that ends at a carriage return) the
first statement can be, too (`drops_control_iff`).

Key definitions: `recorder`, `Sql.isControl`, `isPlain`, `ControlOnly`.
Key theorems: `plain_opens`, `drops_control_iff`.
-/
import PgShadow.Replayer.Executor
import PgShadow.Replayguard.ReadOnly

namespace PgShadow

/-- An executor that writes down what it is given. -/
def recorder (answer : ConnID → SQLEvent → Option Bytes) : Executor (List (ConnID × SQLEvent)) := fun conn ev => do
  modify (· ++ [(conn, ev)])
  return answer conn ev

theorem recorder_run (answer : ConnID → SQLEvent → Option Bytes) (conn : ConnID) (ev : SQLEvent)
    (calls : List (ConnID × SQLEvent)) :
    (recorder answer conn ev).run calls = (answer conn ev, calls ++ [(conn, ev)]) :=
  rfl

/-- Nothing is passed on exactly for the texts taken as transaction control. -/
theorem greenplum_silent_iff (answer : ConnID → SQLEvent → Option Bytes) (conn : ConnID) (ev : SQLEvent)
    (calls : List (ConnID × SQLEvent)) :
    ((greenplumExecutor (recorder answer) conn ev).run calls).2 = calls ↔ isTransactionControl ev.sql = true := by
  unfold greenplumExecutor
  by_cases htx : isTransactionControl ev.sql = true
  · rw [if_pos htx]
    exact iff_of_true rfl htx
  · rw [if_neg htx, recorder_run]
    refine iff_of_false (fun h => ?_) htx
    exact List.cons_ne_nil _ _ (List.append_right_eq_self.mp h)

/-! ### The first word -/

namespace Sql

/-- The words that transaction control begins with. -/
def controlWords : List Token :=
  [kw "begin", kw "start", kw "commit", kw "end", kw "rollback", kw "abort"]

/-- The statement begins with one of them. -/
def isControl (st : List Token) : Bool := st.head?.any fun t => t ∈ controlWords

theorem length_afterLine_le (s : Bytes) : (afterLine s).length ≤ s.length :=
  (List.dropWhile_suffix _).length_le

/-- Without a carriage return the comment goes to the end of the line. -/
theorem afterLine_of_no_return : ∀ {s : Bytes}, (13 : UInt8) ∉ s → afterLine s = s.dropWhile (· ≠ 10)
  | [], _ => rfl
  | c :: s, h => by
    obtain ⟨hc, hs⟩ := not_or.mp (mt List.mem_cons.mpr h)
    have ih := afterLine_of_no_return hs
    unfold afterLine at ih ⊢
    by_cases hline : c = 10
    · rw [hline, List.dropWhile_cons_of_neg (by decide), List.dropWhile_cons_of_neg (by decide)]
    · rw [List.dropWhile_cons_of_pos (by simp [hline, Ne.symm hc]), List.dropWhile_cons_of_pos (by simp [hline]), ih]

end Sql

/-- The two readings of a block comment agree. -/
theorem skipBlockComment_eq (d : ℕ) (s : Bytes) : skipBlockComment d s = Sql.afterBlock d s := by
  fun_induction skipBlockComment d s with
  | case1 => rw [Sql.afterBlock]
  | case2 d t ih => rw [ih, Sql.afterBlock]
  | case3 t => rw [Sql.afterBlock, if_pos rfl]
  | case4 d t hd ih => rw [ih, Sql.afterBlock, if_neg hd]
  | case5 d b t hopen hclose ih => rw [ih, Sql.afterBlock] <;> assumption

/-- No line comment ends at a carriage return, and the leading keyword is a whole word:
no digit, `$` or character beyond ASCII comes after it. -/
def isPlain (sql : Bytes) : Bool :=
  !sql.contains 13 && ((skipLeadingNoise sql).dropWhile isKeywordByte).head?.all fun c => !Sql.isIdentCont c

theorem takeWhile_whole {p q : UInt8 → Bool} (hpq : ∀ c, p c = true → q c = true) : ∀ {s : Bytes},
    ((s.dropWhile p).head?.all fun c => !q c) = true → s.takeWhile q = s.takeWhile p
  | [], _ => rfl
  | c :: s, h => by
    by_cases hc : p c = true
    · rw [List.dropWhile_cons_of_pos hc] at h
      rw [List.takeWhile_cons_of_pos hc, List.takeWhile_cons_of_pos (hpq c hc), takeWhile_whole hpq h]
    · rw [List.dropWhile_cons_of_neg hc, List.head?_cons, Option.all_some] at h
      rw [List.takeWhile_cons_of_neg hc, List.takeWhile_cons_of_neg (by simpa using h)]

theorem isKeywordByte_identCont (c : UInt8) (h : isKeywordByte c = true) : Sql.isIdentCont c = true := by
  grind [isKeywordByte, Sql.isIdentCont, Sql.isIdentStart]

/-- A keyword does not open a literal, as a single letter before a quote would. -/
theorem txControl_length {w : Bytes} (h : w ∈ txControlKeywords) : 1 < w.length := by
  have hall : (txControlKeywords.all fun w => 1 < w.length) = true := by decide
  exact of_decide_eq_true (List.all_eq_true.mp hall w h)

theorem keyword_control {w : Bytes} (h : w ∈ txControlKeywords) : Sql.Token.word w ∈ Sql.controlWords :=
  List.mem_map_of_mem (f := Sql.Token.word) h

/-- A text that opens with a keyword, as a whole word, is read so. -/
theorem lexemesFrom_keyword {c : UInt8} {t : Bytes} {n : ℕ}
    (hkw : ((c :: t).takeWhile isKeywordByte).map lowerByte ∈ txControlKeywords)
    (hwhole : (((c :: t).dropWhile isKeywordByte).head?.all fun c => !Sql.isIdentCont c) = true) :
    ∃ rest hs,
      Sql.lexemesFrom (n + 1) (c :: t) = (.word (((c :: t).takeWhile isKeywordByte).map lowerByte), rest) :: hs := by
  have hlen := txControl_length hkw
  have hc : isKeywordByte c = true := by
    by_contra hc
    rw [List.takeWhile_cons_of_neg hc] at hlen
    exact absurd hlen (Nat.not_lt_zero _)
  rw [List.dropWhile_cons_of_pos hc] at hwhole
  rw [List.takeWhile_cons_of_pos hc] at hlen ⊢
  have hquote : t.head? ≠ some 39 := by
    intro hquote
    obtain ⟨t, rfl⟩ := List.head?_eq_some_iff.mp hquote
    rw [List.takeWhile_cons_of_neg (by decide)] at hlen
    exact absurd hlen (Nat.lt_irrefl _)
  have hident : Sql.isIdentStart c = true := by grind [isKeywordByte, Sql.isIdentStart]
  obtain ⟨hspace, hdash, hslash, hsingle, hdouble, hdollar⟩ := Sql.isIdentStart_byte hident
  rw [Sql.lexemesFrom, hspace, if_neg Bool.false_ne_true, if_neg fun h => hdash h.1, if_neg fun h => hslash h.1,
    Sql.tokenAt, if_neg hsingle, if_neg fun h => hquote h.2, if_neg hdouble, if_neg hdollar, if_pos hident,
    takeWhile_whole isKeywordByte_identCont hwhole]
  exact ⟨_, _, rfl⟩

/-- Blanks and comments are no tokens: the induction follows `skipLeadingNoise`, whose
every stage leaves no more text than the fuel allows. -/
theorem lexemesFrom_skipLeadingNoise (sql : Bytes) (hreturn : (13 : UInt8) ∉ sql)
    (hkw : leadingKeyword sql ∈ txControlKeywords)
    (hwhole : (((skipLeadingNoise sql).dropWhile isKeywordByte).head?.all fun c => !Sql.isIdentCont c) = true) :
    ∀ n, sql.length ≤ n → ∃ rest hs, Sql.lexemesFrom n sql = (.word (leadingKeyword sql), rest) :: hs := by
  unfold leadingKeyword at hkw ⊢
  fun_induction skipLeadingNoise sql with
  | case1 => exact absurd hkw (by decide)
  | case2 c t hc ih =>
    intro n hn
    obtain _ | n := n
    · cases hn
    have hspace : Sql.isSpace c = true := by grind [Sql.isSpace]
    rw [Sql.lexemesFrom, if_pos hspace]
    exact ih (fun h => hreturn (List.mem_cons_of_mem c h)) hkw hwhole n (Nat.le_of_succ_le_succ hn)
  | case3 c t hc hline ih =>
    intro n hn
    obtain _ | n := n
    · cases hn
    obtain ⟨rfl, hdash⟩ := hline
    obtain ⟨t, rfl⟩ := List.head?_eq_some_iff.mp hdash
    obtain ⟨-, hreturn⟩ := not_or.mp (mt List.mem_cons.mpr hreturn)
    obtain ⟨-, hrest⟩ := not_or.mp (mt List.mem_cons.mpr hreturn)
    have hlen := Sql.length_afterLine_le (45 :: t)
    rw [Sql.lexemesFrom, if_neg (by decide), if_pos ⟨rfl, rfl⟩, Sql.afterLine_of_no_return hreturn,
      List.dropWhile_cons_of_pos (by decide)]
    rw [Sql.afterLine_of_no_return hreturn, List.dropWhile_cons_of_pos (by decide)] at hlen
    exact ih (fun h => hrest ((List.dropWhile_suffix _).subset h)) hkw hwhole n
      (hlen.trans (Nat.le_of_succ_le_succ hn))
  | case4 c t hc hline hblock ih =>
    intro n hn
    obtain _ | n := n
    · cases hn
    obtain ⟨rfl, hstar⟩ := hblock
    obtain ⟨t, rfl⟩ := List.head?_eq_some_iff.mp hstar
    have hlen := (skipBlockComment_suffix 0 t).length_le
    rw [Sql.lexemesFrom, if_neg (by decide), if_neg hline, if_pos ⟨rfl, rfl⟩, ← skipBlockComment_eq]
    refine ih (fun h => hreturn ?_) hkw hwhole n ?_
    · exact List.mem_cons_of_mem _ (List.mem_cons_of_mem _ ((skipBlockComment_suffix 0 t).subset h))
    · exact hlen.trans (Nat.le_of_succ_le (Nat.le_of_succ_le_succ hn))
  | case5 c t hc hline hblock =>
    intro n hn
    obtain _ | n := n
    · cases hn
    exact lexemesFrom_keyword hkw hwhole

/-- **A plain text that is taken as transaction control begins with it.** -/
theorem plain_opens {sql : Bytes} (hplain : isPlain sql = true) (htx : isTransactionControl sql = true) :
    ∃ st rest, Sql.statements sql = st :: rest ∧ Sql.isControl st = true := by
  obtain ⟨hreturn, hwhole⟩ := Bool.and_eq_true_iff.mp hplain
  have hkw := List.contains_iff_mem.mp htx
  obtain ⟨after, hs, hlex⟩ := lexemesFrom_skipLeadingNoise sql (by simpa using hreturn) hkw hwhole _ (Nat.le_refl _)
  have hscan : Sql.scan sql = .word (leadingKeyword sql) :: hs.map Prod.fst := congrArg (List.map Prod.fst) hlex
  obtain ⟨more, rest, hst⟩ := Sql.statements_head hscan Sql.Token.noConfusion
  refine ⟨_, rest, hst, ?_⟩
  rw [Sql.isControl, List.head?_cons, Option.any_some, decide_eq_true_iff]
  exact keyword_control hkw

/-! ### Batches -/

/-- What is behind the first statement is transaction control, and so is that one, if
the text is not plain. -/
def ControlOnly (sql : Bytes) : Prop :=
  (isPlain sql = true ∨ (Sql.statements sql).head?.all Sql.isControl = true) ∧
    (Sql.statements sql).tail.all Sql.isControl = true

/-- **What is dropped.** Only transaction control is dropped from a text that does not
begin with a keyword of it, or has nothing but transaction control behind it. -/
theorem drops_control_iff (answer : ConnID → SQLEvent → Option Bytes) (conn : ConnID) (ev : SQLEvent)
    (calls : List (ConnID × SQLEvent)) :
    (((greenplumExecutor (recorder answer) conn ev).run calls).2 = calls →
        ∀ st ∈ Sql.statements ev.sql, Sql.isControl st = true) ↔
      (isTransactionControl ev.sql = true → ControlOnly ev.sql) := by
  rw [greenplum_silent_iff]
  refine imp_congr_right fun htx => ?_
  constructor
  · intro hall
    refine ⟨.inr ?_, ?_⟩
    · rw [Option.all_eq_true]
      exact fun st hst => hall st (List.mem_of_mem_head? hst)
    · rw [List.all_eq_true]
      exact fun st hst => hall st (List.mem_of_mem_tail hst)
  · intro ⟨hfirst, hlater⟩
    rw [List.all_eq_true] at hlater
    rcases hst : Sql.statements ev.sql with _ | ⟨first, later⟩
    · intro st hmem
      cases hmem
    rw [hst] at hfirst hlater
    refine List.forall_mem_cons.mpr ⟨?_, hlater⟩
    rcases hfirst with hplain | hfirst
    · obtain ⟨st, rest, hst', hcontrol⟩ := plain_opens hplain htx
      rw [← (List.cons.inj (hst.symm.trans hst')).1] at hcontrol
      exact hcontrol
    · exact hfirst

/-- An insert between a `BEGIN` and a `COMMIT` of one text is dropped with them. -/
theorem insert_dropped :
    let conn : ConnID := ⟨.v4 0x0A000001, 50000, .v4 0x0A000002, 5432⟩
    let ev : SQLEvent := { conn, sql := bytes "BEGIN; INSERT INTO t VALUES (1); COMMIT", timestamp := 0 }
    ((greenplumExecutor (recorder fun _ _ => none) conn ev).run []).2 = [] ∧
      ¬∀ st ∈ Sql.statements ev.sql, Sql.isControl st = true := by
  intro conn ev
  refine ⟨(greenplum_silent_iff _ conn ev []).mpr ?_, by decide +kernel⟩
  have hskip : skipLeadingNoise ev.sql = ev.sql := by
    show skipLeadingNoise (66 :: bytes "EGIN; INSERT INTO t VALUES (1); COMMIT") = _
    rw [skipLeadingNoise, if_neg (by decide), if_neg (by decide), if_neg (by decide)]
    rfl
  rw [isTransactionControl, leadingKeyword, hskip]
  decide +kernel

end PgShadow
