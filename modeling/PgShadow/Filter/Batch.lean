/-
# The class of a batch

`Classify` on statements joined by semicolons. Between closed and balanced
statements the splitting loop finds every join, so the class of the batch is the
first of highest priority among its statements' (`classify_join`), and its
priority the maximum (`classify_join_priority`). A text that the probe for a
second statement takes for a single one gets the class that the loop would have
given it (`classify_eq_classifyMultiStatement`).

The matrix of a filter mode is another order than the priorities: `ddl_only` and
`dml_only` drop classes that outrank the one they keep, so they drop a batch for
a statement that they would drop alone. A parenthesis left open hides the
statements behind it in any mode. `decide_batch_iff` says when a batch is kept
with its statements, by their classes; `batch_dropped` gives batches that are not.

Key definitions: `Whole`, `topClass`, `considered`, `FilterConfig.NoneOutranked`.
Key theorems: `lex_trimSpace`, `split_semi`, `classify_join`, `decide_batch_iff`.
-/
import Mathlib.Data.List.Induction
import Mathlib.Data.List.MinMax
import PgShadow.Filter.Decide
import PgShadow.Filter.Split
import PgShadow.Filter.TxClassify
import PgShadow.Go.Netip

namespace PgShadow

open TxControl (better better_unknown unknown_better lex_nil lex_space)

/-! ### White space around a statement -/

/-- White space of `lex`. -/
def isBlank (x : UInt8) : Bool := x == 32 || (9 ≤ x && x ≤ 13)

theorem separates_blank {x : UInt8} (hx : isBlank x = true) : Separates x := by
  have hall : isIdentPart x = false ∧ isDigit x = false ∧
      x ≠ chr '$' ∧ x ≠ chr '-' ∧ x ≠ chr '*' ∧ x ≠ chr '/' ∧ x ≠ chr '\'' ∧ x ≠ chr '"' := by
    grind [isBlank, isIdentPart, isIdentStart, isDigit, chr]
  obtain ⟨h1, h2, h3, h4, h5, h6, h7, h8⟩ := hall
  exact ⟨⟨h1, h2, h3, h4, h5, h6, h7⟩, h8⟩

theorem skipDollar_eq_nil {t : Bytes} (h : dollarEnds t = false) : skipDollar t = some [] := by
  rcases htag : dollarTag t with _ | ⟨tag, r⟩
  · rw [dollarEnds, htag] at h
    cases h
  · rw [dollarEnds, htag] at h
    have hnone : (indexOf (closeTag tag) r).isSome = false := h
    rw [skipDollar_eq htag, afterTag, Option.isNone_iff_eq_none.1 (Option.isSome_eq_false_iff.1 hnone)]
    rfl

/-- A blank behind an open token goes with it. -/
theorem lexStep_open_blank {x c : UInt8} {t : Bytes} (hx : isBlank x = true) (hc : c ≠ chr '"')
    (h : lexEnds c t = false) :
    (lexStep c (t ++ [x])).1 = (lexStep c t).1 ∧ (lexStep c t).2 = [] ∧ lex (lexStep c (t ++ [x])).2 = [] := by
  have hsep := separates_blank hx
  have hnil : ∀ {r : Bytes}, r.length ≤ ([] : Bytes).length → lex r = [] := fun hr => by
    rw [List.length_eq_zero_iff.1 (Nat.le_zero.1 hr), lex_nil]
  rcases lexStep_cases hsep.toBounds c t [] with ⟨rfl, hhead⟩ | ⟨rfl, hhead⟩ | rfl | rfl | rfl | ⟨hplain, -⟩
  · obtain ⟨hsame, hdrop⟩ := head_append hsep.dash t []
    rw [(lexStep_line t hhead).2] at h
    rw [(lexStep_line _ (hsame.trans hhead)).1, (lexStep_line t hhead).1, hdrop hhead,
      skipLine_append_of_not_contains h]
    refine ⟨rfl, ?_, ?_⟩
    · rw [← List.append_nil (t.drop 1), skipLine_append_of_not_contains h]
      rfl
    · show lex (skipLine [x]) = []
      by_cases hx10 : (x != 10) = true
      · rw [skipLine, List.dropWhile_cons_of_pos (p := (· != 10)) hx10]
        exact lex_nil
      · rw [skipLine, List.dropWhile_cons_of_neg (p := (· != 10)) hx10, lex_space hx, lex_nil]
  · obtain ⟨hsame, hdrop⟩ := head_append hsep.star t []
    rw [(lexStep_block t hhead).2] at h
    rw [(lexStep_block _ (hsame.trans hhead)).1, (lexStep_block t hhead).1, hdrop hhead]
    exact ⟨rfl, skipBlock_eq_nil h, hnil (skipBlock_open hsep.toBounds h [])⟩
  · rw [(lexStep_string t).2] at h
    rw [(lexStep_string _).1, (lexStep_string t).1]
    exact ⟨rfl, quotedText_eq_nil h, hnil (quotedText_open_length hsep.quote h [])⟩
  · exact absurd rfl hc
  · rw [(lexStep_dollar t).2] at h
    obtain ⟨tag, -, htag⟩ := skipDollar_open hsep.toBounds h
    rw [(lexStep_dollar _).1, (lexStep_dollar t).1, htag [], skipDollar_eq_nil h]
    exact ⟨rfl, rfl, hnil (afterTag_suffix tag []).length_le⟩
  · rw [hplain] at h
    cases h

theorem lex_append_blank {x : UInt8} (hx : isBlank x = true) {s : Bytes} (hs : chr '"' ∉ s) :
    lex (s ++ [x]) = lex s := by
  induction s using lexer.token_induction with
  | nil => exact lex_space hx []
  | cons c t ih =>
    have hrest : chr '"' ∉ (lexStep c t).2 := fun hin =>
      hs (List.mem_cons_of_mem c ((lexStep_suffix c t).subset hin))
    rw [List.cons_append, lex_cons, lex_cons]
    by_cases hends : lexEnds c t = true
    · rw [lexStep_append_of_ends (separates_blank hx).toBounds (fun _ => (separates_blank hx).doubleQuote) hends]
      exact congrArg _ (ih hrest)
    · obtain ⟨hvalue, hnil, hlex⟩ := lexStep_open_blank hx (fun hc => hs (hc ▸ List.mem_cons_self))
        (Bool.not_eq_true _ ▸ hends)
      rw [hvalue, hnil, hlex, lex_nil]

/-- What is trimmed off consists of the words. -/
theorem trimWords_eq {ws : List Bytes} (hne : ∀ v ∈ ws, v ≠ []) (s : Bytes) :
    ∃ w, s = w ++ trimWords ws s ∧ ∀ b ∈ w, ∃ v ∈ ws, b ∈ v := by
  fun_induction trimWords ws s with
  | case1 => exact ⟨[], rfl, by simp⟩
  | case2 b t v hv ih =>
    obtain ⟨w, hw, hmem⟩ := ih
    have hin : v ∈ ws := List.mem_of_find?_eq_some hv
    obtain ⟨k, hk⟩ := List.isPrefixOf_iff_prefix.1 (List.find?_some (p := fun v : Bytes => v.isPrefixOf (b :: t)) hv)
    obtain ⟨a, v', rfl⟩ := List.exists_cons_of_ne_nil (hne v hin)
    rw [List.cons_append] at hk
    obtain ⟨rfl, rfl⟩ := List.cons.inj hk
    have hdrop : (v' ++ k).drop ((a :: v').length - 1) = k := List.drop_left
    rw [hdrop] at hw ⊢
    refine ⟨a :: v' ++ w, ?_, fun b hb => ?_⟩
    · rw [List.append_assoc, ← hw]
      rfl
    · rcases List.mem_append.1 hb with hb | hb
      · exact ⟨_, hin, hb⟩
      · exact hmem b hb
  | case3 b t hnone => exact ⟨[], rfl, by simp⟩

/-- Trimming an ASCII text takes off the white space at its ends. -/
theorem trimSpace_ascii {s : Bytes} (hs : ∀ b ∈ s, b.toNat < 128) :
    ∃ w w', s = w ++ trimSpace s ++ w' ∧ (∀ b ∈ w, isBlank b = true) ∧ ∀ b ∈ w', isBlank b = true := by
  have hblank : ∀ b ∈ s, (∃ v ∈ spaces, b ∈ v) → isBlank b = true := by
    rintro b hb ⟨v, hv, hbv⟩
    have hstops := (spaces_stops v hv).2 b hbv
    rw [stops, decide_eq_true (hs b hb), Bool.true_and, Bool.not_eq_false'] at hstops
    exact hstops
  obtain ⟨w, hw, hwmem⟩ := trimWords_eq (fun v hv => (spaces_stops v hv).1) s
  have hreverse : ∀ v ∈ spaces.map List.reverse, v ≠ [] := by
    intro v hv
    obtain ⟨v', hv', rfl⟩ := List.mem_map.1 hv
    simpa using (spaces_stops v' hv').1
  obtain ⟨w', hw', hwmem'⟩ := trimWords_eq hreverse (trimWords spaces s).reverse
  have hmid : trimWords spaces s = trimSpace s ++ w'.reverse := by
    rw [← List.reverse_reverse (trimWords spaces s), hw', List.reverse_append]
    rfl
  have heq : s = w ++ trimSpace s ++ w'.reverse := by rw [List.append_assoc, ← hmid, ← hw]
  refine ⟨w, w'.reverse, heq, fun b hb => ?_, fun b hb => ?_⟩
  · exact hblank b (by rw [heq]; simp [hb]) (hwmem b hb)
  · refine hblank b (by rw [heq]; simp [hb]) ?_
    obtain ⟨v, hv, hbv⟩ := hwmem' b (List.mem_reverse.1 hb)
    obtain ⟨v', hv', rfl⟩ := List.mem_map.1 hv
    exact ⟨v', hv', List.mem_reverse.1 hbv⟩

theorem lex_blanks_append : ∀ {w : Bytes}, (∀ b ∈ w, isBlank b = true) → ∀ s : Bytes, lex (w ++ s) = lex s
  | [], _, _ => rfl
  | b :: w, hw, s => by
    rw [List.cons_append, lex_space (hw b List.mem_cons_self),
      lex_blanks_append fun x hx => hw x (List.mem_cons_of_mem b hx)]

theorem lex_append_blanks {s : Bytes} (hs : chr '"' ∉ s) {w : Bytes} (hw : ∀ b ∈ w, isBlank b = true) :
    lex (s ++ w) = lex s := by
  induction w using List.reverseRecOn with
  | nil => rw [List.append_nil]
  | append_singleton w x ih =>
    have hquote : chr '"' ∉ s ++ w := by
      intro hin
      rcases List.mem_append.1 hin with hin | hin
      · exact hs hin
      · exact absurd (hw _ (List.mem_append_left _ hin)) (by decide)
    rw [← List.append_assoc, lex_append_blank (hw x (by simp)) hquote, ih fun b hb => hw b (by simp [hb])]

/-- **Trimming changes no token** of an ASCII text without double quotes. -/
theorem lex_trimSpace {s : Bytes} (hs : ∀ b ∈ s, b.toNat < 128) (hquote : chr '"' ∉ s) :
    lex (trimSpace s) = lex s := by
  obtain ⟨w, w', heq, hw, hw'⟩ := trimSpace_ascii hs
  have hin : chr '"' ∉ trimSpace s := fun hmem => hquote (by rw [heq]; simp [hmem])
  calc lex (trimSpace s) = lex (trimSpace s ++ w') := (lex_append_blanks hin hw').symm
    _ = lex (w ++ (trimSpace s ++ w')) := (lex_blanks_append hw _).symm
    _ = lex s := by rw [← List.append_assoc, ← heq]

/-! ### A semicolon at the end -/

section Trailing

variable (c : Classifier) (U : CaseTable)

theorem wordsOf_other (toks : List Token) : wordsOf U (toks ++ [Token.other]) = wordsOf U toks := by
  simp [wordsOf]

theorem depthZeroWords_other : ∀ (d : ℕ) (toks : List Token),
    depthZeroWords U d (toks ++ [Token.other]) = depthZeroWords U d toks
  | _, [] => rfl
  | d, t :: toks => by
    have ih := fun d => depthZeroWords_other d toks
    cases t <;> simp only [List.cons_append, depthZeroWords, ih]

theorem walkName_other (last : Bytes) (toks : List Token) :
    walkName U last (toks ++ [Token.other]) =
      ((walkName U last toks).1, (walkName U last toks).2 ++ [Token.other]) := by
  fun_induction walkName U last toks with
  | case1 last w ts ih =>
    rw [← ih]
    rfl
  | case2 last ts hno =>
    rcases ts with _ | ⟨a, _ | ⟨b, ts⟩⟩
    · rfl
    · cases a <;> rfl
    · cases a <;> cases b <;> first | rfl | exact absurd rfl (hno _ _)

theorem head_other (l : List Token) : ((l ++ [Token.other]).head? == some .lparen) = (l.head? == some .lparen) := by
  cases l <;> rfl

theorem isProcInvoking_other (toks : List Token) :
    c.isProcInvoking (toks ++ [Token.other]) = c.isProcInvoking toks := by
  fun_induction Classifier.isProcInvoking c toks with
  | case1 => simp [Classifier.isProcInvoking]
  | case2 w ts firstSeg name ih =>
    rw [List.cons_append, Classifier.isProcInvoking]
    simp only [walkName_other, head_other]
    exact congrArg _ ih
  | case3 t ts hno ih =>
    rw [List.cons_append, ← ih]
    exact c.isProcInvoking_skip hno _

/-- A semicolon behind a statement does not change its class. -/
theorem classifySingle_other {s s' : Bytes} (h : lex s' = lex s ++ [Token.other]) :
    c.classifySingle s' = c.classifySingle s := by
  unfold Classifier.classifySingle Classifier.tokenClass firstWord hasSecondWord
    depthZeroHasWord primaryCommandAfterWith
  simp only [h, wordsOf_other, depthZeroWords_other, isProcInvoking_other]

end Trailing

/-! ### Joined statements -/

/-- An ASCII statement that is closed and balanced, has no semicolon outside
parentheses and no double quote. -/
@[mk_iff]
structure Whole (s : Bytes) : Prop where
  ascii : ∀ b ∈ s, b.toNat < 128
  closed : lexer.closed s = true
  balanced : lexer.state lexDepth 0 s = 0
  single : semicolons s = []
  unquoted : chr '"' ∉ s

instance (s : Bytes) : Decidable (Whole s) :=
  haveI := List.decidableBAll (fun b : UInt8 => b.toNat < 128) s
  decidable_of_iff _ (whole_iff s).symm

/-- `strings.Join(stmts, ";")`. -/
def joinStatements (stmts : List Bytes) : Bytes := joinWith [chr ';'] stmts

theorem joinStatements_cons (s s' : Bytes) (stmts : List Bytes) :
    joinStatements (s :: s' :: stmts) = s ++ chr ';' :: joinStatements (s' :: stmts) :=
  List.append_assoc s [chr ';'] (joinStatements (s' :: stmts))

section Whole

variable {s : Bytes}

/-- The splitting loop finds nothing in a statement. -/
theorem Whole.splitView (h : Whole s) : splitView 0 s = (true, [], 0) := by
  rw [splitView_eq_lexView 0 h.unquoted, lexView, h.closed, h.balanced]
  exact congrArg (fun l => (true, l, 0)) h.single

/-- Without double quotes what the loop sees is what `lex` sees. -/
theorem Whole.of_splitView (hascii : ∀ b ∈ s, b.toNat < 128) (hquote : chr '"' ∉ s)
    (h : PgShadow.splitView 0 s = (true, [], 0)) : Whole s := by
  rw [splitView_eq_lexView 0 hquote, lexView, Prod.mk.injEq, Prod.mk.injEq] at h
  obtain ⟨hclosed, hsingle, hbalanced⟩ := h
  exact ⟨hascii, hclosed, hbalanced, hsingle, hquote⟩

theorem Whole.of_blank (hs : ∀ b ∈ s, isBlank b = true) : Whole s := by
  have hfacts : ∀ b ∈ s, b.toNat < 128 ∧ inertByte b = true := fun b hb =>
    forall_byte (p := fun b => isBlank b = true → b.toNat < 128 ∧ inertByte b = true) (by decide +kernel) b (hs b hb)
  refine .of_splitView (fun b hb => (hfacts b hb).1) (fun hin => absurd (hs _ hin) (by decide)) ?_
  rw [← List.append_nil s, splitView_inert_append 0 fun b hb => (hfacts b hb).2, PgShadow.splitView, cutsFrom_nil]
  simp

theorem Whole.cuts_nil (h : Whole s) : cuts s = [] := congrArg (·.2.1) h.splitView

theorem Whole.cuts_semi (h : Whole s) (u : Bytes) : cuts (s ++ chr ';' :: u) = (chr ';' :: u) :: cuts u := by
  have hclosed : splitter.closed s = true := congrArg (·.1) h.splitView
  have hstate : splitter.state splitDepth 0 s = 0 := congrArg (·.2.2) h.splitView
  calc cuts (s ++ chr ';' :: u) = (cuts s).map (· ++ chr ';' :: u) ++ cutsFrom 0 (chr ';' :: u) := by
        rw [cuts, cutsFrom_append hclosed, hstate]
        rfl
    _ = (chr ';' :: u) :: cuts u := by
        rw [h.cuts_nil, cutsFrom_semi]
        rfl

/-- The loop cuts behind the statement. -/
theorem Whole.split_semi (h : Whole s) (u : Bytes) :
    splitOnDepthZeroSemicolons (s ++ chr ';' :: u) = s :: splitOnDepthZeroSemicolons u := by
  rw [splitOnDepthZeroSemicolons_eq, h.cuts_semi, slices, splitOnDepthZeroSemicolons_eq]
  simp

theorem Whole.split_last (h : Whole s) : splitOnDepthZeroSemicolons s = if s = [] then [] else [s] := by
  rw [splitOnDepthZeroSemicolons_eq, h.cuts_nil, slices]

theorem Whole.lex_semi (h : Whole s) (u : Bytes) : lex (s ++ chr ';' :: u) = lex s ++ .other :: lex u := by
  rw [lex_eq, Tokenizer.spans_append (lexer_breaks separates_semi (by decide) u) h.closed, List.filterMap_append,
    List.filterMap_map, lex_eq s, ← lex_eq, lex_cons, lexStep_semi]
  rfl

theorem Whole.index_last (h : Whole s) : (indexDepthZeroSemicolon s).isSome = false := by
  rw [indexDepthZeroSemicolon_isSome, h.cuts_nil]
  rfl

theorem Whole.index_semi (h : Whole s) (u : Bytes) :
    (indexDepthZeroSemicolon (s ++ chr ';' :: u)).isSome = u.any nonBlank := by
  rw [indexDepthZeroSemicolon_isSome, h.cuts_semi]
  rfl

theorem Whole.lex_trimSpace (h : Whole s) : lex (trimSpace s) = lex s := PgShadow.lex_trimSpace h.ascii h.unquoted

end Whole

/-- The first class of highest priority. -/
def topClass (l : List StmtClass) : StmtClass := l.foldl better .unknown

section Join

variable (c : Classifier)

/-- The class of a statement in a batch. -/
def Classifier.classifyTrimmed (s : Bytes) : StmtClass := c.classifySingle (trimSpace s)

theorem classifySingle_congr {s s' : Bytes} (h : lex s' = lex s) : c.classifySingle s' = c.classifySingle s := by
  unfold Classifier.classifySingle
  rw [h]

theorem classifyTrimmed_blank {s : Bytes} (hs : ∀ b ∈ s, isBlank b = true) : c.classifyTrimmed s = .unknown := by
  have hascii : ∀ b ∈ s, b.toNat < 128 := fun b hb =>
    forall_byte (p := fun b => isBlank b = true → b.toNat < 128) (by decide +kernel) b (hs b hb)
  have hquote : chr '"' ∉ s := fun hin => absurd (hs _ hin) (by decide)
  have hnil : lex s = [] := by
    rw [← List.append_nil s, lex_blanks_append hs, lex_nil]
  apply TxControl.classifySingle_wordless
  rw [lex_trimSpace hascii hquote, hnil]
  rfl

theorem classifyMultiStatement_eq (sql : Bytes) :
    c.classifyMultiStatement sql = topClass ((splitOnDepthZeroSemicolons sql).map c.classifyTrimmed) :=
  TxControl.classifyMultiStatement_foldl c sql

theorem foldl_split_join : ∀ {stmts : List Bytes}, stmts ≠ [] → (∀ s ∈ stmts, Whole s) → ∀ best : StmtClass,
    ((splitOnDepthZeroSemicolons (joinStatements stmts)).map c.classifyTrimmed).foldl better best =
      (stmts.map c.classifyTrimmed).foldl better best
  | [s], _, h, best => by
    rw [show joinStatements [s] = s from rfl, (h s List.mem_cons_self).split_last]
    by_cases hnil : s = []
    · have hblank : c.classifyTrimmed s = .unknown := classifyTrimmed_blank c (by simp [hnil])
      rw [if_pos hnil, List.map_singleton, hblank]
      exact (better_unknown best).symm
    · rw [if_neg hnil]
  | s :: s' :: stmts, _, h, best => by
    rw [joinStatements_cons, (h s List.mem_cons_self).split_semi, List.map_cons, List.foldl_cons,
      foldl_split_join (List.cons_ne_nil s' stmts) (fun t ht => h t (List.mem_cons_of_mem s ht))]
    rfl

theorem classifyMultiStatement_join {stmts : List Bytes} (hne : stmts ≠ []) (h : ∀ s ∈ stmts, Whole s) :
    c.classifyMultiStatement (joinStatements stmts) = topClass (stmts.map c.classifyTrimmed) := by
  rw [classifyMultiStatement_eq]
  exact foldl_split_join c hne h .unknown

/-- What follows the first statement is blank only if it is one blank statement. -/
theorem blank_rest {s' : Bytes} {stmts : List Bytes} (h : (joinStatements (s' :: stmts)).any nonBlank = false) :
    stmts = [] ∧ ∀ b ∈ s', isBlank b = true := by
  have hblank : ∀ b ∈ joinStatements (s' :: stmts), isBlank b = true := fun b hb =>
    forall_byte (p := fun b => nonBlank b = false → isBlank b = true) (by decide +kernel) b
      (by simpa using List.any_eq_false.1 h b hb)
  rcases stmts with _ | ⟨t, stmts⟩
  · exact ⟨rfl, hblank⟩
  · rw [joinStatements_cons] at hblank
    exact absurd (hblank (chr ';') (by simp)) (by decide)

/-- **The class of a batch** of whole statements is the first of highest priority
among the statements'. -/
theorem classify_join {stmts : List Bytes} (hne : stmts ≠ []) (h : ∀ s ∈ stmts, Whole s) :
    c.classify (joinStatements stmts) = topClass (stmts.map c.classifyTrimmed) := by
  have htrim : ∀ s ∈ stmts, c.classifySingle s = c.classifyTrimmed s := fun s hs =>
    (classifySingle_congr c (h s hs).lex_trimSpace).symm
  rcases stmts with _ | ⟨s, _ | ⟨s', stmts⟩⟩
  · exact absurd rfl hne
  · have hindex := (h s List.mem_cons_self).index_last
    rw [show joinStatements [s] = s from rfl, Classifier.classify, if_neg (by rw [hindex]; decide),
      htrim s List.mem_cons_self]
    exact (unknown_better _).symm
  · have hs := h s List.mem_cons_self
    rw [joinStatements_cons, Classifier.classify, hs.index_semi]
    by_cases hmore : (joinStatements (s' :: stmts)).any nonBlank = true
    · rw [if_pos hmore, ← joinStatements_cons]
      exact classifyMultiStatement_join c hne h
    · rw [Bool.not_eq_true] at hmore
      obtain ⟨rfl, hblank⟩ := blank_rest hmore
      have hlex : lex (s ++ chr ';' :: s') = lex s ++ [.other] := by
        rw [hs.lex_semi, ← List.append_nil s', lex_blanks_append hblank, lex_nil]
      rw [show joinStatements [s'] = s' from rfl] at hmore ⊢
      rw [if_neg (by rw [hmore]; decide), classifySingle_other c hlex, htrim s List.mem_cons_self, List.map_cons,
        List.map_singleton, classifyTrimmed_blank c hblank]
      show _ = better (better .unknown _) .unknown
      rw [better_unknown, unknown_better]

/-- What stands before the first cut is one statement. -/
theorem whole_of_head_cut {pre post : Bytes} (hascii : ∀ b ∈ pre, b.toNat < 128) (hquote : chr '"' ∉ pre)
    (h : (cuts (pre ++ chr ';' :: post)).head? = some (chr ';' :: post)) : Whole pre := by
  obtain ⟨hclosed, hbalanced⟩ := mem_cuts_iff.1 (List.mem_of_mem_head? h)
  -- a cut in `pre` would come first, and be longer
  have hnone : cuts pre = [] := by
    rw [cuts, cutsFrom_append hclosed] at h
    rcases hcuts : cuts pre with _ | ⟨u, us⟩
    · rfl
    · obtain ⟨_, v, rfl, -⟩ := exists_of_mem_cuts (hcuts ▸ List.mem_cons_self)
      rw [show cutsFrom 0 pre = _ from hcuts] at h
      have htail : v ++ chr ';' :: post = post := by simpa using h
      have hlen := congrArg List.length htail
      rw [List.length_append, List.length_cons] at hlen
      omega
  refine .of_splitView hascii hquote ?_
  rw [splitView, hclosed, hbalanced, show cutsFrom 0 pre = [] from hnone]

/-- **The fast path agrees with the slow path**: a text of one statement gets the
class that it would get as a batch. -/
theorem classify_eq_classifyMultiStatement {sql : Bytes} (hascii : ∀ b ∈ sql, b.toNat < 128)
    (hquote : chr '"' ∉ sql) : c.classify sql = c.classifyMultiStatement sql := by
  have hprobe := indexDepthZeroSemicolon_isSome sql
  rcases hcuts : (cuts sql).head? with _ | u
  · -- no semicolon outside parentheses: the slow path has one piece, which it trims
    have hsplit : splitOnDepthZeroSemicolons sql = if sql = [] then [] else [sql] := by
      rw [splitOnDepthZeroSemicolons_eq, List.head?_eq_none_iff.1 hcuts, slices]
    rw [Classifier.classify, hprobe, hcuts, classifyMultiStatement_eq, hsplit]
    by_cases hnil : sql = []
    · rw [if_pos hnil]
      rw [hnil]
      exact TxControl.classifySingle_nil c
    · rw [if_neg hnil, List.map_singleton]
      refine Eq.trans ?_ (unknown_better _).symm
      exact (classifySingle_congr c (lex_trimSpace hascii hquote)).symm
  · obtain ⟨pre, post, rfl, rfl⟩ := exists_of_mem_cuts (List.mem_of_mem_head? hcuts)
    by_cases hmore : post.any nonBlank = true
    · rw [Classifier.classify, hprobe, hcuts]
      exact if_pos hmore
    · -- only blanks behind the first semicolon: a batch of two statements, the second blank
      have hpre : Whole pre := whole_of_head_cut (fun b hb => hascii b (List.mem_append_left _ hb))
        (fun hin => hquote (List.mem_append_left _ hin)) hcuts
      have hblank : (joinStatements [post]).any nonBlank = false := Bool.eq_false_iff.2 hmore
      have hpost : Whole post := .of_blank (blank_rest hblank).2
      have hstmts : ∀ s ∈ [pre, post], Whole s := by simp [hpre, hpost]
      have hjoin : joinStatements [pre, post] = pre ++ chr ';' :: post := joinStatements_cons pre post []
      rw [← hjoin, classify_join c (by simp) hstmts, classifyMultiStatement_join c (by simp) hstmts]

theorem priority_better (best cls : StmtClass) :
    stmtClassPriority (better best cls) = max (stmtClassPriority best) (stmtClassPriority cls) := by
  unfold better
  split_ifs <;> omega

/-- The class of a batch is the first of highest priority. -/
theorem topClass_eq_argmax (l : List StmtClass) : topClass l = (l.argmax stmtClassPriority).getD .unknown := by
  induction l using List.reverseRecOn with
  | nil => rfl
  | append_singleton l cls ih =>
    rw [List.argmax_concat, topClass, List.foldl_append, List.foldl_cons, List.foldl_nil,
      show l.foldl better .unknown = _ from ih]
    cases l.argmax stmtClassPriority with
    | none => exact unknown_better cls
    | some top =>
      show better top cls = Option.getD (if _ then _ else _) _
      unfold better
      split_ifs <;> rfl

theorem topClass_eq_iff {l : List StmtClass} {cls : StmtClass} (hcls : cls ≠ .unknown) :
    topClass l = cls ↔ cls ∈ l ∧ (∀ a ∈ l, stmtClassPriority a ≤ stmtClassPriority cls) ∧
      ∀ a ∈ l, stmtClassPriority cls ≤ stmtClassPriority a → l.idxOf cls ≤ l.idxOf a := by
  rw [topClass_eq_argmax, ← List.argmax_eq_some_iff]
  cases l.argmax stmtClassPriority with
  | none => simp [hcls.symm]
  | some top => simp

theorem max_priority {l : List StmtClass} (hl : l ≠ []) :
    (l.map stmtClassPriority).max? = some (stmtClassPriority (topClass l)) := by
  rw [topClass_eq_argmax]
  rcases htop : l.argmax stmtClassPriority with _ | top
  · exact absurd (List.argmax_eq_none.1 htop) hl
  · refine List.max?_eq_some_iff.2 ⟨List.mem_map_of_mem (List.argmax_mem htop), fun n hn => ?_⟩
    obtain ⟨cls, hcls, rfl⟩ := List.mem_map.1 hn
    exact List.le_of_mem_argmax hcls htop

/-- **Batch classification is the maximum** of the priorities of the statements. -/
theorem classify_join_priority {stmts : List Bytes} (hne : stmts ≠ []) (h : ∀ s ∈ stmts, Whole s) :
    (stmts.map fun s => stmtClassPriority (c.classifySingle (trimSpace s))).max? =
      some (stmtClassPriority (c.classify (joinStatements stmts))) := by
  rw [classify_join c hne h, ← max_priority (by simpa using hne), List.map_map]
  rfl

end Join

theorem classify_join_three :
    let stmts := ["SELECT ';' ", " DELETE FROM t WHERE (a;b) = $$;$$ ", "/* ; */ BEGIN -- ;\n"].map bytes
    (newClassifier ⟨id, id⟩ []).classify (joinStatements stmts) = .begin ∧
      (stmts.map fun s => stmtClassPriority ((newClassifier ⟨id, id⟩ []).classifySingle (trimSpace s))).max? =
        some (stmtClassPriority ((newClassifier ⟨id, id⟩ []).classify (joinStatements stmts))) :=
  ⟨by decide +kernel, classify_join_priority _ (by decide) (by decide +kernel)⟩

theorem classify_trailing_semicolon :
    (newClassifier ⟨id, id⟩ []).classify (bytes "DELETE FROM t WHERE (a;b) = ';' ;\r\n") = .dml ∧
      (newClassifier ⟨id, id⟩ []).classify (bytes "DELETE FROM t WHERE (a;b) = ';' ;\r\n") =
        (newClassifier ⟨id, id⟩ []).classifyMultiStatement (bytes "DELETE FROM t WHERE (a;b) = ';' ;\r\n") :=
  ⟨by decide +kernel, classify_eq_classifyMultiStatement _ (by decide +kernel) (by decide +kernel)⟩

/-! ### Batches under a filter mode -/

/-- No rules of its own, no patterns and no replayable procedures: the mode alone
decides. -/
structure FilterConfig.Preset (cfg : FilterConfig) : Prop where
  rules : cfg.rules = GoMap.empty
  excludePatterns : cfg.excludePatterns = []
  includePatterns : cfg.includePatterns = []
  replayableProcedures : cfg.replayableProcedures = []

/-- The texts that a query is classified by: its top-level statements as `lex`
delimits them, or the query as it is if only blanks follow the first. -/
def considered (sql : Bytes) : List Bytes :=
  if (semicolons sql).head?.any fun u => u.tail.any nonBlank then (slices sql (semicolons sql)).map trimSpace
  else [sql]

theorem classify_eq_topClass (c : Classifier) {sql : Bytes} (hsql : chr '"' ∉ sql) :
    c.classify sql = topClass ((considered sql).map c.classifySingle) := by
  have hcuts : cuts sql = semicolons sql := congrArg (·.2.1) (splitView_eq_lexView 0 hsql)
  rw [Classifier.classify, considered, indexDepthZeroSemicolon_isSome, hcuts]
  split_ifs
  · rw [classifyMultiStatement_eq, splitOnDepthZeroSemicolons_eq, hcuts, List.map_map]
    rfl
  · exact (unknown_better _).symm

section Modes

variable {U : CaseTable} {cfg : FilterConfig} {f : FilterImpl}

theorem newFilter_ok (hf : newFilter U cfg = .ok f) :
    resolveRules U cfg = .ok f.rules ∧ f.excluded = cfg.excludePatterns ∧ f.included = cfg.includePatterns ∧
      f.replayable = (cfg.replayableProcedures.map fun p => toLower U (trimSpace p)).filter (· ≠ []) := by
  unfold newFilter at hf
  rcases hrules : resolveRules U cfg with e | rules
  · rw [hrules] at hf
    cases hf
  · rw [hrules] at hf
    cases hf
    exact ⟨rfl, rfl, rfl, rfl⟩

/-- The spelling of a mode that `resolveRules` compares. -/
def FilterConfig.modeName (U : CaseTable) (cfg : FilterConfig) : Bytes := toLower U (trimSpace cfg.mode)

/-- The mode keeps a plain SELECT in the transaction state: `all` always, the
default mode in a transaction. -/
def FilterConfig.KeepsSelect (U : CaseTable) (cfg : FilterConfig) (tx : TxStatus) : Prop :=
  cfg.modeName U = bytes "all" ∨ (cfg.modeName U = [] ∨ cfg.modeName U = bytes "custom") ∧ tx = .inTx

/-- The matrices of the modes without rules of their own. -/
theorem rules_cases (hf : newFilter U cfg = .ok f) (hcfg : cfg.Preset) :
    (cfg.modeName U ≠ bytes "ddl_only" ∧ cfg.modeName U ≠ bytes "dml_only" ∧
        ∃ r, f.rules = GoMap.set defaultRules .plainSelect r ∧
          ∀ tx, (if tx = .inTx then r.inTransaction else r.outTransaction) = .keep ↔ cfg.KeepsSelect U tx) ∨
      cfg.modeName U = bytes "ddl_only" ∧ f.rules = onlyKeep .ddl ∨
      cfg.modeName U = bytes "dml_only" ∧ f.rules = onlyKeep .dml := by
  have hrules := (newFilter_ok hf).1
  unfold resolveRules at hrules
  simp only [hcfg.rules] at hrules
  rw [show toLower U (trimSpace cfg.mode) = cfg.modeName U from rfl] at hrules
  unfold FilterConfig.KeepsSelect
  split_ifs at hrules with hcustom hwrite hall hddl hdml
  · have hnamed : cfg.modeName U ≠ bytes "ddl_only" ∧ cfg.modeName U ≠ bytes "dml_only" ∧
        cfg.modeName U ≠ bytes "all" := by
      rcases hcustom with h | h <;> rw [h] <;> decide
    refine Or.inl ⟨hnamed.1, hnamed.2.1, ⟨.keep, .drop⟩, ?_, fun tx => ?_⟩
    · rw [← Except.ok.inj hrules]
      funext k
      cases k <;> rfl
    · cases tx <;> simp [hcustom, hnamed.2.2]
  · refine Or.inl ⟨by rw [hwrite]; decide, by rw [hwrite]; decide, _, (Except.ok.inj hrules).symm, fun tx => ?_⟩
    have hall : cfg.modeName U ≠ bytes "all" := by rw [hwrite]; decide
    simp [hcustom, hall]
  · exact Or.inl ⟨by rw [hall]; decide, by rw [hall]; decide, _, (Except.ok.inj hrules).symm, fun tx => by simp [hall]⟩
  · exact Or.inr (Or.inl ⟨hddl, (Except.ok.inj hrules).symm⟩)
  · exact Or.inr (Or.inr ⟨hdml, (Except.ok.inj hrules).symm⟩)

theorem ruleAction_unknown (hf : newFilter U cfg = .ok f) (hcfg : cfg.Preset) (tx : TxStatus) :
    f.ruleAction .unknown tx = .drop := by
  unfold FilterImpl.ruleAction
  rcases rules_cases hf hcfg with ⟨-, -, r, hr, -⟩ | ⟨-, hr⟩ | ⟨-, hr⟩ <;> rw [hr] <;> rfl

/-- The filter decides by the class alone. -/
theorem decide_eq (hf : newFilter U cfg = .ok f) (hcfg : cfg.Preset) (ev : SQLEvent) (tx : TxStatus) :
    (f.decide ev tx).1 = f.ruleAction (f.cls.classify ev.sql) tx := by
  obtain ⟨-, hexcluded, hincluded, hreplayable⟩ := newFilter_ok hf
  rw [hcfg.excludePatterns] at hexcluded
  rw [hcfg.includePatterns] at hincluded
  rw [hcfg.replayableProcedures] at hreplayable
  have hinvokes : f.invokesReplayable ev.sql = false := if_pos hreplayable
  unfold FilterImpl.decide FilterImpl.decideClass
  rw [hexcluded, hincluded, hinvokes]
  by_cases hunknown : f.cls.classify ev.sql = .unknown
  · rw [hunknown, ruleAction_unknown hf hcfg]
    rfl
  · simp only [matchesAny, List.any_nil, Bool.false_eq_true, if_false, hunknown, Bool.or_false, ite_self]

theorem le_priority_topClass {l : List StmtClass} {cls : StmtClass} (h : cls ∈ l) :
    stmtClassPriority cls ≤ stmtClassPriority (topClass l) :=
  (List.max?_eq_some_iff.1 (max_priority (List.ne_nil_of_mem h))).2 _ (List.mem_map_of_mem h)

/-- The mode keeps a batch of statements of these classes, in their order. Of the
classes that are dropped by `ddl_only` and `dml_only` some outrank the one that is
kept, and a CALL counts as much as a DML statement: the first of them decides. -/
def FilterConfig.KeepsClasses (U : CaseTable) (cfg : FilterConfig) (tx : TxStatus) (classes : List StmtClass) : Prop :=
  if cfg.modeName U = bytes "ddl_only" then .ddl ∈ classes ∧ .begin ∉ classes ∧ .commitRollback ∉ classes
  else if cfg.modeName U = bytes "dml_only" then
    .dml ∈ classes ∧ .ddl ∉ classes ∧ .begin ∉ classes ∧ .commitRollback ∉ classes ∧
      classes.idxOf .dml ≤ classes.idxOf .call
  else ∃ cls ∈ classes, cls ≠ .unknown ∧ (cls = .plainSelect → cfg.KeepsSelect U tx)

theorem topClass_eq_ddl_iff {l : List StmtClass} :
    topClass l = .ddl ↔ .ddl ∈ l ∧ .begin ∉ l ∧ .commitRollback ∉ l := by
  rw [topClass_eq_iff (by decide)]
  constructor
  · rintro ⟨hmem, hmax, -⟩
    exact ⟨hmem, fun h => absurd (hmax _ h) (by decide), fun h => absurd (hmax _ h) (by decide)⟩
  · rintro ⟨hmem, hbegin, hcommit⟩
    have hother : ∀ a ∈ l, a = .ddl ∨ stmtClassPriority a < stmtClassPriority .ddl := by
      intro a ha
      cases a <;> first | exact absurd ha ‹_› | decide
    refine ⟨hmem, fun a ha => ?_, fun a ha hle => ?_⟩
    · rcases hother a ha with rfl | h <;> omega
    · rcases hother a ha with rfl | h <;> omega

theorem topClass_eq_dml_iff {l : List StmtClass} :
    topClass l = .dml ↔ .dml ∈ l ∧ .ddl ∉ l ∧ .begin ∉ l ∧ .commitRollback ∉ l ∧ l.idxOf .dml ≤ l.idxOf .call := by
  rw [topClass_eq_iff (by decide)]
  constructor
  · rintro ⟨hmem, hmax, hfirst⟩
    refine ⟨hmem, fun h => absurd (hmax _ h) (by decide), fun h => absurd (hmax _ h) (by decide),
      fun h => absurd (hmax _ h) (by decide), ?_⟩
    by_cases hcall : StmtClass.call ∈ l
    · exact hfirst _ hcall (by decide)
    · rw [List.idxOf_eq_length hcall]
      exact List.idxOf_le_length
  · rintro ⟨hmem, hddl, hbegin, hcommit, hfirst⟩
    have hother : ∀ a ∈ l, a = .dml ∨ a = .call ∨ stmtClassPriority a < stmtClassPriority .dml := by
      intro a ha
      cases a <;> first | exact absurd ha ‹_› | decide
    have hcall : stmtClassPriority .call = stmtClassPriority .dml := rfl
    refine ⟨hmem, fun a ha => ?_, fun a ha hle => ?_⟩
    · rcases hother a ha with rfl | rfl | h <;> omega
    · rcases hother a ha with rfl | rfl | h <;> omega

theorem ruleAction_onlyKeep {keep cls : StmtClass} {tx : TxStatus} (hr : f.rules = onlyKeep keep)
    (hkeep : keep ≠ .unknown) : f.ruleAction cls tx = .keep ↔ cls = keep := by
  unfold FilterImpl.ruleAction
  rw [hr]
  by_cases hcls : cls = keep
  · subst hcls
    cases cls <;> first | exact absurd rfl hkeep | simp [onlyKeep]
  · cases cls <;> simp [onlyKeep, hcls]

/-- Where a plain SELECT is the only class that the mode may drop, a batch is kept
with any of its statements. -/
theorem ruleAction_ranked {r : Rule} (hr : f.rules = GoMap.set defaultRules .plainSelect r) {l : List StmtClass}
    {tx : TxStatus} : f.ruleAction (topClass l) tx = .keep ↔ ∃ cls ∈ l, cls ≠ .unknown ∧
      (cls = .plainSelect → (if tx = .inTx then r.inTransaction else r.outTransaction) = .keep) := by
  have haction : ∀ cls, f.ruleAction cls tx = .keep ↔ cls ≠ .unknown ∧
      (cls = .plainSelect → (if tx = .inTx then r.inTransaction else r.outTransaction) = .keep) := by
    intro cls
    unfold FilterImpl.ruleAction
    rw [hr]
    cases cls <;> simp [GoMap.set, defaultRules]
  rw [haction]
  constructor
  · rintro ⟨hne, hselect⟩
    exact ⟨_, ((topClass_eq_iff hne).1 rfl).1, hne, hselect⟩
  · rintro ⟨cls, hmem, hne, hselect⟩
    have hle := le_priority_topClass hmem
    refine ⟨fun h => ?_, fun h => ?_⟩
    · rw [h] at hle
      cases cls <;> first | exact hne rfl | exact absurd hle (by decide)
    · rw [h] at hle
      apply hselect
      cases cls <;> first | rfl | exact absurd rfl hne | exact absurd hle (by decide)

theorem ruleAction_topClass (hf : newFilter U cfg = .ok f) (hcfg : cfg.Preset) (tx : TxStatus) (l : List StmtClass) :
    f.ruleAction (topClass l) tx = .keep ↔ cfg.KeepsClasses U tx l := by
  unfold FilterConfig.KeepsClasses
  rcases rules_cases hf hcfg with ⟨hddl, hdml, r, hr, hselect⟩ | ⟨hmode, hr⟩ | ⟨hmode, hr⟩
  · rw [if_neg hddl, if_neg hdml, ruleAction_ranked hr]
    simp only [hselect]
  · rw [if_pos hmode, ruleAction_onlyKeep hr (by decide), topClass_eq_ddl_iff]
  · rw [if_neg (by rw [hmode]; decide), if_pos hmode, ruleAction_onlyKeep hr (by decide), topClass_eq_dml_iff]

theorem quote_notMem_join : ∀ {stmts : List Bytes}, (∀ s ∈ stmts, chr '"' ∉ s) → chr '"' ∉ joinStatements stmts
  | [], _ => List.not_mem_nil
  | [s], h => h s List.mem_cons_self
  | s :: s' :: stmts, h => by
    rw [joinStatements_cons, List.mem_append, List.mem_cons]
    rintro (hin | hin | hin)
    · exact h s List.mem_cons_self hin
    · exact absurd hin (by decide)
    · exact quote_notMem_join (fun t ht => h t (List.mem_cons_of_mem s ht)) hin

/-- The filter keeps the text as the only statement of an event. -/
def FilterImpl.keeps (f : FilterImpl) (ev : SQLEvent) (tx : TxStatus) (sql : Bytes) : Prop :=
  (f.decide { ev with sql } tx).1 = .keep

instance (ev : SQLEvent) (tx : TxStatus) (sql : Bytes) : Decidable (f.keeps ev tx sql) :=
  inferInstanceAs (Decidable (_ = _))

/-- A text is kept if the mode keeps the classes of its top-level statements. -/
theorem keeps_iff (hf : newFilter U cfg = .ok f) (hcfg : cfg.Preset) {sql : Bytes} (hsql : chr '"' ∉ sql)
    (ev : SQLEvent) (tx : TxStatus) :
    f.keeps ev tx sql ↔ cfg.KeepsClasses U tx ((considered sql).map f.cls.classifySingle) := by
  rw [FilterImpl.keeps, decide_eq hf hcfg, ← ruleAction_topClass hf hcfg, ← classify_eq_topClass f.cls hsql]

theorem keeps_join_iff (hf : newFilter U cfg = .ok f) (hcfg : cfg.Preset) {stmts : List Bytes} (hne : stmts ≠ [])
    (hwhole : ∀ s ∈ stmts, Whole s) (ev : SQLEvent) (tx : TxStatus) :
    f.keeps ev tx (joinStatements stmts) ↔ cfg.KeepsClasses U tx (stmts.map f.cls.classifyTrimmed) := by
  rw [FilterImpl.keeps, decide_eq hf hcfg, ← ruleAction_topClass hf hcfg, ← classify_join f.cls hne hwhole]

/-- No statement that the mode drops stands above one that it keeps: under
`ddl_only` no BEGIN, COMMIT or ROLLBACK with a DDL statement, under `dml_only` none
of these nor DDL with a DML statement, nor a CALL before the first one. -/
def FilterConfig.NoneOutranked (U : CaseTable) (cfg : FilterConfig) (classes : List StmtClass) : Prop :=
  (cfg.modeName U = bytes "ddl_only" → .ddl ∈ classes → .begin ∉ classes ∧ .commitRollback ∉ classes) ∧
  (cfg.modeName U = bytes "dml_only" → .dml ∈ classes →
    .ddl ∉ classes ∧ .begin ∉ classes ∧ .commitRollback ∉ classes ∧ classes.idxOf .dml ≤ classes.idxOf .call)

/-- What a mode keeps alone it keeps with the others, if nothing outranks it. -/
theorem keepsClasses_of_mem_iff (cfg : FilterConfig) (tx : TxStatus) (classes : List StmtClass) :
    ((∃ cls ∈ classes, cfg.KeepsClasses U tx [cls]) → cfg.KeepsClasses U tx classes) ↔
      cfg.NoneOutranked U classes := by
  unfold FilterConfig.KeepsClasses FilterConfig.NoneOutranked
  by_cases hddl : cfg.modeName U = bytes "ddl_only"
  · have hdml : cfg.modeName U ≠ bytes "dml_only" := by rw [hddl]; decide
    simp only [if_pos hddl, List.mem_singleton]
    constructor
    · intro h
      exact ⟨fun _ hmem => (h ⟨.ddl, hmem, rfl, by decide, by decide⟩).2, fun h => absurd h hdml⟩
    · rintro ⟨h, -⟩ ⟨cls, hmem, rfl, -⟩
      exact ⟨hmem, h hddl hmem⟩
  · by_cases hdml : cfg.modeName U = bytes "dml_only"
    · simp only [if_neg hddl, if_pos hdml, List.mem_singleton]
      constructor
      · intro h
        exact ⟨fun h => absurd h hddl, fun _ hmem => (h ⟨.dml, hmem, rfl, by decide⟩).2⟩
      · rintro ⟨-, h⟩ ⟨cls, hmem, rfl, -⟩
        exact ⟨hmem, h hdml hmem⟩
    · simp only [if_neg hddl, if_neg hdml, List.mem_singleton]
      refine iff_of_true ?_ ⟨fun h => absurd h hddl, fun h => absurd h hdml⟩
      rintro ⟨_, hmem, cls, rfl, hkeep⟩
      exact ⟨cls, hmem, hkeep⟩

/-- **A batch is kept with its statements**, if these are whole, exactly if the mode
has none outranked: always under another mode than `ddl_only` and `dml_only`. A
statement that leaves a parenthesis open runs into the next one; then, and in
general, the classes are those of the top-level statements of the joined text. -/
theorem decide_batch_iff (hf : newFilter U cfg = .ok f) (hcfg : cfg.Preset) {stmts : List Bytes}
    (hquote : ∀ s ∈ stmts, chr '"' ∉ s) (ev : SQLEvent) (tx : TxStatus) :
    ((∀ s ∈ stmts, Whole s) →
      (((∃ s ∈ stmts, f.keeps ev tx s) → f.keeps ev tx (joinStatements stmts)) ↔
        cfg.NoneOutranked U (stmts.map f.cls.classifyTrimmed))) ∧
    (((∃ s ∈ stmts, f.keeps ev tx s) → f.keeps ev tx (joinStatements stmts)) ↔
      ∀ s ∈ stmts, cfg.KeepsClasses U tx ((considered s).map f.cls.classifySingle) →
        cfg.KeepsClasses U tx ((considered (joinStatements stmts)).map f.cls.classifySingle)) := by
  constructor
  · intro hwhole
    have halone : ∀ s ∈ stmts, f.keeps ev tx s ↔ cfg.KeepsClasses U tx [f.cls.classifyTrimmed s] := fun s hs =>
      keeps_join_iff hf hcfg (List.cons_ne_nil s []) (by simpa using hwhole s hs) ev tx
    have hsome : (∃ s ∈ stmts, f.keeps ev tx s) ↔
        ∃ cls ∈ stmts.map f.cls.classifyTrimmed, cfg.KeepsClasses U tx [cls] := by
      constructor
      · rintro ⟨s, hs, hkeep⟩
        exact ⟨_, List.mem_map_of_mem hs, (halone s hs).1 hkeep⟩
      · rintro ⟨cls, hmem, hkeep⟩
        obtain ⟨s, hs, rfl⟩ := List.mem_map.1 hmem
        exact ⟨s, hs, (halone s hs).2 hkeep⟩
    rw [← keepsClasses_of_mem_iff, hsome]
    rcases eq_or_ne stmts [] with rfl | hne
    · simp
    · rw [keeps_join_iff hf hcfg hne hwhole]
  · rw [keeps_iff hf hcfg (quote_notMem_join hquote)]
    constructor
    · intro h s hs hkeep
      exact h ⟨s, hs, (keeps_iff hf hcfg (hquote s hs) ev tx).2 hkeep⟩
    · rintro h ⟨s, hs, hkeep⟩
      exact h s hs ((keeps_iff hf hcfg (hquote s hs) ev tx).1 hkeep)

end Modes

/-- The filter of the mode `write_only`. -/
def writeOnlyFilter : FilterImpl :=
  { cls := newClassifier ⟨id, id⟩ []
    rules := GoMap.set defaultRules .plainSelect ⟨.drop, .drop⟩
    excluded := []
    included := []
    replayable := [] }

theorem newFilter_writeOnly : newFilter ⟨id, id⟩ { mode := bytes "write_only" } = .ok writeOnlyFilter := by
  have hmode : toLower ⟨id, id⟩ (trimSpace (bytes "write_only")) = bytes "write_only" := by decide +kernel
  unfold newFilter resolveRules
  simp only [hmode]
  rw [if_neg (by decide), if_pos trivial]
  rfl

/-- An event of no connection. -/
def emptyEvent : SQLEvent := { conn := ⟨.zero, 0, .zero, 0⟩, sql := [], timestamp := 0 }

theorem write_only_batch :
    writeOnlyFilter.keeps emptyEvent .idle (joinStatements [bytes "SELECT 1", bytes "DELETE FROM t"]) :=
  ((decide_batch_iff newFilter_writeOnly ⟨rfl, rfl, rfl, rfl⟩ (by decide) emptyEvent .idle).1 (by decide +kernel)).2
    ⟨fun h => absurd h (by decide +kernel), fun h => absurd h (by decide +kernel)⟩
    ⟨bytes "DELETE FROM t", by decide, by decide +kernel⟩

/-- The filter of the mode keeps the joined statements, out of a transaction. -/
def modeKeeps (mode : String) (stmts : List String) : Bool :=
  match newFilter ⟨id, id⟩ { mode := bytes mode } with
  | .ok f => decide (f.keeps emptyEvent .idle (joinStatements (stmts.map bytes)))
  | .error _ => false

/-- The DELETE is kept alone and dropped with what outranks it, what comes before
it with the same priority, or what opens a parenthesis; the CREATE TABLE is dropped
with a BEGIN. -/
theorem batch_dropped :
    (∀ s ∈ ["DELETE FROM t", "CREATE TABLE u (i int)", "CALL p()", "BEGIN", "VALUES ("].map bytes,
        lexer.closed s = true ∧ chr '"' ∉ s) ∧
      modeKeeps "dml_only" ["DELETE FROM t"] = true ∧
      modeKeeps "dml_only" ["DELETE FROM t", "CREATE TABLE u (i int)"] = false ∧
      modeKeeps "dml_only" ["CALL p()", "DELETE FROM t"] = false ∧
      modeKeeps "ddl_only" ["CREATE TABLE u (i int)"] = true ∧
      modeKeeps "ddl_only" ["BEGIN", "CREATE TABLE u (i int)"] = false ∧
      modeKeeps "" ["DELETE FROM t"] = true ∧ modeKeeps "" ["VALUES (", "DELETE FROM t"] = false := by
  decide +kernel

end PgShadow
