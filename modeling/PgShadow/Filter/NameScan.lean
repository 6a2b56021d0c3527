/-
# A quoted name in a text

What the scans make of a text does not depend on which name stands between two
double quotes, as long as it is a run of letters. The splitting loops do not know
quoted identifiers: for them the quotes and the letters are bytes without a
meaning, so they cut the text at the same places (`cutsFrom_over`), and the name is
in one of the statements (`statements_over`). `lex` reads that statement, which may
begin in the middle of an identifier, and shows the name as a word between the
same tokens, or not at all (`lex_over`).

Key definitions: `isName`, `quoted`, `statementTexts`.
Key theorems: `cutsFrom_over`, `statements_over`, `lex_over`.
-/
import PgShadow.Filter.Batch

namespace PgShadow

open Tokenizer
open TxControl (letter)

/-! ### Names -/

/-- A non-empty run of ASCII letters. -/
def isName (w : Bytes) : Bool := !w.isEmpty && w.all letter

/-- The text `post` behind an identifier in double quotes. -/
def quoted (w post : Bytes) : Bytes := chr '"' :: (w ++ chr '"' :: post)

/-- A byte that no scan of a comment or a string literal looks at, and that the
splitting loops pass over. -/
structure Quiet (b : UInt8) : Prop where
  inert : inertByte b = true
  line : b ≠ 10
  star : b ≠ chr '*'
  slash : b ≠ chr '/'
  quote : b ≠ chr '\''
  dollar : b ≠ chr '$'

theorem letter_quiet {b : UInt8} (hb : letter b = true) : Quiet b := by
  obtain ⟨h1, h2, h3, h4, h5, h6⟩ := forall_byte (p := fun b => letter b = true → inertByte b = true ∧ b ≠ 10 ∧
    b ≠ chr '*' ∧ b ≠ chr '/' ∧ b ≠ chr '\'' ∧ b ≠ chr '$') (by decide +kernel) b hb
  exact ⟨h1, h2, h3, h4, h5, h6⟩

theorem bounds_quote : Bounds (chr '"') := by constructor <;> decide

/-- The identifier with its quotes. -/
def quotedBytes (w : Bytes) : Bytes := chr '"' :: w ++ [chr '"']

theorem quoted_eq (w post : Bytes) : quoted w post = quotedBytes w ++ post := by
  simp [quoted, quotedBytes]

theorem quotedBytes_quiet {w : Bytes} (hw : isName w = true) : ∀ b ∈ quotedBytes w, Quiet b := by
  have hquote : Quiet (chr '"') := by constructor <;> decide
  rw [isName, Bool.and_eq_true, List.all_eq_true] at hw
  intro b hb
  simp only [quotedBytes, List.cons_append, List.mem_cons, List.mem_append, List.not_mem_nil, or_false] at hb
  rcases hb with rfl | hb | rfl
  · exact hquote
  · exact letter_quiet (hw.2 b hb)
  · exact hquote

/-! ### Quiet bytes -/

section Quiet

variable {u : Bytes} (hu : ∀ b ∈ u, Quiet b)
include hu

theorem skipLine_quiet (post : Bytes) : skipLine (u ++ post) = skipLine post := by
  apply List.dropWhile_append_of_pos
  intro b hb
  simpa using (hu b hb).line

theorem indexOf_quiet (x post : Bytes) :
    indexOf (chr '$' :: x) (u ++ post) = (indexOf (chr '$' :: x) post).map (· + u.length) := by
  induction u with
  | nil => simp
  | cons b u ih =>
    have hb : (chr '$' == b) = false := beq_eq_false_iff_ne.2 (hu b List.mem_cons_self).dollar.symm
    have hpre : (chr '$' :: x).isPrefixOf (b :: (u ++ post)) = false := by
      rw [List.isPrefixOf_cons_cons, hb, Bool.false_and]
    rw [List.cons_append, indexOf, hpre, if_neg Bool.false_ne_true,
      ih fun a ha => hu a (List.mem_cons_of_mem b ha), Option.map_map]
    rfl

end Quiet

theorem skipBlock_quiet : ∀ {u : Bytes}, (∀ b ∈ u, Quiet b) → ∀ (d : ℕ) (post : Bytes),
    skipBlock (d + 1) (u ++ post) = skipBlock (d + 1) post
  | [], _, _, _ => rfl
  | b :: u, hu, d, post => by
    have hb := hu b List.mem_cons_self
    rw [← skipBlock_quiet (fun a ha => hu a (List.mem_cons_of_mem b ha)) d post, List.cons_append]
    cases u ++ post with
    | nil => rfl
    | cons a r => rw [skipBlock, if_neg fun h => hb.slash h.1, if_neg fun h => hb.star h.1]

theorem quotedText_quiet {q : UInt8} {u : Bytes} (hu : q ∉ u) (post : Bytes) :
    quotedText q (u ++ post) = (u ++ (quotedText q post).1, (quotedText q post).2) := by
  induction u with
  | nil => rfl
  | cons b u ih =>
    rw [List.mem_cons, not_or] at hu
    rw [List.cons_append, quotedText_plain (Ne.symm hu.1), ih hu.2]
    rfl

/-! ### Open comments and literals go on behind the name -/

/-- The depth at which a block comment comes to the end of the text. -/
def blockDepth : ℕ → Bytes → ℕ
  | d + 1, a :: b :: t =>
    if a = chr '/' ∧ b = chr '*' then blockDepth (d + 2) t
    else if a = chr '*' ∧ b = chr '/' then blockDepth d t
    else blockDepth (d + 1) (b :: t)
  | d, _ => d

theorem skipBlock_over {w : Bytes} (hw : isName w = true) (post : Bytes) : ∀ {d : ℕ} {t : Bytes},
    blockEnds d t = false → skipBlock d (t ++ quoted w post) = skipBlock (blockDepth d t) post
  | 0, _, h => by simp [blockEnds] at h
  | d + 1, [], _ => by
    rw [List.nil_append, quoted_eq, skipBlock_quiet (quotedBytes_quiet hw), blockDepth]
    simp
  | d + 1, [a], _ => by
    have hover := skipBlock_quiet (quotedBytes_quiet hw) d post
    rw [← quoted_eq, quoted] at hover
    rw [List.singleton_append, quoted, skipBlock, if_neg fun h => bounds_quote.star h.2,
      if_neg fun h => bounds_quote.slash h.2, hover, blockDepth]
    simp
  | d + 1, a :: b :: t, h => by
    rw [blockEnds] at h
    rw [List.cons_append, List.cons_append, skipBlock, blockDepth]
    split_ifs at h ⊢
    · exact skipBlock_over hw post h
    · exact skipBlock_over hw post h
    · exact skipBlock_over hw post (t := b :: t) h

theorem quotedText_over {w : Bytes} (hw : isName w = true) (post : Bytes) {t : Bytes}
    (h : quoteEnds (chr '\'') t = false) :
    (quotedText (chr '\'') (t ++ quoted w post)).2 = (quotedText (chr '\'') post).2 := by
  have hquote : chr '\'' ∉ quotedBytes w := fun hin => (quotedBytes_quiet hw _ hin).quote rfl
  rw [quotedText_open h, quoted_eq, quotedText_quiet hquote]

theorem skipDollar_over {t : Bytes} (h : dollarEnds t = false) (post : Bytes) :
    ∃ tag, ∀ w, isName w = true → skipDollar (t ++ quoted w post) = some (afterTag tag post) := by
  obtain ⟨tag, hnot, htag⟩ := skipDollar_open bounds_quote h
  refine ⟨tag, fun w hw => ?_⟩
  have hname : indexOf (closeTag tag) w = none := by
    have hquiet : ∀ b ∈ w, Quiet b := by
      intro b hb
      exact quotedBytes_quiet hw b (List.mem_cons_of_mem _ (List.mem_append_left _ hb))
    have hover := indexOf_quiet hquiet (tag ++ [chr '$']) []
    rw [List.append_nil] at hover
    exact hover
  rw [quoted, htag, afterTag_append hnot hname]

/-- A region that is open before the name is left behind it, at a place that does
not depend on the name. -/
theorem skipRegion_over {c : UInt8} {t : Bytes} (h : regionEnds c t = false) (post : Bytes) :
    ∃ r, r <:+ post ∧ ∀ w, isName w = true → skipRegion c (t ++ quoted w post) = some r := by
  have hdash := fun w => head_append (x := chr '"') bounds_quote.dash t (w ++ chr '"' :: post)
  have hstar := fun w => head_append (x := chr '"') bounds_quote.star t (w ++ chr '"' :: post)
  unfold regionEnds at h
  unfold skipRegion quoted
  split_ifs at h with h1 h2 h3 h4
  · refine ⟨(skipLine post).drop 1, (List.drop_suffix 1 _).trans (List.dropWhile_suffix _), fun w hw => ?_⟩
    have hhead := (Bool.and_eq_true_iff.1 h1).2
    rw [(hdash w).1, if_pos h1, (hdash w).2 hhead, skipLine_append_of_not_contains h]
    show some ((skipLine (quoted w post)).drop 1) = _
    rw [quoted_eq, skipLine_quiet (quotedBytes_quiet hw)]
  · refine ⟨skipBlock (blockDepth 1 (t.drop 1)) post, skipBlock_suffix _ post, fun w hw => ?_⟩
    have hhead := (Bool.and_eq_true_iff.1 h2).2
    rw [(hdash w).1, (hstar w).1, if_neg h1, if_pos h2, (hstar w).2 hhead]
    exact congrArg some (skipBlock_over hw post h)
  · refine ⟨_, quotedText_suffix (chr '\'') post, fun w hw => ?_⟩
    rw [(hdash w).1, (hstar w).1, if_neg h1, if_neg h2, if_pos h3]
    exact congrArg some (quotedText_over hw post h)
  · obtain ⟨tag, htag⟩ := skipDollar_over h post
    refine ⟨afterTag tag post, afterTag_suffix tag post, fun w hw => ?_⟩
    rw [(hdash w).1, (hstar w).1, if_neg h1, if_neg h2, if_neg h3, if_pos h4]
    exact htag w hw

/-! ### The cuts -/

theorem suffix_of_mem_cutsFrom {d : ℕ} {s u : Bytes} (hu : u ∈ cutsFrom d s) : u <:+ s := by
  obtain ⟨v, hv, rfl⟩ := List.mem_map.1 hu
  exact (splitter.span_bounds (mem_of_mem_visits (List.mem_of_mem_filter hv))).1

theorem cutsFrom_quoted {w : Bytes} (hw : isName w = true) (d : ℕ) (post : Bytes) :
    cutsFrom d (quoted w post) = cutsFrom d post := by
  rw [quoted_eq]
  exact congrArg (·.2.1) (splitView_inert_append d (fun b hb => (quotedBytes_quiet hw b hb).inert) post)

/-- **The splitting loop cuts at the same places whatever the name**: at `L` before
it and at `R` behind it. -/
theorem cutsFrom_over (pre post : Bytes) (d : ℕ) : ∃ L R : List Bytes, (∀ l ∈ L, l ≠ [] ∧ l <:+ pre) ∧
    (∀ u ∈ R, u <:+ post) ∧ ∀ w, isName w = true →
      cutsFrom d (pre ++ quoted w post) = L.map (· ++ quoted w post) ++ R := by
  induction pre using splitter.token_induction generalizing d with
  | nil =>
    refine ⟨[], cutsFrom d post, by simp, fun u hu => suffix_of_mem_cutsFrom hu, fun w hw => ?_⟩
    exact cutsFrom_quoted hw d post
  | cons c t ih =>
    by_cases h : regionEnds c t = true
    · -- the loop is done with what starts here before it comes to the name
      have hsuffix : (splitStep c t).2 <:+ c :: t := (splitter.step_suffix c t).trans (List.suffix_cons c t)
      obtain ⟨L, R, hL, hR, hcuts⟩ := ih (splitDepth d (splitStep c t).1)
      refine ⟨(if isCut (d, ⟨(splitStep c t).1, c :: t, (splitStep c t).2⟩) then [c :: t] else []) ++ L, R, ?_, hR, ?_⟩
      · intro l hl
        rcases List.mem_append.1 hl with hl | hl
        · split_ifs at hl
          · rw [List.mem_singleton.1 hl]
            exact ⟨List.cons_ne_nil c t, List.suffix_rfl⟩
          · cases hl
        · exact ⟨(hL l hl).1, (hL l hl).2.trans hsuffix⟩
      · intro w hw
        have hstep : splitStep c (t ++ quoted w post) = ((splitStep c t).1, (splitStep c t).2 ++ quoted w post) :=
          (splitter_breaks bounds_quote (w ++ chr '"' :: post)).complete c t h
        rw [List.cons_append, cutsFrom_cons, hstep, List.map_append, List.append_assoc]
        refine congrArg₂ (· ++ ·) ?_ (hcuts w hw)
        show (if isCut (d, ⟨(splitStep c t).1, c :: t, (splitStep c t).2⟩) = true then _ else _) = _
        split_ifs <;> rfl
    · obtain ⟨r, hr, hskip⟩ := skipRegion_over ((Bool.not_eq_true _).mp h) post
      refine ⟨[], cutsFrom d r, by simp, fun u hu => (suffix_of_mem_cutsFrom hu).trans hr, fun w hw => ?_⟩
      rw [List.cons_append, cutsFrom_region d (hskip w hw)]
      rfl

/-- The pieces between the cuts: the name is in one of them, and the others do not
depend on it. -/
theorem slices_over {pre post : Bytes} {R : List Bytes} (hR : ∀ u ∈ R, u <:+ post) : ∀ {L : List Bytes} {start : Bytes},
    (∀ l ∈ L, l ≠ [] ∧ l <:+ pre) → start <:+ pre →
      ∃ before left right after, left <:+ pre ∧ right <+: post ∧ ∀ w,
        slices (start ++ quoted w post) (L.map (· ++ quoted w post) ++ R) =
          before ++ (left ++ quoted w right) :: after
  | [], start, _, hstart => by
    cases R with
    | nil =>
      refine ⟨[], start, post, [], hstart, List.prefix_rfl, fun w => ?_⟩
      rw [List.map_nil, List.nil_append, slices, if_neg (by simp [quoted])]
      rfl
    | cons u us =>
      have hu := (hR u List.mem_cons_self).length_le
      refine ⟨[], start, post.take (post.length - u.length), slices u.tail us, hstart, List.take_prefix _ _,
        fun w => ?_⟩
      rw [List.map_nil, List.nil_append, slices, List.nil_append]
      congr 1
      have hlen : (start ++ quoted w post).length - u.length =
          (start ++ quotedBytes w).length + (post.length - u.length) := by
        rw [quoted_eq]
        simp only [List.length_append]
        omega
      rw [hlen, quoted_eq, ← List.append_assoc, List.take_length_add_append, List.append_assoc, ← quoted_eq]
  | l :: L, start, hL, _ => by
    obtain ⟨hne, hl⟩ := hL l List.mem_cons_self
    obtain ⟨before, left, right, after, hleft, hright, hslices⟩ := slices_over hR
      (fun m hm => hL m (List.mem_cons_of_mem l hm)) ((List.tail_suffix l).trans hl)
    refine ⟨start.take (start.length - l.length) :: before, left, right, after, hleft, hright, fun w => ?_⟩
    have hlen : (start ++ quoted w post).length - (l ++ quoted w post).length = start.length - l.length := by
      simp only [List.length_append]
      omega
    rw [List.map_cons, List.cons_append, slices, hlen, List.take_append_of_le_length (Nat.sub_le _ _),
      List.tail_append_of_ne_nil hne, hslices w]
    rfl

/-! ### The statements -/

/-- The texts that `Classify` classifies: the top-level statements as the splitting
loop cuts them, or the text as it is if only blanks follow the first cut. -/
def statementTexts (sql : Bytes) : List Bytes :=
  if (indexDepthZeroSemicolon sql).isSome then (splitOnDepthZeroSemicolons sql).map trimSpace else [sql]

/-- The class of a text is the first of highest priority among its statements'. -/
theorem classify_statementTexts (c : Classifier) (sql : Bytes) :
    c.classify sql = topClass ((statementTexts sql).map c.classifySingle) := by
  unfold Classifier.classify statementTexts
  by_cases h : (indexDepthZeroSemicolon sql).isSome = true
  · rw [if_pos h, if_pos h, classifyMultiStatement_eq, List.map_map]
    rfl
  · rw [if_neg h, if_neg h]
    exact (TxControl.unknown_better _).symm

theorem trimSpace_quoted (left : Bytes) {w : Bytes} (right : Bytes) :
    trimSpace (left ++ quoted w right) = trimWords spaces left ++ quoted w (trimEnd right) := by
  have hstops : stops (chr '"') = true := by decide
  have h := trimSpace_between hstops hstops left (w ++ [chr '"']) right (m := chr '"' :: w) rfl
  simpa [quoted] using h

/-- **The statements of a text whatever the name in it**: those before, the one with
the name, and those behind it. -/
theorem statements_over (pre post : Bytes) : ∃ before left right after, left <:+ pre ∧ right <+: post ∧
    ∀ w, isName w = true → statementTexts (pre ++ quoted w post) = before ++ (left ++ quoted w right) :: after := by
  obtain ⟨L, R, hL, hR, hcuts⟩ := cutsFrom_over pre post 0
  have hindex : ∃ b, ∀ w, isName w = true → (indexDepthZeroSemicolon (pre ++ quoted w post)).isSome = b := by
    cases L with
    | nil =>
      refine ⟨R.head?.any fun u => u.tail.any nonBlank, fun w hw => ?_⟩
      rw [indexDepthZeroSemicolon_isSome, cuts, hcuts w hw]
      rfl
    | cons l L =>
      -- the name itself is behind the first cut
      refine ⟨true, fun w hw => ?_⟩
      rw [indexDepthZeroSemicolon_isSome, cuts, hcuts w hw]
      show (l ++ quoted w post).tail.any nonBlank = true
      rw [List.tail_append_of_ne_nil (hL l List.mem_cons_self).1, List.any_append, Bool.or_eq_true]
      right
      simp [quoted, nonBlank, chr]
  obtain ⟨b, hb⟩ := hindex
  cases b with
  | false =>
    refine ⟨[], pre, post, [], List.suffix_rfl, List.prefix_rfl, fun w hw => ?_⟩
    rw [statementTexts, hb w hw]
    rfl
  | true =>
    obtain ⟨before, left, right, after, hleft, hright, hslices⟩ := slices_over hR hL (List.suffix_rfl (l := pre))
    refine ⟨before.map trimSpace, trimWords spaces left, trimEnd right, after.map trimSpace,
      (trimWords_suffix _ _).trans hleft, (trimEnd_start _).trans hright, fun w hw => ?_⟩
    rw [statementTexts, hb w hw, if_pos rfl, splitOnDepthZeroSemicolons_eq, cuts, hcuts w hw, hslices w,
      List.map_append, List.map_cons, trimSpace_quoted]

/-! ### The tokens of a statement -/

/-- The tokens go on with a parenthesis, or with further segments of a name and
then a parenthesis: a name before them is called. -/
def callFollows : List Token → Bool
  | .lparen :: _ => true
  | .dot :: .word _ :: ts => callFollows ts
  | _ => false

theorem notMem_of_letters {w : Bytes} (hw : w.all letter = true) : chr '"' ∉ w :=
  fun h => absurd (List.all_eq_true.1 hw _ h) (by decide)

/-- An identifier that is open before the name ends at the quote before it, so the
name stands bare. -/
theorem quotedIdent_over {w : Bytes} (hw : isName w = true) (right : Bytes) {t : Bytes}
    (h : quoteEnds (chr '"') t = false) :
    quotedText (chr '"') (t ++ quoted w right) = ((quotedText (chr '"') t).1, w ++ chr '"' :: right) := by
  rw [isName, Bool.and_eq_true] at hw
  have hhead : (w ++ chr '"' :: right).head? ≠ some (chr '"') := by
    cases w with
    | nil => simp at hw
    | cons a w =>
      have hne := notMem_of_letters hw.2
      rw [List.mem_cons, not_or] at hne
      simpa using Ne.symm hne.1
  rw [quotedText_open h, quoted, quotedText_close hhead, List.append_nil]

/-- The name is read as an identifier where a token starts at its quote. -/
theorem quotedIdent_name {right : Bytes} (hright : right.head? ≠ some (chr '"')) {w : Bytes}
    (hw : w.all letter = true) : quotedText (chr '"') (w ++ chr '"' :: right) = (w, right) := by
  rw [quotedText_quiet (notMem_of_letters hw), quotedText_close hright, List.append_nil]

theorem lex_quoted {w : Bytes} (hw : isName w = true) {right : Bytes} (hright : right.head? ≠ some (chr '"')) :
    lex (quoted w right) = .word w :: lex right := by
  rw [isName, Bool.and_eq_true] at hw
  rw [quoted, lex_cons, (lexStep_quoted _).1, quotedIdent_name hright hw.2]
  rfl

/-- A bare name before a double quote is a word. -/
theorem lex_bare {w : Bytes} (hw : isName w = true) (right : Bytes) :
    lex (w ++ chr '"' :: right) = .word w :: lex (chr '"' :: right) := by
  rw [isName, Bool.and_eq_true, List.all_eq_true] at hw
  cases w with
  | nil => simp at hw
  | cons a w =>
    apply TxControl.lex_word
    · exact (TxControl.letter_facts a (hw.2 a List.mem_cons_self)).1
    · intro b hb
      exact (TxControl.letter_facts b (hw.2 b (List.mem_cons_of_mem a hb))).2.1
    · rfl

/-- A token other than an identifier that is open before the name ends behind it. -/
theorem lexStep_over {c : UInt8} (hc : c ≠ chr '"') {t : Bytes} (h : lexEnds c t = false) (right : Bytes) :
    ∃ v r, ∀ w, isName w = true → lexStep c (t ++ quoted w right) = (v, r) := by
  have hdash := fun w => head_append (x := chr '"') bounds_quote.dash t (w ++ chr '"' :: right)
  have hstar := fun w => head_append (x := chr '"') bounds_quote.star t (w ++ chr '"' :: right)
  rcases lexStep_cases bounds_quote c t [] with ⟨rfl, hhead⟩ | ⟨rfl, hhead⟩ | rfl | rfl | rfl | ⟨hplain, -⟩
  · rw [(lexStep_line t hhead).2] at h
    refine ⟨⟨none, true⟩, skipLine right, fun w hw => ?_⟩
    rw [quoted, (lexStep_line _ ((hdash w).1.trans hhead)).1, (hdash w).2 hhead, skipLine_append_of_not_contains h,
      ← quoted, quoted_eq, skipLine_quiet (quotedBytes_quiet hw)]
  · rw [(lexStep_block t hhead).2] at h
    refine ⟨⟨none, true⟩, skipBlock (blockDepth 1 (t.drop 1)) right, fun w hw => ?_⟩
    rw [quoted, (lexStep_block _ ((hstar w).1.trans hhead)).1, (hstar w).2 hhead, ← quoted, skipBlock_over hw right h]
  · rw [(lexStep_string t).2] at h
    refine ⟨⟨some .string, true⟩, (quotedText (chr '\'') right).2, fun w hw => ?_⟩
    rw [(lexStep_string _).1, quotedText_over hw right h]
  · exact absurd rfl hc
  · rw [(lexStep_dollar t).2] at h
    obtain ⟨tag, htag⟩ := skipDollar_over h right
    refine ⟨⟨some .string, true⟩, afterTag tag right, fun w hw => ?_⟩
    rw [(lexStep_dollar _).1, htag w hw]
    rfl
  · rw [hplain] at h
    cases h

theorem getLast?_suffix {r t : Bytes} (h : r <:+ t) {b : UInt8} (ht : t.getLast? ≠ some b) : r.getLast? ≠ some b := by
  obtain ⟨p, rfl⟩ := h
  cases r with
  | nil => nofun
  | cons a r => rwa [List.getLast?_append_of_ne_nil p (List.cons_ne_nil a r)] at ht

/-- **The tokens of the statement whatever the name**: a word between the same
tokens, or none at all where the statement has the name in a comment or a literal. -/
theorem lex_over {right : Bytes} (hright : right.head? ≠ some (chr '"')) (hcall : callFollows (lex right) = false)
    (left : Bytes) (hleft : left.getLast? ≠ some (chr '"')) :
    (∃ T₁ T₂, callFollows T₂ = false ∧ ∀ w, isName w = true → lex (left ++ quoted w right) = T₁ ++ .word w :: T₂) ∨
      ∃ T, ∀ w, isName w = true → lex (left ++ quoted w right) = T := by
  induction left using lexer.token_induction with
  | nil => exact .inl ⟨[], lex right, hcall, fun w hw => lex_quoted hw hright⟩
  | cons c t ih =>
    have hlast := getLast?_suffix (List.suffix_cons c t) hleft
    have hstep : lexer.step c t = lexStep c t := rfl
    rw [hstep] at ih
    by_cases h : lexEnds c t = true
    · -- the token ends before the name
      have happ : ∀ w, lexStep c (t ++ quoted w right) = ((lexStep c t).1, (lexStep c t).2 ++ quoted w right) := by
        intro w
        by_cases hc : c = chr '"'
        · subst hc
          rw [(lexStep_quoted t).2] at h
          obtain ⟨p, hp⟩ := quotedText_last h
          rw [(lexStep_quoted _).1, (lexStep_quoted _).1, quotedText_append h]
          -- else the quote before the name were the closing one, doubled
          intro hnil
          rw [hp, hnil, List.getLast?_concat] at hlast
          exact absurd rfl hlast
        · exact lexStep_append_of_ends bounds_quote (fun hq => absurd hq hc) h _
      rcases ih (getLast?_suffix (lexStep_suffix c t) hlast) with ⟨T₁, T₂, hfree, hlex⟩ | ⟨T, hlex⟩
      · refine .inl ⟨(lexStep c t).1.token.toList ++ T₁, T₂, hfree, fun w hw => ?_⟩
        rw [List.cons_append, lex_cons, happ, hlex w hw, List.append_assoc]
      · refine .inr ⟨(lexStep c t).1.token.toList ++ T, fun w hw => ?_⟩
        rw [List.cons_append, lex_cons, happ, hlex w hw]
    · rw [Bool.not_eq_true] at h
      by_cases hc : c = chr '"'
      · -- an identifier that the statement begins in ends at the first quote of the name
        subst hc
        rw [(lexStep_quoted t).2] at h
        refine .inl ⟨[.word (quotedText (chr '"') t).1], lex (chr '"' :: right), ?_, fun w hw => ?_⟩
        · rw [lex_cons, (lexStep_quoted _).1]
          rfl
        · rw [List.cons_append, lex_cons, (lexStep_quoted _).1, quotedIdent_over hw right h, lex_bare hw]
          rfl
      · obtain ⟨v, r, hover⟩ := lexStep_over hc h right
        refine .inr ⟨v.token.toList ++ lex r, fun w hw => ?_⟩
        rw [List.cons_append, lex_cons, hover w hw]

end PgShadow
