/-
# The splitting loop against the lexer

`Classify` splits a batch with a loop of its own, which knows the comments and
literals of `lex` but not its quoted identifiers. The two agree on a text
(`SplitAgrees`) if the loop never cuts inside of what `lex` delimits and cuts at
every semicolon that `lex` finds outside parentheses.

Each scanner is at a semicolon exactly if the text before is closed, and outside
parentheses if it is balanced, as that scanner reads it (`mem_cuts_iff`,
`mem_semicolons_iff`). So the two agree exactly if no double quote changes this
before a semicolon (`split_agrees_iff`): a semicolon, parenthesis, quote or
comment in a quoted identifier is taken for one (`quoted_semicolon_cut`). Names
without such bytes do no harm (`cuts_eq_of_plainNames`).

Key definitions: `semicolons`, `SplitAgrees`, `plainNames`.
Key theorems: `mem_cuts_iff`, `covered_iff`, `view_cons`, `split_agrees_iff`.
-/
import PgShadow.Filter.Lexemes

namespace PgShadow

open Tokenizer

/-! ### Where the scanners agree -/

/-- The parenthesis depth as `depthZeroWords` counts it. -/
def lexDepth (d : ℕ) (x : Lexeme) : ℕ :=
  match x.token with
  | some .lparen => d + 1
  | some .rparen => d - 1
  | _ => d

def isSemicolon (v : ℕ × Span UInt8 Lexeme) : Bool := v.1 == 0 && v.2.start.head? == some (chr ';')

/-- The positions of the semicolons that `lex` emits outside parentheses, when it
starts at depth `d`. -/
def semicolonsFrom (d : ℕ) (s : Bytes) : List Bytes :=
  ((visits lexDepth d (lexer.spans s)).filter isSemicolon).map (·.2.start)

def semicolons (s : Bytes) : List Bytes := semicolonsFrom 0 s

/-- The splitting loop cuts nowhere in a quoted identifier, literal or comment,
and at every semicolon outside parentheses. -/
def SplitAgrees (s : Bytes) : Prop :=
  (∀ u ∈ cuts s, ∀ p ∈ lexer.spans s, p.value.delimited = true → ¬p.Covers u) ∧ ∀ u ∈ semicolons s, u ∈ cuts s

/-! ### Each scanner at a semicolon -/

section Positions

variable {pre post s u : Bytes}

theorem lexStep_semi (post : Bytes) : lexStep (chr ';') post = (⟨some .other, false⟩, post) := by
  simp [lexStep, chr, isIdentStart]

theorem splitStep_semi (post : Bytes) : splitStep (chr ';') post = (some (chr ';'), post) := by
  simp [splitStep, skipRegion, chr]

/-- The splitting loop cuts at a semicolon if the text before is closed and
balanced, double quotes being bytes like others. -/
theorem mem_cuts_iff : chr ';' :: post ∈ cuts (pre ++ chr ';' :: post) ↔
    splitter.closed pre = true ∧ splitter.state splitDepth 0 pre = 0 := by
  refine (mem_starts_iff (splitter_breaks bounds_semi post)).trans (and_congr_right fun _ => ?_)
  show isCut (_, ⟨(splitStep (chr ';') post).1, _, _⟩) = true ↔ _
  rw [splitStep_semi]
  simp [isCut]

/-- A semicolon stands outside parentheses for `lex` if the text before is closed
and balanced. -/
theorem mem_semicolons_iff : chr ';' :: post ∈ semicolons (pre ++ chr ';' :: post) ↔
    lexer.closed pre = true ∧ lexer.state lexDepth 0 pre = 0 := by
  refine (mem_starts_iff (lexer_breaks separates_semi (by decide) post)).trans (and_congr_right fun _ => ?_)
  simp [isSemicolon]

/-- A semicolon lies in a quoted identifier, literal or comment if the text
before is not closed. -/
theorem covered_iff : (∃ p ∈ lexer.spans (pre ++ chr ';' :: post), p.value.delimited = true ∧
      p.Covers (chr ';' :: post)) ↔ lexer.closed pre = false := by
  constructor
  · rintro ⟨p, hp, hdelim, hcovers⟩
    by_contra hclosed
    rw [Bool.not_eq_false] at hclosed
    -- otherwise the semicolon is a token of its own
    have hsemi : ⟨(lexStep (chr ';') post).1, chr ';' :: post, (lexStep (chr ';') post).2⟩ ∈
        lexer.spans (pre ++ chr ';' :: post) := by
      rw [spans_append (lexer_breaks separates_semi (by decide) post) hclosed, lexer.spans_cons]
      exact List.mem_append_right _ List.mem_cons_self
    rw [eq_of_covers hp hsemi hcovers, lexStep_semi] at hdelim
    cases hdelim
  · intro hopen
    obtain ⟨p, hp, hcovers, -, c, t, hends, hvalue⟩ :=
      exists_covering (lexer_breaks separates_semi (by decide) post) hopen
    refine ⟨p, hp, ?_, hcovers⟩
    rw [hvalue]
    exact (lexStep_open separates_semi (by decide) hends post).1

theorem exists_of_mem_cuts (hu : u ∈ cuts s) : ∃ pre post, u = chr ';' :: post ∧ s = pre ++ chr ';' :: post := by
  obtain ⟨⟨d, p⟩, hv, rfl⟩ := List.mem_map.1 hu
  obtain ⟨hv, hcut⟩ := List.mem_filter.1 hv
  have hp := mem_of_mem_visits hv
  obtain ⟨⟨pre, hpre⟩, -, hne⟩ := splitter.span_bounds hp
  obtain ⟨c, post, hstart⟩ := List.exists_cons_of_ne_nil hne
  have hvalue : (splitter.step c post).1 = some (chr ';') := by
    rw [isCut, Bool.and_eq_true, splitter.span_of_start hp hstart] at hcut
    simpa using hcut.2
  have hc : c = chr ';' := by
    change (splitStep c post).1 = some (chr ';') at hvalue
    unfold splitStep at hvalue
    split at hvalue
    · cases hvalue
    · exact Option.some.inj hvalue
  rw [← hc]
  exact ⟨pre, post, hstart, by rw [← hpre, ← hstart]⟩

theorem exists_of_mem_semicolons (hu : u ∈ semicolons s) :
    ∃ pre post, u = chr ';' :: post ∧ s = pre ++ chr ';' :: post := by
  obtain ⟨⟨d, p⟩, hv, rfl⟩ := List.mem_map.1 hu
  obtain ⟨hv, hsemi⟩ := List.mem_filter.1 hv
  obtain ⟨⟨pre, hpre⟩, -, -⟩ := lexer.span_bounds (mem_of_mem_visits hv)
  rw [isSemicolon, Bool.and_eq_true] at hsemi
  have hhead : p.start.head? = some (chr ';') := by simpa using hsemi.2
  obtain ⟨post, hpost⟩ := List.head?_eq_some_iff.1 hhead
  exact ⟨pre, post, hpost, by rw [← hpre, ← hpost]⟩

end Positions

/-! ### Where there are no double quotes -/

/-- The byte does not move the splitting loops. -/
def inertByte (c : UInt8) : Bool := !(bytes ";()'$-/").contains c

/-- What the splitting loop makes of a text that it comes to at depth `d`:
whether it is closed, the cuts, and the depth at its end. -/
def splitView (d : ℕ) (s : Bytes) : Bool × List Bytes × ℕ :=
  (splitter.closed s, cutsFrom d s, splitter.state splitDepth d s)

/-- The same for `lex`. -/
def lexView (d : ℕ) (s : Bytes) : Bool × List Bytes × ℕ :=
  (lexer.closed s, semicolonsFrom d s, lexer.state lexDepth d s)

/-- The view with one more token in front. -/
def viewCons (ends : Bool) (here : List Bytes) (v : Bool × List Bytes × ℕ) : Bool × List Bytes × ℕ :=
  (ends && v.1, here ++ v.2.1, v.2.2)

section View

variable (d : ℕ) {c : UInt8} {t r : Bytes}

theorem viewCons_nil (v : Bool × List Bytes × ℕ) : viewCons true [] v = v := by
  rw [viewCons, Bool.true_and, List.nil_append]

theorem lexView_cons (c : UInt8) (t : Bytes) :
    lexView d (c :: t) = viewCons (lexEnds c t) (if d == 0 && c == chr ';' then [c :: t] else [])
      (lexView (lexDepth d (lexStep c t).1) (lexStep c t).2) := by
  have hsemi : semicolonsFrom d (c :: t) = (if d == 0 && c == chr ';' then [c :: t] else []) ++
      semicolonsFrom (lexDepth d (lexStep c t).1) (lexStep c t).2 := by
    have hthis : isSemicolon (d, ⟨(lexer.step c t).1, c :: t, (lexer.step c t).2⟩) = (d == 0 && c == chr ';') := rfl
    rw [semicolonsFrom, lexer.spans_cons, visits, List.filter_cons, hthis]
    split_ifs <;> rfl
  rw [lexView, lexer.closed_cons, hsemi, lexer.state_cons]
  rfl

theorem splitView_region (h : skipRegion c t = some r) :
    splitView d (c :: t) = viewCons (regionEnds c t) [] (splitView d r) := by
  have hstep : splitter.step c t = (none, r) := by
    show splitStep c t = _
    simp only [splitStep, h]
  rw [splitView, splitter.closed_cons, cutsFrom_region d h, splitter.state_cons, hstep]
  rfl

theorem regionEnds_of_none (h : skipRegion c t = none) : regionEnds c t = true := by
  unfold skipRegion at h
  unfold regionEnds
  split_ifs at h ⊢
  · rw [skipDollar, Option.map_eq_none_iff] at h
    rw [dollarEnds, h]
    rfl
  · rfl

theorem splitView_byte (h : skipRegion c t = none) :
    splitView d (c :: t) = viewCons true (if d == 0 && c == chr ';' then [c :: t] else [])
      (splitView (depthAfter d c) t) := by
  have hstep : splitter.step c t = (some c, t) := by
    show splitStep c t = _
    simp only [splitStep, h]
  rw [splitView, splitter.closed_cons, cutsFrom_byte d h, splitter.state_cons, hstep, Bool.and_comm (c == _)]
  show (regionEnds c t && _, _, _) = _
  rw [regionEnds_of_none h]
  rfl

theorem inertByte_facts : ∀ c, inertByte c = true → (c == chr '-') = false ∧ (c == chr '/') = false ∧
    (c == chr '\'') = false ∧ (c == chr '$') = false ∧ (c == chr ';') = false ∧ ∀ d, depthAfter d c = d := by
  refine fun c hc => ?_
  have hall := forall_byte (p := fun c => inertByte c = true → (c == chr '-') = false ∧ (c == chr '/') = false ∧
    (c == chr '\'') = false ∧ (c == chr '$') = false ∧ (c == chr ';') = false ∧ (c == chr '(') = false ∧
    (c == chr ')') = false) (by decide +kernel) c hc
  obtain ⟨h1, h2, h3, h4, h5, h6, h7⟩ := hall
  refine ⟨h1, h2, h3, h4, h5, fun d => ?_⟩
  rw [depthAfter, h6, h7]
  rfl

theorem splitView_inert (hc : inertByte c = true) (t : Bytes) : splitView d (c :: t) = splitView d t := by
  obtain ⟨h1, h2, h3, h4, h5, hdepth⟩ := inertByte_facts c hc
  have hnone : skipRegion c t = none := by
    rw [skipRegion, h1, h2, h3, h4]
    rfl
  rw [splitView_byte d hnone, h5, hdepth, Bool.and_false]
  exact viewCons_nil _

theorem splitView_inert_append : ∀ {pre : Bytes}, (∀ b ∈ pre, inertByte b = true) → ∀ t : Bytes,
    splitView d (pre ++ t) = splitView d t
  | [], _, _ => rfl
  | b :: pre, h, t => by
    rw [List.cons_append, splitView_inert d (h b List.mem_cons_self),
      splitView_inert_append fun x hx => h x (List.mem_cons_of_mem b hx)]

theorem splitView_run {p : UInt8 → Bool} (hp : ∀ b, p b = true → inertByte b = true) (t : Bytes) :
    splitView d (t.dropWhile p) = splitView d t := by
  conv_rhs => rw [← List.takeWhile_append_dropWhile (p := p) (l := t)]
  exact (splitView_inert_append d (fun b hb => hp b (List.mem_takeWhile_imp hb)) _).symm

/-- A newline that ends a comment is skipped with it or after it. -/
theorem splitView_skipLine (t : Bytes) : splitView d (skipLine t) = splitView d ((skipLine t).drop 1) := by
  rcases hline : skipLine t with _ | ⟨x, u⟩
  · rfl
  · have hx := List.head?_dropWhile_not (· != 10) t
    rw [show t.dropWhile (· != 10) = x :: u from hline] at hx
    obtain rfl : x = 10 := by simpa using hx
    exact splitView_inert d (by decide) u

theorem identPart_inert : ∀ b, isIdentPart b = true → inertByte b = true := forall_byte (by decide +kernel)

/-- A token without delimiters. -/
theorem splitView_plain (h : OpensNothing c t) :
    splitView (lexDepth d (lexStep c t).1) (lexStep c t).2 = splitView (depthAfter d c) t := by
  have hdepth : ¬(c == chr '(') = true → ¬(c == chr ')') = true → depthAfter d c = d := by
    intro hopen hclose
    rw [depthAfter, if_neg hopen, if_neg hclose]
  rw [h.lexStep_eq]
  by_cases hspace : (c == 32 || (9 ≤ c && c ≤ 13)) = true
  · have hparen : ¬(c == chr '(') = true ∧ ¬(c == chr ')') = true := forall_byte
      (p := fun c => (c == 32 || (9 ≤ c && c ≤ 13)) = true → ¬(c == chr '(') = true ∧ ¬(c == chr ')') = true)
      (by decide +kernel) c hspace
    rw [if_pos hspace, hdepth hparen.1 hparen.2]
    rfl
  by_cases hopen : (c == chr '(') = true
  · rw [if_neg hspace, if_pos hopen, depthAfter, if_pos hopen]
    rfl
  by_cases hclose : (c == chr ')') = true
  · rw [if_neg hspace, if_neg hopen, if_pos hclose, depthAfter, if_neg hopen, if_pos hclose]
    rfl
  rw [if_neg hspace, if_neg hopen, if_neg hclose, hdepth hopen hclose]
  split_ifs
  · rfl
  · exact splitView_run d identPart_inert t
  · rfl

/-- A token of `lex` that is no quoted identifier moves the splitting loop as it
moves `lex`. -/
theorem view_cons (hc : c ≠ chr '"') (t : Bytes) :
    splitView d (c :: t) = viewCons (lexEnds c t) (if d == 0 && c == chr ';' then [c :: t] else [])
      (splitView (lexDepth d (lexStep c t).1) (lexStep c t).2) := by
  have hends : lexEnds c t = regionEnds c t := if_neg (by simpa using hc)
  -- a delimited token is one region of the splitting loop
  have hregion : ∀ {x : Lexeme} {r : Bytes}, skipRegion c t = some r → c ≠ chr ';' → lexDepth d x = d →
      splitView d (c :: t) = viewCons (lexEnds c t) (if d == 0 && c == chr ';' then [c :: t] else [])
        (splitView (lexDepth d x) r) := by
    intro x r hskip hsemi hdepth
    rw [splitView_region d hskip, hends, hdepth, show (c == chr ';') = false by simpa using hsemi, Bool.and_false]
    rfl
  cases opener c t with
  | line hhead =>
    rw [(lexStep_line t hhead).1, splitView_skipLine]
    exact hregion (skipRegion_line t hhead) (by decide) rfl
  | block hhead =>
    rw [(lexStep_block t hhead).1]
    exact hregion (skipRegion_block t hhead) (by decide) rfl
  | string =>
    rw [(lexStep_string t).1]
    exact hregion (skipRegion_string t) (by decide) rfl
  | quoted => exact absurd rfl hc
  | dollar =>
    have hskip := skipRegion_dollar t
    rw [(lexStep_dollar t).1]
    rcases hopen : skipDollar t with _ | r
    · rw [hopen] at hskip
      rw [splitView_byte d hskip, hends, regionEnds_of_none hskip]
      congr 1
      exact (splitView_run d (fun b hb => identPart_inert b (by rw [isIdentPart, hb, Bool.or_true])) t).symm
    · exact hregion (hskip.trans hopen) (by decide) rfl
  | nothing h =>
    rw [splitView_byte d h.skipRegion_eq, hends, regionEnds_of_none h.skipRegion_eq, splitView_plain d h]

/-- Without double quotes the two scanners see the same. -/
theorem splitView_eq_lexView {s : Bytes} (hs : chr '"' ∉ s) : splitView d s = lexView d s := by
  induction s using lexer.token_induction generalizing d with
  | nil =>
    rw [splitView, lexView, cutsFrom_nil, semicolonsFrom]
    simp [visits]
  | cons c t ih =>
    have hrest : chr '"' ∉ (lexStep c t).2 := fun hin =>
      hs (List.mem_cons_of_mem c ((lexStep_suffix c t).subset hin))
    rw [view_cons d (fun hc => hs (hc ▸ List.mem_cons_self)), lexView_cons]
    exact congrArg _ (ih _ hrest)

end View

/-! ### Names without delimiters -/

/-- No quoted identifier holds a byte that moves the splitting loops. -/
def plainNames (s : Bytes) : Bool :=
  (lexer.spans s).all fun p => p.start.head? != some (chr '"') || p.text.all inertByte

theorem cuts_eq_of_plainNames {s : Bytes} (hs : plainNames s = true) (d : ℕ) : cutsFrom d s = semicolonsFrom d s := by
  induction s using lexer.token_induction generalizing d with
  | nil => exact congrArg (·.2.1) (splitView_eq_lexView d (List.not_mem_nil (a := chr '"')))
  | cons c t ih =>
    rw [plainNames, lexer.spans_cons, List.all_cons, Bool.and_eq_true] at hs
    obtain ⟨hthis, hrest⟩ := hs
    have ih : ∀ d, cutsFrom d (lexStep c t).2 = semicolonsFrom d (lexStep c t).2 := ih hrest
    have hlex : semicolonsFrom d (c :: t) = (if d == 0 && c == chr ';' then [c :: t] else []) ++
        semicolonsFrom (lexDepth d (lexStep c t).1) (lexStep c t).2 := congrArg (·.2.1) (lexView_cons d c t)
    by_cases hc : c = chr '"'
    · subst hc
      have htext : (chr '"' :: t).take _ ++ (lexStep (chr '"') t).2 = chr '"' :: t :=
        List.suffix_iff_eq_append.1 ((lexStep_suffix (chr '"') t).trans (List.suffix_cons _ t))
      have hbytes : ∀ b ∈ Span.text ⟨(lexer.step (chr '"') t).1, chr '"' :: t, (lexer.step (chr '"') t).2⟩,
          inertByte b = true := by simpa using hthis
      have hinert : splitView d (chr '"' :: t) = splitView d (lexStep (chr '"') t).2 := by
        rw [← htext]
        exact splitView_inert_append d hbytes _
      have hsplit : cutsFrom d (chr '"' :: t) = cutsFrom d (lexStep (chr '"') t).2 := congrArg (·.2.1) hinert
      rw [hsplit, hlex, ih, show (chr '"' == chr ';') = false by decide, Bool.and_false, (lexStep_quoted t).1]
      rfl
    · have hsplit : cutsFrom d (c :: t) = (if d == 0 && c == chr ';' then [c :: t] else []) ++
          cutsFrom (lexDepth d (lexStep c t).1) (lexStep c t).2 := congrArg (·.2.1) (view_cons d hc t)
      rw [hsplit, hlex, ih]

/-! ### The agreement -/

/-- The text is closed and balanced, where double quotes are bytes like others. -/
def splitterReady (s : Bytes) : Prop := splitter.closed s = true ∧ splitter.state splitDepth 0 s = 0

/-- The text is closed and balanced, where double quotes delimit identifiers. -/
def lexerReady (s : Bytes) : Prop := lexer.closed s = true ∧ lexer.state lexDepth 0 s = 0

theorem splitAgrees_of_plainNames {s : Bytes} (hs : plainNames s = true) : SplitAgrees s := by
  have heq : cuts s = semicolons s := cuts_eq_of_plainNames hs 0
  refine ⟨fun u hu p hp hdelim hcovers => ?_, fun u hu => heq ▸ hu⟩
  rw [heq] at hu
  obtain ⟨pre, post, rfl, rfl⟩ := exists_of_mem_semicolons hu
  have hopen := covered_iff.1 ⟨p, hp, hdelim, hcovers⟩
  rw [(mem_semicolons_iff.1 hu).1] at hopen
  cases hopen

/-- **The splitting loop agrees with the lexer** exactly if double quotes make no
difference before any semicolon: where the text is closed and balanced without
them it is closed with them, and where it is closed and balanced with them it is
without them. It is enough that no quoted identifier holds a semicolon, a
parenthesis, a single quote, a dollar sign, a dash or a slash. -/
theorem split_agrees_iff (s : Bytes) :
    (SplitAgrees s ↔ ∀ pre post, s = pre ++ chr ';' :: post →
      (splitterReady pre → lexer.closed pre = true) ∧ (lexerReady pre → splitterReady pre)) ∧
      (plainNames s = true → SplitAgrees s) := by
  refine ⟨⟨?_, ?_⟩, splitAgrees_of_plainNames⟩
  · rintro ⟨hinside, hall⟩ pre post rfl
    constructor
    · intro hready
      by_contra hopen
      obtain ⟨p, hp, hdelim, hcovers⟩ := covered_iff.2 (Bool.eq_false_iff.2 hopen)
      exact hinside _ (mem_cuts_iff.2 hready) p hp hdelim hcovers
    · intro hready
      exact mem_cuts_iff.1 (hall _ (mem_semicolons_iff.2 hready))
  · intro hsame
    constructor
    · intro u hu p hp hdelim hcovers
      obtain ⟨pre, post, rfl, rfl⟩ := exists_of_mem_cuts hu
      have hopen := covered_iff.1 ⟨p, hp, hdelim, hcovers⟩
      rw [(hsame pre post rfl).1 (mem_cuts_iff.1 hu)] at hopen
      cases hopen
    · intro u hu
      obtain ⟨pre, post, rfl, rfl⟩ := exists_of_mem_semicolons hu
      exact mem_cuts_iff.2 ((hsame pre post rfl).2 (mem_semicolons_iff.1 hu))

instance (s : Bytes) : Decidable (SplitAgrees s) := inferInstanceAs (Decidable (_ ∧ _))

/-- A semicolon in a quoted identifier is cut at; a parenthesis in one hides the
DELETE behind it. -/
theorem quoted_semicolon_cut :
    let hidden := bytes "SELECT \"(\" FROM v; DELETE FROM t"
    ¬SplitAgrees (bytes "SELECT \"a;b\" FROM v") ∧ ¬SplitAgrees hidden ∧
      splitOnDepthZeroSemicolons hidden = [hidden] ∧
      (newClassifier ⟨id, id⟩ []).classify hidden = .plainSelect := by
  decide +kernel

end PgShadow
