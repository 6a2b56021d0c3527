/-
# The classifier on transaction control

What `Classify` makes of a query of transaction control. One statement is
classified by its first word, a ROLLBACK also by its second; the splitter finds
the statements of a legible query; and the class of the query is that of its
weightiest statement, whatever their order. So a query is an end if it holds
one statement that is taken for an end (`classify_commitRollback`), and else a
begin if it holds a BEGIN (`classify_begin`).

Key definitions: `Stmt.cls`, `Stmt.takenForEnd`, `Stmt.opens`.
Key theorems: `classifySingle_of_cut`, `classify_text`, `classify_commitRollback`, `classify_begin`.
-/
import PgShadow.Filter.TxLex

namespace PgShadow.TxControl

/-! ### One statement -/

/-- The class the source gives a statement. -/
def Stmt.cls : Stmt → StmtClass
  | begin _ _ | start _ => .begin
  | finish v _ _ => if v = .abort then .unknown else .commitRollback
  | savepoint | release _ => .utility
  | rollbackTo noise _ => if noise.isNone then .utility else .commitRollback

/-- A ROLLBACK stands alone, or a keyword follows: TO only in its short form. -/
theorem more_rollback {s : Stmt} (h : s.lead = bytes "rollback") :
    (s.more = [] ∧ s.cls = .commitRollback) ∨
      ∃ k ss, s.more = .kw k :: ss ∧ k ≠ [] ∧ k.all letter = true ∧
        s.cls = if k = bytes "to" then .utility else .commitRollback := by
  rcases s with ⟨_, _⟩ | _ | ⟨v, noise, chain⟩ | _ | _ | ⟨noise, keyword⟩
  · exact absurd h (show bytes "begin" ≠ _ by decide)
  · exact absurd h (show bytes "start" ≠ _ by decide)
  · have hv : v = .rollback := by
      rcases v with _ | _ | _ | _
      · exact absurd h (show bytes "commit" ≠ _ by decide)
      · exact absurd h (show bytes "end" ≠ _ by decide)
      · rfl
      · exact absurd h (show bytes "abort" ≠ _ by decide)
    subst hv
    rcases noise with _ | _ | _
    · rcases chain with _ | _ | _
      · exact Or.inl ⟨rfl, rfl⟩
      · exact Or.inr ⟨bytes "and", _, rfl, by decide, by decide, rfl⟩
      · exact Or.inr ⟨bytes "and", _, rfl, by decide, by decide, rfl⟩
    · exact Or.inr ⟨bytes "work", _, rfl, by decide, by decide, rfl⟩
    · exact Or.inr ⟨bytes "transaction", _, rfl, by decide, by decide, rfl⟩
  · exact absurd h (show bytes "savepoint" ≠ _ by decide)
  · exact absurd h (show bytes "release" ≠ _ by decide)
  · rcases noise with _ | _ | _
    · exact Or.inr ⟨bytes "to", _, rfl, by decide, by decide, rfl⟩
    · exact Or.inr ⟨bytes "work", _, rfl, by decide, by decide, rfl⟩
    · exact Or.inr ⟨bytes "transaction", _, rfl, by decide, by decide, rfl⟩

section Single

variable {s : Stmt} {is rest : List Item} {T : Bytes}

/-- The word after blanks is the first of the text. -/
theorem first_word (U : CaseTable) {b r : List Item} {w k : Bytes} (hb : ∀ i ∈ b, i.blank = true)
    (hw : Spells w k) (hsp : spelled (b ++ .word w :: r) = true)
    (hleg : ∀ i ∈ b ++ .word w :: r, i.legible = true) (hcut : Cut (b ++ .word w :: r) T) :
    ∃ r', r' <+: render r ∧ wordsOf U (lex T) = k :: wordsOf U (lex r') := by
  obtain ⟨b', r', hb', hr', hT⟩ := hcut b [.word w] r (by simp) hb (by rw [render_word]; exact solid_keyword hw)
  refine ⟨r', hr', ?_⟩
  have hgap := (gap_of_spelled hb hsp hleg).mono hb'
  have hafter := head_of_cut hr' (head_after_word (spelled_right hsp))
  rw [hT, List.append_assoc, lex_blanks hgap, render_word, words_keyword U hw hafter]

/-- The next word after blanks is the second. -/
theorem second_word (U : CaseTable) {b b₁ r : List Item} {w w₁ k k₁ : Bytes} (hb : ∀ i ∈ b, i.blank = true)
    (hw : Spells w k) (hb₁ : ∀ i ∈ b₁, i.blank = true) (hw₁ : Spells w₁ k₁)
    (hsp : spelled (b ++ .word w :: (b₁ ++ .word w₁ :: r)) = true)
    (hleg : ∀ i ∈ b ++ .word w :: (b₁ ++ .word w₁ :: r), i.legible = true)
    (hcut : Cut (b ++ .word w :: (b₁ ++ .word w₁ :: r)) T) : ∃ ws, wordsOf U (lex T) = k :: k₁ :: ws := by
  have hrender : render (.word w :: b₁ ++ [.word w₁]) = w ++ render b₁ ++ w₁ := by simp [render, Item.text]
  obtain ⟨b', r', hb', hr', hT⟩ := hcut b (.word w :: b₁ ++ [.word w₁]) r (by simp) hb (by
    rw [hrender]
    exact (solid_keyword hw).append (solid_keyword hw₁) _)
  have hsp₁ := (spelled_cons (spelled_right hsp)).2
  have hgap := (gap_of_spelled hb hsp hleg).mono hb'
  have hgap₁ := gap_of_spelled hb₁ hsp₁ fun i hi => hleg i (List.mem_append_right b (List.mem_cons_of_mem _ hi))
  have hbefore : (render b₁ ++ (w₁ ++ r')).head?.any isIdentPart = false := by
    refine head_of_cut ?_ (head_after_word (spelled_right hsp))
    rw [render_append, render_cons]
    exact (List.prefix_append_right_inj _).2 ((List.prefix_append_right_inj _).2 hr')
  have hafter := head_of_cut hr' (head_after_word (spelled_right hsp₁))
  refine ⟨wordsOf U (lex r'), ?_⟩
  rw [hT, hrender, List.append_assoc, lex_blanks hgap, List.append_assoc, List.append_assoc,
    words_keyword U hw hbefore, lex_blanks hgap₁, words_keyword U hw₁ hafter]

/-- The first words of a statement's text. -/
theorem words_of_cut (U : CaseTable) (hreads : reads s.syms is = true)
    (hrest : ∀ i ∈ rest, i.blank = true ∨ i = .semi) (hsp : spelled (is ++ rest) = true)
    (hleg : ∀ i ∈ is ++ rest, i.legible = true) (hcut : Cut (is ++ rest) T) :
    ∃ ws, wordsOf U (lex T) = s.lead :: ws ∧ (s.lead = bytes "rollback" →
      s.cls = if ws.head? = some (bytes "to") then .utility else .commitRollback) := by
  obtain ⟨b, w, is', rfl, hb, hw, hmore⟩ := reads_kw hreads
  rw [List.append_assoc, List.cons_append] at hsp hleg hcut
  obtain ⟨r, hr, hwords⟩ := first_word U hb (spells_lead hw) hsp hleg hcut
  refine ⟨_, hwords, fun hroll => ?_⟩
  rcases more_rollback hroll with ⟨hnil, hcls⟩ | ⟨k, ss, hkw, hkne, hkl, hcls⟩
  · rw [hnil] at hmore
    have hnone : wordsOf U (lex r) = [] := by
      refine lex_wordless U (fun i hi => ?_) (spelled_cons (spelled_right hsp)).2 (fun i hi => ?_) hr
      · rcases List.mem_append.1 hi with hi | hi
        · exact Or.inl (reads_nil hmore i hi)
        · exact hrest i hi
      · exact hleg i (List.mem_append_right b (List.mem_cons_of_mem _ hi))
    rw [hnone, hcls]
    rfl
  · rw [hkw] at hmore
    obtain ⟨b₁, w₁, is₁, rfl, hb₁, hw₁, -⟩ := reads_kw hmore
    rw [List.append_assoc, List.cons_append] at hsp hleg hcut
    obtain ⟨ws, hwords₂⟩ := second_word U hb (spells_lead hw) hb₁ ⟨hw₁, hkne, hkl⟩ hsp hleg hcut
    rw [hwords] at hwords₂
    rw [(List.cons.inj hwords₂).2, hcls]
    simp

/-- One statement is classified by its first words. -/
theorem classifySingle_of_cut (c : Classifier) (hreads : reads s.syms is = true)
    (hrest : ∀ i ∈ rest, i.blank = true ∨ i = .semi) (hsp : spelled (is ++ rest) = true)
    (hleg : ∀ i ∈ is ++ rest, i.legible = true) (hcut : Cut (is ++ rest) T) : c.classifySingle T = s.cls := by
  obtain ⟨ws, hwords, hroll⟩ := words_of_cut c.unicode hreads hrest hsp hleg hcut
  have hfirst : firstWord c.unicode (lex T) = s.lead := by
    unfold firstWord
    rw [hwords]
    rfl
  have hsecond : hasSecondWord c.unicode (lex T) (bytes "to") = true ↔ ws.head? = some (bytes "to") := by
    unfold hasSecondWord
    rw [hwords]
    rcases ws with _ | ⟨x, ws⟩ <;> simp
  unfold Classifier.classifySingle Classifier.tokenClass statementClass
  dsimp only
  rw [hfirst]
  by_cases hlead : s.lead = bytes "rollback"
  · rw [hroll hlead, hlead]
    by_cases hto : ws.head? = some (bytes "to")
    · rw [if_pos hto]
      simp only [hsecond.2 hto, if_true]
      rfl
    · rw [if_neg hto]
      simp only [hsecond, hto, if_false]
      rfl
  · rcases s with ⟨_, _⟩ | _ | ⟨_ | _ | _ | _, _, _⟩ | _ | _ | ⟨_, _⟩
    · rfl
    · rfl
    · rfl
    · rfl
    · exact absurd rfl hlead
    · rfl
    · rfl
    · rfl
    · exact absurd rfl hlead

end Single

/-! ### The splitting loops -/

theorem inert_cons {c : UInt8} {w : Bytes} (h : inert (c :: w) = true) (r : Bytes) :
    inert w = true ∧ skipRegion c (w ++ r) = none ∧ (c == chr ';') = false ∧ depthAfter 0 c = 0 := by
  simp only [inert, Bool.and_eq_true, Bool.not_eq_true', Bool.or_eq_false_iff] at h
  obtain ⟨⟨⟨⟨⟨⟨⟨hsemi, hopen⟩, hclose⟩, hquote⟩, hdollar⟩, hdash⟩, hslash⟩, hw⟩ := h
  -- the byte after a dash or a slash is still in `w`
  have hnext : ∀ d e : UInt8, (c == d && w.head?.all (· == e)) = false →
      (c == d && (w ++ r).head? == some e) = false := by
    intro d e hd
    rcases w with _ | ⟨x, w⟩
    · simp_all
    · simpa using hd
  refine ⟨hw, ?_, hsemi, ?_⟩
  · unfold skipRegion
    simp only [hnext _ _ hdash, hnext _ _ hslash, hquote, hdollar, Bool.false_eq_true, if_false]
  · unfold depthAfter
    simp only [hopen, hclose, Bool.false_eq_true, if_false]

/-- An item other than a semicolon does not move the scan, or is skipped as a
whole. -/
theorem item_scan {i : Item} (hok : i.ok = true) (hleg : i.legible = true) (hsemi : i ≠ .semi)
    (htail : i.isTail = false) :
    inert i.text = true ∨ ∃ c t, i.text = c :: t ∧ ∀ r, skipRegion c (t ++ r) = some r := by
  rcases i with c | ⟨t, e⟩ | t | t | w | w | _ | _
  · refine Or.inl ?_
    exact forall_byte (p := fun c => Item.isSpace c = true → inert [c] = true) (by decide +kernel) c hok
  · simp only [Item.ok, Bool.and_eq_true, Bool.not_eq_true'] at hok
    obtain rfl : e = 10 := by simpa [Item.legible] using hleg
    refine Or.inr ⟨chr '-', chr '-' :: (t ++ [10]), rfl, fun r => ?_⟩
    show some ((skipLine (t ++ [10] ++ r)).drop 1) = some r
    rw [List.append_assoc, skipLine_append hok.1]
    rfl
  · cases htail
  · refine Or.inr ⟨chr '/', chr '*' :: t, rfl, fun r => ?_⟩
    show some (skipBlock 1 (t ++ r)) = some r
    rw [skipBlock_append 1 t r hok]
  · exact Or.inl hleg
  · exact Or.inl hleg
  · exact Or.inl (by decide)
  · exact absurd rfl hsemi

theorem cutsFrom_inert : ∀ {w : Bytes}, inert w = true → ∀ r : Bytes, cutsFrom 0 (w ++ r) = cutsFrom 0 r
  | [], _, _ => rfl
  | c :: w, h, r => by
    obtain ⟨hw, hskip, hsemi, hdepth⟩ := inert_cons h r
    rw [List.cons_append, cutsFrom_byte 0 hskip, hsemi, hdepth, cutsFrom_inert hw]
    rfl

/-- Items that the scan passes. -/
def Passed (is : List Item) : Prop :=
  ∀ i ∈ is, i.ok = true ∧ i.legible = true ∧ i ≠ .semi ∧ i.isTail = false

theorem cutsFrom_items : ∀ {is : List Item}, Passed is → ∀ r : Bytes, cutsFrom 0 (render is ++ r) = cutsFrom 0 r
  | [], _, _ => rfl
  | i :: is, h, r => by
    obtain ⟨hok, hleg, hsemi, htail⟩ := h i List.mem_cons_self
    have ih := cutsFrom_items (fun j hj => h j (List.mem_cons_of_mem i hj)) r
    rw [render_cons, List.append_assoc]
    rcases item_scan hok hleg hsemi htail with hinert | ⟨c, t, htext, hskip⟩
    · rw [cutsFrom_inert hinert, ih]
    · rw [htext, List.cons_append, cutsFrom_region 0 (hskip _), ih]

/-- The last statement goes to the end. -/
theorem cutsFrom_last : ∀ {l : List Item}, spelled l = true → (∀ i ∈ l, i.legible = true) → .semi ∉ l →
    cutsFrom 0 (render l) = []
  | [], _, _, _ => cutsFrom_nil 0
  | i :: is, hsp, hleg, hsemi => by
    have hok := (spelled_cons hsp).1
    have ih := cutsFrom_last (spelled_cons hsp).2 (fun j hj => hleg j (List.mem_cons_of_mem i hj))
      fun hin => hsemi (List.mem_cons_of_mem i hin)
    by_cases htail : i.isTail = true
    · rcases i with c | ⟨t, e⟩ | t | t | w | w | _ | _ <;> cases htail
      rcases is with _ | ⟨j, is⟩
      · simp only [Item.ok, Bool.not_eq_true'] at hok
        rw [render_cons, show render [] = [] from rfl, List.append_nil]
        refine (cutsFrom_region 0 ?_).trans (cutsFrom_nil 0)
        show some ((skipLine t).drop 1) = some []
        rw [skipLine_cut hok List.prefix_rfl]
        rfl
      · cases isTail_of_spelled (l := [.tail t]) hsp _ (List.mem_singleton_self _)
    · have hpassed : Passed [i] := fun j hj => by
        obtain rfl := List.mem_singleton.1 hj
        exact ⟨hok, hleg j List.mem_cons_self, fun h => hsemi (h ▸ List.mem_cons_self), by simpa using htail⟩
      rw [← ih, ← cutsFrom_items hpassed (render is)]
      simp [render]

theorem reads_no_semi : ∀ {is : List Item} {ss : List Sym}, reads ss is = true → .semi ∉ is
  | is, [], h => fun hin => by cases reads_nil h _ hin
  | [], _ :: _, _ => by simp
  | i :: is, y :: ss, h => by
    unfold reads at h
    intro hin
    by_cases hi : i.blank = true
    · rw [if_pos hi] at h
      rcases List.mem_cons.1 hin with rfl | hin
      · cases hi
      · exact reads_no_semi h hin
    · rw [if_neg hi] at h
      obtain ⟨hy, hrest⟩ := Bool.and_eq_true_iff.1 h
      rcases List.mem_cons.1 hin with rfl | hin
      · rcases y with _ | _ | _ <;> cases hy
      · exact reads_no_semi hrest hin

theorem passed_of_reads {p : Segment} {r : List Item} (hsp : spelled (p.items ++ .semi :: r) = true)
    (hleg : ∀ i ∈ p.items ++ .semi :: r, i.legible = true) : Passed p.items := fun i hi =>
  ⟨ok_of_spelled hsp i (by simp [hi]), hleg i (by simp [hi]), fun h => reads_no_semi p.reads (h ▸ hi),
    isTail_of_spelled hsp i hi⟩

/-- The pieces of a text are the texts of its segments, but for an empty last
one. -/
theorem foldl_split {β : Type} {f : β → Bytes → β} (hf : ∀ b, f b [] = b) : ∀ {ps : List Segment},
    spelled (joined ps) = true → (∀ i ∈ joined ps, i.legible = true) → ∀ b : β,
      (splitOnDepthZeroSemicolons (render (joined ps))).foldl f b = ps.foldl (fun b p => f b (render p.items)) b
  | [], _, _, b => by
    simp [splitOnDepthZeroSemicolons, joined, render, splitFrom]
  | [p], hsp, hleg, b => by
    rw [joined, splitOnDepthZeroSemicolons_eq, cuts, cutsFrom_last (l := p.items) hsp hleg (reads_no_semi p.reads),
      slices]
    by_cases hnil : render p.items = []
    · simp [hnil, hf]
    · simp [hnil]
  | p :: q :: ps, hsp, hleg, b => by
    have hpassed := passed_of_reads hsp hleg
    have ih := foldl_split hf (spelled_cons (spelled_right (l := p.items) hsp)).2
      (fun i hi => hleg i (by simp [joined, hi])) (f b (render p.items))
    have hsplit : splitOnDepthZeroSemicolons (render (joined (p :: q :: ps))) =
        render p.items :: splitOnDepthZeroSemicolons (render (joined (q :: ps))) := by
      rw [joined, render_append,
        show render (.semi :: joined (q :: ps)) = chr ';' :: render (joined (q :: ps)) from rfl,
        splitOnDepthZeroSemicolons_eq, splitOnDepthZeroSemicolons_eq, cuts, cutsFrom_items hpassed,
        cutsFrom_semi, slices]
      simp [cuts]
    rw [hsplit, List.foldl_cons, ih]
    rfl

/-! ### Batches -/

/-- The weightier class, the former of two equals. -/
def better (best cls : StmtClass) : StmtClass :=
  if stmtClassPriority best < stmtClassPriority cls then cls else best

theorem better_unknown (best : StmtClass) : better best .unknown = best := by
  exact if_neg (Nat.not_lt_zero _)

theorem unknown_better (cls : StmtClass) : better .unknown cls = cls := by
  rcases cls <;> rfl

theorem classifySingle_wordless (c : Classifier) {T : Bytes} (h : wordsOf c.unicode (lex T) = []) :
    c.classifySingle T = .unknown := by
  have hfirst : firstWord c.unicode (lex T) = [] := by
    unfold firstWord
    rw [h]
    rfl
  unfold Classifier.classifySingle Classifier.tokenClass statementClass
  dsimp only
  rw [hfirst, if_pos rfl]

/-- What a segment adds to the class of the batch. -/
theorem classify_segment (c : Classifier) (p : Segment) (hsp : spelled p.items = true)
    (hleg : ∀ i ∈ p.items, i.legible = true) :
    c.classifySingle (trimSpace (render p.items)) = p.stmt.elim .unknown Stmt.cls := by
  have hreads := p.reads
  rcases hstmt : p.stmt with _ | s
  · rw [hstmt] at hreads
    exact classifySingle_wordless c (trimSpace_wordless c.unicode (reads_nil hreads) hsp hleg)
  · rw [hstmt] at hreads
    have hcut : Cut (p.items ++ []) (trimSpace (render p.items)) := by
      rw [List.append_nil]
      exact cut_trimSpace (ok_of_spelled hsp)
    rw [← List.append_nil p.items] at hsp hleg
    exact classifySingle_of_cut c hreads (by simp) hsp hleg hcut

theorem mem_joined : ∀ {ps : List Segment} {p : Segment}, p ∈ ps → spelled (joined ps) = true →
    spelled p.items = true ∧ ∀ i ∈ p.items, i ∈ joined ps
  | [], _, hp, _ => by cases hp
  | [q], p, hp, hsp => by
    obtain rfl := List.mem_singleton.1 hp
    exact ⟨hsp, fun i hi => hi⟩
  | q :: q' :: ps, p, hp, hsp => by
    rcases List.mem_cons.1 hp with rfl | hp
    · exact ⟨spelled_left (l := p.items) hsp, fun i hi => List.mem_append_left _ hi⟩
    · obtain ⟨hp', hmem⟩ := mem_joined hp (spelled_cons (spelled_right (l := q.items) hsp)).2
      exact ⟨hp', fun i hi => List.mem_append_right _ (List.mem_cons_of_mem _ (hmem i hi))⟩

theorem classifySingle_nil (c : Classifier) : c.classifySingle [] = .unknown :=
  classifySingle_wordless c (by rw [lex_nil]; rfl)

/-- A batch is classified by its pieces; the empty ones do not count. -/
theorem classifyMultiStatement_foldl (c : Classifier) (sql : Bytes) : c.classifyMultiStatement sql =
    ((splitOnDepthZeroSemicolons sql).map fun s => c.classifySingle (trimSpace s)).foldl better .unknown := by
  unfold Classifier.classifyMultiStatement
  rw [List.foldl_map]
  congr 1
  funext best stmt
  by_cases hnil : trimSpace stmt = []
  · rw [hnil, classifySingle_nil, better_unknown]
    exact if_pos rfl
  · exact if_neg hnil

theorem classifyMultiStatement_joined (c : Classifier) {ps : List Segment} (hsp : spelled (joined ps) = true)
    (hleg : ∀ i ∈ joined ps, i.legible = true) :
    c.classifyMultiStatement (render (joined ps)) =
      ((ps.filterMap Segment.stmt).map Stmt.cls).foldl better .unknown := by
  have hempty : trimSpace [] = [] := by decide +kernel
  rw [classifyMultiStatement_foldl, List.foldl_map,
    foldl_split (fun b => by rw [hempty, classifySingle_nil, better_unknown]) hsp hleg, List.foldl_map,
    List.foldl_filterMap]
  -- one segment after the other
  refine List.foldl_ext _ _ _ fun best p hp => ?_
  obtain ⟨hp', hmem⟩ := mem_joined hp hsp
  rw [classify_segment c p hp' fun i hi => hleg i (hmem i hi)]
  rcases p.stmt with _ | s
  · exact better_unknown best
  · rfl

/-- An item of white space only is a blank. -/
theorem blank_of_spaces {i : Item} (hok : i.ok = true)
    (h : ∀ ch ∈ i.text, (ch == 32 || ch == 9 || ch == 10 || ch == 13) = true) : i.blank = true := by
  rcases i with c | ⟨t, e⟩ | t | t | w | w | _ | _
  · rfl
  · rfl
  · rfl
  · rfl
  · rcases w with _ | ⟨a, w⟩
    · cases hok
    · simp only [Item.ok, List.head?_cons, Option.any_some, Bool.and_eq_true] at hok
      have hno := forall_byte (p := fun a => isIdentStart a = true →
        (a == 32 || a == 9 || a == 10 || a == 13) = false) (by decide +kernel) a hok.1
      rw [h a List.mem_cons_self] at hno
      cases hno
  · exact absurd (h (chr '"') List.mem_cons_self) (by decide)
  · exact absurd (h (chr ',') List.mem_cons_self) (by decide)
  · exact absurd (h (chr ';') List.mem_cons_self) (by decide)

/-- Where no second statement is found, none begins behind the first semicolon. -/
theorem blank_after_semi {a r : List Item} (ha : Passed a) (hok : ∀ i ∈ r, i.ok = true)
    (hnone : indexDepthZeroSemicolon (render (a ++ .semi :: r)) = none) : ∀ i ∈ r, i.blank = true := by
  have hfirst : (render r).any nonBlank = false := by
    have hsome := indexDepthZeroSemicolon_isSome (render (a ++ .semi :: r))
    rw [hnone, cuts, render_append, show render (.semi :: r) = chr ';' :: render r from rfl, cutsFrom_items ha,
      cutsFrom_semi] at hsome
    exact hsome.symm
  have hspaces : ∀ ch ∈ render r, (ch == 32 || ch == 9 || ch == 10 || ch == 13) = true := by
    intro ch hch
    have hblank := List.any_eq_false.1 hfirst ch hch
    rwa [nonBlank, Bool.not_eq_true', Bool.not_eq_false] at hblank
  exact fun i hi => blank_of_spaces (hok i hi) fun ch hch => hspaces ch (List.mem_flatMap_of_mem hi hch)

/-- Blank segments have no statement. -/
theorem stmts_blank {ps : List Segment} (hsp : spelled (joined ps) = true)
    (hblank : ∀ i ∈ joined ps, i.blank = true) : ps.filterMap Segment.stmt = [] := by
  rw [List.filterMap_eq_nil_iff]
  intro p hp
  rcases hstmt : p.stmt with _ | s
  · rfl
  · have hreads := p.reads
    rw [hstmt] at hreads
    obtain ⟨b, w, is', hitems, -, -, -⟩ := reads_kw hreads
    cases hblank (.word w) ((mem_joined hp hsp).2 _ (by rw [hitems]; simp))

theorem classifySingle_joined (c : Classifier) {ps : List Segment} (hsp : spelled (joined ps) = true)
    (hleg : ∀ i ∈ joined ps, i.legible = true) (hnone : indexDepthZeroSemicolon (render (joined ps)) = none) :
    c.classifySingle (render (joined ps)) = ((ps.filterMap Segment.stmt).map Stmt.cls).foldl better .unknown := by
  rcases ps with _ | ⟨p, ps⟩
  · exact classifySingle_wordless c (by rw [show render (joined []) = [] from rfl, lex_nil]; rfl)
  -- what follows the first segment has no word and no statement
  obtain ⟨rest, hjoined, hrest⟩ := joined_cons p ps
  rw [hjoined] at hsp hleg hnone ⊢
  obtain ⟨hrest, hstmts⟩ : (∀ i ∈ rest, i.blank = true ∨ i = .semi) ∧ ps.filterMap Segment.stmt = [] := by
    rcases hrest with ⟨rfl, rfl⟩ | rfl
    · exact ⟨by simp, rfl⟩
    · have hsp' := (spelled_cons (spelled_right hsp)).2
      have hblank := blank_after_semi (passed_of_reads hsp hleg) (ok_of_spelled hsp') hnone
      refine ⟨fun i hi => ?_, stmts_blank hsp' hblank⟩
      rcases List.mem_cons.1 hi with rfl | hi
      · exact Or.inr rfl
      · exact Or.inl (hblank i hi)
  have hreads := p.reads
  rcases hstmt : p.stmt with _ | s
  · rw [hstmt] at hreads
    rw [List.filterMap_cons_none hstmt, hstmts]
    refine classifySingle_wordless c (lex_wordless c.unicode (fun i hi => ?_) hsp hleg List.prefix_rfl)
    rcases List.mem_append.1 hi with hi | hi
    · exact Or.inl (reads_nil hreads i hi)
    · exact hrest i hi
  · rw [hstmt] at hreads
    rw [List.filterMap_cons_some hstmt, hstmts, classifySingle_of_cut c hreads hrest hsp hleg (cut_render _)]
    exact (unknown_better s.cls).symm

/-- **Batches.** The class of a query is the weightiest of its statements'. -/
theorem classify_text (c : Classifier) (q : Query) (hleg : ∀ i ∈ q.items, i.legible = true) :
    c.classify q.text = (q.stmts.map Stmt.cls).foldl better .unknown := by
  unfold Classifier.classify
  by_cases hsome : (indexDepthZeroSemicolon q.text).isSome = true
  · rw [if_pos hsome]
    exact classifyMultiStatement_joined c q.spelled hleg
  · rw [if_neg hsome]
    exact classifySingle_joined c q.spelled hleg (Option.not_isSome_iff_eq_none.1 hsome)

/-- The source takes the statement for the end of the block: not ABORT, but a
ROLLBACK TO whose TO is not the second word. -/
def Stmt.takenForEnd : Stmt → Bool
  | finish v _ _ => decide (v ≠ .abort)
  | rollbackTo noise _ => noise.isSome
  | begin _ _ | start _ | savepoint | release _ => false

def Stmt.opens : Stmt → Bool
  | begin _ _ | start _ => true
  | finish _ _ _ | rollbackTo _ _ | savepoint | release _ => false

theorem cls_eq (s : Stmt) :
    s.cls = if s.takenForEnd then .commitRollback else if s.opens then .begin
      else if s.lead = bytes "abort" then .unknown else .utility := by
  rcases s with ⟨_, _⟩ | _ | ⟨_ | _ | _ | _, _, _⟩ | _ | _ | ⟨_ | _, _⟩
  all_goals rfl

theorem foldl_better : ∀ (cs : List StmtClass) (best : StmtClass),
    (cs.foldl better best = best ∨ cs.foldl better best ∈ cs) ∧
      stmtClassPriority best ≤ stmtClassPriority (cs.foldl better best) ∧
      ∀ c ∈ cs, stmtClassPriority c ≤ stmtClassPriority (cs.foldl better best)
  | [], best => ⟨Or.inl rfl, Nat.le_refl _, by simp⟩
  | c :: cs, best => by
    obtain ⟨hmem, hbest, hcs⟩ := foldl_better cs (better best c)
    have hone : (better best c = best ∨ better best c = c) ∧
        stmtClassPriority best ≤ stmtClassPriority (better best c) ∧
        stmtClassPriority c ≤ stmtClassPriority (better best c) := by
      unfold better
      by_cases hlt : stmtClassPriority best < stmtClassPriority c
      · rw [if_pos hlt]
        exact ⟨Or.inr rfl, hlt.le, Nat.le_refl _⟩
      · rw [if_neg hlt]
        exact ⟨Or.inl rfl, Nat.le_refl _, Nat.not_lt.1 hlt⟩
    rw [List.foldl_cons]
    refine ⟨?_, hone.2.1.trans hbest, fun d hd => ?_⟩
    · rcases hmem with hmem | hmem
      · rw [hmem]
        rcases hone.1 with h | h
        · exact Or.inl h
        · rw [h]
          exact Or.inr List.mem_cons_self
      · exact Or.inr (List.mem_cons_of_mem c hmem)
    · rcases List.mem_cons.1 hd with rfl | hd
      · exact hone.2.2.trans hbest
      · exact hcs d hd

/-- The classes of transaction control. -/
def controlClasses : List StmtClass := [.commitRollback, .begin, .utility, .unknown]

theorem cls_mem (s : Stmt) : s.cls ∈ controlClasses := by
  rw [cls_eq]
  split_ifs <;> decide

theorem cls_commitRollback (s : Stmt) : s.cls = .commitRollback ↔ s.takenForEnd = true := by
  rw [cls_eq]
  split_ifs with hend <;> simp [hend]

theorem cls_begin (s : Stmt) : s.cls = .begin ↔ s.takenForEnd = false ∧ s.opens = true := by
  rw [cls_eq]
  split_ifs with hend hopens <;> simp [hend]
  · exact hopens
  all_goals simpa using hopens

/-- No class of transaction control weighs as much as an end or a begin. -/
theorem control_priority : ∀ x ∈ controlClasses,
    (8 ≤ stmtClassPriority x → x = .commitRollback) ∧
      (7 ≤ stmtClassPriority x → x = .commitRollback ∨ x = .begin) := by
  decide

section Query

variable (c : Classifier) {q : Query} (hleg : ∀ i ∈ q.items, i.legible = true)
include hleg

/-- The class of a query is that of one of its statements, if it is known. -/
theorem classify_of_stmt {x : StmtClass} (h : c.classify q.text = x) (hx : x ≠ .unknown) :
    ∃ s ∈ q.stmts, s.cls = x := by
  rcases (foldl_better (q.stmts.map Stmt.cls) .unknown).1 with hmem | hmem <;>
    rw [← classify_text c q hleg, h] at hmem
  · exact absurd hmem hx
  · exact List.mem_map.1 hmem

theorem classify_mem : c.classify q.text ∈ controlClasses := by
  by_cases hx : c.classify q.text = .unknown
  · rw [hx]
    decide
  · obtain ⟨s, -, hs⟩ := classify_of_stmt c hleg rfl hx
    rw [← hs]
    exact cls_mem s

theorem le_classify {s : Stmt} (hs : s ∈ q.stmts) :
    stmtClassPriority s.cls ≤ stmtClassPriority (c.classify q.text) := by
  rw [classify_text c q hleg]
  exact (foldl_better (q.stmts.map Stmt.cls) .unknown).2.2 s.cls (List.mem_map_of_mem hs)

/-- **Ends.** A query is an end exactly if it holds a statement taken for one. -/
theorem classify_commitRollback :
    c.classify q.text = .commitRollback ↔ ∃ s ∈ q.stmts, s.takenForEnd = true := by
  constructor
  · intro h
    obtain ⟨s, hs, hcls⟩ := classify_of_stmt c hleg h (by decide)
    exact ⟨s, hs, (cls_commitRollback s).1 hcls⟩
  · rintro ⟨s, hs, hend⟩
    have hle := le_classify c hleg hs
    rw [(cls_commitRollback s).2 hend] at hle
    exact (control_priority _ (classify_mem c hleg)).1 hle

/-- **Begins.** It is a begin exactly if it holds none and a BEGIN. -/
theorem classify_begin : c.classify q.text = .begin ↔
    (∀ s ∈ q.stmts, s.takenForEnd = false) ∧ ∃ s ∈ q.stmts, s.opens = true := by
  have hends := classify_commitRollback c hleg
  constructor
  · intro h
    obtain ⟨s, hs, hcls⟩ := classify_of_stmt c hleg h (by decide)
    refine ⟨fun s' hs' => ?_, s, hs, ((cls_begin s).1 hcls).2⟩
    by_contra hend
    have hcom := hends.2 ⟨s', hs', by simpa using hend⟩
    rw [h] at hcom
    cases hcom
  · rintro ⟨hno, s, hs, hopens⟩
    have hle := le_classify c hleg hs
    rw [(cls_begin s).2 ⟨hno s hs, hopens⟩] at hle
    refine ((control_priority _ (classify_mem c hleg)).2 hle).resolve_left fun hcom => ?_
    obtain ⟨s', hs', hend⟩ := hends.1 hcom
    rw [hno s' hs'] at hend
    cases hend

end Query

end PgShadow.TxControl
