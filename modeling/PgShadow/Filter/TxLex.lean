/-
# Spelled texts under the lexer

A text of transaction control, item by item, under the source's lexer and
`TrimSpace`: blanks have no words, a keyword is a word, and trimming cuts into
blanks at most. The source reads a text as the server does only if it is
`legible`: its line comments end with a newline, and none of its names holds
what the splitter takes for a separator, a parenthesis, a literal or a comment.

Key definitions: `inert`, `Item.legible`, `Cut`.
Key theorems: `lex_wordless`, `words_keyword`, `cut_trimSpace`, `text_starts`.
-/
import PgShadow.Filter.Lexemes
import PgShadow.Filter.TxControl

namespace PgShadow.TxControl

/-! ### Lexing blanks and words -/

theorem lex_nil : lex [] = [] := by rw [lex]

theorem lex_space {c : UInt8} (h : Item.isSpace c = true) (t : Bytes) : lex (c :: t) = lex t := by
  unfold Item.isSpace at h
  rw [lex, if_pos h]

theorem lex_line (t : Bytes) : lex (chr '-' :: chr '-' :: t) = lex (skipLine t) := by
  rw [lex_cons, (lexStep_line _ rfl).1]
  rfl

theorem lex_block (t : Bytes) : lex (chr '/' :: chr '*' :: t) = lex (skipBlock 1 t) := by
  rw [lex_cons, (lexStep_block _ rfl).1]
  rfl

theorem identStart_facts : ∀ c, isIdentStart c = true →
    (c == 32 || (9 ≤ c && c ≤ 13)) = false ∧ (c == chr '-') = false ∧ (c == chr '/') = false ∧
    (c == chr '\'') = false ∧ (c == chr '"') = false ∧ (c == chr '$') = false ∧ (c == chr '(') = false ∧
    (c == chr ')') = false ∧ (c == chr '.') = false :=
  forall_byte (by decide +kernel)

theorem lex_word {a : UInt8} {u r : Bytes} (ha : isIdentStart a = true) (hu : ∀ b ∈ u, isIdentPart b = true)
    (hr : r.head?.any isIdentPart = false) : lex (a :: u ++ r) = .word (a :: u) :: lex r := by
  have htake : (u ++ r).takeWhile isIdentPart = u := by
    rw [List.takeWhile_append_of_pos hu]
    rcases r with _ | ⟨c, r⟩
    · simp
    · rw [List.takeWhile_cons_of_neg (by simpa using hr), List.append_nil]
  have hdrop : (u ++ r).dropWhile isIdentPart = r := by
    rw [List.dropWhile_append_of_pos hu]
    rcases r with _ | ⟨c, r⟩
    · rfl
    · rw [List.dropWhile_cons_of_neg (by simpa using hr)]
  obtain ⟨h1, h2, h3, h4, h5, h6, h7, h8, h9⟩ := identStart_facts a ha
  rw [List.cons_append, lex]
  simp only [h1, h2, h3, h4, h5, h6, h7, h8, h9, ha, htake, hdrop, Bool.false_and, Bool.false_eq_true, if_false,
    if_true]

theorem skipLine_append {t : Bytes} (h : t.any Item.isNewline = false) (r : Bytes) :
    skipLine (t ++ r) = skipLine r := by
  refine skipLine_append_of_not_contains (Bool.eq_false_iff.2 fun hin => ?_) r
  exact List.any_eq_false.1 h 10 (by simpa using hin) rfl

theorem skipBlock_append : ∀ (d : ℕ) (s r : Bytes), Item.closes d s = true → skipBlock d (s ++ r) = r
  | 0, s, r, h => by
    have hs : s = [] := by simpa [Item.closes] using h
    rw [hs]
    simp [skipBlock]
  | _ + 1, [], _, h => by simp [Item.closes] at h
  | _ + 1, [_], _, h => by simp [Item.closes] at h
  | d + 1, a :: b :: t, r, h => by
    unfold Item.closes at h
    simp only [List.cons_append, skipBlock]
    split_ifs at h ⊢
    · exact skipBlock_append (d + 2) t r h
    · exact skipBlock_append d t r h
    · exact skipBlock_append (d + 1) (b :: t) r h

/-- A comment that is cut off reaches to the end. -/
theorem skipBlock_cut {d : ℕ} {s p : Bytes} (h : Item.closes d s = true) (hp : p <+: s) : skipBlock d p = [] := by
  obtain ⟨k, rfl⟩ := hp
  by_contra hne
  have happ := skipBlock_append d (p ++ k) [] h
  rw [List.append_nil, skipBlock_stable hne] at happ
  exact hne (List.append_eq_nil_iff.1 happ).1

/-! ### Spellings -/

theorem render_cons (i : Item) (is : List Item) : render (i :: is) = i.text ++ render is := rfl

theorem render_append (is js : List Item) : render (is ++ js) = render is ++ render js := by
  simp [render]

/-- The bytes do not move the scan of the splitting loops: no semicolon,
parenthesis, quote or dollar, and no comment begins. -/
def inert : Bytes → Bool
  | [] => true
  | c :: t =>
    !(c == chr ';' || c == chr '(' || c == chr ')' || c == chr '\'' || c == chr '$') &&
      !(c == chr '-' && t.head?.all (· == chr '-')) && !(c == chr '/' && t.head?.all (· == chr '*')) && inert t

/-- The source reads the item as the server does: a line comment ends with the
newline, and a name does not move the scan. -/
def Item.legible : Item → Bool
  | line _ e => e == 10
  | word w => inert w
  | quoted w => inert (quoted w).text
  | space _ | tail _ | block _ | comma | semi => true

theorem spelled_cons {i : Item} {is : List Item} (h : spelled (i :: is) = true) :
    i.ok = true ∧ spelled is = true := by
  rcases is with _ | ⟨j, is⟩
  · exact ⟨h, rfl⟩
  · simp only [spelled, Bool.and_eq_true] at h
    exact ⟨h.1.1.1, h.2⟩

theorem spelled_right : ∀ {l js : List Item}, spelled (l ++ js) = true → spelled js = true
  | [], _, h => h
  | _ :: _, _, h => spelled_right (spelled_cons h).2

theorem spelled_left : ∀ {l js : List Item}, spelled (l ++ js) = true → spelled l = true
  | [], _, _ => rfl
  | [_], _, h => (spelled_cons h).1
  | i :: j :: is, js, h => by
    simp only [List.cons_append, spelled, Bool.and_eq_true] at h ⊢
    exact ⟨h.1, spelled_left (l := j :: is) h.2⟩

theorem ok_of_spelled : ∀ {is : List Item}, spelled is = true → ∀ i ∈ is, i.ok = true
  | [], _, _, hi => by cases hi
  | j :: is, h, i, hi => by
    rcases List.mem_cons.1 hi with rfl | hi
    · exact (spelled_cons h).1
    · exact ok_of_spelled (spelled_cons h).2 i hi

/-- A comment in the last line comes last. -/
theorem isTail_of_spelled : ∀ {l : List Item} {j : Item} {js : List Item}, spelled (l ++ j :: js) = true →
    ∀ i ∈ l, i.isTail = false
  | [], _, _, _, _, hi => by cases hi
  | [k], j, js, h, i, hi => by
    obtain rfl := List.mem_singleton.1 hi
    simp only [List.cons_append, List.nil_append, spelled, Bool.and_eq_true, Bool.not_eq_true'] at h
    exact h.1.1.2
  | k :: l :: is, j, js, h, i, hi => by
    simp only [List.cons_append, spelled, Bool.and_eq_true, Bool.not_eq_true'] at h
    rcases List.mem_cons.1 hi with rfl | hi
    · exact h.1.1.2
    · exact isTail_of_spelled (l := l :: is) h.2 i hi

/-- No identifier goes on after a word. -/
theorem head_after_word {w : Bytes} {is : List Item} (h : spelled (.word w :: is) = true) :
    (render is).head?.any isIdentPart = false := by
  rcases is with _ | ⟨j, is⟩
  · rfl
  have hj := (spelled_cons (spelled_cons h).2).1
  rcases j with c | ⟨t, e⟩ | t | t | w' | w' | _ | _
  · have hspace : Item.isSpace c = true := hj
    show isIdentPart c = false
    grind [Item.isSpace, isIdentPart, isIdentStart, isDigit, chr]
  · exact (by decide : isIdentPart (chr '-') = false)
  · exact (by decide : isIdentPart (chr '-') = false)
  · exact (by decide : isIdentPart (chr '/') = false)
  · simp [spelled, Item.isWord] at h
  · exact (by decide : isIdentPart (chr '"') = false)
  · exact (by decide : isIdentPart (chr ',') = false)
  · exact (by decide : isIdentPart (chr ';') = false)

theorem head_of_cut {p r : Bytes} (hp : p <+: r) (hr : r.head?.any isIdentPart = false) :
    p.head?.any isIdentPart = false := by
  rcases p with _ | ⟨a, p⟩
  · rfl
  · obtain ⟨t, rfl⟩ := hp
    exact hr

/-! ### Blanks have no words -/

theorem lex_blank {i : Item} (hblank : i.blank = true) (hok : i.ok = true) (hleg : i.legible = true)
    (htail : i.isTail = false) (r : Bytes) : lex (i.text ++ r) = lex r := by
  rcases i with c | ⟨t, e⟩ | t | t | w | w | _ | _
  · exact lex_space hok r
  · simp only [Item.ok, Bool.and_eq_true, Bool.not_eq_true'] at hok
    obtain rfl : e = 10 := by simpa [Item.legible] using hleg
    show lex (chr '-' :: chr '-' :: (t ++ [10] ++ r)) = lex r
    rw [lex_line, List.append_assoc, skipLine_append hok.1]
    exact lex_space rfl r
  · cases htail
  · show lex (chr '/' :: chr '*' :: (t ++ r)) = lex r
    rw [lex_block, skipBlock_append 1 t r hok]
  · cases hblank
  · cases hblank
  · cases hblank
  · cases hblank

/-- Blanks that something follows. -/
def Gap (b : List Item) : Prop :=
  ∀ i ∈ b, i.blank = true ∧ i.ok = true ∧ i.legible = true ∧ i.isTail = false

theorem Gap.mono {b b' : List Item} (h : Gap b) (hb : b' <:+ b) : Gap b' := fun i hi => h i (hb.subset hi)

theorem gap_of_spelled {b : List Item} {j : Item} {r : List Item} (hblank : ∀ i ∈ b, i.blank = true)
    (hsp : spelled (b ++ j :: r) = true) (hleg : ∀ i ∈ b ++ j :: r, i.legible = true) : Gap b := fun i hi =>
  ⟨hblank i hi, ok_of_spelled hsp i (List.mem_append_left _ hi), hleg i (List.mem_append_left _ hi),
    isTail_of_spelled hsp i hi⟩

theorem lex_blanks : ∀ {b : List Item}, Gap b → ∀ r : Bytes, lex (render b ++ r) = lex r
  | [], _, _ => rfl
  | i :: b, h, r => by
    obtain ⟨hblank, hok, hleg, htail⟩ := h i List.mem_cons_self
    rw [render_cons, List.append_assoc, lex_blank hblank hok hleg htail,
      lex_blanks (fun j hj => h j (List.mem_cons_of_mem i hj))]

theorem skipLine_cut {p t : Bytes} (h : t.any Item.isNewline = false) (hp : p <+: t) : skipLine p = [] := by
  have hp' : p.any Item.isNewline = false := by
    rw [List.any_eq_false] at h ⊢
    exact fun c hc => h c (hp.subset hc)
  rw [← List.append_nil p, skipLine_append hp']
  rfl

theorem lex_cut_opening {U : CaseTable} {a b : UInt8} {t p : Bytes} (ha : wordsOf U (lex [a]) = [])
    (hp : p <+: a :: b :: t) (h : ∀ p', p' <+: t → wordsOf U (lex (a :: b :: p')) = []) :
    wordsOf U (lex p) = [] := by
  rcases p with _ | ⟨a', _ | ⟨b', p⟩⟩
  · rw [lex_nil]
    rfl
  · obtain ⟨rfl, -⟩ := List.cons_prefix_cons.1 hp
    exact ha
  · obtain ⟨rfl, hp'⟩ := List.cons_prefix_cons.1 hp
    obtain ⟨rfl, hp''⟩ := List.cons_prefix_cons.1 hp'
    exact h p hp''

/-- An item without words that is cut off has no words. -/
theorem lex_cut (U : CaseTable) {i : Item} (hblank : i.blank = true ∨ i = .semi) (hok : i.ok = true)
    (hleg : i.legible = true) {p : Bytes} (hp : p <+: i.text) : wordsOf U (lex p) = [] := by
  have hdash : wordsOf U (lex [chr '-']) = [] := by simp [lex, chr, wordsOf, isIdentStart]
  have hslash : wordsOf U (lex [chr '/']) = [] := by simp [lex, chr, wordsOf, isIdentStart]
  have hsemi : wordsOf U (lex [chr ';']) = [] := by simp [lex, chr, wordsOf, isIdentStart]
  have hnil : wordsOf U (lex []) = [] := by simp [lex_nil, wordsOf]
  rcases i with c | ⟨t, e⟩ | t | t | w | w | _ | _
  · change p <+: [] ++ [c] at hp
    rcases List.prefix_concat_iff.1 hp with rfl | hp
    · rw [List.nil_append, lex_space hok, hnil]
    · rw [List.prefix_nil.1 hp, hnil]
  · simp only [Item.ok, Bool.and_eq_true, Bool.not_eq_true'] at hok
    obtain rfl : e = 10 := by simpa [Item.legible] using hleg
    refine lex_cut_opening hdash hp fun p' hp' => ?_
    rw [lex_line]
    rcases List.prefix_concat_iff.1 hp' with rfl | hp'
    · rw [skipLine_append hok.1, show skipLine [10] = [10] from rfl, lex_space rfl, hnil]
    · rw [skipLine_cut hok.1 hp', hnil]
  · simp only [Item.ok, Bool.not_eq_true'] at hok
    refine lex_cut_opening hdash hp fun p' hp' => ?_
    rw [lex_line, skipLine_cut hok hp', hnil]
  · refine lex_cut_opening hslash hp fun p' hp' => ?_
    rw [lex_block, skipBlock_cut hok hp', hnil]
  · rcases hblank with hblank | hblank <;> cases hblank
  · rcases hblank with hblank | hblank <;> cases hblank
  · rcases hblank with hblank | hblank <;> cases hblank
  · change p <+: [] ++ [chr ';'] at hp
    rcases List.prefix_concat_iff.1 hp with rfl | hp
    · rw [List.nil_append, hsemi]
    · rw [List.prefix_nil.1 hp, hnil]

/-- Items without words, cut off anywhere, have none. -/
theorem lex_wordless (U : CaseTable) : ∀ {is : List Item}, (∀ i ∈ is, i.blank = true ∨ i = .semi) →
    spelled is = true → (∀ i ∈ is, i.legible = true) → ∀ {p : Bytes}, p <+: render is → wordsOf U (lex p) = []
  | [], _, _, _, p, hp => by
    rw [List.prefix_nil.1 hp, lex_nil]
    rfl
  | i :: is, hblank, hsp, hleg, p, hp => by
    have hi := hblank i List.mem_cons_self
    have hok := (spelled_cons hsp).1
    have hil := hleg i List.mem_cons_self
    have ih : ∀ {p : Bytes}, p <+: render is → wordsOf U (lex p) = [] :=
      lex_wordless U (fun j hj => hblank j (List.mem_cons_of_mem i hj)) (spelled_cons hsp).2
        fun j hj => hleg j (List.mem_cons_of_mem i hj)
    rw [render_cons] at hp
    -- the cut is in the first item, or behind it
    obtain ⟨k, hk⟩ := hp
    rcases List.append_eq_append_iff.1 hk with ⟨a, htext, -⟩ | ⟨p', rfl, hp'⟩
    · exact lex_cut U hi hok hil ⟨a, htext.symm⟩
    · have hp' : p' <+: render is := ⟨k, hp'.symm⟩
      rcases hi with hi | rfl
      · by_cases htail : i.isTail = true
        · rcases is with _ | ⟨j, is⟩
          · rw [List.prefix_nil.1 hp', List.append_nil]
            exact lex_cut U (Or.inl hi) hok hil List.prefix_rfl
          · have := isTail_of_spelled (l := [i]) hsp i (List.mem_singleton_self i)
            rw [htail] at this
            cases this
        · rw [lex_blank hi hok hil (by simpa using htail), ih hp']
      · have hsemi : lex (chr ';' :: p') = .other :: lex p' := by
          rw [lex]
          simp [chr, isIdentStart]
        show wordsOf U (lex (chr ';' :: p')) = []
        rw [hsemi]
        exact ih hp'

/-! ### Keywords -/

def letter (c : UInt8) : Bool := (65 ≤ c && c ≤ 90) || (97 ≤ c && c ≤ 122)

theorem letter_facts : ∀ c, letter c = true → isIdentStart c = true ∧ isIdentPart c = true ∧ stops c = true ∧
    c.toNat < 128 :=
  forall_byte (by decide +kernel)

theorem letter_of_fold {w : Bytes} (h : (fold w).all letter = true) : ∀ c ∈ w, letter c = true := by
  intro c hc
  have hall := List.all_eq_true.1 h _ (List.mem_map_of_mem hc)
  exact forall_byte (p := fun c => letter (if 65 ≤ c ∧ c ≤ 90 then c + 32 else c) = true → letter c = true)
    (by decide +kernel) c hall

theorem toLower_letters (U : CaseTable) : ∀ {w : Bytes}, (∀ c ∈ w, letter c = true) → toLower U w = fold w
  | [], _ => by
    unfold toLower
    rw [mapRunes]
    rfl
  | c :: w, h => by
    have hc := letter_facts c (h c List.mem_cons_self)
    rw [toLower_cons U hc.2.2.2, toLower_letters U fun d hd => h d (List.mem_cons_of_mem c hd)]
    rfl

/-- `w` is the keyword `k`, in some case. -/
structure Spells (w k : Bytes) : Prop where
  folds : fold w = k
  ne_nil : k ≠ []
  letters : k.all letter = true

theorem Spells.letter {w k : Bytes} (h : Spells w k) : ∀ c ∈ w, letter c = true :=
  letter_of_fold (by rw [h.folds]; exact h.letters)

theorem Spells.exists_cons {w k : Bytes} (h : Spells w k) : ∃ a u, w = a :: u := by
  rcases w with _ | ⟨a, u⟩
  · exact absurd h.folds.symm h.ne_nil
  · exact ⟨a, u, rfl⟩

theorem words_keyword (U : CaseTable) {w k r : Bytes} (h : Spells w k) (hr : r.head?.any isIdentPart = false) :
    wordsOf U (lex (w ++ r)) = k :: wordsOf U (lex r) := by
  have hletters := h.letter
  obtain ⟨a, u, rfl⟩ := h.exists_cons
  rw [lex_word (letter_facts a (hletters a List.mem_cons_self)).1
    (fun b hb => (letter_facts b (hletters b (List.mem_cons_of_mem a hb))).2.1) hr]
  show toLower U (a :: u) :: wordsOf U (lex r) = _
  rw [toLower_letters U hletters, h.folds]

/-- The keywords a statement can begin with. -/
def leads : List Bytes := List.map bytes
  ["begin", "start", "commit", "end", "rollback", "abort", "savepoint", "release"]

theorem lead_mem (s : Stmt) : s.lead ∈ leads := by
  rcases s with ⟨_, _⟩ | _ | ⟨_ | _ | _ | _, _, _⟩ | _ | _ | ⟨_, _⟩ <;> simp [Stmt.lead, Verb.keyword, leads]

theorem spells_lead {s : Stmt} {w : Bytes} (h : fold w = s.lead) : Spells w s.lead := by
  obtain ⟨hne, hletters⟩ := (by decide : ∀ k ∈ leads, k ≠ [] ∧ k.all letter = true) s.lead (lead_mem s)
  exact ⟨h, hne, hletters⟩

theorem reads_kw : ∀ {is : List Item} {ss : List Sym} {k : Bytes}, reads (.kw k :: ss) is = true →
    ∃ b w is', is = b ++ .word w :: is' ∧ (∀ i ∈ b, i.blank = true) ∧ fold w = k ∧ reads ss is' = true
  | [], _, _, h => by simp [reads] at h
  | i :: is, ss, k, h => by
    unfold reads at h
    by_cases hi : i.blank = true
    · rw [if_pos hi] at h
      obtain ⟨b, w, is', rfl, hb, hw, hrest⟩ := reads_kw h
      refine ⟨i :: b, w, is', rfl, fun j hj => ?_, hw, hrest⟩
      rcases List.mem_cons.1 hj with rfl | hj
      · exact hi
      · exact hb j hj
    · rw [if_neg hi] at h
      obtain ⟨hi', hrest⟩ := Bool.and_eq_true_iff.1 h
      rcases i with c | ⟨t, e⟩ | t | t | w | w | _ | _
      · cases hi'
      · cases hi'
      · cases hi'
      · cases hi'
      · exact ⟨[], w, is, rfl, by simp, by simpa [Sym.reads] using hi', hrest⟩
      · cases hi'
      · cases hi'
      · cases hi'

theorem reads_nil : ∀ {is : List Item}, reads [] is = true → ∀ i ∈ is, i.blank = true
  | [], _, _, hi => by cases hi
  | j :: is, h, i, hi => by
    unfold reads at h
    by_cases hj : j.blank = true
    · rw [if_pos hj] at h
      rcases List.mem_cons.1 hi with rfl | hi
      · exact hj
      · exact reads_nil h i hi
    · rw [if_neg hj] at h
      cases h

/-! ### Trimmed texts -/

/-- The text begins and ends with a visible byte. -/
def Solid (x : Bytes) : Prop := ∃ a u m b, x = a :: u ∧ x = m ++ [b] ∧ stops a = true ∧ stops b = true

theorem Solid.append {x z : Bytes} (hx : Solid x) (hz : Solid z) (y : Bytes) : Solid (x ++ y ++ z) := by
  obtain ⟨a, u, -, -, rfl, -, ha, -⟩ := hx
  obtain ⟨-, -, m, b, -, rfl, -, hb⟩ := hz
  exact ⟨a, u ++ y ++ (m ++ [b]), a :: u ++ y ++ m, b, by simp, by simp, ha, hb⟩

theorem solid_keyword {w k : Bytes} (h : Spells w k) : Solid w := by
  have hletters := h.letter
  obtain ⟨a, u, rfl⟩ := h.exists_cons
  obtain ⟨m, b, hm⟩ := List.eq_nil_or_concat (a :: u) |>.resolve_left (List.cons_ne_nil a u)
  refine ⟨a, u, m, b, rfl, by simpa using hm, (letter_facts a (hletters a List.mem_cons_self)).2.2.1, ?_⟩
  exact (letter_facts b (hletters b (by rw [hm]; simp))).2.2.1

theorem render_word (w : Bytes) : render [.word w] = w := by
  simp [render, Item.text]

/-- `T` is the text of the items, but for white space missing at the ends. -/
def Cut (is : List Item) (T : Bytes) : Prop :=
  ∀ b u r, is = b ++ u ++ r → (∀ i ∈ b, i.blank = true) → Solid (render u) →
    ∃ b' r', b' <:+ b ∧ r' <+: render r ∧ T = render b' ++ render u ++ r'

theorem cut_render (is : List Item) : Cut is (render is) := by
  rintro b u r rfl - -
  exact ⟨b, render r, List.suffix_rfl, List.prefix_rfl, by rw [render_append, render_append]⟩

theorem isSpace_iff (c : UInt8) : Item.isSpace c = true ↔ c = 32 ∨ (9 ≤ c ∧ c ≤ 13) := by
  simp only [Item.isSpace, Bool.or_eq_true, Bool.and_eq_true, decide_eq_true_eq, beq_iff_eq]

theorem trimWords_blanks : ∀ {b : List Item}, (∀ i ∈ b, i.blank = true) → (∀ i ∈ b, i.ok = true) →
    ∃ b', b' <:+ b ∧ trimWords spaces (render b) = render b'
  | [], _, _ => ⟨[], List.suffix_rfl, by rw [show render [] = [] from rfl, trimWords]⟩
  | i :: b, hblank, hok => by
    rcases i with c | ⟨t, e⟩ | t | t | w | w | _ | _
    · obtain ⟨b', hb', htrim⟩ := trimWords_blanks (fun j hj => hblank j (List.mem_cons_of_mem _ hj))
        fun j hj => hok j (List.mem_cons_of_mem _ hj)
      refine ⟨b', hb'.trans (List.suffix_cons _ b), ?_⟩
      rw [← htrim]
      exact trimWords_space ((isSpace_iff c).mp (hok _ List.mem_cons_self)) (render b)
    · exact ⟨_, List.suffix_rfl, trimWords_stops (by decide) _⟩
    · exact ⟨_, List.suffix_rfl, trimWords_stops (by decide) _⟩
    · exact ⟨_, List.suffix_rfl, trimWords_stops (by decide) _⟩
    all_goals cases hblank _ List.mem_cons_self

theorem cut_trimSpace {is : List Item} (hok : ∀ i ∈ is, i.ok = true) : Cut is (trimSpace (render is)) := by
  rintro b u r rfl hblank ⟨a, v, m, d, hav, hmd, ha, hd⟩
  obtain ⟨b', hb', htrim⟩ := trimWords_blanks hblank fun i hi => hok i (by simp [hi])
  obtain ⟨r', hr', heq⟩ := trimSpace_append ha hd (render b) v (render r) (hav.symm.trans hmd)
  refine ⟨b', r', hb', hr', ?_⟩
  rw [render_append, render_append, hav, heq, htrim]

/-- Trimming leaves no word where there was none. -/
theorem trimSpace_wordless (U : CaseTable) {l : List Item} (hblank : ∀ i ∈ l, i.blank = true)
    (hsp : spelled l = true) (hleg : ∀ i ∈ l, i.legible = true) : wordsOf U (lex (trimSpace (render l))) = [] := by
  obtain ⟨b, ⟨k, hk⟩, htrim⟩ := trimWords_blanks hblank (ok_of_spelled hsp)
  have hmem : ∀ i ∈ b, i ∈ l := fun i hi => by
    rw [← hk]
    exact List.mem_append_right k hi
  refine lex_wordless U (fun i hi => Or.inl (hblank i (hmem i hi))) (spelled_right (l := k) (by rw [hk]; exact hsp))
    (fun i hi => hleg i (hmem i hi)) ?_
  rw [← htrim]
  exact trimSpace_start (render l)

/-! ### How a query begins -/

theorem trimWords_head {s : Bytes} {c : UInt8} {t : Bytes} (h : trimWords spaces s = c :: t) :
    Item.isSpace c = false := by
  by_contra hspace
  rw [Bool.not_eq_false] at hspace
  -- the trimmed text would be trimmed further
  have hmore : ∀ s, trimWords spaces (trimWords spaces s) = trimWords spaces s := by
    intro s
    fun_induction trimWords spaces s with
    | case1 => rw [trimWords]
    | case2 b u w _ ih => exact ih
    | case3 b u hnone => rw [trimWords, hnone]
  have hlen := (trimWords_suffix spaces t).length_le
  have heq := hmore s
  rw [h, trimWords_space ((isSpace_iff _).mp hspace)] at heq
  rw [heq, List.length_cons] at hlen
  omega

/-- How a query can begin: not at all, with a comment or a semicolon, or with
the keyword of a statement. -/
def Starts (T : Bytes) : Prop :=
  T = [] ∨ (∃ c t, T = c :: t ∧ (c = chr '-' ∨ c = chr '/' ∨ c = chr ';')) ∨ ∃ w r, T = w ++ r ∧ fold w ∈ leads

/-- Blanks that trimming leaves in front begin with a comment. -/
theorem starts_of_blanks {x z : Bytes} {b : List Item} (hblank : ∀ i ∈ b, i.blank = true)
    (hok : ∀ i ∈ b, i.ok = true) (h : trimSpace x <+: render b ++ z) (hz : b = [] → Starts (trimSpace x)) :
    Starts (trimSpace x) := by
  rcases b with _ | ⟨i, b⟩
  · exact hz rfl
  rcases hx : trimSpace x with _ | ⟨c, t⟩
  · exact Or.inl rfl
  refine Or.inr (Or.inl ⟨c, t, rfl, ?_⟩)
  rw [hx, render_cons, List.append_assoc] at h
  rcases i with d | ⟨u, e⟩ | u | u | w | w | _ | _
  · obtain ⟨rfl, -⟩ := List.cons_prefix_cons.1 h
    obtain ⟨k, hk⟩ := trimSpace_start x
    rw [hx, List.cons_append] at hk
    have hspace := hok _ List.mem_cons_self
    rw [Item.ok, trimWords_head hk.symm] at hspace
    cases hspace
  · exact Or.inl (List.cons_prefix_cons.1 h).1
  · exact Or.inl (List.cons_prefix_cons.1 h).1
  · exact Or.inr (Or.inl (List.cons_prefix_cons.1 h).1)
  all_goals cases hblank _ List.mem_cons_self

theorem joined_cons (p : Segment) (ps : List Segment) :
    ∃ rest, joined (p :: ps) = p.items ++ rest ∧ (ps = [] ∧ rest = [] ∨ rest = .semi :: joined ps) := by
  rcases ps with _ | ⟨q, ps⟩
  · exact ⟨[], (List.append_nil p.items).symm, Or.inl ⟨rfl, rfl⟩⟩
  · exact ⟨.semi :: joined (q :: ps), rfl, Or.inr rfl⟩

theorem text_starts (q : Query) : Starts (trimSpace q.text) := by
  have hok := ok_of_spelled q.spelled
  have hcut : Cut (joined q.segments) (trimSpace q.text) := cut_trimSpace hok
  have htext : q.text = render (joined q.segments) := rfl
  rcases hsegs : q.segments with _ | ⟨p, ps⟩ <;> rw [hsegs] at hok hcut htext
  · rw [htext]
    exact Or.inl (by decide +kernel)
  obtain ⟨rest, hjoined, hrest⟩ := joined_cons p ps
  rw [hjoined] at hok hcut htext
  have hreads := p.reads
  rcases hstmt : p.stmt with _ | s <;> rw [hstmt] at hreads
  · have hblank := reads_nil hreads
    have hblank' : ∀ {b}, b <:+ p.items → ∀ i ∈ b, i.blank = true := fun hb i hi => hblank i (hb.subset hi)
    have hok' : ∀ {b}, b <:+ p.items → ∀ i ∈ b, i.ok = true := fun hb i hi =>
      hok i (List.mem_append_left rest (hb.subset hi))
    rcases hrest with ⟨-, rfl⟩ | rfl
    · obtain ⟨b, hb, htrim⟩ := trimWords_blanks hblank (hok' List.suffix_rfl)
      have hpre : trimSpace q.text <+: render b ++ [] := by
        rw [List.append_nil, ← htrim, htext, List.append_nil]
        exact trimSpace_start _
      refine starts_of_blanks (hblank' hb) (hok' hb) hpre ?_
      rintro rfl
      exact Or.inl (List.prefix_nil.1 hpre)
    · obtain ⟨b, r, hb, -, hT⟩ := hcut p.items [.semi] (joined ps) (by simp) hblank
        ⟨chr ';', [], [], chr ';', rfl, rfl, by decide, by decide⟩
      refine starts_of_blanks (hblank' hb) (hok' hb) ⟨[], by rw [hT, List.append_nil, List.append_assoc]⟩ ?_
      rintro rfl
      exact Or.inr (Or.inl ⟨chr ';', r, hT, Or.inr (Or.inr rfl)⟩)
  · obtain ⟨b₀, w, is', hitems, hblank, hw, -⟩ := reads_kw hreads
    rw [hitems] at hok hcut
    obtain ⟨b, r, hb, -, hT⟩ := hcut b₀ [.word w] (is' ++ rest) (by simp) hblank (by
      rw [render_word]
      exact solid_keyword (spells_lead hw))
    refine starts_of_blanks (fun i hi => hblank i (hb.subset hi)) (fun i hi => hok i (by simp [hb.subset hi]))
      ⟨[], by rw [hT, List.append_nil, List.append_assoc]⟩ ?_
    rintro rfl
    rw [render_word] at hT
    exact Or.inr (Or.inr ⟨w, r, hT, by rw [hw]; exact lead_mem s⟩)

end PgShadow.TxControl
