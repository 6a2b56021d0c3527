/-
# Matching and replacing outside the literals

What the guard computes of a text, in terms of its reading. A pattern that has the
delimiters of literals as walls is found in the stripped copy if it is found outside
the literals or within a tag (`Scanned.found_strip`). `replaceOutsideStrings` replaces
its matches outside the literals (`Scanned.replaceOutside`), and so does the plain
replacement where stripping changes nothing, unless a tag matches
(`Scanned.replaceAll`).

Key definitions: `IsDelimiter`, `tagsOf`.
Key theorems: `Scanned.found_strip`, `Scanned.replaceOutside`, `Scanned.replaceAll`.
-/
import PgShadow.Replayguard.Literals

namespace PgShadow

/-! ### Steps of the loops -/

theorem stripFrom_outside {b : UInt8} {t : Bytes} (hb : b ≠ 39) (htag : parseDollarTag (b :: t) = []) :
    stripFrom false (b :: t) = b :: stripFrom false t := by
  rw [stripFrom, if_neg Bool.false_ne_true, if_neg hb]
  dsimp only
  rw [if_pos htag]

theorem stripFrom_quote {lit : Bytes} (h : Closes lit) {rest : Bytes} (hrest : rest.head? ≠ some 39) :
    stripFrom true (lit ++ rest) = 39 :: stripFrom false rest := by
  induction h with
  | close => rw [List.singleton_append, stripFrom, if_pos rfl, if_pos rfl, if_neg hrest]
  | escaped _ ih =>
    rw [List.cons_append, stripFrom, if_pos rfl, if_pos rfl, List.cons_append, List.head?_cons, if_pos rfl,
      List.drop_one, List.tail_cons, ih]
  | byte hb _ ih => rw [List.cons_append, stripFrom, if_pos rfl, if_neg hb, ih]

theorem stripFrom_literal {lit : Bytes} (hlit : Closes lit) {rest : Bytes} (hrest : rest.head? ≠ some 39) :
    stripFrom false (39 :: (lit ++ rest)) = 39 :: 39 :: stripFrom false rest := by
  rw [stripFrom, if_neg Bool.false_ne_true, if_pos rfl, stripFrom_quote hlit hrest]

section Replace

variable (pat : Regexp) (rep : Bytes)

theorem replaceFrom_outside {b : UInt8} {t : Bytes} (hb : b ≠ 39) (htag : parseDollarTag (b :: t) = []) (seg : Bytes) :
    replaceFrom pat rep false seg (b :: t) = replaceFrom pat rep false (seg ++ [b]) t := by
  rw [replaceFrom, if_neg Bool.false_ne_true, if_neg hb]
  dsimp only
  rw [if_pos htag]

theorem replaceFrom_quote {lit : Bytes} (h : Closes lit) {rest : Bytes} (hrest : rest.head? ≠ some 39) (seg : Bytes) :
    replaceFrom pat rep true seg (lit ++ rest) = seg ++ (lit ++ replaceFrom pat rep false [] rest) := by
  induction h generalizing seg with
  | close =>
    rw [List.singleton_append, replaceFrom, if_pos rfl, if_pos rfl, if_neg hrest]
    rfl
  | escaped _ ih =>
    rw [List.cons_append, replaceFrom, if_pos rfl, if_pos rfl, List.cons_append, List.head?_cons, if_pos rfl,
      List.drop_one, List.tail_cons, ih, List.append_assoc]
    rfl
  | byte hb _ ih =>
    rw [List.cons_append, replaceFrom, if_pos rfl, if_neg hb, ih, List.append_assoc]
    rfl

theorem replaceFrom_dollar {tag body rest : Bytes} (h : IsDollar tag body rest) (seg : Bytes) :
    replaceFrom pat rep false seg (tag ++ (body ++ (tag ++ rest))) =
      pat.replaceAllString seg rep ++ (tag ++ (body ++ (tag ++ replaceFrom pat rep false [] rest))) := by
  obtain ⟨t, ht, hparse, hdrop⟩ := h.front
  rw [ht, replaceFrom, if_neg Bool.false_ne_true, if_neg (by decide), hparse]
  dsimp only
  rw [if_neg h.ne_nil, hdrop, h.index]
  dsimp only
  rw [← List.append_assoc body, ← List.length_append, List.drop_left, List.append_assoc body, List.take_left]
  simp only [List.append_assoc]

end Replace

theorem stripFrom_dollar {tag body rest : Bytes} (h : IsDollar tag body rest) :
    stripFrom false (tag ++ (body ++ (tag ++ rest))) = tag ++ (tag ++ stripFrom false rest) := by
  obtain ⟨t, ht, hparse, hdrop⟩ := h.front
  rw [ht, stripFrom, if_neg Bool.false_ne_true, if_neg (by decide), hparse]
  dsimp only
  rw [if_neg h.ne_nil, hdrop, h.index]
  dsimp only
  rw [← List.append_assoc body, ← List.length_append, List.drop_left, List.append_assoc]

/-! ### Runes -/

theorem Scanned.rune_inv {bs : Bytes} {r : ℕ} {t : List Glyph} (h : Scanned (.rune bs r :: t)) : ∃ b bs',
    bs = b :: bs' ∧ b ≠ 39 ∧ parseDollarTag (b :: (bs' ++ textOf t)) = [] ∧
      decodeRune (b :: (bs' ++ textOf t)) = (r, bs'.length + 1) ∧ Scanned t := by
  generalize hu : Glyph.rune bs r :: t = u at h
  cases h with
  | nil => cases hu
  | rune hb htag hdecode ht =>
    cases hu
    exact ⟨_, _, rfl, hb, htag, hdecode, ht⟩
  | quote => cases hu
  | dollar => cases hu

/-- A byte that opens no literal. -/
def IsPlain (b : UInt8) : Prop := b ≠ 39 ∧ b ≠ 36

instance (b : UInt8) : Decidable (IsPlain b) := inferInstanceAs (Decidable (_ ∧ _))

theorem stripFrom_plain (t : Bytes) : ∀ {bs : Bytes}, (∀ x ∈ bs, IsPlain x) →
    stripFrom false (bs ++ t) = bs ++ stripFrom false t
  | [], _ => rfl
  | b :: bs, h => by
    obtain ⟨hb, hbs⟩ := List.forall_mem_cons.mp h
    rw [List.cons_append, stripFrom_outside hb.1 (parseDollarTag_ne hb.2 _), stripFrom_plain t hbs, List.cons_append]

theorem replaceFrom_plain (pat : Regexp) (rep t : Bytes) : ∀ {bs : Bytes}, (∀ x ∈ bs, IsPlain x) → ∀ seg : Bytes,
    replaceFrom pat rep false seg (bs ++ t) = replaceFrom pat rep false (seg ++ bs) t
  | [], _, seg => by rw [List.nil_append, List.append_nil]
  | b :: bs, h, seg => by
    obtain ⟨hb, hbs⟩ := List.forall_mem_cons.mp h
    rw [List.cons_append, replaceFrom_outside pat rep hb.1 (parseDollarTag_ne hb.2 _), replaceFrom_plain pat rep t hbs,
      List.append_assoc, List.singleton_append]

/-- The bytes of a rune after its first one open no literal. -/
theorem plain_of_decode {b : UInt8} {bs t : Bytes} {r : ℕ} (h : decodeRune (b :: (bs ++ t)) = (r, bs.length + 1)) :
    ∀ x ∈ bs, IsPlain x := by
  have htail := decodeRune_tail b (bs ++ t)
  rw [h, Nat.add_sub_cancel, List.take_left] at htail
  intro x hx
  constructor
  · rintro rfl
    exact absurd (htail 39 hx) (by decide)
  · rintro rfl
    exact absurd (htail 36 hx) (by decide)

theorem Scanned.strip_rune {bs : Bytes} {r : ℕ} {t : List Glyph} (h : Scanned (.rune bs r :: t)) :
    stripFrom false (bs ++ textOf t) = bs ++ stripFrom false (textOf t) := by
  obtain ⟨b, bs', rfl, hb, htag, hdecode, -⟩ := h.rune_inv
  rw [List.cons_append, stripFrom_outside hb htag, stripFrom_plain _ (plain_of_decode hdecode), List.cons_append]

theorem Scanned.replace_rune (pat : Regexp) (rep : Bytes) {bs : Bytes} {r : ℕ} {t : List Glyph}
    (h : Scanned (.rune bs r :: t)) (seg : Bytes) :
    replaceFrom pat rep false seg (bs ++ textOf t) = replaceFrom pat rep false (seg ++ bs) (textOf t) := by
  obtain ⟨b, bs', rfl, hb, htag, hdecode, -⟩ := h.rune_inv
  rw [List.cons_append, replaceFrom_outside pat rep hb htag, replaceFrom_plain pat rep _ (plain_of_decode hdecode),
    List.append_assoc, List.singleton_append]

/-- **Runes before a literal** are those of their own text. -/
theorem Scanned.chunks_eq {t : List Glyph} (ht : ∀ x ∈ (textOf t).head?, startsRune x) : ∀ {g : List Glyph},
    (∀ x ∈ g, x.isRune = true) → Scanned (g ++ t) → chunks (textOf g) = g.map fun x => (x.text, x.value)
  | [], _, _ => by rw [textOf_nil, chunks, List.map_nil]
  | .raw b :: g, hg, _ => absurd (hg _ List.mem_cons_self) Bool.false_ne_true
  | .tag bs :: g, hg, _ => absurd (hg _ List.mem_cons_self) Bool.false_ne_true
  | .rune bs r :: g, hg, h => by
    rw [List.cons_append] at h
    obtain ⟨b, bs', rfl, -, -, hdecode, hrest⟩ := h.rune_inv
    have hdecode' : decodeRune (b :: (bs' ++ textOf g)) = (r, bs'.length + 1) := by
      rw [textOf_append] at hdecode
      rcases htext : textOf t with _ | ⟨x, v⟩
      · rwa [htext, List.append_nil] at hdecode
      · have hx := ht x (by rw [htext]; rfl)
        rwa [htext, ← List.append_assoc, decodeRune_append b (bs' ++ textOf g) hx v] at hdecode
    rw [textOf_cons, Glyph.text, List.cons_append, chunks, hdecode']
    dsimp only
    rw [Nat.add_sub_cancel, List.take_left, List.drop_left,
      Scanned.chunks_eq ht (fun x hx => hg x (List.mem_cons_of_mem _ hx)) hrest]
    rfl

theorem IsDollar.head {tag body rest : Bytes} (h : IsDollar tag body rest) :
    ∀ x ∈ (tag ++ (body ++ (tag ++ rest))).head?, startsRune x := by
  obtain ⟨t, ht, -, -⟩ := h.front
  rw [ht]
  intro x hx
  cases hx
  decide

/-- Runes up to the end of the text or to a literal. -/
structure RuneRun (g t : List Glyph) : Prop where
  runes : ∀ x ∈ g, x.isRune = true
  ends : ∀ x ∈ (textOf t).head?, startsRune x
  scanned : Scanned (g ++ t)

theorem RuneRun.chunks_eq {g t : List Glyph} (h : RuneRun g t) :
    chunks (textOf g) = g.map fun x => (x.text, x.value) :=
  Scanned.chunks_eq h.ends h.runes h.scanned

theorem RuneRun.runes_eq {g t : List Glyph} (h : RuneRun g t) : PgShadow.runes (textOf g) = valuesOf g := by
  rw [← map_chunks, h.chunks_eq, List.map_map]
  rfl

theorem textOf_concat (g : List Glyph) (bs : Bytes) (r : ℕ) : textOf (g ++ [Glyph.rune bs r]) = textOf g ++ bs := by
  rw [textOf_append, textOf_cons, textOf_nil, List.append_nil, Glyph.text]

/-- **Induction along a text**: `g` are the runes since the last literal. -/
theorem Scanned.run_induction {P : List Glyph → List Glyph → Prop}
    (nil : ∀ {g : List Glyph}, RuneRun g [] → P g [])
    (rune : ∀ {g : List Glyph} {bs : Bytes} {r : ℕ} {t : List Glyph}, Scanned (.rune bs r :: t) →
      P (g ++ [.rune bs r]) t → P g (.rune bs r :: t))
    (quote : ∀ {g : List Glyph} {lit : Bytes} {t : List Glyph}, Closes lit → (textOf t).head? ≠ some 39 → Scanned t →
      RuneRun g (raws (39 :: lit) ++ t) → P [] t → P g (raws (39 :: lit) ++ t))
    (dollar : ∀ {g : List Glyph} {tag body : Bytes} {t : List Glyph}, IsDollar tag body (textOf t) → Scanned t →
      RuneRun g (.tag tag :: (raws body ++ .tag tag :: t)) → P [] t →
        P g (.tag tag :: (raws body ++ .tag tag :: t)))
    {t : List Glyph} (h : Scanned t) : P [] t := by
  have hall : ∀ {g : List Glyph}, (∀ x ∈ g, x.isRune = true) → Scanned (g ++ t) → P g t := by
    induction h with
    | nil => exact fun hg h => nil ⟨hg, by simp, h⟩
    | @rune b bs r t hb htag hdecode ht ih =>
      -- the rune joins the runes before it
      intro g hg h
      refine rune (.rune hb htag hdecode ht) (ih ?_ (by simpa using h))
      intro x hx
      rcases List.mem_append.mp hx with hx | hx
      · exact hg x hx
      · rw [List.mem_singleton.mp hx]
        rfl
    | @quote lit t hlit hhead ht ih =>
      intro g hg h
      exact quote hlit hhead ht ⟨hg, by rw [textOf_quote]; simpa using .inl (by decide), h⟩ (ih (by simp) ht)
    | @dollar tag body t hdollar ht ih =>
      intro g hg h
      exact dollar hdollar ht ⟨hg, by rw [textOf_dollar]; exact hdollar.head, h⟩ (ih (by simp) ht)
  exact hall (by simp) h

/-! ### The stripped copy of a text -/

/-- A text without quotes is stripped of nothing. -/
theorem stripFrom_of_no_quotes : ∀ {s : Bytes}, hasQuotes s = false → stripFrom false s = s
  | [], _ => by rw [stripFrom]
  | b :: t, h => by
    rw [hasQuotes, hasDollarQuote, List.contains_cons, Bool.or_eq_false_iff, Bool.or_eq_false_iff,
      Bool.or_eq_false_iff, decide_eq_false_iff_not, not_not] at h
    obtain ⟨⟨hb, ht⟩, htag, hdollar⟩ := h
    have hrest : hasQuotes t = false := by rw [hasQuotes, ht, hdollar, Bool.or_false]
    rw [stripFrom_outside (fun he => by rw [he] at hb; cases hb) htag, stripFrom_of_no_quotes hrest]

theorem strippedOf_eq (s : Bytes) : strippedOf s = stripStringLiterals s := by
  rw [strippedOf]
  split
  · rfl
  · exact (stripFrom_of_no_quotes (Bool.eq_false_of_not_eq_true ‹_›)).symm

/-- **Text after a closed text** is stripped on its own, if it ends no tag. -/
theorem Scanned.strip_append {t : List Glyph} (h : Scanned t) {v : Bytes} (hquote : v.head? ≠ some 39)
    (htag : (v.dropWhile isTagByte).head? ≠ some 36) :
    stripFrom false (textOf t ++ v) = stripFrom false (textOf t) ++ stripFrom false v := by
  induction h with
  | nil => rw [textOf_nil, List.nil_append, stripFrom, List.nil_append]
  | @rune b bs r t hb hparse hdecode ht ih =>
    have hrune := Scanned.rune hb hparse hdecode ht
    have hfront := parseDollarTag_append hparse htag
    rw [List.append_assoc] at hfront
    rw [textOf_cons, Glyph.text, hrune.strip_rune, List.append_assoc, List.cons_append, stripFrom_outside hb hfront,
      stripFrom_plain _ (plain_of_decode hdecode), ih, List.append_assoc, List.cons_append]
  | @quote lit t hlit hhead _ ih =>
    have hhead' : (textOf t ++ v).head? ≠ some 39 := by
      rw [List.head?_append]
      rcases hc : (textOf t).head? with _ | c
      · exact hquote
      · rw [Option.some_or, ← hc]
        exact hhead
    rw [textOf_quote, List.cons_append, List.append_assoc, stripFrom_literal hlit hhead', ih,
      stripFrom_literal hlit hhead]
    rfl
  | @dollar tag body t hdollar _ ih =>
    rw [textOf_dollar, List.append_assoc, List.append_assoc, List.append_assoc,
      stripFrom_dollar (hdollar.other (textOf t ++ v)), ih, stripFrom_dollar hdollar, List.append_assoc,
      List.append_assoc]

theorem Closes.getLast {lit : Bytes} (h : Closes lit) : lit.getLast? = some 39 := by
  induction h with
  | close => rfl
  | escaped _ ih => rw [List.getLast?_cons, List.getLast?_cons, ih]; rfl
  | byte _ _ ih => rw [List.getLast?_cons, ih]; rfl

/-- The last byte of a closed text stays the last one. -/
theorem Scanned.getLast_strip {t : List Glyph} (h : Scanned t) :
    (stripFrom false (textOf t)).getLast? = (textOf t).getLast? := by
  induction h with
  | nil => rw [textOf_nil, stripFrom]
  | @rune b bs r t hb hparse hdecode ht ih =>
    rw [textOf_cons, Glyph.text, (Scanned.rune hb hparse hdecode ht).strip_rune, List.getLast?_append, ih,
      ← List.getLast?_append]
  | @quote lit t hlit hhead _ ih =>
    rw [textOf_quote, stripFrom_literal hlit hhead, List.getLast?_cons, List.getLast?_cons, ih, List.getLast?_cons,
      List.getLast?_append, hlit.getLast]
    rcases (textOf t).getLast? with _ | c <;> rfl
  | @dollar tag body t hdollar _ ih =>
    rw [textOf_dollar, stripFrom_dollar hdollar]
    simp only [List.getLast?_append, ih]
    rcases (textOf t).getLast? with _ | c
    · rcases htag : tag.getLast? with _ | c
      · exact absurd (List.getLast?_eq_none_iff.mp htag) hdollar.ne_nil
      · rfl
    · rfl

/-! ### Patterns -/

/-- The delimiters of literals. -/
def IsDelimiter (x : ℕ) : Prop := x = 36 ∨ x = 39

/-- The dollar tags of a reading. -/
def tagsOf (t : List Glyph) : List Bytes :=
  t.filterMap fun
    | .tag bs => some bs
    | _ => none

/-- The tag without its dollars. -/
def tagName (tag : Bytes) : Bytes := (tag.drop 1).dropLast

variable {r : Regex ℕ} (hr : r.Walled IsDelimiter)

include hr

theorem found_nil : r.found [] = false := by
  rw [Regex.found, Regex.foundFrom, ← Regex.matchLen_isSome, hr.matchLen_nil]
  rfl

theorem found_delimiter {x : ℕ} (hx : IsDelimiter x) (v : List ℕ) : r.found (x :: v) = r.found v := by
  have happ := hr.found_append hx [] v
  rwa [List.nil_append, found_nil hr, Bool.false_or] at happ

/-- A delimiter in a text parts the search. -/
theorem found_runes_append {x : UInt8} (hx : x = 36 ∨ x = 39) (u v : Bytes) :
    r.found (runes (u ++ x :: v)) = (r.found (runes u) || r.found (runes v)) := by
  rcases hx with rfl | rfl
  · rw [runes_append (by decide), runes_ascii (by decide)]
    exact hr.found_append (.inl rfl) _ _
  · rw [runes_append (by decide), runes_ascii (by decide)]
    exact hr.found_append (.inr rfl) _ _

theorem found_raws (v : List ℕ) : ∀ s : Bytes, r.found (valuesOf (raws s) ++ v) = r.found v
  | [] => rfl
  | _ :: s => (found_delimiter hr (.inr rfl) _).trans (found_raws v s)

/-- What is found before the literal and after it. -/
theorem found_quote (u : List ℕ) (lit : Bytes) (t : List Glyph) :
    r.found (u ++ valuesOf (raws (39 :: lit) ++ t)) = (r.found u || r.found (valuesOf t)) := by
  have hcons : valuesOf (raws (39 :: lit) ++ t) = 39 :: (valuesOf (raws lit) ++ valuesOf t) := valuesOf_append _ _
  rw [hcons, hr.found_append (.inr rfl), found_raws hr]

theorem found_dollar (u : List ℕ) (tag body : Bytes) (t : List Glyph) :
    r.found (u ++ valuesOf (.tag tag :: (raws body ++ .tag tag :: t))) = (r.found u || r.found (valuesOf t)) := by
  have hcons : valuesOf (.tag tag :: (raws body ++ .tag tag :: t)) =
      36 :: (valuesOf (raws body) ++ 36 :: valuesOf t) := congrArg (36 :: ·) (valuesOf_append _ _)
  rw [hcons, hr.found_append (.inl rfl), found_raws hr, found_delimiter hr (.inl rfl)]

omit hr in
theorem tagsOf_quote (lit : Bytes) (t : List Glyph) : tagsOf (raws lit ++ t) = tagsOf t := by
  have hraws : tagsOf (raws lit) = [] := by
    rw [tagsOf, raws, List.filterMap_map, List.filterMap_eq_nil_iff]
    exact fun _ _ => rfl
  rw [tagsOf, List.filterMap_append]
  exact congrArg (· ++ tagsOf t) hraws

omit hr in
theorem tagsOf_dollar (tag body : Bytes) (t : List Glyph) :
    tagsOf (.tag tag :: (raws body ++ .tag tag :: t)) = tag :: tag :: tagsOf t :=
  congrArg (tag :: ·) (tagsOf_quote body (.tag tag :: t))

theorem found_tag {tag body rest : Bytes} (h : IsDollar tag body rest) (u v : Bytes) :
    r.found (runes (u ++ (tag ++ v))) =
      (r.found (runes u) || (r.found (runes (tagName tag)) || r.found (runes v))) := by
  obtain ⟨name, rfl, -⟩ := h.tag_eq
  have hname : tagName (36 :: (name ++ [36])) = name := List.dropLast_concat
  have hv : name ++ [36] ++ v = name ++ 36 :: v := List.append_assoc _ _ _
  rw [hname, List.cons_append, found_runes_append hr (.inl rfl), hv, found_runes_append hr (.inl rfl)]

/-- **The stripped copy.** A pattern is found in it if it is found outside the literals or
within a tag. -/
theorem Scanned.found_strip {t : List Glyph} (h : Scanned t) : r.found (runes (stripStringLiterals (textOf t))) =
    (r.found (valuesOf t) || (tagsOf t).any fun tag => r.found (runes (tagName tag))) := by
  refine h.run_induction (P := fun g t => r.found (runes (textOf g ++ stripFrom false (textOf t))) =
    (r.found (valuesOf (g ++ t)) || (tagsOf t).any fun tag => r.found (runes (tagName tag)))) ?_ ?_ ?_ ?_
  · intro g hrun
    rw [textOf_nil, stripFrom, List.append_nil, hrun.runes_eq, List.append_nil]
    exact (Bool.or_false _).symm
  · intro g bs r' t hrune ih
    rw [textOf_concat, List.append_assoc g] at ih
    rw [textOf_cons, Glyph.text, hrune.strip_rune, ← List.append_assoc]
    exact ih
  · intro g lit t hlit hhead ht hrun ih
    rw [textOf_nil, List.nil_append, List.nil_append] at ih
    rw [textOf_quote, stripFrom_literal hlit hhead, found_runes_append hr (.inr rfl), ← List.nil_append (39 :: _),
      found_runes_append hr (.inr rfl), runes, found_nil hr, Bool.false_or, ih, hrun.runes_eq, valuesOf_append g,
      found_quote hr, tagsOf_quote, Bool.or_assoc]
  · intro g tag body t hdollar ht hrun ih
    rw [textOf_nil, List.nil_append, List.nil_append] at ih
    rw [textOf_dollar, stripFrom_dollar hdollar, found_tag hr hdollar, ← List.nil_append (tag ++ stripFrom _ _),
      found_tag hr hdollar, runes, found_nil hr, Bool.false_or, ih, hrun.runes_eq, valuesOf_append g, found_dollar hr,
      tagsOf_dollar, List.any_cons, List.any_cons]
    cases r.found (valuesOf g) <;> cases r.found (valuesOf t) <;> cases r.found (runes (tagName tag)) <;> rfl

/-! ### Replacing -/

variable (r) in
/-- The text of the glyphs with the matches outside the literals replaced. -/
def replaceGlyphs (rep : Bytes) (t : List Glyph) : Bytes := r.replace Glyph.value Glyph.text rep t

theorem replaceGlyphs_nil (rep : Bytes) : replaceGlyphs r rep [] = [] := by
  rw [replaceGlyphs, Regex.replace, Regex.replaceFrom, hr.matchLen_nil]
  rfl

/-- A delimiter parts the replacing. -/
theorem replaceGlyphs_append (rep : Bytes) (g : List Glyph) {x : Glyph} (hx : IsDelimiter x.value) (t : List Glyph) :
    replaceGlyphs r rep (g ++ x :: t) = replaceGlyphs r rep g ++ (x.text ++ replaceGlyphs r rep t) :=
  hr.replace_append hx g t

theorem replaceGlyphs_cons (rep : Bytes) {x : Glyph} (hx : IsDelimiter x.value) (t : List Glyph) :
    replaceGlyphs r rep (x :: t) = x.text ++ replaceGlyphs r rep t := by
  have happ := replaceGlyphs_append hr rep [] hx t
  rwa [List.nil_append, replaceGlyphs_nil hr, List.nil_append] at happ

theorem replaceGlyphs_raws (rep : Bytes) (t : List Glyph) : ∀ s : Bytes,
    replaceGlyphs r rep (raws s ++ t) = s ++ replaceGlyphs r rep t
  | [] => rfl
  | b :: s => (replaceGlyphs_cons hr rep (x := .raw b) (.inr rfl) (raws s ++ t)).trans
      (congrArg (b :: ·) (replaceGlyphs_raws rep t s))

theorem replaceGlyphs_quote (rep : Bytes) (g : List Glyph) (lit : Bytes) (t : List Glyph) :
    replaceGlyphs r rep (g ++ (raws (39 :: lit) ++ t)) =
      replaceGlyphs r rep g ++ 39 :: (lit ++ replaceGlyphs r rep t) := by
  rw [← replaceGlyphs_raws hr]
  exact replaceGlyphs_append hr rep g (x := .raw 39) (.inr rfl) (raws lit ++ t)

theorem replaceGlyphs_dollar (rep : Bytes) (g : List Glyph) (tag body : Bytes) (t : List Glyph) :
    replaceGlyphs r rep (g ++ .tag tag :: (raws body ++ .tag tag :: t)) =
      replaceGlyphs r rep g ++ (tag ++ (body ++ (tag ++ replaceGlyphs r rep t))) := by
  rw [replaceGlyphs_append hr rep g (.inl rfl), replaceGlyphs_raws hr, replaceGlyphs_cons hr rep (.inl rfl)]
  rfl

omit hr in
theorem RuneRun.replaceAllString_eq {g t : List Glyph} (h : RuneRun g t) (rep : Bytes) :
    replaceAllString r (textOf g) rep = replaceGlyphs r rep g := by
  rw [replaceAllString, h.chunks_eq]
  exact Regex.replaceFrom_map r _ _ rep _ true 0 [] g

section Slow

variable {pat : Regexp} (hpat : pat.replaceAllString = replaceAllString r) (rep : Bytes)

include hpat

/-- **Replacing outside the literals.** -/
theorem Scanned.replaceOutside {t : List Glyph} (h : Scanned t) :
    replaceOutsideStrings (textOf t) pat rep = replaceGlyphs r rep t := by
  refine h.run_induction (P := fun g t =>
    replaceFrom pat rep false (textOf g) (textOf t) = replaceGlyphs r rep (g ++ t)) ?_ ?_ ?_ ?_
  · intro g hrun
    rw [textOf_nil, replaceFrom, if_neg Bool.false_ne_true, hpat, hrun.replaceAllString_eq, List.append_nil]
  · intro g bs r' t hrune ih
    rw [textOf_concat, List.append_assoc g] at ih
    rw [textOf_cons, Glyph.text, hrune.replace_rune]
    exact ih
  · intro g lit t hlit hhead ht hrun ih
    rw [textOf_nil, List.nil_append] at ih
    rw [textOf_quote, replaceFrom, if_neg Bool.false_ne_true, if_pos rfl, replaceFrom_quote pat rep hlit hhead, ih,
      hpat, hrun.replaceAllString_eq, replaceGlyphs_quote hr]
    rfl
  · intro g tag body t hdollar ht hrun ih
    rw [textOf_nil, List.nil_append] at ih
    rw [textOf_dollar, replaceFrom_dollar pat rep hdollar, ih, hpat, hrun.replaceAllString_eq, replaceGlyphs_dollar hr]

end Slow

/-! ### Texts that stripping leaves alone -/

omit hr in
theorem Closes.length_pos {lit : Bytes} (h : Closes lit) : 0 < lit.length := by
  cases h <;> exact Nat.succ_pos _

omit hr in
theorem Scanned.length_strip_le {t : List Glyph} (h : Scanned t) :
    (stripFrom false (textOf t)).length ≤ (textOf t).length := by
  induction h with
  | nil => rw [textOf_nil, stripFrom]
  | @rune b bs r' t hb htag hdecode ht ih =>
    rw [textOf_cons, Glyph.text, (Scanned.rune hb htag hdecode ht).strip_rune, List.length_append, List.length_append]
    omega
  | @quote lit t hlit hhead ht ih =>
    have hpos := hlit.length_pos
    rw [textOf_quote, stripFrom_literal hlit hhead]
    simp only [List.length_cons, List.length_append]
    omega
  | @dollar tag body t hdollar ht ih =>
    rw [textOf_dollar, stripFrom_dollar hdollar]
    simp only [List.length_append]
    omega

omit hr in
theorem Closes.eq_close {lit : Bytes} (h : Closes lit) (hlen : lit.length ≤ 1) : lit = [39] := by
  cases h with
  | close => rfl
  | escaped => simp at hlen
  | byte _ ht =>
    have hpos := ht.length_pos
    rw [List.length_cons] at hlen
    omega

/-- A delimiter in a text parts the replacing. -/
theorem replaceAllString_append {x : UInt8} (hx : x = 36 ∨ x = 39) (u v rep : Bytes) :
    replaceAllString r (u ++ x :: v) rep = replaceAllString r u rep ++ x :: replaceAllString r v rep := by
  have hascii : x.toNat < 128 := by rcases hx with rfl | rfl <;> decide
  have hchunks : chunks (x :: v) = ([x], x.toNat) :: chunks v := by
    rw [chunks, decodeRune_ascii hascii]
    rfl
  rw [replaceAllString, chunks_append (.inl hascii), hchunks]
  apply hr.replace_append
  rcases hx with rfl | rfl
  · exact .inl rfl
  · exact .inr rfl

theorem replaceAllString_nil (rep : Bytes) : replaceAllString r [] rep = [] := by
  rw [replaceAllString, chunks, Regex.replace, Regex.replaceFrom, hr.matchLen_nil]
  rfl

theorem replaceAllString_tag {tag body rest : Bytes} (h : IsDollar tag body rest)
    (htag : r.found (runes (tagName tag)) = false) (u v rep : Bytes) :
    replaceAllString r (u ++ (tag ++ v)) rep = replaceAllString r u rep ++ (tag ++ replaceAllString r v rep) := by
  obtain ⟨name, rfl, -⟩ := h.tag_eq
  have hname : tagName (36 :: (name ++ [36])) = name := List.dropLast_concat
  have hv : name ++ [36] ++ v = name ++ 36 :: v := List.append_assoc _ _ _
  rw [hname, ← map_chunks] at htag
  have hkeep : replaceAllString r name rep = name := by
    rw [replaceAllString, Regex.replace_of_not_found r _ _ rep htag, flatMap_chunks]
  rw [List.cons_append, replaceAllString_append hr (.inl rfl), hv, replaceAllString_append hr (.inl rfl), hkeep]
  simp only [List.cons_append, List.append_assoc, List.nil_append]

/-- **Replacing in the whole text** is the same where stripping changes nothing and no tag
matches. -/
theorem Scanned.replaceAll {t : List Glyph} (h : Scanned t) (rep : Bytes)
    (htags : ∀ tag ∈ tagsOf t, r.found (runes (tagName tag)) = false)
    (hstrip : stripStringLiterals (textOf t) = textOf t) :
    replaceAllString r (textOf t) rep = replaceGlyphs r rep t := by
  refine h.run_induction (P := fun g t => (∀ tag ∈ tagsOf t, r.found (runes (tagName tag)) = false) →
    stripFrom false (textOf t) = textOf t →
      replaceAllString r (textOf g ++ textOf t) rep = replaceGlyphs r rep (g ++ t)) ?_ ?_ ?_ ?_ htags hstrip
  · intro g hrun _ _
    rw [textOf_nil, List.append_nil, hrun.replaceAllString_eq, List.append_nil]
  · intro g bs r' t hrune ih htags hstrip
    rw [textOf_cons, Glyph.text, hrune.strip_rune, List.append_cancel_left_eq] at hstrip
    have hih := ih htags hstrip
    rw [textOf_concat, List.append_assoc g] at hih
    rw [textOf_cons, Glyph.text, ← List.append_assoc]
    exact hih
  · -- the literal is empty, for stripping does not make the rest longer
    intro g lit t hlit hhead ht hrun ih htags hstrip
    rw [textOf_quote, stripFrom_literal hlit hhead, List.cons.injEq] at hstrip
    have hlen := congrArg List.length hstrip.2
    rw [List.length_cons, List.length_append] at hlen
    have hle := ht.length_strip_le
    obtain rfl := hlit.eq_close (by omega)
    have hih := ih (by rwa [tagsOf_quote] at htags) (List.cons.inj hstrip.2).2
    rw [textOf_nil, List.nil_append, List.nil_append] at hih
    rw [textOf_quote, replaceAllString_append hr (.inr rfl), List.singleton_append, ← List.nil_append (39 :: textOf t),
      replaceAllString_append hr (.inr rfl), replaceAllString_nil hr, hih, hrun.replaceAllString_eq,
      replaceGlyphs_quote hr]
    rfl
  · intro g tag body t hdollar ht hrun ih htags hstrip
    rw [textOf_dollar, stripFrom_dollar hdollar, List.append_cancel_left_eq] at hstrip
    have hlen := congrArg List.length hstrip
    simp only [List.length_append] at hlen
    have hle := ht.length_strip_le
    obtain rfl : body = [] := List.eq_nil_of_length_eq_zero (by omega)
    rw [List.nil_append, List.append_cancel_left_eq] at hstrip
    rw [tagsOf_dollar] at htags
    have htag := htags tag List.mem_cons_self
    have hih := ih (fun x hx => htags x (List.mem_cons_of_mem _ (List.mem_cons_of_mem _ hx))) hstrip
    rw [textOf_nil, List.nil_append, List.nil_append] at hih
    rw [textOf_dollar, replaceAllString_tag hr hdollar htag, List.nil_append, ← List.nil_append (tag ++ textOf t),
      replaceAllString_tag hr hdollar htag, replaceAllString_nil hr, hih, hrun.replaceAllString_eq,
      replaceGlyphs_dollar hr]

end PgShadow
