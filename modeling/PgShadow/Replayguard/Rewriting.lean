/-
# Literals in a rewritten text

Text outside the literals is replaced by a literal with a cast (`Inserts`). The scanner
then reads the other literals as before (`Rewritten.scanned`): an inserted literal may
touch another one, and the two are read as one, byte for byte the same. A dollar in
front of it opens no tag that it did not open before, and no rune changes next to it.

Key definitions: `Rewritten`, `Inserts`, `outsides`.
Key theorems: `Rewritten.scanned`, `rewritten_shown`, `Scanned.found_outsides`.
-/
import PgShadow.Replayguard.TimeStages

namespace PgShadow

/-- Parts of the text are changed as the relation allows, the rest is kept. -/
inductive Rewritten (P : List Glyph → List Glyph → Prop) : List Glyph → List Glyph → Prop
  | nil : Rewritten P [] []
  | keep (g : Glyph) {t t' : List Glyph} : Rewritten P t t' → Rewritten P (g :: t) (g :: t')
  | change {u v t t' : List Glyph} : P u v → Rewritten P t t' → Rewritten P (u ++ t) (v ++ t')

/-- Text is changed in place of one or more runes outside the literals, so nothing
is put into a literal. -/
def ChangesOutside (u _ : List Glyph) : Prop := u ≠ [] ∧ ∀ x ∈ u, x.isRune = true

/-- Runes are replaced by a literal with more text behind it, which is read as such
before any text. -/
structure Inserts (u v : List Glyph) : Prop where
  runes : ∀ x ∈ u, x.isRune = true
  start : ∃ x s, textOf u = x :: s ∧ startsRune x
  front : ∃ s, textOf v = 39 :: s
  tags : tagsOf v = []
  reads {t : List Glyph} : Scanned t → Scanned (v ++ t)

theorem Inserts.changesOutside {u v : List Glyph} (h : Inserts u v) : ChangesOutside u v := by
  refine ⟨?_, h.runes⟩
  rintro rfl
  obtain ⟨x, s, hx, -⟩ := h.start
  cases hx

section Rewritten

variable {P Q : List Glyph → List Glyph → Prop} {t t' : List Glyph}

theorem Rewritten.mono (hPQ : ∀ u v, P u v → Q u v) (h : Rewritten P t t') : Rewritten Q t t' := by
  induction h with
  | nil => exact .nil
  | keep g _ ih => exact .keep g ih
  | change huv _ ih => exact .change (hPQ _ _ huv) ih

theorem Rewritten.append_keep (h : Rewritten P t t') : ∀ w : List Glyph, Rewritten P (w ++ t) (w ++ t')
  | [] => h
  | g :: w => .keep g (h.append_keep w)

theorem Rewritten.inv {s s' : List Glyph} (h : Rewritten P s s') :
    (s = [] ∧ s' = []) ∨ (∃ g t t', s = g :: t ∧ s' = g :: t' ∧ Rewritten P t t') ∨
      ∃ u v t t', s = u ++ t ∧ s' = v ++ t' ∧ P u v ∧ Rewritten P t t' := by
  cases h with
  | nil => exact .inl ⟨rfl, rfl⟩
  | keep g h => exact .inr (.inl ⟨g, _, _, rfl, rfl, h⟩)
  | change huv h => exact .inr (.inr ⟨_, _, _, _, rfl, rfl, huv, h⟩)

end Rewritten

/-! ### Glyphs that are kept -/

theorem tagsOf_append (t u : List Glyph) : tagsOf (t ++ u) = tagsOf t ++ tagsOf u := List.filterMap_append

theorem tagsOf_runes {u : List Glyph} (h : ∀ x ∈ u, x.isRune = true) : tagsOf u = [] := by
  rw [tagsOf, List.filterMap_eq_nil_iff]
  intro x hx
  cases x with
  | rune => rfl
  | raw => rfl
  | tag => cases h _ hx

/-- The tags are kept. -/
theorem Rewritten.tags_sublist {t t' : List Glyph} (h : Rewritten ChangesOutside t t') :
    (tagsOf t).Sublist (tagsOf t') := by
  induction h with
  | nil => exact List.Sublist.refl _
  | @keep g t t' _ ih =>
    rw [← List.singleton_append, ← List.singleton_append (l := t'), tagsOf_append, tagsOf_append]
    exact (List.Sublist.refl _).append ih
  | @change u v t t' huv _ ih =>
    rw [tagsOf_append, tagsOf_append, tagsOf_runes huv.2, List.nil_append]
    exact ih.trans (List.sublist_append_right _ _)

/-- No tag is added. -/
theorem Rewritten.tags_eq {t t' : List Glyph} (h : Rewritten Inserts t t') : tagsOf t' = tagsOf t := by
  induction h with
  | nil => rfl
  | @keep g t t' _ ih =>
    rw [← List.singleton_append, ← List.singleton_append (l := t), tagsOf_append, tagsOf_append, ih]
  | change huv _ ih => rw [tagsOf_append, tagsOf_append, huv.tags, tagsOf_runes huv.runes, ih]

section Kept

variable {P : List Glyph → List Glyph → Prop} (hP : ∀ {u v}, P u v → ChangesOutside u v)

include hP

/-- What is no rune stays. -/
theorem Rewritten.cons_inv {g : Glyph} (hg : g.isRune = false) {t s' : List Glyph} (h : Rewritten P (g :: t) s') :
    ∃ t', s' = g :: t' ∧ Rewritten P t t' := by
  rcases h.inv with ⟨he, -⟩ | ⟨g', v, v', he, rfl, hv⟩ | ⟨u, v, w, w', he, -, huv, -⟩
  · cases he
  · obtain ⟨rfl, rfl⟩ := List.cons.inj he
    exact ⟨v', rfl, hv⟩
  · obtain ⟨hne, hrunes⟩ := hP huv
    obtain ⟨x, u, rfl⟩ := List.exists_cons_of_ne_nil hne
    obtain ⟨rfl, -⟩ := List.cons.inj he
    rw [hrunes _ List.mem_cons_self] at hg
    cases hg

/-- A literal stays as it is, with nothing put into it. -/
theorem Rewritten.raws {t s' : List Glyph} : ∀ {lit : Bytes}, Rewritten P (raws lit ++ t) s' →
    ∃ t', s' = PgShadow.raws lit ++ t' ∧ Rewritten P t t'
  | [], h => ⟨s', rfl, h⟩
  | b :: lit, h => by
    obtain ⟨_, rfl, hv⟩ := h.cons_inv hP (g := .raw b) rfl
    obtain ⟨t', rfl, ht⟩ := hv.raws
    exact ⟨t', rfl, ht⟩

end Kept

/-- **Up to the first inserted literal** the texts are the same. There a rune starts in
the one text, an apostrophe stands in the other. -/
theorem Rewritten.agree {t t' : List Glyph} (h : Rewritten Inserts t t') : textOf t' = textOf t ∨
    ∃ c x v v', textOf t = c ++ x :: v ∧ startsRune x ∧ textOf t' = c ++ 39 :: v' := by
  induction h with
  | nil => exact .inl rfl
  | @keep g t t' _ ih =>
    rcases ih with ih | ⟨c, x, v, v', ht, hx, ht'⟩
    · exact .inl (congrArg (g.text ++ ·) ih)
    · exact .inr ⟨g.text ++ c, x, v, v', by rw [textOf_cons, ht, List.append_assoc], hx,
        by rw [textOf_cons, ht', List.append_assoc]⟩
  | @change u v t t' huv _ _ =>
    obtain ⟨x, s, hu, hx⟩ := huv.start
    obtain ⟨s', hv⟩ := huv.front
    exact .inr ⟨[], x, s ++ textOf t, s' ++ textOf t', by rw [textOf_append, hu]; rfl, hx,
      by rw [textOf_append, hv]; rfl⟩

/-! ### Reading the rewritten text -/

theorem Scanned.of_append : ∀ {u t : List Glyph}, (∀ x ∈ u, x.isRune = true) → Scanned (u ++ t) → Scanned t
  | [], _, _, h => h
  | .raw b :: u, _, hu, _ => absurd (hu _ List.mem_cons_self) Bool.false_ne_true
  | .tag bs :: u, _, hu, _ => absurd (hu _ List.mem_cons_self) Bool.false_ne_true
  | .rune bs r :: u, t, hu, h => by
    rw [List.cons_append] at h
    obtain ⟨b, bs', -, -, -, -, hrest⟩ := h.rune_inv
    exact hrest.of_append (List.forall_mem_cons.mp hu).2

theorem Closes.append {lit lit' : Bytes} (h : Closes lit) (h' : Closes lit') : Closes (lit ++ 39 :: lit') := by
  induction h with
  | close => exact .escaped h'
  | escaped _ ih => exact .escaped ih
  | byte hb _ ih => exact .byte hb ih

/-- A literal that touches another one. -/
theorem Scanned.quote_append {lit : Bytes} (hlit : Closes lit) {t : List Glyph} (ht : Scanned t) :
    Scanned (raws (39 :: lit) ++ t) := by
  by_cases hhead : (textOf t).head? = some 39
  · cases ht with
    | nil => cases hhead
    | rune hb _ _ _ => exact absurd (Option.some.inj hhead) hb
    | @quote lit' t hlit' hhead' ht =>
      have hjoin : raws (39 :: lit) ++ (raws (39 :: lit') ++ t) = raws (39 :: (lit ++ 39 :: lit')) ++ t := by
        rw [raws, raws, raws, ← List.append_assoc, ← List.map_append, List.cons_append]
      rw [hjoin]
      exact .quote (hlit.append hlit') hhead' ht
    | dollar hdollar _ =>
      obtain ⟨name, rfl, -⟩ := hdollar.tag_eq
      cases hhead
  · exact .quote hlit hhead ht

/-- A dollar that opens no tag opens none before an apostrophe. -/
theorem parseDollarTag_front {b : UInt8} {u v : Bytes} (h : parseDollarTag (b :: (u ++ v)) = []) :
    parseDollarTag (b :: u) = [] := by
  by_contra hne
  obtain ⟨name, rest, -, hs, hname⟩ := parseDollarTag_spec hne
  obtain ⟨rfl, rfl⟩ := List.cons.inj hs
  rw [List.append_assoc, List.cons_append, parseDollarTag_tag hname] at h
  cases h

/-- A rune before the changed text is read as before. -/
theorem Scanned.rune_rewritten {bs : Bytes} {r : ℕ} {t t' : List Glyph} (h : Scanned (.rune bs r :: t))
    (ht : Rewritten Inserts t t') (ht' : Scanned t') : Scanned (.rune bs r :: t') := by
  obtain ⟨b, bs', rfl, hb, htag, hdecode, -⟩ := h.rune_inv
  rcases ht.agree with he | ⟨c, x, v, v', hc, hx, hc'⟩
  · exact .rune hb (by rwa [he]) (by rwa [he]) ht'
  · rw [hc, ← List.append_assoc] at htag hdecode
    rw [decodeRune_append b _ hx] at hdecode
    refine .rune hb ?_ ?_ ht'
    · rw [hc', ← List.append_assoc]
      exact parseDollarTag_append (parseDollarTag_front htag) (by simp [show isTagByte 39 = false from rfl])
    · rw [hc', ← List.append_assoc, decodeRune_append b _ (by decide), hdecode]

/-- **The scanner reads the rewritten text** as it is written. -/
theorem Rewritten.scanned {t t' : List Glyph} (h : Rewritten Inserts t t') (ht : Scanned t) : Scanned t' := by
  -- on the length: a change takes away several runes at once
  induction hn : t.length using Nat.strong_induction_on generalizing t t' with
  | _ n ih =>
    subst hn
    cases ht with
    | nil =>
      rcases h.inv with ⟨-, rfl⟩ | ⟨_, _, _, he, -⟩ | ⟨u, v, w, w', he, -, huv, -⟩
      · exact .nil
      · cases he
      · exact absurd (List.append_eq_nil_iff.mp he.symm).1 huv.changesOutside.1
    | @rune b bs r t hb htag hdecode ht =>
      have hrune := Scanned.rune hb htag hdecode ht
      rcases h.inv with ⟨he, -⟩ | ⟨g, v, v', he, rfl, hv⟩ | ⟨u, v, w, w', he, rfl, huv, hw⟩
      · cases he
      · obtain ⟨rfl, rfl⟩ := List.cons.inj he
        exact hrune.rune_rewritten hv (ih _ (Nat.lt_succ_self _) hv ht rfl)
      · rw [he] at hrune
        refine huv.reads (ih _ ?_ hw (hrune.of_append huv.runes) rfl)
        have hpos := List.length_pos_of_ne_nil huv.changesOutside.1
        rw [he, List.length_append]
        omega
    | @quote lit t hlit hhead ht =>
      obtain ⟨t', rfl, h'⟩ := h.raws Inserts.changesOutside
      refine Scanned.quote_append hlit (ih _ ?_ h' ht rfl)
      rw [List.length_append, PgShadow.raws, List.length_map, List.length_cons]
      omega
    | @dollar tag body t hdollar ht =>
      obtain ⟨s₁, rfl, h₁⟩ := h.cons_inv Inserts.changesOutside rfl
      obtain ⟨s₂, rfl, h₂⟩ := h₁.raws Inserts.changesOutside
      obtain ⟨t', rfl, h₃⟩ := h₂.cons_inv Inserts.changesOutside rfl
      refine .dollar (hdollar.other _) (ih _ ?_ h₃ ht rfl)
      rw [List.length_cons, List.length_append, List.length_cons]
      omega

/-! ### The inserted literals -/

/-- A rune of the text has a byte that starts one, unless it stands for invalid bytes. -/
theorem Scanned.startsRune_of_mem {t : List Glyph} (h : Scanned t) {bs : Bytes} {r : ℕ} (hmem : .rune bs r ∈ t)
    (hr : r ≠ runeError) : ∃ x s, bs = x :: s ∧ startsRune x := by
  induction h with
  | nil => cases hmem
  | @rune b bs' r' t hb htag hdecode ht ih =>
    rcases List.mem_cons.mp hmem with he | hmem
    · cases he
      refine ⟨b, bs', rfl, ?_⟩
      by_contra hstart
      have hinvalid : decodeRune (b :: (bs' ++ textOf t)) = (runeError, 1) := by
        simp only [startsRune, not_or, not_lt, not_le] at hstart
        exact decodeRune_invalid hstart.1 (.inl (by omega)) _
      rw [hinvalid] at hdecode
      exact hr (Prod.mk.inj hdecode).1.symm
    · exact ih hmem
  | quote _ _ _ ih =>
    rcases List.mem_append.mp hmem with hmem | hmem
    · obtain ⟨_, -, he⟩ := List.mem_map.mp hmem
      cases he
    · exact ih hmem
  | dollar _ _ ih =>
    rcases List.mem_cons.mp hmem with he | hmem
    · cases he
    rcases List.mem_append.mp hmem with hmem | hmem
    · obtain ⟨_, -, he⟩ := List.mem_map.mp hmem
      cases he
    rcases List.mem_cons.mp hmem with he | hmem
    · cases he
    · exact ih hmem

theorem closes_of_notMem : ∀ {body : Bytes}, 39 ∉ body → Closes (body ++ [39])
  | [], _ => .close
  | _ :: _, h => .byte (List.ne_of_not_mem_cons h).symm (closes_of_notMem (List.not_mem_of_not_mem_cons h))

/-- An ASCII character that opens no literal. -/
def isPlainChar (c : Char) : Bool := c.toNat < 128 && c.toNat != 36 && c.toNat != 39

/-- ASCII runes that are no delimiters are read as they are. -/
theorem Scanned.ascii {t : List Glyph} (ht : Scanned t) : ∀ {cs : List Char}, cs.all isPlainChar = true →
    Scanned (cs.map (fun c => .rune [chr c] c.toNat) ++ t)
  | [], _ => ht
  | c :: cs, h => by
    rw [List.all_cons, Bool.and_eq_true] at h
    obtain ⟨hc, hcs⟩ := h
    simp only [isPlainChar, Bool.and_eq_true, decide_eq_true_eq, bne_iff_ne] at hc
    obtain ⟨⟨hascii, hdollar⟩, hquote⟩ := hc
    have hchr : (chr c).toNat = c.toNat := by
      rw [chr, UInt8.toNat_ofNat', Nat.mod_eq_of_lt (by omega)]
    refine .rune ?_ (parseDollarTag_ne ?_ _) ?_ (ht.ascii hcs)
    · intro he
      rw [he] at hchr
      exact hquote hchr.symm
    · intro he
      rw [he] at hchr
      exact hdollar hchr.symm
    · rw [decodeRune_ascii (by omega), hchr]
      rfl

theorem cast_plain : ∀ f ∈ TimeFn.all, f.cast.toList.all isPlainChar = true := by
  decide +kernel

section Shown

variable {body : TimeFn → Bytes} (hbody : ∀ f, 39 ∉ body f) {t : List Glyph} (ht : Scanned t)

include hbody in
theorem Scanned.block {t : List Glyph} (ht : Scanned t) (f : TimeFn) : Scanned (block body f ++ t) := by
  rw [PgShadow.block, List.append_assoc, List.append_assoc]
  refine Scanned.quote_append (closes_of_notMem (hbody f)) (Scanned.ascii (Scanned.ascii ht ?_) ?_)
  · exact cast_plain f f.mem_all
  · decide +kernel

include hbody ht in
/-- A use of the text is replaced by a literal. -/
theorem inserts_block {f : TimeFn} {w : List Glyph} (hform : f.Form (valuesOf w)) (hmem : ∀ g ∈ w, g ∈ t) :
    Inserts w (block body f) where
  runes x hx := by
    have hplain := hform.plain x.value (List.mem_map_of_mem hx)
    cases x with
    | rune => rfl
    | raw => exact absurd (.inr rfl) hplain
    | tag => exact absurd (.inl rfl) hplain
  start := by
    rcases w with _ | ⟨g, w⟩
    · exact absurd rfl hform.ne_nil
    have hplain := hform.plain g.value List.mem_cons_self
    cases g with
    | rune bs r =>
      obtain ⟨x, s, rfl, hx⟩ := ht.startsRune_of_mem (hmem _ List.mem_cons_self) hform.head_valid
      exact ⟨x, s ++ textOf w, rfl, hx⟩
    | raw => exact absurd (.inr rfl) hplain
    | tag => exact absurd (.inl rfl) hplain
  front := ⟨_, textOf_quote _ _⟩
  tags := by
    have hascii : ∀ s x, x ∈ asciiGlyphs s → x.isRune = true := by
      intro s x hx
      obtain ⟨c, -, rfl⟩ := List.mem_map.mp hx
      rfl
    rw [block, tagsOf_quote, tagsOf_append, tagsOf_runes (hascii _), tagsOf_runes (hascii _), List.append_nil]
  reads hs := hs.block hbody f

include hbody ht in
/-- **The text of a stage** is the original one, rewritten outside the literals. -/
theorem rewritten_shown (n : ℕ) : ∀ {us : List Stretch}, Parsed us → (∀ g ∈ original us, g ∈ t) → ∀ l : Left,
    Rewritten Inserts (original us) (shown body n l us)
  | [], _, _, _ => .nil
  | .glyph g :: us, h, hmem, l =>
    .keep g (rewritten_shown n h.tail (fun x hx => hmem x (List.mem_cons_of_mem g hx)) g.left)
  | .use f w :: us, h, hmem, l => by
    have hrest := rewritten_shown n h.tail (fun x hx => hmem x (List.mem_append_right w hx)) (l.after f w)
    rw [shown, original_use]
    split
    · exact .change (inserts_block hbody ht h.use_form.1 fun x hx => hmem x (List.mem_append_left _ hx)) hrest
    · exact hrest.append_keep w

end Shown

/-! ### Between the literals -/

/-- The texts between the literals; the text before the first glyph is given. -/
def outsidesFrom : Bytes → List Glyph → List Bytes
  | u, [] => [u]
  | u, .rune bs _ :: t => outsidesFrom (u ++ bs) t
  | u, .raw _ :: t | u, .tag _ :: t => u :: outsidesFrom [] t

/-- The texts between the literals. -/
def outsides (t : List Glyph) : List Bytes := outsidesFrom [] t

section Outsides

variable {r : Regex ℕ} (hr : r.Walled IsDelimiter)

include hr

theorem found_outsides_raws (u : Bytes) (t : List Glyph) : ∀ lit : Bytes,
    ((outsidesFrom u (raws lit ++ t)).any fun u => r.found (runes u)) =
      if lit = [] then (outsidesFrom u t).any fun u => r.found (runes u)
      else r.found (runes u) || (outsides t).any fun u => r.found (runes u)
  | [] => rfl
  | b :: lit => by
    have hcons : outsidesFrom u (raws (b :: lit) ++ t) = u :: outsidesFrom [] (raws lit ++ t) := rfl
    rw [hcons, List.any_cons, found_outsides_raws [] t lit, if_neg (List.cons_ne_nil b lit)]
    split
    · rfl
    · rw [runes, found_nil hr, Bool.false_or]

/-- **Patterns between the literals.** -/
theorem Scanned.found_outsides {t : List Glyph} (h : Scanned t) :
    ((outsides t).any fun u => r.found (runes u)) = r.found (valuesOf t) := by
  refine h.run_induction (P := fun g t =>
    ((outsidesFrom (textOf g) t).any fun u => r.found (runes u)) = r.found (valuesOf (g ++ t))) ?_ ?_ ?_ ?_
  · intro g hrun
    rw [outsidesFrom, List.any_cons, List.any_nil, Bool.or_false, hrun.runes_eq, List.append_nil]
  · intro g bs r' t _ ih
    rw [textOf_concat, List.append_assoc g] at ih
    exact ih
  · intro g lit t _ _ _ hrun ih
    have hrest : ((outsides t).any fun u => r.found (runes u)) = r.found (valuesOf t) := ih
    rw [found_outsides_raws hr, if_neg (List.cons_ne_nil 39 lit), hrest, hrun.runes_eq, valuesOf_append g,
      found_quote hr]
  · intro g tag body t _ _ hrun ih
    have hrest : ((outsides t).any fun u => r.found (runes u)) = r.found (valuesOf t) := ih
    have htail : ((outsides (.tag tag :: t)).any fun u => r.found (runes u)) = r.found (valuesOf t) := by
      rw [outsides, outsidesFrom, List.any_cons, runes, found_nil hr, Bool.false_or]
      exact hrest
    have hbody : ((outsidesFrom [] (raws body ++ .tag tag :: t)).any fun u => r.found (runes u)) =
        r.found (valuesOf t) := by
      rw [found_outsides_raws hr]
      split
      · exact htail
      · rw [htail, runes, found_nil hr, Bool.false_or]
    rw [outsidesFrom, List.any_cons, hbody, hrun.runes_eq, valuesOf_append g, found_dollar hr]

end Outsides

end PgShadow
