/-
# Literals as the guard delimits them

`stripStringLiterals` and `replaceOutsideStrings` take a text apart with the same
scanner: an apostrophe opens a literal up to the next one that is not doubled, a dollar
tag one up to the next tag of the same spelling. Here the text is read once
(`glyphs`): its runes outside the literals, each byte within one. Literals that touch
are one stretch of bytes, so that the reading of a text does not change where an
inserted literal touches another.

The judgement `Scanned` says that the scanner reads a list of glyphs off the text that
it stands for (`scanned_iff`). What the guard computes of the text is then a matter of
the glyphs.

Key definitions: `Glyph`, `glyphs`, `Closes`, `IsDollar`, `Scanned`.
Key theorems: `closeQuote_append`, `IsDollar.other`, `scanned_iff`.
-/
import Mathlib.Data.List.TakeWhile
import PgShadow.Go.Regexp
import PgShadow.Replayguard.New

namespace PgShadow

/-! ### Glyphs -/

/-- A rune outside the literals with its bytes, a byte within a literal, or a dollar
tag. -/
inductive Glyph
  | rune (bs : Bytes) (r : ℕ)
  | raw (b : UInt8)
  | tag (bs : Bytes)
deriving DecidableEq

namespace Glyph

def text : Glyph → Bytes
  | rune bs _ => bs
  | raw b => [b]
  | tag bs => bs

/-- What a pattern sees: of a literal, its delimiter. -/
def value : Glyph → ℕ
  | rune _ r => r
  | raw _ => 39
  | tag _ => 36

/-- The glyph is outside the literals. -/
def isRune : Glyph → Bool
  | rune _ _ => true
  | _ => false

end Glyph

/-- The text of the glyphs. -/
def textOf (t : List Glyph) : Bytes := t.flatMap Glyph.text

/-- What a pattern sees of the glyphs. -/
def valuesOf (t : List Glyph) : List ℕ := t.map Glyph.value

/-- The bytes of a literal. -/
def raws (s : Bytes) : List Glyph := s.map .raw

@[simp] theorem textOf_nil : textOf [] = [] := rfl
@[simp] theorem textOf_cons (g : Glyph) (t : List Glyph) : textOf (g :: t) = g.text ++ textOf t := rfl
@[simp] theorem textOf_append (t u : List Glyph) : textOf (t ++ u) = textOf t ++ textOf u := List.flatMap_append
@[simp] theorem valuesOf_append (t u : List Glyph) : valuesOf (t ++ u) = valuesOf t ++ valuesOf u := List.map_append
@[simp] theorem valuesOf_cons (g : Glyph) (t : List Glyph) : valuesOf (g :: t) = g.value :: valuesOf t := rfl

@[simp] theorem textOf_raws (s : Bytes) : textOf (raws s) = s := by
  induction s with
  | nil => rfl
  | cons b s ih => exact congrArg (b :: ·) ih

/-! ### The scanner -/

/-- A literal up to and with the apostrophe that closes it, and the text after it. -/
def closeQuote : Bytes → Option (Bytes × Bytes)
  | [] => none
  | [b] => if b = 39 then some ([39], []) else none
  | b :: c :: t =>
    if b = 39 then
      if c = 39 then (closeQuote t).map fun p => (39 :: 39 :: p.1, p.2) else some ([39], c :: t)
    else (closeQuote (c :: t)).map fun p => (b :: p.1, p.2)

theorem closeQuote_close {r : Bytes} (hr : r.head? ≠ some 39) : closeQuote (39 :: r) = some ([39], r) := by
  rcases r with _ | ⟨c, r⟩
  · rfl
  · rw [closeQuote, if_pos rfl, if_neg fun hc => hr (congrArg some hc)]

theorem closeQuote_escaped (t : Bytes) :
    closeQuote (39 :: 39 :: t) = (closeQuote t).map fun p => (39 :: 39 :: p.1, p.2) := by
  rw [closeQuote, if_pos rfl, if_pos rfl]

theorem closeQuote_byte {b : UInt8} (hb : b ≠ 39) (t : Bytes) :
    closeQuote (b :: t) = (closeQuote t).map fun p => (b :: p.1, p.2) := by
  rcases t with _ | ⟨c, t⟩
  · exact if_neg hb
  · rw [closeQuote, if_neg hb]

/-- The text is a literal after its opening apostrophe, and no more. -/
inductive Closes : Bytes → Prop
  | close : Closes [39]
  | escaped {t : Bytes} : Closes t → Closes (39 :: 39 :: t)
  | byte {b : UInt8} {t : Bytes} : b ≠ 39 → Closes t → Closes (b :: t)

/-- What comes after a literal: an apostrophe makes one literal of the two. -/
theorem closeQuote_append {lit : Bytes} (h : Closes lit) (r : Bytes) : closeQuote (lit ++ r) =
    if r.head? = some 39 then (closeQuote (r.drop 1)).map fun p => (lit ++ 39 :: p.1, p.2) else some (lit, r) := by
  induction h with
  | close =>
    by_cases hr : r.head? = some 39
    · obtain ⟨r, rfl⟩ := List.head?_eq_some_iff.mp hr
      rw [if_pos hr, List.singleton_append, closeQuote_escaped]
      rfl
    · rw [if_neg hr, List.singleton_append, closeQuote_close hr]
  | escaped _ ih =>
    rw [List.cons_append, List.cons_append, closeQuote_escaped, ih]
    split
    · rw [Option.map_map]
      rfl
    · rfl
  | byte hb _ ih =>
    rw [List.cons_append, closeQuote_byte hb, ih]
    split
    · rw [Option.map_map]
      rfl
    · rfl

theorem closeQuote_spec : ∀ {s lit rest : Bytes}, closeQuote s = some (lit, rest) →
    Closes lit ∧ rest.head? ≠ some 39 ∧ s = lit ++ rest
  | [], _, _, h => by cases h
  | [b], lit, rest, h => by
    rw [closeQuote] at h
    split at h
    · cases h
      exact ⟨.close, by simp, congrArg (· :: []) ‹b = 39›⟩
    · cases h
  | b :: c :: t, lit, rest, h => by
    by_cases hb : b = 39
    · subst hb
      by_cases hc : c = 39
      · subst hc
        rw [closeQuote_escaped] at h
        obtain ⟨p, hp, he⟩ := Option.map_eq_some_iff.mp h
        obtain ⟨hcloses, hrest, rfl⟩ := closeQuote_spec hp
        cases he
        exact ⟨.escaped hcloses, hrest, rfl⟩
      · have hrest : (c :: t).head? ≠ some 39 := fun he => hc (Option.some.inj he)
        rw [closeQuote_close hrest] at h
        cases h
        exact ⟨.close, hrest, rfl⟩
    · rw [closeQuote_byte hb] at h
      obtain ⟨p, hp, he⟩ := Option.map_eq_some_iff.mp h
      obtain ⟨hcloses, hrest, hs⟩ := closeQuote_spec hp
      cases he
      exact ⟨.byte hb hcloses, hrest, congrArg (b :: ·) hs⟩

/-- The text as the scanner takes it apart; none if a literal is not closed. -/
def glyphs (s : Bytes) : Option (List Glyph) :=
  match s with
  | [] => some []
  | b :: t =>
    if b = 39 then
      match _h : closeQuote t with
      | some (lit, rest) => (glyphs rest).map (raws (39 :: lit) ++ ·)
      | none => none
    else
      let tag := parseDollarTag (b :: t)
      if tag = [] then
        let (r, width) := decodeRune (b :: t)
        (glyphs (t.drop (width - 1))).map (.rune (b :: t.take (width - 1)) r :: ·)
      else
        let inner := t.drop (tag.length - 1)
        match indexOf tag inner with
        | some e => (glyphs (inner.drop (e + tag.length))).map fun g =>
            .tag tag :: (raws (inner.take e) ++ .tag tag :: g)
        | none => none
termination_by s.length
decreasing_by
  · have := (closeQuote_spec _h).2.2
    simp only [this, List.length_cons, List.length_append]
    omega
  all_goals
    simp only [List.length_drop, List.length_cons]
    omega

/-! ### Dollar tags -/

/-- A byte of a dollar tag. -/
def isTagByte (c : UInt8) : Bool := isWordRune c.toNat

theorem isTagByte_eq (c : UInt8) :
    ((97 ≤ c && c ≤ 122) || (65 ≤ c && c ≤ 90) || (48 ≤ c && c ≤ 57) || c == 95) = isTagByte c := by
  revert c
  exact forall_byte (by decide +kernel)

theorem parseDollarTag_dollar (t : Bytes) : parseDollarTag (36 :: t) =
    if (t.dropWhile isTagByte).head? = some 36 then 36 :: t.takeWhile isTagByte ++ [36] else [] := by
  have hname : t.takeWhile (fun c => (97 ≤ c && c ≤ 122) || (65 ≤ c && c ≤ 90) || (48 ≤ c && c ≤ 57) || c == 95) =
      t.takeWhile isTagByte := congrArg (List.takeWhile · t) (funext isTagByte_eq)
  have hdrop : t.drop (t.takeWhile isTagByte).length = t.dropWhile isTagByte := by
    rw [List.dropWhile_eq_drop_findIdx_not, List.takeWhile_eq_take_findIdx_not, List.length_take,
      Nat.min_eq_left List.findIdx_le_length]
  rw [parseDollarTag, hname, hdrop]

theorem parseDollarTag_ne {b : UInt8} (hb : b ≠ 36) (t : Bytes) : parseDollarTag (b :: t) = [] := by
  rw [parseDollarTag]
  rintro u ⟨⟩
  exact hb rfl

/-- A text without a tag at its front has none there with more text after it, unless
the text after it ends a tag. -/
theorem parseDollarTag_append {b : UInt8} {u v : Bytes} (hu : parseDollarTag (b :: u) = [])
    (hv : (v.dropWhile isTagByte).head? ≠ some 36) : parseDollarTag (b :: (u ++ v)) = [] := by
  by_cases hb : b = 36
  · subst hb
    rw [parseDollarTag_dollar] at hu ⊢
    rw [if_neg]
    rw [List.dropWhile_append]
    split
    · exact hv
    · rename_i hne
      intro hhead
      rw [List.isEmpty_iff] at hne
      rw [List.head?_append_of_ne_nil _ hne] at hhead
      rw [if_pos hhead] at hu
      cases hu
  · exact parseDollarTag_ne hb _

/-- A tag is at the front of the text: dollars around letters, digits and underscores. -/
theorem parseDollarTag_spec {s : Bytes} (h : parseDollarTag s ≠ []) : ∃ name rest,
    parseDollarTag s = 36 :: (name ++ [36]) ∧ s = 36 :: (name ++ 36 :: rest) ∧ ∀ c ∈ name, isTagByte c = true := by
  rcases s with _ | ⟨b, t⟩
  · exact absurd rfl h
  by_cases hb : b = 36
  · subst hb
    rw [parseDollarTag_dollar] at h ⊢
    split at h
    · rename_i hhead
      obtain ⟨rest, hrest⟩ := List.head?_eq_some_iff.mp hhead
      refine ⟨t.takeWhile isTagByte, rest, by rw [if_pos hhead]; rfl, ?_, fun c hc => List.mem_takeWhile_imp hc⟩
      rw [← hrest, List.takeWhile_append_dropWhile]
    · exact absurd rfl h
  · exact absurd (parseDollarTag_ne hb t) h

/-- A dollar literal at the front of a text. -/
structure IsDollar (tag body rest : Bytes) : Prop where
  ne_nil : tag ≠ []
  parse : parseDollarTag (tag ++ (body ++ (tag ++ rest))) = tag
  index : indexOf tag (body ++ (tag ++ rest)) = some body.length

theorem IsDollar.tag_eq {tag body rest : Bytes} (h : IsDollar tag body rest) :
    ∃ name, tag = 36 :: (name ++ [36]) ∧ ∀ c ∈ name, isTagByte c = true := by
  obtain ⟨name, -, hname, -, hbytes⟩ := parseDollarTag_spec (h.parse.trans_ne h.ne_nil)
  exact ⟨name, h.parse.symm.trans hname, hbytes⟩

/-- What the scanner sees of the literal from its first dollar. -/
theorem IsDollar.front {tag body rest : Bytes} (h : IsDollar tag body rest) : ∃ t,
    tag ++ (body ++ (tag ++ rest)) = 36 :: t ∧ parseDollarTag (36 :: t) = tag ∧
      t.drop (tag.length - 1) = body ++ (tag ++ rest) := by
  obtain ⟨name, htag, -⟩ := h.tag_eq
  have hcons : tag ++ (body ++ (tag ++ rest)) = 36 :: (name ++ [36] ++ (body ++ (tag ++ rest))) :=
    congrArg (· ++ (body ++ (tag ++ rest))) htag
  refine ⟨_, hcons, by rw [← hcons, h.parse], ?_⟩
  rw [htag, List.length_cons, Nat.add_sub_cancel, List.drop_left]

/-- A tag is read whatever follows it. -/
theorem parseDollarTag_tag {name : Bytes} (hname : ∀ c ∈ name, isTagByte c = true) (rest : Bytes) :
    parseDollarTag (36 :: (name ++ 36 :: rest)) = 36 :: (name ++ [36]) := by
  rw [parseDollarTag_dollar, List.dropWhile_append_of_pos hname, List.takeWhile_append_of_pos hname]
  simp [show isTagByte 36 = false from rfl]

/-- A dollar literal is one whatever follows it. -/
theorem IsDollar.other {tag body rest : Bytes} (h : IsDollar tag body rest) (rest' : Bytes) :
    IsDollar tag body rest' := by
  refine ⟨h.ne_nil, ?_, indexOf_tail rest rest' h.index⟩
  obtain ⟨name, rfl, hname⟩ := h.tag_eq
  have hcons := parseDollarTag_tag hname (body ++ (36 :: (name ++ [36]) ++ rest'))
  simpa only [List.cons_append, List.append_assoc, List.nil_append] using hcons

/-! ### The reading -/

/-- The scanner reads the glyphs off the text that they stand for: each step is checked
with the text after it present. -/
inductive Scanned : List Glyph → Prop
  | nil : Scanned []
  | rune {b : UInt8} {bs : Bytes} {r : ℕ} {t : List Glyph} : b ≠ 39 → parseDollarTag (b :: (bs ++ textOf t)) = [] →
      decodeRune (b :: (bs ++ textOf t)) = (r, bs.length + 1) → Scanned t → Scanned (.rune (b :: bs) r :: t)
  | quote {lit : Bytes} {t : List Glyph} : Closes lit → (textOf t).head? ≠ some 39 → Scanned t →
      Scanned (raws (39 :: lit) ++ t)
  | dollar {tag body : Bytes} {t : List Glyph} : IsDollar tag body (textOf t) → Scanned t →
      Scanned (.tag tag :: (raws body ++ .tag tag :: t))

theorem textOf_dollar (tag body : Bytes) (t : List Glyph) :
    textOf (.tag tag :: (raws body ++ .tag tag :: t)) = tag ++ (body ++ (tag ++ textOf t)) := by
  rw [textOf_cons, textOf_append, textOf_raws, textOf_cons]
  rfl

theorem textOf_quote (lit : Bytes) (t : List Glyph) : textOf (raws (39 :: lit) ++ t) = 39 :: (lit ++ textOf t) := by
  rw [textOf_append, textOf_raws, List.cons_append]

theorem scanned_of_glyphs {s : Bytes} {t : List Glyph} (h : glyphs s = some t) : Scanned t ∧ textOf t = s := by
  fun_induction glyphs s generalizing t with
  | case1 =>
    cases h
    exact ⟨.nil, rfl⟩
  | case2 u lit rest hclose ih =>
    obtain ⟨g, hg, rfl⟩ := Option.map_eq_some_iff.mp h
    obtain ⟨hscanned, htext⟩ := ih hg
    obtain ⟨hcloses, hhead, rfl⟩ := closeQuote_spec hclose
    refine ⟨.quote hcloses (by rwa [htext]) hscanned, ?_⟩
    rw [textOf_quote, htext]
  | case3 => cases h
  | case4 b u hb tag htag r width hdecode =>
    rename_i ih
    obtain ⟨g, hg, rfl⟩ := Option.map_eq_some_iff.mp h
    obtain ⟨hscanned, htext⟩ := ih hg
    have hsplit : u.take (width - 1) ++ textOf g = u := by rw [htext, List.take_append_drop]
    have hwidth : (u.take (width - 1)).length + 1 = width := by
      have hle := (decodeRune_bounds b u).1
      have hpos := decodeRune_pos b u
      rw [hdecode] at hle hpos
      rw [List.length_take]
      dsimp only at hle hpos
      omega
    refine ⟨.rune hb (by rw [hsplit]; exact htag) (by rw [hsplit, hwidth, hdecode]) hscanned, ?_⟩
    rw [textOf_cons, Glyph.text, List.cons_append, hsplit]
  | case5 b u hb tag htag inner e hidx =>
    rename_i ih
    obtain ⟨g, hg, rfl⟩ := Option.map_eq_some_iff.mp h
    obtain ⟨hscanned, htext⟩ := ih hg
    obtain ⟨name, rest, hname, hs, -⟩ := parseDollarTag_spec htag
    have htag' : tag = 36 :: (name ++ [36]) := hname
    obtain ⟨rfl, hu⟩ := List.cons.inj hs
    have hinner : inner = rest := by
      show u.drop (tag.length - 1) = rest
      rw [htag', hu]
      simp
    obtain ⟨body, rest', hbody, rfl⟩ := indexOf_spec hidx
    have hafter : inner.drop (body.length + tag.length) = rest' := by
      rw [hbody, ← List.append_assoc, ← List.length_append, List.drop_left]
    have htake : inner.take body.length = body := by rw [hbody, List.take_left]
    have hall : 36 :: u = tag ++ (body ++ (tag ++ rest')) := by
      rw [← hbody, hinner, htag', hs]
      simp
    rw [htake]
    rw [hafter] at htext
    refine ⟨.dollar ⟨htag, ?_, ?_⟩ hscanned, ?_⟩
    · rw [htext, ← hall]
    · rw [htext, ← hbody, hidx]
    · rw [textOf_dollar, htext, hall]
  | case6 => cases h

theorem Scanned.closeQuote {lit : Bytes} {t : List Glyph} (hlit : Closes lit) (ht : (textOf t).head? ≠ some 39) :
    PgShadow.closeQuote (lit ++ textOf t) = some (lit, textOf t) := by
  rw [closeQuote_append hlit, if_neg ht]

theorem glyphs_of_scanned {t : List Glyph} (h : Scanned t) : glyphs (textOf t) = some t := by
  induction h with
  | nil => rw [textOf_nil, glyphs]
  | @rune b bs r t hb htag hdecode _ ih =>
    rw [textOf_cons, Glyph.text, List.cons_append, glyphs, if_neg hb]
    dsimp only
    rw [if_pos htag, hdecode]
    dsimp only
    rw [Nat.add_sub_cancel, List.drop_left, List.take_left, ih]
    rfl
  | @quote lit t hlit ht _ ih =>
    rw [textOf_quote, glyphs, if_pos rfl]
    split
    · rename_i hclose
      rw [Scanned.closeQuote hlit ht] at hclose
      cases hclose
      rw [ih]
      rfl
    · rename_i hclose
      rw [Scanned.closeQuote hlit ht] at hclose
      cases hclose
  | @dollar tag body t hdollar _ ih =>
    obtain ⟨u, hu, hparse, hdrop⟩ := hdollar.front
    rw [textOf_dollar, hu, glyphs, if_neg (by decide), hparse]
    dsimp only
    rw [if_neg hdollar.ne_nil, hdrop, hdollar.index]
    dsimp only
    rw [← List.append_assoc, ← List.length_append, List.drop_left, ih, List.append_assoc, List.take_left]
    rfl

/-- **The reading of a text.** The scanner reads the glyphs off the text if and only if
they are its reading. -/
theorem scanned_iff {s : Bytes} {t : List Glyph} : glyphs s = some t ↔ Scanned t ∧ textOf t = s := by
  constructor
  · exact scanned_of_glyphs
  · rintro ⟨h, rfl⟩
    exact glyphs_of_scanned h

end PgShadow
