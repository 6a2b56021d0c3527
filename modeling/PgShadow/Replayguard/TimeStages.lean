/-
# The text between the time patterns

`Apply` replaces the matches of the seven time patterns one pattern after the other.
Here the text is parsed once: into the uses of the functions and the glyphs between
them (`parse`). Before the pattern with index `n` it reads `shown n`: the uses of the
earlier patterns are replaced where the pattern had a boundary in front (`Left.hit`),
everything else is as it was. One replacement leads from one such text to the next
(`replace_shown`).

A replacement can give a boundary to what follows it: `z` comes before it instead of a
parenthesis. This matters for a name that is spelled with a long s in front, which is
no word rune. If its pattern has had its turn, a match is left at the end (`exposes`,
`found_shown`).

Key definitions: `Stretch`, `parse`, `Left`, `shown`, `exposes`.
Key theorems: `replace_shown`, `found_shown`.
-/
import PgShadow.Replayguard.TimePatterns

namespace PgShadow

/-! ### Uses in a text -/

/-- A glyph, or the glyphs of a use. -/
inductive Stretch
  | glyph (g : Glyph)
  | use (f : TimeFn) (w : List Glyph)

def Stretch.glyphs : Stretch → List Glyph
  | glyph g => [g]
  | use _ w => w

/-- The text that is parsed. -/
def original (us : List Stretch) : List Glyph := us.flatMap Stretch.glyphs

@[simp] theorem original_glyph (g : Glyph) (us : List Stretch) : original (.glyph g :: us) = g :: original us := rfl
@[simp] theorem original_use (f : TimeFn) (w : List Glyph) (us : List Stretch) :
    original (.use f w :: us) = w ++ original us := rfl

/-- The function whose use starts the text, and its length. -/
def useAt (a : List ℕ) : Option (TimeFn × ℕ) := TimeFn.all.findSome? fun f => (f.core.matchLen [] a).map (f, ·)

/-- The uses of a text from left to right. -/
def parse (t : List Glyph) : List Stretch :=
  match t with
  | [] => []
  | g :: t =>
    match useAt (valuesOf (g :: t)) with
    | some (f, n) => .use f (g :: t.take (n - 1)) :: parse (t.drop (n - 1))
    | none => .glyph g :: parse t
termination_by t.length
decreasing_by
  · rw [List.length_drop, List.length_cons]
    omega
  · exact Nat.lt_succ_self _

theorem useAt_some {a : List ℕ} {f : TimeFn} {n : ℕ} (h : useAt a = some (f, n)) :
    ∃ w c, a = w ++ c ∧ w.length = n ∧ f.Form w ∧ f.Ends c := by
  obtain ⟨g, -, hg⟩ := List.exists_of_findSome?_eq_some h
  obtain ⟨m, hm, he⟩ := Option.map_eq_some_iff.mp hg
  cases he
  exact f.core_matchLen_iff.mp hm

theorem useAt_none {a : List ℕ} (h : useAt a = none) {f : TimeFn} {w c : List ℕ} (ha : a = w ++ c) (hw : f.Form w) :
    ¬f.Ends c := by
  intro hc
  have hf := List.findSome?_eq_none_iff.mp h f f.mem_all
  rw [Option.map_eq_none_iff] at hf
  have hlen := (f.core_matchLen_iff (b := [])).mpr ⟨w, c, ha, rfl, hw, hc⟩
  rw [hf] at hlen
  cases hlen

/-- No function with an earlier pattern has a use there. -/
theorem useAt_first {a : List ℕ} {f g : TimeFn} {n : ℕ} (h : useAt a = some (f, n)) (hg : g.index < f.index)
    {w c : List ℕ} (ha : a = w ++ c) (hw : g.Form w) : ¬g.Ends c := by
  intro hc
  obtain ⟨fs, k, gs, hall, hk, hfs⟩ := List.findSome?_eq_some_iff.mp h
  obtain ⟨m, -, he⟩ := Option.map_eq_some_iff.mp hk
  cases he
  have horder : TimeFn.all.Pairwise fun f g => f.index < g.index := by decide
  rw [hall] at horder
  have hmem : g ∈ fs ++ f :: gs := hall ▸ g.mem_all
  have hgs : g ∈ fs := by
    rcases List.mem_append.mp hmem with hmem | hmem
    · exact hmem
    rcases List.mem_cons.mp hmem with rfl | hmem
    · exact absurd hg (lt_irrefl _)
    · have hlt := (List.pairwise_cons.mp (List.pairwise_append.mp horder).2.1).1 g hmem
      omega
  have hnone := hfs g hgs
  rw [Option.map_eq_none_iff] at hnone
  have hlen := (g.core_matchLen_iff (b := [])).mpr ⟨w, c, ha, rfl, hw, hc⟩
  rw [hnone] at hlen
  cases hlen

/-- The stretches are those of the text that they stand for. -/
inductive Parsed : List Stretch → Prop
  | nil : Parsed []
  | glyph {g : Glyph} {us : List Stretch} : useAt (valuesOf (g :: original us)) = none → Parsed us →
      Parsed (.glyph g :: us)
  | use {f : TimeFn} {w : List Glyph} {us : List Stretch} :
      useAt (valuesOf (w ++ original us)) = some (f, w.length) → Parsed us → Parsed (.use f w :: us)

theorem Parsed.tail {u : Stretch} {us : List Stretch} (h : Parsed (u :: us)) : Parsed us := by
  cases h with
  | glyph _ hus => exact hus
  | use _ hus => exact hus

theorem Parsed.useAt {f : TimeFn} {w : List Glyph} {us : List Stretch} (h : Parsed (.use f w :: us)) :
    PgShadow.useAt (valuesOf (w ++ original us)) = some (f, w.length) := by
  cases h with
  | use huse _ => exact huse

/-- A use that is parsed is one in the text. -/
theorem Parsed.use_form {f : TimeFn} {w : List Glyph} {us : List Stretch} (h : Parsed (.use f w :: us)) :
    f.Form (valuesOf w) ∧ f.Ends (valuesOf (original us)) := by
  obtain ⟨v, c, ha, hlen, hform, hends⟩ := useAt_some h.useAt
  rw [valuesOf_append] at ha
  obtain ⟨rfl, rfl⟩ := List.append_inj ha (by rw [hlen, valuesOf, List.length_map])
  exact ⟨hform, hends⟩

theorem parse_spec (t : List Glyph) : Parsed (parse t) ∧ original (parse t) = t := by
  fun_induction parse t with
  | case1 => exact ⟨.nil, rfl⟩
  | case2 g t f n huse ih =>
    obtain ⟨hparsed, htext⟩ := ih
    obtain ⟨w, c, ha, hlen, hform, -⟩ := useAt_some huse
    have hpos := List.length_pos_of_ne_nil hform.ne_nil
    have hle : n ≤ t.length + 1 := by
      have hlens := congrArg List.length ha
      rw [List.length_append, valuesOf, List.length_map, List.length_cons] at hlens
      omega
    have hback : g :: t.take (n - 1) ++ original (parse (t.drop (n - 1))) = g :: t := by
      rw [htext, List.cons_append, List.take_append_drop]
    refine ⟨.use ?_ hparsed, hback⟩
    rw [hback, huse, List.length_cons, List.length_take, Nat.min_eq_left (by omega), Nat.sub_add_cancel (by omega)]
  | case3 g t huse ih =>
    obtain ⟨hparsed, htext⟩ := ih
    refine ⟨.glyph ?_ hparsed, ?_⟩
    · rw [htext, huse]
    · rw [original_glyph, htext]

/-! ### Texts without a name -/

/-- No name starts in the text, whatever comes after it. -/
def Apart (w : List ℕ) : Prop :=
  ∀ p q, w = p ++ q → q ≠ [] → ∀ (f : TimeFn) (m a u : List ℕ), Spelled f.name m → q ++ a ≠ m ++ u

theorem Apart.tail {x : ℕ} {w : List ℕ} (h : Apart (x :: w)) : Apart w :=
  fun p q hw => h (x :: p) q (congrArg (x :: ·) hw)

/-- A rune that is no letter of a name. -/
theorem Apart.cons {x : ℕ} {w : List ℕ} (hx : x ≤ 64) (h : Apart w) : Apart (x :: w) := by
  intro p q hw hq f m a u hm he
  rcases p with _ | ⟨y, p⟩
  · obtain ⟨z, m, rfl⟩ := List.exists_cons_of_ne_nil (TimeFn.spelled_ne_nil hm)
    rw [List.nil_append] at hw
    rw [← hw] at he
    obtain ⟨rfl, -⟩ := List.cons.inj he
    have hlarge := TimeFn.spelled_large hm x List.mem_cons_self
    omega
  · exact h p q (List.cons.inj hw).2 hq f m a u hm he

/-- A use after its first rune. -/
theorem TimeFn.Form.apart_tail {f : TimeFn} {x : ℕ} {w : List ℕ} (h : f.Form (x :: w)) : Apart w := by
  intro p q hw hq g m a u hm
  subst hw
  exact h.apart (p := x :: p) (List.cons_ne_nil x p) hq hm

section Apart

variable (f : TimeFn)

theorem matchLen_apart {x : ℕ} {w : List ℕ} (h : Apart (x :: w)) (b a : List ℕ) :
    f.regex.matchLen b (x :: (w ++ a)) = none := by
  rcases hlen : f.regex.matchLen b (x :: (w ++ a)) with _ | k
  · rfl
  · obtain ⟨-, v, c, he, -, ⟨n, u, hn, -, rfl⟩, -⟩ := f.matchLen_iff.mp hlen
    rw [List.append_assoc] at he
    exact absurd he (h [] (x :: w) rfl (List.cons_ne_nil x w) f n a (u ++ c) hn)

theorem foundFrom_apart (a : List ℕ) : ∀ {w : List ℕ}, Apart w → ∀ b : List ℕ,
    f.regex.foundFrom b (w ++ a) = f.regex.foundFrom (w.reverse ++ b) a
  | [], _, _ => rfl
  | x :: w, h, b => by
    rw [List.cons_append, Regex.foundFrom, ← Regex.matchLen_isSome, matchLen_apart f h, Option.isSome_none,
      Bool.false_or, foundFrom_apart a h.tail, List.reverse_cons, List.append_assoc, List.singleton_append]

/-- One replacement from a position on, as glyphs. -/
def passFrom (v : List Glyph) (b : List ℕ) (t : List Glyph) : List Glyph :=
  f.regex.replaceFrom Glyph.value (fun g => [g]) v true 0 b t

theorem passFrom_none {v : List Glyph} {b : List ℕ} {g : Glyph} {t : List Glyph}
    (h : f.regex.matchLen b (valuesOf (g :: t)) = none) :
    passFrom f v b (g :: t) = g :: passFrom f v (g.value :: b) t :=
  Regex.replaceFrom_none _ _ _ _ h true

theorem passFrom_apart (v t : List Glyph) : ∀ {w : List Glyph}, Apart (valuesOf w) → ∀ b : List ℕ,
    passFrom f v b (w ++ t) = w ++ passFrom f v ((valuesOf w).reverse ++ b) t
  | [], _, _ => rfl
  | g :: w, h, b => by
    have hlen : f.regex.matchLen b (valuesOf (g :: (w ++ t))) = none := by
      rw [valuesOf_cons, valuesOf_append]
      exact matchLen_apart f h b _
    rw [List.cons_append, passFrom_none f hlen, passFrom_apart v t h.tail, valuesOf_cons, List.reverse_cons,
      List.append_assoc, List.singleton_append, List.cons_append]

end Apart

/-! ### What is inserted -/

/-- The type behind the literal. -/
def TimeFn.cast : TimeFn → String
  | .currentDate => "date"
  | .currentTime => "timetz"
  | _ => "timestamptz"

/-- An ASCII text outside the literals. -/
def asciiGlyphs (s : String) : List Glyph := s.toList.map fun c => .rune [chr c] c.toNat

/-- The literal with its cast. -/
def block (body : TimeFn → Bytes) (f : TimeFn) : List Glyph :=
  raws (39 :: (body f ++ [39])) ++ (asciiGlyphs "::" ++ asciiGlyphs f.cast)

/-- No name starts in a cast. -/
theorem casts_apart : ∀ f ∈ TimeFn.all, f.cast.toList.all isNameLetter = true ∧ ∀ g ∈ TimeFn.all,
    ∀ k < f.cast.toList.length, compatible (f.cast.toList.drop k) g.name.toList = false := by
  decide +kernel

theorem spelledAs_self {cs : List Char} (h : ∀ c ∈ cs, isNameLetter c = true) : SpelledAs cs (cs.map Char.toNat) := by
  rw [SpelledAs, List.forall₂_map_right_iff, List.forall₂_same]
  intro c hc
  have hletter := h c hc
  simp only [isNameLetter, Bool.or_eq_true, Bool.and_eq_true, decide_eq_true_eq, beq_iff_eq] at hletter
  rw [sameLetter, if_neg (by omega)]
  simp

theorem apart_cast (f : TimeFn) : Apart (f.cast.toList.map Char.toNat) := by
  obtain ⟨hall, happart⟩ := casts_apart f f.mem_all
  have hletters := List.all_eq_true.mp hall
  intro p q hw hq g m a u hm he
  have hlen : p.length < f.cast.toList.length := by
    have hpos := List.length_pos_of_ne_nil hq
    have hsum := congrArg List.length hw
    rw [List.length_map, List.length_append] at hsum
    omega
  have hrest : SpelledAs (f.cast.toList.drop p.length) q := by
    have hdrop := spelledAs_self fun c hc => hletters c (List.mem_of_mem_drop (i := p.length) hc)
    rwa [List.map_drop, hw, List.drop_left] at hdrop
  have hfit := compatible_of_spelled (fun c hc => hletters c (List.mem_of_mem_drop hc)) g.letters hrest hm he
  rw [happart g g.mem_all p.length hlen] at hfit
  cases hfit

theorem valuesOf_raws (s : Bytes) : valuesOf (raws s) = List.replicate s.length 39 := by
  rw [valuesOf, raws, List.map_map]
  exact List.map_const'

theorem valuesOf_ascii (s : String) : valuesOf (asciiGlyphs s) = s.toList.map Char.toNat := by
  rw [valuesOf, asciiGlyphs, List.map_map]
  rfl

section Block

variable (body : TimeFn → Bytes) (f : TimeFn)

theorem apart_block : Apart (valuesOf (block body f)) := by
  have hraws : ∀ k, Apart (List.replicate k 39 ++ (58 :: 58 :: f.cast.toList.map Char.toNat)) := by
    intro k
    induction k with
    | zero => exact ((apart_cast f).cons (by decide)).cons (by decide)
    | succ k ih => exact ih.cons (by decide)
  rw [block, valuesOf_append, valuesOf_append, valuesOf_raws, valuesOf_ascii, valuesOf_ascii]
  exact hraws _

/-- The last letter of the cast. -/
theorem isWord_block : isWord (valuesOf (block body f)).getLast? = true := by
  rw [block, valuesOf_append, valuesOf_append, valuesOf_ascii f.cast, ← List.append_assoc]
  cases f <;> simp [TimeFn.cast, isWord, isWordRune]

end Block

/-! ### The stages -/

/-- What stands before a position: a rune, a word rune or not, or a call that is
replaced. -/
inductive Left
  | plain (word : Bool)
  | call (f : TimeFn)

namespace Left

/-- Before the pattern with index `n`, a word rune stands before the position. -/
def wordAt (n : ℕ) : Left → Bool
  | plain word => word
  | call f => f.index < n

/-- When it is the turn of its pattern, the use has a boundary in front. -/
def hit (l : Left) (f : TimeFn) (w : List Glyph) : Bool := l.wordAt f.index != isWord (valuesOf w).head?

/-- A call that is replaced after the pattern has had its turn. -/
def passed (f : TimeFn) : Left → Bool
  | plain _ => false
  | call g => f.index ≤ g.index

/-- After a use. -/
def after (l : Left) (f : TimeFn) (w : List Glyph) : Left :=
  if f.call then if l.hit f w then call f else plain false else plain true

theorem wordAt_mono {l : Left} {m n : ℕ} (hmn : m ≤ n) (h : l.wordAt m = true) : l.wordAt n = true := by
  cases l with
  | plain word => exact h
  | call f =>
    simp only [wordAt, decide_eq_true_eq] at h ⊢
    omega

end Left

/-- After a glyph. -/
def Glyph.left (g : Glyph) : Left := .plain (isWordRune g.value)

/-- The text before the pattern with index `n`. -/
def shown (body : TimeFn → Bytes) (n : ℕ) : Left → List Stretch → List Glyph
  | _, [] => []
  | _, .glyph g :: us => g :: shown body n g.left us
  | l, .use f w :: us => (if l.hit f w ∧ f.index < n then block body f else w) ++ shown body n (l.after f w) us

/-- A call is replaced in front of a use that its pattern has passed without a boundary. -/
def exposes : Left → List Stretch → Bool
  | _, [] => false
  | _, .glyph g :: us => exposes g.left us
  | l, .use f w :: us => (l.passed f && !isWord (valuesOf w).head?) || exposes (l.after f w) us

theorem index_lt (f : TimeFn) : f.index < 7 := by cases f <;> decide

theorem index_inj {f g : TimeFn} (h : f.index = g.index) : f = g := by
  have hall : ∀ f ∈ TimeFn.all, ∀ g ∈ TimeFn.all, f.index = g.index → f = g := by decide
  exact hall f f.mem_all g g.mem_all h

/-- A use without a boundary gets one by a call that is replaced later. -/
theorem Left.exposed_iff (l : Left) (f : TimeFn) (w : List Glyph) :
    l.hit f w ≠ true ∧ l.wordAt 7 ≠ isWord (valuesOf w).head? ↔ (l.passed f && !isWord (valuesOf w).head?) = true := by
  rw [hit]
  cases l with
  | plain word => simp [wordAt, passed]
  | call g =>
    have hg := index_lt g
    cases isWord (valuesOf w).head? <;> simp [wordAt, passed, hg]

section Stages

variable (body : TimeFn → Bytes)

/-- Before the first pattern nothing is replaced. -/
theorem shown_zero : ∀ (l : Left) (us : List Stretch), shown body 0 l us = original us
  | _, [] => rfl
  | l, .glyph g :: us => congrArg (g :: ·) (shown_zero g.left us)
  | l, .use f w :: us => by
    rw [shown, if_neg fun h => Nat.not_lt_zero _ h.2, shown_zero (l.after f w) us, original_use]

/-- Behind a word rune, a use that is replaced does not start with a word rune. -/
theorem isWord_shown (n : ℕ) : ∀ {us : List Stretch}, Parsed us →
    isWord (valuesOf (shown body n (.plain true) us)).head? = isWord (valuesOf (original us)).head?
  | [], _ => rfl
  | .glyph g :: us, _ => rfl
  | .use f w :: us, h => by
    have hne := h.use_form.1.ne_nil
    rw [shown, original_use, valuesOf_append, valuesOf_append, List.head?_append_of_ne_nil _ hne]
    split
    · rename_i hhit
      have hstart : (true != isWord (valuesOf w).head?) = true := hhit.1
      rw [Bool.true_bne, Bool.not_eq_true'] at hstart
      rw [hstart]
      rfl
    · rw [List.head?_append_of_ne_nil _ hne]

/-- **What is shown as it was.** A text without names and delimiters that is shown
somewhere stood there from the start. The stretches after it are shown after it. -/
theorem shown_apart (n : ℕ) : ∀ {us : List Stretch}, Parsed us → ∀ {x : ℕ} {q a : List ℕ},
    valuesOf (shown body n (.plain (isWordRune x)) us) = q ++ a → Apart q → (∀ y ∈ q, ¬IsDelimiter y) →
    ∃ us', Parsed us' ∧ valuesOf (original us) = q ++ valuesOf (original us') ∧
      a = valuesOf (shown body n (.plain (isWord (x :: q).getLast?)) us')
  | us, h, x, [], a, he, _, _ => ⟨us, h, rfl, he.symm⟩
  | [], _, x, y :: q, a, he, _, _ => by
    cases he
  | .glyph g :: us, .glyph _ h, x, y :: q, a, he, hq, hdelim => by
    obtain ⟨rfl, htail⟩ := List.cons.inj he
    obtain ⟨us', hus', horig, ha⟩ := shown_apart n h htail hq.tail (List.forall_mem_cons.mp hdelim).2
    exact ⟨us', hus', congrArg (g.value :: ·) horig, by rw [List.getLast?_cons_cons]; exact ha⟩
  | .use f w :: us, h, x, y :: q, a, he, hq, hdelim => by
    -- a literal starts with a delimiter, a use with its name
    rw [shown] at he
    split at he
    · obtain ⟨rfl, -⟩ := List.cons.inj he
      exact absurd (.inr rfl) (hdelim 39 List.mem_cons_self)
    · obtain ⟨m, v, hm, -, hw⟩ := h.use_form.1
      rw [valuesOf_append, hw, List.append_assoc] at he
      exact absurd he.symm (hq [] (y :: q) rfl (List.cons_ne_nil y q) f m a _ hm)

/-- A use that is shown from within its name on stood there from the start. -/
theorem form_original {n : ℕ} {us : List Stretch} (h : Parsed us) {f : TimeFn} {p q c : List ℕ} {x : ℕ}
    (hform : f.Form (p ++ x :: q)) (he : valuesOf (shown body n (.plain (isWordRune x)) us) = q ++ c)
    (hends : f.Ends c) : ∃ c', valuesOf (original us) = q ++ c' ∧ f.Ends c' := by
  have hsplit : p ++ x :: q = (p ++ [x]) ++ q := by rw [List.append_assoc, List.singleton_append]
  have hapart : Apart q := by
    intro p' q' hq hne g m a u hm
    rw [hsplit, hq, ← List.append_assoc] at hform
    exact hform.apart (by simp) hne hm
  have hdelim : ∀ y ∈ q, ¬IsDelimiter y := fun y hy => hform.plain y (by simp [hy])
  obtain ⟨us', hus', horig, hc⟩ := shown_apart body n h he hapart hdelim
  refine ⟨_, horig, ?_⟩
  cases hcall : f.call with
  | true => exact .inl hcall
  | false =>
    have hlast := hform.isWord_getLast hcall
    rw [List.getLast?_append_of_ne_nil _ (List.cons_ne_nil x q)] at hlast
    have hnext : isWord c.head? = false := hends.resolve_left fun h => Bool.false_ne_true (hcall.symm.trans h)
    rw [hlast] at hc
    rw [hc, isWord_shown body n hus'] at hnext
    exact .inr hnext

/-- No pattern matches from a glyph between the uses. -/
theorem matchLen_glyph {g : Glyph} {us : List Stretch} (h : Parsed (.glyph g :: us)) (f : TimeFn) (n : ℕ)
    (b : List ℕ) : f.regex.matchLen b (valuesOf (g :: shown body n g.left us)) = none := by
  rcases hlen : f.regex.matchLen b (valuesOf (g :: shown body n g.left us)) with _ | k
  · rfl
  · obtain ⟨-, w, c, he, -, hform, hends⟩ := f.matchLen_iff.mp hlen
    obtain ⟨x, q, rfl⟩ := List.exists_cons_of_ne_nil hform.ne_nil
    obtain ⟨rfl, htail⟩ := List.cons.inj he
    cases h with
    | glyph hnone hus =>
      obtain ⟨c', horig, hends'⟩ := form_original body hus (p := []) hform htail hends
      exact absurd hends' (useAt_none hnone (w := g.value :: q) (congrArg (g.value :: ·) horig) hform)

/-- A shorter name is not parsed where the longer one is shown. -/
theorem longer_name {w : List Glyph} {us : List Stretch} (h : Parsed (.use .currentTime w :: us)) {n : ℕ} {l : Left}
    {v c : List ℕ} (he : valuesOf w ++ valuesOf (shown body n (l.after .currentTime w) us) = v ++ c)
    (hform : TimeFn.currentTimestamp.Form v) : ¬TimeFn.currentTimestamp.Ends c := by
  intro hends
  obtain ⟨hshort, -⟩ := h.use_form
  have hlast := hshort.isWord_getLast rfl
  have hlen : (valuesOf w).length ≤ v.length := by
    obtain ⟨m, u, hm, hu, hw⟩ := hshort
    obtain ⟨m', u', hm', hu', rfl⟩ := hform
    obtain rfl : u = [] := hu
    rw [hw, List.append_nil, List.length_append, ← hm.length_eq, ← hm'.length_eq]
    exact le_trans (by decide) (Nat.le_add_right _ _)
  obtain ⟨q, rfl⟩ :=
    List.prefix_of_prefix_length_le (List.prefix_append (valuesOf w) _) (he ▸ List.prefix_append v c) hlen
  obtain ⟨p, x, hpx⟩ := (List.eq_nil_or_concat' (valuesOf w)).resolve_left hshort.ne_nil
  rw [hpx, List.getLast?_concat] at hlast
  have hafter : l.after .currentTime w = .plain (isWordRune x) := congrArg Left.plain hlast.symm
  rw [hafter, List.append_assoc, List.append_cancel_left_eq] at he
  rw [hpx, List.append_assoc, List.singleton_append] at hform
  obtain ⟨c', horig, hends'⟩ := form_original body h.tail hform he hends
  refine useAt_first h.useAt (by decide) (w := p ++ x :: q) (c := c') ?_ hform hends'
  rw [valuesOf_append, horig, hpx, ← List.append_assoc, List.append_assoc p, List.singleton_append]

/-- **The patterns from a use on** that is shown as it was: the pattern of its function
matches it if there is a boundary. -/
theorem matchLen_use {f' : TimeFn} {w : List Glyph} {us : List Stretch} (h : Parsed (.use f' w :: us)) (l : Left)
    (f : TimeFn) {n : ℕ} (hn : f.index ≤ n) (hkept : ¬(l.hit f' w = true ∧ f'.index < n)) {b : List ℕ}
    (hb : isWord b.head? = l.wordAt n) :
    f.regex.matchLen b (valuesOf (w ++ shown body n (l.after f' w) us)) =
      if f = f' ∧ l.wordAt n ≠ isWord (valuesOf w).head? then some w.length else none := by
  obtain ⟨hform, hends⟩ := h.use_form
  have hus := h.tail
  have hhead : ∀ a, (valuesOf w ++ a).head? = (valuesOf w).head? := fun a => List.head?_append_of_ne_nil _ hform.ne_nil
  rw [valuesOf_append]
  split
  · rename_i hmatch
    obtain ⟨rfl, hedge⟩ := hmatch
    refine f.matchLen_iff.mpr ⟨?_, valuesOf w, _, rfl, List.length_map _, hform, ?_⟩
    · rw [Edge, hb, hhead]
      exact hedge
    cases hcall : f.call with
    | true => exact .inl hcall
    | false =>
      have hnext : isWord (valuesOf (original us)).head? = false :=
        hends.resolve_left fun h => Bool.false_ne_true (hcall.symm.trans h)
      rw [Left.after, hcall, if_neg Bool.false_ne_true]
      exact .inr ((isWord_shown body n hus).trans hnext)
  · rename_i hmatch
    rcases hlen : f.regex.matchLen b (valuesOf w ++ valuesOf (shown body n (l.after f' w) us)) with _ | k
    · rfl
    exfalso
    obtain ⟨hedge, v, c, he, -, hform', hends'⟩ := f.matchLen_iff.mp hlen
    rw [Edge, hb, hhead] at hedge
    obtain ⟨m, u, hm, hu, hw⟩ := id hform
    obtain ⟨m', u', hm', hu', rfl⟩ := id hform'
    have hstart : m ++ (u ++ valuesOf (shown body n (l.after f' w) us)) = m' ++ (u' ++ c) := by
      rw [← List.append_assoc, ← hw, he, List.append_assoc]
    rcases TimeFn.spelled_start hm hm' hstart with rfl | ⟨rfl, rfl⟩ | ⟨rfl, rfl⟩
    · exact hmatch ⟨rfl, hedge⟩
    · -- the pattern of the longer name has had its turn without a boundary
      have hword : isWord (valuesOf w).head? = true := by
        rw [hw]
        exact TimeFn.isWord_head rfl hm u
      have hmiss : l.hit .currentTimestamp w ≠ true := fun hhit => hkept ⟨hhit, lt_of_lt_of_le (by decide) hn⟩
      rw [Left.hit, hword, ne_eq, bne_iff_ne, not_not] at hmiss
      exact hedge ((l.wordAt_mono (le_trans (by decide) hn) hmiss).trans hword.symm)
    · -- the longer name would have been parsed
      exact longer_name body h he hform' hends'

theorem head_reverse {v : List ℕ} (hv : v ≠ []) (b : List ℕ) : (v.reverse ++ b).head? = v.getLast? := by
  rw [List.head?_append_of_ne_nil _ (by simpa using hv), List.head?_reverse]

/-- What stands behind a use that is shown as it was. -/
theorem wordAt_kept {l : Left} {f : TimeFn} {w : List Glyph} (hform : f.Form (valuesOf w)) {n : ℕ}
    (hkept : ¬(l.hit f w = true ∧ f.index < n)) (b : List ℕ) :
    isWord ((valuesOf w).reverse ++ b).head? = (l.after f w).wordAt n := by
  rw [head_reverse hform.ne_nil, Left.after]
  split
  · rename_i hcall
    rw [hform.isWord_getLast_call hcall]
    split
    · exact (decide_eq_false fun hlt => hkept ⟨‹_›, hlt⟩).symm
    · rfl
  · rename_i hcall
    exact hform.isWord_getLast (Bool.eq_false_of_not_eq_true hcall)

/-- What stands behind a use that is replaced. -/
theorem wordAt_block {l : Left} {f : TimeFn} {w : List Glyph} {n : ℕ} (hdone : l.hit f w = true ∧ f.index < n)
    (b : List ℕ) : isWord ((valuesOf (block body f)).reverse ++ b).head? = (l.after f w).wordAt n := by
  have hne : valuesOf (block body f) ≠ [] := List.cons_ne_nil _ _
  rw [head_reverse hne, isWord_block, Left.after, if_pos hdone.1]
  split
  · exact (decide_eq_true hdone.2).symm
  · rfl

/-- **One replacement** leads from one stage to the next. -/
theorem replace_shown (f : TimeFn) : ∀ {us : List Stretch}, Parsed us → ∀ {l : Left} {b : List ℕ},
    isWord b.head? = l.wordAt f.index →
      passFrom f (block body f) b (shown body f.index l us) = shown body (f.index + 1) l us
  | [], _, l, b, _ => by
    rw [shown, shown, passFrom, Regex.replaceFrom, f.walled.matchLen_nil]
    rfl
  | .glyph g :: us, h, l, b, _ => by
    have hus := h.tail
    rw [shown, passFrom_none f (matchLen_glyph body h f f.index b), replace_shown f hus rfl, shown]
  | .use f' w :: us, h, l, b, hb => by
    have hus := h.tail
    obtain ⟨hform, -⟩ := h.use_form
    rw [shown, shown]
    by_cases hdone : l.hit f' w = true ∧ f'.index < f.index
    · rw [if_pos hdone, if_pos ⟨hdone.1, by omega⟩, passFrom_apart f _ _ (apart_block body f'),
        replace_shown f hus (wordAt_block body hdone b)]
    have hnext := wordAt_kept hform hdone b
    have hlen := matchLen_use body h l f le_rfl hdone hb
    rw [if_neg hdone]
    by_cases hmatch : f = f' ∧ l.wordAt f.index ≠ isWord (valuesOf w).head?
    · rw [if_pos hmatch] at hlen
      obtain ⟨rfl, hedge⟩ := hmatch
      have hw : w ≠ [] := by
        rintro rfl
        exact hform.ne_nil rfl
      rw [if_pos ⟨bne_iff_ne.mpr hedge, Nat.lt_succ_self _⟩, ← replace_shown f hus hnext]
      exact f.walled.replaceFrom_match hw hlen
    · have hkept : ¬(l.hit f' w = true ∧ f'.index < f.index + 1) := by
        rintro ⟨hhit, hlt⟩
        obtain rfl : f = f' := index_inj (by by_contra hne; exact hdone ⟨hhit, by omega⟩)
        exact hmatch ⟨rfl, bne_iff_ne.mp hhit⟩
      rw [if_neg hmatch] at hlen
      rw [if_neg hkept]
      rcases w with _ | ⟨g, w⟩
      · exact absurd rfl hform.ne_nil
      · rw [List.cons_append] at hlen
        rw [List.cons_append, passFrom_none f hlen, passFrom_apart f _ _ hform.apart_tail, ← replace_shown f hus hnext,
          valuesOf_cons, List.reverse_cons, List.append_assoc, List.singleton_append, List.cons_append]

/-- **What is left at the end.** No pattern matches unless a use is exposed. -/
theorem found_shown : ∀ {us : List Stretch}, Parsed us → ∀ {l : Left} {b : List ℕ}, isWord b.head? = l.wordAt 7 →
    ((∀ f : TimeFn, f.regex.foundFrom b (valuesOf (shown body 7 l us)) = false) ↔ exposes l us = false)
  | [], _, l, b, _ => by
    refine iff_of_true (fun f => ?_) rfl
    rw [shown, valuesOf, List.map_nil, Regex.foundFrom, ← Regex.matchLen_isSome, f.walled.matchLen_nil]
    rfl
  | .glyph g :: us, h, l, b, _ => by
    have hus := h.tail
    rw [exposes, ← found_shown hus (b := g.value :: b) rfl]
    refine forall_congr' fun f => ?_
    have hnone := matchLen_glyph body h f 7 b
    rw [valuesOf_cons] at hnone
    rw [shown, valuesOf_cons, Regex.foundFrom, ← Regex.matchLen_isSome, hnone, Option.isSome_none, Bool.false_or]
  | .use f' w :: us, h, l, b, hb => by
    have hus := h.tail
    obtain ⟨hform, -⟩ := h.use_form
    rw [shown, exposes]
    by_cases hdone : l.hit f' w = true ∧ f'.index < 7
    · have hexposed : (l.passed f' && !isWord (valuesOf w).head?) = false :=
        Bool.eq_false_of_not_eq_true fun he => ((l.exposed_iff f' w).mpr he).1 hdone.1
      rw [if_pos hdone, hexposed, Bool.false_or, ← found_shown hus (wordAt_block body hdone b)]
      refine forall_congr' fun f => ?_
      rw [valuesOf_append, foundFrom_apart f _ (apart_block body f')]
    have hmiss : l.hit f' w ≠ true := fun hhit => hdone ⟨hhit, index_lt f'⟩
    have hfound : ∀ f : TimeFn, f.regex.foundFrom b (valuesOf (w ++ shown body 7 (l.after f' w) us)) =
        (decide (f = f' ∧ l.wordAt 7 ≠ isWord (valuesOf w).head?) ||
          f.regex.foundFrom ((valuesOf w).reverse ++ b) (valuesOf (shown body 7 (l.after f' w) us))) := by
      intro f
      have hlen := matchLen_use body h l f (index_lt f).le hdone hb
      rcases w with _ | ⟨g, w⟩
      · exact absurd rfl hform.ne_nil
      have htail : Apart (valuesOf w) := hform.apart_tail
      rw [List.cons_append, valuesOf_cons] at hlen
      rw [List.cons_append, valuesOf_cons, Regex.foundFrom, ← Regex.matchLen_isSome, hlen, valuesOf_append,
        foundFrom_apart f _ htail, valuesOf_cons, List.reverse_cons, List.append_assoc, List.singleton_append]
      split
      · rename_i hmatch
        rw [decide_eq_true hmatch, Option.isSome_some]
      · rename_i hmatch
        rw [decide_eq_false hmatch, Option.isSome_none]
    rw [if_neg hdone]
    by_cases hedge : l.wordAt 7 ≠ isWord (valuesOf w).head?
    · rw [(l.exposed_iff f' w).mp ⟨hmiss, hedge⟩, Bool.true_or]
      refine iff_of_false (fun hall => ?_) Bool.true_eq_false_eq_False
      have hf' := hall f'
      rw [hfound, decide_eq_true ⟨rfl, hedge⟩] at hf'
      cases hf'
    · have hexposed : (l.passed f' && !isWord (valuesOf w).head?) = false :=
        Bool.eq_false_of_not_eq_true fun he => hedge ((l.exposed_iff f' w).mpr he).2
      rw [hexposed, Bool.false_or, ← found_shown hus (wordAt_kept hform hdone b)]
      refine forall_congr' fun f => ?_
      rw [hfound, decide_eq_false fun hf => hedge hf.2, Bool.false_or]

/-- A text that the replacements leave as it was has no use to replace. -/
theorem shown_of_eq : ∀ {us : List Stretch}, Parsed us → ∀ {l : Left}, shown body 7 l us = original us →
    ∀ n, shown body n l us = original us
  | [], _, l, _, n => rfl
  | .glyph g :: us, h, l, he, n => by
    have hus := h.tail
    exact congrArg (g :: ·) (shown_of_eq hus (List.cons.inj he).2 n)
  | .use f w :: us, h, l, he, n => by
    have hus := h.tail
    obtain ⟨hform, -⟩ := h.use_form
    rw [shown, original_use] at he
    have hmiss : l.hit f w ≠ true := by
      intro hhit
      rw [if_pos ⟨hhit, index_lt f⟩] at he
      rcases w with _ | ⟨g, w⟩
      · exact hform.ne_nil rfl
      · obtain ⟨rfl, -⟩ := List.cons.inj he
        exact hform.plain 39 List.mem_cons_self (.inr rfl)
    rw [if_neg fun hdone => hmiss hdone.1, List.append_cancel_left_eq] at he
    rw [shown, original_use, if_neg fun hdone => hmiss hdone.1, shown_of_eq hus he n]

end Stages

end PgShadow
