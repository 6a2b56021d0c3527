/-
# The classifier ignores letter case

Changing the case of any ASCII letters of a text changes neither its class nor
what the procedure heuristic says of it (`classify_ignores_case`), as long as the
text has no dollar sign: the tag of a dollar-quoted literal has to be closed in
the case it was opened in.

The proof lowers the whole text. Two texts that differ only in the case of their
letters have the same lowered text, so it is enough that every stage commutes
with lowering: what the scans skip (`skipRegion_lower`), the cuts of the splitting
loop (`cutsFrom_lower`), the tokens (`lex_lower`), and that all words are compared in
lower case anyway (`toLower_lower`).

Key definitions: `foldByte`, `recase`, `Token.lower`.
Key theorems: `lex_lower`, `Classifier.classify_lower`, `Classifier.classify_ignores_case`.
-/
import Mathlib.Data.List.Basic
import PgShadow.Filter.Batch
import PgShadow.Go.Runes

namespace PgShadow

/-! ### Bytes -/

/-- An ASCII letter in lower case; any other byte as it is. -/
def foldByte (b : UInt8) : UInt8 := if 65 ≤ b ∧ b ≤ 90 then b + 32 else b

/-- A byte with its case changed, if it is an ASCII letter. -/
def swapCase (b : UInt8) : UInt8 :=
  if 65 ≤ b ∧ b ≤ 90 then b + 32 else if 97 ≤ b ∧ b ≤ 122 then b - 32 else b

/-- The text with the case of its letters changed at the positions `changed`. -/
def recase (changed : ℕ → Bool) (s : Bytes) : Bytes := s.mapIdx fun i b => if changed i then swapCase b else b

/-- No ASCII letter. -/
def caseless (x : UInt8) : Bool := !((65 ≤ x && x ≤ 90) || (97 ≤ x && x ≤ 122))

theorem foldByte_toNat (b : UInt8) :
    (foldByte b).toNat = if 65 ≤ b.toNat ∧ b.toNat ≤ 90 then b.toNat + 32 else b.toNat := by
  have h32 : (32 : UInt8).toNat = 32 := rfl
  unfold foldByte
  simp only [UInt8.le_iff_toNat_le, UInt8.reduceToNat]
  split_ifs with h
  · rw [UInt8.toNat_add, h32]
    omega
  · rfl

/-- What the scans ask of a byte does not depend on its case. -/
theorem foldByte_facts : ∀ b : UInt8, foldByte (swapCase b) = foldByte b ∧
    (foldByte b == 32 || (9 ≤ foldByte b && foldByte b ≤ 13)) = (b == 32 || (9 ≤ b && b ≤ 13)) ∧
    isDigit (foldByte b) = isDigit b ∧ isIdentStart (foldByte b) = isIdentStart b :=
  forall_byte (by decide +kernel)

/-- A byte that is no letter is what it was before lowering. -/
theorem foldByte_eq_iff {x : UInt8} (hx : caseless x = true) (b : UInt8) : foldByte b = x ↔ b = x := by
  have hx' : (x.toNat < 65 ∨ 90 < x.toNat) ∧ (x.toNat < 97 ∨ 122 < x.toNat) := by
    simpa [caseless, UInt8.le_iff_toNat_le] using hx
  rw [← UInt8.toNat_inj, ← UInt8.toNat_inj, foldByte_toNat]
  split_ifs <;> omega

theorem foldByte_beq {x : UInt8} (hx : caseless x = true) (b : UInt8) : (foldByte b == x) = (b == x) := by
  rw [Bool.eq_iff_iff, beq_iff_eq, beq_iff_eq]
  exact foldByte_eq_iff hx b

theorem recase_lower (changed : ℕ → Bool) (s : Bytes) : (recase changed s).map foldByte = s.map foldByte := by
  apply List.ext_getElem
  · simp [recase]
  · intro i h1 h2
    simp only [recase, List.getElem_map, List.getElem_mapIdx]
    split_ifs
    · exact (foldByte_facts _).1
    · rfl

theorem notMem_lower {x : UInt8} (hx : caseless x = true) {s : Bytes} (hs : x ∉ s) : x ∉ s.map foldByte := by
  intro h
  obtain ⟨b, hb, hbx⟩ := List.mem_map.1 h
  rw [foldByte_eq_iff hx] at hbx
  exact hs (hbx ▸ hb)

theorem notMem_recase {x : UInt8} (hx : caseless x = true) (changed : ℕ → Bool) {s : Bytes} (hs : x ∉ s) :
    x ∉ recase changed s := by
  intro h
  have hlow : foldByte x ∈ s.map foldByte := by
    rw [← recase_lower changed s]
    exact List.mem_map_of_mem h
  rw [(foldByte_eq_iff hx x).2 rfl] at hlow
  exact notMem_lower hx hs hlow

theorem isIdentPart_lower (b : UInt8) : isIdentPart (foldByte b) = isIdentPart b := by
  obtain ⟨-, -, hdigit, hstart⟩ := foldByte_facts b
  rw [isIdentPart, isIdentPart, hstart, hdigit]

/-! ### Words are compared in lower case -/

theorem isCont_lower {lo : ℕ} (hlo : 0x80 ≤ lo) (hi : ℕ) (b : UInt8) :
    isCont lo hi (foldByte b) = isCont lo hi b := by
  rw [isCont, isCont, foldByte_toNat, Bool.eq_iff_iff]
  simp only [Bool.and_eq_true, decide_eq_true_eq]
  split_ifs <;> omega

theorem foldByte_of_le {b : UInt8} (hb : 128 ≤ b.toNat) : foldByte b = b := by
  rw [← UInt8.toNat_inj, foldByte_toNat, if_neg (by omega)]

/-- Of a rune beyond ASCII lowering changes no byte. -/
theorem decodeRune_lower {b : UInt8} (hb : 128 ≤ b.toNat) (t : Bytes) :
    decodeRune (b :: t.map foldByte) = decodeRune (b :: t) := by
  have hcont : ∀ {lo hi : ℕ} {c : UInt8}, 0x80 ≤ lo → isCont lo hi c = true → foldByte c = c := by
    intro lo hi c hlo h
    exact foldByte_of_le (hlo.trans (le_of_isCont h))
  rcases lead_cases b with hlt | ⟨-, hlead⟩ | ⟨h, hlead⟩ | ⟨h, hlead⟩ | ⟨h, hlead⟩
  · omega
  · rw [decodeRune_invalid hb hlead, decodeRune_invalid hb hlead]
  · rw [decodeRune_two h hlead, decodeRune_two h hlead]
    rcases t with _ | ⟨c, t⟩
    · rfl
    · simp only [List.map_cons, isCont_lower le_rfl]
      split_ifs with hc
      · rw [hcont le_rfl hc]
      · rfl
  · rw [decodeRune_three h hlead, decodeRune_three h hlead]
    rcases t with _ | ⟨c, _ | ⟨d, t⟩⟩
    · rfl
    · rfl
    · simp only [List.map_cons, isCont_lower le_rfl, isCont_lower (le_secondLo b.toNat)]
      split_ifs with hc
      · rw [Bool.and_eq_true] at hc
        rw [hcont (le_secondLo _) hc.1, hcont le_rfl hc.2]
      · rfl
  · rw [decodeRune_four h hlead, decodeRune_four h hlead]
    rcases t with _ | ⟨c, _ | ⟨d, _ | ⟨e, t⟩⟩⟩
    · rfl
    · rfl
    · rfl
    · simp only [List.map_cons, isCont_lower le_rfl, isCont_lower (le_secondLo b.toNat)]
      split_ifs with hc
      · rw [Bool.and_eq_true, Bool.and_eq_true] at hc
        rw [hcont (le_secondLo _) hc.1.1, hcont le_rfl hc.1.2, hcont le_rfl hc.2]
      · rfl

/-- The lower case of a word does not depend on the case of its ASCII letters. -/
theorem toLower_lower (U : CaseTable) (w : Bytes) : toLower U (w.map foldByte) = toLower U w := by
  -- rune by rune, as the words are mapped
  match w with
  | [] => rfl
  | b :: t =>
    by_cases hb : b.toNat < 128
    · have hlow : (foldByte b).toNat < 128 := by
        rw [foldByte_toNat]
        split_ifs <;> omega
      rw [List.map_cons, toLower_cons U hlow, toLower_cons U hb, toLower_lower U t]
      have hidem : (if 65 ≤ foldByte b ∧ foldByte b ≤ 90 then foldByte b + 32 else foldByte b) =
          if 65 ≤ b ∧ b ≤ 90 then b + 32 else b := by
        show foldByte (foldByte b) = foldByte b
        rw [← UInt8.toNat_inj, foldByte_toNat (foldByte b), foldByte_toNat b]
        split_ifs <;> omega
      rw [hidem]
    · have hle : 128 ≤ b.toNat := by omega
      rw [List.map_cons, foldByte_of_le hle]
      unfold toLower
      rw [mapRunes, mapRunes, decodeRune_lower hle, ← List.map_drop]
      exact congrArg (_ ++ ·) (toLower_lower U (t.drop ((decodeRune (b :: t)).2 - 1)))
termination_by w.length
decreasing_by
  · simp
  · simp only [List.length_drop, List.length_cons]
    omega

/-! ### The scans -/

theorem skipLine_lower (s : Bytes) : skipLine (s.map foldByte) = (skipLine s).map foldByte := by
  have hp : ((· != 10) ∘ foldByte : UInt8 → Bool) = (· != 10) := by
    funext b
    show (!(foldByte b == 10)) = !(b == 10)
    rw [foldByte_beq (by decide)]
  rw [skipLine, skipLine, List.dropWhile_map, hp]

theorem skipBlock_lower : ∀ (d : ℕ) (s : Bytes), skipBlock d (s.map foldByte) = (skipBlock d s).map foldByte
  | 0, s => by simp [skipBlock]
  | _ + 1, [] => rfl
  | _ + 1, [_] => rfl
  | d + 1, a :: b :: t => by
    have hslash : caseless (chr '/') = true := by decide
    have hstar : caseless (chr '*') = true := by decide
    have ih := skipBlock_lower (d + 1) (b :: t)
    simp only [List.map_cons, skipBlock, foldByte_eq_iff hslash, foldByte_eq_iff hstar] at ih ⊢
    split_ifs
    · exact skipBlock_lower (d + 2) t
    · exact skipBlock_lower d t
    · exact ih

theorem quotedText_lower {q : UInt8} (hq : caseless q = true) : ∀ s : Bytes,
    quotedText q (s.map foldByte) = ((quotedText q s).1.map foldByte, (quotedText q s).2.map foldByte)
  | [] => rfl
  | [a] => by
    simp only [List.map_cons, List.map_nil, quotedText, foldByte_eq_iff hq]
    split_ifs <;> rfl
  | a :: b :: t => by
    have hself : foldByte q = q := (foldByte_eq_iff hq q).2 rfl
    have ih := quotedText_lower hq (b :: t)
    rw [List.map_cons] at ih
    simp only [List.map_cons, quotedText, foldByte_eq_iff hq, ih, quotedText_lower hq t]
    split_ifs
    · simp [hself]
    · rfl
    · rfl

theorem head_lower {x : UInt8} (hx : caseless x = true) (t : Bytes) :
    ((t.map foldByte).head? == some x) = (t.head? == some x) := by
  cases t with
  | nil => rfl
  | cons b t =>
    show (some (foldByte b) == some x) = (some b == some x)
    exact foldByte_beq hx b

/-- What the scans skip, where no dollar sign starts it. -/
theorem skipRegion_lower {c : UInt8} (hc : c ≠ chr '$') (t : Bytes) :
    skipRegion (foldByte c) (t.map foldByte) = (skipRegion c t).map (List.map foldByte) := by
  have hdash : caseless (chr '-') = true := by decide
  have hslash : caseless (chr '/') = true := by decide
  have hstar : caseless (chr '*') = true := by decide
  have hquote : caseless (chr '\'') = true := by decide
  have hdollar : ¬ (c == chr '$') = true := by simpa using hc
  unfold skipRegion
  rw [foldByte_beq hdash, foldByte_beq hslash, foldByte_beq hquote, foldByte_beq (by decide), head_lower hdash,
    head_lower hstar, if_neg hdollar, if_neg hdollar]
  split_ifs
  · rw [← List.map_drop, skipLine_lower, ← List.map_drop]
    rfl
  · rw [← List.map_drop, skipBlock_lower]
    rfl
  · rw [skipString, skipString, quotedText_lower hquote]
    rfl
  · rfl

/-- A token with its word lowered. -/
def Token.lower : Token → Token
  | .word w => .word (w.map foldByte)
  | t => t

/-- The round `x` on the lowered text is the round `y` on the text, lowered. -/
def LoweredRound (x y : Lexeme × Bytes) : Prop :=
  x.1.token = y.1.token.map Token.lower ∧ x.2 = y.2.map foldByte

theorem LoweredRound.ite {p : Prop} [Decidable p] {x y x' y' : Lexeme × Bytes} (h : LoweredRound x y)
    (h' : LoweredRound x' y') : LoweredRound (if p then x else x') (if p then y else y') := by
  by_cases hp : p
  · rw [if_pos hp, if_pos hp]
    exact h
  · rw [if_neg hp, if_neg hp]
    exact h'

/-- One round of the lexer, where no dollar sign starts it. -/
theorem lexStep_lower {c : UInt8} (hc : c ≠ chr '$') (t : Bytes) :
    LoweredRound (lexStep (foldByte c) (t.map foldByte)) (lexStep c t) := by
  have hdash : caseless (chr '-') = true := by decide
  have hslash : caseless (chr '/') = true := by decide
  have hstar : caseless (chr '*') = true := by decide
  have hdollar : ¬ (c == chr '$') = true := by simpa using hc
  have hpart : isIdentPart ∘ foldByte = isIdentPart := funext isIdentPart_lower
  obtain ⟨-, hblank, -, hstart⟩ := foldByte_facts c
  unfold lexStep
  rw [hblank, hstart, foldByte_beq hdash, foldByte_beq hslash, foldByte_beq (x := chr '\'') (by decide),
    foldByte_beq (x := chr '"') (by decide), foldByte_beq (x := chr '$') (by decide),
    foldByte_beq (x := chr '(') (by decide), foldByte_beq (x := chr ')') (by decide),
    foldByte_beq (x := chr '.') (by decide), head_lower hdash, head_lower hstar, if_neg hdollar, if_neg hdollar]
  -- the two ladders ask the same of the byte; what they answer is compared rung by rung
  apply LoweredRound.ite ⟨rfl, rfl⟩
  apply LoweredRound.ite ⟨rfl, by rw [← List.map_drop, skipLine_lower]⟩
  apply LoweredRound.ite ⟨rfl, by rw [← List.map_drop, skipBlock_lower]⟩
  apply LoweredRound.ite ⟨rfl, congrArg Prod.snd (quotedText_lower (by decide) t)⟩
  apply LoweredRound.ite
  · rw [quotedIdent, quotedIdent, quotedText_lower (by decide)]
    exact ⟨rfl, rfl⟩
  apply LoweredRound.ite ⟨rfl, rfl⟩
  apply LoweredRound.ite ⟨rfl, rfl⟩
  apply LoweredRound.ite ⟨rfl, rfl⟩
  apply LoweredRound.ite
  · rw [List.takeWhile_map, List.dropWhile_map, hpart]
    exact ⟨rfl, rfl⟩
  · exact ⟨rfl, rfl⟩

/-- The lowered text has the lowered tokens. -/
theorem lex_lower (s : Bytes) (hs : chr '$' ∉ s) : lex (s.map foldByte) = (lex s).map Token.lower := by
  induction s using lexer.token_induction with
  | nil => rw [List.map_nil, lex, List.map_nil]
  | cons c t ih =>
    rw [List.mem_cons, not_or] at hs
    obtain ⟨htoken, hrest⟩ := lexStep_lower (Ne.symm hs.1) t
    have ih' := ih fun h => hs.2 ((lexStep_suffix c t).subset h)
    rw [List.map_cons, lex_cons, lex_cons, htoken, hrest, List.map_append]
    refine congrArg₂ (· ++ ·) ?_ ih'
    cases (lexStep c t).1.token <;> rfl

/-! ### The statements of a batch -/

theorem depthAfter_lower (d : ℕ) (c : UInt8) : depthAfter d (foldByte c) = depthAfter d c := by
  rw [depthAfter, depthAfter, foldByte_beq (by decide), foldByte_beq (by decide)]

/-- The lowered text is cut where the text is. -/
theorem cutsFrom_lower (d : ℕ) (s : Bytes) (hs : chr '$' ∉ s) :
    cutsFrom d (s.map foldByte) = (cutsFrom d s).map (List.map foldByte) := by
  induction s using splitter.token_induction generalizing d with
  | nil => rw [List.map_nil, cutsFrom_nil, List.map_nil]
  | cons c t ih =>
    rw [List.mem_cons, not_or] at hs
    have hstep : (splitter.step c t).2 = (splitStep c t).2 := rfl
    have hregion := skipRegion_lower (Ne.symm hs.1) t
    cases h : skipRegion c t with
    | some r =>
      rw [hstep, splitStep, h] at ih
      rw [h, Option.map_some] at hregion
      rw [List.map_cons, cutsFrom_region d hregion, cutsFrom_region d h]
      exact ih d fun hin => hs.2 ((skipRegion_suffix h).subset hin)
    | none =>
      rw [hstep, splitStep, h] at ih
      rw [h, Option.map_none] at hregion
      rw [List.map_cons, cutsFrom_byte d hregion, cutsFrom_byte d h, foldByte_beq (by decide), depthAfter_lower,
        ih _ hs.2, List.map_append]
      split_ifs <;> rfl

theorem slices_lower : ∀ (start : Bytes) (us : List Bytes),
    slices (start.map foldByte) (us.map (List.map foldByte)) = (slices start us).map (List.map foldByte)
  | start, [] => by
    simp only [List.map_nil, slices, List.map_eq_nil_iff]
    split_ifs <;> rfl
  | start, u :: us => by
    have ih := slices_lower u.tail us
    rw [List.map_tail] at ih
    rw [List.map_cons, slices, slices, List.length_map, List.length_map, ← List.map_take, ih]
    rfl

/-- The statements of the lowered text are the lowered statements. -/
theorem split_lower {s : Bytes} (hs : chr '$' ∉ s) :
    splitOnDepthZeroSemicolons (s.map foldByte) = (splitOnDepthZeroSemicolons s).map (List.map foldByte) := by
  rw [splitOnDepthZeroSemicolons_eq, splitOnDepthZeroSemicolons_eq, cuts, cuts, cutsFrom_lower 0 s hs, slices_lower]

theorem index_lower {s : Bytes} (hs : chr '$' ∉ s) :
    (indexDepthZeroSemicolon (s.map foldByte)).isSome = (indexDepthZeroSemicolon s).isSome := by
  have hblank : nonBlank ∘ foldByte = nonBlank := by
    funext b
    simp only [Function.comp_apply, nonBlank]
    rw [foldByte_beq (by decide), foldByte_beq (by decide), foldByte_beq (by decide), foldByte_beq (by decide)]
  rw [indexDepthZeroSemicolon_isSome, indexDepthZeroSemicolon_isSome, cuts, cuts, cutsFrom_lower 0 s hs]
  cases cutsFrom 0 s with
  | nil => rfl
  | cons u us =>
    show ((u.map foldByte).tail.any nonBlank) = u.tail.any nonBlank
    rw [← List.map_tail, List.any_map, hblank]

/-! ### White space -/

theorem isPrefixOf_lower : ∀ {w : Bytes}, (∀ b ∈ w, caseless b = true) → ∀ s : Bytes,
    w.isPrefixOf (s.map foldByte) = w.isPrefixOf s
  | [], _, s => by simp
  | b :: w, _, [] => rfl
  | b :: w, hw, c :: s => by
    have ih := isPrefixOf_lower (fun x hx => hw x (List.mem_cons_of_mem b hx)) s
    rw [List.map_cons, List.isPrefixOf_cons_cons, List.isPrefixOf_cons_cons, ih, BEq.comm,
      foldByte_beq (hw b List.mem_cons_self), BEq.comm]

theorem trimWords_lower {ws : List Bytes} (hws : ∀ w ∈ ws, ∀ b ∈ w, caseless b = true) (s : Bytes) :
    trimWords ws (s.map foldByte) = (trimWords ws s).map foldByte := by
  have hfind : ∀ s : Bytes, ws.find? (·.isPrefixOf (s.map foldByte)) = ws.find? (·.isPrefixOf s) := by
    intro s
    exact List.find?_congr fun w hw => isPrefixOf_lower (hws w hw) s
  fun_induction trimWords ws s with
  | case1 => rw [List.map_nil, trimWords]
  | case2 b t w hw ih =>
    rw [List.map_cons, trimWords, ← List.map_cons, hfind, hw]
    show trimWords ws ((t.map foldByte).drop (w.length - 1)) = _
    rw [← List.map_drop, ih]
  | case3 b t hnone => rw [List.map_cons, trimWords, ← List.map_cons, hfind, hnone]

theorem spaces_caseless : ∀ w ∈ spaces, ∀ b ∈ w, caseless b = true := by
  have h : spaces.all (·.all caseless) = true := by decide
  intro w hw b hb
  exact List.all_eq_true.1 (List.all_eq_true.1 h w hw) b hb

theorem trimSpace_lower (s : Bytes) : trimSpace (s.map foldByte) = (trimSpace s).map foldByte := by
  have hreverse : ∀ w ∈ spaces.map List.reverse, ∀ b ∈ w, caseless b = true := by
    intro w hw b hb
    obtain ⟨v, hv, rfl⟩ := List.mem_map.1 hw
    exact spaces_caseless v hv b (List.mem_reverse.1 hb)
  unfold trimSpace
  rw [trimWords_lower spaces_caseless, ← List.map_reverse, trimWords_lower hreverse, List.map_reverse]

theorem trimSpace_subset {b : UInt8} {s : Bytes} (h : b ∈ trimSpace s) : b ∈ s :=
  (trimWords_suffix spaces s).subset ((trimSpace_start s).subset h)

theorem slices_subset {b : UInt8} : ∀ {start : Bytes} {us : List Bytes} {p : Bytes}, (∀ u ∈ us, b ∉ u) →
    b ∉ start → p ∈ slices start us → b ∉ p
  | start, [], p, _, hstart, hp => by
    unfold slices at hp
    split_ifs at hp
    · cases hp
    · rwa [List.mem_singleton.1 hp]
  | start, u :: us, p, hus, hstart, hp => by
    rcases List.mem_cons.1 hp with rfl | hp
    · exact fun h => hstart (List.mem_of_mem_take h)
    · have hu : b ∉ u.tail := fun h => hus u List.mem_cons_self (List.mem_of_mem_tail h)
      exact slices_subset (fun v hv => hus v (List.mem_cons_of_mem u hv)) hu hp

/-! ### Tokens -/

section Tokens

variable (U : CaseTable)

theorem wordsOf_lower : ∀ toks : List Token, wordsOf U (toks.map Token.lower) = wordsOf U toks
  | [] => rfl
  | t :: toks => by
    have ih := wordsOf_lower toks
    unfold wordsOf at ih ⊢
    cases t with
    | word w => simp [Token.lower, toLower_lower, ih]
    | _ => simpa [Token.lower] using ih

theorem depthZeroWords_lower : ∀ (d : ℕ) (toks : List Token),
    depthZeroWords U d (toks.map Token.lower) = depthZeroWords U d toks
  | _, [] => rfl
  | d, t :: toks => by
    cases t <;> simp [Token.lower, depthZeroWords, toLower_lower, depthZeroWords_lower]

theorem walkName_lower (last : Bytes) (toks : List Token) : walkName U last (toks.map Token.lower) =
    ((walkName U last toks).1, (walkName U last toks).2.map Token.lower) := by
  fun_induction walkName U last toks with
  | case1 last w ts ih =>
    rw [← ih]
    simp [Token.lower, walkName, toLower_lower]
  | case2 last ts hno =>
    rcases ts with _ | ⟨a, _ | ⟨b, ts⟩⟩
    · rfl
    · cases a <;> rfl
    · cases a <;> cases b <;> first | rfl | exact absurd rfl (hno _ _)

theorem head_lparen_lower (toks : List Token) :
    ((toks.map Token.lower).head? == some .lparen) = (toks.head? == some .lparen) := by
  rcases toks with _ | ⟨t, toks⟩
  · rfl
  · cases t <;> rfl

end Tokens

namespace Classifier

variable (c : Classifier)

theorem isProcInvoking_lower (toks : List Token) :
    c.isProcInvoking (toks.map Token.lower) = c.isProcInvoking toks := by
  fun_induction c.isProcInvoking toks with
  | case1 => rw [List.map_nil, Classifier.isProcInvoking]
  | case2 w ts firstSeg name ih =>
    rw [List.map_cons, Token.lower, Classifier.isProcInvoking]
    simp only [toLower_lower, walkName_lower, head_lparen_lower]
    exact congrArg _ ih
  | case3 t ts hword ih =>
    rw [List.map_cons, ← ih]
    apply c.isProcInvoking_skip
    intro w h
    cases t <;> first | exact (hword _ rfl).elim | cases h

/-- Lowering a statement keeps its class. -/
theorem classifySingle_lower {sql : Bytes} (hs : chr '$' ∉ sql) :
    c.classifySingle (sql.map foldByte) = c.classifySingle sql := by
  unfold Classifier.classifySingle Classifier.tokenClass firstWord hasSecondWord
    depthZeroHasWord primaryCommandAfterWith
  simp only [lex_lower sql hs, wordsOf_lower, depthZeroWords_lower, isProcInvoking_lower]

/-- Lowering a text keeps its class. -/
theorem classify_lower {sql : Bytes} (hs : chr '$' ∉ sql) : c.classify (sql.map foldByte) = c.classify sql := by
  have hmulti : c.classifyMultiStatement (sql.map foldByte) = c.classifyMultiStatement sql := by
    unfold Classifier.classifyMultiStatement
    rw [split_lower hs, List.foldl_map]
    refine List.foldl_ext _ _ _ ?_
    intro best stmt hstmt
    rw [splitOnDepthZeroSemicolons_eq] at hstmt
    have hdollar : chr '$' ∉ stmt := by
      refine slices_subset (fun u hu hin => ?_) hs hstmt
      obtain ⟨pre, post, rfl, hsql⟩ := exists_of_mem_cuts hu
      rw [hsql] at hs
      exact hs (List.mem_append_right pre hin)
    have htrim : chr '$' ∉ trimSpace stmt := fun h => hdollar (trimSpace_subset h)
    simp only [trimSpace_lower, List.map_eq_nil_iff, c.classifySingle_lower htrim]
  unfold Classifier.classify
  rw [index_lower hs, hmulti, c.classifySingle_lower hs]

theorem isProcInvokingSelect_lower {sql : Bytes} (hs : chr '$' ∉ sql) :
    c.isProcInvokingSelect (sql.map foldByte) = c.isProcInvokingSelect sql := by
  unfold Classifier.isProcInvokingSelect firstWord primaryCommandAfterWith
  simp only [lex_lower sql hs, wordsOf_lower, depthZeroWords_lower, isProcInvoking_lower]

/-- **Classification ignores letter case**: changing the case of any letters of a
text without a dollar sign changes neither its class nor what the procedure
heuristic says of it. -/
theorem classify_ignores_case (U : CaseTable) (extraBuiltins : List Bytes) (changed : ℕ → Bool) (sql : Bytes)
    (hs : chr '$' ∉ sql) :
    (newClassifier U extraBuiltins).classify (recase changed sql) = (newClassifier U extraBuiltins).classify sql ∧
      (newClassifier U extraBuiltins).isProcInvokingSelect (recase changed sql) =
        (newClassifier U extraBuiltins).isProcInvokingSelect sql := by
  have hs' : chr '$' ∉ recase changed sql := notMem_recase (by decide) changed hs
  constructor
  · rw [← classify_lower _ hs', recase_lower, classify_lower _ hs]
  · rw [← isProcInvokingSelect_lower _ hs', recase_lower, isProcInvokingSelect_lower _ hs]

/-- Every other letter of a call in capitals. -/
theorem classify_ignores_case_alternating :
    (newClassifier ⟨id, id⟩ []).classify (bytes "SeLeCt dO_WoRk(1)") =
      (newClassifier ⟨id, id⟩ []).classify (bytes "select do_work(1)") :=
  (classify_ignores_case ⟨id, id⟩ [] (· % 2 == 0) (bytes "select do_work(1)") (by decide)).1

end Classifier

end PgShadow
