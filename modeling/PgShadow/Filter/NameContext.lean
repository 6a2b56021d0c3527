/-
# What stands around an identifier

Two facts about the text around a quoted identifier. It does not stand next to
another double quote (`IsIdentifier.apart`): a quote right before or behind it would be
part of it. And what the beginning of a text shows is there in the text
(`callFollows_append`): if an identifier is not called in the text it is not called
in the statement that the splitting loop makes of it, although that may be cut off
in the middle of a token.

Key definitions: `IsIdentifier`.
Key theorems: `IsIdentifier.apart`, `lexStep_stable`, `callFollows_append`.
-/
import PgShadow.Filter.NameScan

namespace PgShadow

open Tokenizer

/-! ### Where an identifier stands -/

/-- `lex` reads `v`, between the double quotes behind `pre`, as an identifier. -/
def IsIdentifier (pre v post : Bytes) : Prop :=
  ∃ p ∈ lexer.spans (pre ++ quoted v post), p.start = quoted v post ∧ p.rest = post

instance (pre v post : Bytes) : Decidable (IsIdentifier pre v post) :=
  List.decidableBEx (fun p : Span UInt8 Lexeme => p.start = quoted v post ∧ p.rest = post)
    (lexer.spans (pre ++ quoted v post))

theorem quotedText_head (q : UInt8) : ∀ s : Bytes, (quotedText q s).2.head? ≠ some q
  | [] => by simp [quotedText]
  | [a] => by
    rw [quotedText]
    split_ifs <;> simp
  | a :: b :: t => by
    have h1 := quotedText_head q t
    have h2 := quotedText_head q (b :: t)
    rw [quotedText]
    split_ifs with ha hb
    · exact h1
    · simpa using hb
    · exact h2

/-- What ends a comment or a literal is its last byte. -/
theorem skipBlock_last : ∀ {d : ℕ} {t r : Bytes}, skipBlock (d + 1) t = r → r ≠ [] → ∃ q, t = q ++ chr '/' :: r
  | _, [], r, h, hr => absurd h.symm hr
  | _, [_], r, h, hr => absurd h.symm hr
  | d, a :: b :: t, r, h, hr => by
    rw [skipBlock] at h
    split_ifs at h with hopen hclose
    · obtain ⟨q, rfl⟩ := skipBlock_last h hr
      exact ⟨a :: b :: q, rfl⟩
    · cases d with
      | zero =>
        rw [skipBlock] at h
        exact ⟨[a], by rw [hclose.2, h]; rfl⟩
      | succ d =>
        obtain ⟨q, rfl⟩ := skipBlock_last h hr
        exact ⟨a :: b :: q, rfl⟩
    · obtain ⟨q, hq⟩ := skipBlock_last h hr
      exact ⟨a :: q, by rw [hq]; rfl⟩

theorem skipDollar_last {t r : Bytes} (h : skipDollar t = some r) (hr : r ≠ []) : ∃ q, t = q ++ chr '$' :: r := by
  rcases htag : dollarTag t with _ | ⟨tag, v⟩
  · rw [skipDollar, htag] at h
    cases h
  · rw [skipDollar_eq htag, Option.some.injEq, afterTag] at h
    obtain ⟨q, rfl⟩ := dollarTag_suffix htag
    cases hidx : indexOf (closeTag tag) v with
    | none =>
      rw [hidx] at h
      exact absurd h.symm hr
    | some i =>
      obtain ⟨u, rest, rfl, rfl⟩ := indexOf_spec hidx
      rw [hidx, Option.map_some, Option.getD_some, ← List.append_assoc, ← List.length_append, List.drop_left] at h
      refine ⟨q ++ u ++ chr '$' :: tag, ?_⟩
      rw [h]
      simp [closeTag]

theorem takeWhile_last (p : UInt8 → Bool) (c : UInt8) (t : Bytes) :
    ∃ q b, c :: t = q ++ b :: t.dropWhile p ∧ (b = c ∨ p b = true) := by
  have hsplit := List.takeWhile_append_dropWhile (p := p) (l := t)
  rcases List.eq_nil_or_concat (t.takeWhile p) with hnil | ⟨q, b, hq⟩
  · rw [hnil, List.nil_append] at hsplit
    exact ⟨[], c, by rw [hsplit]; rfl, .inl rfl⟩
  · refine ⟨c :: q, b, ?_, .inr ?_⟩
    · conv_lhs => rw [← hsplit, hq]
      simp
    · exact List.mem_takeWhile_imp (by rw [hq]; simp)

/-- No token ends in a double quote before another one. -/
theorem lexStep_last (c : UInt8) (t : Bytes) (h : (lexStep c t).2.head? = some (chr '"')) :
    ∃ q b, c :: t = q ++ b :: (lexStep c t).2 ∧ b ≠ chr '"' := by
  have hne : (lexStep c t).2 ≠ [] := by
    intro hnil
    rw [hnil] at h
    cases h
  have hident : ∀ {b : UInt8}, isIdentPart b = true → b ≠ chr '"' := by
    intro b hb hq
    rw [hq] at hb
    exact absurd hb (by decide)
  cases opener c t with
  | line hhead =>
    -- a line comment ends before its newline
    rw [(lexStep_line t hhead).1] at h
    have hnewline := List.head?_dropWhile_not (· != 10) (t.drop 1)
    rw [show (t.drop 1).dropWhile (· != 10) = skipLine (t.drop 1) from rfl, h] at hnewline
    exact absurd hnewline (by decide)
  | block hhead =>
    rw [(lexStep_block t hhead).1] at hne ⊢
    obtain ⟨q, hq⟩ := skipBlock_last rfl hne
    refine ⟨chr '/' :: t.take 1 ++ q, chr '/', ?_, by decide⟩
    rw [List.append_assoc, ← hq, List.cons_append, List.take_append_drop]
  | string =>
    rw [(lexStep_string t).1] at hne ⊢
    obtain ⟨q, hq⟩ := quotedText_last (quoteEnds_of_ne_nil hne)
    exact ⟨chr '\'' :: q, chr '\'', by rw [List.cons_append, ← hq], by decide⟩
  | quoted =>
    -- an identifier goes on over a doubled quote
    rw [(lexStep_quoted t).1] at h
    exact absurd h (quotedText_head _ t)
  | dollar =>
    rw [(lexStep_dollar t).1] at hne ⊢
    cases hskip : skipDollar t with
    | some r =>
      rw [hskip] at hne
      obtain ⟨q, hq⟩ := skipDollar_last hskip hne
      refine ⟨chr '$' :: q, chr '$', ?_, by decide⟩
      rw [List.cons_append, Option.map_some, Option.getD_some, ← hq]
    | none =>
      obtain ⟨q, b, hq, hb⟩ := takeWhile_last isDigit (chr '$') t
      refine ⟨q, b, hq, ?_⟩
      rcases hb with rfl | hb
      · decide
      · exact hident (by rw [isIdentPart, hb, Bool.or_true])
  | nothing hplain =>
    have hc : c ≠ chr '"' := fun hc => hplain.quoted (beq_iff_eq.mpr hc)
    rw [hplain.lexStep_eq]
    split_ifs with hblank hopen hclose hdot hstart
    · exact ⟨[], c, rfl, hc⟩
    · exact ⟨[], c, rfl, hc⟩
    · exact ⟨[], c, rfl, hc⟩
    · exact ⟨[], c, rfl, hc⟩
    · obtain ⟨q, b, hq, hb⟩ := takeWhile_last isIdentPart c t
      refine ⟨q, b, hq, ?_⟩
      rcases hb with rfl | hb
      · exact hc
      · exact hident hb
    · exact ⟨[], c, rfl, hc⟩

/-- **An identifier does not stand next to a double quote**: neither before it nor
behind it. -/
theorem IsIdentifier.apart {pre v post : Bytes} (h : IsIdentifier pre v post) :
    pre.getLast? ≠ some (chr '"') ∧ post.head? ≠ some (chr '"') := by
  obtain ⟨p, hp, hstart, hrest⟩ := h
  constructor
  · generalize hs : pre ++ quoted v post = s at hp
    induction s using lexer.token_induction generalizing pre with
    | nil =>
      rw [spans_nil] at hp
      cases hp
    | cons c t ih =>
      rw [spans_cons] at hp
      rcases List.mem_cons.1 hp with rfl | hp
      · -- the identifier is the first token
        have hpre : pre = [] := by
          rw [← hstart] at hs
          simpa using hs
        rw [hpre]
        nofun
      · have hsuffix : quoted v post <:+ (lexStep c t).2 := hstart ▸ (lexer.span_bounds hp).1
        obtain ⟨pre', hpre'⟩ := hsuffix
        obtain ⟨q, hq⟩ := (lexStep_suffix c t).trans (List.suffix_cons c t)
        have hpre : pre = q ++ pre' := by
          rw [← hq, ← hpre', ← List.append_assoc] at hs
          exact List.append_cancel_right hs
        cases pre' with
        | nil =>
          -- the token before it ends right at its quote
          obtain ⟨q', b, hq', hb⟩ := lexStep_last c t (by rw [← hpre']; rfl)
          have hlast : q = q' ++ [b] := by
            have happ : q ++ (lexStep c t).2 = q' ++ [b] ++ (lexStep c t).2 := by
              rw [hq, hq', List.append_assoc]
              rfl
            exact List.append_cancel_right happ
          rw [hpre, hlast]
          simpa using hb
        | cons a pre' =>
          rw [hpre, List.getLast?_append_of_ne_nil q (List.cons_ne_nil a pre')]
          exact ih hpre' hp
  · have hspan := lexer.span_of_start hp hstart
    have hstep : lexer.step (chr '"') (v ++ chr '"' :: post) = lexStep (chr '"') (v ++ chr '"' :: post) := rfl
    rw [hspan, hstep, (lexStep_quoted _).1] at hrest
    rw [← hrest]
    exact quotedText_head _ _

/-! ### The beginning of a text -/

theorem quotedText_stable {q : UInt8} {t : Bytes} (h : (quotedText q t).2 ≠ []) (u : Bytes) :
    quotedText q (t ++ u) = ((quotedText q t).1, (quotedText q t).2 ++ u) :=
  quotedText_append (quoteEnds_of_ne_nil h) fun hnil => absurd hnil h

theorem dropWhile_stable {p : UInt8 → Bool} {t : Bytes} (h : t.dropWhile p ≠ []) (u : Bytes) :
    (t ++ u).takeWhile p = t.takeWhile p ∧ (t ++ u).dropWhile p = t.dropWhile p ++ u := by
  obtain ⟨c, r, hr⟩ := List.exists_cons_of_ne_nil h
  have hsplit := List.takeWhile_append_dropWhile (p := p) (l := t)
  have hc : p c = false := by
    have := List.head?_dropWhile_not p t
    rw [hr] at this
    simpa using this
  have hall : (t.takeWhile p).takeWhile p = t.takeWhile p ∧ (t.takeWhile p).dropWhile p = [] :=
    ⟨List.takeWhile_eq_self_iff.2 fun x hx => List.mem_takeWhile_imp hx,
      List.dropWhile_eq_nil_iff.2 fun x hx => List.mem_takeWhile_imp hx⟩
  have hrun := run_append hc (t.takeWhile p) (r ++ u)
  rw [hall.1, hall.2, List.nil_append] at hrun
  have ht : t ++ u = t.takeWhile p ++ c :: (r ++ u) := by
    conv_lhs => rw [← hsplit, hr]
    simp
  rw [ht, hr]
  exact hrun

/-- A token that has something behind it is the same in a longer text. A dollar sign
is not: it may start a literal there. -/
theorem lexStep_stable {c : UInt8} (hc : c ≠ chr '$') {t : Bytes} (hne : (lexStep c t).2 ≠ []) (u : Bytes) :
    lexStep c (t ++ u) = ((lexStep c t).1, (lexStep c t).2 ++ u) := by
  obtain ⟨a, t, rfl⟩ : ∃ a t', t = a :: t' := by
    apply List.exists_cons_of_ne_nil
    intro hnil
    subst hnil
    exact hne (List.suffix_nil.1 (lexStep_suffix c []))
  cases opener c (a :: t) with
  | line hhead =>
    rw [(lexStep_line _ hhead).1] at hne ⊢
    rw [(lexStep_line ((a :: t) ++ u) hhead).1]
    exact congrArg (Prod.mk _) (dropWhile_stable hne u).2
  | block hhead =>
    rw [(lexStep_block _ hhead).1] at hne ⊢
    rw [(lexStep_block ((a :: t) ++ u) hhead).1]
    exact congrArg (Prod.mk _) (skipBlock_stable hne u)
  | string =>
    rw [(lexStep_string _).1] at hne ⊢
    rw [(lexStep_string _).1, quotedText_stable hne u]
  | quoted =>
    rw [(lexStep_quoted _).1] at hne ⊢
    rw [(lexStep_quoted _).1, quotedText_stable hne u]
  | dollar => exact absurd rfl hc
  | nothing h =>
    -- the two texts have the same first two bytes
    have h' : OpensNothing c ((a :: t) ++ u) := ⟨h.line, h.block, h.string, h.quoted, h.dollar⟩
    rw [h.lexStep_eq] at hne ⊢
    rw [h'.lexStep_eq]
    split_ifs with hblank hopen hclose hdot hstart
    · rfl
    · rfl
    · rfl
    · rfl
    · rw [if_neg hblank, if_neg hopen, if_neg hclose, if_neg hdot, if_pos hstart] at hne
      obtain ⟨htake, hdrop⟩ := dropWhile_stable hne u
      rw [htake, hdrop]
    · rfl

theorem token_dollar (t : Bytes) :
    (lexStep (chr '$') t).1.token = some .string ∨ (lexStep (chr '$') t).1.token = some .other := by
  rw [(lexStep_dollar t).1]
  cases skipDollar t with
  | some r => exact .inl rfl
  | none => exact .inr rfl

/-- A parenthesis is a token of its own. -/
theorem eq_lparen_of_token {c : UInt8} {t : Bytes} (h : (lexStep c t).1.token = some .lparen) : c = chr '(' := by
  cases opener c t with
  | line hhead =>
    rw [(lexStep_line _ hhead).1] at h
    cases h
  | block hhead =>
    rw [(lexStep_block _ hhead).1] at h
    cases h
  | string =>
    rw [(lexStep_string _).1] at h
    cases h
  | quoted =>
    rw [(lexStep_quoted _).1] at h
    cases h
  | dollar => rcases token_dollar t with hd | hd <;> rw [hd] at h <;> cases h
  | nothing hplain =>
    rw [hplain.lexStep_eq] at h
    split_ifs at h with hblank hopen
    · exact eq_of_beq hopen
    all_goals cases h

theorem lex_lparen (t : Bytes) : lex (chr '(' :: t) = .lparen :: lex t := by
  rw [lex_cons]
  rfl

/-- **A call that the beginning of a text shows is there in the text.** The second
part is for the segments of a name. -/
theorem callFollows_append (u s : Bytes) :
    (callFollows (lex s) = true → callFollows (lex (s ++ u)) = true) ∧
      ∀ w ts, lex s = .word w :: ts → callFollows ts = true →
        ∃ w' ts', lex (s ++ u) = .word w' :: ts' ∧ callFollows ts' = true := by
  induction s using lexer.token_induction with
  | nil =>
    rw [TxControl.lex_nil]
    exact ⟨nofun, nofun⟩
  | cons c t ih =>
    have hstep : lexer.step c t = lexStep c t := rfl
    rw [hstep] at ih
    -- a token of a name is the same in the longer text, since the call comes behind it
    have hsame : (lexStep c t).1.token ≠ some .string → (lexStep c t).1.token ≠ some .other →
        lex (lexStep c t).2 ≠ [] →
          lex (c :: t ++ u) = (lexStep c t).1.token.toList ++ lex ((lexStep c t).2 ++ u) := by
      intro hs ho hne
      have hc : c ≠ chr '$' := by
        intro hc
        subst hc
        exact (token_dollar t).elim hs ho
      have hrest : (lexStep c t).2 ≠ [] := by
        intro hnil
        rw [hnil, TxControl.lex_nil] at hne
        exact hne rfl
      rw [List.cons_append, lex_cons, lexStep_stable hc hrest]
    rw [lex_cons]
    cases htoken : (lexStep c t).1.token with
    | none =>
      rw [htoken] at hsame
      constructor
      · intro h
        rw [hsame nofun nofun fun hnil => by rw [hnil] at h; cases h]
        exact ih.1 h
      · intro w ts hlex hts
        rw [hsame nofun nofun fun hnil => by rw [hnil] at hlex; cases hlex]
        exact ih.2 w ts hlex hts
    | some token =>
      rw [htoken] at hsame
      cases token with
      | lparen =>
        rw [eq_lparen_of_token htoken, List.cons_append, lex_lparen]
        exact ⟨fun _ => rfl, nofun⟩
      | dot =>
        refine ⟨fun h => ?_, nofun⟩
        cases hrest : lex (lexStep c t).2 with
        | nil =>
          rw [hrest] at h
          cases h
        | cons token ts =>
          rw [hrest] at h
          cases token with
          | word w =>
            obtain ⟨w', ts', hlex, hts'⟩ := ih.2 w ts hrest h
            rw [hsame nofun nofun (by rw [hrest]; nofun), hlex]
            exact hts'
          | _ => cases h
      | word w =>
        refine ⟨nofun, fun w' ts hlex hts => ?_⟩
        have hrest : lex (lexStep c t).2 = ts := (List.cons.inj hlex).2
        have hne : lex (lexStep c t).2 ≠ [] := by
          intro hnil
          rw [← hrest, hnil] at hts
          cases hts
        rw [hsame nofun nofun hne]
        exact ⟨w, _, rfl, ih.1 (hrest ▸ hts)⟩
      | _ => exact ⟨nofun, nofun⟩

theorem callFollows_front {right post : Bytes} (h : right <+: post) (hpost : callFollows (lex post) = false) :
    callFollows (lex right) = false := by
  obtain ⟨u, rfl⟩ := h
  by_contra hright
  rw [(callFollows_append u right).1 ((Bool.not_eq_false _).mp hright)] at hpost
  cases hpost

end PgShadow
