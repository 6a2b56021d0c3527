/-
# The calls the procedure heuristic sees

`isProcInvoking` walks the tokens once. At a word it takes the longest dotted
name that starts there, looks at what follows, and goes on after the name. So it
sees a call under exactly one of its names, the longest one, and it asks two
things of that name: the last segment must be neither a keyword nor a builtin,
and the first segment must not be a keyword either (`isProcInvoking_iff`).

The second question is right for a bare word such as `IN (`, where first and
last segment are one. For a qualified name the first segment is a schema, and a
schema whose name is in the keyword list hides every function in it
(`Classifier.schema_hides_call`).

Key definitions: `qualifiers`, `EndsQualified`, `Classifier.InvokedAt`, `firstSegment`.
Key theorems: `Classifier.isProcInvoking_iff`, `Classifier.qualified_call_detected_iff`.
-/
import PgShadow.Filter.Batch

namespace PgShadow

/-- The segments of a dotted name before its last one, each with its dot. -/
def qualifiers : List Bytes → List Token
  | [] => []
  | w :: ws => .word w :: .dot :: qualifiers ws

/-- The tokens end in a word and a dot, so a word after them continues a name. -/
def EndsQualified (toks : List Token) : Prop := ∃ init w, toks = init ++ [.word w, .dot]

theorem not_endsQualified_nil : ¬ EndsQualified [] := by
  intro h
  obtain ⟨init, w, h⟩ := h
  simp at h

theorem EndsQualified.cons {toks : List Token} (h : EndsQualified toks) (t : Token) : EndsQualified (t :: toks) := by
  obtain ⟨init, w, rfl⟩ := h
  exact ⟨t :: init, w, rfl⟩

/-- A name that goes on to the left is seen from two tokens further on, unless
only a dot is left. -/
theorem EndsQualified.of_cons {t : Token} {toks : List Token} (h : EndsQualified (t :: toks))
    (hdot : toks ≠ [.dot]) : EndsQualified toks := by
  obtain ⟨init, w, h⟩ := h
  cases init with
  | nil =>
    simp only [List.nil_append, List.cons.injEq] at h
    exact absurd h.2 hdot
  | cons a init =>
    simp only [List.cons_append, List.cons.injEq] at h
    exact ⟨init, w, h.2⟩

variable (U : CaseTable)

/-! ### The walk over a name -/

/-- The walk from a word on reads a whole dotted name and stops where it cannot
go on. -/
theorem walkName_spec (w : Bytes) (ts : List Token) :
    ∃ xs z, .word w :: ts = qualifiers xs ++ .word z :: (walkName U (toLower U w) ts).2 ∧
      (walkName U (toLower U w) ts).1 = toLower U z ∧ xs.headD z = w ∧
      ∀ x r, (walkName U (toLower U w) ts).2 ≠ .dot :: .word x :: r := by
  -- the induction is on the walk; the last segment so far is generalised
  generalize hl : toLower U w = last
  fun_induction walkName U last ts generalizing w with
  | case1 last x ts ih =>
    obtain ⟨xs, z, hts, hlast, hhead, hstop⟩ := ih x rfl
    refine ⟨w :: xs, z, ?_, hlast, rfl, hstop⟩
    rw [hts]
    rfl
  | case2 last ts hno => exact ⟨[], w, rfl, hl.symm, rfl, fun x r h => hno x r h⟩

/-- From the first segment of a call the walk reaches its parenthesis. -/
theorem walkName_call (z : Bytes) (post : List Token) : ∀ (xs : List Bytes) (w : Bytes) (ts : List Token),
    .word w :: ts = qualifiers xs ++ .word z :: .lparen :: post →
      walkName U (toLower U w) ts = (toLower U z, .lparen :: post) ∧ xs.headD z = w
  | [], w, ts, h => by
    simp only [qualifiers, List.nil_append, List.cons.injEq, Token.word.injEq] at h
    obtain ⟨rfl, rfl⟩ := h
    exact ⟨rfl, rfl⟩
  | [x], w, ts, h => by
    simp only [qualifiers, List.cons_append, List.nil_append, List.cons.injEq, Token.word.injEq] at h
    obtain ⟨rfl, rfl⟩ := h
    exact ⟨rfl, rfl⟩
  | x :: y :: xs, w, ts, h => by
    simp only [qualifiers, List.cons_append, List.cons.injEq, Token.word.injEq] at h
    obtain ⟨rfl, rfl⟩ := h
    exact ⟨(walkName_call z post (y :: xs) y _ rfl).1, rfl⟩

/-- A walk that starts before a call stops before it, and the call's name is not
cut. -/
theorem walkName_before (xs : List Bytes) (z : Bytes) (post : List Token) (last w : Bytes) (pre : List Token)
    (hpre : ¬ EndsQualified (.word w :: pre)) :
    ∃ pre', (walkName U last (pre ++ (qualifiers xs ++ .word z :: .lparen :: post))).2 =
      pre' ++ (qualifiers xs ++ .word z :: .lparen :: post) ∧ ¬ EndsQualified pre' := by
  have hstop : ¬ EndsQualified pre := fun h => hpre (h.cons _)
  match pre, hpre, hstop with
  | [], _, hstop =>
    -- the call's own name starts with a word, so the walk has no dot to go on with
    refine ⟨[], ?_, hstop⟩
    cases xs <;> rfl
  | [.dot], hpre, _ => exact absurd ⟨[], w, rfl⟩ hpre
  | .dot :: .word x :: pre, hpre, _ =>
    exact walkName_before xs z post (toLower U x) x pre fun h => hpre ((h.cons _).cons _)
  | .dot :: .lparen :: pre, _, hstop => exact ⟨_, rfl, hstop⟩
  | .dot :: .rparen :: pre, _, hstop => exact ⟨_, rfl, hstop⟩
  | .dot :: .dot :: pre, _, hstop => exact ⟨_, rfl, hstop⟩
  | .dot :: .string :: pre, _, hstop => exact ⟨_, rfl, hstop⟩
  | .dot :: .other :: pre, _, hstop => exact ⟨_, rfl, hstop⟩
  | .word x :: pre, _, hstop => exact ⟨_, rfl, hstop⟩
  | .lparen :: pre, _, hstop => exact ⟨_, rfl, hstop⟩
  | .rparen :: pre, _, hstop => exact ⟨_, rfl, hstop⟩
  | .string :: pre, _, hstop => exact ⟨_, rfl, hstop⟩
  | .other :: pre, _, hstop => exact ⟨_, rfl, hstop⟩

variable {U}

/-- What a walk has read ends in a word, so it does not cut a later name. -/
theorem not_endsQualified_append {pre u : List Token} (hpre : ¬ EndsQualified pre) (z w : Bytes)
    (hstop : ∀ r, pre ++ .word w :: u ≠ .dot :: .word w :: r) :
    ∀ xs : List Bytes, ¬ EndsQualified (qualifiers xs ++ .word z :: pre)
  | [] => by
    intro h
    refine hpre (h.of_cons ?_)
    intro hdot
    rw [hdot] at hstop
    exact hstop u rfl
  | x :: xs => by
    intro h
    have ih := not_endsQualified_append hpre z w hstop xs
    have hlen : ∀ ys : List Bytes, (.dot :: (qualifiers ys ++ .word z :: pre) : List Token) ≠ [.dot] := by
      intro ys
      cases ys <;> simp [qualifiers]
    have h' : EndsQualified (.dot :: (qualifiers xs ++ .word z :: pre)) := h.of_cons (hlen xs)
    refine ih (h'.of_cons ?_)
    cases xs <;> simp [qualifiers]

/-! ### What the heuristic detects -/

namespace Classifier

variable (c : Classifier)

/-- A call of `z`, qualified by `xs`, that counts as a procedure invocation: the
name is taken whole, and its first and last segment pass the lists. -/
structure InvokedAt (toks pre : List Token) (xs : List Bytes) (z : Bytes) (post : List Token) : Prop where
  tokens : toks = pre ++ (qualifiers xs ++ .word z :: .lparen :: post)
  whole : ¬ EndsQualified pre
  first : toLower c.unicode (xs.headD z) ∉ sqlKeywordsBeforeParen
  last : toLower c.unicode z ∉ sqlKeywordsBeforeParen
  user : toLower c.unicode z ∉ c.builtins

theorem invokedAt_of_isProcInvoking (toks : List Token) (h : c.isProcInvoking toks = true) :
    ∃ pre xs z post, c.InvokedAt toks pre xs z post := by
  fun_induction c.isProcInvoking toks with
  | case1 => simp at h
  | case2 w ts firstSeg name ih =>
    obtain ⟨xs, z, hts, hlast, hhead, hstop⟩ := walkName_spec c.unicode w ts
    rw [Bool.or_eq_true] at h
    rcases h with hcall | hrest
    · -- the name itself is a call
      simp only [Bool.and_eq_true, beq_iff_eq, Bool.not_eq_true', List.contains_eq_mem,
        decide_eq_false_iff_not] at hcall
      obtain ⟨⟨⟨hparen, hfirst⟩, hkeyword⟩, hbuiltin⟩ := hcall
      obtain ⟨post, hpost⟩ := List.head?_eq_some_iff.1 hparen
      refine ⟨[], xs, z, post, ?_, not_endsQualified_nil, ?_, ?_, ?_⟩
      · rw [hts, ← hpost]
        rfl
      · rw [hhead]
        exact hfirst
      · rw [← hlast]
        exact hkeyword
      · rw [← hlast]
        exact hbuiltin
    · -- a call after the name
      obtain ⟨pre, ys, v, post, hat⟩ := ih hrest
      have hrest' := hat.tokens
      refine ⟨qualifiers xs ++ .word z :: pre, ys, v, post, ?_, ?_, hat.first, hat.last, hat.user⟩
      · rw [hts, hrest']
        simp
      · cases ys with
        | nil =>
          refine not_endsQualified_append (u := .lparen :: post) hat.whole z v (fun r hr => ?_) xs
          exact hstop v r (hrest'.trans hr)
        | cons y ys =>
          refine not_endsQualified_append (u := .dot :: (qualifiers ys ++ .word v :: .lparen :: post))
            hat.whole z y (fun r hr => ?_) xs
          exact hstop y r (hrest'.trans hr)
  | case3 t ts hword ih =>
    obtain ⟨pre, ys, v, post, hat⟩ := ih h
    refine ⟨t :: pre, ys, v, post, by rw [hat.tokens]; rfl, ?_, hat.first, hat.last, hat.user⟩
    intro hends
    obtain ⟨init, w, hinit⟩ := hends
    cases init with
    | nil =>
      simp only [List.nil_append, List.cons.injEq] at hinit
      exact hword w hinit.1
    | cons a init =>
      simp only [List.cons_append, List.cons.injEq] at hinit
      exact hat.whole ⟨init, w, hinit.2⟩

theorem InvokedAt.isProcInvoking {toks pre : List Token} {xs : List Bytes} {z : Bytes} {post : List Token}
    (hat : c.InvokedAt toks pre xs z post) : c.isProcInvoking toks = true := by
  fun_induction c.isProcInvoking toks generalizing pre with
  | case1 =>
    have h := hat.tokens
    cases xs <;> simp [qualifiers] at h
  | case2 w ts firstSeg name =>
    rename_i ih
    have htoks := hat.tokens
    cases pre with
    | nil =>
      obtain ⟨hwalk, hhead⟩ := walkName_call c.unicode z post xs w ts htoks
      have hname : name = (toLower c.unicode z, .lparen :: post) := hwalk
      have hfirst : toLower c.unicode w ∉ sqlKeywordsBeforeParen := hhead ▸ hat.first
      simp [hname, firstSeg, hfirst, hat.last, hat.user]
    | cons t pre =>
      simp only [List.cons_append, List.cons.injEq] at htoks
      obtain ⟨rfl, rfl⟩ := htoks
      obtain ⟨pre', hwalk, hpre'⟩ := walkName_before c.unicode xs z post (toLower c.unicode w) w pre hat.whole
      rw [ih ⟨hwalk, hpre', hat.first, hat.last, hat.user⟩, Bool.or_true]
  | case3 t ts hword ih =>
    have htoks := hat.tokens
    cases pre with
    | nil =>
      cases xs with
      | nil => exact absurd (List.cons.inj htoks).1 (hword z)
      | cons x xs => exact absurd (List.cons.inj htoks).1 (hword x)
    | cons a pre =>
      simp only [List.cons_append, List.cons.injEq] at htoks
      exact ih ⟨htoks.2, fun h => hat.whole (h.cons _), hat.first, hat.last, hat.user⟩

/-- **The heuristic detects exactly the calls whose first and last segment pass
the lists.** -/
theorem isProcInvoking_iff (toks : List Token) :
    c.isProcInvoking toks = true ↔ ∃ pre xs z post, c.InvokedAt toks pre xs z post := by
  constructor
  · exact c.invokedAt_of_isProcInvoking toks
  · intro h
    obtain ⟨pre, xs, z, post, hat⟩ := h
    exact hat.isProcInvoking

end Classifier

/-! ### Qualified calls -/

/-- The first segment of the dotted name that ends in `s`, where the tokens
before `s` are given nearest first. -/
def firstSegment (s : Bytes) : List Token → Bytes
  | .dot :: .word w :: ts => firstSegment w ts
  | _ => s

theorem qualifiers_concat (w : Bytes) : ∀ xs : List Bytes, qualifiers (xs ++ [w]) = qualifiers xs ++ [.word w, .dot]
  | [] => rfl
  | x :: xs => by simp [qualifiers, qualifiers_concat w xs]

theorem not_endsQualified_reverse {rev : List Token} (h : ∀ w ts, rev ≠ .dot :: .word w :: ts) :
    ¬ EndsQualified rev.reverse := by
  intro hends
  obtain ⟨init, w, hinit⟩ := hends
  apply h w init.reverse
  rw [List.reverse_eq_iff.1 hinit]
  simp

/-- What stands before a word is a whole name's beginning after something else. -/
theorem firstSegment_spec (s : Bytes) (rev : List Token) :
    ∃ pre xs, rev.reverse = pre ++ qualifiers xs ∧ ¬ EndsQualified pre ∧ xs.headD s = firstSegment s rev := by
  by_cases hdot : ∃ w ts, rev = .dot :: .word w :: ts
  · obtain ⟨w, ts, rfl⟩ := hdot
    obtain ⟨pre, xs, hts, hpre, hhead⟩ := firstSegment_spec w ts
    refine ⟨pre, xs ++ [w], ?_, hpre, ?_⟩
    · simp [qualifiers_concat, hts]
    · cases xs with
      | nil => exact hhead
      | cons x xs => exact hhead
  · have hno : ∀ w ts, rev ≠ .dot :: .word w :: ts := fun w ts he => hdot ⟨w, ts, he⟩
    exact ⟨rev.reverse, [], by simp [qualifiers], not_endsQualified_reverse hno, (firstSegment.eq_2 s rev hno).symm⟩
termination_by rev.length

/-- The first segment of a whole name. -/
theorem firstSegment_whole {pre : List Token} (hpre : ¬ EndsQualified pre) (xs : List Bytes) (z : Bytes) :
    firstSegment z (pre ++ qualifiers xs).reverse = xs.headD z := by
  -- from the last qualifier back to the first
  induction xs using List.reverseRecOn generalizing z with
  | nil =>
    have hno : ∀ w ts, pre.reverse ≠ .dot :: .word w :: ts := by
      intro w ts h
      exact hpre ⟨ts.reverse, w, by rw [List.reverse_eq_iff.1 h]; simp⟩
    rw [qualifiers, List.append_nil, firstSegment.eq_2 z pre.reverse hno]
    rfl
  | append_singleton xs w ih =>
    have hrev : (pre ++ qualifiers (xs ++ [w])).reverse = .dot :: .word w :: (pre ++ qualifiers xs).reverse := by
      simp [qualifiers_concat]
    rw [hrev, firstSegment, ih w]
    cases xs <;> rfl

namespace Classifier

/-- **A qualified call of a user function is detected exactly if the first
segment of its whole name is not in the keyword list, or another call of the
statement is detected.** -/
theorem qualified_call_detected_iff (c : Classifier) (sql : Bytes) (pre : List Token) (s f : Bytes)
    (post : List Token) (htoks : lex sql = pre ++ .word s :: .dot :: .word f :: .lparen :: post)
    (hkeyword : toLower c.unicode f ∉ sqlKeywordsBeforeParen) (hbuiltin : toLower c.unicode f ∉ c.builtins) :
    c.isProcInvoking (lex sql) = true ↔
      toLower c.unicode (firstSegment s pre.reverse) ∉ sqlKeywordsBeforeParen ∨
        ∃ pre' xs z post', c.InvokedAt (lex sql) pre' xs z post' ∧ post'.length ≠ post.length := by
  have hsegment : firstSegment f (pre ++ [Token.word s, .dot]).reverse = firstSegment s pre.reverse := by
    simp [firstSegment]
  have hcall : lex sql = (pre ++ [.word s, .dot]) ++ .word f :: .lparen :: post := by
    rw [htoks]
    simp
  rw [c.isProcInvoking_iff]
  constructor
  · intro h
    obtain ⟨pre', xs, z, post', hat⟩ := h
    by_cases hlen : post'.length = post.length
    · -- the detected call is this one
      left
      have heq : (pre' ++ qualifiers xs) ++ .word z :: .lparen :: post' =
          (pre ++ [.word s, .dot]) ++ .word f :: .lparen :: post := by
        rw [← hcall, hat.tokens, List.append_assoc]
      obtain ⟨hname, hrest⟩ := List.append_inj' heq (by simp [hlen])
      have hz : z = f := by simpa using (List.cons.inj hrest).1
      rw [← hsegment, ← hname, ← hz, firstSegment_whole hat.whole]
      exact hat.first
    · right
      exact ⟨pre', xs, z, post', hat, hlen⟩
  · intro h
    rcases h with hfirst | hother
    · obtain ⟨p, xs, hp, hwhole, hhead⟩ := firstSegment_spec f (pre ++ [Token.word s, .dot]).reverse
      rw [List.reverse_reverse] at hp
      refine ⟨p, xs, f, post, ?_, hwhole, ?_, hkeyword, hbuiltin⟩
      · rw [hcall, hp, List.append_assoc]
      · rw [hhead, hsegment]
        exact hfirst
    · obtain ⟨pre', xs, z, post', hat, -⟩ := hother
      exact ⟨pre', xs, z, post', hat⟩

/-- The call the source's comment gives. -/
theorem schema_call_detected :
    (newClassifier ⟨id, id⟩ []).isProcInvoking (lex (bytes "SELECT schema.do_work(1)")) = true :=
  (qualified_call_detected_iff (newClassifier ⟨id, id⟩ []) (bytes "SELECT schema.do_work(1)")
    [.word (bytes "SELECT")] (bytes "schema") (bytes "do_work") [.other, .rparen]
    (by decide +kernel) (by decide +kernel) (by decide +kernel)).2 (.inl (by decide +kernel))

/-- A schema named like a type hides the call: the statement is a plain read. -/
theorem schema_hides_call :
    let c := newClassifier ⟨id, id⟩ []
    let sql := bytes "SELECT json.do_work(1)"
    lex sql = [.word (bytes "SELECT")] ++ .word (bytes "json") :: .dot :: .word (bytes "do_work") :: .lparen ::
        [.other, .rparen] ∧
      toLower c.unicode (bytes "do_work") ∉ sqlKeywordsBeforeParen ∧
      toLower c.unicode (bytes "do_work") ∉ c.builtins ∧
      c.isProcInvoking (lex sql) = false ∧ c.classify sql = .plainSelect := by
  decide +kernel

end Classifier

end PgShadow
