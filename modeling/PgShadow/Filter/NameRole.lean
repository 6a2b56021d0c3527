/-
# Quoted identifiers as keywords

`lex` makes one kind of token of a bare word and of a quoted identifier, so the
classifier can take an identifier for a keyword. It does so in four places: as the
first word of a statement, as the word behind ROLLBACK, as the FROM of a COPY, and
as the command behind WITH (`nameRole`). In any other place the class of the statement does
not depend on the identifier (`tokenClass_of_role_none`).

A text is classified by the weightiest of its statements. So an identifier with a
role still does no harm if the other statements outweigh what it can bring about
(`NamePlace.Neutral`), and these are the only cases (`quoted_name_neutral_iff`):
`COPY "from" TO STDOUT` counts as a COPY FROM (`copy_of_table_from`).

Key definitions: `nameRole`, `NamePlace`, `NamePlace.Neutral`.
Key theorems: `tokenClass_of_role_none`, `tokenClass_of_role_some`, `quoted_name_neutral_iff`.
-/
import PgShadow.Filter.NameContext

namespace PgShadow

open TxControl (better better_unknown unknown_better)

/-! ### What a statement is classified by -/

/-- The class looks at a part only behind the leading word it is for. -/
theorem statementClass_congr {leading primary primary' : Bytes} {second second' source source' : Bool} (proc : Bool)
    (hsecond : leading = bytes "rollback" → second = second') (hsource : leading = bytes "copy" → source = source')
    (hprimary : leading = bytes "with" → primary = primary') :
    statementClass leading second source primary proc = statementClass leading second' source' primary' proc := by
  by_cases h1 : leading = bytes "rollback"
  · rw [hsecond h1, h1]
    rfl
  by_cases h2 : leading = bytes "copy"
  · rw [hsource h2, h2]
    rfl
  by_cases h3 : leading = bytes "with"
  · rw [hprimary h3, h3]
    rfl
  · unfold statementClass
    dsimp only
    rw [if_neg h1, if_neg h1, if_neg h2, if_neg h2, if_neg h3, if_neg h3]

theorem statementClass_rollback (second source : Bool) (primary : Bytes) (proc : Bool) :
    statementClass (bytes "rollback") second source primary proc = if second then .utility else .commitRollback := rfl

theorem statementClass_copy (second source : Bool) (primary : Bytes) (proc : Bool) :
    statementClass (bytes "copy") second source primary proc = if source then .copyFrom else .unknown := rfl

theorem statementClass_with (second source : Bool) (primary : Bytes) (proc : Bool) :
    statementClass (bytes "with") second source primary proc =
      if primary = bytes "select" then if proc then .procSelect else .plainSelect
      else if primary = bytes "insert" ∨ primary = bytes "update" ∨ primary = bytes "delete" then .dml
      else .unknown := rfl

/-! ### The words around the name -/

section Words

variable (U : CaseTable)

/-- The parenthesis depth behind the tokens. -/
def tokenDepth : ℕ → List Token → ℕ
  | d, [] => d
  | d, .lparen :: ts => tokenDepth (d + 1) ts
  | d, .rparen :: ts => tokenDepth (d - 1) ts
  | d, _ :: ts => tokenDepth d ts

theorem wordsOf_name (T₁ : List Token) (u : Bytes) (T₂ : List Token) :
    wordsOf U (T₁ ++ .word u :: T₂) = wordsOf U T₁ ++ toLower U u :: wordsOf U T₂ := by
  simp [wordsOf]

theorem depthZeroWords_name (u : Bytes) (T₂ : List Token) : ∀ (d : ℕ) (T₁ : List Token),
    depthZeroWords U d (T₁ ++ .word u :: T₂) = depthZeroWords U d T₁ ++
      ((if tokenDepth d T₁ = 0 then [toLower U u] else []) ++ depthZeroWords U (tokenDepth d T₁) T₂)
  | d, [] => by
    rw [List.nil_append, depthZeroWords, tokenDepth, depthZeroWords]
    split_ifs <;> rfl
  | d, t :: T₁ => by
    cases t with
    | lparen => exact depthZeroWords_name u T₂ (d + 1) T₁
    | rparen => exact depthZeroWords_name u T₂ (d - 1) T₁
    | word v =>
      have ih := depthZeroWords_name u T₂ d T₁
      rw [List.cons_append, depthZeroWords, depthZeroWords, tokenDepth, ih]
      split_ifs <;> rfl
      all_goals (intro h; cases h)
    | dot => exact depthZeroWords_name u T₂ d T₁
    | string => exact depthZeroWords_name u T₂ d T₁
    | other => exact depthZeroWords_name u T₂ d T₁

theorem walkName_snd (last last' : Bytes) : ∀ ts : List Token, (walkName U last ts).2 = (walkName U last' ts).2 := by
  intro ts
  fun_induction walkName U last ts generalizing last' with
  | case1 last w ts ih => exact ih _
  | case2 last ts hno => rw [walkName.eq_2 U last' _ hno]

theorem walkName_head (last : Bytes) (ts : List Token) :
    ((walkName U last ts).2.head? == some .lparen) = callFollows ts := by
  fun_induction walkName U last ts with
  | case1 last w ts ih => exact ih
  | case2 last ts hno =>
    rcases ts with _ | ⟨a, _ | ⟨b, ts⟩⟩
    · rfl
    · cases a <;> rfl
    · cases a <;> cases b <;> first | rfl | exact absurd rfl (hno _ _)

/-- A walk either stops before the name or goes on behind it. -/
theorem walkName_over (T₂ : List Token) : ∀ (last : Bytes) (T₁ : List Token),
    (∃ l T, T.length ≤ T₁.length ∧ ∀ u, walkName U last (T₁ ++ .word u :: T₂) = (l, T ++ .word u :: T₂)) ∨
      ∀ u, (walkName U last (T₁ ++ .word u :: T₂)).2 = (walkName U [] T₂).2
  | last, [] => .inl ⟨last, [], Nat.le_refl _, fun _ => rfl⟩
  | last, [.dot] => .inr fun u => walkName_snd U _ _ T₂
  | last, .dot :: .word x :: T₁ => by
    rcases walkName_over T₂ (toLower U x) T₁ with ⟨l, T, hlen, hwalk⟩ | hwalk
    · exact .inl ⟨l, T, hlen.trans (by simp only [List.length_cons]; omega), hwalk⟩
    · exact .inr hwalk
  | last, .dot :: .lparen :: T₁ => .inl ⟨last, _, Nat.le_refl _, fun _ => rfl⟩
  | last, .dot :: .rparen :: T₁ => .inl ⟨last, _, Nat.le_refl _, fun _ => rfl⟩
  | last, .dot :: .dot :: T₁ => .inl ⟨last, _, Nat.le_refl _, fun _ => rfl⟩
  | last, .dot :: .string :: T₁ => .inl ⟨last, _, Nat.le_refl _, fun _ => rfl⟩
  | last, .dot :: .other :: T₁ => .inl ⟨last, _, Nat.le_refl _, fun _ => rfl⟩
  | last, .word x :: T₁ => .inl ⟨last, _, Nat.le_refl _, fun _ => rfl⟩
  | last, .lparen :: T₁ => .inl ⟨last, _, Nat.le_refl _, fun _ => rfl⟩
  | last, .rparen :: T₁ => .inl ⟨last, _, Nat.le_refl _, fun _ => rfl⟩
  | last, .string :: T₁ => .inl ⟨last, _, Nat.le_refl _, fun _ => rfl⟩
  | last, .other :: T₁ => .inl ⟨last, _, Nat.le_refl _, fun _ => rfl⟩

end Words

/-- The procedure heuristic does not look at a name that is not called. -/
theorem isProcInvoking_name (c : Classifier) {T₂ : List Token} (hcall : callFollows T₂ = false) (u u' : Bytes)
    (T₁ : List Token) : c.isProcInvoking (T₁ ++ .word u :: T₂) = c.isProcInvoking (T₁ ++ .word u' :: T₂) := by
  have hhead : ∀ last, ((walkName c.unicode last T₂).2.head? == some .lparen) = false := by
    intro last
    rw [walkName_head, hcall]
  induction hn : T₁.length using Nat.strong_induction_on generalizing T₁ with
  | _ n ih =>
    match T₁, hn with
    | [], _ =>
      rw [List.nil_append, List.nil_append, Classifier.isProcInvoking, Classifier.isProcInvoking]
      simp only [hhead, Bool.false_and, Bool.false_or]
      rw [walkName_snd c.unicode (toLower c.unicode u) (toLower c.unicode u') T₂]
    | t :: T₁, hn =>
      have hlt : T₁.length < n := by
        rw [← hn]
        exact Nat.lt_succ_self _
      rw [List.cons_append, List.cons_append]
      by_cases hword : ∃ x, t = .word x
      · obtain ⟨x, rfl⟩ := hword
        rw [Classifier.isProcInvoking, Classifier.isProcInvoking]
        rcases walkName_over c.unicode T₂ (toLower c.unicode x) T₁ with ⟨l, T, hlen, hwalk⟩ | hwalk
        · -- the name is still to come
          have hfirst : ((T ++ Token.word u :: T₂).head? == some .lparen) =
              ((T ++ Token.word u' :: T₂).head? == some .lparen) := by
            cases T <;> rfl
          simp only [hwalk, hfirst, ih T.length (hlen.trans_lt hlt) T rfl]
        · -- the name is a segment of the one that was read, and that is not called
          simp only [hwalk, hhead, Bool.false_and, Bool.false_or]
      · have hskip : ∀ w, t ≠ .word w := fun w h => hword ⟨w, h⟩
        rw [c.isProcInvoking_skip hskip, c.isProcInvoking_skip hskip]
        exact ih T₁.length hlt T₁ rfl

/-! ### The role of the name -/

/-- The class that the name can bring about between the tokens `T₁` and `T₂`, if it
is read as a keyword there: as the first word, behind a leading ROLLBACK, and
outside parentheses as the only FROM of a COPY or as the command of a WITH. -/
def nameRole (U : CaseTable) (T₁ T₂ : List Token) : Option StmtClass :=
  match wordsOf U T₁ with
  | [] => some .commitRollback
  | leading :: more =>
    if leading = bytes "rollback" ∧ more = [] then some .commitRollback
    else if tokenDepth 0 T₁ ≠ 0 then none
    else if leading = bytes "copy" ∧ bytes "from" ∉ depthZeroWords U 0 T₁ ∧ bytes "from" ∉ depthZeroWords U 0 T₂ then
      some .copyFrom
    else if leading = bytes "with" ∧ (depthZeroWords U 0 T₁).all (!isCommand ·) = true then some .dml
    else none

section Role

variable (c : Classifier) {T₁ T₂ : List Token}

theorem primary_name (U : CaseTable) (T₁ : List Token) (u : Bytes) (T₂ : List Token) :
    primaryCommandAfterWith U (T₁ ++ .word u :: T₂) = (((depthZeroWords U 0 T₁).find? isCommand).or
      (((if tokenDepth 0 T₁ = 0 then [toLower U u] else []) ++
        depthZeroWords U (tokenDepth 0 T₁) T₂).find? isCommand)).getD [] := by
  show ((depthZeroWords U 0 (T₁ ++ .word u :: T₂)).find? isCommand).getD [] = _
  rw [depthZeroWords_name, List.find?_append]

/-- **A name without a role does not matter** for the class of its statement. -/
theorem tokenClass_of_role_none (hcall : callFollows T₂ = false) (hrole : nameRole c.unicode T₁ T₂ = none)
    (u u' : Bytes) : c.tokenClass (T₁ ++ .word u :: T₂) = c.tokenClass (T₁ ++ .word u' :: T₂) := by
  unfold nameRole at hrole
  rcases hwords : wordsOf c.unicode T₁ with _ | ⟨leading, more⟩
  · rw [hwords] at hrole
    cases hrole
  rw [hwords] at hrole
  dsimp only at hrole
  have hfirst : ∀ u, firstWord c.unicode (T₁ ++ .word u :: T₂) = leading := by
    intro u
    rw [firstWord, wordsOf_name, hwords]
    rfl
  unfold Classifier.tokenClass
  rw [hfirst, hfirst, isProcInvoking_name c hcall u u']
  apply statementClass_congr
  · intro hlead
    rcases more with _ | ⟨second, more⟩
    · rw [if_pos ⟨hlead, rfl⟩] at hrole
      cases hrole
    · simp only [hasSecondWord, wordsOf_name, hwords]
      rfl
  · intro hlead
    subst hlead
    unfold depthZeroHasWord
    rw [depthZeroWords_name, depthZeroWords_name]
    by_cases hdepth : tokenDepth 0 T₁ = 0
    · -- there is another FROM
      rw [if_neg fun h => absurd h.1 (by decide), if_neg (not_not.2 hdepth)] at hrole
      have hfrom : bytes "from" ∈ depthZeroWords c.unicode 0 T₁ ∨ bytes "from" ∈ depthZeroWords c.unicode 0 T₂ := by
        by_contra hno
        rw [if_pos ⟨rfl, not_or.1 hno⟩] at hrole
        cases hrole
      have hmem : ∀ x : List Bytes,
          (depthZeroWords c.unicode 0 T₁ ++ (x ++ depthZeroWords c.unicode 0 T₂)).contains (bytes "from") = true := by
        intro x
        rw [List.contains_iff_mem, List.mem_append, List.mem_append]
        exact hfrom.imp_right .inr
      rw [hdepth, hmem, hmem]
    · rw [if_neg hdepth, if_neg hdepth]
  · intro hlead
    subst hlead
    rw [primary_name, primary_name]
    by_cases hdepth : tokenDepth 0 T₁ = 0
    · -- the command is before the name
      rw [if_neg fun h => absurd h.1 (by decide), if_neg (not_not.2 hdepth),
        if_neg fun h => absurd h.1 (by decide)] at hrole
      have hcommand : ∃ w ∈ depthZeroWords c.unicode 0 T₁, isCommand w = true := by
        by_contra hno
        have hall : (depthZeroWords c.unicode 0 T₁).all (!isCommand ·) = true := by
          rw [List.all_eq_true]
          intro w hw
          simpa using fun h => hno ⟨w, hw, h⟩
        rw [if_pos ⟨rfl, hall⟩] at hrole
        cases hrole
      obtain ⟨w, hw⟩ := Option.isSome_iff_exists.1 (List.find?_isSome.2 hcommand)
      rw [hw]
      rfl
    · rw [if_neg hdepth, if_neg hdepth]

theorem toLower_keyword (U : CaseTable) {w : Bytes} (hw : w.all TxControl.letter = true)
    (hlow : TxControl.fold w = w) : toLower U w = w := by
  rw [TxControl.toLower_letters U (List.all_eq_true.1 hw), hlow]

/-- Between the tokens `T₁` and `T₂` a name can bring about the class `D` or a lighter
one, and a name of each kind exists. -/
structure Decides (T₁ T₂ : List Token) (D : StmtClass) : Prop where
  bound : ∀ u, c.tokenClass (T₁ ++ .word u :: T₂) = D ∨
    stmtClassPriority (c.tokenClass (T₁ ++ .word u :: T₂)) < stmtClassPriority D
  reached : ∃ w, isName w = true ∧ c.tokenClass (T₁ ++ .word w :: T₂) = D
  missed : ∃ w, isName w = true ∧ stmtClassPriority (c.tokenClass (T₁ ++ .word w :: T₂)) < stmtClassPriority D

theorem firstWord_name {leading : Bytes} {more : List Bytes} (hwords : wordsOf c.unicode T₁ = leading :: more)
    (u : Bytes) : firstWord c.unicode (T₁ ++ .word u :: T₂) = leading := by
  rw [firstWord, wordsOf_name, hwords]
  rfl

/-- The first word of a statement. -/
theorem decides_first (hwords : wordsOf c.unicode T₁ = []) : Decides c T₁ T₂ .commitRollback := by
  have hfirst : ∀ u, firstWord c.unicode (T₁ ++ .word u :: T₂) = toLower c.unicode u := by
    intro u
    rw [firstWord, wordsOf_name, hwords]
    rfl
  refine ⟨fun u => ?_, ⟨bytes "commit", by decide, ?_⟩, ⟨bytes "x", by decide, ?_⟩⟩
  · cases c.tokenClass (T₁ ++ .word u :: T₂) with
    | commitRollback => exact .inl rfl
    | _ => exact .inr (by decide)
  · rw [Classifier.tokenClass, hfirst, toLower_keyword _ (by decide) (by decide)]
    rfl
  · rw [Classifier.tokenClass, hfirst, toLower_keyword _ (by decide) (by decide)]
    exact Nat.zero_lt_succ 7

/-- The word behind a leading ROLLBACK. -/
theorem decides_rollback (hwords : wordsOf c.unicode T₁ = [bytes "rollback"]) : Decides c T₁ T₂ .commitRollback := by
  have hclass : ∀ u, c.tokenClass (T₁ ++ .word u :: T₂) =
      if toLower c.unicode u == bytes "to" then .utility else .commitRollback := by
    intro u
    rw [Classifier.tokenClass, firstWord_name c hwords, statementClass_rollback, hasSecondWord, wordsOf_name, hwords]
    rfl
  refine ⟨fun u => ?_, ⟨bytes "x", by decide, ?_⟩, ⟨bytes "to", by decide, ?_⟩⟩
  · rw [hclass]
    split_ifs
    · exact .inr (by decide)
    · exact .inl rfl
  · rw [hclass, toLower_keyword _ (by decide) (by decide)]
    rfl
  · rw [hclass, toLower_keyword _ (by decide) (by decide)]
    decide

/-- The only FROM of a COPY. -/
theorem decides_copy {more : List Bytes} (hwords : wordsOf c.unicode T₁ = bytes "copy" :: more)
    (hdepth : tokenDepth 0 T₁ = 0) (hbefore : bytes "from" ∉ depthZeroWords c.unicode 0 T₁)
    (hbehind : bytes "from" ∉ depthZeroWords c.unicode 0 T₂) : Decides c T₁ T₂ .copyFrom := by
  have hclass : ∀ u, c.tokenClass (T₁ ++ .word u :: T₂) =
      if toLower c.unicode u = bytes "from" then .copyFrom else .unknown := by
    intro u
    have hfrom : depthZeroHasWord c.unicode (T₁ ++ .word u :: T₂) (bytes "from") = true ↔
        toLower c.unicode u = bytes "from" := by
      rw [depthZeroHasWord, depthZeroWords_name, if_pos hdepth, hdepth, List.contains_iff_mem]
      simp [hbefore, hbehind, eq_comm]
    rw [Classifier.tokenClass, firstWord_name c hwords, statementClass_copy]
    simp only [hfrom]
  refine ⟨fun u => ?_, ⟨bytes "from", by decide, ?_⟩, ⟨bytes "x", by decide, ?_⟩⟩
  · rw [hclass]
    split_ifs
    · exact .inl rfl
    · exact .inr (by decide)
  · rw [hclass, toLower_keyword _ (by decide) (by decide), if_pos rfl]
  · rw [hclass, toLower_keyword _ (by decide) (by decide), if_neg (by decide)]
    decide

/-- The command of a WITH. -/
theorem decides_with {more : List Bytes} (hwords : wordsOf c.unicode T₁ = bytes "with" :: more)
    (hdepth : tokenDepth 0 T₁ = 0) (hnone : (depthZeroWords c.unicode 0 T₁).all (!isCommand ·) = true) :
    Decides c T₁ T₂ .dml := by
  have hfind : (depthZeroWords c.unicode 0 T₁).find? isCommand = none := by
    rw [List.find?_eq_none]
    intro w hw
    simpa using List.all_eq_true.1 hnone w hw
  have hprimary : ∀ w, isCommand w = true → toLower c.unicode w = w →
      primaryCommandAfterWith c.unicode (T₁ ++ .word w :: T₂) = w := by
    intro w hw hlow
    rw [primary_name, hfind, Option.none_or, if_pos hdepth, hlow, List.singleton_append, List.find?_cons_of_pos hw]
    rfl
  refine ⟨fun u => ?_, ⟨bytes "insert", by decide, ?_⟩, ⟨bytes "select", by decide, ?_⟩⟩
  · rw [Classifier.tokenClass, firstWord_name c hwords, statementClass_with]
    split_ifs
    · exact .inr (by decide)
    · exact .inr (by decide)
    · exact .inl rfl
    · exact .inr (by decide)
  · rw [Classifier.tokenClass, firstWord_name c hwords, statementClass_with,
      hprimary _ (by decide) (toLower_keyword _ (by decide) (by decide)), if_neg (by decide), if_pos (by decide)]
  · rw [Classifier.tokenClass, firstWord_name c hwords, statementClass_with,
      hprimary _ (by decide) (toLower_keyword _ (by decide) (by decide)), if_pos rfl]
    split_ifs <;> decide

/-- **A name with a role decides the class of its statement.** -/
theorem tokenClass_of_role_some {D : StmtClass} (hrole : nameRole c.unicode T₁ T₂ = some D) : Decides c T₁ T₂ D := by
  unfold nameRole at hrole
  rcases hwords : wordsOf c.unicode T₁ with _ | ⟨leading, more⟩
  · rw [hwords] at hrole
    cases hrole
    exact decides_first c hwords
  rw [hwords] at hrole
  dsimp only at hrole
  by_cases hrollback : leading = bytes "rollback" ∧ more = []
  · rw [if_pos hrollback] at hrole
    cases hrole
    exact decides_rollback c (by rw [hwords, hrollback.1, hrollback.2])
  rw [if_neg hrollback] at hrole
  by_cases hdepth : tokenDepth 0 T₁ = 0
  · rw [if_neg (not_not.2 hdepth)] at hrole
    split_ifs at hrole with hcopy hwith
    · cases hrole
      exact decides_copy c (hcopy.1 ▸ hwords) hdepth hcopy.2.1 hcopy.2.2
    · cases hrole
      exact decides_with c (hwith.1 ▸ hwords) hdepth hwith.2
  · rw [if_pos hdepth] at hrole
    cases hrole

end Role

/-! ### The weight of a statement -/

theorem better_assoc (x y z : StmtClass) : better (better x y) z = better x (better y z) := by
  unfold better
  split_ifs <;> first | rfl | omega

theorem foldl_better_eq : ∀ (l : List StmtClass) (best : StmtClass), l.foldl better best = better best (topClass l)
  | [], best => (better_unknown best).symm
  | x :: l, best => by
    have hcons : topClass (x :: l) = better x (topClass l) := by
      show l.foldl better (better .unknown x) = _
      rw [unknown_better, foldl_better_eq l x]
    rw [List.foldl_cons, foldl_better_eq l, hcons, better_assoc]

theorem topClass_append (l m : List StmtClass) : topClass (l ++ m) = better (topClass l) (topClass m) := by
  show (l ++ m).foldl better .unknown = _
  rw [List.foldl_append, foldl_better_eq]
  rfl

theorem topClass_between (l : List StmtClass) (x : StmtClass) (m : List StmtClass) :
    topClass (l ++ x :: m) = better (topClass l) (better x (topClass m)) := by
  rw [topClass_append]
  congr 1
  show m.foldl better (better .unknown x) = _
  rw [unknown_better, foldl_better_eq]

section Weight

variable {l m : List StmtClass} {x D : StmtClass}

/-- A class that is outweighed does not count. -/
theorem topClass_light (hx : stmtClassPriority x < stmtClassPriority (topClass (l ++ m))) :
    topClass (l ++ x :: m) = topClass (l ++ m) := by
  rw [topClass_append, priority_better] at hx
  rw [topClass_between, topClass_append]
  unfold better
  split_ifs <;> first | rfl | omega

theorem le_topClass_between (l : List StmtClass) (x : StmtClass) (m : List StmtClass) :
    stmtClassPriority x ≤ stmtClassPriority (topClass (l ++ x :: m)) := by
  rw [topClass_between, priority_better, priority_better]
  omega

/-- If the other statements outweigh a class they outweigh the lighter ones. -/
theorem topClass_of_lighter (hD : topClass (l ++ D :: m) = topClass (l ++ m))
    (hx : x = D ∨ stmtClassPriority x < stmtClassPriority D) : topClass (l ++ x :: m) = topClass (l ++ m) := by
  rcases hx with rfl | hx
  · exact hD
  · apply topClass_light
    have hle := le_topClass_between l D m
    rw [hD] at hle
    exact hx.trans_le hle

/-- If a class and a lighter one make no difference the others outweigh both. -/
theorem topClass_of_same (hx : stmtClassPriority x < stmtClassPriority D)
    (hsame : topClass (l ++ x :: m) = topClass (l ++ D :: m)) : topClass (l ++ D :: m) = topClass (l ++ m) := by
  have hle := le_topClass_between l D m
  rw [← hsame]
  apply topClass_light
  rw [← hsame, topClass_between, priority_better, priority_better] at hle
  rw [topClass_append, priority_better]
  omega

end Weight

/-! ### The place of an identifier -/

/-- Where the classifier has the identifier between `pre` and `post`: the statements
before and behind, the rest of its own statement, and the tokens around it if it
is shown as a word there. None of this depends on the name. -/
structure NamePlace (pre post : Bytes) where
  before : List Bytes
  left : Bytes
  right : Bytes
  after : List Bytes
  shown : Option (List Token × List Token)
  cut : ∀ w, isName w = true → statementTexts (pre ++ quoted w post) = before ++ (left ++ quoted w right) :: after
  word : ∀ T₁ T₂, shown = some (T₁, T₂) → callFollows T₂ = false ∧
    ∀ w, isName w = true → lex (left ++ quoted w right) = T₁ ++ .word w :: T₂
  hidden : shown = none → ∀ w w', isName w = true → isName w' = true →
    lex (left ++ quoted w right) = lex (left ++ quoted w' right)

/-- Every identifier that is not called has a place. -/
theorem IsIdentifier.exists_place {pre v post : Bytes} (h : IsIdentifier pre v post)
    (hcall : callFollows (lex post) = false) : Nonempty (NamePlace pre post) := by
  obtain ⟨hpre, hpost⟩ := h.apart
  obtain ⟨before, left, right, after, hleft, hright, hcut⟩ := statements_over pre post
  have hhead : right.head? ≠ some (chr '"') := by
    obtain ⟨u, rfl⟩ := hright
    cases right with
    | nil => nofun
    | cons a right => exact hpost
  rcases lex_over hhead (callFollows_front hright hcall) left (getLast?_suffix hleft hpre) with
    ⟨T₁, T₂, hfree, hlex⟩ | ⟨T, hlex⟩
  · refine ⟨⟨before, left, right, after, some (T₁, T₂), hcut, ?_, nofun⟩⟩
    intro S₁ S₂ hS
    cases hS
    exact ⟨hfree, hlex⟩
  · refine ⟨⟨before, left, right, after, none, hcut, nofun, ?_⟩⟩
    intro _ w w' hw hw'
    rw [hlex w hw, hlex w' hw']

namespace NamePlace

variable {pre post : Bytes} (p : NamePlace pre post) (c : Classifier)

/-- The classes of the statements with `cls` for the one that has the identifier. -/
def classes (cls : StmtClass) : List StmtClass :=
  p.before.map c.classifySingle ++ cls :: p.after.map c.classifySingle

/-- The identifier has no role in its statement, or the other statements outweigh
what the role can bring about. -/
def Neutral : Prop :=
  ∀ T₁ T₂ D, p.shown = some (T₁, T₂) → nameRole c.unicode T₁ T₂ = some D →
    topClass (p.classes c D) = topClass (p.before.map c.classifySingle ++ p.after.map c.classifySingle)

/-- The classifier reads the text `v` between the quotes as one name: it does not cut
the text inside it, and it takes it for one word where it takes a name for one. -/
def ReadsAsName (v : Bytes) : Prop :=
  statementTexts (pre ++ quoted v post) = p.before ++ (p.left ++ quoted v p.right) :: p.after ∧
    (∀ T₁ T₂, p.shown = some (T₁, T₂) → ∃ u, lex (p.left ++ quoted v p.right) = T₁ ++ .word u :: T₂) ∧
    (p.shown = none → lex (p.left ++ quoted v p.right) = lex (p.left ++ quoted (bytes "x") p.right))

theorem readsAsName_of_isName {w : Bytes} (hw : isName w = true) : p.ReadsAsName w :=
  ⟨p.cut w hw, fun T₁ T₂ hT => ⟨w, (p.word T₁ T₂ hT).2 w hw⟩, fun hnone => p.hidden hnone w _ hw (by decide)⟩

theorem classify_of_cut {v : Bytes}
    (hv : statementTexts (pre ++ quoted v post) = p.before ++ (p.left ++ quoted v p.right) :: p.after) :
    c.classify (pre ++ quoted v post) = topClass (p.classes c (c.classifySingle (p.left ++ quoted v p.right))) := by
  rw [classify_statementTexts, hv, List.map_append, List.map_cons]
  rfl

/-- At a neutral place everything that is read as a name gives the same class. -/
theorem Neutral.same (h : p.Neutral c) {v v' : Bytes} (hv : p.ReadsAsName v) (hv' : p.ReadsAsName v') :
    c.classify (pre ++ quoted v post) = c.classify (pre ++ quoted v' post) := by
  rw [p.classify_of_cut c hv.1, p.classify_of_cut c hv'.1]
  cases hshown : p.shown with
  | none =>
    rw [classifySingle_congr c ((hv.2.2 hshown).trans (hv'.2.2 hshown).symm)]
  | some T =>
    obtain ⟨T₁, T₂⟩ := T
    obtain ⟨u, hu⟩ := hv.2.1 T₁ T₂ hshown
    obtain ⟨u', hu'⟩ := hv'.2.1 T₁ T₂ hshown
    rw [Classifier.classifySingle, Classifier.classifySingle, hu, hu']
    cases hrole : nameRole c.unicode T₁ T₂ with
    | none => rw [tokenClass_of_role_none c (p.word T₁ T₂ hshown).1 hrole u u']
    | some D =>
      have hdecides := tokenClass_of_role_some c hrole
      have hD := h T₁ T₂ D hshown hrole
      unfold classes at hD ⊢
      rw [topClass_of_lighter hD (hdecides.bound u), topClass_of_lighter hD (hdecides.bound u')]

/-- If all names give the same class the place is neutral. -/
theorem neutral_of_same (h : ∀ w w', isName w = true → isName w' = true →
    c.classify (pre ++ quoted w post) = c.classify (pre ++ quoted w' post)) : p.Neutral c := by
  intro T₁ T₂ D hshown hrole
  obtain ⟨-, hlex⟩ := p.word T₁ T₂ hshown
  have hdecides := tokenClass_of_role_some c hrole
  obtain ⟨w, hw, hreached⟩ := hdecides.reached
  obtain ⟨w', hw', hmissed⟩ := hdecides.missed
  have hsame := h w' w hw' hw
  rw [p.classify_of_cut c (p.cut w' hw'), p.classify_of_cut c (p.cut w hw), Classifier.classifySingle,
    Classifier.classifySingle, hlex w' hw', hlex w hw, hreached] at hsame
  exact topClass_of_same hmissed hsame

end NamePlace

/-- **Which quoted identifiers the classifier may take for keywords.** Replacing an
identifier that is not called by a run of letters never changes the class of the
text exactly if its place is neutral, and if its own text is read as a name or the
statements that it is cut into are decided as with a name in its place. -/
theorem quoted_name_neutral_iff (c : Classifier) (pre v post : Bytes) (hident : IsIdentifier pre v post)
    (hcall : callFollows (lex post) = false) :
    Nonempty (NamePlace pre post) ∧ ∀ p : NamePlace pre post,
      ((∀ w, isName w = true → c.classify (pre ++ quoted w post) = c.classify (pre ++ quoted v post)) ↔
        p.Neutral c ∧ (p.ReadsAsName v ∨
          topClass ((statementTexts (pre ++ quoted v post)).map c.classifySingle) =
            topClass (p.classes c (c.classifySingle (p.left ++ quoted (bytes "x") p.right))))) := by
  refine ⟨hident.exists_place hcall, fun p => ?_⟩
  have hx : isName (bytes "x") = true := by decide
  rw [← classify_statementTexts, ← p.classify_of_cut c (p.cut _ hx)]
  constructor
  · intro h
    refine ⟨p.neutral_of_same c fun w w' hw hw' => ?_, .inr (h _ hx).symm⟩
    rw [h w hw, h w' hw']
  · intro h w hw
    obtain ⟨hneutral, hname | hdecided⟩ := h
    · exact hneutral.same p c (p.readsAsName_of_isName hw) hname
    · rw [hdecided]
      exact hneutral.same p c (p.readsAsName_of_isName hw) (p.readsAsName_of_isName hx)

/-- The name of a table that is dropped does not matter. -/
theorem dropped_table_neutral :
    let c := newClassifier ⟨id, id⟩ []
    let pre := bytes "DROP TABLE "
    IsIdentifier pre (bytes "from") [] ∧
      ∀ w, isName w = true → c.classify (pre ++ quoted w []) = c.classify (pre ++ quoted (bytes "from") []) := by
  intro c pre
  have hident : IsIdentifier pre (bytes "from") [] := by decide +kernel
  obtain ⟨⟨p⟩, h⟩ := quoted_name_neutral_iff c pre (bytes "from") [] hident (by rw [TxControl.lex_nil]; rfl)
  refine ⟨hident, (h p).2 ⟨?_, .inl (p.readsAsName_of_isName (by decide))⟩⟩
  intro T₁ T₂ D hshown hrole
  have hname : isName (bytes "zz") = true := by decide
  have htexts : statementTexts (pre ++ quoted (bytes "zz") []) = [bytes "DROP TABLE \"zz\""] := by decide +kernel
  have hlex : lex (bytes "DROP TABLE \"zz\"") = [.word (bytes "DROP"), .word (bytes "TABLE"), .word (bytes "zz")] := by
    decide +kernel
  have hcut := p.cut _ hname
  have htoks := (p.word T₁ T₂ hshown).2 _ hname
  -- the text is one statement, and the name is its third word
  rw [htexts] at hcut
  have hwhole : p.left ++ quoted (bytes "zz") p.right = bytes "DROP TABLE \"zz\"" := by
    cases hbefore : p.before with
    | nil =>
      rw [hbefore] at hcut
      exact (List.cons.inj hcut).1.symm
    | cons b bs =>
      rw [hbefore] at hcut
      simp at hcut
  rw [hwhole, hlex] at htoks
  have hT₁ : T₁ = [.word (bytes "DROP"), .word (bytes "TABLE")] := by
    rcases T₁ with _ | ⟨a, _ | ⟨b, _ | ⟨d, T₁⟩⟩⟩
    · exact absurd (List.cons.inj htoks).1 (by decide)
    · simp only [List.cons_append, List.nil_append, List.cons.injEq] at htoks
      exact absurd htoks.2.1 (by decide)
    · simp only [List.cons_append, List.nil_append, List.cons.injEq] at htoks
      rw [← htoks.1, ← htoks.2.1]
    · simp at htoks
  have hnone : nameRole c.unicode [.word (bytes "DROP"), .word (bytes "TABLE")] T₂ = none := by
    have hwords : wordsOf c.unicode [.word (bytes "DROP"), .word (bytes "TABLE")] = [bytes "drop", bytes "table"] := by
      decide +kernel
    rw [nameRole, hwords]
    dsimp only
    rw [if_neg (by decide), if_neg (by decide), if_neg fun hc => absurd hc.1 (by decide),
      if_neg fun hc => absurd hc.1 (by decide)]
  rw [hT₁, hnone] at hrole
  cases hrole

/-- A table named `from` that is copied out counts as one that is copied in. -/
theorem copy_of_table_from :
    let c := newClassifier ⟨id, id⟩ []
    let pre := bytes "COPY "
    let post := bytes " TO STDOUT"
    IsIdentifier pre (bytes "from") post ∧ callFollows (lex post) = false ∧ isName (bytes "orders") = true ∧
      c.classify (pre ++ quoted (bytes "from") post) = .copyFrom ∧
      c.classify (pre ++ quoted (bytes "orders") post) = .unknown := by
  decide +kernel

end PgShadow
