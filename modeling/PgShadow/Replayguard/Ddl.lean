/-
# The DDL filter

What `ExcludeDDL` blocks. The filter is one expression, anchored at the start of the
text. Its block comment ends at some `*/`, not at the first one or the matching one,
so it also skips nested comments, and a whole statement between two comments. The
texts it matches are those that open with a command in this sense (`OpensDDL`,
`ddl_found_iff`): blanks, line comments and stretches from a `/*` to a later `*/`, then
a keyword with a blank after it.

Measured against the statements of a batch (`Sql.hasDDL`), a command that comes first
and has white space after its keyword is blocked, behind any nesting of comments
(`opensDDL_of_first`). Passed are commands in a later statement and commands
with a comment directly after the keyword (`ddl_blocked_iff`, `ddl_passes`).

Key definitions: `OpensDDL`, `Sql.ddlBehind`.
Key theorems: `ddl_found_iff`, `opensDDL_of_first`, `ddl_blocked_iff`.
-/
import Mathlib.Data.List.TakeWhile
import PgShadow.Replayguard.Patterns
import PgShadow.Replayguard.ReadOnly

namespace PgShadow

/-! ### What the pattern matches -/

/-- The text opens with a command, in the sense of the pattern. -/
inductive OpensDDL : List ℕ → Prop
  | keyword {k : String} {w : List ℕ} {x : ℕ} (rest : List ℕ) :
      k ∈ ddlKeywords → Spelled k w → isBlankRune x = true → OpensDDL (w ++ x :: rest)
  | blank {x : ℕ} {s : List ℕ} : isBlankRune x = true → OpensDDL s → OpensDDL (x :: s)
  | line {body s : List ℕ} : 10 ∉ body → OpensDDL s → OpensDDL (45 :: 45 :: (body ++ 10 :: s))
  | block {s : List ℕ} (body : List ℕ) : OpensDDL s → OpensDDL (47 :: 42 :: (body ++ 42 :: 47 :: s))

/-- A line comment and the blanks after it. -/
def IsLine (w : List ℕ) : Prop :=
  ∃ body blanks, 10 ∉ body ∧ (∀ x ∈ blanks, isBlankRune x = true) ∧ w = 45 :: 45 :: (body ++ 10 :: blanks)

/-- A stretch from a `/*` to a `*/`, and the blanks after it. -/
def IsBlock (w : List ℕ) : Prop :=
  ∃ body blanks, (∀ x ∈ blanks, isBlankRune x = true) ∧ w = 47 :: 42 :: (body ++ 42 :: 47 :: blanks)

section Spells

open Regex Pattern

theorem spells_line : Spells lineComment IsLine := by
  intro b w a
  have hspells := spells_rune '-' (spells_rune '-' ((Spells.star_sym (· != 10) true).seq
    (spells_rune '\n' spells_blanks)))
  refine (hspells b w a).trans ?_
  constructor
  · rintro ⟨_, rfl, _, rfl, body, _, rfl, hbody, blanks, rfl, hblanks⟩
    exact ⟨body, blanks, fun h => absurd (hbody 10 h) (by decide), hblanks, rfl⟩
  · rintro ⟨body, blanks, hbody, hblanks, rfl⟩
    refine ⟨_, rfl, _, rfl, body, _, rfl, fun x hx => ?_, blanks, rfl, hblanks⟩
    exact bne_iff_ne.mpr fun h => hbody (h ▸ hx)

theorem spells_block : Spells blockComment IsBlock := by
  intro b w a
  have hspells := spells_rune '/' (spells_rune '*' ((Spells.star_sym (fun _ => true) false).seq
    (spells_rune '*' (spells_rune '/' spells_blanks))))
  refine (hspells b w a).trans ?_
  constructor
  · rintro ⟨_, rfl, _, rfl, body, _, rfl, -, _, rfl, blanks, rfl, hblanks⟩
    exact ⟨body, blanks, hblanks, rfl⟩
  · rintro ⟨body, blanks, hblanks, rfl⟩
    exact ⟨_, rfl, _, rfl, body, _, rfl, fun _ _ => rfl, _, rfl, blanks, rfl, hblanks⟩

theorem spells_keyword : Spells (.anyOf (ddlKeywords.map text)) fun w => ∃ k ∈ ddlKeywords, Spelled k w :=
  Spells.anyOf fun k _ => spells_text k

end Spells

/-- The parts of a text that the pattern matches: blanks, comments, a keyword and a
blank. -/
theorem found_iff_parts (s : List ℕ) : ddlRegex.found s = true ↔
    ∃ (blanks : List ℕ) (ws : List (List ℕ)) (w : List ℕ) (x : ℕ) (rest : List ℕ),
      (∀ y ∈ blanks, isBlankRune y = true) ∧ (∀ u ∈ ws, IsLine u ∨ IsBlock u) ∧
        (∃ k ∈ ddlKeywords, Spelled k w) ∧ isBlankRune x = true ∧ s = blanks ++ (ws.flatten ++ (w ++ x :: rest)) := by
  have hspells := spells_blanks.seq (((spells_line.alt spells_block).star true).seq
    (spells_keyword.seq (Regex.Spells.sym isBlankRune)))
  rw [ddlRegex, Regex.found_start_iff]
  constructor
  · rintro ⟨w', rest, rfl, hmatch⟩
    obtain ⟨blanks, _, rfl, hblanks, _, _, rfl, ⟨ws, hws, rfl⟩, w, _, rfl, hw, x, hx, rfl⟩ :=
      (hspells _ _ _).mp hmatch
    refine ⟨blanks, ws, w, x, rest, hblanks, hws, hw, hx, ?_⟩
    simp only [List.append_assoc, List.singleton_append]
  · rintro ⟨blanks, ws, w, x, rest, hblanks, hws, hw, hx, rfl⟩
    refine ⟨blanks ++ (ws.flatten ++ (w ++ [x])), rest, ?_, (hspells _ _ _).mpr ?_⟩
    · simp only [List.append_assoc, List.singleton_append]
    · exact ⟨blanks, _, rfl, hblanks, _, _, rfl, ⟨ws, hws, rfl⟩, w, [x], rfl, hw, x, hx, rfl⟩

theorem OpensDDL.blanks {s : List ℕ} (h : OpensDDL s) :
    ∀ {u : List ℕ}, (∀ x ∈ u, isBlankRune x = true) → OpensDDL (u ++ s)
  | [], _ => h
  | x :: _, hu => .blank (hu x List.mem_cons_self) (h.blanks fun y hy => hu y (List.mem_cons_of_mem x hy))

theorem OpensDDL.comments {s : List ℕ} (h : OpensDDL s) :
    ∀ {ws : List (List ℕ)}, (∀ u ∈ ws, IsLine u ∨ IsBlock u) → OpensDDL (ws.flatten ++ s)
  | [], _ => h
  | u :: ws, hws => by
    have hrest := h.comments fun v hv => hws v (List.mem_cons_of_mem u hv)
    rw [List.flatten_cons, List.append_assoc]
    rcases hws u List.mem_cons_self with ⟨body, blanks, hbody, hblanks, rfl⟩ | ⟨body, blanks, hblanks, rfl⟩
    · have := OpensDDL.line hbody (hrest.blanks hblanks)
      simpa only [List.cons_append, List.append_assoc] using this
    · have := OpensDDL.block body (hrest.blanks hblanks)
      simpa only [List.cons_append, List.append_assoc] using this

/-- **What the pattern matches.** The search of the expression succeeds on the texts
that open with a command. -/
theorem ddl_found_iff (s : List ℕ) : ddlRegex.found s = true ↔ OpensDDL s := by
  rw [found_iff_parts]
  constructor
  · rintro ⟨blanks, ws, w, x, rest, hblanks, hws, ⟨k, hk, hw⟩, hx, rfl⟩
    exact ((OpensDDL.keyword rest hk hw hx).comments hws).blanks hblanks
  · intro h
    induction h with
    | @keyword k w x rest hk hw hx =>
      exact ⟨[], [], w, x, rest, by simp, by simp, ⟨k, hk, hw⟩, hx, rfl⟩
    | @blank y s hy _ ih =>
      obtain ⟨blanks, ws, w, x, rest, hblanks, hws, hw, hx, rfl⟩ := ih
      exact ⟨y :: blanks, ws, w, x, rest, List.forall_mem_cons.mpr ⟨hy, hblanks⟩, hws, hw, hx, rfl⟩
    | @line body s hbody _ ih =>
      -- the blanks that opened the rest now close the comment
      obtain ⟨blanks, ws, w, x, rest, hblanks, hws, hw, hx, rfl⟩ := ih
      refine ⟨[], (45 :: 45 :: (body ++ 10 :: blanks)) :: ws, w, x, rest, by simp, ?_, hw, hx, by simp⟩
      exact List.forall_mem_cons.mpr ⟨.inl ⟨body, blanks, hbody, hblanks, rfl⟩, hws⟩
    | @block s body _ ih =>
      obtain ⟨blanks, ws, w, x, rest, hblanks, hws, hw, hx, rfl⟩ := ih
      refine ⟨[], (47 :: 42 :: (body ++ 42 :: 47 :: blanks)) :: ws, w, x, rest, by simp, ?_, hw, hx, by simp⟩
      exact List.forall_mem_cons.mpr ⟨.inr ⟨body, blanks, hblanks, rfl⟩, hws⟩

/-! ### The statements of a batch -/

namespace Sql

/-- A command in a later statement, or with a comment directly after its keyword. -/
def ddlBehind (s : Bytes) : Bool :=
  match pieces s with
  | st :: rest => (st.head?.any fun h => isDDL h && !h.2.head?.any isSpace) || rest.any fun st => st.head?.any isDDL
  | [] => false

/-- Every command is behind something, or the text begins with it. -/
theorem hasDDL_cases {s : Bytes} (h : hasDDL s = true) :
    ddlBehind s = true ∨ ∃ t rest hs, lexemes s = (t, rest) :: hs ∧ t ∈ ddlWords ∧ rest.head?.any isSpace = true := by
  unfold hasDDL at h
  unfold ddlBehind
  rcases hlex : lexemes s with _ | ⟨⟨t, rest⟩, hs⟩
  · rw [pieces, hlex] at h
    cases h
  · obtain ⟨more, later, hpieces⟩ := pieces_eq_cons hlex
    rw [hpieces, List.any_cons, Bool.or_eq_true] at h
    rw [hpieces]
    dsimp only at h ⊢
    by_cases hsemi : t = .symbol 59
    · rw [if_pos hsemi] at h ⊢
      exact .inl (h.resolve_left Bool.false_ne_true)
    rw [if_neg hsemi] at h ⊢
    rcases h with hfirst | hlater
    · by_cases hspace : rest.head?.any isSpace = true
      · rw [List.head?_cons, Option.any_some, isDDL, Bool.and_eq_true] at hfirst
        exact .inr ⟨t, rest, hs, rfl, of_decide_eq_true hfirst.1, hspace⟩
      · refine .inl ?_
        rw [List.head?_cons, Option.any_some] at hfirst ⊢
        rw [hfirst, Bool.eq_false_iff.mpr hspace]
        rfl
    · exact .inl ((Bool.or_eq_true _ _).mpr (.inr hlater))

/-! ### A command at the start -/

theorem tokenAt_word {b : UInt8} {t w : Bytes} (h : (tokenAt b t).1 = .word w) :
    w = (b :: t.takeWhile isIdentCont).map foldCase ∧ (tokenAt b t).2 = t.dropWhile isIdentCont := by
  unfold tokenAt at h ⊢
  split_ifs at h ⊢
  · rcases hd : dollarTag t with _ | tag
    · rw [hd] at h
      cases h
    · rw [hd] at h
      cases h
  · cases h
    exact ⟨rfl, rfl⟩

/-- A block comment that something comes after ends with `*/`. -/
theorem afterBlock_split (d : ℕ) (s : Bytes) (h : afterBlock d s ≠ []) :
    ∃ body, s = body ++ 42 :: 47 :: afterBlock d s := by
  fun_induction afterBlock d s with
  | case1 d t ih =>
    obtain ⟨body, hbody⟩ := ih h
    exact ⟨47 :: 42 :: body, by rw [List.cons_append, List.cons_append, ← hbody]⟩
  | case2 t => exact ⟨[], rfl⟩
  | case3 d t hd ih =>
    obtain ⟨body, hbody⟩ := ih h
    exact ⟨42 :: 47 :: body, by rw [List.cons_append, List.cons_append, ← hbody]⟩
  | case4 d b t h1 h2 ih =>
    obtain ⟨body, hbody⟩ := ih h
    exact ⟨b :: body, by rw [List.cons_append, ← hbody]⟩
  | case5 => exact absurd rfl h

/-- What comes after a line comment begins with the end of its line. -/
theorem afterLine_split {s r : Bytes} {c : UInt8} (h : afterLine s = c :: r) :
    (c = 10 ∨ c = 13) ∧ ∃ body, s = body ++ c :: r ∧ 10 ∉ body := by
  constructor
  · have hc : ¬(c != 10 && c != 13) = true := by
      have hhead := List.head?_dropWhile_not (fun c : UInt8 => c != 10 && c != 13) s
      rw [show s.dropWhile (fun c : UInt8 => c != 10 && c != 13) = c :: r from h] at hhead
      simpa using hhead
    simpa [or_iff_not_imp_left] using hc
  · refine ⟨s.takeWhile fun c => c != 10 && c != 13, ?_, fun hmem => ?_⟩
    · rw [← h]
      exact List.takeWhile_append_dropWhile.symm
    · exact absurd (List.mem_takeWhile_imp hmem) (by decide)

theorem isSpace_blank {b : UInt8} (h : isSpace b = true) (hvt : b ≠ 11) :
    b.toNat < 128 ∧ isBlankRune b.toNat = true := by
  simp only [isSpace, isBlankRune, Bool.or_eq_true, Bool.and_eq_true, decide_eq_true_eq, beq_iff_eq, ne_eq,
    UInt8.le_iff_toNat_le, ← UInt8.toNat_inj, UInt8.reduceToNat] at h hvt ⊢
  omega

theorem foldCase_letter {b : UInt8} (h : 97 ≤ (foldCase b).toNat) (h' : (foldCase b).toNat ≤ 122) :
    b.toNat < 128 ∧ sameLetter ((foldCase b).toNat - 32) b.toNat = true :=
  forall_byte (p := fun b => 97 ≤ (foldCase b).toNat → (foldCase b).toNat ≤ 122 →
    b.toNat < 128 ∧ sameLetter ((foldCase b).toNat - 32) b.toNat = true) (by decide +kernel) b h h'

/-- A word that folds to the letters of a keyword spells it. -/
theorem spelled_of_fold {cs : List Char} {w : Bytes} (hcs : ∀ c ∈ cs, 65 ≤ c.toNat ∧ c.toNat ≤ 90)
    (h : w.map foldCase = cs.map fun c => UInt8.ofNat (c.toNat + 32)) :
    (∀ b ∈ w, b.toNat < 128) ∧ List.Forall₂ (fun c x => sameLetter c.toNat x = true) cs (w.map UInt8.toNat) := by
  refine spelled_of_map (fun c hc b hb => ?_) h
  obtain ⟨hlow, hhigh⟩ := hcs c hc
  have hnat : (foldCase b).toNat = c.toNat + 32 := by
    rw [hb, UInt8.toNat_ofNat']
    omega
  have hletter := foldCase_letter (b := b) (by omega) (by omega)
  rwa [hnat, Nat.add_sub_cancel] at hletter

theorem ddlWords_keyword {t : Token} (ht : t ∈ ddlWords) : ∃ k ∈ ddlKeywords,
    t = .word (k.toList.map fun c => UInt8.ofNat (c.toNat + 32)) ∧
      (k.toList.all fun c => 65 ≤ c.toNat && c.toNat ≤ 90) = true := by
  simp only [ddlWords, List.mem_cons, List.not_mem_nil, or_false] at ht
  rcases ht with rfl | rfl | rfl | rfl | rfl | rfl
  · exact ⟨"CREATE", by simp [ddlKeywords], rfl, rfl⟩
  · exact ⟨"ALTER", by simp [ddlKeywords], rfl, rfl⟩
  · exact ⟨"DROP", by simp [ddlKeywords], rfl, rfl⟩
  · exact ⟨"TRUNCATE", by simp [ddlKeywords], rfl, rfl⟩
  · exact ⟨"GRANT", by simp [ddlKeywords], rfl, rfl⟩
  · exact ⟨"REVOKE", by simp [ddlKeywords], rfl, rfl⟩

theorem runes_line (body r : Bytes) :
    runes (45 :: 45 :: (body ++ 10 :: r)) = 45 :: 45 :: (runes body ++ 10 :: runes r) := by
  rw [runes_ascii (by decide), runes_ascii (by decide), runes_append (by decide), runes_ascii (by decide)]
  rfl

theorem runes_block (body r : Bytes) :
    runes (47 :: 42 :: (body ++ 42 :: 47 :: r)) = 47 :: 42 :: (runes body ++ 42 :: 47 :: runes r) := by
  rw [runes_ascii (by decide), runes_ascii (by decide), runes_append (by decide), runes_ascii (by decide),
    runes_ascii (by decide)]
  rfl

/-- Behind a line comment. -/
theorem opensDDL_line {s r : Bytes} (h : afterLine s = 10 :: r) (hopens : OpensDDL (runes r)) :
    OpensDDL (runes (45 :: 45 :: s)) := by
  obtain ⟨-, body, rfl, hbody⟩ := afterLine_split h
  rw [runes_line]
  refine .line (fun hmem => ?_) hopens
  obtain ⟨x, hx, hnat⟩ := mem_of_mem_runes (by decide) body hmem
  exact hbody ((UInt8.toNat_inj (b := 10)).mp hnat ▸ hx)

/-- Behind a block comment, with what is nested in it. -/
theorem opensDDL_block {s : Bytes} (h : afterBlock 0 s ≠ []) (hopens : OpensDDL (runes (afterBlock 0 s))) :
    OpensDDL (runes (47 :: 42 :: s)) := by
  obtain ⟨body, hbody⟩ := afterBlock_split 0 s h
  generalize afterBlock 0 s = r at hbody hopens
  subst hbody
  rw [runes_block]
  exact .block _ hopens

/-- The keyword itself. -/
theorem opensDDL_word {b : UInt8} {s : Bytes} (hvt : 11 ∉ s) (ht : (tokenAt b s).1 ∈ ddlWords)
    (hspace : (tokenAt b s).2.head?.any isSpace = true) : OpensDDL (runes (b :: s)) := by
  obtain ⟨k, hk, hword, hupper⟩ := ddlWords_keyword ht
  obtain ⟨hfold, hrest⟩ := tokenAt_word hword
  have hletters : ∀ c ∈ k.toList, 65 ≤ c.toNat ∧ c.toNat ≤ 90 := by
    simpa only [List.all_eq_true, Bool.and_eq_true, decide_eq_true_eq] using hupper
  obtain ⟨hascii, hspelled⟩ := spelled_of_fold hletters hfold.symm
  rw [hrest] at hspace
  rcases hdrop : s.dropWhile isIdentCont with _ | ⟨c, r⟩
  · rw [hdrop] at hspace
    cases hspace
  · rw [hdrop] at hspace
    have hs : b :: s = (b :: s.takeWhile isIdentCont) ++ c :: r := by
      rw [List.cons_append, ← hdrop, List.takeWhile_append_dropWhile]
    have hc : c ≠ 11 := by
      rintro rfl
      exact hvt ((List.dropWhile_suffix _).subset (hdrop ▸ List.mem_cons_self))
    obtain ⟨hcascii, hblank⟩ := isSpace_blank hspace hc
    rw [hs, runes_ascii_append _ hascii, runes_ascii hcascii]
    exact .keyword _ hk hspelled hblank

/-- **A command at the start.** A text that begins with a command and white space,
after any white space and nested comments, opens with a command in the sense of the
pattern. Vertical tabs, which the pattern does not skip, and carriage returns,
which end a line comment for the server but not for the pattern, are left out. -/
theorem opensDDL_of_first (n : ℕ) : ∀ {s : Bytes} {t : Token} {rest : Bytes} {hs : List (Token × Bytes)},
    11 ∉ s → 13 ∉ s → lexemesFrom n s = (t, rest) :: hs → t ∈ ddlWords → rest.head?.any isSpace = true →
    OpensDDL (runes s) := by
  induction n using Nat.strong_induction_on with
  | _ n ih =>
    intro s t rest hs hvt hcr hlex ht hspace
    rcases n with _ | n
    · cases hlex
    rcases s with _ | ⟨b, s⟩
    · cases hlex
    have hvt' : 11 ∉ s := fun h => hvt (List.mem_cons_of_mem b h)
    have hcr' : 13 ∉ s := fun h => hcr (List.mem_cons_of_mem b h)
    rw [lexemesFrom] at hlex
    by_cases hb : isSpace b = true
    · obtain ⟨hascii, hblank⟩ := isSpace_blank hb fun h => hvt (h ▸ List.mem_cons_self)
      rw [if_pos hb] at hlex
      rw [runes_ascii hascii]
      exact .blank hblank (ih n (by omega) hvt' hcr' hlex ht hspace)
    rw [if_neg hb] at hlex
    by_cases hline : b = 45 ∧ s.head? = some 45
    · rw [if_pos hline] at hlex
      obtain ⟨rfl, hhead⟩ := hline
      obtain ⟨s, rfl⟩ := List.head?_eq_some_iff.mp hhead
      rcases hafter : afterLine (45 :: s) with _ | ⟨c, r⟩
      · rw [hafter] at hlex
        cases n <;> cases hlex
      have hafter' : afterLine s = c :: r := hafter
      obtain ⟨hend, body, rfl, -⟩ := afterLine_split hafter'
      obtain rfl : c = 10 := hend.resolve_right fun h => hcr' (by simp [h])
      -- the newline is white space
      rcases n with _ | n
      · rw [hafter] at hlex
        cases hlex
      rw [hafter, lexemesFrom, if_pos (by decide)] at hlex
      apply opensDDL_line hafter'
      exact ih n (by omega) (fun h => hvt' (by simp [h])) (fun h => hcr' (by simp [h])) hlex ht hspace
    rw [if_neg hline] at hlex
    by_cases hblock : b = 47 ∧ s.head? = some 42
    · rw [if_pos hblock] at hlex
      obtain ⟨rfl, hhead⟩ := hblock
      obtain ⟨s, rfl⟩ := List.head?_eq_some_iff.mp hhead
      rw [List.drop_one, List.tail_cons] at hlex
      have hne : afterBlock 0 s ≠ [] := by
        intro hnil
        rw [hnil] at hlex
        cases n <;> cases hlex
      obtain ⟨body, hbody⟩ := afterBlock_split 0 s hne
      have hsub : ∀ {x}, x ∈ afterBlock 0 s → x ∈ 42 :: s := by
        intro x hx
        apply List.mem_cons_of_mem
        rw [hbody]
        simp [hx]
      apply opensDDL_block hne
      exact ih n (by omega) (fun h => hvt' (hsub h)) (fun h => hcr' (hsub h)) hlex ht hspace
    rw [if_neg hblock] at hlex
    obtain ⟨htok, -⟩ := List.cons.inj hlex
    obtain ⟨rfl, rfl⟩ := Prod.ext_iff.mp htok
    exact opensDDL_word hvt' ht hspace

end Sql

/-! ### The filter -/

variable {F : Type} {U : CaseTable} {R : Regexes} {cfg : GuardRules F} {s : Guard F}

namespace Guard

/-- The filter of a guard blocks the texts that open with a command. -/
theorem Of.ddlBlocks_iff (hs : s.Of U R cfg) (hddl : cfg.excludeDDL = true) (sql : Bytes) :
    s.ddlBlocks sql = true ↔ OpensDDL (runes sql) := by
  obtain ⟨g, n, hg, rfl⟩ := hs
  rw [newGuard] at hg
  split at hg
  · cases hg
    rw [← ddl_found_iff, Guard.ddlBlocks, hddl, Bool.true_and]
    rfl
  · cases hg

theorem Of.block_iff [Float64 F] (hs : s.Of U R cfg) (hddl : cfg.excludeDDL = true) (T : TimeTexts) (ev : SQLEvent) :
    (s.apply U T ev).1 = .block ↔ OpensDDL (runes (s.mask ev.sql).1) ∨ s.BlocksBesides U .ddl ev := by
  rw [apply_block_iff _ _ .ddl, ← hs.ddlBlocks_iff hddl, blocks]

end Guard

/-- **The DDL filter.** With `ExcludeDDL`, an event is blocked if and only if its text,
as the masking leaves it, opens with a command, or another rule blocks it. A text with
a command that passes unmasked has it in a later statement or with a comment directly
after the keyword, but for vertical tabs and carriage returns. -/
theorem ddl_blocked_iff [Float64 F] (hs : s.Of U R cfg) (hddl : cfg.excludeDDL = true) (T : TimeTexts) (ev : SQLEvent) :
    ((s.apply U T ev).1 = .block ↔ OpensDDL (runes (s.mask ev.sql).1) ∨ s.BlocksBesides U .ddl ev) ∧
      (Sql.hasDDL ev.sql = true → (s.mask ev.sql).1 = ev.sql → 11 ∉ ev.sql → 13 ∉ ev.sql →
        (s.apply U T ev).1 = .block ∨ Sql.ddlBehind ev.sql = true) := by
  refine ⟨hs.block_iff hddl T ev, fun hhas hmask hvt hcr => ?_⟩
  rcases Sql.hasDDL_cases hhas with hbehind | ⟨t, rest, more, hlex, ht, hspace⟩
  · exact .inr hbehind
  · refine .inl ((hs.block_iff hddl T ev).mpr (.inl ?_))
    rw [hmask]
    exact Sql.opensDDL_of_first _ hvt hcr hlex ht hspace

/-- A guard with the DDL filter and no other rule. -/
def ddlRules : GuardRules ℚ := { maxReplayLagSeconds := 0, replayPercentage := 0, excludeDDL := true }

def ddlEvent (sql : String) : SQLEvent := { conn := ⟨.zero, 50000, .zero, 5432⟩, sql := bytes sql, timestamp := 0 }

/-- The decision of that guard. -/
def ddlDecision (sql : String) : Option Decision :=
  (newGuard ⟨id, id⟩ noRegexes ddlRules).map fun g =>
    (g.apply ⟨id, id⟩ ⟨fun _ => [], fun _ => [], fun _ => []⟩ (ddlEvent sql)).1

/-- A command behind nested comments. -/
theorem ddl_after_nested : ddlDecision "/* a /* b */ c */ -- d\n Drop table t" = some .block := by
  have hnew : newGuard ⟨id, id⟩ noRegexes ddlRules = some _ := rfl
  have hblock := (ddl_blocked_iff (Guard.new_of hnew) rfl ⟨fun _ => [], fun _ => [], fun _ => []⟩
    (ddlEvent "/* a /* b */ c */ -- d\n Drop table t")).2
    (by decide +kernel) rfl (by decide +kernel) (by decide +kernel)
  exact congrArg some (hblock.resolve_right (by decide +kernel))

/-- **Counterexample**: a command in the second statement, and one with a comment after
its keyword, are let through. -/
theorem ddl_passes :
    ["SELECT 1; DROP TABLE t", "DROP/**/TABLE t"].Forall fun sql =>
      Sql.hasDDL (bytes sql) = true ∧ ddlDecision sql = some .allow := by
  decide +kernel

end PgShadow
