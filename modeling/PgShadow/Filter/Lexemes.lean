/-
# The two scanners of the classifier, position by position

`lex` and the loop of `splitOnDepthZeroSemicolons` read a text with their own
code. Here both are tokenizers of the library: `lexer` with the tokens that `lex`
emits and what it skips (`lex_eq`), `splitter` with the bytes that the splitting
loop looks at and the comments and literals that it steps over, which give the
positions where it cuts (`splitOnDepthZeroSemicolons_eq`).

A semicolon or a blank separates the tokens of both: it ends a word, and it
neither ends nor begins a literal, a quoted identifier or (but for the newline) a
comment (`splitter_breaks`, `lexer_breaks`). So each of the scanners stands at a
semicolon exactly if it has found all literals and comments before it terminated.

Key definitions: `splitter`, `lexer`, `cuts`, `regionEnds`, `Separates`.
Key theorems: `splitOnDepthZeroSemicolons_eq`, `lex_eq`, `splitter_breaks`, `lexer_breaks`.
-/
import Mathlib.Data.List.TakeWhile
import PgShadow.Filter.Classifier
import PgShadow.Lib.Spans

namespace PgShadow

/-! ### Terminated comments and literals -/

/-- The text ends `d` nested block comments. -/
def blockEnds : ℕ → Bytes → Bool
  | 0, _ => true
  | _ + 1, [] => false
  | _ + 1, [_] => false
  | d + 1, a :: b :: t =>
    if a = chr '/' ∧ b = chr '*' then blockEnds (d + 2) t
    else if a = chr '*' ∧ b = chr '/' then blockEnds d t
    else blockEnds (d + 1) (b :: t)

/-- The text holds a closing quote `q`; a doubled one does not close. -/
def quoteEnds (q : UInt8) : Bytes → Bool
  | [] => false
  | [a] => a == q
  | a :: b :: t =>
    if a = q then if b = q then quoteEnds q t else true
    else quoteEnds q (b :: t)

/-- The text after a `$` is no opener of a literal, or the literal is closed. -/
def dollarEnds (s : Bytes) : Bool :=
  (dollarTag s).all fun (tag, r) => (indexOf (closeTag tag) r).isSome

/-- The comment or literal that `c :: t` starts with is terminated, if it starts
with one. A line comment is by its newline. -/
def regionEnds (c : UInt8) (t : Bytes) : Bool :=
  if c == chr '-' && t.head? == some (chr '-') then (t.drop 1).contains 10
  else if c == chr '/' && t.head? == some (chr '*') then blockEnds 1 (t.drop 1)
  else if c == chr '\'' then quoteEnds (chr '\'') t
  else if c == chr '$' then dollarEnds t
  else true

/-! ### The tokenizers -/

/-- The splitting loops look at the next byte, or step over a comment or literal. -/
def splitStep (c : UInt8) (t : Bytes) : Option UInt8 × Bytes :=
  match skipRegion c t with
  | some r => (none, r)
  | none => (some c, t)

def splitter : Tokenizer UInt8 (Option UInt8) where
  step := splitStep
  ends := regionEnds
  step_suffix c t := by
    unfold splitStep
    split
    · exact skipRegion_suffix ‹_›
    · exact List.suffix_rfl

theorem ite_suffix {p : Prop} [Decidable p] {x y t : Bytes} (hx : x <:+ t) (hy : y <:+ t) :
    (if p then x else y) <:+ t := by
  split_ifs
  · exact hx
  · exact hy

/-- What `lex` makes of a piece of the text: the token it emits, and whether the
piece is a quoted identifier, a literal or a comment. -/
structure Lexeme where
  token : Option Token
  delimited : Bool
deriving DecidableEq

/-- One round of the loop of `lex`. -/
def lexStep (c : UInt8) (t : Bytes) : Lexeme × Bytes :=
  if c == 32 || (9 ≤ c && c ≤ 13) then (⟨none, false⟩, t)
  else if c == chr '-' && t.head? == some (chr '-') then (⟨none, true⟩, skipLine (t.drop 1))
  else if c == chr '/' && t.head? == some (chr '*') then (⟨none, true⟩, skipBlock 1 (t.drop 1))
  else if c == chr '\'' then (⟨some .string, true⟩, skipString t)
  else if c == chr '"' then (⟨some (.word (quotedIdent t).1), true⟩, (quotedIdent t).2)
  else if c == chr '$' then
    match skipDollar t with
    | some r => (⟨some .string, true⟩, r)
    | none => (⟨some .other, false⟩, t.dropWhile isDigit)
  else if c == chr '(' then (⟨some .lparen, false⟩, t)
  else if c == chr ')' then (⟨some .rparen, false⟩, t)
  else if c == chr '.' then (⟨some .dot, false⟩, t)
  else if isIdentStart c then (⟨some (.word (c :: t.takeWhile isIdentPart)), false⟩, t.dropWhile isIdentPart)
  else (⟨some .other, false⟩, t)

theorem lexStep_suffix (c : UInt8) (t : Bytes) : (lexStep c t).2 <:+ t := by
  rw [lexStep]
  simp only [apply_ite Prod.snd]
  refine ite_suffix List.suffix_rfl (ite_suffix (skipLine_suffix t) (ite_suffix ?_ (ite_suffix (quotedText_suffix _ t)
    (ite_suffix (quotedText_suffix _ t) (ite_suffix ?_ (ite_suffix List.suffix_rfl (ite_suffix List.suffix_rfl
      (ite_suffix List.suffix_rfl (ite_suffix (List.dropWhile_suffix _) List.suffix_rfl)))))))))
  · exact (skipBlock_suffix 1 _).trans (List.drop_suffix 1 t)
  · split
    · exact skipDollar_suffix ‹_›
    · exact List.dropWhile_suffix _

/-- A first byte that starts no comment, no literal and no quoted identifier. -/
structure OpensNothing (c : UInt8) (t : Bytes) : Prop where
  line : ¬(c == chr '-' && t.head? == some (chr '-')) = true
  block : ¬(c == chr '/' && t.head? == some (chr '*')) = true
  string : ¬(c == chr '\'') = true
  quoted : ¬(c == chr '"') = true
  dollar : ¬(c == chr '$') = true

/-- What the first byte of a token opens. -/
inductive Opener : UInt8 → Bytes → Prop
  | line {t : Bytes} (hhead : (t.head? == some (chr '-')) = true) : Opener (chr '-') t
  | block {t : Bytes} (hhead : (t.head? == some (chr '*')) = true) : Opener (chr '/') t
  | string (t : Bytes) : Opener (chr '\'') t
  | quoted (t : Bytes) : Opener (chr '"') t
  | dollar (t : Bytes) : Opener (chr '$') t
  | nothing {c : UInt8} {t : Bytes} (h : OpensNothing c t) : Opener c t

theorem opener (c : UInt8) (t : Bytes) : Opener c t := by
  by_cases hline : (c == chr '-' && t.head? == some (chr '-')) = true
  · obtain ⟨hc, hhead⟩ := Bool.and_eq_true_iff.1 hline
    obtain rfl : c = chr '-' := eq_of_beq hc
    exact .line hhead
  by_cases hblock : (c == chr '/' && t.head? == some (chr '*')) = true
  · obtain ⟨hc, hhead⟩ := Bool.and_eq_true_iff.1 hblock
    obtain rfl : c = chr '/' := eq_of_beq hc
    exact .block hhead
  by_cases hstring : (c == chr '\'') = true
  · obtain rfl : c = chr '\'' := eq_of_beq hstring
    exact .string t
  by_cases hquoted : (c == chr '"') = true
  · obtain rfl : c = chr '"' := eq_of_beq hquoted
    exact .quoted t
  by_cases hdollar : (c == chr '$') = true
  · obtain rfl : c = chr '$' := eq_of_beq hdollar
    exact .dollar t
  · exact .nothing ⟨hline, hblock, hstring, hquoted, hdollar⟩

/-- A token without delimiters is a word or one byte. -/
theorem OpensNothing.lexStep_eq {c : UInt8} {t : Bytes} (h : OpensNothing c t) :
    lexStep c t =
      if c == 32 || (9 ≤ c && c ≤ 13) then (⟨none, false⟩, t)
      else if c == chr '(' then (⟨some .lparen, false⟩, t)
      else if c == chr ')' then (⟨some .rparen, false⟩, t)
      else if c == chr '.' then (⟨some .dot, false⟩, t)
      else if isIdentStart c then (⟨some (.word (c :: t.takeWhile isIdentPart)), false⟩, t.dropWhile isIdentPart)
      else (⟨some .other, false⟩, t) := by
  rw [lexStep, if_neg h.line, if_neg h.block, if_neg h.string, if_neg h.quoted, if_neg h.dollar]

theorem OpensNothing.skipRegion_eq {c : UInt8} {t : Bytes} (h : OpensNothing c t) : skipRegion c t = none := by
  rw [skipRegion, if_neg h.line, if_neg h.block, if_neg h.string, if_neg h.dollar]

/-- For `lex` quoted identifiers are to be terminated as well. -/
def lexEnds (c : UInt8) (t : Bytes) : Bool := if c == chr '"' then quoteEnds (chr '"') t else regionEnds c t

def lexer : Tokenizer UInt8 Lexeme where
  step := lexStep
  ends := lexEnds
  step_suffix := lexStep_suffix

theorem lex_cons (c : UInt8) (t : Bytes) :
    lex (c :: t) = (lexStep c t).1.token.toList ++ lex (lexStep c t).2 := by
  let emit : Lexeme × Bytes → List Token := fun p => p.1.token.toList ++ lex p.2
  show lex (c :: t) = emit (lexStep c t)
  rw [lex, lexStep]
  simp only [apply_ite emit]
  -- up to the dollar sign the branches agree as they stand
  iterate 5 refine congrArg (ite _ _) ?_
  congr 1
  split <;> rename_i h <;> rw [h] <;> rfl

/-- `lex` emits the tokens of the lexemes. -/
theorem lex_eq (s : Bytes) : lex s = (lexer.spans s).filterMap (·.value.token) := by
  induction s using lexer.token_induction with
  | nil => rw [lex, Tokenizer.spans_nil, List.filterMap_nil]
  | cons c t ih =>
    have hstep : lexer.step c t = lexStep c t := rfl
    rw [hstep] at ih
    rw [lex_cons, lexer.spans_cons, hstep, List.filterMap_cons]
    cases (lexStep c t).1.token <;> simp [ih]

/-! ### The cuts of the splitting loop -/

/-- The parenthesis depth of the splitting loops. -/
def splitDepth (d : ℕ) : Option UInt8 → ℕ
  | some c => depthAfter d c
  | none => d

def isCut (v : ℕ × Tokenizer.Span UInt8 (Option UInt8)) : Bool := v.1 == 0 && v.2.value == some (chr ';')

/-- The positions, as the texts from there on, at which the splitting loop cuts
that is at depth `d`. -/
def cutsFrom (d : ℕ) (s : Bytes) : List Bytes :=
  ((Tokenizer.visits splitDepth d (splitter.spans s)).filter isCut).map (·.2.start)

def cuts (s : Bytes) : List Bytes := cutsFrom 0 s

/-- The pieces of a text between the cuts; an empty last one is left out. -/
def slices (start : Bytes) : List Bytes → List Bytes
  | [] => if start = [] then [] else [start]
  | u :: us => start.take (start.length - u.length) :: slices u.tail us

theorem cutsFrom_cons (d : ℕ) (c : UInt8) (t : Bytes) :
    cutsFrom d (c :: t) =
      (if isCut (d, ⟨(splitStep c t).1, c :: t, (splitStep c t).2⟩) then [c :: t] else []) ++
        cutsFrom (splitDepth d (splitStep c t).1) (splitStep c t).2 := by
  unfold cutsFrom
  rw [splitter.spans_cons, Tokenizer.visits, List.filter_cons]
  show List.map _ (if isCut (d, ⟨(splitStep c t).1, c :: t, (splitStep c t).2⟩) = true then _ else _) = _
  split_ifs <;> rfl

theorem cutsFrom_region (d : ℕ) {c : UInt8} {t r : Bytes} (h : skipRegion c t = some r) :
    cutsFrom d (c :: t) = cutsFrom d r := by
  have hstep : splitStep c t = (none, r) := by simp only [splitStep, h]
  rw [cutsFrom_cons, hstep]
  simp [isCut, splitDepth]

theorem cutsFrom_byte (d : ℕ) {c : UInt8} {t : Bytes} (h : skipRegion c t = none) :
    cutsFrom d (c :: t) = (if c == chr ';' && d == 0 then [c :: t] else []) ++ cutsFrom (depthAfter d c) t := by
  have hstep : splitStep c t = (some c, t) := by simp only [splitStep, h]
  rw [cutsFrom_cons, hstep, isCut, Bool.and_comm]
  rfl

/-- Outside parentheses a semicolon is a cut. -/
theorem cutsFrom_semi (t : Bytes) : cutsFrom 0 (chr ';' :: t) = (chr ';' :: t) :: cutsFrom 0 t := by
  rw [cutsFrom_byte 0 (by simp [skipRegion, chr])]
  rfl

theorem cutsFrom_nil (d : ℕ) : cutsFrom d [] = [] := by
  rw [cutsFrom, Tokenizer.spans_nil]
  rfl

theorem splitFrom_eq (d : ℕ) (start s : Bytes) : splitFrom d start s = slices start (cutsFrom d s) := by
  fun_induction splitFrom d start s with
  | case1 d =>
    rw [cutsFrom_nil, slices, if_pos rfl]
  | case2 d start hne => rw [cutsFrom_nil, slices, if_neg hne]
  | case3 d start c t r h ih => rw [cutsFrom_region d h, ih]
  | case4 d start c t h hcut ih =>
    obtain ⟨hsemi, hd⟩ := Bool.and_eq_true_iff.1 hcut
    obtain rfl : c = chr ';' := by simpa using hsemi
    obtain rfl : d = 0 := by simpa using hd
    rw [cutsFrom_byte 0 h, if_pos hcut, show depthAfter 0 (chr ';') = 0 from rfl, ih]
    rfl
  | case5 d start c t h hcut ih =>
    rw [cutsFrom_byte d h, if_neg hcut, ih]
    rfl

/-- **The splitting loop** returns the texts between its cuts. -/
theorem splitOnDepthZeroSemicolons_eq (s : Bytes) : splitOnDepthZeroSemicolons s = slices s (cuts s) :=
  splitFrom_eq 0 s s

/-- A byte other than a blank of `indexDepthZeroSemicolon`. -/
def nonBlank (c : UInt8) : Bool := !(c == 32 || c == 9 || c == 10 || c == 13)

theorem indexDepthZeroFrom_isSome (i d : ℕ) (s : Bytes) :
    (indexDepthZeroFrom i d s).isSome = (cutsFrom d s).head?.any fun u => u.tail.any nonBlank := by
  fun_induction indexDepthZeroFrom i d s with
  | case1 => rw [cutsFrom_nil]; rfl
  | case2 i d c t r h ih => rw [cutsFrom_region d h, ih]
  | case3 i d c t h hcut hblank =>
    rw [cutsFrom_byte d h, if_pos hcut]
    exact hblank.symm
  | case4 i d c t h hcut hblank =>
    rw [cutsFrom_byte d h, if_pos hcut]
    exact ((Bool.not_eq_true _).mp hblank).symm
  | case5 i d c t h hcut ih =>
    rw [cutsFrom_byte d h, if_neg hcut, ih]
    rfl

/-- The text counts as several statements if something other than blanks follows
the first cut. -/
theorem indexDepthZeroSemicolon_isSome (s : Bytes) :
    (indexDepthZeroSemicolon s).isSome = (cuts s).head?.any fun u => u.tail.any nonBlank :=
  indexDepthZeroFrom_isSome 0 0 s

/-! ### Separators -/

/-- The byte is part of no word and of no delimiter that the splitting loops know. -/
structure Bounds (x : UInt8) : Prop where
  ident : isIdentPart x = false
  digit : isDigit x = false
  dollar : x ≠ chr '$'
  dash : x ≠ chr '-'
  star : x ≠ chr '*'
  slash : x ≠ chr '/'
  quote : x ≠ chr '\''

/-- The byte is part of no word and of no delimiter: white space, or a semicolon. -/
structure Separates (x : UInt8) : Prop extends Bounds x where
  doubleQuote : x ≠ chr '"'

theorem bounds_semi : Bounds (chr ';') := by constructor <;> decide

theorem separates_semi : Separates (chr ';') := ⟨bounds_semi, by decide⟩

theorem skipLine_append_of_contains {t : Bytes} (h : t.contains 10 = true) (u : Bytes) :
    skipLine (t ++ u) = skipLine t ++ u ∧ skipLine t ≠ [] := by
  have hne : skipLine t ≠ [] := by
    intro hnil
    have hall := List.dropWhile_eq_nil_iff.1 hnil 10 (by simpa using h)
    simp at hall
  refine ⟨?_, hne⟩
  rw [skipLine, List.dropWhile_append, if_neg (by simpa [skipLine] using hne)]
  rfl

theorem skipLine_append_of_not_contains {t : Bytes} (h : t.contains 10 = false) (u : Bytes) :
    skipLine (t ++ u) = skipLine u := by
  refine List.dropWhile_append_of_pos fun c hc => ?_
  have : c ≠ 10 := by
    rintro rfl
    simp [hc] at h
  simpa using this

theorem skipBlock_append_of_ends : ∀ {d : ℕ} {t : Bytes}, blockEnds d t = true → ∀ u : Bytes,
    skipBlock d (t ++ u) = skipBlock d t ++ u
  | 0, t, _, u => by rw [skipBlock, skipBlock]
  | d + 1, a :: b :: t, h, u => by
    rw [blockEnds] at h
    rw [List.cons_append, List.cons_append, skipBlock, skipBlock]
    split_ifs at h ⊢
    · exact skipBlock_append_of_ends h u
    · exact skipBlock_append_of_ends h u
    · exact skipBlock_append_of_ends (t := b :: t) h u

theorem skipBlock_eq_nil : ∀ {d : ℕ} {t : Bytes}, blockEnds d t = false → skipBlock d t = []
  | 0, _, h => by simp [blockEnds] at h
  | _ + 1, [], _ => rfl
  | _ + 1, [_], _ => rfl
  | d + 1, a :: b :: t, h => by
    rw [blockEnds] at h
    rw [skipBlock]
    split_ifs at h ⊢
    · exact skipBlock_eq_nil h
    · exact skipBlock_eq_nil h
    · exact skipBlock_eq_nil h

theorem skipBlock_stable {d : ℕ} {t : Bytes} (h : skipBlock d t ≠ []) (u : Bytes) :
    skipBlock d (t ++ u) = skipBlock d t ++ u := by
  cases hends : blockEnds d t with
  | true => exact skipBlock_append_of_ends hends u
  | false => exact absurd (skipBlock_eq_nil hends) h

/-- A run of bytes ends before one that is not of its kind. -/
theorem run_append {p : UInt8 → Bool} {c : UInt8} (hc : p c = false) (t post : Bytes) :
    (t ++ c :: post).takeWhile p = t.takeWhile p ∧
      (t ++ c :: post).dropWhile p = t.dropWhile p ++ c :: post := by
  induction t with
  | nil => simp [hc]
  | cons a t ih =>
    rw [List.cons_append]
    by_cases ha : p a = true
    · rw [List.takeWhile_cons_of_pos ha, List.takeWhile_cons_of_pos ha, List.dropWhile_cons_of_pos ha,
        List.dropWhile_cons_of_pos ha, ih.1, ih.2]
      exact ⟨rfl, rfl⟩
    · rw [List.takeWhile_cons_of_neg ha, List.takeWhile_cons_of_neg ha, List.dropWhile_cons_of_neg ha,
        List.dropWhile_cons_of_neg ha, List.cons_append]
      exact ⟨rfl, rfl⟩

theorem indexOf_append {w : Bytes} {c : UInt8} (hc : c ∉ w) (hw : w ≠ []) (post : Bytes) : ∀ r : Bytes,
    indexOf w (r ++ c :: post) = (indexOf w r).or ((indexOf w post).map (· + (r.length + 1)))
  | [] => by
    have hpre : w.isPrefixOf (c :: post) = false := by
      rw [← List.nil_append (c :: post), isPrefixOf_append hc]
      rcases w with _ | ⟨a, w⟩
      · exact absurd rfl hw
      · rfl
    have hnil : indexOf w [] = none := by rw [indexOf, if_neg hw]
    rw [List.nil_append, hnil, indexOf, hpre]
    rfl
  | b :: r => by
    rw [List.cons_append, indexOf, ← List.cons_append, isPrefixOf_append hc, indexOf, indexOf_append hc hw post r]
    split_ifs
    · rfl
    · rcases indexOf w r with _ | i
      · simp [Function.comp_def, Nat.add_assoc]
      · rfl

theorem indexOf_le {w : Bytes} : ∀ {r : Bytes} {i : ℕ}, indexOf w r = some i → i + w.length ≤ r.length
  | [], i, h => by
    rw [indexOf] at h
    split_ifs at h with hw
    cases h
    simp [hw]
  | b :: r, i, h => by
    rw [indexOf] at h
    split_ifs at h with hpre
    · cases h
      have := (List.isPrefixOf_iff_prefix.1 hpre).length_le
      omega
    · obtain ⟨j, hj, rfl⟩ := Option.map_eq_some_iff.1 h
      have := indexOf_le hj
      rw [List.length_cons]
      omega

/-- A closing tag that is not before the separator is sought behind it. -/
theorem afterTag_append {tag r : Bytes} {x : UInt8} (hx : x ∉ closeTag tag) (h : indexOf (closeTag tag) r = none)
    (post : Bytes) : afterTag tag (r ++ x :: post) = afterTag tag post := by
  rw [afterTag, afterTag, indexOf_append hx (by simp [closeTag]), h, Option.none_or]
  cases indexOf (closeTag tag) post with
  | none => rfl
  | some i =>
    have hlen : i + (r.length + 1) + (closeTag tag).length = (r ++ [x]).length + (i + (closeTag tag).length) := by
      rw [List.length_append, List.length_singleton]
      omega
    show (r ++ x :: post).drop (i + (r.length + 1) + (closeTag tag).length) = post.drop _
    rw [List.append_cons r x post, hlen, List.drop_length_add_append]

section Quotes

variable {q : UInt8}

theorem quotedText_plain {a : UInt8} (ha : a ≠ q) (t : Bytes) :
    quotedText q (a :: t) = (a :: (quotedText q t).1, (quotedText q t).2) := by
  rcases t with _ | ⟨b, t⟩
  · exact if_neg ha
  · rw [quotedText, if_neg ha]

theorem quotedText_close {r : Bytes} (hr : r.head? ≠ some q) : quotedText q (q :: r) = ([], r) := by
  rcases r with _ | ⟨b, r⟩
  · exact if_pos rfl
  · have hb : b ≠ q := by simpa using hr
    exact (if_pos rfl).trans (if_neg hb)

/-- An open text goes on in what follows. -/
theorem quotedText_open : ∀ {t : Bytes}, quoteEnds q t = false → ∀ u : Bytes,
    quotedText q (t ++ u) = ((quotedText q t).1 ++ (quotedText q u).1, (quotedText q u).2)
  | [], _, _ => rfl
  | [a], h, u => by
    have ha : a ≠ q := by simpa [quoteEnds] using h
    rw [List.singleton_append, quotedText_plain ha, quotedText_plain ha]
    rfl
  | a :: b :: t, h, u => by
    rw [quoteEnds] at h
    rw [List.cons_append, List.cons_append, quotedText, quotedText]
    split_ifs at h ⊢
    · rw [quotedText_open h u]
      rfl
    · rw [← List.cons_append, quotedText_open (t := b :: t) h u]
      rfl

theorem quotedText_eq_nil {t : Bytes} (h : quoteEnds q t = false) : (quotedText q t).2 = [] := by
  rw [← List.append_nil t, quotedText_open h]
  rfl

theorem quoteEnds_of_ne_nil {t : Bytes} (h : (quotedText q t).2 ≠ []) : quoteEnds q t = true := by
  rw [← Bool.not_eq_false]
  exact fun hopen => h (quotedText_eq_nil hopen)

/-- A text stays as it is if the quote that closes it is not doubled by what
follows. -/
theorem quotedText_append {u : Bytes} : ∀ {t : Bytes}, quoteEnds q t = true →
    ((quotedText q t).2 = [] → u.head? ≠ some q) →
    quotedText q (t ++ u) = ((quotedText q t).1, (quotedText q t).2 ++ u)
  | [a], h, hu => by
    obtain rfl : a = q := by simpa [quoteEnds] using h
    have hnil : quotedText a [a] = ([], []) := if_pos rfl
    rw [hnil] at hu ⊢
    exact quotedText_close (hu rfl)
  | a :: b :: t, h, hu => by
    rw [quoteEnds] at h
    rw [quotedText] at hu
    rw [List.cons_append, List.cons_append, quotedText, quotedText]
    split_ifs at h hu ⊢
    · rw [quotedText_append h hu]
    · rfl
    · rw [← List.cons_append, quotedText_append (t := b :: t) h hu]

/-- What ends a text is its closing quote. -/
theorem quotedText_last : ∀ {t : Bytes}, quoteEnds q t = true → ∃ p, t = p ++ q :: (quotedText q t).2
  | [a], h => by
    obtain rfl : a = q := by simpa [quoteEnds] using h
    exact ⟨[], by rw [quotedText, if_pos rfl]; rfl⟩
  | a :: b :: t, h => by
    rw [quoteEnds] at h
    rw [quotedText]
    split_ifs at h ⊢ with ha
    · obtain ⟨p, hp⟩ := quotedText_last h
      exact ⟨a :: b :: p, by rw [List.cons_append, List.cons_append, ← hp]⟩
    · exact ⟨[], by rw [ha]; rfl⟩
    · obtain ⟨p, hp⟩ := quotedText_last (t := b :: t) h
      exact ⟨a :: p, by rw [List.cons_append, ← hp]⟩

/-- The separator is in the text. -/
theorem quotedText_open_length {x : UInt8} (hx : x ≠ q) {t : Bytes} (h : quoteEnds q t = false) (post : Bytes) :
    (quotedText q (t ++ x :: post)).2.length ≤ post.length := by
  rw [quotedText_open h, quotedText_plain hx]
  exact (quotedText_suffix q post).length_le

end Quotes

section Bounds

variable {x : UInt8} (hx : Bounds x)
include hx

/-- The separator is in the comment. -/
theorem skipBlock_separator (d : ℕ) (post : Bytes) : (skipBlock (d + 1) (x :: post)).length ≤ post.length := by
  rcases post with _ | ⟨b, post⟩
  · exact Nat.zero_le _
  · rw [skipBlock, if_neg fun h => hx.slash h.1, if_neg fun h => hx.star h.1]
    exact (skipBlock_suffix (d + 1) (b :: post)).length_le

theorem skipBlock_open : ∀ {d : ℕ} {t : Bytes}, blockEnds d t = false → ∀ post : Bytes,
    (skipBlock d (t ++ x :: post)).length ≤ post.length
  | 0, _, h, _ => by simp [blockEnds] at h
  | d + 1, [], _, post => skipBlock_separator hx d post
  | d + 1, [a], _, post => by
    rw [List.singleton_append, skipBlock, if_neg fun h => hx.star h.2, if_neg fun h => hx.slash h.2]
    exact skipBlock_separator hx d post
  | d + 1, a :: b :: t, h, post => by
    rw [blockEnds] at h
    rw [List.cons_append, List.cons_append, skipBlock]
    split_ifs at h ⊢
    · exact skipBlock_open h post
    · exact skipBlock_open h post
    · exact skipBlock_open (t := b :: t) h post

theorem dollarTag_append (t post : Bytes) :
    dollarTag (t ++ x :: post) = (dollarTag t).map fun (tag, r) => (tag, r ++ x :: post) := by
  obtain ⟨htake, hdrop⟩ := run_append hx.ident t post
  unfold dollarTag
  rw [htake, hdrop]
  rcases t.dropWhile isIdentPart with _ | ⟨c, r⟩
  · exact if_neg fun h => hx.dollar h.1
  · simp only [List.cons_append]
    split_ifs <;> rfl

theorem notMem_closeTag {s tag r : Bytes} (h : dollarTag s = some (tag, r)) : x ∉ closeTag tag := by
  have hpart : x ∉ tag := by
    intro hin
    rw [(dollarTag_eq_some h).1] at hin
    exact absurd (List.mem_takeWhile_imp hin) (by rw [hx.ident]; decide)
  unfold closeTag
  simp [hpart, hx.dollar]

theorem skipDollar_append_of_ends {t : Bytes} (h : dollarEnds t = true) (post : Bytes) :
    skipDollar (t ++ x :: post) = (skipDollar t).map (· ++ x :: post) := by
  rw [skipDollar, skipDollar, dollarTag_append hx]
  rcases htag : dollarTag t with _ | ⟨tag, r⟩
  · rfl
  · rw [dollarEnds, htag] at h
    obtain ⟨idx, hidx⟩ := Option.isSome_iff_exists.1 (show (indexOf (closeTag tag) r).isSome = true from h)
    show some (afterTag tag (r ++ x :: post)) = some (afterTag tag r ++ x :: post)
    rw [afterTag, afterTag, indexOf_append (notMem_closeTag hx htag) (by simp [closeTag]), hidx]
    simp only [Option.some_or, Option.map_some, Option.getD_some]
    rw [List.drop_append_of_le_length (indexOf_le hidx)]

/-- A literal that is open before the separator goes on behind it. -/
theorem skipDollar_open {t : Bytes} (h : dollarEnds t = false) :
    ∃ tag, x ∉ closeTag tag ∧ ∀ post, skipDollar (t ++ x :: post) = some (afterTag tag post) := by
  rcases htag : dollarTag t with _ | ⟨tag, r⟩
  · rw [dollarEnds, htag] at h
    cases h
  · rw [dollarEnds, htag] at h
    have hnone : indexOf (closeTag tag) r = none :=
      Option.isNone_iff_eq_none.1 (Option.isSome_eq_false_iff.1 h)
    have hnot := notMem_closeTag hx htag
    refine ⟨tag, hnot, fun post => ?_⟩
    rw [skipDollar, dollarTag_append hx, htag]
    exact congrArg some (afterTag_append hnot hnone post)

omit hx in
/-- The second byte of a comment's opener is there before the separator. -/
theorem head_append {d : UInt8} (hd : x ≠ d) (t post : Bytes) :
    ((t ++ x :: post).head? == some d) = (t.head? == some d) ∧
      ((t.head? == some d) = true → (t ++ x :: post).drop 1 = t.drop 1 ++ x :: post) := by
  rcases t with _ | ⟨a, t⟩
  · refine ⟨?_, fun h => by cases h⟩
    simpa using hd
  · exact ⟨rfl, fun _ => rfl⟩

theorem skipRegion_append_of_ends {c : UInt8} {t : Bytes} (h : regionEnds c t = true) (post : Bytes) :
    skipRegion c (t ++ x :: post) = (skipRegion c t).map (· ++ x :: post) := by
  obtain ⟨hdash, hdrop⟩ := head_append hx.dash t post
  obtain ⟨hstar, hdrop'⟩ := head_append hx.star t post
  unfold regionEnds at h
  unfold skipRegion
  rw [hdash, hstar]
  split_ifs at h ⊢ with h1 h2
  · obtain ⟨happ, hne⟩ := skipLine_append_of_contains h (x :: post)
    rw [hdrop (Bool.and_eq_true_iff.1 h1).2, happ, List.drop_append_of_le_length (List.length_pos_iff.2 hne)]
    rfl
  · rw [hdrop' (Bool.and_eq_true_iff.1 h2).2, skipBlock_append_of_ends h]
    rfl
  · rw [skipString, skipString, quotedText_append h fun _ => by simpa using hx.quote]
    rfl
  · exact skipDollar_append_of_ends hx h post
  · rfl

theorem skipRegion_open {c : UInt8} {t : Bytes} (h : regionEnds c t = false) (post : Bytes) :
    ∃ r, skipRegion c (t ++ x :: post) = some r ∧ r.length ≤ post.length := by
  obtain ⟨hdash, hdrop⟩ := head_append hx.dash t post
  obtain ⟨hstar, hdrop'⟩ := head_append hx.star t post
  unfold regionEnds at h
  unfold skipRegion
  rw [hdash, hstar]
  split_ifs at h ⊢ with h1 h2
  · refine ⟨_, rfl, ?_⟩
    rw [hdrop (Bool.and_eq_true_iff.1 h1).2, skipLine_append_of_not_contains h]
    have hlen : (skipLine (x :: post)).length ≤ post.length + 1 := (List.dropWhile_suffix _).length_le
    rw [List.length_drop]
    omega
  · refine ⟨_, rfl, ?_⟩
    rw [hdrop' (Bool.and_eq_true_iff.1 h2).2]
    exact skipBlock_open hx h post
  · exact ⟨_, rfl, quotedText_open_length hx.quote h post⟩
  · obtain ⟨tag, -, htag⟩ := skipDollar_open hx h
    exact ⟨_, htag post, (afterTag_suffix tag post).length_le⟩

/-- **A separator breaks the tokens of the splitting loops.** -/
theorem splitter_breaks (post : Bytes) : splitter.Breaks (x :: post) where
  complete c t h := by
    show splitStep c (t ++ x :: post) = ((splitStep c t).1, (splitStep c t).2 ++ x :: post)
    unfold splitStep
    rw [skipRegion_append_of_ends hx h post]
    rcases skipRegion c t with _ | r <;> rfl
  covered c t h := by
    obtain ⟨r, hr, hlen⟩ := skipRegion_open hx h post
    show (splitStep c (t ++ x :: post)).2.length < (x :: post).length
    unfold splitStep
    rw [hr]
    exact Nat.lt_succ_of_le hlen

/-- A token of `lex` starts with the opener of a delimited one, or it has no
delimiters and ends at the separator. -/
theorem lexStep_cases (c : UInt8) (t post : Bytes) :
    (c = chr '-' ∧ (t.head? == some (chr '-')) = true) ∨ (c = chr '/' ∧ (t.head? == some (chr '*')) = true) ∨
      c = chr '\'' ∨ c = chr '"' ∨ c = chr '$' ∨
      lexEnds c t = true ∧ (lexStep c t).1.delimited = false ∧
        lexStep c (t ++ x :: post) = ((lexStep c t).1, (lexStep c t).2 ++ x :: post) := by
  obtain ⟨hdash, -⟩ := head_append hx.dash t post
  obtain ⟨hstar, -⟩ := head_append hx.star t post
  obtain ⟨htake, hident⟩ := run_append hx.ident t post
  cases opener c t with
  | line hhead => exact .inl ⟨rfl, hhead⟩
  | block hhead => exact .inr (.inl ⟨rfl, hhead⟩)
  | string => exact .inr (.inr (.inl rfl))
  | quoted => exact .inr (.inr (.inr (.inl rfl)))
  | dollar => exact .inr (.inr (.inr (.inr (.inl rfl))))
  | nothing h =>
    have h' : OpensNothing c (t ++ x :: post) :=
      ⟨by rw [hdash]; exact h.line, by rw [hstar]; exact h.block, h.string, h.quoted, h.dollar⟩
    refine .inr (.inr (.inr (.inr (.inr ⟨?_, ?_, ?_⟩))))
    · rw [lexEnds, if_neg h.quoted, regionEnds, if_neg h.line, if_neg h.block, if_neg h.string, if_neg h.dollar]
    · rw [h.lexStep_eq]
      simp only [apply_ite Prod.fst, apply_ite Lexeme.delimited, ite_self]
    · let extend : Lexeme × Bytes → Lexeme × Bytes := fun p => (p.1, p.2 ++ x :: post)
      show _ = extend (lexStep c t)
      rw [h.lexStep_eq, h'.lexStep_eq, htake, hident]
      simp only [apply_ite extend]
      rfl

end Bounds

section Openers

variable (t : Bytes)

theorem lexStep_line (h : (t.head? == some (chr '-')) = true) :
    lexStep (chr '-') t = (⟨none, true⟩, skipLine (t.drop 1)) ∧ lexEnds (chr '-') t = (t.drop 1).contains 10 := by
  rw [lexEnds, if_neg (by decide), regionEnds, lexStep, if_neg (by decide), h]
  exact ⟨rfl, rfl⟩

theorem lexStep_block (h : (t.head? == some (chr '*')) = true) :
    lexStep (chr '/') t = (⟨none, true⟩, skipBlock 1 (t.drop 1)) ∧ lexEnds (chr '/') t = blockEnds 1 (t.drop 1) := by
  have hdash : (chr '/' == chr '-') = false := by decide
  rw [lexEnds, if_neg (by decide), regionEnds, lexStep, if_neg (by decide), hdash, h]
  exact ⟨rfl, rfl⟩

theorem lexStep_string :
    lexStep (chr '\'') t = (⟨some .string, true⟩, (quotedText (chr '\'') t).2) ∧
      lexEnds (chr '\'') t = quoteEnds (chr '\'') t := by
  have hdash : (chr '\'' == chr '-') = false := by decide
  have hslash : (chr '\'' == chr '/') = false := by decide
  rw [lexEnds, if_neg (by decide), regionEnds, lexStep, if_neg (by decide), hdash, hslash]
  exact ⟨rfl, rfl⟩

theorem lexStep_quoted :
    lexStep (chr '"') t = (⟨some (.word (quotedText (chr '"') t).1), true⟩, (quotedText (chr '"') t).2) ∧
      lexEnds (chr '"') t = quoteEnds (chr '"') t := by
  have hdash : (chr '"' == chr '-') = false := by decide
  have hslash : (chr '"' == chr '/') = false := by decide
  rw [lexEnds, lexStep, if_neg (by decide), hdash, hslash]
  exact ⟨rfl, rfl⟩

theorem lexStep_dollar :
    lexStep (chr '$') t = ((skipDollar t).map fun r => (⟨some .string, true⟩, r)).getD
        (⟨some .other, false⟩, t.dropWhile isDigit) ∧
      lexEnds (chr '$') t = dollarEnds t := by
  have hdash : (chr '$' == chr '-') = false := by decide
  have hslash : (chr '$' == chr '/') = false := by decide
  rw [lexEnds, if_neg (by decide), regionEnds, lexStep, if_neg (by decide), hdash, hslash]
  refine ⟨?_, rfl⟩
  show (match skipDollar t with | some r => _ | none => _) = _
  rcases skipDollar t with _ | r <;> rfl

/-- What `lex` takes for a comment or a literal, the splitting loops skip. -/
theorem skipRegion_line (h : (t.head? == some (chr '-')) = true) :
    skipRegion (chr '-') t = some ((skipLine (t.drop 1)).drop 1) := by
  rw [skipRegion, h]
  rfl

theorem skipRegion_block (h : (t.head? == some (chr '*')) = true) :
    skipRegion (chr '/') t = some (skipBlock 1 (t.drop 1)) := by
  have hdash : (chr '/' == chr '-') = false := by decide
  rw [skipRegion, hdash, h]
  rfl

theorem skipRegion_string : skipRegion (chr '\'') t = some (quotedText (chr '\'') t).2 := by
  have hdash : (chr '\'' == chr '-') = false := by decide
  have hslash : (chr '\'' == chr '/') = false := by decide
  rw [skipRegion, hdash, hslash]
  rfl

theorem skipRegion_dollar : skipRegion (chr '$') t = skipDollar t := by
  have hdash : (chr '$' == chr '-') = false := by decide
  have hslash : (chr '$' == chr '/') = false := by decide
  rw [skipRegion, hdash, hslash]
  rfl

end Openers

section Separators

variable {x c : UInt8} {t : Bytes}

/-- A complete token stays as it is before a byte that cannot continue it; a quoted
identifier can be continued by a double quote. -/
theorem lexStep_append_of_ends (hx : Bounds x) (hquote : c = chr '"' → x ≠ chr '"') (h : lexEnds c t = true)
    (post : Bytes) :
    lexStep c (t ++ x :: post) = ((lexStep c t).1, (lexStep c t).2 ++ x :: post) := by
  rcases lexStep_cases hx c t post with ⟨rfl, hhead⟩ | ⟨rfl, hhead⟩ | rfl | rfl | rfl | ⟨-, -, hplain⟩
  · obtain ⟨hsame, hdrop⟩ := head_append hx.dash t post
    obtain ⟨hstep, hends⟩ := lexStep_line t hhead
    rw [hends] at h
    rw [hstep, (lexStep_line _ (hsame.trans hhead)).1, hdrop hhead, (skipLine_append_of_contains h _).1]
  · obtain ⟨hsame, hdrop⟩ := head_append hx.star t post
    obtain ⟨hstep, hends⟩ := lexStep_block t hhead
    rw [hends] at h
    rw [hstep, (lexStep_block _ (hsame.trans hhead)).1, hdrop hhead, skipBlock_append_of_ends h]
  · rw [(lexStep_string t).2] at h
    rw [(lexStep_string t).1, (lexStep_string _).1, quotedText_append h fun _ => by simpa using hx.quote]
  · rw [(lexStep_quoted t).2] at h
    rw [(lexStep_quoted t).1, (lexStep_quoted _).1,
      quotedText_append h fun _ => by simpa using hquote rfl]
  · obtain ⟨-, hdigit⟩ := run_append hx.digit t post
    rw [(lexStep_dollar t).2] at h
    rw [(lexStep_dollar t).1, (lexStep_dollar _).1, skipDollar_append_of_ends hx h, hdigit]
    rcases skipDollar t with _ | r <;> rfl
  · exact hplain

variable (hx : Separates x)
include hx

/-- A token that is open before the separator has a delimiter and takes the separator
in. -/
theorem lexStep_open (hline : x ≠ 10) (h : lexEnds c t = false) (post : Bytes) :
    (lexStep c (t ++ x :: post)).1.delimited = true ∧ (lexStep c (t ++ x :: post)).2.length ≤ post.length := by
  rcases lexStep_cases hx.toBounds c t post with ⟨rfl, hhead⟩ | ⟨rfl, hhead⟩ | rfl | rfl | rfl | ⟨hplain, -⟩
  · obtain ⟨hsame, hdrop⟩ := head_append hx.dash t post
    rw [(lexStep_line t hhead).2] at h
    rw [(lexStep_line _ (hsame.trans hhead)).1, hdrop hhead, skipLine_append_of_not_contains h, skipLine,
      List.dropWhile_cons_of_pos (by simpa using hline)]
    exact ⟨rfl, (List.dropWhile_suffix _).length_le⟩
  · obtain ⟨hsame, hdrop⟩ := head_append hx.star t post
    rw [(lexStep_block t hhead).2] at h
    rw [(lexStep_block _ (hsame.trans hhead)).1, hdrop hhead]
    exact ⟨rfl, skipBlock_open hx.toBounds h post⟩
  · rw [(lexStep_string t).2] at h
    rw [(lexStep_string _).1]
    exact ⟨rfl, quotedText_open_length hx.quote h post⟩
  · rw [(lexStep_quoted t).2] at h
    rw [(lexStep_quoted _).1]
    exact ⟨rfl, quotedText_open_length hx.doubleQuote h post⟩
  · rw [(lexStep_dollar t).2] at h
    obtain ⟨tag, -, htag⟩ := skipDollar_open hx.toBounds h
    rw [(lexStep_dollar _).1, htag post]
    exact ⟨rfl, (afterTag_suffix tag post).length_le⟩
  · rw [hplain] at h
    cases h

/-- **A separator breaks the tokens of `lex`**, unless it is the newline that ends
a comment. -/
theorem lexer_breaks (hline : x ≠ 10) (post : Bytes) : lexer.Breaks (x :: post) where
  complete _ _ h := lexStep_append_of_ends hx.toBounds (fun _ => hx.doubleQuote) h post
  covered _ _ h := Nat.lt_succ_of_le (lexStep_open hx hline h post).2

end Separators

/-- Behind a closed text the splitting loop goes on at the depth that it has come
to. -/
theorem cutsFrom_append {s : Bytes} (hs : splitter.closed s = true) (d : ℕ) (post : Bytes) :
    cutsFrom d (s ++ chr ';' :: post) = (cutsFrom d s).map (· ++ chr ';' :: post) ++
      cutsFrom (splitter.state splitDepth d s) (chr ';' :: post) := by
  unfold cutsFrom
  rw [Tokenizer.visits_spans_append (splitter_breaks bounds_semi post) hs, List.filter_append, List.map_append,
    List.filter_map, List.map_map, List.map_map]
  rfl

end PgShadow
