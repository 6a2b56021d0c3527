/-
# The lexer on rendered elements

A text written element by element, with separators between: words, quoted identifiers,
literals with doubled quotes or between dollar tags, parentheses, dots and other single
bytes. A separator begins with white space, and more white space, line comments and nested
block comments may follow. The types hold only what is well formed: the text of a block
comment is a tree (`BlockText`), and a dollar literal does not hold its own closing tag.

`lex` reads such a text back, element by element (`lex_rendered`): each element is one
token whatever comes behind it, if that begins with white space (`lex_element`), and a
separator is none (`lex_separator`).

Key definitions: `BlockText`, `Filler`, `Separator`, `Element`, `rendered`.
Key theorems: `lex_element`, `lex_separator`, `lex_rendered`.
-/
import PgShadow.Filter.Batch

namespace PgShadow

open TxControl (lex_nil lex_space lex_line lex_block lex_word)

/-! ### Separators -/

/-- What stands between the markers of a block comment: bytes that are part of no marker,
and comments. -/
inductive BlockText
  | nil
  | byte (c : UInt8) (hc : c ≠ chr '/' ∧ c ≠ chr '*') (rest : BlockText)
  | comment (inner rest : BlockText)

def BlockText.text : BlockText → Bytes
  | nil => []
  | byte c _ rest => c :: rest.text
  | comment inner rest => chr '/' :: chr '*' :: (inner.text ++ chr '*' :: chr '/' :: rest.text)

/-- White space, a line comment with its newline, or a block comment. -/
inductive Filler
  | space (c : UInt8) (hc : isBlank c = true)
  | line (text : Bytes) (htext : 10 ∉ text)
  | block (text : BlockText)

def Filler.text : Filler → Bytes
  | space c _ => [c]
  | line text _ => chr '-' :: chr '-' :: (text ++ [10])
  | block text => chr '/' :: chr '*' :: (text.text ++ [chr '*', chr '/'])

structure Separator where
  first : UInt8
  blank : isBlank first = true
  more : List Filler

def Separator.text (g : Separator) : Bytes := g.first :: g.more.flatMap Filler.text

/-! ### Elements -/

/-- The quote doubled wherever it stands. -/
def doubled (q : UInt8) (s : Bytes) : Bytes := s.flatMap fun c => if c = q then [q, q] else [c]

/-- Punctuation and digits: the bytes that are no white space and start no word, quoted text or
parenthesis. The first bytes of comment markers and dollar tags are among them. -/
def isOther (c : UInt8) : Bool := !(isBlank c || isIdentStart c || (bytes "'\"().").contains c)

inductive Element
  | word (a : UInt8) (u : Bytes) (ha : isIdentStart a = true) (hu : ∀ b ∈ u, isIdentPart b = true)
  | quoted (name : Bytes)
  | literal (body : Bytes)
  | dollar (tag body : Bytes) (hstart : tag = [] ∨ isIdentStart (tag.headD 0) = true)
      (htag : ∀ b ∈ tag, isIdentPart b = true)
      (hbody : indexOf (closeTag tag) (body ++ closeTag tag) = some body.length)
  | lparen
  | rparen
  | dot
  | other (c : UInt8) (hc : isOther c = true)

namespace Element

def text : Element → Bytes
  | word a u _ _ => a :: u
  | quoted name => chr '"' :: (doubled (chr '"') name ++ [chr '"'])
  | literal body => chr '\'' :: (doubled (chr '\'') body ++ [chr '\''])
  | dollar tag body _ _ _ => closeTag tag ++ (body ++ closeTag tag)
  | lparen => [chr '(']
  | rparen => [chr ')']
  | dot => [chr '.']
  | other c _ => [c]

def token : Element → Token
  | word a u _ _ => .word (a :: u)
  | quoted name => .word name
  | literal _ => .string
  | dollar .. => .string
  | lparen => .lparen
  | rparen => .rparen
  | dot => .dot
  | other .. => .other

end Element

/-- The text of the elements, with `sep n` between those at `n` and `n + 1`. -/
def rendered (sep : ℕ → Separator) : List Element → Bytes
  | [] => []
  | [e] => e.text
  | e :: e' :: es => e.text ++ ((sep 0).text ++ rendered (fun n => sep (n + 1)) (e' :: es))

/-! ### Reading over a separator -/

/-- Inside a comment a byte of no marker is passed by. -/
theorem skipBlock_byte {c : UInt8} (hc : c ≠ chr '/' ∧ c ≠ chr '*') (d : ℕ) (t : Bytes) :
    skipBlock (d + 1) (c :: t) = skipBlock (d + 1) t := by
  rcases t with _ | ⟨b, t⟩
  · rfl
  · rw [skipBlock, if_neg (fun h => hc.1 h.1), if_neg (fun h => hc.2 h.1)]

theorem skipBlock_text : ∀ (b : BlockText) (d : ℕ) (r : Bytes),
    skipBlock (d + 1) (b.text ++ chr '*' :: chr '/' :: r) = skipBlock d r
  | .nil, d, r => by
    rw [BlockText.text, List.nil_append, skipBlock, if_neg (by decide), if_pos (by decide)]
  | .byte c hc rest, d, r => by
    rw [BlockText.text, List.cons_append, skipBlock_byte hc, skipBlock_text rest]
  | .comment inner rest, d, r => by
    have hopen : (BlockText.comment inner rest).text ++ chr '*' :: chr '/' :: r =
        chr '/' :: chr '*' :: (inner.text ++ chr '*' :: chr '/' :: (rest.text ++ chr '*' :: chr '/' :: r)) := by
      simp [BlockText.text]
    rw [hopen, skipBlock, if_pos (by decide), skipBlock_text inner, skipBlock_text rest]

theorem lex_filler (f : Filler) (r : Bytes) : lex (f.text ++ r) = lex r := by
  cases f with
  | space c hc => exact lex_space hc r
  | line text htext =>
    have hskip : skipLine (text ++ 10 :: r) = 10 :: r := by
      have hnone : text.contains 10 = false := by simpa using htext
      rw [skipLine_append_of_not_contains hnone]
      rfl
    have htext' : (Filler.line text htext).text ++ r = chr '-' :: chr '-' :: (text ++ 10 :: r) := by
      simp [Filler.text]
    rw [htext', lex_line, hskip, lex_space (by decide)]
  | block text =>
    have htext : (Filler.block text).text ++ r = chr '/' :: chr '*' :: (text.text ++ chr '*' :: chr '/' :: r) := by
      simp [Filler.text]
    rw [htext, lex_block, skipBlock_text, skipBlock]

theorem lex_fillers : ∀ (fs : List Filler) (r : Bytes), lex (fs.flatMap Filler.text ++ r) = lex r
  | [], _ => rfl
  | f :: fs, r => by rw [List.flatMap_cons, List.append_assoc, lex_filler, lex_fillers fs r]

/-- **A separator is no token.** -/
theorem lex_separator (g : Separator) (r : Bytes) : lex (g.text ++ r) = lex r := by
  rw [Separator.text, List.cons_append, lex_space g.blank, lex_fillers]

/-! ### Reading an element -/

theorem doubled_cons (q c : UInt8) (s : Bytes) :
    doubled q (c :: s) = (if c = q then [q, q] else [c]) ++ doubled q s := by
  rw [doubled, List.flatMap_cons, ← doubled]

theorem quotedText_doubled {q : UInt8} {r : Bytes} (hr : r.head? ≠ some q) : ∀ s : Bytes,
    quotedText q (doubled q s ++ q :: r) = (s, r)
  | [] => quotedText_close hr
  | c :: s => by
    have ih := quotedText_doubled hr s
    rw [doubled_cons, List.append_assoc]
    by_cases hc : c = q
    · rw [if_pos hc, hc]
      change quotedText q (q :: q :: (doubled q s ++ q :: r)) = _
      rw [quotedText, if_pos rfl, if_pos rfl, ih]
    · rw [if_neg hc, List.singleton_append, quotedText_plain hc, ih]

/-- A tag between dollar signs opens a literal. -/
theorem dollarTag_tag {tag : Bytes} (hstart : tag = [] ∨ isIdentStart (tag.headD 0) = true)
    (htag : ∀ b ∈ tag, isIdentPart b = true) (r : Bytes) : dollarTag (tag ++ chr '$' :: r) = some (tag, r) := by
  have htake : (tag ++ chr '$' :: r).takeWhile isIdentPart = tag := by
    rw [List.takeWhile_append_of_pos htag, List.takeWhile_cons_of_neg (by decide), List.append_nil]
  have hdrop : (tag ++ chr '$' :: r).dropWhile isIdentPart = chr '$' :: r := by
    rw [List.dropWhile_append_of_pos htag, List.dropWhile_cons_of_neg (by decide)]
  unfold dollarTag
  rw [htake, hdrop]
  exact if_pos ⟨rfl, hstart⟩

theorem skipDollar_literal {tag body : Bytes} (hstart : tag = [] ∨ isIdentStart (tag.headD 0) = true)
    (htag : ∀ b ∈ tag, isIdentPart b = true)
    (hbody : indexOf (closeTag tag) (body ++ closeTag tag) = some body.length) (r : Bytes) :
    skipDollar (tag ++ chr '$' :: (body ++ (closeTag tag ++ r))) = some r := by
  have hindex : indexOf (closeTag tag) (body ++ (closeTag tag ++ r)) = some body.length := by
    apply indexOf_tail [] r
    rwa [List.append_nil]
  rw [skipDollar_eq (dollarTag_tag hstart htag _), afterTag, hindex, Option.map_some,
    Option.getD_some, ← List.append_assoc, ← List.length_append, List.drop_left]

/-- White space, or nothing, comes next. -/
def AtBlank (r : Bytes) : Prop := r.head?.all isBlank = true

theorem AtBlank.head {r : Bytes} (h : AtBlank r) {p : UInt8 → Bool} (hp : ∀ x, isBlank x = true → p x = false) :
    r.head?.any p = false := by
  rcases r with _ | ⟨x, r⟩
  · rfl
  · exact hp x h

theorem AtBlank.ne {r : Bytes} (h : AtBlank r) {q : UInt8} (hq : isBlank q = false) : r.head? ≠ some q := by
  intro hhead
  unfold AtBlank at h
  rw [hhead] at h
  exact absurd h (by rw [Option.all_some, hq]; decide)

/-- A single byte of its own kind, before white space. -/
theorem lex_other {c : UInt8} (hc : isOther c = true) {r : Bytes} (hr : AtBlank r) :
    lex (c :: r) = .other :: lex r := by
  have hfacts : ∀ c, isOther c = true → (c == 32 || (9 ≤ c && c ≤ 13)) = false ∧ isIdentStart c = false ∧
      (c == chr '\'') = false ∧ (c == chr '"') = false ∧ (c == chr '(') = false ∧ (c == chr ')') = false ∧
      (c == chr '.') = false := forall_byte (by decide +kernel)
  obtain ⟨hblank, hident, hstring, hquoted, hopen, hclose, hdot⟩ := hfacts c hc
  rw [lex_cons]
  cases opener c r with
  | line hhead => exact absurd (eq_of_beq hhead) (hr.ne (by decide))
  | block hhead => exact absurd (eq_of_beq hhead) (hr.ne (by decide))
  | string => exact absurd hstring (by decide)
  | quoted => exact absurd hquoted (by decide)
  | dollar =>
    have htag : skipDollar r = none := by
      rcases r with _ | ⟨x, r⟩
      · rfl
      · have hx : isIdentPart x = false := (separates_blank hr).ident
        have hdollar : x ≠ chr '$' := (separates_blank hr).dollar
        unfold skipDollar dollarTag
        rw [List.dropWhile_cons_of_neg (by rw [hx]; decide)]
        dsimp only
        rw [if_neg fun h => hdollar h.1]
        rfl
    have hdigits : r.dropWhile isDigit = r := by
      rcases r with _ | ⟨x, r⟩
      · rfl
      · exact List.dropWhile_cons_of_neg (by rw [(separates_blank hr).digit]; decide)
    rw [(lexStep_dollar r).1, htag, hdigits]
    rfl
  | nothing h =>
    rw [h.lexStep_eq, hblank, hopen, hclose, hdot, hident]
    rfl

/-- **An element is one token** before white space. -/
theorem lex_element (e : Element) {r : Bytes} (hr : AtBlank r) : lex (e.text ++ r) = e.token :: lex r := by
  cases e with
  | word a u ha hu => exact lex_word ha hu (hr.head fun x hx => (separates_blank hx).ident)
  | quoted name =>
    have htext : (Element.quoted name).text ++ r = chr '"' :: (doubled (chr '"') name ++ chr '"' :: r) := by
      simp [Element.text]
    rw [htext, lex_cons, (lexStep_quoted _).1, quotedText_doubled (hr.ne (by decide))]
    rfl
  | literal body =>
    have htext : (Element.literal body).text ++ r = chr '\'' :: (doubled (chr '\'') body ++ chr '\'' :: r) := by
      simp [Element.text]
    rw [htext, lex_cons, (lexStep_string _).1, quotedText_doubled (hr.ne (by decide))]
    rfl
  | dollar tag body hstart htag hbody =>
    have htext : (Element.dollar tag body hstart htag hbody).text ++ r =
        chr '$' :: (tag ++ chr '$' :: (body ++ (closeTag tag ++ r))) := by
      simp [Element.text, closeTag]
    rw [htext, lex_cons, (lexStep_dollar _).1, skipDollar_literal hstart htag hbody]
    rfl
  | lparen =>
    rw [Element.text, List.singleton_append, lex_cons]
    rfl
  | rparen =>
    rw [Element.text, List.singleton_append, lex_cons]
    rfl
  | dot =>
    rw [Element.text, List.singleton_append, lex_cons]
    rfl
  | other c hc => exact lex_other hc hr

/-- **The lexer recovers the elements** of a text, whatever separators stand between them. -/
theorem lex_rendered (sep : ℕ → Separator) (es : List Element) : lex (rendered sep es) = es.map Element.token := by
  induction es generalizing sep with
  | nil => exact lex_nil
  | cons e es ih =>
    rcases es with _ | ⟨e', es⟩
    · have hlex := lex_element e (r := []) rfl
      rwa [List.append_nil, lex_nil] at hlex
    · have hblank : AtBlank ((sep 0).text ++ rendered (fun n => sep (n + 1)) (e' :: es)) := (sep 0).blank
      rw [rendered, lex_element e hblank, lex_separator, ih]
      rfl

example :
    let sep : Separator := ⟨32, rfl, [.block (.comment (.byte 97 (by decide) .nil) .nil), .line [45] (by decide)]⟩
    rendered (fun _ => sep) [.quoted (bytes "a\"b"), .literal (bytes "it's"),
        .dollar [chr 't'] [chr '$'] (.inr rfl) (List.forall_mem_singleton.2 rfl) (by decide)] =
      bytes ("\"a\"\"b\" /*/*a*/*/---\n'it''s' /*/*a*/*/---\n$t$$$t$") := by
  decide

end PgShadow
