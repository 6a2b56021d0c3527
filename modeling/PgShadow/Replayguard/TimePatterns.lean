/-
# The patterns of the time functions

The uses of a time function that its pattern matches: the name in any spelling, for a
call with blanks and empty parentheses behind it, for the others with no word rune
behind it (`TimeFn.matches_iff`). A pattern matches one text from a position or none, so
the preferred match is the only one (`TimeFn.matchLen_iff`), and the delimiters of
literals are walls (`TimeFn.walled`). No use starts within another one
(`TimeFn.Form.apart`).

Key definitions: `TimeFn`, `TimeFn.Form`, `TimeFn.Ends`, `compatible`.
Key theorems: `TimeFn.matchLen_iff`, `TimeFn.walled`, `TimeFn.Form.apart`.
-/
import PgShadow.Replayguard.Outside
import PgShadow.Replayguard.Patterns

namespace PgShadow

/-- The time functions. -/
inductive TimeFn
  | now
  | currentTimestamp
  | currentDate
  | clockTimestamp
  | statementTimestamp
  | transactionTimestamp
  | currentTime
deriving DecidableEq

namespace TimeFn

/-- The functions in the order of the patterns. -/
def all : List TimeFn :=
  [now, currentTimestamp, currentDate, clockTimestamp, statementTimestamp, transactionTimestamp, currentTime]

/-- The place of the pattern. -/
def index : TimeFn → ℕ
  | now => 0
  | currentTimestamp => 1
  | currentDate => 2
  | clockTimestamp => 3
  | statementTimestamp => 4
  | transactionTimestamp => 5
  | currentTime => 6

def name : TimeFn → String
  | now => "now"
  | currentTimestamp => "current_timestamp"
  | currentDate => "current_date"
  | clockTimestamp => "clock_timestamp"
  | statementTimestamp => "statement_timestamp"
  | transactionTimestamp => "transaction_timestamp"
  | currentTime => "current_time"

/-- The function is called with parentheses. -/
def call : TimeFn → Bool
  | now | clockTimestamp | statementTimestamp | transactionTimestamp => true
  | currentTimestamp | currentDate | currentTime => false

theorem mem_all (f : TimeFn) : f ∈ all := by cases f <;> simp [all]

end TimeFn

/-! ### Names -/

/-- A letter of a name. -/
def isNameLetter (c : Char) : Bool := (97 ≤ c.toNat && c.toNat ≤ 122) || c.toNat == 95

/-- A rune is the spelling of one letter. -/
theorem sameLetter_inj {c d : Char} (hc : isNameLetter c = true) (hd : isNameLetter d = true) {x : ℕ}
    (h : sameLetter c.toNat x = true) (h' : sameLetter d.toNat x = true) : c = d := by
  have hnat : c.toNat = d.toNat := by
    simp only [isNameLetter, Bool.or_eq_true, Bool.and_eq_true, decide_eq_true_eq, beq_iff_eq] at hc hd
    rw [sameLetter, if_neg (by omega)] at h h'
    simp only [Bool.or_eq_true, Bool.and_eq_true, decide_eq_true_eq, beq_iff_eq] at h h'
    omega
  exact Char.toNat_inj.mp hnat

/-- A rune that spells a letter of a name is no blank, parenthesis or delimiter, nor
the one that stands for invalid bytes. -/
theorem sameLetter_large {c : Char} (hc : isNameLetter c = true) {x : ℕ} (h : sameLetter c.toNat x = true) :
    64 < x ∧ x ≠ runeError := by
  simp only [isNameLetter, Bool.or_eq_true, Bool.and_eq_true, decide_eq_true_eq, beq_iff_eq] at hc
  rw [sameLetter, if_neg (by omega)] at h
  simp only [Bool.or_eq_true, Bool.and_eq_true, decide_eq_true_eq, beq_iff_eq] at h
  rw [runeError]
  omega

/-- The two texts agree as far as both go. -/
def compatible : List Char → List Char → Bool
  | c :: cs, d :: ds => c == d && compatible cs ds
  | _, _ => true

/-- The runes spell the letters. -/
abbrev SpelledAs (cs : List Char) (n : List ℕ) : Prop := List.Forall₂ (fun c x => sameLetter c.toNat x = true) cs n

/-- Two spellings at one position are of compatible texts. -/
theorem compatible_of_spelled : ∀ {cs ds : List Char} {n m v u : List ℕ},
    (∀ c ∈ cs, isNameLetter c = true) → (∀ d ∈ ds, isNameLetter d = true) → SpelledAs cs n → SpelledAs ds m →
    n ++ v = m ++ u → compatible cs ds = true
  | [], _, _, _, _, _, _, _, _, _, _ => by rw [compatible]; simp
  | _ :: _, [], _, _, _, _, _, _, _, _, _ => by rw [compatible]; simp
  | c :: cs, d :: ds, x :: n, y :: m, v, u, hcs, hds, .cons hx hn, .cons hy hm, he => by
    obtain ⟨hc, hcs⟩ := List.forall_mem_cons.mp hcs
    obtain ⟨hd, hds⟩ := List.forall_mem_cons.mp hds
    rw [List.cons_append, List.cons_append] at he
    obtain ⟨rfl, htail⟩ := List.cons.inj he
    rw [compatible, beq_iff_eq.mpr (sameLetter_inj hc hd hx hy), Bool.true_and]
    exact compatible_of_spelled hcs hds hn hm htail

namespace TimeFn

/-- What is used of the names: their letters, and that those of the functions without
parentheses start and end with a word rune in every spelling. -/
theorem name_facts : ∀ f ∈ all, f.name.toList ≠ [] ∧ f.name.toList.all isNameLetter = true ∧
    (f.call = false → startsPlain f.name = true ∧ startsPlain (String.ofList f.name.toList.reverse) = true) := by
  decide +kernel

/-- No name fits into another one from a later letter on. -/
theorem names_apart : ∀ f ∈ all, ∀ g ∈ all, ∀ k < f.name.toList.length, 0 < k →
    compatible (f.name.toList.drop k) g.name.toList = false := by
  decide +kernel

/-- Two names that fit are the same, or those with one front. -/
theorem names_start : ∀ f ∈ all, ∀ g ∈ all, compatible f.name.toList g.name.toList = true →
    f = g ∨ f = currentTimestamp ∧ g = currentTime ∨ f = currentTime ∧ g = currentTimestamp := by
  decide +kernel

variable {f g : TimeFn}

theorem letters (f : TimeFn) : ∀ c ∈ f.name.toList, isNameLetter c = true :=
  List.all_eq_true.mp (name_facts f f.mem_all).2.1

theorem spelled_ne_nil {n : List ℕ} (h : Spelled f.name n) : n ≠ [] := by
  rintro rfl
  exact (name_facts f f.mem_all).1 (List.forall₂_nil_right_iff.mp h)

theorem spelled_letter {n : List ℕ} (h : Spelled f.name n) {x : ℕ} (hx : x ∈ n) :
    ∃ c, isNameLetter c = true ∧ sameLetter c.toNat x = true := by
  obtain ⟨i, hi, rfl⟩ := List.getElem_of_mem hx
  have hlen : i < f.name.toList.length := by rwa [h.length_eq]
  exact ⟨_, f.letters _ (List.getElem_mem hlen), h.get hlen hi⟩

theorem spelled_large {n : List ℕ} (h : Spelled f.name n) : ∀ x ∈ n, 64 < x := by
  intro x hx
  obtain ⟨c, hc, hsame⟩ := spelled_letter h hx
  exact (sameLetter_large hc hsame).1

/-- A name that is used without parentheses starts with a word rune. -/
theorem isWord_head {n : List ℕ} (hcall : f.call = false) (h : Spelled f.name n) (v : List ℕ) :
    isWord (n ++ v).head? = true :=
  isWord_of_spelled ((name_facts f f.mem_all).2.2 hcall).1 h v

/-- It ends with one, too. -/
theorem isWord_getLast {n : List ℕ} (hcall : f.call = false) (h : Spelled f.name n) : isWord n.getLast? = true := by
  have hrev : Spelled (String.ofList f.name.toList.reverse) n.reverse := by
    rw [Spelled, String.toList_ofList]
    exact List.rel_reverse h
  have hword := isWord_of_spelled ((name_facts f f.mem_all).2.2 hcall).2 hrev []
  rwa [List.append_nil, List.head?_reverse] at hword

/-! ### Uses -/

/-- What stands behind the name: for a call, blanks and empty parentheses. -/
def Tail (f : TimeFn) (v : List ℕ) : Prop :=
  if f.call then ∃ g g', Blanks g ∧ Blanks g' ∧ v = g ++ 40 :: (g' ++ [41]) else v = []

/-- A use of the function. -/
def Form (f : TimeFn) (w : List ℕ) : Prop := ∃ n v, Spelled f.name n ∧ f.Tail v ∧ w = n ++ v

/-- A use can end before the text: without parentheses, no word rune comes next. -/
def Ends (f : TimeFn) (a : List ℕ) : Prop := f.call = true ∨ isWord a.head? = false

open Pattern in
/-- The pattern without the boundary at its front. -/
def core (f : TimeFn) : Regex ℕ :=
  if f.call then inOrder [text f.name, blanks, rune '(', blanks, rune ')'] else inOrder [text f.name, boundary]

/-- The pattern. -/
def regex (f : TimeFn) : Regex ℕ := .seq Pattern.boundary f.core

theorem timeRegexes_eq : timeRegexes = all.map regex := rfl

theorem blank_small {v : List ℕ} (h : Blanks v) : ∀ x ∈ v, x ≤ 32 := by
  intro x hx
  have hblank := h x hx
  simp only [isBlankRune, Bool.or_eq_true, beq_iff_eq] at hblank
  omega

theorem Tail.small {v : List ℕ} (h : f.Tail v) : ∀ x ∈ v, x ≤ 41 ∧ x ≠ 36 ∧ x ≠ 39 := by
  rw [Tail] at h
  split at h
  · obtain ⟨g, g', hg, hg', rfl⟩ := h
    intro x hx
    rcases List.mem_append.mp hx with hx | hx
    · have := blank_small hg x hx
      omega
    rcases List.mem_cons.mp hx with rfl | hx
    · omega
    rcases List.mem_append.mp hx with hx | hx
    · have := blank_small hg' x hx
      omega
    · rw [List.mem_singleton.mp hx]
      omega
  · rw [h]
    simp

theorem Form.ne_nil {w : List ℕ} (h : f.Form w) : w ≠ [] := by
  obtain ⟨n, v, hn, -, rfl⟩ := h
  exact fun he => spelled_ne_nil hn (List.append_eq_nil_iff.mp he).1

/-- A use holds no delimiter of a literal. -/
theorem Form.plain {w : List ℕ} (h : f.Form w) : ∀ x ∈ w, ¬IsDelimiter x := by
  obtain ⟨n, v, hn, hv, rfl⟩ := h
  intro x hx hdelim
  rcases List.mem_append.mp hx with hx | hx
  · have := spelled_large hn x hx
    rcases hdelim with rfl | rfl <;> omega
  · obtain ⟨-, h36, h39⟩ := hv.small x hx
    rcases hdelim with rfl | rfl
    · exact h36 rfl
    · exact h39 rfl

/-- The first rune of a use stands for itself. -/
theorem Form.head_valid {x : ℕ} {w : List ℕ} (h : f.Form (x :: w)) : x ≠ runeError := by
  obtain ⟨n, v, hn, -, he⟩ := h
  obtain ⟨y, n, rfl⟩ := List.exists_cons_of_ne_nil (spelled_ne_nil hn)
  obtain ⟨rfl, -⟩ := List.cons.inj he
  obtain ⟨c, hc, hsame⟩ := spelled_letter hn List.mem_cons_self
  exact (sameLetter_large hc hsame).2

/-- A use without parentheses ends with a word rune. -/
theorem Form.isWord_getLast {w : List ℕ} (h : f.Form w) (hcall : f.call = false) : isWord w.getLast? = true := by
  obtain ⟨n, v, hn, hv, rfl⟩ := h
  rw [Tail, hcall, if_neg Bool.false_ne_true] at hv
  rw [hv, List.append_nil]
  exact TimeFn.isWord_getLast hcall hn

/-- A call ends with a parenthesis. -/
theorem Form.isWord_getLast_call {w : List ℕ} (h : f.Form w) (hcall : f.call = true) :
    isWord w.getLast? = false := by
  obtain ⟨n, v, hn, hv, rfl⟩ := h
  rw [Tail, if_pos hcall] at hv
  obtain ⟨g, g', -, -, rfl⟩ := hv
  rw [← List.append_assoc, ← List.cons_append, ← List.append_assoc, List.getLast?_concat]
  rfl

/-- The boundary behind a name: no word rune comes next. -/
theorem edge_behind_iff {n : List ℕ} (hcall : f.call = false) (h : Spelled f.name n) (b a : List ℕ) :
    Edge (n.reverse ++ b).head? a.head? ↔ isWord a.head? = false := by
  have hhead : (n.reverse ++ b).head? = n.getLast? := by
    rw [List.head?_append_of_ne_nil _ (by simpa using spelled_ne_nil h), List.head?_reverse]
  rw [Edge, hhead, TimeFn.isWord_getLast hcall h, ne_comm, ne_eq, Bool.not_eq_true]

/-- A use is matched where it can end, whatever stands before it. -/
theorem core_matches_iff (f : TimeFn) (b w a : List ℕ) : f.core.Matches b w a ↔ f.Form w ∧ f.Ends a := by
  cases hcall : f.call with
  | true =>
    have hspells := (spells_text f.name).seq (spells_blanks.seq (spells_rune '(' (spells_blanks.seq
      (Regex.Spells.sym (· == ')'.toNat)))))
    rw [core, if_pos hcall]
    refine (hspells b w a).trans ⟨?_, ?_⟩
    · rintro ⟨n, _, rfl, hn, g, _, rfl, hg, _, rfl, g', _, rfl, hg', x, hx, rfl⟩
      obtain rfl := eq_of_beq hx
      refine ⟨⟨n, _, hn, ?_, rfl⟩, .inl hcall⟩
      rw [Tail, if_pos hcall]
      exact ⟨g, g', hg, hg', rfl⟩
    · rintro ⟨⟨n, v, hn, hv, rfl⟩, -⟩
      rw [Tail, if_pos hcall] at hv
      obtain ⟨g, g', hg, hg', rfl⟩ := hv
      exact ⟨n, _, rfl, hn, g, _, rfl, hg, _, rfl, g', _, rfl, hg', 41, rfl, rfl⟩
  | false =>
    rw [core, hcall, if_neg Bool.false_ne_true]
    constructor
    · rintro ⟨n, v, rfl, hn, hv⟩
      obtain ⟨rfl, hedge⟩ := (boundary_matches_iff _ _ _).mp hv
      have hname := (spells_text f.name _ _ _).mp hn
      refine ⟨⟨n, [], hname, by rw [Tail, hcall, if_neg Bool.false_ne_true], rfl⟩, .inr ?_⟩
      exact (edge_behind_iff hcall hname b a).mp hedge
    · rintro ⟨⟨n, v, hname, hv, rfl⟩, hends⟩
      rw [Tail, hcall, if_neg Bool.false_ne_true] at hv
      subst hv
      have hnext : isWord a.head? = false := hends.resolve_left fun h => Bool.false_ne_true (hcall.symm.trans h)
      refine ⟨n, [], rfl, (spells_text f.name _ _ _).mpr hname, ?_⟩
      exact (boundary_matches_iff _ _ _).mpr ⟨rfl, (edge_behind_iff hcall hname b a).mpr hnext⟩

/-- **What the pattern matches.** -/
theorem matches_iff (f : TimeFn) (b w a : List ℕ) :
    f.regex.Matches b w a ↔ Edge b.head? (w ++ a).head? ∧ f.Form w ∧ f.Ends a := by
  rw [regex, seq_boundary_iff, core_matches_iff]

/-- Where the blanks end, if something else comes next. -/
theorem blanks_unique : ∀ {g h u v : List ℕ} {x y : ℕ}, Blanks g → Blanks h → isBlankRune x = false →
    isBlankRune y = false → g ++ x :: u = h ++ y :: v → g = h ∧ x :: u = y :: v
  | [], [], _, _, _, _, _, _, _, _, he => ⟨rfl, he⟩
  | [], z :: h, u, v, x, y, _, hh, hx, _, he => by
    obtain ⟨rfl, -⟩ := List.cons.inj he
    exact absurd ((hh x List.mem_cons_self).symm.trans hx) Bool.true_eq_false_eq_False
  | z :: g, [], u, v, x, y, hg, _, _, hy, he => by
    obtain ⟨rfl, -⟩ := List.cons.inj he
    exact absurd ((hg z List.mem_cons_self).symm.trans hy) Bool.true_eq_false_eq_False
  | z :: g, z' :: h, u, v, x, y, hg, hh, hx, hy, he => by
    obtain ⟨rfl, htail⟩ := List.cons.inj he
    obtain ⟨rfl, hrest⟩ := blanks_unique (List.forall_mem_cons.mp hg).2 (List.forall_mem_cons.mp hh).2 hx hy htail
    exact ⟨rfl, hrest⟩

theorem Tail.unique {v a v' a' : List ℕ} (h : f.Tail v) (h' : f.Tail v') (he : v ++ a = v' ++ a') : v = v' := by
  rw [Tail] at h h'
  split at h
  · rename_i hcall
    rw [if_pos hcall] at h'
    obtain ⟨g, k, hg, hk, rfl⟩ := h
    obtain ⟨g', k', hg', hk', rfl⟩ := h'
    simp only [List.append_assoc, List.cons_append, List.nil_append] at he
    obtain ⟨rfl, hrest⟩ := blanks_unique hg hg' rfl rfl he
    obtain ⟨rfl, -⟩ := blanks_unique hk hk' rfl rfl (List.cons.inj hrest).2
    rfl
  · rename_i hcall
    rw [if_neg hcall] at h'
    rw [h, h']

/-- From one position on there is one use at most. -/
theorem Form.unique {w a w' a' : List ℕ} (h : f.Form w) (h' : f.Form w') (he : w ++ a = w' ++ a') : w = w' := by
  obtain ⟨n, v, hn, hv, rfl⟩ := h
  obtain ⟨n', v', hn', hv', rfl⟩ := h'
  rw [List.append_assoc, List.append_assoc] at he
  obtain ⟨rfl, htail⟩ := List.append_inj he (hn.length_eq.symm.trans hn'.length_eq)
  rw [hv.unique hv' htail]

theorem determined (f : TimeFn) : f.regex.Determined := by
  intro b w a w' a' he h h'
  exact ((matches_iff f b w a).mp h).2.1.unique ((matches_iff f b w' a').mp h').2.1 he

/-- **The match from a position.** -/
theorem matchLen_iff (f : TimeFn) {b a : List ℕ} {k : ℕ} : f.regex.matchLen b a = some k ↔
    Edge b.head? a.head? ∧ ∃ w c, a = w ++ c ∧ w.length = k ∧ f.Form w ∧ f.Ends c := by
  rw [(determined f).matchLen_iff]
  constructor
  · rintro ⟨w, c, rfl, hk, hm⟩
    obtain ⟨hedge, hform, hends⟩ := (matches_iff f b w c).mp hm
    exact ⟨hedge, w, c, rfl, hk, hform, hends⟩
  · rintro ⟨hedge, w, c, rfl, hk, hform, hends⟩
    exact ⟨w, c, rfl, hk, (matches_iff f b w c).mpr ⟨hedge, hform, hends⟩⟩

/-- The use that stands at a position. -/
theorem core_matchLen_iff (f : TimeFn) {b a : List ℕ} {k : ℕ} : f.core.matchLen b a = some k ↔
    ∃ w c, a = w ++ c ∧ w.length = k ∧ f.Form w ∧ f.Ends c := by
  have hdet : f.core.Determined := by
    intro b w a w' a' he h h'
    exact ((core_matches_iff f b w a).mp h).1.unique ((core_matches_iff f b w' a').mp h').1 he
  simp only [hdet.matchLen_iff, core_matches_iff]

/-! ### Walls -/

theorem isWord_wall {x : ℕ} (hx : IsDelimiter x) : ∀ u v : List ℕ, isWord (u ++ x :: v).head? = isWord u.head?
  | [], _ => by rcases hx with rfl | rfl <;> rfl
  | _ :: _, _ => rfl

/-- A use that starts before a delimiter ends before it. -/
theorem Form.front {w u v c : List ℕ} {x : ℕ} (h : f.Form w) (hx : IsDelimiter x) (he : u ++ x :: v = w ++ c) :
    ∃ c', u = w ++ c' ∧ c = c' ++ x :: v := by
  rcases List.append_eq_append_iff.mp he with ⟨d, rfl, hd⟩ | ⟨d, rfl, hd⟩
  · rcases d with _ | ⟨y, d⟩
    · exact ⟨[], by simp, by simpa using hd.symm⟩
    · obtain ⟨rfl, -⟩ := List.cons.inj hd
      exact absurd hx (h.plain x (by simp))
  · exact ⟨d, rfl, hd⟩

theorem ends_wall {x : ℕ} (hx : IsDelimiter x) (u v : List ℕ) : f.Ends (u ++ x :: v) ↔ f.Ends u := by
  rw [Ends, Ends, isWord_wall hx]

/-- **The delimiters of literals are walls** for the pattern. -/
theorem walled (f : TimeFn) : f.regex.Walled IsDelimiter where
  nonempty b a h := by
    obtain ⟨-, w, c, -, hlen, hform, -⟩ := f.matchLen_iff.mp h
    exact hform.ne_nil (List.length_eq_zero_iff.mp hlen)
  ahead b u v hx := by
    refine Option.ext fun k => ?_
    rw [matchLen_iff, matchLen_iff, Edge, Edge, isWord_wall hx]
    refine and_congr_right fun _ => ⟨?_, ?_⟩
    · rintro ⟨w, c, he, hk, hform, hends⟩
      obtain ⟨c', rfl, rfl⟩ := hform.front hx he
      exact ⟨w, c', rfl, hk, hform, (ends_wall hx c' v).mp hends⟩
    · rintro ⟨w, c, rfl, hk, hform, hends⟩
      exact ⟨w, c ++ _ :: v, List.append_assoc _ _ _, hk, hform, (ends_wall hx c v).mpr hends⟩
  behind b c a hx := by
    refine Option.ext fun k => ?_
    rw [matchLen_iff, matchLen_iff, Edge, Edge, isWord_wall hx]

/-! ### Uses next to each other -/

/-- Two uses at one position are of the same function, or of the names with one front. -/
theorem spelled_start {n m v u : List ℕ} (hn : Spelled f.name n) (hm : Spelled g.name m) (he : n ++ v = m ++ u) :
    f = g ∨ f = currentTimestamp ∧ g = currentTime ∨ f = currentTime ∧ g = currentTimestamp :=
  names_start f f.mem_all g g.mem_all (compatible_of_spelled f.letters g.letters hn hm he)

/-- No name starts with what stands behind one. -/
theorem Tail.apart {p q a m u : List ℕ} (h : f.Tail (p ++ q)) (hq : q ≠ []) (hm : Spelled g.name m) :
    q ++ a ≠ m ++ u := by
  intro he
  obtain ⟨x, q, rfl⟩ := List.exists_cons_of_ne_nil hq
  obtain ⟨y, m, rfl⟩ := List.exists_cons_of_ne_nil (spelled_ne_nil hm)
  obtain ⟨rfl, -⟩ := List.cons.inj he
  have hsmall := (h.small x (by simp)).1
  have hlarge := spelled_large hm x List.mem_cons_self
  omega

/-- No name starts within a use. -/
theorem Form.apart {p q a m u : List ℕ} (h : f.Form (p ++ q)) (hp : p ≠ []) (hq : q ≠ []) (hm : Spelled g.name m) :
    q ++ a ≠ m ++ u := by
  intro he
  obtain ⟨n, v, hn, hv, hpq⟩ := h
  rcases List.append_eq_append_iff.mp hpq with ⟨d, hd, rfl⟩ | ⟨d, rfl, rfl⟩
  · rcases eq_or_ne d [] with rfl | hne
    · exact (show f.Tail ([] ++ v) from hv).apart hq hm he
    · -- within the name: its rest would fit the other name
      have hlen : p.length < f.name.toList.length := by
        have hpos := List.length_pos_of_ne_nil hne
        rw [hn.length_eq, hd, List.length_append]
        omega
      have hrest : SpelledAs (f.name.toList.drop p.length) d := by
        have hdrop := List.forall₂_drop p.length hn
        rwa [hd, List.drop_left] at hdrop
      have hletters : ∀ c ∈ f.name.toList.drop p.length, isNameLetter c = true :=
        fun c hc => f.letters c (List.mem_of_mem_drop hc)
      rw [List.append_assoc] at he
      have hfit := compatible_of_spelled hletters g.letters hrest hm he
      have happart := names_apart f f.mem_all g g.mem_all p.length hlen (List.length_pos_of_ne_nil hp)
      rw [hfit] at happart
      cases happart
  · exact hv.apart hq hm he

/-! ### Tags -/

/-- The name of a tag is one of the names used without parentheses, in any case. -/
def IsTimeTag (tag : Bytes) : Prop := ∃ f : TimeFn, f.call = false ∧ Spelled f.name (runes (tagName tag))

/-- A pattern is found in a text of word runes if it is the whole text. -/
theorem found_word_iff (f : TimeFn) {s : List ℕ} (hs : ∀ x ∈ s, isWordRune x = true) :
    f.regex.found s = true ↔ f.call = false ∧ Spelled f.name s := by
  have hnil : ∀ {u : List ℕ}, (∀ x ∈ u, x ∈ s) → isWord u.head? = false → u = [] := by
    intro u hu hhead
    rcases u with _ | ⟨x, u⟩
    · rfl
    · exact absurd (hs x (hu x List.mem_cons_self)) (by simpa [isWord] using hhead)
  rw [Regex.found_iff]
  constructor
  · rintro ⟨u, w, a, he, hm⟩
    obtain ⟨hedge, hform, hends⟩ := (matches_iff f _ w a).mp hm
    have hstart : isWord (w ++ a).head? = true := by
      by_contra hne
      have hwa := hnil (u := w ++ a) (fun x hx => by rw [he]; simp [hx]) (Bool.eq_false_of_not_eq_true hne)
      exact hform.ne_nil (List.append_eq_nil_iff.mp hwa).1
    have hu : u = [] := by
      rw [Edge, hstart, ne_eq, Bool.not_eq_true] at hedge
      exact List.reverse_eq_nil_iff.mp (hnil (fun x hx => by rw [he]; simp [List.mem_reverse.mp hx]) hedge)
    have hcall : f.call = false := by
      by_contra hcall
      have hlast := hform.isWord_getLast_call (Bool.eq_true_of_not_eq_false hcall)
      rw [← List.head?_reverse] at hlast
      refine hform.ne_nil (List.reverse_eq_nil_iff.mp (hnil (fun x hx => ?_) hlast))
      rw [he]
      simp [List.mem_reverse.mp hx]
    have ha : a = [] := by
      refine hnil (fun x hx => by rw [he]; simp [hx]) (hends.resolve_left ?_)
      rw [hcall]
      exact Bool.false_ne_true
    obtain ⟨n, v, hname, hv, rfl⟩ := hform
    rw [Tail, hcall, if_neg Bool.false_ne_true] at hv
    rw [he, hu, ha, hv, List.append_nil, List.append_nil, List.nil_append]
    exact ⟨hcall, hname⟩
  · rintro ⟨hcall, hname⟩
    refine ⟨[], s, [], by simp, (matches_iff f _ _ _).mpr ⟨?_, ⟨s, [], hname, ?_, by simp⟩, .inr rfl⟩⟩
    · rw [Edge, isWord_head hcall hname]
      exact Bool.false_ne_true
    · rw [Tail, hcall, if_neg Bool.false_ne_true]

end TimeFn

end PgShadow
