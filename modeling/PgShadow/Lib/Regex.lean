/-
# Regular expressions

Expressions over an alphabet, with assertions about the symbols around a position.
`Regex.Matches r b w a` is the meaning: `r` matches the word `w` that stands after
`b` (read backwards) and before `a`. `Regex.ends` is a backtracking matcher: from a
position it lists the positions where a match can end, the preferred ones first, so
that a greedy repetition and a lazy one differ in the order only. It finds exactly
the matches (`mem_ends`), and so does the search through a text (`found_iff`).

An expression without assertions matches the words of a language, wherever they
stand (`Spells`); the laws for it put the language of an expression together from
those of its parts.

Key definitions: `Regex`, `Regex.Matches`, `Regex.ends`, `Regex.found`, `Regex.Spells`.
Key theorems: `Regex.mem_ends`, `Regex.found_iff`, `Regex.Spells.star`.
-/
import Mathlib.Data.List.Forall2
import Mathlib.Algebra.Order.Group.Nat

inductive Regex (α : Type)
  | eps
  | sym (p : α → Bool)
  /-- An assertion about the symbols before and after the position. -/
  | look (p : Option α → Option α → Bool)
  | seq (r s : Regex α)
  | alt (r s : Regex α)
  | star (greedy : Bool) (r : Regex α)

namespace Regex

variable {α : Type}

/-! ### Meaning -/

/-- Matches of `M`, one after the other. -/
inductive Iterated (M : List α → List α → List α → Prop) : List α → List α → List α → Prop
  | nil (b a : List α) : Iterated M b [] a
  | cons {b u v a : List α} : M b u (v ++ a) → Iterated M (u.reverse ++ b) v a → Iterated M b (u ++ v) a

/-- The expression matches `w` between `b`, read backwards, and `a`. -/
def Matches : Regex α → List α → List α → List α → Prop
  | eps, _, w, _ => w = []
  | sym p, _, w, _ => ∃ x, p x = true ∧ w = [x]
  | look p, b, w, a => w = [] ∧ p b.head? a.head? = true
  | seq r s, b, w, a => ∃ u v, w = u ++ v ∧ r.Matches b u (v ++ a) ∧ s.Matches (u.reverse ++ b) v a
  | alt r s, b, w, a => r.Matches b w a ∨ s.Matches b w a
  | star _ r, b, w, a => Iterated r.Matches b w a

/-! ### Matcher -/

/-- A position in a text: what is before it, read backwards, and what is ahead. -/
@[ext] structure Cursor (α : Type) where
  before : List α
  ahead : List α

/-- Repeat what consumes something, at most `n` times. -/
def iterate (greedy : Bool) (f : Cursor α → List (Cursor α)) : ℕ → Cursor α → List (Cursor α)
  | 0, c => [c]
  | n + 1, c =>
    let more := ((f c).filter fun d => d.ahead.length < c.ahead.length).flatMap (iterate greedy f n)
    if greedy then more ++ [c] else c :: more

/-- Where a match from the position can end, in the order of preference. -/
def ends : Regex α → Cursor α → List (Cursor α)
  | eps, c => [c]
  | sym p, ⟨b, a⟩ =>
    match a with
    | x :: a => if p x then [⟨x :: b, a⟩] else []
    | [] => []
  | look p, c => if p c.before.head? c.ahead.head? then [c] else []
  | seq r s, c => (r.ends c).flatMap s.ends
  | alt r s, c => r.ends c ++ s.ends c
  | star greedy r, c => iterate greedy r.ends c.ahead.length c

/-- `d` is the position after the match of a word from `c`. -/
def Reaches (M : List α → List α → List α → Prop) (c d : Cursor α) : Prop :=
  ∃ w, c.ahead = w ++ d.ahead ∧ d.before = w.reverse ++ c.before ∧ M c.before w d.ahead

/-- A match after another is one of the words together. -/
theorem Reaches.trans {M N K : List α → List α → List α → Prop} {c d e : Cursor α} (h : Reaches M c e)
    (h' : Reaches N e d) (hK : ∀ u v, M c.before u (v ++ d.ahead) → N (u.reverse ++ c.before) v d.ahead →
      K c.before (u ++ v) d.ahead) : Reaches K c d := by
  obtain ⟨u, hc, hb, hu⟩ := h
  obtain ⟨v, hc', hb', hv⟩ := h'
  rw [hc'] at hc hu
  rw [hb] at hb' hv
  refine ⟨u ++ v, ?_, ?_, hK u v hu hv⟩
  · rw [hc, List.append_assoc]
  · rw [hb', List.reverse_append, List.append_assoc]

theorem mem_iterate_succ {greedy : Bool} {f : Cursor α → List (Cursor α)} {n : ℕ} {c d : Cursor α} :
    d ∈ iterate greedy f (n + 1) c ↔
      d = c ∨ ∃ e ∈ f c, e.ahead.length < c.ahead.length ∧ d ∈ iterate greedy f n e := by
  have hmore : d ∈ ((f c).filter fun e => e.ahead.length < c.ahead.length).flatMap (iterate greedy f n) ↔
      ∃ e ∈ f c, e.ahead.length < c.ahead.length ∧ d ∈ iterate greedy f n e := by
    simp only [List.mem_flatMap, List.mem_filter, decide_eq_true_eq, and_assoc]
  rw [iterate]
  cases greedy with
  | true => rw [if_pos rfl, List.mem_append, hmore, List.mem_singleton, or_comm]
  | false => rw [if_neg Bool.false_ne_true, List.mem_cons, hmore]

section Star

variable {M : List α → List α → List α → Prop} {f : Cursor α → List (Cursor α)}
  (hf : ∀ c d, d ∈ f c ↔ Reaches M c d)

include hf in
theorem iterate_sound {greedy : Bool} : ∀ {n : ℕ} {c d : Cursor α}, d ∈ iterate greedy f n c → Reaches (Iterated M) c d
  | 0, c, d, h => by
    obtain rfl := List.mem_singleton.mp h
    exact ⟨[], rfl, rfl, .nil _ _⟩
  | n + 1, c, d, h => by
    rcases mem_iterate_succ.mp h with rfl | ⟨e, he, -, hd⟩
    · exact ⟨[], rfl, rfl, .nil _ _⟩
    · exact ((hf c e).mp he).trans (iterate_sound hd) fun u v => Iterated.cons

include hf in
/-- Matches of no symbols are left out; the others get shorter, so that the
length of the text is enough fuel. -/
theorem iterate_complete (greedy : Bool) {b w a : List α} (h : Iterated M b w a) :
    ∀ n, w.length ≤ n → (⟨w.reverse ++ b, a⟩ : Cursor α) ∈ iterate greedy f n ⟨b, w ++ a⟩ := by
  induction h with
  | nil b a =>
    intro n _
    cases n with
    | zero => exact List.mem_singleton.mpr rfl
    | succ n => exact mem_iterate_succ.mpr (.inl rfl)
  | @cons b u v a hu hv ih =>
    intro n hn
    rcases u with _ | ⟨x, u⟩
    · exact ih n hn
    · rw [List.length_append, List.length_cons] at hn
      obtain ⟨n, rfl⟩ : ∃ m, n = m + 1 := ⟨n - 1, by omega⟩
      have hstep : (⟨(x :: u).reverse ++ b, v ++ a⟩ : Cursor α) ∈ f ⟨b, x :: u ++ v ++ a⟩ :=
        (hf _ _).mpr ⟨x :: u, List.append_assoc _ _ _, rfl, hu⟩
      refine mem_iterate_succ.mpr (.inr ⟨_, hstep, ?_, ?_⟩)
      · simp only [List.length_append, List.length_cons]
        omega
      · rw [List.reverse_append, List.append_assoc]
        exact ih n (by omega)

include hf in
theorem mem_iterate (greedy : Bool) (c d : Cursor α) :
    d ∈ iterate greedy f c.ahead.length c ↔ Reaches (Iterated M) c d := by
  refine ⟨iterate_sound hf, fun ⟨w, hc, hb, hw⟩ => ?_⟩
  have h := iterate_complete hf greedy hw c.ahead.length (by rw [hc, List.length_append]; omega)
  rwa [← hc, ← hb] at h

end Star

/-- **The matcher finds the matches**, and no others. -/
theorem mem_ends : ∀ (r : Regex α) (c d : Cursor α), d ∈ r.ends c ↔ Reaches r.Matches c d
  | eps, c, d => by
    rw [ends, List.mem_singleton]
    constructor
    · rintro rfl
      exact ⟨[], rfl, rfl, rfl⟩
    · rintro ⟨w, hc, hb, rfl⟩
      exact Cursor.ext hb hc.symm
  | sym p, ⟨b, a⟩, d => by
    constructor
    · intro h
      rcases a with _ | ⟨x, a⟩
      · cases h
      · rw [ends] at h
        split at h
        · obtain rfl := List.mem_singleton.mp h
          exact ⟨[x], rfl, rfl, x, ‹_›, rfl⟩
        · cases h
    · rintro ⟨w, hc, hb, x, hx, rfl⟩
      obtain rfl : a = x :: d.ahead := hc
      rw [ends, if_pos hx, List.mem_singleton]
      exact Cursor.ext hb rfl
  | look p, c, d => by
    rw [ends]
    constructor
    · intro h
      split at h
      · obtain rfl := List.mem_singleton.mp h
        exact ⟨[], rfl, rfl, rfl, ‹_›⟩
      · cases h
    · rintro ⟨w, hc, hb, rfl, hp⟩
      obtain rfl : d = c := Cursor.ext hb hc.symm
      rw [if_pos hp]
      exact List.mem_singleton.mpr rfl
  | seq r s, c, d => by
    rw [ends, List.mem_flatMap]
    constructor
    · rintro ⟨e, he, hd⟩
      apply ((mem_ends r c e).mp he).trans ((mem_ends s e d).mp hd)
      intro u v hu hv
      exact ⟨u, v, rfl, hu, hv⟩
    · rintro ⟨w, hc, hb, u, v, rfl, hu, hv⟩
      refine ⟨⟨u.reverse ++ c.before, v ++ d.ahead⟩, (mem_ends r c _).mpr ⟨u, ?_, rfl, hu⟩, ?_⟩
      · rw [hc, List.append_assoc]
      · refine (mem_ends s _ d).mpr ⟨v, rfl, ?_, hv⟩
        rw [hb, List.reverse_append, List.append_assoc]
  | alt r s, c, d => by
    rw [ends, List.mem_append, mem_ends r, mem_ends s]
    constructor
    · rintro (⟨w, hc, hb, hw⟩ | ⟨w, hc, hb, hw⟩)
      · exact ⟨w, hc, hb, .inl hw⟩
      · exact ⟨w, hc, hb, .inr hw⟩
    · rintro ⟨w, hc, hb, hw | hw⟩
      · exact .inl ⟨w, hc, hb, hw⟩
      · exact .inr ⟨w, hc, hb, hw⟩
  | star greedy r, c, d => mem_iterate (mem_ends r) greedy c d

/-! ### Search -/

/-- Some match begins at the position or later. -/
def foundFrom (r : Regex α) : List α → List α → Bool
  | b, [] => !(r.ends ⟨b, []⟩).isEmpty
  | b, x :: a => !(r.ends ⟨b, x :: a⟩).isEmpty || r.foundFrom (x :: b) a

/-- Some match is in the text. -/
def found (r : Regex α) (s : List α) : Bool := r.foundFrom [] s

theorem ends_nonempty_iff (r : Regex α) (b s : List α) :
    (!(r.ends ⟨b, s⟩).isEmpty) = true ↔ ∃ w a, s = w ++ a ∧ r.Matches b w a := by
  rw [Bool.not_eq_true', List.isEmpty_eq_false_iff_exists_mem]
  constructor
  · rintro ⟨d, hd⟩
    obtain ⟨w, hs, -, hw⟩ := (mem_ends r _ d).mp hd
    exact ⟨w, d.ahead, hs, hw⟩
  · rintro ⟨w, a, hs, hw⟩
    exact ⟨⟨w.reverse ++ b, a⟩, (mem_ends r _ _).mpr ⟨w, hs, rfl, hw⟩⟩

theorem foundFrom_iff (r : Regex α) : ∀ b s : List α,
    r.foundFrom b s = true ↔ ∃ u w a, s = u ++ (w ++ a) ∧ r.Matches (u.reverse ++ b) w a
  | b, [] => by
    rw [foundFrom, ends_nonempty_iff]
    constructor
    · rintro ⟨w, a, hs, hw⟩
      exact ⟨[], w, a, hs, hw⟩
    · rintro ⟨u, w, a, hs, hw⟩
      obtain ⟨rfl, hwa⟩ := List.append_eq_nil_iff.mp hs.symm
      exact ⟨w, a, hwa.symm, hw⟩
  | b, x :: s => by
    rw [foundFrom, Bool.or_eq_true, ends_nonempty_iff, foundFrom_iff r (x :: b) s]
    constructor
    · rintro (⟨w, a, hs, hw⟩ | ⟨u, w, a, rfl, hw⟩)
      · exact ⟨[], w, a, hs, hw⟩
      · refine ⟨x :: u, w, a, rfl, ?_⟩
        rwa [List.reverse_cons, List.append_assoc, List.singleton_append]
    · rintro ⟨u, w, a, hs, hw⟩
      rcases u with _ | ⟨y, u⟩
      · exact .inl ⟨w, a, hs, hw⟩
      · obtain ⟨rfl, rfl⟩ := List.cons.inj hs
        refine .inr ⟨u, w, a, rfl, ?_⟩
        rwa [List.reverse_cons, List.append_assoc, List.singleton_append] at hw

/-- **The search finds a match** exactly if there is one somewhere in the text. -/
theorem found_iff (r : Regex α) (s : List α) :
    r.found s = true ↔ ∃ u w a, s = u ++ (w ++ a) ∧ r.Matches u.reverse w a := by
  rw [found, foundFrom_iff]
  simp only [List.append_nil]

/-- The position is the start of the text. -/
def start : Regex α := look fun b _ => b.isNone

/-- An expression that asserts the start is found at the start. -/
theorem found_start_iff (r : Regex α) (s : List α) :
    (seq start r).found s = true ↔ ∃ w a, s = w ++ a ∧ r.Matches [] w a := by
  rw [found_iff]
  constructor
  · rintro ⟨u, w, a, rfl, v, w', rfl, ⟨rfl, hstart⟩, hw⟩
    obtain rfl : u = [] := by
      rw [Option.isNone_iff_eq_none, List.head?_eq_none_iff, List.reverse_eq_nil_iff] at hstart
      exact hstart
    exact ⟨w', a, rfl, hw⟩
  · rintro ⟨w, a, rfl, hw⟩
    exact ⟨[], w, a, rfl, [], w, rfl, ⟨rfl, rfl⟩, hw⟩

/-! ### Expressions without assertions -/

/-- The expression matches the words of the language `L`, wherever they stand. -/
def Spells (r : Regex α) (L : List α → Prop) : Prop := ∀ b w a, r.Matches b w a ↔ L w

/-- The symbols in order, each of its kind. -/
def word : List (α → Bool) → Regex α
  | [] => eps
  | p :: ps => seq (sym p) (word ps)

/-- One of the expressions. -/
def anyOf : List (Regex α) → Regex α
  | [] => sym fun _ => false
  | r :: rs => alt r (anyOf rs)

theorem Spells.sym (p : α → Bool) : Spells (sym p) fun w => ∃ x, p x = true ∧ w = [x] := fun _ _ _ => Iff.rfl

theorem Spells.seq {r s : Regex α} {K L : List α → Prop} (hr : Spells r K) (hs : Spells s L) :
    Spells (seq r s) fun w => ∃ u v, w = u ++ v ∧ K u ∧ L v := by
  intro b w a
  simp only [Matches, hr _ _ _, hs _ _ _]

theorem Spells.alt {r s : Regex α} {K L : List α → Prop} (hr : Spells r K) (hs : Spells s L) :
    Spells (alt r s) fun w => K w ∨ L w := by
  intro b w a
  simp only [Matches, hr _ _ _, hs _ _ _]

/-- **A repetition** matches the words of the language, one after the other. -/
theorem Spells.star {r : Regex α} {L : List α → Prop} (hr : Spells r L) (greedy : Bool) :
    Spells (star greedy r) fun w => ∃ ws : List (List α), (∀ u ∈ ws, L u) ∧ w = ws.flatten := by
  intro b w a
  constructor
  · intro h
    have hiter : Iterated r.Matches b w a := h
    induction hiter with
    | nil b a => exact ⟨[], by simp, rfl⟩
    | @cons b u v a hu hv ih =>
      obtain ⟨ws, hws, rfl⟩ := ih hv
      refine ⟨u :: ws, ?_, rfl⟩
      rintro x (_ | ⟨_, hx⟩)
      · exact (hr _ _ _).mp hu
      · exact hws x hx
  · rintro ⟨ws, hws, rfl⟩
    show Iterated r.Matches b ws.flatten a
    induction ws generalizing b with
    | nil => exact .nil b a
    | cons u ws ih =>
      obtain ⟨hu, hrest⟩ := List.forall_mem_cons.mp hws
      exact .cons ((hr _ _ _).mpr hu) (ih _ hrest)

/-- Symbols of one kind. -/
theorem Spells.star_sym (p : α → Bool) (greedy : Bool) :
    Spells (Regex.star greedy (Regex.sym p)) fun w => ∀ x ∈ w, p x = true := by
  intro b w a
  rw [(Spells.sym p).star greedy b w a]
  constructor
  · rintro ⟨ws, hws, rfl⟩ x hx
    obtain ⟨u, hu, hxu⟩ := List.mem_flatten.mp hx
    obtain ⟨y, hy, rfl⟩ := hws u hu
    rwa [List.mem_singleton.mp hxu]
  · intro h
    refine ⟨w.map fun x => [x], ?_, by rw [← List.flatMap_def, List.flatMap_singleton']⟩
    intro u hu
    obtain ⟨x, hx, rfl⟩ := List.mem_map.mp hu
    exact ⟨x, h x hx, rfl⟩

theorem Spells.word : ∀ ps : List (α → Bool),
    Spells (Regex.word ps) fun w => List.Forall₂ (fun p x => p x = true) ps w
  | [] => fun b w a => by
    show w = [] ↔ List.Forall₂ _ [] w
    rw [List.forall₂_nil_left_iff]
  | p :: ps => fun b w a => by
    refine ((Spells.sym p).seq (Spells.word ps) b w a).trans ?_
    beta_reduce
    rw [List.forall₂_cons_left_iff]
    constructor
    · rintro ⟨u, v, rfl, ⟨x, hx, rfl⟩, hv⟩
      exact ⟨x, v, hx, hv, rfl⟩
    · rintro ⟨x, v, hx, hv, rfl⟩
      exact ⟨[x], v, rfl, ⟨x, hx, rfl⟩, hv⟩

theorem Spells.anyOf {ι : Type} {f : ι → Regex α} {L : ι → List α → Prop} : ∀ {is : List ι},
    (∀ i ∈ is, Spells (f i) (L i)) → Spells (Regex.anyOf (is.map f)) fun w => ∃ i ∈ is, L i w
  | [], _ => fun b w a => by simp [Regex.anyOf, Matches]
  | i :: is, h => fun b w a => by
    obtain ⟨hi, his⟩ := List.forall_mem_cons.mp h
    rw [List.map_cons, Regex.anyOf, (hi.alt (Spells.anyOf his)) b w a]
    simp only [List.mem_cons, exists_eq_or_imp]

end Regex
