/-
# Cutting a text into spans

A tokenizer reads a text from left to right: at each position it takes the
symbols of one token and goes on behind them. What it takes can depend on all
that follows, so a text that is cut at some position may be read differently
before the cut. Where a token has a closing delimiter it is complete only if the
delimiter is there (`ends`).

A continuation `u` breaks tokens (`Breaks`) if it neither adds to a complete
token nor completes an open one. The two sides of such a position are then
independent: a token starts there exactly if all tokens before are complete
(`mem_visits_iff`), and then the spans of the text are those of its two parts
(`spans_append`).

Key definitions: `Tokenizer`, `Tokenizer.spans`, `Tokenizer.closed`, `Breaks`.
Key theorems: `spans_append`, `exists_covering`, `mem_visits_iff`, `mem_starts_iff`.
-/
import Mathlib.Data.List.Basic
import Mathlib.Algebra.Order.Group.Nat

structure Tokenizer (α β : Type) where
  /-- The token that `c :: t` begins with, and what follows it. -/
  step : α → List α → β × List α
  /-- The token is complete in `c :: t`. -/
  ends : α → List α → Bool
  step_suffix : ∀ c t, (step c t).2 <:+ t

namespace Tokenizer

variable {α β σ : Type}

/-- A token with the text from its first symbol on, and the text behind it. -/
structure Span (α β : Type) where
  value : β
  start : List α
  rest : List α

/-- The position where `u` is left lies in the span. -/
def Span.Covers (p : Span α β) (u : List α) : Prop := p.rest.length < u.length ∧ u.length ≤ p.start.length

instance (p : Span α β) (u : List α) : Decidable (p.Covers u) := inferInstanceAs (Decidable (_ ∧ _))

/-- The symbols of the token. -/
def Span.text (p : Span α β) : List α := p.start.take (p.start.length - p.rest.length)

def Span.extend (p : Span α β) (u : List α) : Span α β := ⟨p.value, p.start ++ u, p.rest ++ u⟩

theorem step_length (T : Tokenizer α β) (c : α) (t : List α) : (T.step c t).2.length ≤ t.length :=
  (T.step_suffix c t).length_le

/-- The spans of the text, from left to right. -/
def spans (T : Tokenizer α β) (s : List α) : List (Span α β) :=
  match s with
  | [] => []
  | c :: t => ⟨(T.step c t).1, c :: t, (T.step c t).2⟩ :: T.spans (T.step c t).2
termination_by s.length
decreasing_by
  have := T.step_length c t
  simp only [List.length_cons]
  omega

/-- Every token of the text is complete. -/
def closed (T : Tokenizer α β) (s : List α) : Bool :=
  match s with
  | [] => true
  | c :: t => T.ends c t && T.closed (T.step c t).2
termination_by s.length
decreasing_by
  have := T.step_length c t
  simp only [List.length_cons]
  omega

/-- The states before each span, where the tokens move a state. -/
def visits (f : σ → β → σ) : σ → List (Span α β) → List (σ × Span α β)
  | _, [] => []
  | q, p :: ps => (q, p) :: visits f (f q p.value) ps

/-- The state that the tokens of the text lead to. -/
def state (T : Tokenizer α β) (f : σ → β → σ) (q : σ) (s : List α) : σ := (T.spans s).foldl (fun q p => f q p.value) q

variable (T : Tokenizer α β) {f : σ → β → σ} {q : σ} {c : α} {s t u : List α}

@[simp] theorem spans_nil : T.spans [] = [] := by rw [spans]

theorem spans_cons (c : α) (t : List α) :
    T.spans (c :: t) = ⟨(T.step c t).1, c :: t, (T.step c t).2⟩ :: T.spans (T.step c t).2 := by rw [spans]

@[simp] theorem closed_nil : T.closed [] = true := by rw [closed]

theorem closed_cons (c : α) (t : List α) : T.closed (c :: t) = (T.ends c t && T.closed (T.step c t).2) := by rw [closed]

@[simp] theorem state_nil (f : σ → β → σ) (q : σ) : T.state f q [] = q := by
  rw [state, spans_nil]
  rfl

theorem state_cons (f : σ → β → σ) (q : σ) (c : α) (t : List α) :
    T.state f q (c :: t) = T.state f (f q (T.step c t).1) (T.step c t).2 := by
  rw [state, spans_cons]
  rfl

/-- Induction along the tokens of a text. -/
theorem token_induction {motive : List α → Prop} (nil : motive [])
    (cons : ∀ c t, motive (T.step c t).2 → motive (c :: t)) (s : List α) : motive s := by
  induction hn : s.length using Nat.strong_induction_on generalizing s with
  | _ n ih =>
    cases s with
    | nil => exact nil
    | cons c t =>
      apply cons
      refine ih _ ?_ _ rfl
      have := T.step_length c t
      rw [List.length_cons] at hn
      omega

theorem visits_append (f : σ → β → σ) : ∀ (q : σ) (l m : List (Span α β)),
    visits f q (l ++ m) = visits f q l ++ visits f (l.foldl (fun q p => f q p.value) q) m
  | _, [], _ => rfl
  | q, p :: l, m => by
    rw [List.cons_append, visits, visits, visits_append f _ l m]
    rfl

theorem mem_of_mem_visits {v : σ × Span α β} : ∀ {q : σ} {l : List (Span α β)}, v ∈ visits f q l → v.2 ∈ l
  | _, [], hv => by cases hv
  | _, p :: l, hv => by
    rcases List.mem_cons.1 hv with rfl | hv
    · exact List.mem_cons_self
    · exact List.mem_cons_of_mem p (mem_of_mem_visits hv)

/-- Every span starts and ends within the text. -/
theorem span_bounds {p : Span α β} (hp : p ∈ T.spans s) :
    p.start <:+ s ∧ p.rest.length < p.start.length ∧ p.start ≠ [] := by
  induction s using T.token_induction with
  | nil =>
    rw [spans_nil] at hp
    cases hp
  | cons c t ih =>
    rw [spans_cons] at hp
    rcases List.mem_cons.1 hp with rfl | hp
    · exact ⟨List.suffix_rfl, Nat.lt_succ_of_le (T.step_length c t), List.cons_ne_nil c t⟩
    · obtain ⟨hstart, hrest⟩ := ih hp
      exact ⟨(hstart.trans (T.step_suffix c t)).trans (List.suffix_cons c t), hrest⟩

/-- A span is known by its start. -/
theorem span_of_start {p : Span α β} (hp : p ∈ T.spans s) (hstart : p.start = c :: t) :
    p = ⟨(T.step c t).1, c :: t, (T.step c t).2⟩ := by
  induction s using T.token_induction with
  | nil =>
    rw [spans_nil] at hp
    cases hp
  | cons c' t' ih =>
    rw [spans_cons] at hp
    rcases List.mem_cons.1 hp with rfl | hp
    · cases hstart
      rfl
    · exact ih hp

/-- The continuation neither adds to a complete token nor completes an open one. -/
structure Breaks (u : List α) : Prop where
  complete : ∀ c t, T.ends c t = true → T.step c (t ++ u) = ((T.step c t).1, (T.step c t).2 ++ u)
  covered : ∀ c t, T.ends c t = false → (T.step c (t ++ u)).2.length < u.length

variable {T}

/-- **Behind complete tokens the text is read as if it began there.** -/
theorem spans_append (hu : T.Breaks u) (hs : T.closed s = true) :
    T.spans (s ++ u) = (T.spans s).map (·.extend u) ++ T.spans u := by
  induction s using T.token_induction with
  | nil => rw [spans_nil, List.nil_append, List.map_nil, List.nil_append]
  | cons c t ih =>
    rw [closed_cons, Bool.and_eq_true] at hs
    rw [List.cons_append, spans_cons, hu.complete c t hs.1, ih hs.2, spans_cons]
    rfl

theorem visits_extend (f : σ → β → σ) (u : List α) : ∀ (q : σ) (l : List (Span α β)),
    visits f q (l.map (·.extend u)) = (visits f q l).map fun v => (v.1, v.2.extend u)
  | _, [] => rfl
  | q, p :: l => by
    rw [List.map_cons, visits, visits_extend f u _ l]
    rfl

/-- The states too are those of the two parts, one after the other. -/
theorem visits_spans_append (hu : T.Breaks u) (hs : T.closed s = true) (f : σ → β → σ) (q : σ) :
    visits f q (T.spans (s ++ u)) =
      ((visits f q (T.spans s)).map fun v => (v.1, v.2.extend u)) ++ visits f (T.state f q s) (T.spans u) := by
  rw [spans_append hu hs, visits_append, visits_extend, List.foldl_map]
  rfl

/-- An open token starts before `u` and reaches into it. -/
theorem exists_covering (hu : T.Breaks u) (hs : T.closed s = false) :
    ∃ p ∈ T.spans (s ++ u), p.Covers u ∧ u.length < p.start.length ∧
      ∃ c t, T.ends c t = false ∧ p.value = (T.step c (t ++ u)).1 := by
  induction s using T.token_induction with
  | nil =>
    rw [closed_nil] at hs
    cases hs
  | cons c t ih =>
    rw [List.cons_append, spans_cons]
    by_cases hend : T.ends c t = true
    · rw [closed_cons, hend, Bool.true_and] at hs
      obtain ⟨p, hp, hcovers⟩ := ih hs
      rw [hu.complete c t hend]
      exact ⟨p, List.mem_cons_of_mem _ hp, hcovers⟩
    · rw [Bool.not_eq_true] at hend
      have hlt : u.length < (c :: (t ++ u)).length := by
        rw [List.length_cons, List.length_append]
        omega
      exact ⟨_, List.mem_cons_self, ⟨hu.covered c t hend, hlt.le⟩, hlt, c, t, hend, rfl⟩

/-- Spans do not overlap: none starts inside of another. -/
theorem eq_of_covers {p r : Span α β} (hp : p ∈ T.spans s) (hr : r ∈ T.spans s) (hcovers : p.Covers r.start) :
    p = r := by
  induction s using T.token_induction with
  | nil =>
    rw [spans_nil] at hp
    cases hp
  | cons c t ih =>
    rw [spans_cons] at hp hr
    rcases List.mem_cons.1 hp with rfl | hp <;> rcases List.mem_cons.1 hr with rfl | hr
    · rfl
    · have hlen := (T.span_bounds hr).1.length_le
      exact absurd hcovers.1 (Nat.not_lt.2 hlen)
    · have hlen := (T.span_bounds hp).1.length_le
      have hrest := T.step_length c t
      have hle : t.length + 1 ≤ p.start.length := hcovers.2
      omega
    · exact ih hp hr

/-- **A token starts behind `s` exactly if all tokens of `s` are complete**, in the
state that they lead to. -/
theorem mem_visits_iff (hu : T.Breaks (c :: t)) {r : σ} :
    (r, ⟨(T.step c t).1, c :: t, (T.step c t).2⟩) ∈ visits f q (T.spans (s ++ c :: t)) ↔
      T.closed s = true ∧ r = T.state f q s := by
  by_cases hs : T.closed s = true
  · rw [visits_spans_append hu hs, spans_cons, visits, List.mem_append, List.mem_cons]
    constructor
    · rintro (hv | hv | hv)
      · -- the spans of `s` start before
        exfalso
        obtain ⟨⟨_, p⟩, hp, heq⟩ := List.mem_map.1 hv
        have hpos : 0 < p.start.length := List.length_pos_iff.2 (T.span_bounds (mem_of_mem_visits hp)).2.2
        have hlen := congrArg (fun v => v.2.start.length) heq
        simp only [Span.extend, List.length_append] at hlen
        omega
      · exact ⟨hs, congrArg Prod.fst hv⟩
      · exfalso
        have hlen := (T.span_bounds (mem_of_mem_visits hv)).1.length_le
        have := T.step_length c t
        simp only [List.length_cons] at hlen
        omega
    · rintro ⟨-, rfl⟩
      exact Or.inr (Or.inl rfl)
  · refine iff_of_false (fun hv => ?_) fun h => hs h.1
    rw [Bool.not_eq_true] at hs
    obtain ⟨p, hp, hcovers, hlt, -⟩ := exists_covering hu hs
    rw [eq_of_covers hp (mem_of_mem_visits hv) hcovers] at hlt
    exact lt_irrefl _ hlt

/-- A token that starts behind `s` is among those that are looked for. -/
theorem mem_starts_iff (hu : T.Breaks (c :: t)) {P : σ × Span α β → Bool} :
    c :: t ∈ ((visits f q (T.spans (s ++ c :: t))).filter P).map (·.2.start) ↔
      T.closed s = true ∧ P (T.state f q s, ⟨(T.step c t).1, c :: t, (T.step c t).2⟩) = true := by
  constructor
  · intro hin
    obtain ⟨⟨r, p⟩, hv, hstart⟩ := List.mem_map.1 hin
    obtain ⟨hv, hp⟩ := List.mem_filter.1 hv
    obtain rfl : p = ⟨_, _, _⟩ := T.span_of_start (mem_of_mem_visits hv) hstart
    obtain ⟨hs, rfl⟩ := (mem_visits_iff hu).1 hv
    exact ⟨hs, hp⟩
  · rintro ⟨hs, hp⟩
    exact List.mem_map.2 ⟨_, List.mem_filter.2 ⟨(mem_visits_iff hu).2 ⟨hs, rfl⟩, hp⟩, rfl⟩

end Tokenizer
