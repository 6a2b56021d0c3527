/-
# Pacing at the captured speed

`pacingExecutor.Exec` with SpeedFactor 1.0, called for one event after another in the
order in which the calls take its mutex; the delay of a call is fixed there. What a
forward gap asks for is the gap, up to 30 seconds, and a step back asks for nothing
(`paced`). The reference is the event before, also if that was an old one, so the sum
of the delays is how far the last event is from the first, and every step back is slept
again (`requested_sum`).

The sum is at most the captured span if the steps back do not exceed what the first and
the last event leave of the span (`paced_within_span_iff`), as in an order without
steps back (`in_order_within_span`).

Key definitions: `UnitFloat64`, `Paced`, `pacedCalls`, `paced`, `stepBack`, `cutOff`.
Key theorems: `requested_sum`, `paced_within_span_iff`, `in_order_within_span`.
-/
import Mathlib.Algebra.Order.BigOperators.Group.List
import Mathlib.Data.Rat.Floor
import Mathlib.Order.MinMax
import PgShadow.Replayer.Executor

namespace PgShadow

/-- `2^53`: an integer up to here is a `float64`. -/
abbrev exactLimit : ℤ := 9007199254740992

/-- `2^63 - 512`: an integer from here on is rounded to `2^63`, which is no `int64`. -/
abbrev overflowLimit : ℤ := 9223372036854775296

/-- What is used of `float64` with the factor 1.0: a duration is exact up to `2^53`, and a
longer one is rounded to at least that. What comes of one that is rounded to `2^63` depends
on the platform. -/
class UnitFloat64 (F : Type) [Float64 F] : Prop where
  one_pos : Float64.lt (Float64.ofNat 0 : F) (Float64.ofNat 1) = true
  scale_exact : ∀ d : ℤ, 0 < d → d ≤ exactLimit → Float64.scale d (Float64.ofNat 1 : F) = d
  scale_large : ∀ d : ℤ, exactLimit < d → d < overflowLimit → exactLimit ≤ Float64.scale d (Float64.ofNat 1 : F)

instance : UnitFloat64 ℚ where
  one_pos := by decide
  scale_exact d _ _ := by
    change ((d : ℚ) / ((1 : ℕ) : ℚ)).floor = d
    rw [Nat.cast_one, div_one, Rat.floor_intCast]
  scale_large d hd _ := by
    change exactLimit ≤ ((d : ℚ) / ((1 : ℕ) : ℚ)).floor
    rw [Nat.cast_one, div_one, Rat.floor_intCast]
    exact hd.le

/-! ### The calls -/

/-- The state of a `pacingExecutor`, with the delays it has asked for and the state of
the executor inside. -/
structure Paced (τ : Type) where
  /-- `havePrev` and `prev` -/
  prev : Option ℤ := none
  requested : List ℤ := []
  inner : τ

section Calls

variable {τ : Type}

def pacingHost : Host (Paced τ) where
  ctxErr := pure false
  onAbort := pure ()
  wait := pure none
  swapPrev t := modifyGet fun s => (s.prev, { s with prev := some t })
  sleep d := modify fun s => { s with requested := s.requested ++ [d] }
  apply ev := pure (.allow, ev)

/-- The executor inside, which sees its own state only. -/
def innerExecutor (next : Executor τ) : Executor (Paced τ) := fun conn ev =>
  modifyGet fun s => ((next conn ev s.inner).1, { s with inner := (next conn ev s.inner).2 })

variable {F : Type} [Float64 F]

/-- One call of `Exec` after another. -/
def pacedCalls (factor : F) (next : Executor τ) : List (ConnID × SQLEvent) → Paced τ → Paced τ
  | [], s => s
  | c :: cs, s => pacedCalls factor next cs ((pacingExecutor pacingHost factor (innerExecutor next) c.1 c.2).run s).2

/-- What a call asks for. -/
def delayOf (factor : F) (prev : Option ℤ) (t : ℤ) : ℤ :=
  match prev with
  | some u => max 0 (min maxPacingDelay (pacingDelay (timeSub t u) factor))
  | none => 0

/-- One call sets the reference to its event, whenever that was, and asks for its delay. -/
theorem exec_paced (factor : F) (next : Executor τ) (conn : ConnID) (ev : SQLEvent) (s : Paced τ) :
    let s' := ((pacingExecutor pacingHost factor (innerExecutor next) conn ev).run s).2
    s'.prev = some ev.timestamp ∧ s'.requested.sum = s.requested.sum + delayOf factor s.prev ev.timestamp := by
  let gap := match s.prev with
    | some u => pacingDelay (timeSub ev.timestamp u) factor
    | none => 0
  let delay := if maxPacingDelay < gap then maxPacingDelay else gap
  let s₁ := { s with prev := some ev.timestamp }
  have hdelay : delayOf factor s.prev ev.timestamp = max 0 delay := by
    have hmin : delay = min maxPacingDelay gap := by
      change (if maxPacingDelay < gap then maxPacingDelay else gap) = _
      rw [min_def]
      split_ifs <;> omega
    rw [hmin]
    unfold delayOf
    change _ = max 0 (min maxPacingDelay (match s.prev with
      | some u => pacingDelay (timeSub ev.timestamp u) factor
      | none => 0))
    cases s.prev <;> rfl
  have hrun : (pacingExecutor pacingHost factor (innerExecutor next) conn ev).run s =
      (if 0 < delay then pacingHost.sleep delay >>= fun _ => innerExecutor next conn ev
        else innerExecutor next conn ev).run s₁ := rfl
  dsimp only
  rw [hrun, hdelay]
  by_cases hd : 0 < delay
  · rw [if_pos hd, max_eq_right hd.le]
    refine ⟨rfl, ?_⟩
    change (s.requested ++ [delay]).sum = _
    rw [List.sum_append, List.sum_singleton]
  · rw [if_neg hd, max_eq_left (not_lt.mp hd)]
    exact ⟨rfl, (Int.add_zero _).symm⟩

/-! ### Gaps -/

/-- The gaps between one time and the next. -/
def gaps : ℤ → List ℤ → List ℤ
  | _, [] => []
  | u, t :: ts => (t - u) :: gaps t ts

/-- What is asked for where the gap is rounded to `2^63`. -/
def overflowDelay (F : Type) [Float64 F] (gap : ℤ) : ℤ :=
  max 0 (min maxPacingDelay (Float64.scale (min gap 9223372036854775807) (Float64.ofNat 1 : F)))

/-- What a gap asks for. -/
def paced (F : Type) [Float64 F] (gap : ℤ) : ℤ :=
  if gap ≤ 0 then 0 else if gap < overflowLimit then min maxPacingDelay gap else overflowDelay F gap

/-- How far a gap goes back. -/
def stepBack (gap : ℤ) : ℤ := max 0 (-gap)

/-- What the cap takes off a forward gap. -/
def cutOff (F : Type) [Float64 F] (gap : ℤ) : ℤ :=
  if gap < overflowLimit then max 0 (gap - maxPacingDelay) else gap - overflowDelay F gap

theorem delay_limits : maxPacingDelay = 30000000000 ∧ exactLimit = 9007199254740992 ∧
    overflowLimit = 9223372036854775296 := ⟨rfl, rfl, rfl⟩

theorem paced_eq (F : Type) [Float64 F] (gap : ℤ) : paced F gap = gap + stepBack gap - cutOff F gap := by
  obtain ⟨hmax, -, hover⟩ := delay_limits
  unfold paced stepBack cutOff
  by_cases hneg : gap ≤ 0
  · rw [if_pos hneg, if_pos (by omega)]
    omega
  · rw [if_neg hneg]
    by_cases hfar : gap < overflowLimit
    · rw [if_pos hfar, if_pos hfar]
      omega
    · rw [if_neg hfar, if_neg hfar]
      omega

theorem cutOff_nonneg (F : Type) [Float64 F] (gap : ℤ) : 0 ≤ cutOff F gap := by
  obtain ⟨hmax, -, hover⟩ := delay_limits
  unfold cutOff
  by_cases hfar : gap < overflowLimit
  · rw [if_pos hfar]
    exact le_max_left _ _
  · rw [if_neg hfar]
    have hle : overflowDelay F gap ≤ maxPacingDelay := max_le (by decide) (min_le_left _ _)
    omega

theorem timeSub_eq (t u : ℤ) : timeSub t u = max (-9223372036854775808) (min 9223372036854775807 (t - u)) := rfl

theorem delayOf_one [UnitFloat64 F] (u t : ℤ) : delayOf (Float64.ofNat 1 : F) (some u) t = paced F (t - u) := by
  change max 0 (min maxPacingDelay (pacingDelay (timeSub t u) (Float64.ofNat 1 : F))) = _
  have hpos : (!Float64.lt (Float64.ofNat 0 : F) (Float64.ofNat 1)) = false := by rw [UnitFloat64.one_pos]; rfl
  obtain ⟨hmax, hlimit, hover⟩ := delay_limits
  unfold pacingDelay paced
  rw [hpos, Bool.false_or, timeSub_eq]
  by_cases hneg : t - u ≤ 0
  · rw [if_pos (by simpa using by omega), if_pos hneg]
    decide
  · rw [if_neg (by simpa using by omega), if_neg hneg]
    by_cases hfar : t - u < overflowLimit
    · have hgap : max (-9223372036854775808) (min 9223372036854775807 (t - u)) = t - u := by omega
      rw [if_pos hfar, hgap]
      by_cases hexact : t - u ≤ exactLimit
      · rw [UnitFloat64.scale_exact _ (by omega) hexact]
        omega
      · have hlarge := UnitFloat64.scale_large (F := F) (t - u) (by omega) hfar
        omega
    · have hgap : max (-9223372036854775808) (min 9223372036854775807 (t - u)) = min (t - u) 9223372036854775807 := by
        omega
      rw [if_neg hfar, hgap]
      rfl

/-! ### The sum -/

/-- The gaps add up to the way from the first time to the last. -/
theorem paced_sum (F : Type) [Float64 F] : ∀ (u : ℤ) (ts : List ℤ), ((gaps u ts).map (paced F)).sum =
    ts.getLastD u - u + ((gaps u ts).map stepBack).sum - ((gaps u ts).map (cutOff F)).sum
  | u, [] => by simp [gaps]
  | u, t :: ts => by
    have ih := paced_sum F t ts
    rw [gaps, List.map_cons, List.map_cons, List.map_cons, List.sum_cons, List.sum_cons, List.sum_cons, ih, paced_eq,
      List.getLastD_cons]
    omega

variable [UnitFloat64 F]

theorem pacedCalls_sum (next : Executor τ) : ∀ (cs : List (ConnID × SQLEvent)) {s : Paced τ} {u : ℤ},
    s.prev = some u → (pacedCalls (Float64.ofNat 1 : F) next cs s).requested.sum =
      s.requested.sum + ((gaps u (cs.map fun c => c.2.timestamp)).map (paced F)).sum
  | [], s, u, _ => by simp [pacedCalls, gaps]
  | c :: cs, s, u, hprev => by
    obtain ⟨hprev', hsum⟩ := exec_paced (Float64.ofNat 1 : F) next c.1 c.2 s
    rw [hprev, delayOf_one] at hsum
    rw [pacedCalls, pacedCalls_sum next cs hprev', hsum, List.map_cons, gaps, List.map_cons, List.sum_cons,
      Int.add_assoc]

/-- **The sum of the delays** is the way from the first event to the last, with every step
back added and what the cap takes off left out. -/
theorem requested_sum (next : Executor τ) (inner : τ) (c : ConnID × SQLEvent) (cs : List (ConnID × SQLEvent)) :
    let t := c.2.timestamp
    let ts := cs.map fun c => c.2.timestamp
    (pacedCalls (Float64.ofNat 1 : F) next (c :: cs) { inner }).requested.sum =
      ts.getLastD t - t + ((gaps t ts).map stepBack).sum - ((gaps t ts).map (cutOff F)).sum := by
  obtain ⟨hprev, hsum⟩ := exec_paced (Float64.ofNat 1 : F) next c.1 c.2 { inner }
  dsimp only
  rw [← paced_sum, pacedCalls, pacedCalls_sum next cs hprev, hsum]
  exact Int.zero_add _

/-- **The delays stay within the captured span** if and only if the steps back are no more
than the first event is from the smallest time, the last from the largest, and the cap takes
off. -/
theorem paced_within_span_iff (next : Executor τ) (inner : τ) (c : ConnID × SQLEvent)
    (cs : List (ConnID × SQLEvent)) :
    let t := c.2.timestamp
    let ts := cs.map fun c => c.2.timestamp
    let largest := ts.foldl max t
    let smallest := ts.foldl min t
    (pacedCalls (Float64.ofNat 1 : F) next (c :: cs) { inner }).requested.sum ≤ largest - smallest ↔
      ((gaps t ts).map stepBack).sum ≤
        (t - smallest) + (largest - ts.getLastD t) + ((gaps t ts).map (cutOff F)).sum := by
  have hsum := requested_sum (F := F) next inner c cs
  dsimp only at hsum ⊢
  rw [hsum]
  omega

theorem two_gaps_within_span :
    let conn : ConnID := ⟨.v4 1, 50000, .v4 2, 5432⟩
    let ev : ℤ → ConnID × SQLEvent := fun t => (conn, { conn, sql := [], timestamp := t })
    (pacedCalls (Float64.ofNat 1 : ℚ) (fun _ _ => pure none) [ev 0, ev 5000000000, ev 9000000000]
      { inner := () }).requested.sum ≤ 9000000000 - 0 :=
  (paced_within_span_iff (F := ℚ) _ _ _ _).mpr (by decide)

/-- Two lanes whose events take turns: five seconds of traffic take ten. -/
theorem lanes_taking_turns :
    let ev : UInt16 → ℤ → ConnID × SQLEvent := fun port t =>
      (⟨.v4 1, port, .v4 2, 5432⟩, { conn := ⟨.v4 1, port, .v4 2, 5432⟩, sql := [], timestamp := t })
    let calls := [ev 50000 0, ev 50001 5000000000, ev 50000 0, ev 50001 5000000000]
    let ts := calls.map fun c => c.2.timestamp
    let s := pacedCalls (Float64.ofNat 1 : ℚ) (fun _ _ => pure none) calls { inner := () }
    s.requested = [5000000000, 5000000000] ∧ ¬s.requested.sum ≤ ts.foldl max 0 - ts.foldl min 0 := by
  decide +kernel

omit [Float64 F] [UnitFloat64 F] in
theorem between_extremes : ∀ (ts : List ℤ) (t : ℤ), ∀ x ∈ t :: ts, ts.foldl min t ≤ x ∧ x ≤ ts.foldl max t
  | [], t, x, hx => by
    obtain rfl := List.mem_singleton.mp hx
    exact ⟨le_refl _, le_refl _⟩
  | u :: ts, t, x, hx => by
    have hmin := fun y hy => (between_extremes ts (min t u) y hy).1
    have hmax := fun y hy => (between_extremes ts (max t u) y hy).2
    have hhead : min t u ≤ x ∧ x ≤ max t u ∨ x ∈ ts := by
      obtain rfl | hx := List.mem_cons.mp hx
      · exact .inl ⟨min_le_left _ _, le_max_left _ _⟩
      · obtain rfl | hx := List.mem_cons.mp hx
        · exact .inl ⟨min_le_right _ _, le_max_right _ _⟩
        · exact .inr hx
    obtain ⟨hlow, hhigh⟩ | hmem := hhead
    · exact ⟨(hmin _ List.mem_cons_self).trans hlow, hhigh.trans (hmax _ List.mem_cons_self)⟩
    · exact ⟨hmin x (List.mem_cons_of_mem _ hmem), hmax x (List.mem_cons_of_mem _ hmem)⟩

/-- In an order without steps back the delays stay within the span. -/
theorem in_order_within_span (next : Executor τ) (inner : τ) (c : ConnID × SQLEvent) (cs : List (ConnID × SQLEvent)) :
    let t := c.2.timestamp
    let ts := cs.map fun c => c.2.timestamp
    (∀ gap ∈ gaps t ts, 0 ≤ gap) →
      (pacedCalls (Float64.ofNat 1 : F) next (c :: cs) { inner }).requested.sum ≤ ts.foldl max t - ts.foldl min t := by
  intro t ts hforward
  have hback : ((gaps t ts).map stepBack).sum = 0 := by
    apply List.sum_eq_zero
    intro x hx
    obtain ⟨gap, hgap, rfl⟩ := List.mem_map.mp hx
    exact max_eq_left (Int.neg_nonpos_of_nonneg (hforward gap hgap))
  have hcut : 0 ≤ ((gaps t ts).map (cutOff F)).sum := by
    apply List.sum_nonneg
    intro x hx
    obtain ⟨gap, -, rfl⟩ := List.mem_map.mp hx
    exact cutOff_nonneg F gap
  have hfirst := (between_extremes ts t t List.mem_cons_self).1
  have hlast := (between_extremes ts t _ (List.getLastD_mem_cons)).2
  rw [requested_sum (F := F) next inner c cs]
  calc ts.getLastD t - t + ((gaps t ts).map stepBack).sum - ((gaps t ts).map (cutOff F)).sum
      ≤ ts.getLastD t - t := by omega
    _ ≤ ts.foldl max t - ts.foldl min t := by omega

end Calls

end PgShadow
