/-
# Replacing matches

What a search prefers at a position (`Regex.matchLen`), and the text with every match
replaced (`Regex.replace`): the leftmost match first, then the leftmost one after it,
an assertion seeing the symbols before the position all the same.

A symbol is a wall for an expression if no match goes past it and nothing behind it is
seen (`Walled`). A text is then searched, and replaced in, from wall to wall
(`Walled.found_append`, `Walled.replace_append`).

Key definitions: `Regex.matchLen`, `Regex.replace`, `Regex.Determined`, `Regex.Walled`.
Key theorems: `Determined.matchLen_iff`, `Walled.found_append`, `Walled.replace_append`.
-/
import PgShadow.Lib.Regex

namespace Regex

variable {α β γ δ : Type} {r : Regex α}

/-! ### The preferred match -/

/-- The length of the match that is preferred from the position. -/
def matchLen (r : Regex α) (b a : List α) : Option ℕ :=
  (r.ends ⟨b, a⟩).head?.map fun d => a.length - d.ahead.length

/-- A preferred match is one. -/
theorem matches_of_matchLen {b a : List α} {n : ℕ} (h : r.matchLen b a = some n) :
    ∃ w a', a = w ++ a' ∧ w.length = n ∧ r.Matches b w a' := by
  obtain ⟨d, hd, rfl⟩ := Option.map_eq_some_iff.mp h
  obtain ⟨w, hw, -, hm⟩ := (mem_ends r _ d).mp (List.mem_of_mem_head? hd)
  refine ⟨w, d.ahead, hw, ?_, hm⟩
  have hlen : a.length = w.length + d.ahead.length := by
    rw [show a = w ++ d.ahead from hw, List.length_append]
  omega

theorem matchLen_le {b a : List α} {n : ℕ} (h : r.matchLen b a = some n) : n ≤ a.length := by
  obtain ⟨w, a', rfl, rfl, -⟩ := matches_of_matchLen h
  rw [List.length_append]
  omega

theorem matchLen_isSome (r : Regex α) (b a : List α) : (r.matchLen b a).isSome = !(r.ends ⟨b, a⟩).isEmpty := by
  rw [matchLen, Option.isSome_map]
  rcases r.ends ⟨b, a⟩ with _ | ⟨d, ds⟩ <;> rfl

theorem matchLen_eq_none_iff {b a : List α} :
    r.matchLen b a = none ↔ ∀ w a', a = w ++ a' → ¬r.Matches b w a' := by
  rw [← Option.isNone_iff_eq_none, ← Option.not_isSome, matchLen_isSome, Bool.not_eq_true', ← Bool.not_eq_true,
    ends_nonempty_iff]
  simp only [not_exists, not_and]

/-- At most one word is matched from each position. -/
def Determined (r : Regex α) : Prop :=
  ∀ b w a w' a', w ++ a = w' ++ a' → r.Matches b w a → r.Matches b w' a' → w = w'

/-- Where there is no choice, the preferred match is the match. -/
theorem Determined.matchLen_iff (h : r.Determined) {b a : List α} {n : ℕ} :
    r.matchLen b a = some n ↔ ∃ w a', a = w ++ a' ∧ w.length = n ∧ r.Matches b w a' := by
  refine ⟨matches_of_matchLen, fun ⟨w, a', ha, hn, hw⟩ => ?_⟩
  obtain ⟨m, hm⟩ : ∃ m, r.matchLen b a = some m := by
    rw [← Option.ne_none_iff_exists']
    exact fun hnone => matchLen_eq_none_iff.mp hnone w a' ha hw
  obtain ⟨v, a'', hv, rfl, hv'⟩ := matches_of_matchLen hm
  rw [hm, h b v a'' w a' (hv.symm.trans ha) hv' hw, hn]

/-! ### Replacing -/

section Replace

variable (r : Regex α) (value : β → α) (keep : β → List γ) (rep : List γ)

/-- The text from a position on with its matches replaced. The first `k` symbols belong
to a match that has been replaced. An empty match is replaced unless another match has
just ended there (`fresh`), and the symbol after it is kept. -/
def replaceFrom : Bool → ℕ → List α → List β → List γ
  | fresh, _, b, [] => if fresh && (r.matchLen b []).isSome then rep else []
  | fresh, k + 1, b, x :: a => replaceFrom fresh k (value x :: b) a
  | fresh, 0, b, x :: a =>
    match r.matchLen b (value x :: a.map value) with
    | none => keep x ++ replaceFrom true 0 (value x :: b) a
    | some 0 => (if fresh then rep else []) ++ (keep x ++ replaceFrom true 0 (value x :: b) a)
    | some (n + 1) => rep ++ replaceFrom false n (value x :: b) a

/-- The text with every match replaced. -/
def replace (s : List β) : List γ := replaceFrom r value keep rep true 0 [] s

/-- Replacing goes through a map of the result. -/
theorem flatMap_replaceFrom (f : γ → List δ) : ∀ (fresh : Bool) (k : ℕ) (b : List α) (s : List β),
    (replaceFrom r value keep rep fresh k b s).flatMap f =
      replaceFrom r value (fun x => (keep x).flatMap f) (rep.flatMap f) fresh k b s
  | fresh, k, b, [] => by
    rw [replaceFrom, replaceFrom]
    split <;> rfl
  | fresh, k + 1, b, x :: a => by
    rw [replaceFrom, replaceFrom, flatMap_replaceFrom f]
  | fresh, 0, b, x :: a => by
    rw [replaceFrom, replaceFrom]
    rcases r.matchLen b (value x :: a.map value) with _ | _ | n
    · rw [List.flatMap_append, flatMap_replaceFrom f]
    · rw [List.flatMap_append, List.flatMap_append, flatMap_replaceFrom f]
      cases fresh <;> rfl
    · rw [List.flatMap_append, flatMap_replaceFrom f]

/-- Symbols that are kept as they are can be renamed first. -/
theorem replaceFrom_map {β' : Type} (m : β' → β) : ∀ (fresh : Bool) (k : ℕ) (b : List α) (s : List β'),
    replaceFrom r value keep rep fresh k b (s.map m) =
      replaceFrom r (fun x => value (m x)) (fun x => keep (m x)) rep fresh k b s
  | fresh, k, b, [] => by rw [List.map_nil, replaceFrom, replaceFrom]
  | fresh, k + 1, b, x :: a => by
    rw [List.map_cons, replaceFrom, replaceFrom, replaceFrom_map m]
  | fresh, 0, b, x :: a => by
    rw [List.map_cons, replaceFrom, replaceFrom, List.map_map]
    show (match r.matchLen b (value (m x) :: a.map fun x => value (m x)) with
      | none => _
      | some 0 => _
      | some (n + 1) => _) = _
    rcases r.matchLen b (value (m x) :: a.map fun x => value (m x)) with _ | _ | n
    · exact congrArg _ (replaceFrom_map m true 0 _ a)
    · exact congrArg _ (congrArg _ (replaceFrom_map m true 0 _ a))
    · exact congrArg _ (replaceFrom_map m false n _ a)

/-- What belongs to the match before it is passed over. -/
theorem replaceFrom_append (fresh : Bool) (a : List β) : ∀ (w : List β) (b : List α),
    replaceFrom r value keep rep fresh w.length b (w ++ a) =
      replaceFrom r value keep rep fresh 0 ((w.map value).reverse ++ b) a
  | [], b => rfl
  | x :: w, b => by
    rw [List.length_cons, List.cons_append, replaceFrom, replaceFrom_append fresh a w, List.map_cons,
      List.reverse_cons, List.append_assoc, List.singleton_append]

theorem replaceFrom_none {b : List α} {x : β} {a : List β} (hlen : r.matchLen b (value x :: a.map value) = none)
    (fresh : Bool) : replaceFrom r value keep rep fresh 0 b (x :: a) =
      keep x ++ replaceFrom r value keep rep true 0 (value x :: b) a := by
  rw [replaceFrom, hlen]

theorem replaceFrom_of_not_found (fresh : Bool) : ∀ {b : List α} {s : List β}, r.foundFrom b (s.map value) = false →
    replaceFrom r value keep rep fresh 0 b s = s.flatMap keep
  | b, [], h => by
    rw [List.map_nil, foundFrom, ← matchLen_isSome] at h
    rw [replaceFrom, h, Bool.and_false]
    rfl
  | b, x :: a, h => by
    rw [List.map_cons, foundFrom, ← matchLen_isSome, Bool.or_eq_false_iff, Option.isSome_eq_false_iff,
      Option.isNone_iff_eq_none] at h
    rw [replaceFrom_none r value keep rep h.1, replaceFrom_of_not_found true h.2, List.flatMap_cons]

/-- **A text without a match** is left as it is. -/
theorem replace_of_not_found {s : List β} (h : r.found (s.map value) = false) :
    replace r value keep rep s = s.flatMap keep :=
  replaceFrom_of_not_found r value keep rep true h

end Replace

/-! ### Walls -/

/-- No match of the expression is empty, goes past a wall or sees behind one. -/
structure Walled (r : Regex α) (wall : α → Prop) : Prop where
  nonempty (b a : List α) : r.matchLen b a ≠ some 0
  ahead {x : α} (b u v : List α) : wall x → r.matchLen b (u ++ x :: v) = r.matchLen b u
  behind {x : α} (b c a : List α) : wall x → r.matchLen (b ++ x :: c) a = r.matchLen b a

section Walled

variable {wall : α → Prop} {value : β → α} {keep : β → List γ} {rep : List γ}

theorem Walled.matchLen_nil (h : r.Walled wall) (b : List α) : r.matchLen b [] = none := by
  rcases hlen : r.matchLen b [] with _ | n
  · rfl
  · have hn := matchLen_le hlen
    obtain rfl : n = 0 := Nat.le_zero.mp hn
    exact absurd hlen (h.nonempty b [])

theorem Walled.foundFrom_behind (h : r.Walled wall) {x : α} (hx : wall x) (c : List α) : ∀ b a : List α,
    r.foundFrom (b ++ x :: c) a = r.foundFrom b a
  | b, [] => by rw [foundFrom, foundFrom, ← matchLen_isSome, ← matchLen_isSome, h.behind b c [] hx]
  | b, y :: a => by
    rw [foundFrom, foundFrom, ← matchLen_isSome, ← matchLen_isSome, h.behind b c (y :: a) hx, ← List.cons_append,
      h.foundFrom_behind hx c (y :: b) a]

theorem Walled.foundFrom_append (h : r.Walled wall) {x : α} (hx : wall x) (v : List α) : ∀ b u : List α,
    r.foundFrom b (u ++ x :: v) = (r.foundFrom b u || r.found v)
  | b, [] => by
    have hwall := h.ahead b [] v hx
    rw [List.nil_append] at hwall
    rw [List.nil_append, foundFrom, foundFrom, ← matchLen_isSome, ← matchLen_isSome, hwall]
    exact congrArg _ (h.foundFrom_behind hx b [] v)
  | b, y :: u => by
    rw [List.cons_append, foundFrom, foundFrom, ← matchLen_isSome, ← matchLen_isSome, ← List.cons_append,
      h.ahead b (y :: u) v hx, h.foundFrom_append hx v (y :: b) u, Bool.or_assoc]

/-- **A wall parts the search.** -/
theorem Walled.found_append (h : r.Walled wall) {x : α} (hx : wall x) (u v : List α) :
    r.found (u ++ x :: v) = (r.found u || r.found v) :=
  h.foundFrom_append hx v [] u

/-- Without empty matches it does not matter where the last one ended. -/
theorem Walled.replaceFrom_fresh (h : r.Walled wall) (fresh : Bool) : ∀ (k : ℕ) (b : List α) (s : List β),
    replaceFrom r value keep rep fresh k b s = replaceFrom r value keep rep true k b s
  | k, b, [] => by
    rw [replaceFrom, replaceFrom, h.matchLen_nil b]
    simp
  | k + 1, b, x :: a => by rw [replaceFrom, replaceFrom, h.replaceFrom_fresh fresh k]
  | 0, b, x :: a => by
    rw [replaceFrom, replaceFrom]
    rcases hlen : r.matchLen b (value x :: a.map value) with _ | _ | n
    · rfl
    · exact absurd hlen (h.nonempty _ _)
    · rfl

/-- A match at the position is replaced. -/
theorem Walled.replaceFrom_match (h : r.Walled wall) {b : List α} {w a : List β} (hw : w ≠ [])
    (hlen : r.matchLen b ((w ++ a).map value) = some w.length) :
    replaceFrom r value keep rep true 0 b (w ++ a) =
      rep ++ replaceFrom r value keep rep true 0 ((w.map value).reverse ++ b) a := by
  obtain ⟨x, w, rfl⟩ := List.exists_cons_of_ne_nil hw
  rw [List.cons_append, List.map_cons, List.length_cons] at hlen
  rw [List.cons_append, replaceFrom, hlen]
  show rep ++ replaceFrom r value keep rep false w.length (value x :: b) (w ++ a) = _
  rw [replaceFrom_append, h.replaceFrom_fresh, List.map_cons, List.reverse_cons, List.append_assoc,
    List.singleton_append]

/-- If the replacing changes nothing, there is no match: what is put in starts with a wall. -/
theorem Walled.not_found_of_replaceFrom_eq (h : r.Walled wall) {y : β} (hy : wall (value y)) (rep : List β) :
    ∀ {b : List α} {s : List β}, replaceFrom r value (fun x => [x]) (y :: rep) true 0 b s = s →
      r.foundFrom b (s.map value) = false
  | b, [], _ => by
    rw [List.map_nil, foundFrom, ← matchLen_isSome, h.matchLen_nil]
    rfl
  | b, x :: a, he => by
    rw [List.map_cons, foundFrom, ← matchLen_isSome]
    rw [replaceFrom] at he
    rcases hlen : r.matchLen b (value x :: a.map value) with _ | _ | n
    · rw [hlen] at he
      exact h.not_found_of_replaceFrom_eq hy rep (List.cons.inj he).2
    · exact absurd hlen (h.nonempty _ _)
    · rw [hlen] at he
      obtain ⟨rfl, -⟩ := List.cons.inj he
      have hwall := h.ahead b [] (a.map value) hy
      rw [List.nil_append, hlen, h.matchLen_nil] at hwall
      cases hwall

theorem Walled.replaceFrom_behind (h : r.Walled wall) {x : α} (hx : wall x) (c : List α) :
    ∀ (k : ℕ) (b : List α) (s : List β),
      replaceFrom r value keep rep true k (b ++ x :: c) s = replaceFrom r value keep rep true k b s
  | k, b, [] => by rw [replaceFrom, replaceFrom, h.behind b c [] hx]
  | k + 1, b, y :: a => by rw [replaceFrom, replaceFrom, ← List.cons_append, h.replaceFrom_behind hx c k]
  | 0, b, y :: a => by
    rw [replaceFrom, replaceFrom, h.behind b c _ hx, ← List.cons_append]
    rcases hlen : r.matchLen b (value y :: a.map value) with _ | _ | n
    · exact congrArg _ (h.replaceFrom_behind hx c 0 (value y :: b) a)
    · exact absurd hlen (h.nonempty _ _)
    · show rep ++ replaceFrom r value keep rep false n (value y :: b ++ x :: c) a =
        rep ++ replaceFrom r value keep rep false n (value y :: b) a
      rw [h.replaceFrom_fresh false, h.replaceFrom_fresh false, h.replaceFrom_behind hx c n]

theorem Walled.replaceFrom_wall (h : r.Walled wall) {x : β} (hx : wall (value x)) (v : List β) :
    ∀ (k : ℕ) (b : List α) (u : List β), k ≤ u.length →
      replaceFrom r value keep rep true k b (u ++ x :: v) =
        replaceFrom r value keep rep true k b u ++ (keep x ++ replace r value keep rep v)
  | k, b, [], hk => by
    obtain rfl : k = 0 := Nat.le_zero.mp hk
    have hwall := h.ahead b [] (v.map value) hx
    rw [List.nil_append] at hwall
    rw [List.nil_append, replaceFrom_none _ _ _ _ (hwall.trans (h.matchLen_nil b)), replaceFrom, h.matchLen_nil b]
    exact congrArg _ (h.replaceFrom_behind hx b 0 [] v)
  | k + 1, b, y :: u, hk => by
    rw [List.cons_append, replaceFrom, replaceFrom,
      h.replaceFrom_wall hx v k (value y :: b) u (Nat.le_of_succ_le_succ hk)]
  | 0, b, y :: u, _ => by
    have hahead : r.matchLen b (value y :: (u ++ x :: v).map value) = r.matchLen b (value y :: u.map value) := by
      rw [List.map_append, List.map_cons, ← List.cons_append]
      exact h.ahead b (value y :: u.map value) (v.map value) hx
    rw [List.cons_append, replaceFrom, replaceFrom, hahead]
    rcases hlen : r.matchLen b (value y :: u.map value) with _ | _ | n
    · show keep y ++ _ = keep y ++ _ ++ _
      rw [h.replaceFrom_wall hx v 0 (value y :: b) u (Nat.zero_le _), List.append_assoc]
    · exact absurd hlen (h.nonempty _ _)
    · have hn := matchLen_le hlen
      rw [List.length_cons, List.length_map] at hn
      show rep ++ replaceFrom r value keep rep false n (value y :: b) (u ++ x :: v) =
        rep ++ replaceFrom r value keep rep false n (value y :: b) u ++ _
      rw [h.replaceFrom_fresh false, h.replaceFrom_fresh false, h.replaceFrom_wall hx v n (value y :: b) u (by omega),
        List.append_assoc]

/-- **A wall parts the replacing.** -/
theorem Walled.replace_append (h : r.Walled wall) {x : β} (hx : wall (value x)) (u v : List β) :
    replace r value keep rep (u ++ x :: v) = replace r value keep rep u ++ (keep x ++ replace r value keep rep v) :=
  h.replaceFrom_wall hx v 0 [] u (Nat.zero_le _)

end Walled

end Regex
