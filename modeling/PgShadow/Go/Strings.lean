/-
# Go's string functions

The functions of Go's `strings` package that the pipeline calls, on byte
sequences that need not be valid UTF-8: an invalid byte decodes to U+FFFD with
width 1, as in `unicode/utf8`. The Unicode case tables beyond ASCII are a
parameter (`CaseTable`), so what is proved holds of every version of them.
-/
import Mathlib.Data.List.Find
import PgShadow.Core

namespace PgShadow

/-- `unicode.ToLower` and `unicode.ToUpper` on runes from U+0080 on. -/
structure CaseTable where
  lower : ℕ → ℕ
  upper : ℕ → ℕ

/-- `utf8.RuneError`. -/
abbrev runeError : ℕ := 0xFFFD

/-- A continuation byte within the bounds. -/
def isCont (lo hi : ℕ) (b : UInt8) : Bool := lo ≤ b.toNat && b.toNat ≤ hi

/-- `utf8.DecodeRune`: the first rune and its width. -/
def decodeRune : Bytes → ℕ × ℕ
  | [] => (runeError, 0)
  | b :: t =>
    let n := b.toNat
    -- the bounds of the second byte exclude overlong forms, surrogates and runes past U+10FFFF
    let lo := if n = 0xE0 then 0xA0 else if n = 0xF0 then 0x90 else 0x80
    let hi := if n = 0xED then 0x9F else if n = 0xF4 then 0x8F else 0xBF
    if n < 0x80 then (n, 1)
    else if n < 0xC2 then (runeError, 1)
    else if n < 0xE0 then
      match t with
      | c :: _ => if isCont 0x80 0xBF c then ((n - 0xC0) * 64 + (c.toNat - 0x80), 2) else (runeError, 1)
      | _ => (runeError, 1)
    else if n < 0xF0 then
      match t with
      | c :: d :: _ =>
        if isCont lo hi c && isCont 0x80 0xBF d then
          (((n - 0xE0) * 64 + (c.toNat - 0x80)) * 64 + (d.toNat - 0x80), 3)
        else (runeError, 1)
      | _ => (runeError, 1)
    else if n < 0xF5 then
      match t with
      | c :: d :: e :: _ =>
        if isCont lo hi c && isCont 0x80 0xBF d && isCont 0x80 0xBF e then
          ((((n - 0xF0) * 64 + (c.toNat - 0x80)) * 64 + (d.toNat - 0x80)) * 64 + (e.toNat - 0x80), 4)
        else (runeError, 1)
      | _ => (runeError, 1)
    else (runeError, 1)

/-- `utf8.AppendRune` to nothing. -/
def encodeRune (r : ℕ) : Bytes :=
  if r < 0x80 then [UInt8.ofNat r]
  else if r < 0x800 then [UInt8.ofNat (0xC0 + r / 64), UInt8.ofNat (0x80 + r % 64)]
  else if (0xD800 ≤ r && r < 0xE000) || 0x10FFFF < r then [0xEF, 0xBF, 0xBD]
  else if r < 0x10000 then
    [UInt8.ofNat (0xE0 + r / 4096), UInt8.ofNat (0x80 + r / 64 % 64), UInt8.ofNat (0x80 + r % 64)]
  else
    [UInt8.ofNat (0xF0 + r / 262144), UInt8.ofNat (0x80 + r / 4096 % 64), UInt8.ofNat (0x80 + r / 64 % 64),
      UInt8.ofNat (0x80 + r % 64)]

/-- `strings.Map`. -/
def mapRunes (f : ℕ → ℕ) : Bytes → Bytes
  | [] => []
  | b :: t => encodeRune (f (decodeRune (b :: t)).1) ++ mapRunes f (t.drop ((decodeRune (b :: t)).2 - 1))
termination_by s => s.length
decreasing_by
  simp only [List.length_drop, List.length_cons]
  omega

/-- `strings.ToLower`. -/
def toLower (U : CaseTable) : Bytes → Bytes :=
  mapRunes fun r => if r < 0x80 then if 65 ≤ r ∧ r ≤ 90 then r + 32 else r else U.lower r

/-- `strings.ToUpper`. -/
def toUpper (U : CaseTable) : Bytes → Bytes :=
  mapRunes fun r => if r < 0x80 then if 97 ≤ r ∧ r ≤ 122 then r - 32 else r else U.upper r

/-- The encodings of the white space of `unicode.IsSpace`. -/
def spaces : List Bytes :=
  [[9], [10], [11], [12], [13], [32], [0xC2, 0x85], [0xC2, 0xA0], [0xE1, 0x9A, 0x80],
    [0xE2, 0x80, 0x80], [0xE2, 0x80, 0x81], [0xE2, 0x80, 0x82], [0xE2, 0x80, 0x83], [0xE2, 0x80, 0x84],
    [0xE2, 0x80, 0x85], [0xE2, 0x80, 0x86], [0xE2, 0x80, 0x87], [0xE2, 0x80, 0x88], [0xE2, 0x80, 0x89],
    [0xE2, 0x80, 0x8A], [0xE2, 0x80, 0xA8], [0xE2, 0x80, 0xA9], [0xE2, 0x80, 0xAF], [0xE2, 0x81, 0x9F],
    [0xE3, 0x80, 0x80]]

/-- Drop the words of `ws` off the front, as long as there is one. -/
def trimWords (ws : List Bytes) (s : Bytes) : Bytes :=
  match s with
  | [] => []
  | b :: t =>
    match ws.find? (·.isPrefixOf (b :: t)) with
    | some w => trimWords ws (t.drop (w.length - 1))
    | none => b :: t
termination_by s.length
decreasing_by
  simp only [List.length_drop, List.length_cons]
  omega

/-- `strings.TrimSpace`. White space at the end is found on the reversed text,
where no encoding is a suffix of another. -/
def trimSpace (s : Bytes) : Bytes :=
  (trimWords (spaces.map List.reverse) (trimWords spaces s).reverse).reverse

/-- `strings.Index`. -/
def indexOf (sub : Bytes) : Bytes → Option ℕ
  | [] => if sub = [] then some 0 else none
  | b :: t => if sub.isPrefixOf (b :: t) then some 0 else (indexOf sub t).map (· + 1)

theorem indexOf_spec {sub : Bytes} : ∀ {s : Bytes} {e : ℕ}, indexOf sub s = some e →
    ∃ body rest, s = body ++ (sub ++ rest) ∧ body.length = e
  | [], e, h => by
    rw [indexOf] at h
    split at h
    · cases h
      exact ⟨[], [], by simp [*], rfl⟩
    · cases h
  | b :: t, e, h => by
    rw [indexOf] at h
    split at h
    · cases h
      obtain ⟨rest, hrest⟩ := List.isPrefixOf_iff_prefix.mp ‹_›
      exact ⟨[], rest, hrest.symm, rfl⟩
    · obtain ⟨e', he', rfl⟩ := Option.map_eq_some_iff.mp h
      obtain ⟨body, rest, rfl, rfl⟩ := indexOf_spec he'
      exact ⟨b :: body, rest, rfl, rfl⟩

/-- Where a text first stands in another does not depend on what follows it there. -/
theorem indexOf_tail {sub : Bytes} (rest rest' : Bytes) : ∀ {body : Bytes},
    indexOf sub (body ++ (sub ++ rest)) = some body.length → indexOf sub (body ++ (sub ++ rest')) = some body.length
  | [], _ => by
    rcases sub with _ | ⟨c, sub⟩
    · cases rest' <;> rfl
    · have hfront : (c :: sub).isPrefixOf (c :: sub ++ rest') = true :=
        List.isPrefixOf_iff_prefix.mpr (List.prefix_append _ _)
      rw [List.nil_append, List.cons_append, indexOf, ← List.cons_append, if_pos hfront]
      rfl
  | b :: body, h => by
    have hfront : ∀ r : Bytes, sub.isPrefixOf (b :: body ++ (sub ++ r)) = sub.isPrefixOf (b :: body ++ sub) := by
      intro r
      rw [Bool.eq_iff_iff, List.isPrefixOf_iff_prefix, List.isPrefixOf_iff_prefix, ← List.append_assoc]
      constructor
      · intro hsub
        apply List.prefix_of_prefix_length_le hsub (List.prefix_append _ r)
        rw [List.length_append]
        omega
      · intro hsub
        exact hsub.trans (List.prefix_append _ r)
    rw [List.cons_append, indexOf, ← List.cons_append, hfront] at h ⊢
    split at h
    · cases h
    · rename_i hne
      obtain ⟨e, he, hlen⟩ := Option.map_eq_some_iff.mp h
      obtain rfl : e = body.length := Nat.succ.inj hlen
      rw [if_neg hne, indexOf_tail rest rest' he]
      rfl

/-! ### Texts of one byte a rune -/

/-- A property of bytes can be checked one by one. -/
theorem forall_byte {p : UInt8 → Prop} (h : ∀ n < 256, p (UInt8.ofNat n)) (b : UInt8) : p b := by
  have hb := h b.toNat b.toNat_lt
  rwa [UInt8.ofNat_toNat] at hb

theorem mapRunes_cons {f : ℕ → ℕ} {b : UInt8} (hb : b.toNat < 128) (hf : f b.toNat < 128) (t : Bytes) :
    mapRunes f (b :: t) = UInt8.ofNat (f b.toNat) :: mapRunes f t := by
  have hdec : decodeRune (b :: t) = (b.toNat, 1) := by
    unfold decodeRune
    simp only [hb, if_true]
  rw [mapRunes, hdec]
  simp [encodeRune, hf]

theorem toLower_cons (U : CaseTable) {b : UInt8} (hb : b.toNat < 128) (t : Bytes) :
    toLower U (b :: t) = (if 65 ≤ b ∧ b ≤ 90 then b + 32 else b) :: toLower U t := by
  have hbyte : (if 65 ≤ b.toNat ∧ b.toNat ≤ 90 then b.toNat + 32 else b.toNat) < 128 ∧
      UInt8.ofNat (if 65 ≤ b.toNat ∧ b.toNat ≤ 90 then b.toNat + 32 else b.toNat) =
        if 65 ≤ b ∧ b ≤ 90 then b + 32 else b := by
    simp only [UInt8.le_iff_toNat_le, UInt8.reduceToNat]
    split
    · refine ⟨by omega, ?_⟩
      rw [← UInt8.toNat_inj, UInt8.toNat_ofNat', UInt8.toNat_add]
      rfl
    · exact ⟨hb, UInt8.ofNat_toNat⟩
  unfold toLower
  rw [mapRunes_cons hb (by rw [if_pos hb]; exact hbyte.1), if_pos hb, hbyte.2]

theorem toUpper_cons (U : CaseTable) {b : UInt8} (hb : b.toNat < 128) (t : Bytes) :
    toUpper U (b :: t) = (if 97 ≤ b ∧ b ≤ 122 then b - 32 else b) :: toUpper U t := by
  have hbyte := forall_byte (p := fun b => b.toNat < 128 →
    (if 97 ≤ b.toNat ∧ b.toNat ≤ 122 then b.toNat - 32 else b.toNat) < 128 ∧
      UInt8.ofNat (if 97 ≤ b.toNat ∧ b.toNat ≤ 122 then b.toNat - 32 else b.toNat) =
        if 97 ≤ b ∧ b ≤ 122 then b - 32 else b) (by decide +kernel) b hb
  unfold toUpper
  rw [mapRunes_cons hb (by rw [if_pos hb]; exact hbyte.1), if_pos hb, hbyte.2]

/-! ### White space -/

/-- ASCII, and not white space. -/
def stops (c : UInt8) : Bool := decide (c.toNat < 128) && !(c == 32 || (9 ≤ c && c ≤ 13))

theorem spaces_stops : ∀ w ∈ spaces, w ≠ [] ∧ ∀ b ∈ w, stops b = false := by decide +kernel

theorem not_mem_spaces {c : UInt8} (hc : stops c = true) : ∀ w ∈ spaces, w ≠ [] ∧ c ∉ w := by
  intro w hw
  obtain ⟨hne, hstops⟩ := spaces_stops w hw
  refine ⟨hne, fun hin => ?_⟩
  rw [hstops c hin] at hc
  cases hc

/-- A word at the front lies before a byte it does not have. -/
theorem isPrefixOf_append {w : Bytes} {c : UInt8} (hc : c ∉ w) (x t : Bytes) :
    w.isPrefixOf (x ++ c :: t) = w.isPrefixOf x := by
  rw [Bool.eq_iff_iff, List.isPrefixOf_iff_prefix, List.isPrefixOf_iff_prefix]
  refine ⟨fun ⟨k, hk⟩ => ?_, fun h => h.trans (List.prefix_append x _)⟩
  rcases List.append_eq_append_iff.1 hk with ⟨a, rfl, -⟩ | ⟨a, rfl, hak⟩
  · exact List.prefix_append w a
  · rcases a with _ | ⟨d, a⟩
    · exact ⟨[], by rw [List.append_nil, List.append_nil]⟩
    · obtain ⟨rfl, -⟩ := List.cons.inj hak
      simp at hc

/-- Trimming stops at a byte that is in no word. -/
theorem trimWords_append {ws : List Bytes} {c : UInt8} (hws : ∀ w ∈ ws, w ≠ [] ∧ c ∉ w) (t x : Bytes) :
    trimWords ws (x ++ c :: t) = trimWords ws x ++ c :: t := by
  have hfind : ∀ x, ws.find? (·.isPrefixOf (x ++ c :: t)) = ws.find? (·.isPrefixOf x) := by
    intro x
    exact List.find?_congr fun w hw => isPrefixOf_append (hws w hw).2 x t
  fun_induction trimWords ws x with
  | case1 =>
    have hnone : ws.find? (·.isPrefixOf (c :: t)) = none := by
      rw [← List.nil_append (c :: t), hfind, List.find?_eq_none]
      intro w hw hpre
      exact (hws w hw).1 (List.prefix_nil.1 (List.isPrefixOf_iff_prefix.1 hpre))
    rw [List.nil_append, trimWords, hnone]
  | case2 b u w hw ih =>
    have hlen : w.length - 1 ≤ u.length := by
      have hpre : w.isPrefixOf (b :: u) = true := List.find?_some (p := fun v : Bytes => v.isPrefixOf (b :: u)) hw
      have := (List.isPrefixOf_iff_prefix.1 hpre).length_le
      rw [List.length_cons] at this
      omega
    rw [List.cons_append, trimWords, ← List.cons_append, hfind, hw]
    show trimWords ws ((u ++ c :: t).drop (w.length - 1)) = _
    rw [List.drop_append_of_le_length hlen, ih]
  | case3 b u hnone =>
    rw [List.cons_append, trimWords, ← List.cons_append, hfind, hnone]

theorem find?_space {b : UInt8} (hb : b = 32 ∨ (9 ≤ b ∧ b ≤ 13)) (t : Bytes) :
    spaces.find? (·.isPrefixOf (b :: t)) = some [b] := by
  have hbyte : b ∈ [9, 10, 11, 12, 13, 32] := by
    grind
  simp only [List.mem_cons, List.not_mem_nil, or_false] at hbyte
  rcases hbyte with rfl | rfl | rfl | rfl | rfl | rfl
  all_goals rfl

/-- A blank is trimmed off. -/
theorem trimWords_space {b : UInt8} (hb : b = 32 ∨ (9 ≤ b ∧ b ≤ 13)) (t : Bytes) :
    trimWords spaces (b :: t) = trimWords spaces t := by
  rw [trimWords, find?_space hb]
  rfl

theorem trimWords_suffix (ws : List Bytes) (s : Bytes) : trimWords ws s <:+ s := by
  fun_induction trimWords ws s with
  | case1 => exact List.suffix_rfl
  | case2 b t w _ ih => exact (ih.trans (List.drop_suffix _ t)).trans (List.suffix_cons b t)
  | case3 => exact List.suffix_rfl

theorem trimSpace_start (s : Bytes) : trimSpace s <+: trimWords spaces s := by
  unfold trimSpace
  rw [← List.reverse_suffix, List.reverse_reverse]
  exact trimWords_suffix _ _

theorem trimWords_stops {c : UInt8} (hc : stops c = true) (t : Bytes) : trimWords spaces (c :: t) = c :: t := by
  have h := trimWords_append (not_mem_spaces hc) t []
  rw [List.nil_append, trimWords.eq_def spaces []] at h
  exact h

/-- The text without the white space at its end. -/
def trimEnd (s : Bytes) : Bytes := (trimWords (spaces.map List.reverse) s.reverse).reverse

theorem trimEnd_start (s : Bytes) : trimEnd s <+: s := by
  unfold trimEnd
  rw [← List.reverse_suffix, List.reverse_reverse]
  exact trimWords_suffix _ _

/-- Trimming a text keeps what lies between visible bytes. -/
theorem trimSpace_between {a b : UInt8} (ha : stops a = true) (hb : stops b = true) (x u r : Bytes) {m : Bytes}
    (hu : a :: u = m ++ [b]) : trimSpace (x ++ a :: u ++ r) = trimWords spaces x ++ a :: u ++ trimEnd r := by
  have hleft := not_mem_spaces ha
  have hright : ∀ w ∈ spaces.map List.reverse, w ≠ [] ∧ b ∉ w := by
    intro w hw
    obtain ⟨v, hv, rfl⟩ := List.mem_map.1 hw
    simpa using not_mem_spaces hb v hv
  unfold trimSpace trimEnd
  rw [List.append_assoc, List.cons_append, trimWords_append hleft, ← List.cons_append, hu]
  simp only [List.reverse_append, List.append_assoc, List.reverse_cons, List.nil_append,
    List.cons_append]
  rw [trimWords_append hright]
  simp

/-- Of what follows the visible bytes, the beginning is kept. -/
theorem trimSpace_append {a b : UInt8} (ha : stops a = true) (hb : stops b = true) (x u r : Bytes) {m : Bytes}
    (hu : a :: u = m ++ [b]) :
    ∃ r', r' <+: r ∧ trimSpace (x ++ a :: u ++ r) = trimWords spaces x ++ a :: u ++ r' :=
  ⟨trimEnd r, trimEnd_start r, trimSpace_between ha hb x u r hu⟩

example : toLower ⟨id, id⟩ (bytes "RollBACK_1") = bytes "rollback_1" := by decide +kernel
example : trimSpace (bytes " \t a b\n") = bytes "a b" := by decide +kernel

end PgShadow
