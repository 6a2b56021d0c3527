/-
# Texts as runes

What a loop over a Go string sees: its runes, an invalid byte as U+FFFD of width 1.
A byte that continues no rune starts one wherever it stands, so a text can be read in
two parts before it (`runes_append`), and an ASCII rune is a byte of the text
(`mem_of_mem_runes`).

Key definitions: `runes`, `validString`.
Key theorems: `runes_append`, `mem_of_mem_runes`, `any_runes`.
-/
import PgShadow.Go.Strings

namespace PgShadow

/-- The runes of a text. -/
def runes : Bytes → List ℕ
  | [] => []
  | b :: t => (decodeRune (b :: t)).1 :: runes (t.drop ((decodeRune (b :: t)).2 - 1))
termination_by s => s.length
decreasing_by
  simp only [List.length_drop, List.length_cons]
  omega

/-- `utf8.ValidString`. -/
def validString : Bytes → Bool
  | [] => true
  | b :: t => decodeRune (b :: t) ≠ (runeError, 1) && validString (t.drop ((decodeRune (b :: t)).2 - 1))
termination_by s => s.length
decreasing_by
  simp only [List.length_drop, List.length_cons]
  omega

/-! ### One rune -/

theorem decodeRune_ascii {b : UInt8} (hb : b.toNat < 128) (t : Bytes) : decodeRune (b :: t) = (b.toNat, 1) :=
  if_pos hb

/-- A byte that starts no rune. -/
theorem decodeRune_invalid {b : UInt8} (hb : 128 ≤ b.toNat) (hlead : b.toNat < 0xC2 ∨ 0xF5 ≤ b.toNat) (t : Bytes) :
    decodeRune (b :: t) = (runeError, 1) := by
  unfold decodeRune
  dsimp only
  rcases hlead with hlead | hlead
  · rw [if_neg (by omega), if_pos hlead]
  · rw [if_neg (by omega), if_neg (by omega), if_neg (by omega), if_neg (by omega), if_neg (by omega)]

/-- The bounds of the byte after `n`. -/
abbrev secondLo (n : ℕ) : ℕ := if n = 0xE0 then 0xA0 else if n = 0xF0 then 0x90 else 0x80

abbrev secondHi (n : ℕ) : ℕ := if n = 0xED then 0x9F else if n = 0xF4 then 0x8F else 0xBF

theorem decodeRune_two {b : UInt8} (hb : 0xC2 ≤ b.toNat) (hlead : b.toNat < 0xE0) (t : Bytes) :
    decodeRune (b :: t) =
      match t with
      | c :: _ => if isCont 0x80 0xBF c then ((b.toNat - 0xC0) * 64 + (c.toNat - 0x80), 2) else (runeError, 1)
      | _ => (runeError, 1) := by
  unfold decodeRune
  dsimp only
  rw [if_neg (by omega), if_neg (by omega), if_pos hlead]
  rfl

theorem decodeRune_three {b : UInt8} (hb : 0xE0 ≤ b.toNat) (hlead : b.toNat < 0xF0) (t : Bytes) :
    decodeRune (b :: t) =
      match t with
      | c :: d :: _ =>
        if isCont (secondLo b.toNat) (secondHi b.toNat) c && isCont 0x80 0xBF d then
          (((b.toNat - 0xE0) * 64 + (c.toNat - 0x80)) * 64 + (d.toNat - 0x80), 3)
        else (runeError, 1)
      | _ => (runeError, 1) := by
  unfold decodeRune
  dsimp only
  rw [if_neg (by omega), if_neg (by omega), if_neg (by omega), if_pos hlead]
  rfl

theorem decodeRune_four {b : UInt8} (hb : 0xF0 ≤ b.toNat) (hlead : b.toNat < 0xF5) (t : Bytes) :
    decodeRune (b :: t) =
      match t with
      | c :: d :: e :: _ =>
        if isCont (secondLo b.toNat) (secondHi b.toNat) c && isCont 0x80 0xBF d && isCont 0x80 0xBF e then
          ((((b.toNat - 0xF0) * 64 + (c.toNat - 0x80)) * 64 + (d.toNat - 0x80)) * 64 + (e.toNat - 0x80), 4)
        else (runeError, 1)
      | _ => (runeError, 1) := by
  unfold decodeRune
  dsimp only
  rw [if_neg (by omega), if_neg (by omega), if_neg (by omega), if_neg (by omega), if_pos hlead]
  rfl

/-- The kinds of a first byte. -/
theorem lead_cases (b : UInt8) : b.toNat < 128 ∨ (128 ≤ b.toNat ∧ (b.toNat < 0xC2 ∨ 0xF5 ≤ b.toNat)) ∨
    (0xC2 ≤ b.toNat ∧ b.toNat < 0xE0) ∨ (0xE0 ≤ b.toNat ∧ b.toNat < 0xF0) ∨ (0xF0 ≤ b.toNat ∧ b.toNat < 0xF5) := by
  omega

theorem le_secondLo (n : ℕ) : 0x80 ≤ secondLo n := by
  unfold secondLo
  split_ifs <;> omega

/-- The byte continues no rune. -/
def startsRune (x : UInt8) : Prop := x.toNat < 0x80 ∨ 0xC0 ≤ x.toNat

instance (x : UInt8) : Decidable (startsRune x) := inferInstanceAs (Decidable (_ ∨ _))

theorem le_secondHi (n : ℕ) : secondHi n ≤ 0xBF := by
  unfold secondHi
  split_ifs <;> omega

theorem isCont_start {lo hi : ℕ} (hlo : 0x80 ≤ lo) (hhi : hi ≤ 0xBF) {x : UInt8} (hx : startsRune x) :
    isCont lo hi x = false := by
  rw [isCont, Bool.and_eq_false_iff]
  rcases hx with hx | hx
  · exact .inl (decide_eq_false (by omega))
  · exact .inr (decide_eq_false (by omega))

theorem le_of_isCont {lo hi : ℕ} {x : UInt8} (h : isCont lo hi x = true) : lo ≤ x.toNat := by
  rw [isCont, Bool.and_eq_true] at h
  exact of_decide_eq_true h.1

/-- The rune at the front of a text is the same before the start of another as at the
end. -/
theorem decodeRune_append (b : UInt8) (t : Bytes) {x : UInt8} (hx : startsRune x) (v : Bytes) :
    decodeRune (b :: (t ++ x :: v)) = decodeRune (b :: t) := by
  have hcont := isCont_start le_rfl le_rfl hx
  have hsecond := isCont_start (le_secondLo b.toNat) (le_secondHi b.toNat) hx
  rcases lead_cases b with hb | ⟨hb, hlead⟩ | ⟨hb, hlead⟩ | ⟨hb, hlead⟩ | ⟨hb, hlead⟩
  · rw [decodeRune_ascii hb, decodeRune_ascii hb]
  · rw [decodeRune_invalid hb hlead, decodeRune_invalid hb hlead]
  · rw [decodeRune_two hb hlead, decodeRune_two hb hlead]
    rcases t with _ | ⟨c, t⟩
    · exact if_neg (by rw [hcont]; exact Bool.false_ne_true)
    · rfl
  · rw [decodeRune_three hb hlead, decodeRune_three hb hlead]
    rcases t with _ | ⟨c, _ | ⟨d, t⟩⟩
    · rcases v with _ | ⟨y, v⟩
      · rfl
      · exact if_neg (by rw [hsecond]; exact Bool.false_ne_true)
    · exact if_neg (by rw [hcont, Bool.and_false]; exact Bool.false_ne_true)
    · rfl
  · rw [decodeRune_four hb hlead, decodeRune_four hb hlead]
    rcases t with _ | ⟨c, _ | ⟨d, _ | ⟨e, t⟩⟩⟩
    · rcases v with _ | ⟨y, _ | ⟨z, v⟩⟩
      · rfl
      · rfl
      · exact if_neg (by rw [hsecond]; exact Bool.false_ne_true)
    · rcases v with _ | ⟨y, v⟩
      · rfl
      · exact if_neg (by rw [hcont, Bool.and_false, Bool.false_and]; exact Bool.false_ne_true)
    · exact if_neg (by rw [hcont, Bool.and_false]; exact Bool.false_ne_true)
    · rfl

/-- What there can be at the front of a text: an ASCII rune, no rune, or a rune of
several bytes, which are all beyond ASCII. -/
inductive Decoded (b : UInt8) : Bytes → ℕ × ℕ → Prop
  | ascii (t : Bytes) (hb : b.toNat < 128) : Decoded b t (b.toNat, 1)
  | invalid (t : Bytes) : Decoded b t (runeError, 1)
  | two {r : ℕ} {c : UInt8} (t : Bytes) (hr : 128 ≤ r) (hc : 128 ≤ c.toNat) : Decoded b (c :: t) (r, 2)
  | three {r : ℕ} {c d : UInt8} (t : Bytes) (hr : 128 ≤ r) (hc : 128 ≤ c.toNat) (hd : 128 ≤ d.toNat) :
      Decoded b (c :: d :: t) (r, 3)
  | four {r : ℕ} {c d e : UInt8} (t : Bytes) (hr : 128 ≤ r) (hc : 128 ≤ c.toNat) (hd : 128 ≤ d.toNat)
      (he : 128 ≤ e.toNat) : Decoded b (c :: d :: e :: t) (r, 4)

theorem decoded (b : UInt8) (t : Bytes) : Decoded b t (decodeRune (b :: t)) := by
  rcases lead_cases b with hb | ⟨hb, hlead⟩ | ⟨hb, hlead⟩ | ⟨hb, hlead⟩ | ⟨hb, hlead⟩
  · rw [decodeRune_ascii hb]
    exact .ascii t hb
  · rw [decodeRune_invalid hb hlead]
    exact .invalid t
  · rw [decodeRune_two hb hlead]
    rcases t with _ | ⟨c, t⟩
    · exact .invalid _
    · dsimp only
      split
      · exact .two t (by omega) (le_of_isCont ‹_›)
      · exact .invalid _
  · rw [decodeRune_three hb hlead]
    rcases t with _ | ⟨c, _ | ⟨d, t⟩⟩
    · exact .invalid _
    · exact .invalid _
    · dsimp only
      split
      · rename_i hcont
        rw [Bool.and_eq_true] at hcont
        have hc := le_of_isCont hcont.1
        refine .three t ?_ ((le_secondLo _).trans hc) (le_of_isCont hcont.2)
        unfold secondLo at hc
        split at hc <;> omega
      · exact .invalid _
  · rw [decodeRune_four hb hlead]
    rcases t with _ | ⟨c, _ | ⟨d, _ | ⟨e, t⟩⟩⟩
    · exact .invalid _
    · exact .invalid _
    · exact .invalid _
    · dsimp only
      split
      · rename_i hcont
        rw [Bool.and_eq_true, Bool.and_eq_true] at hcont
        have hc := le_of_isCont hcont.1.1
        refine .four t ?_ ((le_secondLo _).trans hc) (le_of_isCont hcont.1.2) (le_of_isCont hcont.2)
        unfold secondLo at hc
        split_ifs at hc <;> omega
      · exact .invalid _

/-- A rune is within the text, and of several bytes only if it is beyond ASCII. -/
theorem decodeRune_bounds (b : UInt8) (t : Bytes) :
    (decodeRune (b :: t)).2 ≤ t.length + 1 ∧ (128 ≤ b.toNat → 128 ≤ (decodeRune (b :: t)).1) := by
  have h := decoded b t
  generalize decodeRune (b :: t) = p at h ⊢
  cases h with
  | ascii _ hb => exact ⟨by omega, fun h => h⟩
  | invalid => exact ⟨by omega, fun _ => by decide⟩
  | two t hr => exact ⟨by rw [List.length_cons]; omega, fun _ => hr⟩
  | three t hr => exact ⟨by rw [List.length_cons, List.length_cons]; omega, fun _ => hr⟩
  | four t hr => exact ⟨by rw [List.length_cons, List.length_cons, List.length_cons]; omega, fun _ => hr⟩

theorem decodeRune_pos (b : UInt8) (t : Bytes) : 0 < (decodeRune (b :: t)).2 := by
  have h := decoded b t
  generalize decodeRune (b :: t) = p at h ⊢
  cases h <;> exact Nat.succ_pos _

/-- The bytes of a rune after its first one are not ASCII. -/
theorem decodeRune_tail (b : UInt8) (t : Bytes) : ∀ x ∈ t.take ((decodeRune (b :: t)).2 - 1), 128 ≤ x.toNat := by
  have h := decoded b t
  generalize decodeRune (b :: t) = p at h ⊢
  cases h with
  | ascii => simp
  | invalid => simp
  | two t _ hc => simpa using hc
  | three t _ hc hd => simpa using ⟨hc, hd⟩
  | four t _ hc hd he => simpa using ⟨hc, hd, he⟩

/-! ### All runes -/

theorem runes_ascii {b : UInt8} (hb : b.toNat < 128) (t : Bytes) : runes (b :: t) = b.toNat :: runes t := by
  rw [runes, decodeRune_ascii hb]
  rfl

theorem runes_ascii_append (v : Bytes) : ∀ {u : Bytes}, (∀ b ∈ u, b.toNat < 128) →
    runes (u ++ v) = u.map UInt8.toNat ++ runes v
  | [], _ => rfl
  | b :: u, h => by
    obtain ⟨hb, hu⟩ := List.forall_mem_cons.mp h
    rw [List.cons_append, runes_ascii hb, runes_ascii_append v hu]
    rfl

/-- A text is read in two parts before a byte that starts a rune. -/
theorem runes_append {x : UInt8} (hx : startsRune x) (v u : Bytes) :
    runes (u ++ x :: v) = runes u ++ runes (x :: v) := by
  fun_induction runes u with
  | case1 => rfl
  | case2 b t ih =>
    have hwidth := (decodeRune_bounds b t).1
    rw [List.cons_append, runes, decodeRune_append b t hx, List.drop_append_of_le_length (by omega), ih]
    rfl

/-- An ASCII rune is a byte of the text. -/
theorem mem_of_mem_runes {r : ℕ} (hr : r < 128) (s : Bytes) (h : r ∈ runes s) : ∃ b ∈ s, b.toNat = r := by
  fun_induction runes s with
  | case1 => cases h
  | case2 b t ih =>
    rcases List.mem_cons.mp h with rfl | h
    · have hb : b.toNat < 128 := by
        by_contra hb
        exact absurd ((decodeRune_bounds b t).2 (by omega)) (by omega)
      exact ⟨b, List.mem_cons_self, by rw [decodeRune_ascii hb]⟩
    · obtain ⟨c, hc, hcr⟩ := ih h
      exact ⟨c, List.mem_cons_of_mem b (List.mem_of_mem_drop hc), hcr⟩

/-- A loop over a text that looks for ASCII characters finds them where they are bytes. -/
theorem any_runes {p : ℕ → Bool} (hp : ∀ r, p r = true → r < 128) (s : Bytes) :
    (runes s).any p = s.any fun b => p b.toNat := by
  rw [Bool.eq_iff_iff, List.any_eq_true, List.any_eq_true]
  constructor
  · intro ⟨r, hr, hpr⟩
    obtain ⟨b, hb, rfl⟩ := mem_of_mem_runes (hp r hpr) s hr
    exact ⟨b, hb, hpr⟩
  · intro ⟨b, hb, hpb⟩
    obtain ⟨u, v, rfl⟩ := List.append_of_mem hb
    refine ⟨b.toNat, ?_, hpb⟩
    rw [runes_append (.inl (hp _ hpb)), runes_ascii (hp _ hpb)]
    exact List.mem_append_right _ List.mem_cons_self

end PgShadow
