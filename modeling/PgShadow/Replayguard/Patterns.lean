/-
# What the patterns match

The words of the expressions that `New` compiles, as they stand in a text. A name is
spelled in any case, and a `k` or an `s` of it also as the Kelvin sign or the long s
(`Spelled`). A boundary stands between a word rune and something else (`Edge`).

Key definitions: `Spelled`, `Edge`.
Key theorems: `spells_text`, `seq_boundary_iff`, `edge_spelled_iff`.
-/
import PgShadow.Replayguard.New

namespace PgShadow

/-! ### Texts without assertions -/

/-- The runes of the keyword, in any case. -/
def Spelled (k : String) (w : List ℕ) : Prop := List.Forall₂ (fun c x => sameLetter c.toNat x = true) k.toList w

/-- A word that folds to the letters of a keyword, with what folding says of each byte. -/
theorem spelled_of_map {fold : UInt8 → UInt8} {letter : Char → UInt8} {P : UInt8 → Prop} :
    ∀ {cs : List Char} {w : Bytes},
      (∀ c ∈ cs, ∀ b, fold b = letter c → P b ∧ sameLetter c.toNat b.toNat = true) → w.map fold = cs.map letter →
      (∀ b ∈ w, P b) ∧ List.Forall₂ (fun c x => sameLetter c.toNat x = true) cs (w.map UInt8.toNat)
  | [], [], _, _ => ⟨by simp, .nil⟩
  | [], _ :: _, _, h => by cases h
  | _ :: _, [], _, h => by cases h
  | c :: cs, b :: w, hcs, h => by
    obtain ⟨hc, hcs⟩ := List.forall_mem_cons.mp hcs
    obtain ⟨hhead, htail⟩ := List.cons.inj h
    obtain ⟨hb, hletter⟩ := hc b hhead
    obtain ⟨hw, hspelled⟩ := spelled_of_map hcs htail
    exact ⟨List.forall_mem_cons.mpr ⟨hb, hw⟩, .cons hletter hspelled⟩

section Spells

open Regex Pattern

theorem spells_rune {r : Regex ℕ} {L : List ℕ → Prop} (c : Char) (hr : Spells r L) :
    Spells (.seq (rune c) r) fun w => ∃ v, w = c.toNat :: v ∧ L v := by
  intro b w a
  refine ((Spells.sym (· == c.toNat)).seq hr b w a).trans ?_
  constructor
  · rintro ⟨u, v, rfl, ⟨x, hx, rfl⟩, hv⟩
    exact ⟨v, by rw [eq_of_beq hx]; rfl, hv⟩
  · rintro ⟨v, rfl, hv⟩
    exact ⟨[c.toNat], v, rfl, ⟨c.toNat, beq_self_eq_true _, rfl⟩, hv⟩

theorem spells_blanks : Spells blanks fun w => ∀ x ∈ w, isBlankRune x = true := Spells.star_sym _ _

theorem spells_text (k : String) : Spells (text k) (Spelled k) := by
  intro b w a
  refine (Spells.word (k.toList.map fun c : Char => sameLetter c.toNat) b w a).trans ?_
  exact List.forall₂_map_left_iff

/-- One rune of a kind or more. -/
theorem spells_plus (p : ℕ → Bool) : Spells (plus (.sym p)) fun w => w ≠ [] ∧ ∀ x ∈ w, p x = true := by
  intro b w a
  refine ((Spells.sym p).seq (Spells.star_sym p true) b w a).trans ?_
  constructor
  · rintro ⟨_, v, rfl, ⟨x, hx, rfl⟩, hv⟩
    exact ⟨List.cons_ne_nil x v, List.forall_mem_cons.mpr ⟨hx, hv⟩⟩
  · rintro ⟨hne, hw⟩
    obtain ⟨x, v, rfl⟩ := List.exists_cons_of_ne_nil hne
    obtain ⟨hx, hv⟩ := List.forall_mem_cons.mp hw
    exact ⟨[x], v, rfl, ⟨x, hx, rfl⟩, hv⟩

end Spells

/-! ### Boundaries -/

/-- A word rune. -/
def isWord (x : Option ℕ) : Bool := x.any isWordRune

/-- One of the runes is a word rune, the other one is not. -/
def Edge (x y : Option ℕ) : Prop := isWord x ≠ isWord y

/-- The runes are blanks. -/
def Blanks (w : List ℕ) : Prop := ∀ x ∈ w, isBlankRune x = true

theorem boundary_matches_iff (b w a : List ℕ) : Pattern.boundary.Matches b w a ↔ w = [] ∧ Edge b.head? a.head? := by
  show (w = [] ∧ (b.head?.any isWordRune != a.head?.any isWordRune) = true) ↔ _
  rw [bne_iff_ne]
  rfl

theorem seq_boundary_iff (r : Regex ℕ) (b w a : List ℕ) :
    (Regex.seq Pattern.boundary r).Matches b w a ↔ Edge b.head? (w ++ a).head? ∧ r.Matches b w a := by
  constructor
  · rintro ⟨u, v, rfl, hu, hv⟩
    obtain ⟨rfl, hedge⟩ := (boundary_matches_iff _ _ _).mp hu
    exact ⟨hedge, hv⟩
  · rintro ⟨hedge, hw⟩
    exact ⟨[], w, rfl, (boundary_matches_iff _ _ _).mpr ⟨rfl, hedge⟩, hw⟩

/-- The first letter of the name has no spelling beyond ASCII. -/
def startsPlain (name : String) : Bool :=
  name.toList.head?.any fun c => 97 ≤ c.toNat && c.toNat ≤ 122 && c.toNat != 107 && c.toNat != 115

theorem sameLetter_word {c x : ℕ} (hc : 97 ≤ c ∧ c ≤ 122 ∧ c ≠ 107 ∧ c ≠ 115) (h : sameLetter c x = true) :
    isWordRune x = true := by
  rw [sameLetter, if_neg (by omega)] at h
  simp only [Bool.or_eq_true, Bool.and_eq_true, beq_iff_eq, decide_eq_true_eq] at h
  simp only [isWordRune, Bool.or_eq_true, Bool.and_eq_true, beq_iff_eq, decide_eq_true_eq]
  omega

/-- Such a name starts with a word rune, however it is spelled. -/
theorem isWord_of_spelled {name : String} (hname : startsPlain name = true) {n : List ℕ} (hn : Spelled name n)
    (v : List ℕ) : isWord (n ++ v).head? = true := by
  rw [startsPlain] at hname
  rw [Spelled] at hn
  rcases hcs : name.toList with _ | ⟨c, cs⟩
  · rw [hcs] at hname
    cases hname
  · rw [hcs] at hname hn
    rcases hn with _ | ⟨hx, -⟩
    simp only [List.head?_cons, Option.any_some, Bool.and_eq_true, decide_eq_true_eq, bne_iff_ne] at hname
    exact sameLetter_word ⟨hname.1.1.1, hname.1.1.2, hname.1.2, hname.2⟩ hx

/-- A boundary before such a name: no word rune comes before it. -/
theorem edge_spelled_iff {name : String} (hname : startsPlain name = true) {n : List ℕ} (hn : Spelled name n)
    (x : Option ℕ) (v : List ℕ) : Edge x (n ++ v).head? ↔ isWord x = false := by
  rw [Edge, isWord_of_spelled hname hn v, ne_eq, Bool.not_eq_true]

end PgShadow
