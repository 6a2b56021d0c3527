/-
# Incremental decoders

A decoder looks at the front of a buffer in some phase and answers one of
three things: an item, its length and the phase to go on in; wait for more;
or the front can never be decoded. It is incremental when neither an item nor
a refusal depends on what follows (`Decoder.item_local`, `Decoder.bad_append`).

Then `drain`, which takes items until the decoder stops, commutes with
appending (`drain_append`): a machine that keeps the undecoded rest between
chunks decodes a stream alike however it is cut. What it decodes from an
encoding is what was encoded (`drain_spells`).

Key definitions: `Decoder`, `Decoder.drain`, `Decoder.Spells`.
Key theorems: `drain_append`, `drain_spells`, `exists_spells`.
-/
import Mathlib.Data.List.Basic
import Mathlib.Order.MinMax

namespace StreamDecoder

/-- What a decoder makes of the front of a buffer. -/
inductive Verdict (φ μ ε : Type*)
  | item (m : μ) (next : φ) (len : ℕ)
  | more
  | bad (e : ε)

/-- A decoder of items `μ` from symbols `α`, in phases `φ`. -/
structure Decoder (α φ μ ε : Type*) where
  front : φ → List α → Verdict φ μ ε
  item_len : ∀ {p buf m q n}, front p buf = .item m q n → 0 < n ∧ n ≤ buf.length
  item_local : ∀ {p buf m q n}, front p buf = .item m q n → ∀ t, front p (buf.take n ++ t) = .item m q n
  bad_append : ∀ {p buf e}, front p buf = .bad e → ∀ t, front p (buf ++ t) = .bad e

/-- What is left when the decoder stops: the items taken, the phase reached,
the undecoded rest, and the refusal if it was one. -/
structure Out (α φ μ ε : Type*) where
  items : List μ
  phase : φ
  rest : List α
  err : Option ε

namespace Decoder

variable {α φ μ ε : Type*} (D : Decoder α φ μ ε)

/-- Take items off the front until the decoder waits or refuses. -/
def drain (p : φ) (buf : List α) : Out α φ μ ε :=
  match _h : D.front p buf with
  | .item m q n =>
    let r := drain q (buf.drop n)
    { r with items := m :: r.items }
  | .more => ⟨[], p, buf, none⟩
  | .bad e => ⟨[], p, buf, some e⟩
termination_by buf.length
decreasing_by
  have := D.item_len ‹_›
  simp only [List.length_drop]
  omega

variable {D}

theorem drain_item {p q : φ} {buf : List α} {m : μ} {n : ℕ} (h : D.front p buf = .item m q n) :
    D.drain p buf = { D.drain q (buf.drop n) with items := m :: (D.drain q (buf.drop n)).items } := by
  rw [drain]
  split <;> simp_all

theorem drain_more {p : φ} {buf : List α} (h : D.front p buf = .more) :
    D.drain p buf = ⟨[], p, buf, none⟩ := by
  rw [drain]
  split <;> simp_all

theorem drain_bad {p : φ} {buf : List α} {e : ε} (h : D.front p buf = .bad e) :
    D.drain p buf = ⟨[], p, buf, some e⟩ := by
  rw [drain]
  split <;> simp_all

theorem item_append {p q : φ} {buf : List α} {m : μ} {n : ℕ} (h : D.front p buf = .item m q n)
    (t : List α) : D.front p (buf ++ t) = .item m q n := by
  have := D.item_local h (buf.drop n ++ t)
  rwa [← List.append_assoc, List.take_append_drop] at this

/-- Induction along `drain`: one case for each verdict. -/
theorem drain_induction {motive : φ → List α → Prop}
    (item : ∀ p buf m q n, D.front p buf = .item m q n → motive q (buf.drop n) → motive p buf)
    (more : ∀ p buf, D.front p buf = .more → motive p buf)
    (bad : ∀ p buf e, D.front p buf = .bad e → motive p buf) (p : φ) (buf : List α) :
    motive p buf := by
  induction hn : buf.length using Nat.strongRecOn generalizing p buf with
  | ind k ih =>
    subst hn
    cases h : D.front p buf with
    | item m q n =>
      have hlen := D.item_len h
      exact item p buf m q n h (ih _ (by simp only [List.length_drop]; omega) q (buf.drop n) rfl)
    | more => exact more p buf h
    | bad e => exact bad p buf e h

/-- **Draining a concatenation**: the items of the first part, then those of
its rest joined with the second. -/
theorem drain_append (p : φ) (a b : List α) :
    D.drain p (a ++ b) =
      { D.drain (D.drain p a).phase ((D.drain p a).rest ++ b) with
        items := (D.drain p a).items ++ (D.drain (D.drain p a).phase ((D.drain p a).rest ++ b)).items } := by
  induction p, a using drain_induction (D := D) with
  | item p buf m q n h ih =>
    have hdrop : (buf ++ b).drop n = buf.drop n ++ b :=
      List.drop_append_of_le_length (D.item_len h).2
    rw [drain_item (item_append h b), hdrop, ih, drain_item h]
    rfl
  | more p buf h => rw [drain_more h]; rfl
  | bad p buf e h => rw [drain_bad h]; rfl

/-- Where `drain` stops without a refusal, the decoder waits. -/
theorem front_rest (p : φ) (buf : List α) (h : (D.drain p buf).err = none) :
    D.front (D.drain p buf).phase (D.drain p buf).rest = .more := by
  induction p, buf using drain_induction (D := D) with
  | item p buf m q n hf ih =>
    rw [drain_item hf] at h ⊢
    exact ih h
  | more p buf hf => rw [drain_more hf]; exact hf
  | bad p buf e hf => rw [drain_bad hf] at h; cases h

theorem front_err (p : φ) (buf : List α) {e : ε} (h : (D.drain p buf).err = some e) :
    D.front (D.drain p buf).phase (D.drain p buf).rest = .bad e := by
  induction p, buf using drain_induction (D := D) with
  | item p buf m q n hf ih =>
    rw [drain_item hf] at h ⊢
    exact ih h
  | more p buf hf => rw [drain_more hf] at h; cases h
  | bad p buf e' hf =>
    rw [drain_bad hf] at h ⊢
    simp only [Option.some.injEq] at h
    rw [hf, h]

/-- What `drain` leaves has no item at its front. -/
theorem drain_rest (p : φ) (buf : List α) :
    D.drain (D.drain p buf).phase (D.drain p buf).rest = { D.drain p buf with items := [] } := by
  cases h : (D.drain p buf).err with
  | none => rw [drain_more (front_rest p buf h), ← h]
  | some e => rw [drain_bad (front_err p buf h), ← h]

/-- A refusal stands, whatever follows. -/
theorem drain_append_err {p : φ} {a : List α} {e : ε} (h : (D.drain p a).err = some e) (b : List α) :
    D.drain p (a ++ b) =
      ⟨(D.drain p a).items, (D.drain p a).phase, (D.drain p a).rest ++ b, some e⟩ := by
  rw [drain_append, drain_bad (D.bad_append (front_err p a h) b)]
  simp

theorem err_none_of_append {p : φ} {a b : List α} (h : (D.drain p (a ++ b)).err = none) :
    (D.drain p a).err = none := by
  cases he : (D.drain p a).err with
  | none => rfl
  | some e => rw [drain_append_err he] at h; cases h

theorem rest_length_le (p : φ) (buf : List α) : (D.drain p buf).rest.length ≤ buf.length := by
  induction p, buf using drain_induction (D := D) with
  | item p buf m q n h ih =>
    rw [drain_item h]
    simp only [List.length_drop] at ih
    exact le_trans ih (by omega)
  | more p buf h => exact (congrArg (·.rest.length) (drain_more h)).le
  | bad p buf e h => exact (congrArg (·.rest.length) (drain_bad h)).le

/-- If the part in hand held no item, the first item taken ends in the new
part, so less than the new part is left. -/
theorem rest_length_lt {p : φ} {a b : List α} (ha : (D.drain p a).items = [])
    (hab : (D.drain p (a ++ b)).items ≠ []) : (D.drain p (a ++ b)).rest.length < b.length := by
  cases h : D.front p (a ++ b) with
  | more => rw [drain_more h] at hab; exact absurd rfl hab
  | bad e => rw [drain_bad h] at hab; exact absurd rfl hab
  | item m q n =>
    have hn := D.item_len h
    have hlt : a.length < n := by
      by_contra hle
      have hloc := D.item_local h (a.drop n)
      rw [List.take_append_of_le_length (by omega), List.take_append_drop] at hloc
      rw [drain_item hloc] at ha
      cases ha
    rw [drain_item h]
    refine lt_of_le_of_lt (rest_length_le q _) ?_
    simp only [List.length_drop, List.length_append] at hn ⊢
    omega

/-! ### Encodings -/

variable (D) in
/-- From phase `p`, the symbols `bs` spell the items `ms` and lead to `q`. -/
inductive Spells : φ → List α → List μ → φ → Prop
  | nil (p : φ) : Spells p [] [] p
  | cons {p q r : φ} {b bs : List α} {m : μ} {ms : List μ} :
      (∀ t, D.front p (b ++ t) = .item m q b.length) → Spells q bs ms r → Spells p (b ++ bs) (m :: ms) r

theorem Spells.append {p q r : φ} {a b : List α} {ms ns : List μ} (h : D.Spells p a ms q)
    (h' : D.Spells q b ns r) : D.Spells p (a ++ b) (ms ++ ns) r := by
  induction h with
  | nil p => exact h'
  | cons hb _ ih => rw [List.append_assoc]; exact .cons hb (ih h')

/-- **Decoding inverts encoding**: the spelled items come off, then what
follows is drained. -/
theorem drain_spells {p q : φ} {bs : List α} {ms : List μ} (h : D.Spells p bs ms q) (t : List α) :
    D.drain p (bs ++ t) = { D.drain q t with items := ms ++ (D.drain q t).items } := by
  induction h with
  | nil p => rfl
  | @cons p q r b bs m ms hb _ ih =>
    have hf := hb (bs ++ t)
    rw [List.append_assoc, drain_item hf, List.drop_left, ih]
    rfl

/-- What is taken off a buffer spells the items taken. -/
theorem exists_spells (p : φ) (buf : List α) :
    ∃ bs, buf = bs ++ (D.drain p buf).rest ∧ D.Spells p bs (D.drain p buf).items (D.drain p buf).phase := by
  induction p, buf using drain_induction (D := D) with
  | item p buf m q n h ih =>
    obtain ⟨bs, hb, hs⟩ := ih
    rw [drain_item h]
    refine ⟨buf.take n ++ bs, ?_, .cons (fun t => ?_) hs⟩
    · rw [List.append_assoc, ← hb, List.take_append_drop]
    · rw [D.item_local h t, List.length_take, min_eq_left (D.item_len h).2]
  | more p buf h => rw [drain_more h]; exact ⟨[], rfl, .nil p⟩
  | bad p buf e h => rw [drain_bad h]; exact ⟨[], rfl, .nil p⟩

end Decoder
end StreamDecoder
