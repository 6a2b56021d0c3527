/-
# Big-endian words

`toBytes w n` writes `n` in `w` bytes, most significant first, and `ofBytes`
reads a byte list back (`ofBytes_toBytes`). A leading byte bounds the word from
below (`le_ofBytes_cons`), the length from above (`ofBytes_lt`).
-/
import Mathlib.Data.List.Induction
import Mathlib.Algebra.Order.Group.Nat
import Mathlib.Tactic.Ring

namespace BigEndian

/-- The number a byte list spells, most significant byte first. -/
def ofBytes (bs : List UInt8) : ℕ := bs.foldl (fun n b => n * 256 + b.toNat) 0

/-- The low `w` bytes of `n`, most significant first. -/
def toBytes : ℕ → ℕ → List UInt8
  | 0, _ => []
  | w + 1, n => toBytes w (n / 256) ++ [UInt8.ofNat n]

@[simp] theorem ofBytes_nil : ofBytes [] = 0 := rfl

theorem ofBytes_concat (bs : List UInt8) (b : UInt8) : ofBytes (bs ++ [b]) = ofBytes bs * 256 + b.toNat := by
  simp [ofBytes, List.foldl_append]

@[simp] theorem length_toBytes : ∀ w n, (toBytes w n).length = w
  | 0, _ => rfl
  | w + 1, n => by simp [toBytes, length_toBytes w]

theorem ofBytes_toBytes : ∀ w n, n < 256 ^ w → ofBytes (toBytes w n) = n
  | 0, n, h => by simp only [pow_zero, Nat.lt_one_iff] at h; simp [toBytes, h]
  | w + 1, n, h => by
    have hq : n / 256 < 256 ^ w := Nat.div_lt_of_lt_mul (by rw [pow_succ] at h; omega)
    rw [toBytes, ofBytes_concat, ofBytes_toBytes w _ hq, UInt8.toNat_ofNat']
    omega

/-- A leading byte weighs as much as all the bytes after it leave room for. -/
theorem ofBytes_cons (b : UInt8) (bs : List UInt8) :
    ofBytes (b :: bs) = b.toNat * 256 ^ bs.length + ofBytes bs := by
  induction bs using List.reverseRecOn with
  | nil => simp [ofBytes]
  | append_singleton bs c ih =>
    rw [← List.cons_append, ofBytes_concat, ih, ofBytes_concat, List.length_append, List.length_singleton,
      pow_succ]
    ring

theorem le_ofBytes_cons (b : UInt8) (bs : List UInt8) :
    b.toNat * 256 ^ bs.length ≤ ofBytes (b :: bs) := by
  rw [ofBytes_cons]
  exact Nat.le_add_right _ _

theorem ofBytes_lt : ∀ bs : List UInt8, ofBytes bs < 256 ^ bs.length
  | [] => Nat.one_pos
  | b :: bs => by
    have hb : b.toNat + 1 ≤ 256 := b.toNat_lt
    calc ofBytes (b :: bs) < b.toNat * 256 ^ bs.length + 256 ^ bs.length := by
          rw [ofBytes_cons]
          exact Nat.add_lt_add_left (ofBytes_lt bs) _
      _ = (b.toNat + 1) * 256 ^ bs.length := by ring
      _ ≤ 256 * 256 ^ bs.length := Nat.mul_le_mul_right _ hb
      _ = 256 ^ (b :: bs).length := by rw [List.length_cons, pow_succ]; ring

end BigEndian
