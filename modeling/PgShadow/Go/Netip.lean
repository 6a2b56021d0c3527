/-
# The key of a connection

`ConnID.Key` of `pkg/core/types.go`, with the text form of an address that Go's
`net/netip` gives it: dotted decimal, or hexadecimal groups with the first
longest run of zero groups left out.
-/
import Mathlib.Algebra.Order.Group.Nat
import PgShadow.Core

namespace PgShadow

/-- `strconv.FormatUint(n, base)`. -/
def formatUint (base n : ℕ) : Bytes := (Nat.toDigits base n).map chr

theorem digit_of_mem_formatUint {n : ℕ} {b : UInt8} (h : b ∈ formatUint 10 n) : 48 ≤ b.toNat ∧ b.toNat ≤ 57 := by
  obtain ⟨c, hc, rfl⟩ := List.mem_map.mp h
  have hdigit := Nat.isDigit_of_mem_toDigits (by decide) (by decide) hc
  simp only [Char.isDigit, Bool.and_eq_true, decide_eq_true_eq, ge_iff_le, UInt32.le_iff_toNat_le] at hdigit
  have hlow : 48 ≤ c.toNat := hdigit.1
  have hhigh : c.toNat ≤ 57 := hdigit.2
  rw [chr, UInt8.toNat_ofNat']
  omega

/-- The items with `sep` in between. -/
def joinWith (sep : Bytes) : List Bytes → Bytes
  | [] => []
  | [x] => x
  | x :: xs => x ++ sep ++ joinWith sep xs

namespace Addr

/-- Dotted decimal. -/
def string4 (a : ℕ) : Bytes :=
  joinWith (bytes ".") ([24, 16, 8, 0].map fun k => formatUint 10 (a / 2 ^ k % 256))

/-- The eight groups of an IPv6 address. -/
def groups (a : ℕ) : List ℕ := [112, 96, 80, 64, 48, 32, 16, 0].map fun k => a / 2 ^ k % 65536

/-- The bounds of the first longest run of at least two zero groups. -/
def zeroRun (gs : List ℕ) : Option (ℕ × ℕ) :=
  (List.range gs.length).foldl (fun best i =>
    let l := ((gs.drop i).takeWhile (· = 0)).length
    if 2 ≤ l ∧ best.elim 0 (fun b => b.2 - b.1) < l then some (i, i + l) else best) none

/-- Groups with `::` for the run. -/
def string6 (a : ℕ) : Bytes :=
  let gs := groups a
  let hex (l : List ℕ) : Bytes := joinWith (bytes ":") (l.map (formatUint 16))
  match zeroRun gs with
  | none => hex gs
  | some (i, j) => hex (gs.take i) ++ bytes "::" ++ hex (gs.drop j)

/-- `Addr.String`. -/
def string : Addr → Bytes
  | .zero => bytes "invalid IP"
  | .v4 a => string4 a.toNat
  | .v6 a zone =>
    let text := if a.toNat / 2 ^ 32 = 0xffff then bytes "::ffff:" ++ string4 (a.toNat % 2 ^ 32) else string6 a.toNat
    if zone = [] then text else text ++ bytes "%" ++ zone

end Addr

/-- `ConnID.Key`. -/
def ConnID.key (c : ConnID) : Bytes :=
  c.srcIP.string ++ bytes ":" ++ formatUint 10 c.srcPort.toNat ++ bytes "-" ++ c.dstIP.string ++ bytes ":" ++
    formatUint 10 c.dstPort.toNat

example : (ConnID.mk (.v4 0x0a000001) 50000 (.v6 0x20010db8000000000000000000000001 []) 5432).key =
    bytes "10.0.0.1:50000-2001:db8::1:5432" := by decide +kernel

end PgShadow
