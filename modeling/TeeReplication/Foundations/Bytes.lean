import Mathlib.Data.List.Basic
import Mathlib.Tactic.Positivity

/-!
# Fixed-width little-endian numerals

A fixed number of base-256 digits represents a natural number modulo a power of
256. Two's-complement integers of a given width are read through the balanced
residue of the same number.
-/

namespace TeeReplication.Bytes

/-- The `width` low base-256 digits of `n`, least significant byte first. -/
def leBytes : ℕ → ℕ → List UInt8
  | 0, _ => []
  | width + 1, n => UInt8.ofNat (n % 256) :: leBytes width (n / 256)

/-- The number whose base-256 digits, least significant first, are the given bytes. -/
def ofLeBytes : List UInt8 → ℕ
  | [] => 0
  | b :: bs => b.toNat + 256 * ofLeBytes bs

/-- A numeral has exactly the requested number of digits. -/
@[simp] theorem leBytes_length (width n : ℕ) : (leBytes width n).length = width := by
  induction width generalizing n with
  | zero => rfl
  | succ width ih => simp [leBytes, ih]

/-- Reading the digits of `n` gives back `n` reduced to the numeral's range. -/
theorem ofLeBytes_leBytes (width n : ℕ) : ofLeBytes (leBytes width n) = n % 256 ^ width := by
  induction width generalizing n with
  | zero => simp [leBytes, ofLeBytes, Nat.mod_one]
  | succ width ih =>
    have hdigit : (UInt8.ofNat (n % 256)).toNat = n % 256 := by simp
    rw [leBytes, ofLeBytes, hdigit, ih, pow_succ, Nat.mul_comm (256 ^ width) 256, Nat.mod_mul]

/-- The two's-complement reading of a numeral of `width` bytes. -/
def ofLeBytesSigned (bs : List UInt8) : ℤ := (ofLeBytes bs : ℤ).bmod (256 ^ bs.length)

/-- The two's-complement digits of an integer: those of its residue modulo `256 ^ width`. -/
def leBytesSigned (width : ℕ) (x : ℤ) : List UInt8 := leBytes width (x % 256 ^ width).toNat

/-- A two's-complement numeral has exactly the requested number of digits. -/
@[simp] theorem leBytesSigned_length (width : ℕ) (x : ℤ) :
    (leBytesSigned width x).length = width := leBytes_length _ _

/-- Reading the two's-complement digits of `x` gives the balanced residue of `x`. -/
theorem ofLeBytesSigned_leBytesSigned (width : ℕ) (x : ℤ) :
    ofLeBytesSigned (leBytesSigned width x) = x.bmod (256 ^ width) := by
  have hpos : (0 : ℤ) < 256 ^ width := by positivity
  have hnonneg : 0 ≤ x % 256 ^ width := Int.emod_nonneg _ hpos.ne'
  have hvalue : ((ofLeBytes (leBytesSigned width x) : ℕ) : ℤ) = x % 256 ^ width := by
    rw [leBytesSigned, ofLeBytes_leBytes, Int.natCast_mod, Int.toNat_of_nonneg hnonneg]
    push_cast
    exact Int.emod_emod_of_dvd _ dvd_rfl
  have hcast : ((256 ^ width : ℕ) : ℤ) = 256 ^ width := by push_cast; rfl
  rw [ofLeBytesSigned, hvalue, leBytesSigned_length, ← hcast]
  exact Int.emod_bmod _ _

/-- An integer already inside the balanced range is its own reading. -/
theorem ofLeBytesSigned_leBytesSigned_of_mem {width : ℕ} {x : ℤ}
    (hlo : -(256 ^ width : ℤ) ≤ 2 * x) (hhi : 2 * x < 256 ^ width) :
    ofLeBytesSigned (leBytesSigned width x) = x := by
  have hcast : ((256 ^ width : ℕ) : ℤ) = 256 ^ width := by push_cast; rfl
  rw [ofLeBytesSigned_leBytesSigned]
  apply Int.bmod_eq_of_le_mul_two <;> omega

end TeeReplication.Bytes
