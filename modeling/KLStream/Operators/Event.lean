import KLStream.Operators.Source
import Mathlib.Algebra.Order.Field.Rat
import Mathlib.Tactic.NormNum

/-!
# Operators/Event — `Event`, its `Payload`, and the `double`s it carries

An `Event` is a `Payload` — `std::variant<std::monostate, std::int64_t, double, std::string, Blob>`
— and an `EventMetadata` (`event.hpp`). A `double` is its IEEE-754 binary64 word (`Double`); the
operators read one only through `static_cast<std::int64_t>` (`Double.truncInt64`: truncation toward
zero, undefined outside `std::int64_t`), through `static_cast<double>` of an integer
(`Double.ofInt`: the nearest `double`, ties to even) and through `<=` (`Double.le`). Each is
computed from the word with integer arithmetic, so every model over events runs; `Double.toRat` is
the exact value of a finite word, what statements about the numbers compare with.

* `Double.toRat_eq_scaled`, `Double.le_iff` — two finite words compare as their exact values.
-/

namespace KLStream

/-! ## `double` -/

/-- A `double`, by its IEEE-754 binary64 word. -/
structure Double where
  bits : UInt64
  deriving DecidableEq, Repr

namespace Double

/-- The sign bit. -/
def negative (d : Double) : Bool := 2 ^ 63 ≤ d.bits.toNat

/-- The biased exponent field. -/
def exponent (d : Double) : ℕ := d.bits.toNat / 2 ^ 52 % 2 ^ 11

/-- The fraction field. -/
def fraction (d : Double) : ℕ := d.bits.toNat % 2 ^ 52

/-- A word is finite unless its exponent field is all ones (an infinity or a NaN). -/
def IsFinite (d : Double) : Prop := d.exponent ≠ 2 ^ 11 - 1

/-- A NaN: the all-ones exponent with a non-zero fraction. -/
def IsNaN (d : Double) : Prop := d.exponent = 2 ^ 11 - 1 ∧ d.fraction ≠ 0

instance (d : Double) : Decidable d.IsFinite := inferInstanceAs (Decidable (_ ≠ _))

instance (d : Double) : Decidable d.IsNaN := inferInstanceAs (Decidable (_ ∧ _))

/-- The significand of a finite word: the fraction, with the hidden bit above exponent `0`. -/
def significand (d : Double) : ℕ := if d.exponent = 0 then d.fraction else 2 ^ 52 + d.fraction

/-- The power of two a finite word's significand is scaled by. -/
def power (d : Double) : ℤ := if d.exponent = 0 then -1074 else d.exponent - 1075

/-- The significand with the word's sign. -/
def signedSignificand (d : Double) : ℤ := if d.negative then -d.significand else d.significand

/-- **The exact value of a finite word**: `±significand * 2 ^ power`. -/
def toRat (d : Double) : ℚ := d.signedSignificand * 2 ^ d.power

/-- **`static_cast<std::int64_t>(d)`**: the value truncated toward zero; `none` for an infinity, a
NaN, or a value whose truncation is outside `std::int64_t`, where the cast is undefined
behaviour. -/
def truncInt64 (d : Double) : Option ℤ :=
  if d.IsFinite then
    let t : ℤ := if 0 ≤ d.power then d.signedSignificand * 2 ^ d.power.toNat
      else d.signedSignificand.tdiv (2 ^ (-d.power).toNat)
    if Int64Range t then some t else none
  else none

example : (⟨0x3FE0000000000000⟩ : Double).truncInt64 = some 0 := by decide
example : (⟨0xBFF8000000000000⟩ : Double).truncInt64 = some (-1) := by decide
example : (⟨0x43E0000000000000⟩ : Double).truncInt64 = none := by decide

/-- The number of binary digits of `m`, found within the first `fuel`. -/
def bitLength : ℕ → ℕ → ℕ
  | 0, _ => 0
  | fuel + 1, m => if m = 0 then 0 else bitLength fuel (m / 2) + 1

/-- **`static_cast<double>(x)`** for an integer `x` of magnitude below `2 ^ 64`, the values of the
integer types: the nearest `double`, ties to the even significand. Its `L + 1` digits are rounded
to `53`; a carry out of them raises the exponent. -/
def ofInt (x : ℤ) : Double :=
  let m := x.natAbs
  let L := bitLength 64 m - 1
  let r : ℕ × ℕ :=
    if L ≤ 52 then (m * 2 ^ (52 - L), L)
    else
      let q := m / 2 ^ (L - 52)
      let rest := m % 2 ^ (L - 52)
      let q' := if 2 ^ (L - 53) < rest ∨ (rest = 2 ^ (L - 53) ∧ q % 2 = 1) then q + 1 else q
      if q' = 2 ^ 53 then (2 ^ 52, L + 1) else (q', L)
  if m = 0 then ⟨0⟩
  else ⟨UInt64.ofNat ((if x < 0 then 2 ^ 63 else 0) + (r.2 + 1023) * 2 ^ 52 + (r.1 - 2 ^ 52))⟩

example : ofInt 1 = ⟨0x3FF0000000000000⟩ := by decide
example : ofInt (2 ^ 53 + 1) = ofInt (2 ^ 53) := by decide
example : ofInt (2 ^ 64 - 1) = ⟨0x43F0000000000000⟩ := by decide

/-- A finite word's signed significand, rescaled to the power `p`. -/
def scaled (d : Double) (p : ℤ) : ℤ := d.signedSignificand * 2 ^ (d.power - p).toNat

/-- **`a <= b`** on two `double`s: `false` if either is a NaN; an infinity lies below or above every
finite value by its sign; two finite values compare exactly, at the lower of their powers. -/
def le (a b : Double) : Bool :=
  if a.IsNaN ∨ b.IsNaN then false
  else if a.IsFinite ∧ b.IsFinite then
    decide (a.scaled (min a.power b.power) ≤ b.scaled (min a.power b.power))
  else (!decide a.IsFinite && a.negative) || (!decide b.IsFinite && !b.negative)

/-- **`a < b`** on two `double`s: `false` if either is a NaN, and otherwise `!(b <= a)`. -/
def lt (a b : Double) : Bool := !decide (a.IsNaN ∨ b.IsNaN) && !b.le a

/-- The `double` `0.0`. -/
def zero : Double := ⟨0⟩

/-- Rescaled to any power below its own, a finite word keeps its value. -/
theorem toRat_eq_scaled (d : Double) {p : ℤ} (hp : p ≤ d.power) :
    d.toRat = d.scaled p * 2 ^ p := by
  have h : ((d.power - p).toNat : ℤ) + p = d.power := by omega
  rw [toRat, scaled, Int.cast_mul, mul_assoc, Int.cast_pow, Int.cast_ofNat, ← zpow_natCast,
    ← zpow_add₀ two_ne_zero, h]

/-- **Two finite words compare as their exact values.** -/
theorem le_iff {a b : Double} (ha : a.IsFinite) (hb : b.IsFinite) :
    a.le b = true ↔ a.toRat ≤ b.toRat := by
  have hna : ¬ a.IsNaN := fun h => ha h.1
  have hnb : ¬ b.IsNaN := fun h => hb h.1
  rw [toRat_eq_scaled a (min_le_left a.power b.power), toRat_eq_scaled b (min_le_right _ _),
    mul_le_mul_right (zpow_pos two_pos _), Int.cast_le]
  simp [le, hna, hnb, ha, hb]

/-- **Two finite words compare strictly as their exact values.** -/
theorem lt_iff {a b : Double} (ha : a.IsFinite) (hb : b.IsFinite) :
    a.lt b = true ↔ a.toRat < b.toRat := by
  have hna : ¬ a.IsNaN := fun h => ha h.1
  have hnb : ¬ b.IsNaN := fun h => hb h.1
  rw [← not_le, ← le_iff hb ha]
  simp [lt, hna, hnb]

/-- A `<=` that holds has no NaN on either side. -/
theorem not_isNaN_of_le {a b : Double} (h : a.le b = true) : ¬ a.IsNaN ∧ ¬ b.IsNaN := by
  by_cases ha : a.IsNaN <;> by_cases hb : b.IsNaN <;> simp_all [le]

/-- **`<=` is transitive** on all `double`s, infinities included. -/
theorem le_trans {a b c : Double} (hab : a.le b = true) (hbc : b.le c = true) : a.le c = true := by
  obtain ⟨hna, hnb⟩ := not_isNaN_of_le hab
  have hnc := (not_isNaN_of_le hbc).2
  by_cases ha : a.IsFinite <;> by_cases hb : b.IsFinite <;> by_cases hc : c.IsFinite
  · exact (le_iff ha hc).2 (((le_iff ha hb).1 hab).trans ((le_iff hb hc).1 hbc))
  all_goals
    cases hsa : a.negative <;> cases hsb : b.negative <;> cases hsc : c.negative <;> simp_all [le]
@[simp] theorem zero_isFinite : zero.IsFinite := by decide

@[simp] theorem zero_isNaN : ¬ zero.IsNaN := by decide

@[simp] theorem toRat_zero : zero.toRat = 0 := by
  rw [toRat, show zero.signedSignificand = 0 by decide]; simp

end Double

/-! ## Events -/

/-- `Payload`: `std::variant<std::monostate, std::int64_t, double, std::string, Blob>`, an
`std::int64_t` within its range. -/
inductive Payload
  | monostate
  | int64 (v : ℤ) (mem : Int64Range v)
  | double (d : Double)
  | string (s : String)
  | blob (b : List UInt8)

/-- `EventMetadata`: the optional key, sequence number and source operator, and the `steady_clock`
reading of its construction, in nanoseconds. -/
structure EventMetadata where
  key : Option UInt64 := none
  sequence : Option UInt64 := none
  timestamp : ℕ
  sourceOperator : Option String := none
  deriving DecidableEq

/-- `Event`: a payload and its metadata. -/
structure Event where
  payload : Payload
  metadata : EventMetadata

/-- `Event(Payload data)`: default metadata, stamped with the clock reading `now`. -/
def Event.ofPayload (data : Payload) (now : ℕ) : Event := ⟨data, { timestamp := now }⟩

end KLStream
