import Mathlib.Algebra.Order.Field.Power
import Mathlib.Algebra.Order.Field.Rat
import Mathlib.Tactic.Positivity
import Mathlib.Tactic.Ring
import Mathlib.Tactic.Linarith

/-! # C++ `double`

A `double` is a finite IEEE 754 binary64 value, kept as the rational it stands for. Each
operation rounds its exact result to the nearest binary64 value, ties to even, as the default
rounding mode does. Overflow to infinity, NaN and the sign of zero are left out.
-/
namespace OsrmNutiteq.Nuti

def bits : Nat → Nat → Nat
  | 0, _ => 0
  | f + 1, n => if n = 0 then 0 else bits f (n / 2) + 1

def bitLength (n : Nat) : Nat := bits n n

theorem lt_two_pow_bits : ∀ {f n : Nat}, n ≤ f → n < 2 ^ bits f n
  | 0, n, h => by simp [bits]; omega
  | f + 1, n, h => by
    unfold bits
    split
    · simp_all
    · have := lt_two_pow_bits (f := f) (n := n / 2) (by omega)
      rw [Nat.pow_succ]
      omega

theorem two_pow_bits_le : ∀ {f n : Nat}, n ≤ f → 0 < n → 2 ^ bits f n ≤ 2 * n
  | 0, n, h, hn => by omega
  | f + 1, n, h, hn => by
    unfold bits
    rw [if_neg (by omega), Nat.pow_succ]
    rcases Nat.eq_zero_or_pos (n / 2) with h0 | h0
    · rw [h0]
      cases f <;> simp [bits] <;> omega
    · have := two_pow_bits_le (f := f) (n := n / 2) (by omega) h0
      omega

theorem lt_two_pow_bitLength (n : Nat) : n < 2 ^ bitLength n := lt_two_pow_bits le_rfl

theorem two_pow_bitLength_le {n : Nat} (h : 0 < n) : 2 ^ bitLength n ≤ 2 * n :=
  two_pow_bits_le le_rfl h

/-- `⌊log₂ (n / d)⌋`: the difference of the bit lengths, less one when `n / d` falls short of
that power of two. -/
def floorLog2 (n d : Nat) : Int :=
  let e : Int := (bitLength n : Int) - bitLength d
  if d * 2 ^ e.toNat ≤ n * 2 ^ (-e).toNat then e else e - 1

/-- `n / d` rounded to the nearest natural number, ties to even. -/
def roundDiv (n d : Nat) : Nat :=
  if 2 * (n % d) < d ∨ (2 * (n % d) = d ∧ n / d % 2 = 0) then n / d else n / d + 1

theorem two_zpow_eq (x : Int) : (2 : ℚ) ^ x = 2 ^ x.toNat / 2 ^ (-x).toNat := by
  rcases le_or_lt 0 x with hx | hx
  · obtain ⟨k, rfl⟩ := Int.eq_ofNat_of_zero_le hx
    simp
  · obtain ⟨k, rfl⟩ := Int.exists_eq_neg_ofNat hx.le
    rw [zpow_neg, zpow_natCast]
    simp [show ((-(k : Int)).toNat) = 0 by omega]

theorem scaled_lt_iff (a b : Nat) (x : Int) :
    a * 2 ^ (-x).toNat < b * 2 ^ x.toNat ↔ (a : ℚ) < b * 2 ^ x := by
  rw [two_zpow_eq, mul_div_assoc', lt_div_iff₀ (by positivity)]
  exact_mod_cast Iff.rfl

theorem lt_two_zpow_floorLog2 {n d : Nat} (hd : 0 < d) : (n : ℚ) < d * 2 ^ (floorLog2 n d + 1) := by
  simp only [floorLog2]
  split_ifs with h
  · have hn : (n : ℚ) < 2 ^ bitLength n := by exact_mod_cast lt_two_pow_bitLength n
    have hdb : (2 : ℚ) ^ bitLength d ≤ 2 * d := by exact_mod_cast two_pow_bitLength_le hd
    have he : (2 : ℚ) ^ ((bitLength n : Int) - bitLength d + 1) * 2 ^ bitLength d =
        2 * 2 ^ bitLength n := by
      rw [← zpow_natCast, ← zpow_natCast, ← zpow_add₀ two_ne_zero, ← zpow_one_add₀ two_ne_zero]
      congr 1
      ring
    have hp : (0 : ℚ) < 2 ^ ((bitLength n : Int) - bitLength d + 1) := by positivity
    nlinarith
  · rw [sub_add_cancel]
    exact (scaled_lt_iff n d _).mp (by omega)

theorem roundDiv_le_div_succ (x y : Nat) : roundDiv x y ≤ x / y + 1 := by
  unfold roundDiv
  split <;> omega

theorem roundDiv_le {x y k : Nat} (h : x < k * y) : roundDiv x y ≤ k := by
  have hy : 0 < y := Nat.pos_of_ne_zero fun h0 => by simp [h0] at h
  have := (Nat.div_lt_iff_lt_mul hy).mpr h
  unfold roundDiv
  split <;> omega

/-- Whether `q` is a binary64 value, overflow aside: `m · 2^e` with `|m| ≤ 2^53` and `e` no
less than the exponent of the least subnormal. -/
def IsBinary64 (q : ℚ) : Prop := ∃ m e : Int, -1074 ≤ e ∧ m.natAbs ≤ 2 ^ 53 ∧ q = m * 2 ^ e

/-- The binary64 value nearest to `num / den`, ties to even. The exponent `e` of its last
significand bit is that of its binade less 52, and no less than the subnormals' -1074. -/
def roundFrac (num : Int) (den : Nat) : ℚ :=
  let n := num.natAbs
  let e := max (floorLog2 n den) (-1022) - 52
  mkRat (num.sign * roundDiv (n * 2 ^ (-e).toNat) (den * 2 ^ e.toNat) * 2 ^ e.toNat) (2 ^ (-e).toNat)

theorem roundFrac_isBinary64 (num : Int) (den : Nat) : IsBinary64 (roundFrac num den) := by
  set e := max (floorLog2 num.natAbs den) (-1022) - 52 with he
  have h1 := le_max_left (floorLog2 num.natAbs den) (-1022)
  have h2 := le_max_right (floorLog2 num.natAbs den) (-1022)
  -- the significand is at most `2^53`, since `|num| / den < 2^(e + 53)`
  have hr : roundDiv (num.natAbs * 2 ^ (-e).toNat) (den * 2 ^ e.toNat) ≤ 2 ^ 53 := by
    rcases Nat.eq_zero_or_pos den with rfl | hd
    · rw [Nat.zero_mul]
      exact (roundDiv_le_div_succ _ 0).trans (by rw [Nat.div_zero]; exact Nat.one_le_two_pow)
    · refine roundDiv_le ?_
      rw [← Nat.mul_assoc, scaled_lt_iff]
      calc (num.natAbs : ℚ) < den * 2 ^ (floorLog2 num.natAbs den + 1) := lt_two_zpow_floorLog2 hd
        _ ≤ den * 2 ^ (e + 53) :=
          mul_le_mul_of_nonneg_left (zpow_le_zpow_right₀ one_le_two (by omega)) (by positivity)
        _ = ((2 ^ 53 * den : Nat) : ℚ) * 2 ^ e := by
          rw [zpow_add₀ two_ne_zero]; push_cast; ring
  refine ⟨num.sign * roundDiv (num.natAbs * 2 ^ (-e).toNat) (den * 2 ^ e.toNat), e, by omega, ?_, ?_⟩
  · have hs : num.sign.natAbs ≤ 1 := by rw [Int.natAbs_sign]; split <;> omega
    rw [Int.natAbs_mul, Int.natAbs_ofNat]
    calc num.sign.natAbs * _ ≤ 1 * 2 ^ 53 := Nat.mul_le_mul hs hr
      _ = 2 ^ 53 := Nat.one_mul _
  · simp only [roundFrac, ← he, Rat.mkRat_eq_divInt, Rat.divInt_eq_div, two_zpow_eq e]
    push_cast
    ring

@[simp] theorem roundFrac_zero (den : Nat) : roundFrac 0 den = 0 := by
  simp [roundFrac]

/-- A `double`, as the rational value it stands for. -/
@[ext] structure Double where
  val : ℚ
  isBinary64 : IsBinary64 val

namespace Double

instance : DecidableEq Double := fun a b => decidable_of_iff (a.val = b.val) Double.ext_iff.symm

instance : Repr Double := ⟨fun x p => reprPrec x.val p⟩

def ofFrac (num : Int) (den : Nat) : Double := ⟨roundFrac num den, roundFrac_isBinary64 num den⟩

/-- An `int` converted to `double`, or an integer literal. -/
def ofInt (i : Int) : Double := ofFrac i 1

instance (n : Nat) : OfNat Double n := ⟨ofInt n⟩

/-- A decimal literal such as `10.0`, rounded as the compiler does. -/
instance : OfScientific Double :=
  ⟨fun m s e => if s then ofFrac m (10 ^ e) else ofInt (m * 10 ^ e)⟩

/-- `a + b`: the exact sum, over the denominator `a.den * b.den`, rounded. -/
instance : Add Double :=
  ⟨fun a b => ofFrac (a.val.num * b.val.den + b.val.num * a.val.den) (a.val.den * b.val.den)⟩

instance : Mul Double := ⟨fun a b => ofFrac (a.val.num * b.val.num) (a.val.den * b.val.den)⟩

/-- `a / b` for `b ≠ 0`; the infinities and NaN of a division by zero are left out. -/
instance : Div Double :=
  ⟨fun a b => ofFrac (a.val.num * b.val.den * b.val.num.sign) (a.val.den * b.val.num.natAbs)⟩

theorem zero_div (x : Double) : ofInt 0 / x = 0 := by
  have h0 : (ofInt 0).val = 0 := roundFrac_zero 1
  ext
  show roundFrac ((ofInt 0).val.num * x.val.den * x.val.num.sign)
    ((ofInt 0).val.den * x.val.num.natAbs) = (ofInt 0).val
  simp [h0]

/-- `static_cast<int>`: the integer part, rounded towards zero. -/
def castInt (x : Double) : Int := x.val.num.tdiv x.val.den

set_option maxRecDepth 2000 in
example : (0.1 : Double) + 0.2 ≠ 0.3 := by decide

set_option maxRecDepth 2000 in
example : ((1.001 : Double) * 1000000).castInt = 1000999 := by decide

example : ((3 : Double) + 4).castInt = 7 := by decide

end Double

end OsrmNutiteq.Nuti
