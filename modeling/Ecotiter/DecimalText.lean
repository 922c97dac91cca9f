import Mathlib.Algebra.Order.Field.Basic
import Mathlib.Tactic.Linarith
import Mathlib.Tactic.NormNum
import Ecotiter.BinaryRounding

/-!
# Numbers in decimal

The texts that `%u`, `%d` and `%f` of C print for natural numbers, integers and rational numbers,
the last rounded to a number of digits after the point, halves to even.
-/

namespace DecimalText

/-- `%u`. -/
def natural (n : ℕ) : List Char := Nat.toDigits 10 n

/-- `%d`. -/
def integer (z : ℤ) : List Char :=
  (if z < 0 then ['-'] else []) ++ natural z.natAbs

@[simp] theorem integer_natCast (n : ℕ) : integer n = natural n := by
  rw [integer, if_neg (Int.not_lt.mpr (Int.natCast_nonneg n))]
  rfl

/-- The last digits of a number, leading zeros included. -/
def lastDigits : ℕ → ℕ → List Char
  | 0, _ => []
  | k + 1, n => lastDigits k (n / 10) ++ [Nat.digitChar (n % 10)]

/-- A number in units of the last of `k` digits after the point. -/
def units (k : ℕ) (x : ℚ) : ℕ := (BinaryFormat.nearestEven (|x| * 10 ^ k)).toNat

/-- `%.kf`, for at least one digit after the point. -/
def fixed (k : ℕ) (x : ℚ) : List Char :=
  (if x < 0 then ['-'] else []) ++
    (natural (units k x / 10 ^ k) ++ '.' :: lastDigits k (units k x))

theorem natural_isDigit {n : ℕ} : ∀ c ∈ natural n, c.isDigit := fun _ hc =>
  Nat.isDigit_of_mem_toDigits (by decide) (by decide) hc

theorem natural_ne_nil (n : ℕ) : natural n ≠ [] := Nat.toDigits_ne_nil

theorem length_natural_le {n k : ℕ} (hk : 0 < k) (h : n < 10 ^ k) : (natural n).length ≤ k :=
  (Nat.length_toDigits_le_iff (by decide) hk).mpr h

theorem natural_of_le {n : ℕ} (h : 10 ≤ n) :
    natural n = natural (n / 10) ++ [Nat.digitChar (n % 10)] :=
  Nat.toDigits_of_base_le (by decide) h

/-- Only zero begins with a zero. -/
theorem natural_head {n : ℕ} (h : (natural n).head? = some '0') : natural n = ['0'] := by
  induction n using Nat.strong_induction_on with
  | _ n ih =>
    by_cases hn : n < 10
    · have hdigit : natural n = [Nat.digitChar n] := Nat.toDigits_of_lt_base hn
      rw [hdigit, List.head?_cons, Option.some.injEq] at h
      rw [hdigit, h]
    · have hsplit := natural_of_le (not_lt.mp hn)
      have hhead : (natural (n / 10)).head? = some '0' := by
        rwa [hsplit, List.head?_append_of_ne_nil _ (natural_ne_nil _)] at h
      have hzero := ih (n / 10) (by omega) hhead
      have hvalue : n / 10 = Nat.ofDigitChars 10 ['0'] 0 := by
        rw [← hzero]
        exact Nat.ofDigitChars_ten_toDigits.symm
      have hnone : Nat.ofDigitChars 10 ['0'] 0 = 0 := by decide
      omega

theorem length_lastDigits (k n : ℕ) : (lastDigits k n).length = k := by
  induction k generalizing n with
  | zero => rfl
  | succ k ih => rw [lastDigits, List.length_append, ih, List.length_singleton]

theorem digitChar_isDigit : ∀ d < 10, (Nat.digitChar d).isDigit := by decide

theorem lastDigits_isDigit (k n : ℕ) : ∀ c ∈ lastDigits k n, c.isDigit := by
  induction k generalizing n with
  | zero => exact fun _ hc => absurd hc List.not_mem_nil
  | succ k ih =>
    intro c hc
    rcases List.mem_append.mp hc with hc | hc
    · exact ih _ c hc
    · rw [List.mem_singleton.mp hc]
      exact digitChar_isDigit _ (Nat.mod_lt n (by decide))

theorem length_integer_le {z : ℤ} {k : ℕ} (hk : 0 < k) (h : z.natAbs < 10 ^ k) :
    (integer z).length ≤ k + 1 := by
  have hlength := length_natural_le hk h
  unfold integer
  split
  · rw [List.length_append, List.length_singleton]
    omega
  · rw [List.nil_append]
    omega

/-- The part before the point stays below a power of ten the number is at least half a unit
below. -/
theorem units_div_lt {k j : ℕ} {x : ℚ} (h : |x| + 1 ≤ 10 ^ j) : units k x / 10 ^ k < 10 ^ j := by
  have herror := (abs_le.mp (BinaryFormat.nearestEven_error (|x| * 10 ^ k))).2
  have hten : (1 : ℚ) ≤ 10 ^ k := one_le_pow₀ (by norm_num)
  have hscaled : (BinaryFormat.nearestEven (|x| * 10 ^ k) : ℚ) < 10 ^ j * 10 ^ k := by
    have hmul := mul_le_mul_of_nonneg_right h (zero_le_one.trans hten)
    rw [add_mul, one_mul] at hmul
    linarith
  have hunits : units k x < 10 ^ j * 10 ^ k := by
    unfold units
    have hcast : BinaryFormat.nearestEven (|x| * 10 ^ k) < 10 ^ j * 10 ^ k := by
      exact_mod_cast hscaled
    have hpos : (0 : ℤ) < 10 ^ j * 10 ^ k := by positivity
    zify
    omega
  exact Nat.div_lt_of_lt_mul (by rwa [mul_comm] at hunits)

theorem length_fixed_le {k j : ℕ} {x : ℚ} (hj : 0 < j) (h : |x| + 1 ≤ 10 ^ j) :
    (fixed k x).length ≤ j + k + 2 := by
  have hlength := length_natural_le hj (units_div_lt (k := k) h)
  have hrest := length_lastDigits k (units k x)
  have hsign : (if x < 0 then ['-'] else []).length ≤ 1 := by
    split <;> decide
  unfold fixed
  simp only [List.length_append, List.length_cons]
  omega

/-- A rounded value and a half, which goes down to the even digit. -/
example : fixed 2 (-1357 / 1000) = ['-', '1', '.', '3', '6'] ∧
    fixed 1 (1 / 4) = ['0', '.', '2'] := by decide +kernel

end DecimalText
