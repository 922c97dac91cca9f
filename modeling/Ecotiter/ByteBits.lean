import Mathlib.Data.Nat.Notation
import Mathlib.Algebra.Group.Nat.Even
import Mathlib.Tactic.Ring

/-!
# Bytes as lists of bits

The bits of a byte, the lowest first, and the byte with given bits. A byte that is built up bit by
bit has the value of the bits read so far.
-/

namespace ByteBits

/-- The bits of a byte, the lowest first. -/
def bits (b : UInt8) : List Bool := (List.range 8).map b.toNat.testBit

/-- The number with the given bits, the lowest first. -/
def value : List Bool → ℕ
  | [] => 0
  | b :: bs => b.toNat + 2 * value bs

def byte (bs : List Bool) : UInt8 := UInt8.ofNat (value bs)

@[simp] theorem length_bits (b : UInt8) : (bits b).length = 8 := by
  rw [bits, List.length_map, List.length_range]

theorem value_testBit (n m : ℕ) : value ((List.range n).map m.testBit) = m % 2 ^ n := by
  induction n generalizing m with
  | zero => rw [pow_zero, Nat.mod_one]; rfl
  | succ n ih =>
    have hshift : (fun i => m.testBit (i + 1)) = (m / 2).testBit :=
      funext fun i => Nat.testBit_succ m i
    have hlow : (m.testBit 0).toNat = m % 2 := Nat.toNat_testBit m 0 ▸ by rw [pow_zero, Nat.div_one]
    rw [List.range_succ_eq_map, List.map_cons, List.map_map, value, pow_succ', Nat.mod_mul, ← ih, hlow,
      ← hshift]
    rfl

theorem byte_bits (b : UInt8) : byte (bits b) = b := by
  rw [byte, bits, value_testBit, Nat.mod_eq_of_lt b.toNat_lt, UInt8.ofNat_toNat]

theorem value_append (bs cs : List Bool) : value (bs ++ cs) = value bs + 2 ^ bs.length * value cs := by
  induction bs with
  | nil => rw [List.nil_append, value, List.length_nil, pow_zero, one_mul, zero_add]
  | cons b bs ih =>
    rw [List.cons_append, value, value, ih, List.length_cons]
    ring

theorem value_lt (bs : List Bool) : value bs < 2 ^ bs.length := by
  induction bs with
  | nil => exact Nat.one_pos
  | cons b bs ih =>
    have hbit := b.toNat_lt
    rw [value, List.length_cons, pow_succ]
    omega

/-- Setting the next bit adds it to the value. -/
theorem value_or (bs : List Bool) (b : Bool) :
    value bs ||| (if b then 1 <<< bs.length else 0) = value (bs ++ [b]) := by
  rw [value_append, value, value, mul_zero, add_zero]
  cases b with
  | false => rw [if_neg Bool.false_ne_true, Nat.or_zero, Bool.toNat_false, mul_zero, add_zero]
  | true =>
    rw [if_pos rfl, Nat.one_shiftLeft, Bool.toNat_true, mul_one, Nat.or_comm, add_comm]
    have hor := Nat.two_pow_add_eq_or_of_lt (value_lt bs) 1
    rw [mul_one] at hor
    exact hor.symm

end ByteBits
