import Mathlib.Algebra.CharP.Two
import Mathlib.Algebra.Field.ZMod
import Mathlib.Tactic.ComputeDegree
import Mathlib.Tactic.LinearCombination
import Ecotiter.BurstErrors

/-!
# The frames of the stepper driver

`tmc_uart.cpp`. A register is written in a frame of eight bytes whose seventh is the CRC of the first
six. The loop of `computeCrc` divides the data by a polynomial, one bit at a time, the high bit of an
octet first.
-/

namespace Ecotiter
open Polynomial BurstErrors

/-! ## The frames -/

/-- One round of the inner loop of `computeCrc`. -/
def crcBit (crc : UInt8) : UInt8 :=
  if crc &&& 0x80 ≠ 0 then (crc <<< 1) ^^^ 0x07 else crc <<< 1

def computeCrc (data : List UInt8) : UInt8 :=
  data.foldl (fun crc byte => crcBit^[8] (crc ^^^ byte)) 0

/-- What `writeRegister` puts in front of the CRC. -/
def registerData (reg : UInt8) (value : UInt32) : List UInt8 :=
  [0x05, reg, ((value >>> 24) &&& 0xFF).toUInt8, ((value >>> 16) &&& 0xFF).toUInt8,
    ((value >>> 8) &&& 0xFF).toUInt8, (value &&& 0xFF).toUInt8]

/-- The frame that `writeRegister` sends. -/
def registerFrame (reg : UInt8) (value : UInt32) : Vector UInt8 8 :=
  let crc := computeCrc (registerData reg value)
  ⟨(registerData reg value ++ [crc, crc]).toArray, rfl⟩

def validateResponse (reg : UInt8) (resp : Vector UInt8 8) : Option UInt32 :=
  if resp[0] ≠ 0x05 ∨ resp[1] ≠ reg then none
  else
    let expectedCrc := computeCrc (resp.toList.take 6)
    let receivedCrc := resp[6].toUInt16 ||| (resp[7].toUInt16 <<< 8)
    if expectedCrc.toUInt16 ≠ receivedCrc &&& 0xFF then none
    else
      some ((resp[2].toUInt32 <<< 24) ||| (resp[3].toUInt32 <<< 16) |||
        (resp[4].toUInt32 <<< 8) ||| resp[5].toUInt32)

/-! ## Octets as polynomials -/

def bit (b : Bool) : ZMod 2 := if b then 1 else 0

/-- The bits of an octet, the high one first. -/
def octetBits (b : UInt8) : List (ZMod 2) :=
  [7, 6, 5, 4, 3, 2, 1, 0].map fun i => bit (b.toBitVec.getLsbD i)

def dataBits (data : List UInt8) : List (ZMod 2) := data.flatMap octetBits

/-- The polynomial of the CRC. -/
noncomputable def crcPolynomial : (ZMod 2)[X] := X ^ 8 + X ^ 2 + X + 1

theorem octetBits_shift (c : UInt8) : octetBits (c <<< 1) = (octetBits c).tail ++ [0] := by
  simp [octetBits, bit]

theorem octetBits_xor (a b : UInt8) :
    octetBits (a ^^^ b) = List.zipWith (· + ·) (octetBits a) (octetBits b) := by
  have hbit : ∀ p q : Bool, bit (p ^^ q) = bit p + bit q := by decide
  simp [octetBits, hbit]

theorem poly_zipWith {v w : List (ZMod 2)} (h : v.length = w.length) :
    poly (List.zipWith (· + ·) v w) = poly v + poly w := by
  induction v generalizing w with
  | nil =>
    rw [List.eq_nil_of_length_eq_zero h.symm]
    simp
  | cons a v ih =>
    cases w with
    | nil => cases h
    | cons b w =>
      have hrest : v.length = w.length := Nat.succ.inj h
      rw [List.zipWith_cons_cons, poly_cons, poly_cons, poly_cons, ih hrest,
        List.length_zipWith, hrest, Nat.min_self, C_add]
      ring

theorem poly_xor (a b : UInt8) :
    poly (octetBits (a ^^^ b)) = poly (octetBits a) + poly (octetBits b) := by
  have hlength : (octetBits a).length = (octetBits b).length := rfl
  rw [octetBits_xor, poly_zipWith hlength]

/-- A shift multiplies, without what the high bit becomes. -/
theorem poly_shift (c : UInt8) :
    poly (octetBits (c <<< 1)) =
      poly (octetBits c) * X - C (bit (c.toBitVec.getLsbD 7)) * X ^ 8 := by
  have hsplit : poly (octetBits c) =
      C (bit (c.toBitVec.getLsbD 7)) * X ^ 7 + poly (octetBits c).tail :=
    poly_cons (bit (c.toBitVec.getLsbD 7)) (octetBits c).tail
  have hzero : poly [(0 : ZMod 2)] = 0 := by simp [poly]
  rw [octetBits_shift, poly_append, hsplit, hzero, List.length_singleton]
  ring

theorem high_bit (c : UInt8) : c &&& 0x80 ≠ 0 ↔ c.toBitVec.getLsbD 7 = true := by
  rw [ne_eq, ← UInt8.toBitVec_inj]
  constructor
  · intro h
    by_contra hbit
    apply h
    ext i hi
    have hcases : i = 0 ∨ i = 1 ∨ i = 2 ∨ i = 3 ∨ i = 4 ∨ i = 5 ∨ i = 6 ∨ i = 7 := by omega
    rcases hcases with rfl | rfl | rfl | rfl | rfl | rfl | rfl | rfl <;> simp_all
  · intro h hzero
    have hbit := congrArg (BitVec.getLsbD · 7) hzero
    simp only [UInt8.toBitVec_and, BitVec.getLsbD_and, h] at hbit
    exact absurd hbit (by decide)

theorem poly_seven : poly (octetBits 0x07) = X ^ 2 + X + 1 := by
  have hbits : octetBits 0x07 = [0, 0, 0, 0, 0, 1, 1, 1] := by decide
  rw [hbits]
  simp [poly_cons]
  ring

/-- A round of the loop multiplies, and takes the polynomial away where the degree reaches its own. -/
theorem poly_crcBit (c : UInt8) :
    poly (octetBits (crcBit c)) =
      poly (octetBits c) * X - C (bit (c.toBitVec.getLsbD 7)) * crcPolynomial := by
  have htwo : (2 : (ZMod 2)[X]) = 0 := CharTwo.two_eq_zero
  unfold crcBit crcPolynomial
  by_cases h : c.toBitVec.getLsbD 7 = true
  · rw [if_pos ((high_bit c).mpr h), poly_xor, poly_shift, poly_seven, h]
    have hone : C (bit true) = (1 : (ZMod 2)[X]) := C_1
    rw [hone]
    linear_combination (X ^ 2 + X + 1) * htwo
  · rw [if_neg (mt (high_bit c).mp h), poly_shift, Bool.eq_false_of_not_eq_true h]
    have hzero : C (bit false) = (0 : (ZMod 2)[X]) := C_0
    rw [hzero, zero_mul, zero_mul]

theorem dvd_crcBit_iterate (c : UInt8) (n : ℕ) :
    crcPolynomial ∣ poly (octetBits (crcBit^[n] c)) - poly (octetBits c) * X ^ n := by
  induction n with
  | zero => simp
  | succ n ih =>
    obtain ⟨q, hq⟩ := ih
    rw [Function.iterate_succ_apply', poly_crcBit]
    refine ⟨q * X - C (bit ((crcBit^[n] c).toBitVec.getLsbD 7)), ?_⟩
    linear_combination X * hq

/-- The CRC is what the shifted data leaves. -/
theorem dvd_computeCrc (data : List UInt8) :
    crcPolynomial ∣ poly (octetBits (computeCrc data)) - poly (dataBits data) * X ^ 8 := by
  induction data using List.reverseRecOn with
  | nil =>
    have hbits : octetBits (computeCrc []) = [0, 0, 0, 0, 0, 0, 0, 0] := by decide
    rw [hbits]
    simp [poly_cons, dataBits]
  | append_singleton data b ih =>
    have hcrc : computeCrc (data ++ [b]) = crcBit^[8] (computeCrc data ^^^ b) := by
      rw [computeCrc, List.foldl_append]
      rfl
    have hbits : poly (dataBits (data ++ [b])) =
        poly (dataBits data) * X ^ 8 + poly (octetBits b) := by
      rw [dataBits, List.flatMap_append, poly_append, List.flatMap_singleton]
      rfl
    obtain ⟨q, hq⟩ := ih
    obtain ⟨r, hr⟩ := dvd_crcBit_iterate (computeCrc data ^^^ b) 8
    rw [hcrc, hbits]
    rw [poly_xor] at hr
    refine ⟨r + q * X ^ 8, ?_⟩
    linear_combination hr + X ^ 8 * hq

theorem crcPolynomial_degree : crcPolynomial.degree = 8 := by
  unfold crcPolynomial
  compute_degree!

theorem crcPolynomial_monic : crcPolynomial.Monic := by
  unfold crcPolynomial
  monicity!

/-- `computeCrc` is the remainder of the division. -/
theorem poly_computeCrc (data : List UInt8) :
    poly (octetBits (computeCrc data)) = (poly (dataBits data) * X ^ 8) %ₘ crcPolynomial := by
  obtain ⟨q, hq⟩ := dvd_computeCrc data
  have hdegree : (poly (octetBits (computeCrc data))).degree < crcPolynomial.degree := by
    rw [crcPolynomial_degree]
    exact degree_poly_lt _
  refine (div_modByMonic_unique (-q) _ crcPolynomial_monic ⟨?_, hdegree⟩).2.symm
  linear_combination hq

/-- A burst changes the CRC. -/
theorem computeCrc_ne_of_burst {data data' : List UInt8}
    (h : Burst 8 (dataBits data) (dataBits data')) : computeCrc data ≠ computeCrc data' := by
  have hconstant : crcPolynomial.coeff 0 ≠ 0 := by
    simp [crcPolynomial]
  have hdegree : ((8 : ℕ) : WithBot ℕ) ≤ crcPolynomial.degree := crcPolynomial_degree.ge
  intro hsame
  apply not_dvd_of_burst hconstant hdegree h 8
  obtain ⟨q, hq⟩ := dvd_computeCrc data
  obtain ⟨r, hr⟩ := dvd_computeCrc data'
  rw [hsame] at hq
  refine ⟨r - q, ?_⟩
  linear_combination hr - hq

/-! ## Writing and reading -/

/-- The low octet of what is received is the one that is compared. -/
theorem received_low (low high : UInt8) :
    (low.toUInt16 ||| (high.toUInt16 <<< 8)) &&& 0xFF = low.toUInt16 := by
  have hmask : ∀ i < 16, (UInt16.toBitVec 0xFF).getLsbD i = decide (i < 8) := by decide
  rw [← UInt16.toBitVec_inj]
  apply BitVec.eq_of_getLsbD_eq
  intro i hi
  rw [UInt16.toBitVec_and, BitVec.getLsbD_and, hmask i hi, UInt16.toBitVec_or, BitVec.getLsbD_or]
  by_cases h : i < 8
  · simp [UInt16.toBitVec_shiftLeft, h]
  · simp [h, BitVec.getLsbD_of_ge low.toBitVec i (Nat.not_lt.mp h)]

theorem getLsbD_octet (x : UInt32) (i : ℕ) :
    (x &&& 0xFF).toUInt8.toUInt32.toBitVec.getLsbD i = (decide (i < 8) && x.toBitVec.getLsbD i) := by
  have hmask : ∀ i < 8, (UInt32.toBitVec 0xFF).getLsbD i = true := by decide
  simp only [UInt8.toBitVec_toUInt32, UInt32.toBitVec_toUInt8, BitVec.getLsbD_setWidth,
    UInt32.toBitVec_and, BitVec.getLsbD_and]
  by_cases h : i < 8
  · have hin : i < 32 := h.trans (by decide)
    simp only [hmask i h, h, hin, decide_true, Bool.true_and, Bool.and_true]
  · simp [h]

/-- The decoder puts the octets back in the order of the encoder. -/
theorem value_of_octets (value : UInt32) :
    (((value >>> 24) &&& 0xFF).toUInt8.toUInt32 <<< 24) |||
      (((value >>> 16) &&& 0xFF).toUInt8.toUInt32 <<< 16) |||
      (((value >>> 8) &&& 0xFF).toUInt8.toUInt32 <<< 8) |||
      (value &&& 0xFF).toUInt8.toUInt32 = value := by
  have hleft : ∀ (x : UInt32) (i : ℕ),
      (x <<< 24).toBitVec.getLsbD i =
        (decide (i < 32) && !decide (i < 24) && x.toBitVec.getLsbD (i - 24)) ∧
      (x <<< 16).toBitVec.getLsbD i =
        (decide (i < 32) && !decide (i < 16) && x.toBitVec.getLsbD (i - 16)) ∧
      (x <<< 8).toBitVec.getLsbD i =
        (decide (i < 32) && !decide (i < 8) && x.toBitVec.getLsbD (i - 8)) := by
    intro x i
    simp [UInt32.toBitVec_shiftLeft]
  have hright : ∀ (x : UInt32) (i : ℕ),
      (x >>> 24).toBitVec.getLsbD i = x.toBitVec.getLsbD (24 + i) ∧
      (x >>> 16).toBitVec.getLsbD i = x.toBitVec.getLsbD (16 + i) ∧
      (x >>> 8).toBitVec.getLsbD i = x.toBitVec.getLsbD (8 + i) := by
    intro x i
    simp [UInt32.toBitVec_shiftRight]
  rw [← UInt32.toBitVec_inj]
  apply BitVec.eq_of_getLsbD_eq
  intro i hi
  rw [UInt32.toBitVec_or, UInt32.toBitVec_or, UInt32.toBitVec_or, BitVec.getLsbD_or,
    BitVec.getLsbD_or, BitVec.getLsbD_or, (hleft _ i).1, (hleft _ i).2.1, (hleft _ i).2.2,
    getLsbD_octet, getLsbD_octet, getLsbD_octet, getLsbD_octet, (hright _ _).1, (hright _ _).2.1,
    (hright _ _).2.2]
  by_cases h8 : i < 8
  · have h16 : i < 16 := by omega
    have h24 : i < 24 := by omega
    simp [h8, h16, h24, hi]
  · by_cases h16 : i < 16
    · have h24 : i < 24 := by omega
      have hin : i - 8 < 8 := by omega
      have hback : 8 + (i - 8) = i := by omega
      simp [h8, h16, h24, hi, hin, hback]
    · by_cases h24 : i < 24
      · have hout : ¬ i - 8 < 8 := by omega
        have hin : i - 16 < 8 := by omega
        have hback : 16 + (i - 16) = i := by omega
        simp [h8, h16, h24, hi, hout, hin, hback]
      · have hout : ¬ i - 8 < 8 ∧ ¬ i - 16 < 8 := by omega
        have hin : i - 24 < 8 := by omega
        have hback : 24 + (i - 24) = i := by omega
        simp [h8, h16, h24, hi, hout, hin, hback]

/-- What is accepted has the CRC of its data in its seventh octet. -/
theorem crc_of_validateResponse {reg : UInt8} {resp : Vector UInt8 8} {value : UInt32}
    (h : validateResponse reg resp = some value) :
    computeCrc (resp.toList.take 6) = resp[6] := by
  have hinj : ∀ a b : UInt8, a.toUInt16 = b.toUInt16 → a = b := by
    intro a b hab
    have htoNat := congrArg UInt16.toNat hab
    rw [UInt8.toNat_toUInt16, UInt8.toNat_toUInt16] at htoNat
    exact UInt8.toNat_inj.mp htoNat
  unfold validateResponse at h
  by_cases hheader : resp[0] ≠ 0x05 ∨ resp[1] ≠ reg
  · rw [if_pos hheader] at h
    cases h
  · rw [if_neg hheader] at h
    dsimp only at h
    rw [received_low] at h
    by_cases hcrc : (computeCrc (resp.toList.take 6)).toUInt16 = resp[6].toUInt16
    · exact hinj _ _ hcrc
    · rw [if_pos hcrc] at h
      cases h

theorem validateResponse_registerFrame (reg : UInt8) (value : UInt32) :
    validateResponse reg (registerFrame reg value) = some value := by
  have hheader : ¬ ((registerFrame reg value)[0] ≠ 0x05 ∨ (registerFrame reg value)[1] ≠ reg) :=
    fun h => h.elim (fun h0 => h0 rfl) fun h1 => h1 rfl
  have hcrc : computeCrc ((registerFrame reg value).toList.take 6) = (registerFrame reg value)[6] :=
    rfl
  unfold validateResponse
  rw [if_neg hheader]
  dsimp only
  rw [received_low, hcrc, if_neg (not_not.mpr rfl)]
  exact congrArg some (value_of_octets value)

/-- Frames are read as they are written; the CRC is the remainder of the division by the polynomial;
and a burst of at most eight bits changes it, so that no frame with a burst in its data is accepted. -/
theorem frames_detectBursts :
    (∀ reg value, validateResponse reg (registerFrame reg value) = some value) ∧
    (∀ data, poly (octetBits (computeCrc data)) =
      (poly (dataBits data) * X ^ 8) %ₘ (X ^ 8 + X ^ 2 + X + 1)) ∧
    (∀ data data', Burst 8 (dataBits data) (dataBits data') → computeCrc data ≠ computeCrc data') ∧
    ∀ (reg : UInt8) (resp resp' : Vector UInt8 8) (value : UInt32),
      validateResponse reg resp = some value →
      Burst 8 (dataBits (resp.toList.take 6)) (dataBits (resp'.toList.take 6)) →
      resp'.toList.drop 6 = resp.toList.drop 6 → validateResponse reg resp' = none := by
  refine ⟨validateResponse_registerFrame, poly_computeCrc, fun _ _ h => computeCrc_ne_of_burst h, ?_⟩
  intro reg resp resp' value haccepted hburst hrest
  have hseventh : resp'[6] = resp[6] := by
    have hget := congrArg (·[0]?) hrest
    simpa using hget
  by_contra hsome
  obtain ⟨value', haccepted'⟩ := Option.ne_none_iff_exists'.mp hsome
  apply computeCrc_ne_of_burst hburst
  rw [crc_of_validateResponse haccepted, crc_of_validateResponse haccepted', hseventh]

/-- The high bit of the value is turned over. -/
theorem frames_detectBursts_highBit :
    validateResponse 0x6C ((registerFrame 0x6C 0).set 2 0x80) = none :=
  frames_detectBursts.2.2.2 0x6C (registerFrame 0x6C 0) _ 0 (frames_detectBursts.1 0x6C 0)
    ⟨dataBits [0x05, 0x6C], octetBits 0, octetBits 0x80, dataBits [0, 0, 0], rfl, rfl, rfl,
      by decide, by decide⟩ rfl

end Ecotiter
