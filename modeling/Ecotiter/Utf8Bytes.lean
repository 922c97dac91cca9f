import Mathlib.Data.Char
import Ecotiter.BoundedOutput

/-!
# ASCII characters in UTF-8

A byte below 128 stands for one character wherever it occurs in a text.
-/

namespace BoundedOutput

theorem utf8_cons (c : Char) (t : List Char) : utf8 (c :: t) = String.utf8EncodeChar c ++ utf8 t :=
  List.flatMap_cons

theorem utf8EncodeChar_ascii {c : Char} (h : c.val ≤ 127) :
    String.utf8EncodeChar c = [c.val.toUInt8] :=
  String.utf8EncodeChar_eq_singleton (Char.utf8Size_eq_one_iff.mpr h)

theorem utf8_cons_ascii {c : Char} (h : c.val ≤ 127) (t : List Char) :
    utf8 (c :: t) = c.val.toUInt8 :: utf8 t := by
  rw [utf8_cons, utf8EncodeChar_ascii h, List.singleton_append]

theorem utf8_ascii {t : List Char} (h : ∀ c ∈ t, c.val ≤ 127) :
    utf8 t = t.map fun c => c.val.toUInt8 := by
  induction t with
  | nil => rfl
  | cons c t ih =>
    rw [utf8_cons_ascii (h c List.mem_cons_self), ih fun d hd => h d (.tail c hd), List.map_cons]

theorem le_or (b : UInt8) {k : UInt8} (hk : 128 ≤ k) : 128 ≤ b ||| k := by
  rw [UInt8.le_iff_toNat_le] at hk ⊢
  rw [UInt8.toNat_or]
  exact le_trans hk Nat.right_le_or

/-- The bytes of a longer character are not below 128. -/
theorem le_of_mem_utf8EncodeChar {c : Char} (h : 127 < c.val) {b : UInt8}
    (hb : b ∈ String.utf8EncodeChar c) : 128 ≤ b := by
  rcases c.utf8Size_eq with hsize | hsize | hsize | hsize
  · have hle := Char.utf8Size_eq_one_iff.mp hsize
    exact absurd hle (UInt32.not_le.mpr h)
  · rw [String.utf8EncodeChar_eq_cons_cons hsize] at hb
    simp only [List.mem_cons, List.not_mem_nil, or_false] at hb
    rcases hb with rfl | rfl <;> exact le_or _ (by decide)
  · rw [String.utf8EncodeChar_eq_cons_cons_cons hsize] at hb
    simp only [List.mem_cons, List.not_mem_nil, or_false] at hb
    rcases hb with rfl | rfl | rfl <;> exact le_or _ (by decide)
  · rw [String.utf8EncodeChar_eq_cons_cons_cons_cons hsize] at hb
    simp only [List.mem_cons, List.not_mem_nil, or_false] at hb
    rcases hb with rfl | rfl | rfl | rfl <;> exact le_or _ (by decide)

theorem ascii_injective {c d : Char} (hc : c.val ≤ 127) (hd : d.val ≤ 127)
    (h : c.val.toUInt8 = d.val.toUInt8) : c = d := by
  have htoNat := congrArg UInt8.toNat h
  rw [UInt32.toNat_toUInt8, UInt32.toNat_toUInt8] at htoNat
  rw [UInt32.le_iff_toNat_le] at hc hd
  have hc : c.val.toNat ≤ 127 := hc
  have hd : d.val.toNat ≤ 127 := hd
  rw [Nat.mod_eq_of_lt (by omega), Nat.mod_eq_of_lt (by omega)] at htoNat
  exact Char.ext (UInt32.toNat_inj.mp htoNat)

theorem mem_utf8_iff {d : Char} (hd : d.val ≤ 127) {t : List Char} :
    d.val.toUInt8 ∈ utf8 t ↔ d ∈ t := by
  have hsmall : ¬ 128 ≤ d.val.toUInt8 := by
    rw [UInt8.le_iff_toNat_le, UInt32.toNat_toUInt8]
    rw [UInt32.le_iff_toNat_le] at hd
    have hd : d.val.toNat ≤ 127 := hd
    have hmod := Nat.mod_le d.val.toNat (2 ^ 8)
    change ¬ 128 ≤ d.val.toNat % 2 ^ 8
    omega
  rw [utf8, List.mem_flatMap]
  constructor
  · rintro ⟨c, hc, hbyte⟩
    by_cases hascii : c.val ≤ 127
    · rw [utf8EncodeChar_ascii hascii, List.mem_singleton] at hbyte
      exact ascii_injective hd hascii hbyte ▸ hc
    · exact absurd (le_of_mem_utf8EncodeChar (UInt32.not_le.mp hascii) hbyte) hsmall
  · intro h
    exact ⟨d, h, by rw [utf8EncodeChar_ascii hd]; exact List.mem_singleton_self _⟩

end BoundedOutput
