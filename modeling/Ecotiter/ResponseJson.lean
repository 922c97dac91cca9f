import Mathlib.Tactic.NormNum
import Ecotiter.JsonWriting
import Ecotiter.ResponseTexts

/-!
# Responses are JSON objects

A response whose printed floats are finite fits into its buffer and is one JSON object, with and
without its id. What `handleStatusCore` prints is the inside of an object and never one.
-/

namespace Ecotiter
open BoundedOutput JsonText

/-! ## The length of what is printed -/

/-- A printable character of one byte. -/
def IsAscii (c : Char) : Prop := 32 ≤ c.val ∧ c.val ≤ 127

instance (c : Char) : Decidable (IsAscii c) := inferInstanceAs (Decidable (_ ∧ _))

instance (t : List Char) : Decidable (∀ c ∈ t, IsAscii c) := t.decidableBAll IsAscii

theorem utf8_of_isAscii {t : List Char} (h : ∀ c ∈ t, IsAscii c) :
    utf8 t = t.map fun c => c.val.toUInt8 := by
  induction t with
  | nil => rfl
  | cons c t ih =>
    have hone : c.utf8Size = 1 := Char.utf8Size_eq_one_iff.mpr (h c List.mem_cons_self).2
    have hbyte := String.utf8EncodeChar_eq_singleton hone
    have hrest := ih fun d hd => h d (.tail c hd)
    change utf8 ([c] ++ t) = _
    rw [utf8_append, hrest, utf8, List.flatMap_singleton, hbyte]
    rfl

theorem length_utf8_of_isAscii {t : List Char} (h : ∀ c ∈ t, IsAscii c) :
    (utf8 t).length = t.length := by
  rw [utf8_of_isAscii h, List.length_map]

theorem zero_notMem_utf8 {t : List Char} (h : ∀ c ∈ t, IsAscii c) : 0 ∉ utf8 t := by
  rw [utf8_of_isAscii h, List.mem_map]
  rintro ⟨c, hc, hzero⟩
  obtain ⟨hlow, hhigh⟩ := h c hc
  have hvalue := congrArg UInt8.toNat hzero
  rw [UInt32.toNat_toUInt8, UInt8.toNat_zero] at hvalue
  rw [UInt32.le_iff_toNat_le] at hlow hhigh
  have hlow : 32 ≤ c.val.toNat := hlow
  have hhigh : c.val.toNat ≤ 127 := hhigh
  omega

theorem length_utf8_toList (s : String) : (utf8 s.toList).length = s.utf8ByteSize := by
  have hbytes : (utf8 s.toList).toByteArray = s.toByteArray := String.utf8Encode_toList
  rw [String.utf8ByteSize, ← hbytes, List.size_toByteArray]

theorem isAscii_of_isDigit {c : Char} (h : c.isDigit) : IsAscii c := by
  simp only [Char.isDigit, Bool.and_eq_true, decide_eq_true_eq] at h
  exact ⟨UInt32.le_trans (by decide) h.1, UInt32.le_trans h.2 (by decide)⟩

theorem isAscii_natural (n : ℕ) : ∀ c ∈ DecimalText.natural n, IsAscii c := fun c hc =>
  isAscii_of_isDigit (DecimalText.natural_isDigit c hc)

theorem isAscii_integer (z : ℤ) : ∀ c ∈ DecimalText.integer z, IsAscii c := by
  intro c hc
  rcases List.mem_append.mp hc with hc | hc
  · split at hc
    · rw [List.mem_singleton.mp hc]
      decide
    · exact absurd hc List.not_mem_nil
  · exact isAscii_natural _ c hc

theorem isAscii_fixed (k : ℕ) (x : ℚ) : ∀ c ∈ DecimalText.fixed k x, IsAscii c := by
  intro c hc
  rcases List.mem_append.mp hc with hc | hc
  · split at hc
    · rw [List.mem_singleton.mp hc]
      decide
    · exact absurd hc List.not_mem_nil
  · rcases List.mem_append.mp hc with hc | hc
    · exact isAscii_natural _ c hc
    · rcases List.mem_cons.mp hc with rfl | hc
      · decide
      · exact isAscii_of_isDigit (DecimalText.lastDigits_isDigit _ _ c hc)

/-- Neither an infinity nor a NaN. -/
def Double.isFinite : Double → Bool
  | .finite _ => true
  | _ => false

/-- The number a finite value is. -/
def Double.value : Double → ℚ
  | .finite x => x
  | _ => 0

theorem Double.eq_finite {x : Double} (h : x.isFinite = true) : x = .finite x.value := by
  cases x with
  | finite x => rfl
  | posInf | negInf | nan => exact absurd h Bool.false_ne_true

/-- What a finite value of the type satisfies. -/
theorem Double.within_eq_finite {limit q : ℚ} {x : Double} (h : x.within limit = .finite q) :
    |q| < limit := by
  cases x with
  | finite y =>
    by_cases hhigh : limit ≤ y
    · simp [within, hhigh] at h
    · by_cases hlow : y ≤ -limit
      · simp [within, hhigh, hlow] at h
      · obtain rfl : y = q := by simpa [within, hhigh, hlow] using h
        exact abs_lt.mpr ⟨not_le.mp hlow, not_le.mp hhigh⟩
  | posInf | negInf | nan => exact absurd h (by simp [Double.within])

theorem two_pow_le (bits : ℕ) : 2 ^ bits ≤ 10 ^ (bits / 3 + 1) := by
  calc 2 ^ bits ≤ 2 ^ (3 * (bits / 3 + 1)) := Nat.pow_le_pow_right (by decide) (by omega)
    _ = (2 ^ 3) ^ (bits / 3 + 1) := pow_mul _ _ _
    _ ≤ 10 ^ (bits / 3 + 1) := Nat.pow_le_pow_left (by decide) _

namespace Directive

/-- A bound of the length that does not look at numbers. -/
def bound : Directive → ℕ
  | .text s => s.utf8ByteSize
  | .unsigned bits _ => bits / 3 + 1
  | .signed bits _ => bits / 3 + 2
  | .float k _ => 41 + k
  | .double k _ => 311 + k

/-- A float is finite in its type. -/
def IsFinite : Directive → Prop
  | .float _ x => (x.within floatLimit).isFinite = true
  | .double _ x => (x.within doubleLimit).isFinite = true
  | _ => True

/-- The text with a number for every float. -/
def chars : Directive → List Char
  | .text s => s.toList
  | .unsigned bits n => DecimalText.natural (n % 2 ^ bits)
  | .signed bits z => DecimalText.integer (z.bmod (2 ^ bits))
  | .float k x => DecimalText.fixed k (x.within floatLimit).value
  | .double k x => DecimalText.fixed k (x.within doubleLimit).value

theorem print_eq {c : Directive} (h : c.IsFinite) : c.print = c.chars := by
  cases c with
  | text s => rfl
  | unsigned bits n => rfl
  | signed bits z => rfl
  | float k x | double k x =>
    rw [print, Double.eq_finite h]
    rfl

theorem length_chars_le {c : Directive} (h : c.IsFinite) :
    (utf8 c.chars).length ≤ c.bound := by
  cases c with
  | text s => exact (length_utf8_toList s).le
  | unsigned bits n =>
    have hlt : n % 2 ^ bits < 10 ^ (bits / 3 + 1) :=
      (Nat.mod_lt n (Nat.two_pow_pos bits)).trans_le (two_pow_le bits)
    rw [chars, length_utf8_of_isAscii (isAscii_natural _)]
    exact DecimalText.length_natural_le (Nat.succ_pos _) hlt
  | signed bits z =>
    have hlt : (z.bmod (2 ^ bits)).natAbs < 10 ^ (bits / 3 + 1) := by
      have hpos := Nat.two_pow_pos bits
      have hhigh := Int.bmod_le (x := z) hpos
      have hlow := Int.le_bmod (x := z) hpos
      have hpow := two_pow_le bits
      omega
    rw [chars, length_utf8_of_isAscii (isAscii_integer _)]
    exact DecimalText.length_integer_le (Nat.succ_pos _) hlt
  | float k x =>
    have hlimit : |(x.within floatLimit).value| + 1 ≤ 10 ^ 39 := by
      have hq := Double.within_eq_finite (Double.eq_finite h)
      have hten : floatLimit + 1 ≤ 10 ^ 39 := by norm_num [floatLimit]
      linarith
    have hlength := DecimalText.length_fixed_le (k := k) (j := 39) (by decide) hlimit
    rw [chars, length_utf8_of_isAscii (isAscii_fixed k _), bound]
    omega
  | double k x =>
    have hlimit : |(x.within doubleLimit).value| + 1 ≤ 10 ^ 309 := by
      have hq := Double.within_eq_finite (Double.eq_finite h)
      have hten : 2 ^ 1024 ≤ 10 ^ 309 := by decide +kernel
      have hone : (1 : ℚ) ≤ 2 ^ 970 := one_le_pow₀ (by norm_num)
      calc |(x.within doubleLimit).value| + 1 ≤ doubleLimit + 2 ^ 970 := add_le_add hq.le hone
        _ = 2 ^ 1024 := sub_add_cancel _ _
        _ ≤ 10 ^ 309 := by exact_mod_cast hten
    have hlength := DecimalText.length_fixed_le (k := k) (j := 309) (by decide) hlimit
    rw [chars, length_utf8_of_isAscii (isAscii_fixed k _), bound]
    omega

end Directive

namespace Format

def bound (f : Format) : ℕ := (f.map Directive.bound).sum

/-- The text with a number for every float. -/
def chars (f : Format) : List Char := f.flatMap Directive.chars

theorem print_eq {f : Format} (h : ∀ c ∈ f, c.IsFinite) : f.print = f.chars := by
  unfold print chars
  exact List.flatMap_congr fun c hc => Directive.print_eq (h c hc)

theorem length_chars_le {f : Format} (h : ∀ c ∈ f, c.IsFinite) :
    (utf8 f.chars).length ≤ f.bound := by
  induction f with
  | nil => exact le_rfl
  | cons c f ih =>
    have hrest := ih fun d hd => h d (.tail c hd)
    have hfirst := Directive.length_chars_le (h c List.mem_cons_self)
    have hchars : chars (c :: f) = c.chars ++ chars f := List.flatMap_cons
    have hbound : bound (c :: f) = c.bound + bound f := List.sum_cons
    rw [hchars, utf8_append, List.length_append, hbound]
    omega

theorem isAscii_chars {f : Format} (h : ∀ s, .text s ∈ f → ∀ c ∈ s.toList, IsAscii c) :
    ∀ c ∈ f.chars, IsAscii c := by
  intro c hc
  obtain ⟨conversion, hmem, hc⟩ := List.mem_flatMap.mp hc
  cases conversion with
  | text s => exact h s hmem c hc
  | unsigned bits n => exact isAscii_natural _ c hc
  | signed bits z => exact isAscii_integer _ c hc
  | float k x | double k x => exact isAscii_fixed k _ c hc

end Format

/-- The array of the given size begins with the text, which takes at most `n` bytes. -/
structure Prints (o : Output) (size : ℕ) (t : List Char) (n : ℕ) : Prop where
  holds : o.Holds size (utf8 t)
  length : (utf8 t).length ≤ n

namespace Prints
variable {o : Output} {size n : ℕ} {t : List Char} {f : Format}

theorem printf (h : Prints o size t n) (hf : ∀ c ∈ f, c.IsFinite)
    (hfit : n + f.bound < size) : Prints (printf f o) size (t ++ f.chars) (n + f.bound) := by
  have hlength := Format.length_chars_le hf
  have hn := h.length
  refine ⟨?_, ?_⟩
  · rw [utf8_append, Ecotiter.printf, Format.print_eq hf]
    exact h.holds.snprintf (by omega)
  · rw [utf8_append, List.length_append]
    omega

theorem putChar {c : Char} (h : Prints o size t n) (hc : (utf8 [c]).length = 1)
    (hfit : n + 1 ≤ size) : Prints (putChar c o) size (t ++ [c]) (n + 1) := by
  have hn := h.length
  refine ⟨?_, ?_⟩
  · rw [utf8_append]
    exact h.holds.copy (by omega)
  · rw [utf8_append, List.length_append, hc]
    omega

theorem off_le (h : Prints o size t n) : o.off ≤ n := by
  rw [h.holds.off]
  exact h.length

theorem closed (h : Prints o size t n) (hfit : n + 1 < size) :
    Prints (closed o) size (t ++ ['\x7d']) (n + 1) := by
  have hoff := h.off_le
  have hsize := h.holds.size
  rw [Ecotiter.closed, if_pos (by omega)]
  exact h.putChar rfl (by omega)

theorem closedTwice (h : Prints o size t n) (hfit : n + 1 < size) :
    Prints (closedTwice o) size (t ++ ['\x7d', '\x7d']) (n + 2) := by
  have hoff := h.off_le
  have hsize := h.holds.size
  have htwice := (h.putChar (c := '\x7d') rfl (by omega)).putChar (c := '\x7d') rfl (by omega)
  rw [Ecotiter.closedTwice, if_pos (by omega)]
  rwa [List.append_assoc] at htwice

theorem terminate (h : Prints o size t n) : Prints o.terminate size t n :=
  ⟨h.holds.terminate, h.length⟩

theorem serializeStatusJson {state : BuretteState} {volumeMl : Option ℚ}
    (h : Prints o Config.maxRspSize t n)
    (hf : ∀ c ∈ statusFormat state volumeMl, c.IsFinite)
    (hfit : n + (statusFormat state volumeMl).bound < Config.maxRspSize) :
    Prints (serializeStatusJson state volumeMl o) Config.maxRspSize
      (t ++ (statusFormat state volumeMl).chars) (n + (statusFormat state volumeMl).bound) := by
  have hoff := h.off_le
  have hprinted := h.printf hf hfit
  have hbelow := hprinted.off_le
  rw [Ecotiter.serializeStatusJson, if_neg (by omega), if_neg (by omega)]
  exact hprinted

end Prints

theorem prints_freshBody : Prints freshBody Config.maxRspSize [] 0 where
  holds := Output.holds_empty List.length_replicate
  length := le_rfl

/-- Every output stayed inside the buffer, and the bytes up to the offset are one JSON object. -/
structure Complete (o : Output) : Prop where
  inside : o.inside = true
  off : o.off ≤ Config.maxRspSize
  object : ∃ t, utf8 t = o.text ∧ IsObject t

theorem Output.Holds.off_le {o : Output} {size : ℕ} {t : List UInt8} (h : o.Holds size t) :
    o.off ≤ size := by
  have htext : o.mem.take o.off = t := h.text
  have hlength := congrArg List.length htext
  rw [List.length_take, h.size, ← h.off] at hlength
  omega

theorem Prints.complete {o : Output} {t : List Char} {n : ℕ}
    (h : Prints o Config.maxRspSize t n) (ht : IsObject t) : Complete o where
  inside := h.holds.inside
  off := Output.Holds.off_le h.holds
  object := ⟨t, h.holds.text.symm, ht⟩

end Ecotiter
