import Ecotiter.JsonText
import Ecotiter.Utf8Bytes

/-!
# Numbers at the front of a slice

`strtol` and `strtod` read a number from bytes that are not terminated: they go on until a byte does
not belong to the number. On a slice that ends earlier the result is `none`. Of what `strtod` takes
for a number only the decimal form is here, the one of a JSON text.
-/

namespace NumberScan
open BoundedOutput JsonText

def isDigit (c : UInt8) : Bool := 48 ≤ c && c ≤ 57

def isSpace (c : UInt8) : Bool := c = 32 || (9 ≤ c && c ≤ 13)

def digitsValue (digits : List UInt8) : ℕ :=
  digits.foldl (fun value c => value * 10 + (c.toNat - 48)) 0

/-- The bytes in front of the first one without a property, and what follows from that one on. -/
def span (p : UInt8 → Bool) (t : List UInt8) : Option (List UInt8 × List UInt8) :=
  if t.dropWhile p = [] then none else some (t.takeWhile p, t.dropWhile p)

def sign : List UInt8 → Option (Bool × List UInt8)
  | [] => none
  | 45 :: t => some (true, t)
  | 43 :: t => some (false, t)
  | t => some (false, t)

/-- The integer of `strtol` before it is brought into the range of `long`; the inner `none` is a
text without one. -/
def integer (t : List UInt8) : Option (Option ℤ) := do
  let (_, t) ← span isSpace t
  let (negative, t) ← sign t
  let (digits, _) ← span isDigit t
  return if digits = [] then none
    else some (if negative then -digitsValue digits else digitsValue digits)

/-- The digits after a point, if there is one. -/
def fraction (t : List UInt8) : Option (List UInt8 × List UInt8) :=
  if t.head? = some 46 then span isDigit t.tail else some ([], t)

/-- The value of an exponent, zero if there is none or if it has no digits. -/
def exponent (t : List UInt8) : Option ℤ :=
  if t.head? = some 101 ∨ t.head? = some 69 then do
    let (negative, t) ← sign t.tail
    let (digits, _) ← span isDigit t
    return if negative then -digitsValue digits else digitsValue digits
  else some 0

/-- The number of `strtod` before it is rounded. -/
def decimal (t : List UInt8) : Option (Option ℚ) := do
  let (_, t) ← span isSpace t
  let (negative, t) ← sign t
  let (integer, t) ← span isDigit t
  let (fraction, t) ← fraction t
  if integer = [] ∧ fraction = [] then return none
  else do
    let e ← exponent t
    return some ((if negative then -1 else 1) * digitsValue (integer ++ fraction) *
      10 ^ (e - fraction.length))

/-! ## The parts of a number -/

theorem span_append {p : UInt8 → Bool} {l : List UInt8} {c : UInt8} (hl : ∀ b ∈ l, p b)
    (hc : p c = false) (rest : List UInt8) : span p (l ++ c :: rest) = some (l, c :: rest) := by
  have hdrop : (l ++ c :: rest).dropWhile p = c :: rest := by
    rw [List.dropWhile_append_of_pos hl, List.dropWhile_cons_of_neg (by simp [hc])]
  have htake : (l ++ c :: rest).takeWhile p = l := by
    rw [List.takeWhile_append_of_pos hl, List.takeWhile_cons_of_neg (by simp [hc]), List.append_nil]
  rw [span, hdrop, htake, if_neg (List.cons_ne_nil _ _)]

theorem byte_of_isDigit {c : Char} (h : c.isDigit) :
    c.val ≤ 127 ∧ isDigit c.val.toUInt8 ∧ c.val.toUInt8.toNat - 48 = c.toNat - '0'.toNat := by
  simp only [Char.isDigit, Bool.and_eq_true, decide_eq_true_eq, UInt32.le_iff_toNat_le] at h
  obtain ⟨hlow, hhigh⟩ := h
  have hlow : 48 ≤ c.val.toNat := hlow
  have hhigh : c.val.toNat ≤ 57 := hhigh
  have hbyte : c.val.toUInt8.toNat = c.val.toNat := by
    rw [UInt32.toNat_toUInt8]
    exact Nat.mod_eq_of_lt (by omega)
  refine ⟨?_, ?_, ?_⟩
  · rw [UInt32.le_iff_toNat_le]
    change c.val.toNat ≤ 127
    omega
  · simp only [isDigit, Bool.and_eq_true, decide_eq_true_eq, UInt8.le_iff_toNat_le, hbyte]
    exact ⟨hlow, hhigh⟩
  · rw [hbyte]
    rfl

variable {digits : List Char}

theorem utf8_digits (h : ∀ c ∈ digits, c.isDigit) :
    utf8 digits = digits.map fun c => c.val.toUInt8 :=
  utf8_ascii fun c hc => (byte_of_isDigit (h c hc)).1

theorem isDigit_utf8 (h : ∀ c ∈ digits, c.isDigit) : ∀ b ∈ utf8 digits, isDigit b := by
  rw [utf8_digits h]
  intro b hb
  obtain ⟨c, hc, rfl⟩ := List.mem_map.mp hb
  exact (byte_of_isDigit (h c hc)).2.1

theorem digitsValue_utf8 (h : ∀ c ∈ digits, c.isDigit) :
    digitsValue (utf8 digits) = JsonText.digitsValue digits := by
  rw [utf8_digits h, digitsValue, List.foldl_map, JsonText.digitsValue]
  apply List.foldl_ext
  intro value c hc
  rw [(byte_of_isDigit (h c hc)).2.2]

theorem utf8_ne_nil {t : List Char} (h : t ≠ []) : utf8 t ≠ [] := by
  obtain ⟨c, t, rfl⟩ := List.exists_cons_of_ne_nil h
  rw [utf8_cons]
  have hsize := c.utf8Size_pos
  rw [← String.length_utf8EncodeChar] at hsize
  intro hnil
  rw [(List.append_eq_nil_iff.mp hnil).1] at hsize
  exact absurd hsize (lt_irrefl _)

/-- A byte that is no sign is left. -/
theorem sign_none {b : UInt8} (hminus : b ≠ 45) (hplus : b ≠ 43) (t : List UInt8) :
    sign (b :: t) = some (false, b :: t) := by
  unfold sign
  split
  · rename_i h
    cases h
  · rename_i h
    exact absurd (List.cons.inj h).1 hminus
  · rename_i h
    exact absurd (List.cons.inj h).1 hplus
  · rfl

theorem sign_digit {b : UInt8} (h : isDigit b) (negative : Bool) (t : List UInt8) :
    sign (utf8 (if negative then ['-'] else []) ++ b :: t) = some (negative, b :: t) := by
  cases negative with
  | true => rfl
  | false =>
    have hminus : b ≠ 45 := by
      rintro rfl
      exact absurd h (by decide)
    have hplus : b ≠ 43 := by
      rintro rfl
      exact absurd h (by decide)
    exact sign_none hminus hplus t

theorem isSpace_of_isDigit {b : UInt8} (h : isDigit b) : isSpace b = false := by
  simp only [isDigit, Bool.and_eq_true, decide_eq_true_eq, UInt8.le_iff_toNat_le] at h
  have hlow : 48 ≤ b.toNat := h.1
  have hspace : b ≠ 32 := by
    rintro rfl
    exact absurd hlow (by decide)
  have hhigh : ¬ b ≤ 13 := by
    rw [UInt8.le_iff_toNat_le]
    change ¬ b.toNat ≤ 13
    omega
  simp [isSpace, hspace, hhigh]

/-- The end of a number: a byte that belongs to none. -/
def IsEnd (c : UInt8) : Prop := isDigit c = false ∧ c ≠ 46 ∧ c ≠ 101 ∧ c ≠ 69

instance (c : UInt8) : Decidable (IsEnd c) := inferInstanceAs (Decidable (_ ∧ _))

variable {c : UInt8} (rest : List UInt8)

/-- The text of an exponent, empty if there is none. -/
def exponentText (n : NumberText) : List Char := (n.exponent.map Exponent.text).getD []

theorem exponentText_head (hc : IsEnd c) (n : NumberText) :
    ∃ b t, utf8 (exponentText n) ++ c :: rest = b :: t ∧ isDigit b = false ∧ b ≠ 46 := by
  unfold exponentText
  cases n.exponent with
  | none => exact ⟨c, rest, rfl, hc.1, hc.2.1⟩
  | some e =>
    have hmark : e.mark.val ≤ 127 ∧ isDigit e.mark.val.toUInt8 = false ∧
        e.mark.val.toUInt8 ≠ 46 := by
      rcases e.mark_eq with h | h <;> rw [h] <;> decide
    refine ⟨e.mark.val.toUInt8, utf8 (e.sign ++ e.digits) ++ c :: rest, ?_, hmark.2⟩
    rw [Option.map_some, Option.getD_some, Exponent.text, utf8_cons_ascii hmark.1]
    rfl

theorem tail_head (hc : IsEnd c) (n : NumberText) :
    ∃ b t, utf8 n.tail ++ c :: rest = b :: t ∧ isDigit b = false := by
  obtain ⟨b, t, htext, hb, -⟩ := exponentText_head rest hc n
  rw [NumberText.tail, utf8_append, List.append_assoc]
  change ∃ b' t', utf8 _ ++ (utf8 (exponentText n) ++ c :: rest) = b' :: t' ∧ isDigit b' = false
  rw [htext]
  by_cases hfraction : n.fraction = []
  · rw [if_pos hfraction]
    exact ⟨b, t, rfl, hb⟩
  · rw [if_neg hfraction, utf8_cons_ascii (by decide)]
    exact ⟨_, _, rfl, by decide⟩

theorem text_head (n : NumberText) : ∃ b t, utf8 n.text = b :: t ∧ (b = 45 ∨ isDigit b) := by
  obtain ⟨d, ds, hinteger⟩ := List.exists_cons_of_ne_nil n.integer_ne
  have hd := byte_of_isDigit (n.integer_isDigit d (by rw [hinteger]; exact List.mem_cons_self))
  rw [NumberText.text, hinteger]
  cases n.negative with
  | true => exact ⟨_, _, utf8_cons_ascii (by decide) _, .inl rfl⟩
  | false => exact ⟨_, _, utf8_cons_ascii hd.1 _, .inr hd.2.1⟩

/-- The sign and the digits in front are read as they are written. -/
theorem read_integer (hc : IsEnd c) (n : NumberText) :
    span isSpace (utf8 n.text ++ c :: rest) = some ([], utf8 n.text ++ c :: rest) ∧
      sign (utf8 n.text ++ c :: rest) =
        some (n.negative, utf8 n.integer ++ (utf8 n.tail ++ c :: rest)) ∧
      span isDigit (utf8 n.integer ++ (utf8 n.tail ++ c :: rest)) =
        some (utf8 n.integer, utf8 n.tail ++ c :: rest) := by
  obtain ⟨b, t, htail, hb⟩ := tail_head rest hc n
  obtain ⟨d, ds, hinteger⟩ := List.exists_cons_of_ne_nil n.integer_ne
  have hd := byte_of_isDigit (n.integer_isDigit d (by rw [hinteger]; exact List.mem_cons_self))
  have hfirst : utf8 n.integer = d.val.toUInt8 :: utf8 ds := by rw [hinteger, utf8_cons_ascii hd.1]
  have htext : utf8 n.text ++ c :: rest =
      utf8 (if n.negative then ['-'] else []) ++ d.val.toUInt8 ::
        (utf8 ds ++ (utf8 n.tail ++ c :: rest)) := by
    rw [NumberText.text, utf8_append, utf8_append, hfirst]
    simp
  have hspan := span_append (isDigit_utf8 n.integer_isDigit) hb t
  refine ⟨?_, ?_, ?_⟩
  · obtain ⟨b', t', hhead, hb'⟩ := text_head n
    rw [hhead]
    have hnil : ∀ x ∈ ([] : List UInt8), isSpace x := fun _ hx => absurd hx List.not_mem_nil
    refine span_append hnil ?_ (t' ++ c :: rest)
    rcases hb' with rfl | hdigit
    · decide
    · exact isSpace_of_isDigit hdigit
  · rw [htext, sign_digit hd.2.1, hfirst]
    rfl
  · rw [htail, hspan]

/-- `strtol` reads the integer part of a number. -/
theorem integer_text (hc : IsEnd c) (n : NumberText) :
    integer (utf8 n.text ++ c :: rest) =
      some (some (if n.negative then -(n.natural : ℤ) else n.natural)) := by
  obtain ⟨hspace, hsign, hdigits⟩ := read_integer rest hc n
  unfold integer
  rw [hspace]
  simp only [Option.bind_eq_bind, Option.bind_some]
  rw [hsign]
  simp only [Option.bind_some]
  rw [hdigits]
  simp only [Option.bind_some]
  rw [if_neg (utf8_ne_nil n.integer_ne), digitsValue_utf8 n.integer_isDigit]
  rfl

theorem fraction_text {b : UInt8} {t : List UInt8} (hb : isDigit b = false) (hpoint : b ≠ 46)
    (n : NumberText) :
    fraction (utf8 (if n.fraction = [] then [] else '.' :: n.fraction) ++ b :: t) =
      some (utf8 n.fraction, b :: t) := by
  by_cases hfraction : n.fraction = []
  · rw [if_pos hfraction, hfraction]
    change fraction (b :: t) = _
    rw [fraction, if_neg (by simpa using hpoint)]
    rfl
  · rw [if_neg hfraction, utf8_cons_ascii (by decide), List.cons_append, fraction]
    have hhead : ('.'.val.toUInt8 :: (utf8 n.fraction ++ b :: t)).head? = some 46 := rfl
    rw [if_pos hhead, List.tail_cons, span_append (isDigit_utf8 n.fraction_isDigit) hb t]

theorem exponent_text (hc : IsEnd c) (n : NumberText) :
    exponent (utf8 (exponentText n) ++ c :: rest) = some ((n.exponent.map Exponent.value).getD 0) := by
  unfold exponentText
  cases n.exponent with
  | none =>
    change exponent (c :: rest) = some 0
    rw [exponent, if_neg (by simpa using ⟨hc.2.2.1, hc.2.2.2⟩)]
  | some e =>
    obtain ⟨d, ds, hdigits⟩ := List.exists_cons_of_ne_nil e.digits_ne
    have hd := byte_of_isDigit (e.digits_isDigit d (by rw [hdigits]; exact List.mem_cons_self))
    have hfirst : utf8 e.digits = d.val.toUInt8 :: utf8 ds := by rw [hdigits, utf8_cons_ascii hd.1]
    have hspan := span_append (isDigit_utf8 e.digits_isDigit) hc.1 rest
    have hvalue := digitsValue_utf8 e.digits_isDigit
    have hmark : e.mark.val ≤ 127 ∧ (e.mark.val.toUInt8 = 101 ∨ e.mark.val.toUInt8 = 69) := by
      rcases e.mark_eq with h | h <;> rw [h] <;> decide
    have hsign : sign (utf8 e.sign ++ (utf8 e.digits ++ c :: rest)) =
        some (decide (e.sign = ['-']), utf8 e.digits ++ c :: rest) := by
      rw [hfirst]
      rcases e.sign_eq with h | h | h
      · rw [h]
        exact sign_digit hd.2.1 false _
      · rw [h]
        rfl
      · rw [h]
        exact sign_digit hd.2.1 true _
    have htext : utf8 ((some e |>.map Exponent.text).getD []) ++ c :: rest =
        e.mark.val.toUInt8 :: (utf8 e.sign ++ (utf8 e.digits ++ c :: rest)) := by
      rw [Option.map_some, Option.getD_some, Exponent.text, utf8_cons_ascii hmark.1, utf8_append]
      simp
    rw [htext, exponent, if_pos (by simpa using hmark.2), List.tail_cons]
    simp only [Option.bind_eq_bind]
    rw [hsign]
    simp only [Option.bind_some]
    rw [hspan]
    simp only [Option.bind_some, hvalue, decide_eq_true_eq, Option.map_some, Option.getD_some,
      Exponent.value]
    rfl

/-- `strtod` reads the value of a number. -/
theorem decimal_text (hc : IsEnd c) (n : NumberText) :
    decimal (utf8 n.text ++ c :: rest) = some (some n.value) := by
  obtain ⟨hspace, hsign, hdigits⟩ := read_integer rest hc n
  obtain ⟨b, t, hexponent, hb, hpoint⟩ := exponentText_head rest hc n
  have htail : utf8 n.tail ++ c :: rest =
      utf8 (if n.fraction = [] then [] else '.' :: n.fraction) ++ b :: t := by
    rw [← hexponent, NumberText.tail, utf8_append, List.append_assoc]
    rfl
  have hvalue : digitsValue (utf8 n.integer ++ utf8 n.fraction) =
      JsonText.digitsValue (n.integer ++ n.fraction) := by
    rw [← utf8_append]
    apply digitsValue_utf8
    intro d hd
    rcases List.mem_append.mp hd with hd | hd
    · exact n.integer_isDigit d hd
    · exact n.fraction_isDigit d hd
  have hlength : (utf8 n.fraction).length = n.fraction.length := by
    rw [utf8_digits n.fraction_isDigit, List.length_map]
  unfold decimal
  rw [hspace]
  simp only [Option.bind_eq_bind, Option.bind_some]
  rw [hsign]
  simp only [Option.bind_some]
  rw [hdigits]
  simp only [Option.bind_some]
  rw [htail, fraction_text hb hpoint]
  simp only [Option.bind_some]
  rw [if_neg (fun h => utf8_ne_nil n.integer_ne h.1), ← hexponent, exponent_text rest hc]
  simp only [Option.bind_some, hvalue, hlength]
  rfl

end NumberScan
