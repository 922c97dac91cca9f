import Ecotiter.MemberFinding
import Ecotiter.ResponseJson

/-!
# The results of the finders

On the text of a flat object each of the four finders reads inside the text and returns the first
member with the name whose value begins like a value of its kind. It is compared with the value of
the member: a carriage return is no white space to the finders, and `findJsonInt` takes the integer
part of any number and brings it into 32 bits.
-/

namespace Ecotiter
open BoundedOutput JsonText NumberScan

namespace MotorController

/-! ## The values of the kinds -/

def asString : Tree → Option (List UInt8)
  | .string s => some (utf8 (characters s))
  | _ => none

/-- The integer part of a number. -/
def integerPart (n : NumberText) : ℤ := if n.negative then -(n.natural : ℤ) else n.natural

def asInt : Tree → Option ℤ
  | .number n => if n.isInteger then some (integerPart n) else none
  | _ => none

/-- The float nearest to the double nearest to a number. -/
def asFloat : Tree → Option Double
  | .number n => some (.finite (float32.round (float64.round n.value)))
  | _ => none

def asBool : Tree → Option Bool
  | .word .true => some true
  | .word .false => some false
  | _ => none

/-! ## What the finders take -/

def FinderBlanks (m : FlatMember) : Prop := .carriageReturn ∉ m.gap

instance (m : FlatMember) : Decidable (FinderBlanks m) := inferInstanceAs (Decidable (_ ∉ _))

def takenString (m : FlatMember) : Option (List UInt8) :=
  if FinderBlanks m then asString m.value else none

def takenInt (m : FlatMember) : Option ℤ :=
  match m.value with
  | .number n =>
    if FinderBlanks m then some (max (-2 ^ 31) (min (2 ^ 31 - 1) (integerPart n))) else none
  | _ => none

/-- `strtod` goes over every kind of white space. -/
def takenFloat (m : FlatMember) : Option Double :=
  match m.value with
  | .number n => some (Double.ofRat n.value).toFloat
  | _ => none

def takenBool (m : FlatMember) : Option Bool :=
  if FinderBlanks m then asBool m.value else none

/-! ## The place of a value -/

/-- The first byte of a value. -/
inductive BeginsWith : Tree → UInt8 → Prop
  | word {w : Word} {b : UInt8} (h : (utf8 w.text).head? = some b) : BeginsWith (.word w) b
  | number {n : NumberText} {b : UInt8} (h : b = 45 ∨ NumberScan.isDigit b) :
    BeginsWith (.number n) b
  | string {s : List Piece} : BeginsWith (.string s) 34
  | array {elems : List Tree} : BeginsWith (.array elems) 91

theorem line_begins (m : FlatMember) (rest : List UInt8) :
    ∃ b t, bytes m.line ++ rest = b :: t ∧ BeginsWith m.value b := by
  rcases value_cases m.parses m.flat with ⟨w, hline, hvalue⟩ | ⟨n, hline, hvalue⟩ |
    ⟨s, hline, hs, hvalue⟩ | ⟨l, elems, hline, hvalue⟩
  · rw [hline, hvalue, bytes_cons]
    cases w <;> exact ⟨_, _, rfl, .word rfl⟩
  · obtain ⟨b, t, htext, hb⟩ := text_head n
    rw [hline, hvalue, bytes_cons, Lexeme.text, htext]
    exact ⟨b, _, rfl, .number hb⟩
  · rw [hline, hvalue, bytes_cons, utf8_string hs]
    exact ⟨34, _, rfl, .string⟩
  · rw [hline, hvalue, bytes_cons]
    exact ⟨91, _, rfl, .array⟩

theorem line_of_word {m : FlatMember} {w : Word} (h : m.value = .word w) : m.line = [.word w] := by
  have hshape := shapeOf_value m.parses
  rw [h] at hshape
  exact hshape

theorem line_of_number {m : FlatMember} {n : NumberText} (h : m.value = .number n) :
    m.line = [.number n] := by
  have hshape := shapeOf_value m.parses
  rw [h] at hshape
  exact hshape

theorem line_of_string {m : FlatMember} {s : List Piece} (h : m.value = .string s) :
    m.line = [.string s] ∧ ∀ p ∈ s, p.isPlain := by
  have hshape := shapeOf_value m.parses
  rw [h] at hshape
  have hline : m.line = [.string s] := hshape
  exact ⟨hline, m.flat.plain s (hline ▸ List.mem_cons_self)⟩

theorem BeginsWith.not_isBlank {v : Tree} {b : UInt8} (h : BeginsWith v b) : isBlank b = false := by
  cases h with
  | word h => rename_i w; cases w <;> obtain rfl := Option.some.inj h <;> decide
  | number h =>
    rcases h with rfl | h
    · decide
    · exact isBlank_of_isDigit h
  | string => decide
  | array => decide

theorem atMember_of_blanks {m : FlatMember} (h : FinderBlanks m) (rest : List UInt8) :
    atMember m rest = bytes m.line ++ (bytes (blanks m.after) ++ rest) := by
  obtain ⟨b, t, htext, hb⟩ := line_begins m (bytes (blanks m.after) ++ rest)
  rw [atMember, bytes_append, bytes_append, List.append_assoc, List.append_assoc,
    skipBlanks_blanks h, htext, skipBlanks_of_not_isBlank hb.not_isBlank]

theorem atMember_of_return {m : FlatMember} (h : ¬ FinderBlanks m) (rest : List UInt8) :
    ∃ t, atMember m rest = 13 :: t := by
  obtain ⟨t, ht⟩ := skipBlanks_return (not_not.mp h) (bytes (m.line ++ blanks m.after) ++ rest)
  refine ⟨t, ?_⟩
  rw [atMember, List.append_assoc, bytes_append, List.append_assoc, ht]

/-- Blanks and delimiters end a number. -/
theorem after_head (m : FlatMember) {c : UInt8} (hc : IsDelimiter c) (rest : List UInt8) :
    ∃ d t, bytes (blanks m.after) ++ c :: rest = d :: t ∧ IsEnd d := by
  cases m.after with
  | nil =>
    refine ⟨c, rest, rfl, ?_⟩
    rcases hc with rfl | rfl <;> decide
  | cons b bs =>
    cases b <;> exact ⟨_, _, rfl, by decide⟩

/-! ## The finders at a place -/

theorem readString_goOn {b : UInt8} (hb : b ≠ 34) (t : List UInt8) :
    readString (b :: t) = .goOn 0 := by
  unfold readString
  split
  · rename_i h
    exact absurd (List.cons.inj h).1 hb
  · rfl

theorem readInt_goOn {b : UInt8} (hb : b ≠ 45) (hdigit : NumberScan.isDigit b = false)
    (t : List UInt8) : readInt (b :: t) = .goOn 0 := by
  simp [readInt, hb, hdigit]

theorem decimal_none {b : UInt8} (hspace : isSpace b = false)
    (hdigit : NumberScan.isDigit b = false) (hb : b ≠ 45 ∧ b ≠ 43 ∧ b ≠ 46) (t : List UInt8) :
    decimal (b :: t) = some none := by
  have hnil : ∀ {p : UInt8 → Bool}, ∀ x ∈ ([] : List UInt8), p x := nofun
  have hspan : ∀ {p : UInt8 → Bool}, p b = false → span p (b :: t) = some ([], b :: t) :=
    fun hp => span_append hnil hp t
  have hfraction : fraction (b :: t) = some ([], b :: t) := by
    rw [fraction, if_neg (by simpa using hb.2.2)]
  unfold decimal
  rw [hspan hspace]
  simp only [Option.bind_eq_bind, Option.bind_some]
  rw [sign_none hb.1 hb.2.1]
  simp only [Option.bind_some]
  rw [hspan hdigit]
  simp only [Option.bind_some]
  rw [hfraction]
  rfl

theorem decimal_skip {l : List UInt8} (hl : ∀ b ∈ l, isSpace b) (p : List UInt8) :
    decimal (l ++ p) = decimal p := by
  have hdrop : (l ++ p).dropWhile isSpace = p.dropWhile isSpace := List.dropWhile_append_of_pos hl
  unfold decimal span
  rw [hdrop]
  by_cases hnil : p.dropWhile isSpace = []
  · rw [if_pos hnil, if_pos hnil]
  · rw [if_neg hnil, if_neg hnil]
    rfl

/-- White space before a number does not matter to `strtod`. -/
theorem decimal_atMember (m : FlatMember) (rest : List UInt8) :
    decimal (atMember m rest) = decimal (bytes m.line ++ (bytes (blanks m.after) ++ rest)) := by
  have hspace : ∀ b ∈ bytes (blanks m.gap), isSpace b := by
    induction m.gap with
    | nil => exact nofun
    | cons b bs ih =>
      intro x hx
      rcases List.mem_append.mp hx with hx | hx
      · cases b <;> rw [List.mem_singleton.mp hx] <;> decide
      · exact ih x hx
  have hblank : ∀ b ∈ (bytes (blanks m.gap ++ m.line ++ blanks m.after) ++ rest).takeWhile isBlank,
      isSpace b := by
    intro b hb
    have hb := List.mem_takeWhile_imp hb
    simp only [isBlank, Bool.or_eq_true, decide_eq_true_eq] at hb
    rcases hb with (rfl | rfl) | rfl <;> decide
  have hskip := decimal_skip hblank
    (skipBlanks (bytes (blanks m.gap ++ m.line ++ blanks m.after) ++ rest))
  rw [skipBlanks_append_takeWhile] at hskip
  rw [atMember, ← hskip, bytes_append, bytes_append, List.append_assoc, List.append_assoc,
    decimal_skip hspace]

theorem readFloat_of_decimal {p : List UInt8} {val : Option ℚ} (h : decimal p = some val) :
    readFloat p = val.elim (.goOn 0) fun x => .found (Double.ofRat x).toFloat := by
  have hne : p ≠ [] := by
    rintro rfl
    cases h
  rw [readFloat, if_neg hne, strtod, h]
  cases val <;> rfl

theorem readInt_number {c : UInt8} (hc : IsEnd c) (n : NumberText) (rest : List UInt8) :
    readInt (utf8 n.text ++ c :: rest) =
      .found (max (-2 ^ 31) (min (2 ^ 31 - 1) (integerPart n))) := by
  obtain ⟨d, ds, hinteger⟩ := List.exists_cons_of_ne_nil n.integer_ne
  have hd := byte_of_isDigit (n.integer_isDigit d (by rw [hinteger]; exact List.mem_cons_self))
  have htext : utf8 n.text ++ c :: rest =
      utf8 (if n.negative then ['-'] else []) ++ d.val.toUInt8 ::
        (utf8 (ds ++ n.tail) ++ c :: rest) := by
    rw [NumberText.text, hinteger, utf8_append, List.cons_append, utf8_cons_ascii hd.1]
    simp
  have hdigits : ((utf8 n.text ++ c :: rest).drop
      (if (utf8 n.text ++ c :: rest).head? = some 45 then 1 else 0)).head?.any
        NumberScan.isDigit = true := by
    rw [htext]
    cases n.negative with
    | true => exact hd.2.1
    | false =>
      have hminus : ¬ d.val.toUInt8 = 45 := by
        intro h
        have hdigit := hd.2.1
        rw [h] at hdigit
        exact absurd hdigit (by decide)
      have hhead : ¬ (d.val.toUInt8 :: (utf8 (ds ++ n.tail) ++ c :: rest)).head? = some 45 := by
        simpa using hminus
      change Option.any _ (List.drop (if (d.val.toUInt8 :: (utf8 (ds ++ n.tail) ++ c :: rest)).head? =
        some 45 then 1 else 0) (d.val.toUInt8 :: _)).head? = true
      rw [if_neg hhead]
      exact hd.2.1
  rw [readInt, if_neg (not_not.mpr hdigits), strtol, integer_text _ hc]
  rfl

theorem readBool_goOn {b : UInt8} (hb : b ≠ 116 ∧ b ≠ 102) (t : List UInt8) :
    readBool (b :: t) = .goOn 0 := by
  have htrue : ¬ utf8 Word.true.text <+: b :: t := by
    intro h
    exact hb.1 (List.cons_prefix_cons.mp h).1.symm
  have hfalse : ¬ utf8 Word.false.text <+: b :: t := by
    intro h
    exact hb.2 (List.cons_prefix_cons.mp h).1.symm
  rw [readBool, if_neg htrue, if_neg hfalse]

theorem readString_string {s : List UInt8} (hs : 34 ∉ s) (rest : List UInt8) :
    readString (34 :: (s ++ 34 :: rest)) = .found s := by
  have hne : toQuote (s ++ 34 :: rest) ≠ [] := by
    rw [toQuote_append hs, toQuote_quote]
    exact List.cons_ne_nil _ _
  have htake : (s ++ 34 :: rest).takeWhile (· ≠ 34) = s := by
    rw [List.takeWhile_append_of_pos, List.takeWhile_cons_of_neg (by simp), List.append_nil]
    intro d hd
    exact decide_eq_true fun h => hs (h ▸ hd)
  rw [readString, if_neg hne, htake]

theorem readBool_word (w : Word) (rest : List UInt8) :
    readBool (utf8 w.text ++ rest) = (asBool (.word w)).elim (.goOn 0) .found := by
  cases w with
  | null => exact readBool_goOn (by decide) _
  | true => exact if_pos (List.prefix_append _ _)
  | false =>
    have htrue : ¬ utf8 Word.true.text <+: utf8 Word.false.text ++ rest := by
      intro h
      exact absurd (List.cons_prefix_cons.mp h).1 (by decide)
    rw [readBool, if_neg htrue, if_pos (List.prefix_append _ _)]
    rfl

/-! ## What a value of another kind does not begin with -/

namespace BeginsWith
variable {v : Tree} {b : UInt8}

theorem not_quote (h : BeginsWith v 34) (hv : ∀ s, v ≠ .string s) : False := by
  cases h with
  | word h => rename_i w; cases w <;> exact absurd h (by decide)
  | number h => rcases h with h | h <;> exact absurd h (by decide)
  | string => exact hv _ rfl

theorem not_number (h : BeginsWith v b) (hv : ∀ n, v ≠ .number n) :
    b ≠ 45 ∧ NumberScan.isDigit b = false := by
  cases h with
  | word h => rename_i w; cases w <;> obtain rfl := Option.some.inj h <;> decide
  | number h => exact absurd rfl (hv _)
  | string => decide
  | array => decide

theorem decimal (h : BeginsWith v b) (hv : ∀ n, v ≠ .number n) (t : List UInt8) :
    NumberScan.decimal (b :: t) = some none := by
  cases h with
  | word h =>
    rename_i w
    cases w <;> obtain rfl := Option.some.inj h <;>
      exact decimal_none (by decide) (by decide) (by decide) t
  | number h => exact absurd rfl (hv _)
  | string => exact decimal_none (by decide) (by decide) (by decide) t
  | array => exact decimal_none (by decide) (by decide) (by decide) t

theorem not_word (h : BeginsWith v b) (hv : ∀ w, v ≠ .word w) : b ≠ 116 ∧ b ≠ 102 := by
  induction h with
  | word h => exact absurd rfl (hv _)
  | number h =>
    constructor <;>
    · rintro rfl
      rcases h with h | h <;> exact absurd h (by decide)
  | string => decide
  | array => decide

end BeginsWith

/-! ## Each finder and what it takes -/

theorem takes_string : Takes readString takenString where
  goesOn p bytes h := by
    unfold readString at h
    split at h
    · split at h <;> cases h
    · obtain rfl := Reading.goOn.inj h
      exact List.not_mem_nil
  reading m c rest hc next := by
    by_cases hgap : FinderBlanks m
    · rw [atMember_of_blanks hgap, takenString, if_pos hgap]
      obtain ⟨b, t, htext, hb⟩ := line_begins m (bytes (blanks m.after) ++ c :: rest)
      cases hvalue : m.value with
      | string s =>
        obtain ⟨hline, hs⟩ := line_of_string hvalue
        have hquote : 34 ∉ utf8 (characters s) := quote_notMem_utf8 (quote_notMem_characters hs)
        have hstring : bytes m.line ++ (bytes (blanks m.after) ++ c :: rest) =
            34 :: (utf8 (characters s) ++ 34 :: (bytes (blanks m.after) ++ c :: rest)) := by
          rw [hline, bytes_cons, utf8_string hs]
          simp [bytes, text, utf8]
        rw [hstring, readString_string hquote]
        rfl
      | word w | number n | array elems =>
        rw [hvalue] at hb
        have hother : b ≠ 34 := by
          rintro rfl
          exact hb.not_quote (by simp)
        rw [htext, readString_goOn hother]
        rfl
      | object ms =>
        rw [hvalue] at hb
        cases hb
    · obtain ⟨t, ht⟩ := atMember_of_return hgap (c :: rest)
      rw [ht, takenString, if_neg hgap, readString_goOn (by decide)]
      rfl

theorem takes_int : Takes readInt takenInt where
  goesOn p bytes h := by
    have hsign : bytes = if p.head? = some 45 then 1 else 0 := by
      unfold readInt at h
      simp only at h
      generalize (if p.head? = some 45 then 1 else 0) = sign at h ⊢
      split at h
      · exact (Reading.goOn.inj h).symm
      · split at h
        · cases h
        · exact (Reading.goOn.inj h).symm
        · cases h
    rw [hsign]
    cases p with
    | nil => exact List.not_mem_nil
    | cons b t =>
      by_cases hb : b = 45
      · have hminus : (34 : UInt8) ∉ [45] := by decide
        rw [hb, List.head?_cons, if_pos rfl]
        exact hminus
      · rw [if_neg (by simpa using hb)]
        exact List.not_mem_nil
  reading m c rest hc next := by
    by_cases hgap : FinderBlanks m
    · obtain ⟨b, t, htext, hb⟩ := line_begins m (bytes (blanks m.after) ++ c :: rest)
      rw [atMember_of_blanks hgap, takenInt]
      cases hvalue : m.value with
      | number n =>
        obtain ⟨d, t, hafter, hd⟩ := after_head m hc rest
        have hnumber : bytes m.line = utf8 n.text := by
          rw [line_of_number hvalue, bytes_cons]
          exact List.append_nil _
        rw [hafter, hnumber, readInt_number hd]
        simp only [if_pos hgap]
        rfl
      | word w | string s | array elems =>
        rw [hvalue] at hb
        obtain ⟨hminus, hdigit⟩ := hb.not_number (by simp)
        rw [htext, readInt_goOn hminus hdigit]
        rfl
      | object ms =>
        rw [hvalue] at hb
        cases hb
    · obtain ⟨t, ht⟩ := atMember_of_return hgap (c :: rest)
      have hnone : takenInt m = none := by
        unfold takenInt
        split
        · rw [if_neg hgap]
        · rfl
      rw [ht, hnone, readInt_goOn (by decide) (by decide)]
      rfl

theorem takes_float : Takes readFloat takenFloat where
  goesOn p bytes h := by
    unfold readFloat at h
    split at h
    · obtain rfl := Reading.goOn.inj h
      exact List.not_mem_nil
    · split at h
      · cases h
      · obtain rfl := Reading.goOn.inj h
        exact List.not_mem_nil
      · cases h
  reading m c rest hc next := by
    have hdecimal := decimal_atMember m (c :: rest)
    obtain ⟨b, t, htext, hb⟩ := line_begins m (bytes (blanks m.after) ++ c :: rest)
    unfold takenFloat
    cases hvalue : m.value with
    | number n =>
      obtain ⟨d, t, hafter, hd⟩ := after_head m hc rest
      have hnumber : bytes m.line = utf8 n.text := by
        rw [line_of_number hvalue, bytes_cons]
        exact List.append_nil _
      rw [hafter, hnumber, decimal_text _ hd] at hdecimal
      rw [readFloat_of_decimal hdecimal]
      rfl
    | word w | string s | array elems =>
      rw [hvalue] at hb
      rw [htext, hb.decimal (by simp)] at hdecimal
      rw [readFloat_of_decimal hdecimal]
      rfl
    | object ms =>
      rw [hvalue] at hb
      cases hb

theorem takes_bool : Takes readBool takenBool where
  goesOn p bytes h := by
    unfold readBool at h
    split at h
    · cases h
    · split at h
      · cases h
      · obtain rfl := Reading.goOn.inj h
        exact List.not_mem_nil
  reading m c rest hc next := by
    by_cases hgap : FinderBlanks m
    · obtain ⟨b, t, htext, hb⟩ := line_begins m (bytes (blanks m.after) ++ c :: rest)
      rw [atMember_of_blanks hgap, takenBool, if_pos hgap]
      cases hvalue : m.value with
      | word w =>
        have hword : bytes m.line = utf8 w.text := by
          rw [line_of_word hvalue, bytes_cons]
          exact List.append_nil _
        rw [hword, readBool_word]
        cases w <;> rfl
      | number n | string s | array elems =>
        rw [hvalue] at hb
        rw [htext, readBool_goOn (hb.not_word (by simp))]
        rfl
      | object ms =>
        rw [hvalue] at hb
        cases hb
    · obtain ⟨t, ht⟩ := atMember_of_return hgap (c :: rest)
      rw [ht, takenBool, if_neg hgap, readBool_goOn (by decide)]
      rfl

/-! ## The results -/

/-- A name of letters. -/
structure Key where
  bytes : List UInt8
  letters : ∀ c ∈ bytes, IsLetter c

/-- The members with a name. -/
def named (o : FlatObject) (key : Key) : List FlatMember :=
  o.members.filter fun m => m.key = key.bytes

/-- The result of a finder when these members have the name. -/
structure Finds {α : Type} (result : Option (Option α)) (kind : Tree → Option α)
    (members : List FlatMember) : Prop where
  inside : result.isSome
  member : ∀ m, members = [m] → result = some (kind m.value)
  missing : members = [] → result = some none

/-- The four finders read inside the text, give the value of the member with the name when it is of
their kind, and fail otherwise. -/
structure FindsMembers (o : FlatObject) (key : Key) : Prop where
  string : Finds (findJsonString o.bytes key.bytes) asString (named o key)
  int : Finds (findJsonInt o.bytes key.bytes) asInt (named o key)
  float : Finds (findJsonFloat o.bytes key.bytes) asFloat (named o key)
  bool : Finds (findJsonBool o.bytes key.bytes) asBool (named o key)

/-- A number is in the range of `double`, and its double in the one of `float`. -/
def FitsFloat (x : ℚ) : Prop :=
  |float64.round x| < doubleLimit ∧ |float32.round (float64.round x)| < floatLimit

/-- The finders read the member as it is. -/
def Readable (m : FlatMember) : Prop :=
  match m.value with
  | .string _ | .word .true | .word .false => .carriageReturn ∉ m.mid ∧ .carriageReturn ∉ m.gap
  | .number n =>
    .carriageReturn ∉ m.mid ∧ FitsFloat n.value ∧
      if n.isInteger then
        .carriageReturn ∉ m.gap ∧ -2 ^ 31 ≤ integerPart n ∧ integerPart n ≤ 2 ^ 31 - 1
      else .carriageReturn ∈ m.gap
  | _ => True

section
variable {α : Type} {read : List UInt8 → Reading α} {taken : FlatMember → Option α}
  {kind : Tree → Option α}

/-- The same as what is found in it, where it is the only member with the name. -/
def takenBehind (taken : FlatMember → Option α) (m : FlatMember) : Option α :=
  if .carriageReturn ∉ m.mid then taken m else none

theorem findSome_foundIn (key : Key) (ms : List FlatMember) :
    ms.findSome? (foundIn key.bytes taken) =
      (ms.filter fun m => m.key = key.bytes).findSome? (takenBehind taken) := by
  induction ms with
  | nil => rfl
  | cons m ms ih =>
    by_cases hname : m.key = key.bytes
    · have hfound : foundIn key.bytes taken m = takenBehind taken m := by
        simp [foundIn, takenBehind, hname]
      rw [List.filter_cons_of_pos (by simpa using hname), List.findSome?_cons, List.findSome?_cons,
        hfound, ih]
    · have hfound : foundIn key.bytes taken m = none := if_neg fun h => hname h.1
      rw [List.filter_cons_of_neg (by simpa using hname), List.findSome?_cons, hfound, ih]

theorem finds_iff (hread : Takes read taken) (o : FlatObject) (key : Key) :
    Finds (scan key.bytes read o.bytes) kind (named o key) ↔
      ∀ m, named o key = [m] → takenBehind taken m = kind m.value := by
  have hscan : scan key.bytes read o.bytes =
      some ((named o key).findSome? (takenBehind taken)) := by
    rw [scan_object hread key.letters, findSome_foundIn]
    rfl
  rw [hscan]
  constructor
  · intro h m hm
    have hmember := h.member m hm
    rw [hm, List.findSome?_singleton] at hmember
    exact Option.some.inj hmember
  · intro h
    refine ⟨rfl, ?_, ?_⟩
    · intro m hm
      rw [hm, List.findSome?_singleton, h m hm]
    · intro hnil
      rw [hnil]
      rfl

end

theorem findJsonString_eq (json key : List UInt8) :
    findJsonString json key = scan key readString json := by
  unfold findJsonString
  split
  · exact (scan_short (by assumption)).symm
  · rfl

theorem within_finite_iff (limit q : ℚ) :
    (Double.finite q).within limit = .finite q ↔ |q| < limit := by
  constructor
  · exact Double.within_eq_finite
  · intro h
    obtain ⟨hlow, hhigh⟩ := abs_lt.mp h
    rw [Double.within, if_neg (not_le.mpr hhigh), if_neg (not_le.mpr hlow)]

theorem within_infinite {limit q : ℚ} (h : ¬ |q| < limit) :
    (Double.finite q).within limit = .posInf ∨ (Double.finite q).within limit = .negInf := by
  by_cases hhigh : limit ≤ q
  · exact .inl (if_pos hhigh)
  · have hlow : q ≤ -limit := by
      rw [abs_lt, not_and_or, not_lt, not_lt] at h
      exact h.resolve_right hhigh
    rw [Double.within, if_neg hhigh, if_pos hlow]
    exact .inr rfl

theorem toFloat_ofRat_iff (x : ℚ) :
    (Double.ofRat x).toFloat = .finite (float32.round (float64.round x)) ↔ FitsFloat x := by
  by_cases hdouble : |float64.round x| < doubleLimit
  · have hfinite : Double.ofRat x = .finite (float64.round x) := (within_finite_iff _ _).mpr hdouble
    rw [hfinite, Double.toFloat, within_finite_iff, FitsFloat]
    exact ⟨fun h => ⟨hdouble, h⟩, fun h => h.2⟩
  · refine ⟨?_, fun h => absurd h.1 hdouble⟩
    intro h
    rcases within_infinite hdouble with hinf | hinf <;>
    · rw [Double.ofRat, hinf] at h
      cases h

/-! ## The members that are read as they are -/

theorem clamp_iff (z : ℤ) :
    max (-2 ^ 31) (min (2 ^ 31 - 1) z) = z ↔ -2 ^ 31 ≤ z ∧ z ≤ 2 ^ 31 - 1 := by omega

theorem takenBehind_none (m : FlatMember) {α : Type} {taken : FlatMember → Option α}
    (h : taken m = none) : takenBehind taken m = none := by
  rw [takenBehind, h, ite_self]

/-- What the finders take of a member is its value if it is readable. -/
theorem readable_iff (m : FlatMember) :
    (takenBehind takenString m = asString m.value ∧ takenBehind takenInt m = asInt m.value ∧
      takenBehind takenFloat m = asFloat m.value ∧ takenBehind takenBool m = asBool m.value) ↔
      Readable m := by
  cases hvalue : m.value with
  | word w =>
    have hstring : takenString m = none := by simp [takenString, hvalue, asString]
    have hint : takenInt m = none := by simp [takenInt, hvalue]
    have hfloat : takenFloat m = none := by simp [takenFloat, hvalue]
    rw [takenBehind_none m hstring, takenBehind_none m hint, takenBehind_none m hfloat, Readable,
      hvalue]
    cases w <;> simp [takenBehind, takenBool, hvalue, asBool, asString, asInt, asFloat, FinderBlanks]
  | number n =>
    have hstring : takenString m = none := by simp [takenString, hvalue, asString]
    have hbool : takenBool m = none := by simp [takenBool, hvalue, asBool]
    rw [takenBehind_none m hstring, takenBehind_none m hbool, Readable, hvalue]
    by_cases hmid : .carriageReturn ∈ m.mid
    · simp [takenBehind, hmid, asFloat]
    · have hfloat : takenBehind takenFloat m = some (Double.ofRat n.value).toFloat := by
        simp [takenBehind, hmid, takenFloat, hvalue]
      have hint : takenBehind takenInt m =
          if FinderBlanks m then some (max (-2 ^ 31) (min (2 ^ 31 - 1) (integerPart n)))
          else none := by
        simp [takenBehind, hmid, takenInt, hvalue]
      rw [hfloat, hint]
      simp only [asString, asInt, asFloat, asBool, true_and, and_true, hmid, not_false_eq_true,
        Option.some.injEq, toFloat_ofRat_iff, FinderBlanks]
      by_cases hinteger : n.isInteger <;> by_cases hgap : .carriageReturn ∈ m.gap
      · simp [hinteger, hgap]
      · simp only [hinteger, hgap, not_false_eq_true, if_true, Option.some.injEq, clamp_iff,
          true_and]
        exact and_comm
      · simp [hinteger, hgap]
      · simp [hinteger, hgap]
  | string s =>
    have hint : takenInt m = none := by simp [takenInt, hvalue]
    have hfloat : takenFloat m = none := by simp [takenFloat, hvalue]
    have hbool : takenBool m = none := by simp [takenBool, hvalue, asBool]
    rw [takenBehind_none m hint, takenBehind_none m hfloat, takenBehind_none m hbool, Readable,
      hvalue]
    simp [takenBehind, takenString, hvalue, asBool, asString, asInt, asFloat, FinderBlanks]
  | array elems =>
    have hstring : takenString m = none := by simp [takenString, hvalue, asString]
    have hint : takenInt m = none := by simp [takenInt, hvalue]
    have hfloat : takenFloat m = none := by simp [takenFloat, hvalue]
    have hbool : takenBool m = none := by simp [takenBool, hvalue, asBool]
    rw [takenBehind_none m hstring, takenBehind_none m hint, takenBehind_none m hfloat,
      takenBehind_none m hbool, Readable, hvalue]
    simp [asBool, asString, asInt, asFloat]
  | object ms =>
    obtain ⟨b, t, -, hb⟩ := line_begins m []
    rw [hvalue] at hb
    cases hb

/-- The finders are right on an object unless the member with the name is not readable. -/
theorem findsMembers_iff (o : FlatObject) (key : Key) :
    FindsMembers o key ↔ ∀ m, named o key = [m] → Readable m := by
  have hstring : findJsonString o.bytes key.bytes = scan key.bytes readString o.bytes :=
    findJsonString_eq _ _
  constructor
  · intro h m hm
    have h1 := h.string
    rw [hstring] at h1
    exact (readable_iff m).mp ⟨(finds_iff takes_string o key).mp h1 m hm,
      (finds_iff takes_int o key).mp h.int m hm, (finds_iff takes_float o key).mp h.float m hm,
      (finds_iff takes_bool o key).mp h.bool m hm⟩
  · intro h
    have hall := fun m hm => (readable_iff m).mpr (h m hm)
    refine ⟨?_, ?_, ?_, ?_⟩
    · rw [hstring]
      exact (finds_iff takes_string o key).mpr fun m hm => (hall m hm).1
    · exact (finds_iff takes_int o key).mpr fun m hm => (hall m hm).2.1
    · exact (finds_iff takes_float o key).mpr fun m hm => (hall m hm).2.2.1
    · exact (finds_iff takes_bool o key).mpr fun m hm => (hall m hm).2.2.2

def fractionText : NumberText where
  negative := false
  integer := ['3', '0']
  fraction := ['9']
  exponent := none
  integer_ne := by decide
  integer_isDigit := List.all_eq_true.mp rfl
  integer_zero := by decide
  fraction_isDigit := List.all_eq_true.mp rfl

def fractionMember : FlatMember where
  name := JsonText.plain "speedHz"
  value := .number fractionText
  line := [.number fractionText]
  plain := by decide
  flat := ⟨by simp, by simp⟩
  parses := .number fractionText

def speedKey : Key := ⟨utf8 "speedHz".toList, by decide⟩

/-- Of a number with a fraction `findJsonInt` returns the integer part. -/
theorem fraction_not_findsMembers : ¬ FindsMembers ⟨[fractionMember], [], [], []⟩ speedKey := by
  intro h
  have hnamed : named ⟨[fractionMember], [], [], []⟩ speedKey = [fractionMember] :=
    List.filter_cons_of_pos (by decide)
  have htaken := (finds_iff takes_int _ _).mp h.int fractionMember hnamed
  revert htaken
  decide

end MotorController
end Ecotiter
