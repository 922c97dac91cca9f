import Mathlib.Data.List.TakeWhile
import Ecotiter.FlatObjects
import Ecotiter.JsonFinders

/-!
# The members that the finders find

The loop of the finders on the text of a flat object. A string that is no name of a member is gone
over whatever it says, so the loop comes to the members with the name in their order and returns at
the first one that its finder takes.
-/

namespace Ecotiter
open BoundedOutput JsonText NumberScan

namespace MotorController

section
variable {α : Type} {key : List UInt8} {read : List UInt8 → Reading α}

/-! ## Going on -/

theorem toQuote_append {l : List UInt8} (hl : 34 ∉ l) (p : List UInt8) :
    toQuote (l ++ p) = toQuote p := by
  rw [toQuote, List.dropWhile_append_of_pos]
  · rfl
  · intro c hc
    exact decide_eq_true fun h => hl (h ▸ hc)

theorem scan_append {l : List UInt8} (hl : 34 ∉ l) (p : List UInt8) :
    scan key read (l ++ p) = scan key read p := by
  rw [scan, toQuote_append hl]
  conv_rhs => rw [scan]

theorem scan_nil : scan key read [] = some none := by
  rw [scan]
  rfl

theorem scan_short {p : List UInt8} (h : p.length < key.length + 3) :
    scan key read p = some none := by
  rw [scan]
  split_ifs with hnone hroom hname hcolon
  · rfl
  · rfl
  all_goals
    have hle := length_toQuote_le p
    have htail : (toQuote p).tail.length = (toQuote p).length - 1 := List.length_tail
    omega

theorem toQuote_quote (p : List UInt8) : toQuote (34 :: p) = 34 :: p :=
  List.dropWhile_cons_of_neg (by simp)

theorem scan_toQuote (p : List UInt8) : scan key read (toQuote p) = scan key read p := by
  have hsplit : p.takeWhile (· ≠ 34) ++ toQuote p = p := List.takeWhile_append_dropWhile
  have hquote : 34 ∉ p.takeWhile (· ≠ 34) := by
    intro h
    exact absurd (List.mem_takeWhile_imp h) (by decide)
  conv_rhs => rw [← hsplit]
  exact (scan_append hquote _).symm

/-- A quote that is not in front of the name. -/
theorem scan_other {p : List UInt8} (h : ¬ key ++ [34] <+: p) :
    scan key read (34 :: p) = scan key read p := by
  by_cases hroom : p.length < key.length + 2
  · rw [scan_short (by simp only [List.length_cons]; omega), scan_short (by omega)]
  · rw [scan, toQuote_quote, if_neg (List.cons_ne_nil _ _), List.tail_cons, if_neg hroom, if_neg h,
      scan_toQuote]

theorem skipBlanks_append_takeWhile (p : List UInt8) :
    p.takeWhile isBlank ++ skipBlanks p = p := List.takeWhile_append_dropWhile

theorem scan_skipBlanks (p : List UInt8) : scan key read (skipBlanks p) = scan key read p := by
  have hquote : 34 ∉ p.takeWhile isBlank := by
    intro h
    exact absurd (List.mem_takeWhile_imp h) (by decide)
  conv_rhs => rw [← skipBlanks_append_takeWhile p]
  exact (scan_append hquote _).symm

theorem behindName_name (rest : List UInt8) :
    behindName key (key ++ 34 :: rest) = skipBlanks rest := by
  have hname : key ++ 34 :: rest = (key ++ [34]) ++ rest := by simp
  have hlength : key.length + 1 = (key ++ [34]).length := by simp
  rw [behindName, hname, hlength, List.drop_left]

/-- The name without a colon behind it. -/
theorem scan_value {rest : List UInt8} (h : (skipBlanks rest).head? ≠ some 58) :
    scan key read (34 :: (key ++ 34 :: rest)) = scan key read rest := by
  have hprefix : key ++ [34] <+: key ++ 34 :: rest := by simp
  by_cases hroom : (key ++ 34 :: rest).length < key.length + 2
  · have hlength : (key ++ 34 :: rest).length = key.length + 1 + rest.length := by
      simp only [List.length_append, List.length_cons]
      omega
    rw [scan_short (by simp only [List.length_cons]; omega), scan_short (by omega)]
  · rw [scan, toQuote_quote, if_neg (List.cons_ne_nil _ _), List.tail_cons, if_neg hroom,
      if_pos hprefix, behindName_name, if_pos h, scan_skipBlanks]

/-- What the loop makes of a reading at a place. -/
def Reading.resume (r : Reading α) (next : Option (Option α)) : Option (Option α) :=
  match r with
  | .found v => some (some v)
  | .missing => some none
  | .outside => none
  | .goOn _ => next

/-- A finder goes on behind bytes that are no quotes. -/
def GoesOn (read : List UInt8 → Reading α) : Prop :=
  ∀ p bytes, read p = .goOn bytes → 34 ∉ p.take bytes

/-- The name with a colon behind it. -/
theorem scan_name (hread : GoesOn read) {rest value : List UInt8}
    (h : skipBlanks rest = 58 :: value) :
    scan key read (34 :: (key ++ 34 :: rest)) =
      (read (skipBlanks value)).resume (scan key read value) := by
  have hprefix : key ++ [34] <+: key ++ 34 :: rest := by simp
  have hroom : ¬ (key ++ 34 :: rest).length < key.length + 2 := by
    have hle : (skipBlanks rest).length ≤ rest.length := (List.dropWhile_suffix _).length_le
    rw [h, List.length_cons] at hle
    simp only [List.length_append, List.length_cons]
    omega
  have hcolon : ¬ (skipBlanks rest).head? ≠ some 58 := by
    rw [h]
    simp
  rw [scan, toQuote_quote, if_neg (List.cons_ne_nil _ _), List.tail_cons, if_neg hroom,
    if_pos hprefix, behindName_name, if_neg hcolon, atValue, behindName_name, h, List.tail_cons]
  cases hreading : read (skipBlanks value) with
  | found v => rfl
  | missing => rfl
  | outside => rfl
  | goOn bytes =>
    have hquote := hread _ _ hreading
    have hdrop : scan key read ((skipBlanks value).drop bytes) = scan key read (skipBlanks value) := by
      conv_rhs => rw [← List.take_append_drop bytes (skipBlanks value)]
      exact (scan_append hquote _).symm
    exact hdrop.trans (scan_skipBlanks value)

/-! ## Strings that are no names -/

/-- The bytes of letters; those of a letter beyond ASCII are not below 128. -/
def IsLetter (c : UInt8) : Prop := 65 ≤ c ∧ c ≤ 90 ∨ 97 ≤ c ∧ c ≤ 122 ∨ 128 ≤ c

instance (c : UInt8) : Decidable (IsLetter c) := inferInstanceAs (Decidable (_ ∨ _ ∨ _))

instance (key : List UInt8) : Decidable (∀ c ∈ key, IsLetter c) := key.decidableBAll IsLetter

/-- No name of letters begins here behind a quote. -/
def BeginsNoName (p : List UInt8) : Prop := ∀ c ∈ p.head?, ¬ IsLetter c ∧ c ≠ 34

theorem BeginsNoName.not_prefix (hkey : ∀ c ∈ key, IsLetter c) {p : List UInt8}
    (h : BeginsNoName p) : ¬ key ++ [34] <+: p := by
  intro hprefix
  obtain ⟨t, rfl⟩ := hprefix
  cases key with
  | nil => exact (h 34 rfl).2 rfl
  | cons c key => exact (h c rfl).1 (hkey c List.mem_cons_self)

theorem beginsNoName_mark {x : Lexeme} (hx : x.isMark) (line : List Lexeme) (rest : List UInt8) :
    BeginsNoName (bytes (x :: line) ++ rest) := by
  obtain ⟨b, hb, hsmall, hquote, hupper, hlower⟩ := utf8_mark hx
  rw [bytes_cons, hb]
  intro c hc
  obtain rfl : b = c := by simpa using hc
  refine ⟨?_, hquote⟩
  rintro (h | h | h)
  · exact hupper h
  · exact hlower h
  · exact absurd hsmall (UInt8.not_lt.mpr h)

/-- A value or the end of a member follows. -/
def NoColon (p : List UInt8) : Prop := (skipBlanks p).head? ≠ some 58

theorem isBlank_of_isDigit {b : UInt8} (h : NumberScan.isDigit b) : isBlank b = false := by
  cases hblank : isBlank b with
  | false => rfl
  | true =>
    simp only [isBlank, Bool.or_eq_true, decide_eq_true_eq] at hblank
    rcases hblank with (rfl | rfl) | rfl <;> exact absurd h (by decide)

/-- What a lexeme that is no blank begins with. -/
theorem head_lexeme {x : Lexeme} (hx : ∀ b, x ≠ .blank b) :
    ∃ b t, utf8 x.text = b :: t ∧ isBlank b = false ∧ (b = 58 → x = .punct .colon) := by
  cases x with
  | blank b => exact absurd rfl (hx b)
  | punct p => cases p <;> exact ⟨_, _, rfl, by decide, by decide⟩
  | word w => cases w <;> exact ⟨_, _, rfl, by decide, by decide⟩
  | string s => exact ⟨34, _, utf8_cons_ascii (by decide) _, by decide, fun h => absurd h (by decide)⟩
  | number n =>
    obtain ⟨b, t, htext, hb⟩ := text_head n
    refine ⟨b, t, htext, ?_, ?_⟩
    · rcases hb with rfl | hb
      · decide
      · exact isBlank_of_isDigit hb
    · rintro rfl
      rcases hb with hb | hb <;> exact absurd hb (by decide)

theorem skipBlanks_of_not_isBlank {b : UInt8} (h : isBlank b = false) (t : List UInt8) :
    skipBlanks (b :: t) = b :: t := List.dropWhile_cons_of_neg (by simp [h])

theorem noColon_line {line : List Lexeme} (hcolon : .punct .colon ∉ line) {rest : List UInt8}
    (hrest : NoColon rest) : NoColon (bytes line ++ rest) := by
  induction line with
  | nil => exact hrest
  | cons x line ih =>
    rw [List.mem_cons, not_or] at hcolon
    rw [bytes_cons, List.append_assoc]
    by_cases hblank : ∃ b, x = .blank b
    · obtain ⟨b, rfl⟩ := hblank
      cases b with
      | carriageReturn =>
        change NoColon (13 :: (bytes line ++ rest))
        rw [NoColon, skipBlanks_of_not_isBlank (by decide)]
        simp
      | space | tab | newline => exact ih hcolon.2
    · obtain ⟨b, t, htext, hb, hpunct⟩ := head_lexeme fun b hb => hblank ⟨b, hb⟩
      rw [NoColon, htext, List.cons_append, skipBlanks_of_not_isBlank hb]
      intro hhead
      exact hcolon.1 (hpunct (Option.some.inj hhead)).symm

/-- The loop goes over a line without colons. -/
theorem scan_line (hkey : ∀ c ∈ key, IsLetter c) {line : List Lexeme}
    (hplain : ∀ s, .string s ∈ line → ∀ p ∈ s, p.isPlain) (hcolon : .punct .colon ∉ line)
    (hmarked : Marked line) {rest : List UInt8} (hname : BeginsNoName rest)
    (hrest : NoColon rest) : scan key read (bytes line ++ rest) = scan key read rest := by
  induction line with
  | nil => rfl
  | cons x line ih =>
    rw [List.mem_cons, not_or] at hcolon
    have hnext := ih (fun s hs => hplain s (.tail x hs)) hcolon.2 hmarked.tail
    rw [bytes_cons, List.append_assoc]
    by_cases hstring : ∃ s, x = .string s
    · obtain ⟨s, rfl⟩ := hstring
      have hs := hplain s List.mem_cons_self
      have hquote : 34 ∉ utf8 (characters s) := quote_notMem_utf8 (quote_notMem_characters hs)
      have hquoteKey : 34 ∉ key := fun h => absurd (hkey 34 h) (by decide)
      have hbegins : BeginsNoName (bytes line ++ rest) := by
        cases line with
        | nil => exact hname
        | cons y line =>
          rcases (List.isChain_cons_cons.mp hmarked).1 with h | h
          · cases h
          · exact beginsNoName_mark h line rest
      rw [utf8_string hs, List.cons_append, List.append_assoc, List.singleton_append]
      by_cases heq : key = utf8 (characters s)
      · rw [← heq, scan_value (noColon_line hcolon.2 hrest), hnext]
      · have hno : ¬ key ++ [34] <+: utf8 (characters s) ++ 34 :: (bytes line ++ rest) := by
          rwa [QuotedText.prefix_iff hquoteKey hquote]
        rw [scan_other hno, scan_append hquote, scan_other (hbegins.not_prefix hkey), hnext]
    · have hquote : 34 ∉ utf8 x.text :=
        quote_notMem_utf8 (quote_not_mem fun s hs => hstring ⟨s, hs⟩)
      rw [scan_append hquote, hnext]

/-! ## One member after the other -/

/-- What stands behind a member. -/
def IsDelimiter (c : UInt8) : Prop := c = 44 ∨ c = 125

/-- The place of the value of a member. -/
def atMember (m : FlatMember) (rest : List UInt8) : List UInt8 :=
  skipBlanks (bytes (blanks m.gap ++ m.line ++ blanks m.after) ++ rest)

/-- A finder returns at the value of a member what it takes from the member, or it goes on. -/
structure Takes (read : List UInt8 → Reading α) (taken : FlatMember → Option α) : Prop where
  goesOn : GoesOn read
  reading : ∀ m c rest, IsDelimiter c → ∀ next,
    (read (atMember m (c :: rest))).resume next = (taken m).elim next fun v => some (some v)

variable {taken : FlatMember → Option α}

/-- What is taken from a member with a name. -/
def foundIn (key : List UInt8) (taken : FlatMember → Option α) (m : FlatMember) : Option α :=
  if m.key = key ∧ .carriageReturn ∉ m.mid then taken m else none

theorem quote_notMem_blanks (bs : List Blank) : 34 ∉ bytes (blanks bs) := by
  induction bs with
  | nil => exact List.not_mem_nil
  | cons b bs ih =>
    rw [blanks, List.map_cons, bytes_cons, List.mem_append, not_or]
    exact ⟨by cases b <;> decide, ih⟩

theorem skipBlanks_blanks {bs : List Blank} (h : .carriageReturn ∉ bs) (t : List UInt8) :
    skipBlanks (bytes (blanks bs) ++ t) = skipBlanks t := by
  induction bs with
  | nil => rfl
  | cons b bs ih =>
    rw [List.mem_cons, not_or] at h
    cases b with
    | carriageReturn => exact absurd rfl h.1
    | space | tab | newline => exact ih h.2

theorem skipBlanks_return {bs : List Blank} (h : .carriageReturn ∈ bs) (t : List UInt8) :
    ∃ t', skipBlanks (bytes (blanks bs) ++ t) = 13 :: t' := by
  induction bs with
  | nil => cases h
  | cons b bs ih =>
    cases b with
    | carriageReturn => exact ⟨_, skipBlanks_of_not_isBlank (by decide) _⟩
    | space | tab | newline => exact ih (by simpa using h)

theorem scan_member (hread : Takes read taken) (hkey : ∀ c ∈ key, IsLetter c) (m : FlatMember)
    {c : UInt8} (hc : IsDelimiter c) (rest : List UInt8) :
    scan key read (bytes m.lexemes ++ c :: rest) =
      (foundIn key taken m).elim (scan key read (c :: rest)) fun v => some (some v) := by
  have hmember : Parses Tree.builder (blanks m.gap ++ m.line ++ blanks m.after)
      (.elements [m.value]) := .element m.gap m.after m.parses
  have hplain : ∀ s, .string s ∈ blanks m.gap ++ m.line ++ blanks m.after → ∀ p ∈ s, p.isPlain := by
    intro s hs
    apply m.flat.plain s
    simpa [blanks] using hs
  have hcolon : .punct .colon ∉ blanks m.gap ++ m.line ++ blanks m.after := by
    apply hmember.colon_notMem _ (by simp)
    simpa [blanks] using m.flat.noObject
  have hend : BeginsNoName (c :: rest) ∧ NoColon (c :: rest) := by
    rcases hc with rfl | rfl
    · exact ⟨fun d hd => Option.some.inj hd ▸ by decide, by
        rw [NoColon, skipBlanks_of_not_isBlank (by decide)]; simp⟩
    · exact ⟨fun d hd => Option.some.inj hd ▸ by decide, by
        rw [NoColon, skipBlanks_of_not_isBlank (by decide)]; simp⟩
  have hvalue : scan key read (bytes (blanks m.gap ++ m.line ++ blanks m.after) ++ c :: rest) =
      scan key read (c :: rest) := scan_line hkey hplain hcolon hmember.marked hend.1 hend.2
  generalize hV : bytes (blanks m.gap ++ m.line ++ blanks m.after) ++ c :: rest = V at hvalue
  have hmid : scan key read (bytes (blanks m.mid) ++ 58 :: V) = scan key read (c :: rest) := by
    have hpunct : (34 : UInt8) ∉ [58] := by decide
    rw [scan_append (quote_notMem_blanks m.mid), ← hvalue]
    exact scan_append hpunct V
  have htext : bytes m.lexemes ++ c :: rest =
      bytes (blanks m.before) ++ 34 :: (m.key ++ 34 :: (bytes (blanks m.mid) ++ 58 :: V)) := by
    have hpunct : utf8 (Lexeme.punct .colon).text = [58] := by decide
    rw [FlatMember.lexemes, bytes_append, bytes_append, bytes_cons, bytes_cons, utf8_string m.plain,
      hpunct, ← hV]
    simp [FlatMember.key]
  have hquote : 34 ∉ m.key := quote_notMem_utf8 (quote_notMem_characters m.plain)
  have hquoteKey : 34 ∉ key := fun h => absurd (hkey 34 h) (by decide)
  rw [htext, scan_append (quote_notMem_blanks m.before)]
  by_cases heq : m.key = key
  · by_cases hreturn : .carriageReturn ∈ m.mid
    · have hnone : foundIn key taken m = none := if_neg fun h => h.2 hreturn
      obtain ⟨t, ht⟩ := skipBlanks_return hreturn (58 :: V)
      have hno : (skipBlanks (bytes (blanks m.mid) ++ 58 :: V)).head? ≠ some 58 := by
        rw [ht]
        simp
      rw [heq, scan_value hno, hmid, hnone]
      rfl
    · have hsome : foundIn key taken m = taken m := if_pos ⟨heq, hreturn⟩
      have hskip : skipBlanks (bytes (blanks m.mid) ++ 58 :: V) = 58 :: V := by
        rw [skipBlanks_blanks hreturn, skipBlanks_of_not_isBlank (by decide)]
      rw [heq, scan_name hread.goesOn hskip, hsome, hvalue, ← hread.reading m c rest hc, atMember, hV]
  · have hnone : foundIn key taken m = none := if_neg fun h => heq h.1
    have hno : ¬ key ++ [34] <+: m.key ++ 34 :: (bytes (blanks m.mid) ++ 58 :: V) := by
      rw [QuotedText.prefix_iff hquoteKey hquote]
      exact fun h => heq h.symm
    have hbegins : BeginsNoName (bytes (blanks m.mid) ++ 58 :: V) := by
      cases m.mid with
      | nil => exact fun d hd => Option.some.inj hd ▸ by decide
      | cons b bs => exact beginsNoName_mark rfl (blanks bs) (58 :: V)
    rw [scan_other hno, scan_append hquote, scan_other (hbegins.not_prefix hkey), hmid, hnone]
    rfl

theorem scan_members (hread : Takes read taken) (hkey : ∀ c ∈ key, IsLetter c)
    (ms : List FlatMember) (rest : List UInt8) :
    scan key read (bytes (memberLexemes ms) ++ 125 :: rest) =
      (ms.findSome? (foundIn key taken)).elim (scan key read (125 :: rest)) fun v => some (some v) := by
  induction ms with
  | nil => rfl
  | cons m ms ih =>
    cases ms with
    | nil =>
      rw [memberLexemes, scan_member hread hkey m (.inr rfl), List.findSome?_cons]
      cases foundIn key taken m <;> rfl
    | cons m' ms =>
      have hcomma : utf8 (Lexeme.punct .comma).text = [44] := by decide
      have hquote : (34 : UInt8) ∉ [44] := by decide
      have hnext : scan key read (44 :: (bytes (memberLexemes (m' :: ms)) ++ 125 :: rest)) =
          scan key read (bytes (memberLexemes (m' :: ms)) ++ 125 :: rest) := scan_append hquote _
      rw [memberLexemes, bytes_append, bytes_cons, hcomma, List.append_assoc, List.append_assoc,
        List.singleton_append, scan_member hread hkey m (.inl rfl), hnext, ih,
        List.findSome?_cons (a := m)]
      cases foundIn key taken m <;> rfl

/-- The loop finds the first member with the name that the finder takes. -/
theorem scan_object (hread : Takes read taken) (hkey : ∀ c ∈ key, IsLetter c) (o : FlatObject) :
    scan key read o.bytes = some (o.members.findSome? (foundIn key taken)) := by
  have hfirst : utf8 (Lexeme.punct .lbrace).text = [123] := by decide
  have hlast : utf8 (Lexeme.punct .rbrace).text = [125] := by decide
  have hbrace : (34 : UInt8) ∉ [123] := by decide
  have htext : o.bytes = bytes (blanks o.before) ++ ([123] ++ (bytes (blanks o.inner) ++
      (bytes (memberLexemes o.members) ++ 125 :: bytes (blanks o.after)))) := by
    rw [FlatObject.bytes, FlatObject.lexemes, bytes_append, bytes_append, bytes_append, bytes_cons,
      bytes_cons, bytes_append, hfirst, hlast]
    simp [bytes, text, utf8]
  have hquote : 34 ∉ 125 :: bytes (blanks o.after) := by
    rw [List.mem_cons, not_or]
    exact ⟨by decide, quote_notMem_blanks o.after⟩
  have hend : scan key read (125 :: bytes (blanks o.after)) = some none := by
    rw [← List.append_nil (125 :: bytes (blanks o.after)), scan_append hquote, scan_nil]
  rw [htext, scan_append (quote_notMem_blanks o.before), scan_append hbrace,
    scan_append (quote_notMem_blanks o.inner), scan_members hread hkey, hend]
  cases o.members.findSome? (foundIn key taken) <;> rfl

end
end MotorController
end Ecotiter
