import Ecotiter.DecimalText
import Ecotiter.JsonText

/-!
# Writing JSON

The text of a value is put together from the texts of its parts. What is built here carries the
derivation that its text is one value, so that a text that is equal to it is well formed.
-/

namespace JsonText

/-- A value as it is written. -/
inductive Tree
  | word (w : Word)
  | number (n : NumberText)
  | string (s : List Piece)
  | array (elems : List Tree)
  | object (members : List (List Piece × Tree))

def Tree.builder : Builder Tree where
  word := .word
  number := .number
  string := .string
  array := .array
  object := .object

/-- A text that is one object, with blanks around it. -/
def IsObject (t : List Char) : Prop :=
  ∃ line members, text line = t ∧ Denotes Tree.builder line (.object members)

/-! ## Strings and numbers -/

/-- A character that stands for itself in a string. -/
def IsPlain (c : Char) : Prop := c ≠ '"' ∧ c ≠ '\\' ∧ 32 ≤ c.toNat

instance (c : Char) : Decidable (IsPlain c) := inferInstanceAs (Decidable (_ ∧ _))

instance (s : List Char) : Decidable (∀ c ∈ s, IsPlain c) := s.decidableBAll IsPlain

/-- A string without escapes. -/
def pieces : (s : List Char) → (∀ c ∈ s, IsPlain c) → List Piece
  | [], _ => []
  | c :: s, h => .plain c (h c List.mem_cons_self) :: pieces s fun d hd => h d (.tail c hd)

@[simp] theorem pieces_text {s : List Char} (h : ∀ c ∈ s, IsPlain c) :
    (pieces s h).flatMap Piece.text = s := by
  induction s with
  | nil => rfl
  | cons c s ih => exact congrArg (c :: ·) (ih fun d hd => h d (.tail c hd))

/-- The characters of a literal, which are decided without taking its bytes apart. -/
theorem isPlain_literal {s : List Char} (h : ∀ c ∈ s, IsPlain c) :
    ∀ c ∈ (String.ofList s).toList, IsPlain c := by
  rw [String.toList_ofList]
  exact h

/-- A constant string. -/
def plain (s : String)
    (h : ∀ c ∈ s.toList, IsPlain c := by exact isPlain_literal (by decide)) : List Piece :=
  pieces s.toList h

@[simp] theorem plain_text {s : String} (h : ∀ c ∈ s.toList, IsPlain c) :
    (plain s h).flatMap Piece.text = s.toList := pieces_text h

theorem digitsValue_natural (n : ℕ) : digitsValue (DecimalText.natural n) = n := by
  have hfold : ∀ l : List Char, digitsValue l = Nat.ofDigitChars 10 l 0 := by
    intro l
    rw [Nat.ofDigitChars_eq_foldl, digitsValue]
    simp only [Nat.mul_comm]
  rw [hfold]
  exact Nat.ofDigitChars_ten_toDigits

namespace NumberText

def ofInteger (z : ℤ) : NumberText where
  negative := z < 0
  integer := DecimalText.natural z.natAbs
  fraction := []
  exponent := none
  integer_ne := DecimalText.natural_ne_nil _
  integer_isDigit := DecimalText.natural_isDigit
  integer_zero := DecimalText.natural_head
  fraction_isDigit := noFraction

def ofFixed (k : ℕ) (x : ℚ) : NumberText where
  negative := x < 0
  integer := DecimalText.natural (DecimalText.units k x / 10 ^ k)
  fraction := DecimalText.lastDigits k (DecimalText.units k x)
  exponent := none
  integer_ne := DecimalText.natural_ne_nil _
  integer_isDigit := DecimalText.natural_isDigit
  integer_zero := DecimalText.natural_head
  fraction_isDigit := DecimalText.lastDigits_isDigit _ _

theorem ofInteger_text (z : ℤ) : (ofInteger z).text = DecimalText.integer z := by
  simp [text, tail, ofInteger, DecimalText.integer]

theorem value_ofInteger (n : ℕ) : (ofInteger (n : ℤ)).value = n := by
  have hsign : (ofInteger (n : ℤ)).negative = false := by
    change decide ((n : ℤ) < 0) = false
    exact decide_eq_false (by omega)
  have hdigits : digitsValue ((ofInteger (n : ℤ)).integer ++ (ofInteger (n : ℤ)).fraction) = n := by
    change digitsValue (DecimalText.natural n ++ []) = n
    rw [List.append_nil, digitsValue_natural]
  rw [value, hsign, hdigits]
  simp [ofInteger]

theorem ofFixed_text {k : ℕ} (hk : 0 < k) (x : ℚ) :
    (ofFixed k x).text = DecimalText.fixed k x := by
  have hne : DecimalText.lastDigits k (DecimalText.units k x) ≠ [] := by
    apply List.ne_nil_of_length_pos
    rwa [DecimalText.length_lastDigits]
  simp [text, tail, ofFixed, DecimalText.fixed, hne]

end NumberText

/-! ## Values -/

/-- A line of lexemes that is one value. -/
structure Written {V : Type} (B : Builder V) where
  line : List Lexeme
  value : V
  parses : Parses B line (.value value)

namespace Written
variable {V : Type} {B : Builder V}

def text (w : Written B) : List Char := JsonText.text w.line

def word (w : Word) : Written B := ⟨[.word w], B.word w, .word w⟩

def number (n : NumberText) : Written B := ⟨[.number n], B.number n, .number n⟩

def string (s : List Piece) : Written B := ⟨[.string s], B.string s, .string s⟩

theorem parses_element (w : Written B) : Parses B w.line (.elements [w.value]) := by
  simpa [blanks] using Parses.element [] [] w.parses

/-- One value and others after it, as the elements of an array. -/
def elementsLine (w : Written B) : List (Written B) → List Lexeme
  | [] => w.line
  | w' :: ws => w.line ++ .punct .comma :: w'.elementsLine ws

theorem parses_elementsLine (w : Written B) (ws : List (Written B)) :
    Parses B (w.elementsLine ws) (.elements ((w :: ws).map value)) := by
  induction ws generalizing w with
  | nil => exact w.parses_element
  | cons w' ws ih => exact .elements w.parses_element (ih w')

def array : List (Written B) → Written B
  | [] => ⟨[.punct .lbracket, .punct .rbracket], _, .emptyArray []⟩
  | w :: ws => ⟨_, _, .array (w.parses_elementsLine ws)⟩

def memberLine (key : List Piece) (w : Written B) : List Lexeme :=
  .string key :: .punct .colon :: w.line

theorem parses_memberLine (key : List Piece) (w : Written B) :
    Parses B (memberLine key w) (.members [(key, w.value)]) := by
  simpa [blanks, memberLine] using Parses.member key [] [] w.parses_element

/-- One member and others after it, as the members of an object. -/
def membersLine (key : List Piece) (w : Written B) :
    List (List Piece × Written B) → List Lexeme
  | [] => memberLine key w
  | m :: ms => memberLine key w ++ .punct .comma :: membersLine m.1 m.2 ms

theorem parses_membersLine (key : List Piece) (w : Written B)
    (ms : List (List Piece × Written B)) :
    Parses B (membersLine key w ms)
      (.members ((key, w.value) :: ms.map fun m => (m.1, m.2.value))) := by
  induction ms generalizing key w with
  | nil => exact parses_memberLine key w
  | cons m ms ih => exact .members (parses_memberLine key w) (ih m.1 m.2)

def object : List (List Piece × Written B) → Written B
  | [] => ⟨[.punct .lbrace, .punct .rbrace], _, .emptyObject []⟩
  | m :: ms => ⟨_, _, .object (parses_membersLine m.1 m.2 ms)⟩

/-! ## The texts of values -/

@[simp] theorem text_word (w : Word) : (word w : Written B).text = w.text := by
  simp [word, text, JsonText.text, Lexeme.text]

@[simp] theorem text_number (n : NumberText) : (number n : Written B).text = n.text := by
  simp [number, text, JsonText.text, Lexeme.text]

@[simp] theorem text_string (s : List Piece) :
    (string s : Written B).text = '"' :: s.flatMap Piece.text ++ ['"'] := by
  simp [string, text, JsonText.text, Lexeme.text]

theorem text_elementsLine (w : Written B) (ws : List (Written B)) :
    JsonText.text (w.elementsLine ws) =
      w.text ++ ws.flatMap fun w' => ',' :: w'.text := by
  induction ws generalizing w with
  | nil => simp [elementsLine, text]
  | cons w' ws ih =>
    have hcomma : JsonText.text (.punct .comma :: w'.elementsLine ws) =
        ',' :: JsonText.text (w'.elementsLine ws) := rfl
    rw [elementsLine, JsonText.text, List.flatMap_append]
    change w.text ++ JsonText.text (.punct .comma :: w'.elementsLine ws) = _
    rw [hcomma, ih w']
    rfl

@[simp] theorem text_array_nil : (array [] : Written B).text = ['[', ']'] := rfl

@[simp] theorem text_array_cons (w : Written B) (ws : List (Written B)) :
    (array (w :: ws)).text = '[' :: w.text ++ (ws.flatMap fun w' => ',' :: w'.text) ++ [']'] := by
  have hline := text_elementsLine w ws
  simp only [array, text, JsonText.text, List.flatMap_append, List.flatMap_cons] at hline ⊢
  rw [hline]
  simp [Lexeme.text, Punct.char]

/-- The text of a member. -/
def memberText (m : List Piece × Written B) : List Char :=
  '"' :: m.1.flatMap Piece.text ++ '"' :: ':' :: m.2.text

theorem text_membersLine (key : List Piece) (w : Written B)
    (ms : List (List Piece × Written B)) :
    JsonText.text (membersLine key w ms) =
      memberText (key, w) ++ ms.flatMap fun m => ',' :: memberText m := by
  induction ms generalizing key w with
  | nil => simp [membersLine, memberLine, memberText, text, JsonText.text, Lexeme.text, Punct.char]
  | cons m ms ih =>
    have hcomma : JsonText.text (.punct .comma :: membersLine m.1 m.2 ms) =
        ',' :: JsonText.text (membersLine m.1 m.2 ms) := rfl
    have hmember : JsonText.text (memberLine key w) = memberText (key, w) := by
      simp [memberLine, memberText, text, JsonText.text, Lexeme.text, Punct.char]
    rw [membersLine, JsonText.text, List.flatMap_append]
    change JsonText.text (memberLine key w) ++
      JsonText.text (.punct .comma :: membersLine m.1 m.2 ms) = _
    rw [hcomma, hmember, ih m.1 m.2]
    rfl

@[simp] theorem text_object_cons (m : List Piece × Written B)
    (ms : List (List Piece × Written B)) :
    (object (m :: ms)).text =
      '\x7b' :: memberText m ++ (ms.flatMap fun m' => ',' :: memberText m') ++ ['\x7d'] := by
  have hline := text_membersLine m.1 m.2 ms
  simp only [object, text, JsonText.text, List.flatMap_append, List.flatMap_cons] at hline ⊢
  rw [hline]
  simp [Lexeme.text, Punct.char]

theorem isObject_object (ms : List (List Piece × Written Tree.builder)) :
    IsObject (object ms).text := by
  cases ms with
  | nil => exact ⟨_, _, rfl, (object []).parses_element⟩
  | cons m ms => exact ⟨_, _, rfl, (object (m :: ms)).parses_element⟩

end Written
end JsonText
