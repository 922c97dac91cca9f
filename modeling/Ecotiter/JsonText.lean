import Mathlib.Algebra.Field.Rat
import Mathlib.Data.List.Chain

/-!
# The text of a JSON value

JSON as a grammar over lexemes, with the blanks between them. Which values the texts stand for is
left open: a `Builder` says what a number, a string, an array and an object become.
-/

namespace JsonText

def IsHex (c : Char) : Prop := c.isDigit ∨ 'a' ≤ c ∧ c ≤ 'f' ∨ 'A' ≤ c ∧ c ≤ 'F'

/-- A character of a string, as it is written. -/
inductive Piece
  | plain (c : Char) (h : c ≠ '"' ∧ c ≠ '\\' ∧ 32 ≤ c.toNat)
  | escape (c : Char) (h : c ∈ ['"', '\\', '/', 'b', 'f', 'n', 'r', 't'])
  | unicode (code : List Char) (h : code.length = 4 ∧ ∀ c ∈ code, IsHex c)
  deriving DecidableEq

def Piece.text : Piece → List Char
  | .plain c _ => [c]
  | .escape c _ => ['\\', c]
  | .unicode code _ => '\\' :: 'u' :: code

/-- The text of a string with its first quote. -/
def opened (s : List Piece) : List Char := '"' :: s.flatMap Piece.text

/-- The number a list of digits stands for. -/
def digitsValue (digits : List Char) : ℕ :=
  digits.foldl (fun value c => value * 10 + (c.toNat - '0'.toNat)) 0

def hexValue (code : List Char) : ℕ :=
  code.foldl (fun value c => value * 16 +
    if c.isDigit then c.toNat - '0'.toNat
    else if 'a' ≤ c then c.toNat - 'a'.toNat + 10 else c.toNat - 'A'.toNat + 10) 0

def unescape : Char → Char
  | 'b' => '\x08'
  | 'f' => '\x0c'
  | 'n' => '\n'
  | 'r' => '\r'
  | 't' => '\t'
  | c => c

/-- The characters a string stands for; two escapes can make one character. -/
def characters : List Piece → List Char
  | [] => []
  | .plain c _ :: s => c :: characters s
  | .escape c _ :: s => unescape c :: characters s
  | .unicode high _ :: s =>
    if 0xD800 ≤ hexValue high ∧ hexValue high < 0xDC00 then
      match s with
      | .unicode low _ :: s =>
        Char.ofNat (0x10000 + (hexValue high - 0xD800) * 0x400 + (hexValue low - 0xDC00)) ::
          characters s
      | s => Char.ofNat (hexValue high) :: characters s
    else Char.ofNat (hexValue high) :: characters s

structure Exponent where
  mark : Char
  sign : List Char
  digits : List Char
  mark_eq : mark = 'e' ∨ mark = 'E'
  sign_eq : sign = [] ∨ sign = ['+'] ∨ sign = ['-']
  digits_ne : digits ≠ []
  digits_isDigit : ∀ c ∈ digits, c.isDigit
  deriving DecidableEq

namespace Exponent

def text (e : Exponent) : List Char := e.mark :: (e.sign ++ e.digits)

def value (e : Exponent) : ℤ :=
  if e.sign = ['-'] then -digitsValue e.digits else digitsValue e.digits

end Exponent

/-- A number: its integer part, the digits after a point, if there is one, and an exponent. -/
structure NumberText where
  negative : Bool
  integer : List Char
  fraction : List Char
  exponent : Option Exponent
  integer_ne : integer ≠ []
  integer_isDigit : ∀ c ∈ integer, c.isDigit
  integer_zero : integer.head? = some '0' → integer = ['0']
  fraction_isDigit : ∀ c ∈ fraction, c.isDigit
  deriving DecidableEq

namespace NumberText

theorem noFraction : ∀ c ∈ ([] : List Char), c.isDigit := fun _ hc => absurd hc List.not_mem_nil

/-- What follows the integer part. -/
def tail (n : NumberText) : List Char :=
  (if n.fraction = [] then [] else '.' :: n.fraction) ++ (n.exponent.map Exponent.text).getD []

def text (n : NumberText) : List Char :=
  (if n.negative then ['-'] else []) ++ (n.integer ++ n.tail)

def isInteger (n : NumberText) : Bool := n.fraction = [] && n.exponent.isNone

/-- The number its integer part stands for. -/
def natural (n : NumberText) : ℕ := digitsValue n.integer

def value (n : NumberText) : ℚ :=
  (if n.negative then -1 else 1) * digitsValue (n.integer ++ n.fraction) *
    10 ^ ((n.exponent.map Exponent.value).getD 0 - n.fraction.length)

end NumberText

inductive Punct
  | lbrace | rbrace | lbracket | rbracket | comma | colon
  deriving DecidableEq, Repr

def Punct.char : Punct → Char
  | .lbrace => '\x7b'
  | .rbrace => '\x7d'
  | .lbracket => '['
  | .rbracket => ']'
  | .comma => ','
  | .colon => ':'

inductive Word
  | null | true | false
  deriving DecidableEq, Repr

def Word.text : Word → List Char
  | .null => ['n', 'u', 'l', 'l']
  | .true => ['t', 'r', 'u', 'e']
  | .false => ['f', 'a', 'l', 's', 'e']

inductive Blank
  | space | tab | newline | carriageReturn
  deriving DecidableEq, Repr

def Blank.char : Blank → Char
  | .space => ' '
  | .tab => '\t'
  | .newline => '\n'
  | .carriageReturn => '\r'

inductive Lexeme
  | blank (b : Blank)
  | punct (p : Punct)
  | word (w : Word)
  | number (n : NumberText)
  | string (s : List Piece)
  deriving DecidableEq

namespace Lexeme

def text : Lexeme → List Char
  | .blank b => [b.char]
  | .punct p => [p.char]
  | .word w => w.text
  | .number n => n.text
  | .string s => '"' :: s.flatMap Piece.text ++ ['"']

def isNumber : Lexeme → Bool
  | .number _ => true
  | _ => false

end Lexeme

/-- The marks are the lexemes between the others. -/
def Lexeme.isMark : Lexeme → Bool
  | .blank _ | .punct _ => true
  | _ => false

/-- The text of a line of lexemes. -/
def text (line : List Lexeme) : List Char := line.flatMap Lexeme.text

/-- What the parts of a text become. -/
structure Builder (V : Type) where
  word : Word → V
  number : NumberText → V
  string : List Piece → V
  array : List V → V
  object : List (List Piece × V) → V

/-- What a part of a text stands for: a value, the elements of an array or the members of an
object. -/
inductive Meaning (V : Type)
  | value (v : V)
  | elements (vs : List V)
  | members (ms : List (List Piece × V))

/-- Blanks as lexemes. -/
def blanks (bs : List Blank) : List Lexeme := bs.map .blank

inductive Parses {V : Type} (B : Builder V) : List Lexeme → Meaning V → Prop
  | word (w : Word) : Parses B [.word w] (.value (B.word w))
  | number (n : NumberText) : Parses B [.number n] (.value (B.number n))
  | string (s : List Piece) : Parses B [.string s] (.value (B.string s))
  | emptyArray (bs : List Blank) :
    Parses B (.punct .lbracket :: blanks bs ++ [.punct .rbracket]) (.value (B.array []))
  | array {l : List Lexeme} {vs : List V} (h : Parses B l (.elements vs)) :
    Parses B (.punct .lbracket :: l ++ [.punct .rbracket]) (.value (B.array vs))
  | emptyObject (bs : List Blank) :
    Parses B (.punct .lbrace :: blanks bs ++ [.punct .rbrace]) (.value (B.object []))
  | object {l : List Lexeme} {ms : List (List Piece × V)} (h : Parses B l (.members ms)) :
    Parses B (.punct .lbrace :: l ++ [.punct .rbrace]) (.value (B.object ms))
  | element {l : List Lexeme} {v : V} (before after : List Blank) (h : Parses B l (.value v)) :
    Parses B (blanks before ++ l ++ blanks after) (.elements [v])
  | elements {l l' : List Lexeme} {v : V} {vs : List V} (h : Parses B l (.elements [v]))
      (h' : Parses B l' (.elements vs)) :
    Parses B (l ++ .punct .comma :: l') (.elements (v :: vs))
  | member {l : List Lexeme} {v : V} (key : List Piece) (before mid : List Blank)
      (h : Parses B l (.elements [v])) :
    Parses B (blanks before ++ .string key :: blanks mid ++ .punct .colon :: l)
      (.members [(key, v)])
  | members {l l' : List Lexeme} {m : List Piece × V} {ms : List (List Piece × V)}
      (h : Parses B l (.members [m])) (h' : Parses B l' (.members ms)) :
    Parses B (l ++ .punct .comma :: l') (.members (m :: ms))

/-- A text that is one value, with blanks around it. -/
def Denotes {V : Type} (B : Builder V) (line : List Lexeme) (v : V) : Prop :=
  Parses B line (.elements [v])

/-- No number directly follows another. -/
def Separated (line : List Lexeme) : Prop := line.IsChain fun a b => a.isNumber → ¬ b.isNumber

/-- Of two lexemes next to each other one is a mark. -/
def Marked (line : List Lexeme) : Prop := line.IsChain fun a b => a.isMark ∨ b.isMark

/-! ## The texts of the parts -/

theorem IsHex.ne_quote {c : Char} (h : IsHex c) : c ≠ '"' := by
  rintro rfl
  revert h
  unfold IsHex
  decide

theorem ne_quote_of_isDigit {c : Char} (h : c.isDigit) : c ≠ '"' := by
  rintro rfl
  exact absurd h (by decide)

/-- A quote stands only after a backslash. -/
def QuotesEscaped (l : List Char) : Prop := l.IsChain fun a b => b = '"' → a = '\\'

theorem QuotesEscaped.append {l r : List Char} (hl : '"' ∉ l) (hr : ∀ c, QuotesEscaped (c :: r))
    (c : Char) : QuotesEscaped (c :: (l ++ r)) := by
  induction l generalizing c with
  | nil => exact hr c
  | cons d l ih =>
    rw [List.mem_cons, not_or] at hl
    exact List.isChain_cons_cons.mpr ⟨fun hd => absurd hd.symm hl.1, ih hl.2 d⟩

theorem opened_quotesEscaped (s : List Piece) : QuotesEscaped (opened s) := by
  suffices hgen : ∀ c, QuotesEscaped (c :: s.flatMap Piece.text) from hgen '"'
  induction s with
  | nil => exact fun c => List.isChain_singleton c
  | cons p s ih =>
    intro c
    rw [List.flatMap_cons]
    cases p with
    | plain d h => exact QuotesEscaped.append (by simpa [Piece.text] using h.1.symm) ih c
    | escape d h =>
      have hd : QuotesEscaped ('\\' :: d :: s.flatMap Piece.text) :=
        List.isChain_cons_cons.mpr ⟨fun _ => rfl, ih d⟩
      exact List.isChain_cons_cons.mpr ⟨fun h => absurd h (by decide), hd⟩
    | unicode code h =>
      have hcode : '"' ∉ '\\' :: 'u' :: code := by
        have hmem : '"' ∉ code := fun hq => (h.2 _ hq).ne_quote rfl
        simpa using hmem
      exact QuotesEscaped.append hcode ih c

theorem Exponent.quote_not_mem (e : Exponent) : '"' ∉ e.text := by
  have hmark : e.mark ≠ '"' := by
    rcases e.mark_eq with h | h <;> rw [h] <;> decide
  have hsign : '"' ∉ e.sign := by
    rcases e.sign_eq with h | h | h <;> rw [h] <;> decide
  have hdigits : '"' ∉ e.digits := fun h => ne_quote_of_isDigit (e.digits_isDigit _ h) rfl
  simp [Exponent.text, hmark.symm, hsign, hdigits]

theorem NumberText.quote_not_mem (n : NumberText) : '"' ∉ n.text := by
  have hinteger : '"' ∉ n.integer := fun h => ne_quote_of_isDigit (n.integer_isDigit _ h) rfl
  have hfraction : '"' ∉ n.fraction := fun h => ne_quote_of_isDigit (n.fraction_isDigit _ h) rfl
  have hsign : '"' ∉ if n.negative then ['-'] else [] := by
    split <;> decide
  have hpoint : '"' ∉ if n.fraction = [] then [] else '.' :: n.fraction := by
    split
    · exact List.not_mem_nil
    · simpa using hfraction
  have hexponent : '"' ∉ (n.exponent.map Exponent.text).getD [] := by
    cases n.exponent with
    | none => exact List.not_mem_nil
    | some e => exact e.quote_not_mem
  simp only [NumberText.text, NumberText.tail, List.mem_append, not_or]
  exact ⟨hsign, hinteger, hpoint, hexponent⟩

/-- Only a string has a quote in its text. -/
theorem quote_not_mem {x : Lexeme} (h : ∀ s, x ≠ .string s) : '"' ∉ x.text := by
  cases x with
  | blank b => cases b <;> decide
  | punct p => cases p <;> decide
  | word w => cases w <;> decide
  | number n => exact n.quote_not_mem
  | string s => exact absurd rfl (h s)

theorem text_append (line line' : List Lexeme) : text (line ++ line') = text line ++ text line' :=
  List.flatMap_append

theorem text_cons (x : Lexeme) (line : List Lexeme) : text (x :: line) = x.text ++ text line :=
  List.flatMap_cons

/-- What the first character of a lexeme tells about it. -/
theorem Lexeme.exists_text_eq_cons (x : Lexeme) :
    ∃ c l, x.text = c :: l ∧ c ≠ 'i' ∧ (c = ':' ↔ x = .punct .colon) ∧
      (c.isDigit → x.isNumber) := by
  cases x with
  | blank b => cases b <;> exact ⟨_, _, rfl, by decide, by decide, by decide⟩
  | punct p => cases p <;> exact ⟨_, _, rfl, by decide, by simp [Punct.char], by decide⟩
  | word w => cases w <;> exact ⟨_, _, rfl, by decide, by decide, by decide⟩
  | string s => exact ⟨_, _, rfl, by decide, by simp, fun h => absurd h (by decide)⟩
  | number n =>
    cases hneg : n.negative with
    | true =>
      refine ⟨'-', n.integer ++ n.tail, ?_, by decide, by simp, fun _ => rfl⟩
      simp [Lexeme.text, NumberText.text, hneg]
    | false =>
      obtain ⟨c, l, hl⟩ := List.exists_cons_of_ne_nil n.integer_ne
      have hc : c.isDigit := n.integer_isDigit c (by simp [hl])
      refine ⟨c, l ++ n.tail, by simp [Lexeme.text, NumberText.text, hneg, hl], ?_, ?_,
        fun _ => rfl⟩
      · rintro rfl
        exact absurd hc (by decide)
      · have hcolon : c ≠ ':' := by
          rintro rfl
          exact absurd hc (by decide)
        simp [hcolon]

theorem head_text_ne (line : List Lexeme) : (text line).head? ≠ some 'i' := by
  cases line with
  | nil => simp [text]
  | cons x line =>
    obtain ⟨c, l, hx, hc, -⟩ := x.exists_text_eq_cons
    simpa [text_cons, hx] using hc

theorem head_text_eq_colon {line : List Lexeme} :
    (text line).head? = some ':' ↔ line.head? = some (.punct .colon) := by
  cases line with
  | nil => simp [text]
  | cons x line =>
    obtain ⟨c, l, hx, -, hc, -⟩ := x.exists_text_eq_cons
    simpa [text_cons, hx] using hc

theorem isNumber_of_head_text {line : List Lexeme} {c : Char}
    (h : (text line).head? = some c) (hc : c.isDigit) :
    ∃ x, line.head? = some x ∧ x.isNumber := by
  cases line with
  | nil => simp [text] at h
  | cons x line =>
    obtain ⟨d, l, hx, -, -, hd⟩ := x.exists_text_eq_cons
    rw [text_cons, hx, List.cons_append, List.head?_cons, Option.some.injEq] at h
    exact ⟨x, rfl, hd (h ▸ hc)⟩

/-- The digits of a number end where its integer part does. -/
theorem NumberText.head_tail_append {n : NumberText} {line : List Lexeme} {c : Char}
    (hline : ∀ x ∈ line.head?, ¬ x.isNumber)
    (h : (n.tail ++ JsonText.text line).head? = some c) : ¬ c.isDigit := by
  unfold NumberText.tail at h
  intro hc
  by_cases hfraction : n.fraction = []
  · cases hexponent : n.exponent with
    | none =>
      rw [hfraction, hexponent] at h
      have hfirst : ∃ x, line.head? = some x ∧ x.isNumber := isNumber_of_head_text h hc
      obtain ⟨x, hx, hnumber⟩ := hfirst
      exact hline x hx hnumber
    | some e =>
      rw [if_pos hfraction, hexponent] at h
      obtain rfl : e.mark = c := by simpa [Exponent.text] using h
      rcases e.mark_eq with he | he <;> rw [he] at hc <;> exact absurd hc (by decide)
  · rw [if_neg hfraction] at h
    obtain rfl : '.' = c := by simpa using h
    exact absurd hc (by decide)

/-! ## Between two lexemes that are no marks stands a mark -/

theorem Marked.append {l l' : List Lexeme} (h : Marked l) (h' : Marked l')
    (hl : ∀ x ∈ l.getLast?, x.isMark) : Marked (l ++ l') :=
  List.IsChain.append h h' fun x hx _ _ => .inl (hl x hx)

theorem Marked.append' {l l' : List Lexeme} (h : Marked l) (h' : Marked l')
    (hl : ∀ x ∈ l'.head?, x.isMark) : Marked (l ++ l') :=
  List.IsChain.append h h' fun _ _ y hy => .inr (hl y hy)

theorem Marked.cons {x : Lexeme} {l : List Lexeme} (h : Marked l) (hx : x.isMark) :
    Marked (x :: l) :=
  List.IsChain.cons h fun _ _ => .inl hx

theorem isMark_of_mem_blanks {bs : List Blank} {x : Lexeme} (h : x ∈ blanks bs) : x.isMark := by
  obtain ⟨b, -, rfl⟩ := List.mem_map.mp h
  rfl

theorem blanks_marked (bs : List Blank) : Marked (blanks bs) := by
  induction bs with
  | nil => exact List.isChain_nil
  | cons b bs ih => exact ih.cons rfl

theorem Parses.marked {V : Type} {B : Builder V} {l : List Lexeme} {m : Meaning V}
    (h : Parses B l m) : Marked l := by
  have hend : ∀ {l p}, Marked l → Marked (l ++ [Lexeme.punct p]) := fun hl =>
    hl.append' (List.isChain_singleton _) (by simp [Lexeme.isMark])
  have hcomma : ∀ {l l'}, Marked l → Marked l' → Marked (l ++ Lexeme.punct .comma :: l') :=
    fun hl hl' => hl.append' (hl'.cons rfl) (by simp [Lexeme.isMark])
  induction h with
  | word w => exact List.isChain_singleton _
  | number n => exact List.isChain_singleton _
  | string s => exact List.isChain_singleton _
  | emptyArray bs => exact hend ((blanks_marked bs).cons rfl)
  | array _ ih => exact hend (ih.cons rfl)
  | emptyObject bs => exact hend ((blanks_marked bs).cons rfl)
  | object _ ih => exact hend (ih.cons rfl)
  | element before after _ ih =>
    have hbefore := (blanks_marked before).append ih fun x hx =>
      isMark_of_mem_blanks (List.mem_of_getLast? hx)
    exact hbefore.append' (blanks_marked after) fun x hx =>
      isMark_of_mem_blanks (List.mem_of_head? hx)
  | elements _ _ ih ih' => exact hcomma ih ih'
  | member key before mid _ ih =>
    have hmid : Marked (blanks mid ++ .punct .colon :: _) :=
      (blanks_marked mid).append (ih.cons rfl) fun x hx =>
        isMark_of_mem_blanks (List.mem_of_getLast? hx)
    have hkey := Marked.append' (List.isChain_singleton (.string key)) hmid (by
      intro x hx
      cases mid with
      | nil => exact (Option.some.inj hx) ▸ rfl
      | cons b mid => exact (Option.some.inj hx) ▸ rfl)
    rw [List.append_assoc]
    exact (blanks_marked before).append hkey fun x hx =>
      isMark_of_mem_blanks (List.mem_of_getLast? hx)
  | members _ _ ih ih' => exact hcomma ih ih'

theorem Lexeme.not_isNumber_of_isMark {x : Lexeme} (h : x.isMark) : ¬ x.isNumber := by
  cases x <;> simp_all [isMark, isNumber]

theorem Parses.separated {V : Type} {B : Builder V} {l : List Lexeme} {m : Meaning V}
    (h : Parses B l m) : Separated l := by
  refine List.IsChain.imp ?_ h.marked
  intro a b hmark ha
  rcases hmark with hmark | hmark
  · exact absurd ha (Lexeme.not_isNumber_of_isMark hmark)
  · exact Lexeme.not_isNumber_of_isMark hmark

end JsonText
