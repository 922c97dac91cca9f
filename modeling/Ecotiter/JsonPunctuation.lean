import Ecotiter.JsonWriting

/-!
# The punctuation of a JSON text

A text has its braces, brackets, commas and colons outside of its strings. There the text shows how
many of each it has, and so do the values it stands for: a text does not become two values with
different numbers of members.
-/

namespace JsonText

/-! ## Outside of the strings -/

inductive Scan
  | bare | quoted | escaped

/-- The characters of a text that are not part of a string. -/
def bareText : Scan → List Char → List Char
  | _, [] => []
  | .bare, c :: t => if c = '"' then bareText .quoted t else c :: bareText .bare t
  | .quoted, c :: t =>
    if c = '"' then bareText .bare t
    else if c = '\\' then bareText .escaped t
    else bareText .quoted t
  | .escaped, _ :: t => bareText .quoted t

theorem bareText_append {l : List Char} (hl : '"' ∉ l) (t : List Char) :
    bareText .bare (l ++ t) = l ++ bareText .bare t := by
  induction l with
  | nil => rfl
  | cons c l ih =>
    rw [List.mem_cons, not_or] at hl
    rw [List.cons_append, bareText, if_neg (Ne.symm hl.1), ih hl.2, List.cons_append]

theorem bareText_quoted {l : List Char} (hl : ∀ c ∈ l, c ≠ '"' ∧ c ≠ '\\') (t : List Char) :
    bareText .quoted (l ++ t) = bareText .quoted t := by
  induction l with
  | nil => rfl
  | cons c l ih =>
    obtain ⟨hquote, hslash⟩ := hl c List.mem_cons_self
    rw [List.cons_append, bareText, if_neg hquote, if_neg hslash]
    exact ih fun d hd => hl d (.tail c hd)

theorem IsHex.ne_backslash {c : Char} (h : IsHex c) : c ≠ '\\' := by
  rintro rfl
  revert h
  unfold IsHex
  decide

theorem bareText_piece (p : Piece) (t : List Char) :
    bareText .quoted (p.text ++ t) = bareText .quoted t := by
  cases p with
  | plain c h => exact bareText_quoted (by simpa [Piece.text] using ⟨h.1, h.2.1⟩) t
  | escape c h =>
    have hslash : '\\' ≠ '"' := by decide
    rw [Piece.text, List.cons_append, bareText, if_neg hslash, if_pos rfl]
    rfl
  | unicode code h =>
    have hslash : '\\' ≠ '"' := by decide
    have hcode := bareText_quoted
      (fun c hc => ⟨(h.2 c hc).ne_quote, (h.2 c hc).ne_backslash⟩) t
    rw [Piece.text, List.cons_append, bareText, if_neg hslash, if_pos rfl]
    exact hcode

theorem bareText_string (s : List Piece) (t : List Char) :
    bareText .bare ((Lexeme.string s).text ++ t) = bareText .bare t := by
  have hpieces : ∀ t, bareText .quoted (s.flatMap Piece.text ++ t) = bareText .quoted t := by
    intro t
    induction s with
    | nil => rfl
    | cons p s ih => rw [List.flatMap_cons, List.append_assoc, bareText_piece, ih]
  rw [Lexeme.text, List.cons_append, List.cons_append, bareText, if_pos rfl, List.append_assoc,
    hpieces]
  rfl

/-- What a lexeme has outside of strings. -/
def Lexeme.bare : Lexeme → List Char
  | .string _ => []
  | x => x.text

theorem bareText_text (line : List Lexeme) :
    bareText .bare (text line) = line.flatMap Lexeme.bare := by
  induction line with
  | nil => rfl
  | cons x line ih =>
    rw [text_cons, List.flatMap_cons, ← ih]
    cases x with
    | string s => exact bareText_string s (text line)
    | _ => exact bareText_append (quote_not_mem fun _ h => by cases h) (text line)

theorem ne_punct_of_isDigit {c : Char} (h : c.isDigit) (p : Punct) : c ≠ p.char := by
  rintro rfl
  cases p <;> exact absurd h (by decide)

theorem Exponent.punct_not_mem (e : Exponent) (p : Punct) : p.char ∉ e.text := by
  have hmark : p.char ≠ e.mark := by
    rcases e.mark_eq with h | h <;> rw [h] <;> cases p <;> decide
  have hsign : p.char ∉ e.sign := by
    rcases e.sign_eq with h | h | h <;> rw [h] <;> cases p <;> decide
  have hdigits : p.char ∉ e.digits :=
    fun h => ne_punct_of_isDigit (e.digits_isDigit _ h) p rfl
  simp [Exponent.text, hmark, hsign, hdigits]

theorem NumberText.punct_not_mem (n : NumberText) (p : Punct) : p.char ∉ n.text := by
  have hinteger : p.char ∉ n.integer :=
    fun h => ne_punct_of_isDigit (n.integer_isDigit _ h) p rfl
  have hfraction : p.char ∉ n.fraction :=
    fun h => ne_punct_of_isDigit (n.fraction_isDigit _ h) p rfl
  have hsign : p.char ∉ if n.negative then ['-'] else [] := by
    split <;> cases p <;> decide
  have hpoint : p.char ∉ if n.fraction = [] then [] else '.' :: n.fraction := by
    split
    · exact List.not_mem_nil
    · rw [List.mem_cons, not_or]
      exact ⟨by cases p <;> decide, hfraction⟩
  have hexponent : p.char ∉ (n.exponent.map Exponent.text).getD [] := by
    cases n.exponent with
    | none => exact List.not_mem_nil
    | some e => exact e.punct_not_mem p
  simp only [NumberText.text, NumberText.tail, List.mem_append, not_or]
  exact ⟨hsign, hinteger, hpoint, hexponent⟩

/-- The text shows how often a punctuation mark occurs. -/
theorem count_bareText (p : Punct) (line : List Lexeme) :
    (bareText .bare (text line)).count p.char = line.count (.punct p) := by
  rw [bareText_text]
  induction line with
  | nil => rfl
  | cons x line ih =>
    have hone : x.bare.count p.char = if x = .punct p then 1 else 0 := by
      cases x with
      | punct q => cases p <;> cases q <;> decide
      | blank b => cases p <;> cases b <;> decide
      | word w => cases p <;> cases w <;> decide
      | string s => rfl
      | number n =>
        rw [if_neg nofun]
        exact List.count_eq_zero.mpr (n.punct_not_mem p)
    rw [List.flatMap_cons, List.count_append, ih, hone, List.count_cons, Nat.add_comm]
    simp

/-! ## In the values -/

/-- How often a mark occurs between the brackets or braces of `n` elements or members. -/
def Punct.between (inObject : Bool) : Punct → ℕ → ℕ
  | .comma, n => n - 1
  | .colon, n => if inObject then n else 0
  | _, _ => 0

/-- How often a mark is a bracket or a brace. -/
def Punct.around (inObject : Bool) : Punct → ℕ
  | .lbrace | .rbrace => if inObject then 1 else 0
  | .lbracket | .rbracket => if inObject then 0 else 1
  | _ => 0

mutual

/-- How often a mark occurs in the text of a value. -/
def Tree.marks (p : Punct) : Tree → ℕ
  | .array elems => p.around false + p.between false elems.length + marksOfElements p elems
  | .object members => p.around true + p.between true members.length + marksOfMembers p members
  | _ => 0

def marksOfElements (p : Punct) : List Tree → ℕ
  | [] => 0
  | t :: ts => t.marks p + marksOfElements p ts

def marksOfMembers (p : Punct) : List (List Piece × Tree) → ℕ
  | [] => 0
  | (_, t) :: ms => t.marks p + marksOfMembers p ms

end

def Meaning.marks (p : Punct) : Meaning Tree → ℕ
  | .value t => t.marks p
  | .elements ts => p.between false ts.length + marksOfElements p ts
  | .members ms => p.between true ms.length + marksOfMembers p ms

theorem count_blanks (p : Punct) (bs : List Blank) : (blanks bs).count (.punct p) = 0 := by
  rw [List.count_eq_zero]
  intro h
  obtain ⟨b, -, hb⟩ := List.mem_map.mp h
  cases hb

/-- A mark between the parts of a list that is not empty. -/
theorem Punct.between_comma (inObject : Bool) (p : Punct) {n : ℕ} (hn : 0 < n) :
    p.between inObject (n + 1) =
      p.between inObject 1 + [Lexeme.punct .comma].count (.punct p) + p.between inObject n := by
  cases p with
  | comma =>
    have hcount : [Lexeme.punct .comma].count (.punct .comma) = 1 := by decide
    simp only [between, hcount]
    omega
  | colon =>
    have hcount : [Lexeme.punct .comma].count (.punct .colon) = 0 := by decide
    cases inObject <;> simp only [between, hcount, Bool.false_eq_true, if_false, if_true]
    omega
  | _ => rfl

theorem Parses.elements_ne_nil {V : Type} {B : Builder V} {l : List Lexeme} {vs : List V}
    (h : Parses B l (.elements vs)) : 0 < vs.length := by
  cases h with
  | element => exact Nat.one_pos
  | elements => exact Nat.succ_pos _

theorem Parses.members_ne_nil {V : Type} {B : Builder V} {l : List Lexeme}
    {ms : List (List Piece × V)} (h : Parses B l (.members ms)) : 0 < ms.length := by
  cases h with
  | member => exact Nat.one_pos
  | members => exact Nat.succ_pos _

/-- A line has the marks of what it stands for. -/
theorem Parses.count_eq {l : List Lexeme} {m : Meaning Tree} (h : Parses Tree.builder l m)
    (p : Punct) : l.count (.punct p) = m.marks p := by
  have hbrackets : ∀ l : List Lexeme,
      (Lexeme.punct .lbracket :: l ++ [Lexeme.punct .rbracket]).count (.punct p) =
        p.around false + l.count (.punct p) := by
    intro l
    cases p <;> simp [Punct.around, Nat.add_comm]
  have hbraces : ∀ l : List Lexeme,
      (Lexeme.punct .lbrace :: l ++ [Lexeme.punct .rbrace]).count (.punct p) =
        p.around true + l.count (.punct p) := by
    intro l
    cases p <;> simp [Punct.around, Nat.add_comm]
  induction h with
  | word w => cases p <;> cases w <;> decide
  | number n => simp [Tree.builder, Meaning.marks, Tree.marks]
  | string s => simp [Tree.builder, Meaning.marks, Tree.marks]
  | emptyArray bs =>
    rw [hbrackets, count_blanks]
    cases p <;> rfl
  | @array l vs h ih =>
    rw [hbrackets, ih]
    simp [Tree.builder, Meaning.marks, Tree.marks, Nat.add_assoc]
  | emptyObject bs =>
    rw [hbraces, count_blanks]
    cases p <;> rfl
  | @object l ms h ih =>
    rw [hbraces, ih]
    simp [Tree.builder, Meaning.marks, Tree.marks, Nat.add_assoc]
  | element before after h ih =>
    rw [List.count_append, List.count_append, count_blanks, count_blanks, ih]
    cases p <;> simp [Meaning.marks, marksOfElements, Punct.between]
  | @elements l l' v vs h h' ih ih' =>
    rw [← List.singleton_append, List.count_append, List.count_append, ih, ih']
    simp only [Meaning.marks, marksOfElements, List.length_cons, List.length_nil, Nat.zero_add]
    rw [Punct.between_comma false p h'.elements_ne_nil]
    omega
  | @member l v key before mid h ih =>
    simp only [List.count_append, List.count_cons, count_blanks, ih]
    cases p <;> simp [Meaning.marks, marksOfElements, marksOfMembers, Punct.between, Nat.add_comm]
  | @members l l' m ms h h' ih ih' =>
    rw [← List.singleton_append, List.count_append, List.count_append, ih, ih']
    simp only [Meaning.marks, marksOfMembers, List.length_cons, List.length_nil, Nat.zero_add]
    rw [Punct.between_comma true p h'.members_ne_nil]
    omega

theorem marksOfMembers_perm {p : Punct} {ms ms' : List (List Piece × Tree)} (h : ms'.Perm ms) :
    marksOfMembers p ms' = marksOfMembers p ms := by
  induction h with
  | nil => rfl
  | cons m _ ih => rw [marksOfMembers, marksOfMembers, ih]
  | swap m m' ms =>
    simp only [marksOfMembers]
    omega
  | trans _ _ ih ih' => exact ih.trans ih'

/-- Two objects that one text stands for agree in their marks. -/
theorem marks_eq_of_text {line line' : List Lexeme} {ms ms' : List (List Piece × Tree)}
    (h : Denotes Tree.builder line (.object ms)) (h' : Denotes Tree.builder line' (.object ms'))
    (htext : text line = text line') (p : Punct) :
    (Tree.object ms).marks p = (Tree.object ms').marks p := by
  have hmarks : ∀ {line ms}, Denotes Tree.builder line (.object ms) →
      line.count (.punct p) = (Tree.object ms).marks p := by
    intro line ms h
    have hcount := h.count_eq p
    have hnone : p.between false 1 = 0 := by cases p <;> rfl
    simpa [Meaning.marks, marksOfElements, hnone] using hcount
  rw [← hmarks h, ← hmarks h', ← count_bareText, ← count_bareText, htext]

/-- The lexemes of a value. -/
def ShapeOf (line : List Lexeme) : Tree → Prop
  | .word w => line = [.word w]
  | .number n => line = [.number n]
  | .string s => line = [.string s]
  | .array vs => ∃ inner, line = .punct .lbracket :: inner ++ [.punct .rbracket] ∧
      ((vs = [] ∧ ∃ bs, inner = blanks bs) ∨ Parses Tree.builder inner (.elements vs))
  | .object ms => ∃ inner, line = .punct .lbrace :: inner ++ [.punct .rbrace] ∧
      ((ms = [] ∧ ∃ bs, inner = blanks bs) ∨ Parses Tree.builder inner (.members ms))

theorem shapeOf_value {line : List Lexeme} {v : Tree} (h : Parses Tree.builder line (.value v)) :
    ShapeOf line v := by
  cases h with
  | word | number | string => rfl
  | emptyArray bs => exact ⟨blanks bs, rfl, .inl ⟨rfl, bs, rfl⟩⟩
  | array h => exact ⟨_, rfl, .inr h⟩
  | emptyObject bs => exact ⟨blanks bs, rfl, .inl ⟨rfl, bs, rfl⟩⟩
  | object h => exact ⟨_, rfl, .inr h⟩

/-- The lexemes of an object: its braces, the blanks around them, and what is inside. -/
theorem shape_of_object {line : List Lexeme} {members : List (List Piece × Tree)}
    (h : Denotes Tree.builder line (.object members)) :
    ∃ before inner after,
      line = blanks before ++ (.punct .lbrace :: inner ++ [.punct .rbrace]) ++ blanks after ∧
      ((members = [] ∧ ∃ bs, inner = blanks bs) ∨ Parses Tree.builder inner (.members members)) := by
  cases h with
  | elements _ h => exact absurd h.elements_ne_nil (Nat.lt_irrefl 0)
  | element before after h =>
    obtain ⟨inner, rfl, hinner⟩ := shapeOf_value h
    exact ⟨before, inner, after, rfl, hinner⟩

end JsonText
