import Ecotiter.JsonStrings

/-!
# Walking along a JSON text

Where the value of a text is known, its lexemes are known up to the blanks between them. Where the
bytes are known too, they are walked through from the left, and what stands behind a part is what is
left of the bytes.
-/

namespace JsonText
open BoundedOutput

variable {l tail : List Lexeme} {bs : List Blank} {b : UInt8} {u r : List UInt8}

/-! ## The lexemes of a value -/

theorem lexemes_of_string {s : List Piece} (h : Parses Tree.builder l (.elements [.string s])) :
    ∃ before after, l = blanks before ++ .string s :: blanks after := by
  obtain ⟨before, line, after, rfl, hvalue⟩ := exists_value h
  obtain rfl : line = [.string s] := shapeOf_value hvalue
  exact ⟨before, after, by simp⟩

theorem lexemes_of_number {n : NumberText} (h : Parses Tree.builder l (.elements [.number n])) :
    ∃ before after, l = blanks before ++ .number n :: blanks after := by
  obtain ⟨before, line, after, rfl, hvalue⟩ := exists_value h
  obtain rfl : line = [.number n] := shapeOf_value hvalue
  exact ⟨before, after, by simp⟩

theorem lexemes_of_array {vs : List Tree} (h : Parses Tree.builder l (.elements [.array vs])) :
    ∃ before inner after,
      l = blanks before ++ .punct .lbracket :: (inner ++ .punct .rbracket :: blanks after) ∧
        ((vs = [] ∧ ∃ bs, inner = blanks bs) ∨ Parses Tree.builder inner (.elements vs)) := by
  obtain ⟨before, line, after, rfl, hvalue⟩ := exists_value h
  obtain ⟨inner, rfl, hinner⟩ := shapeOf_value hvalue
  exact ⟨before, inner, after, by simp, hinner⟩

theorem lexemes_of_object {ms : List (List Piece × Tree)}
    (h : Parses Tree.builder l (.elements [.object ms])) :
    ∃ before inner after,
      l = blanks before ++ .punct .lbrace :: (inner ++ .punct .rbrace :: blanks after) ∧
        ((ms = [] ∧ ∃ bs, inner = blanks bs) ∨ Parses Tree.builder inner (.members ms)) := by
  obtain ⟨before, inner, after, rfl, hinner⟩ := shape_of_object h
  exact ⟨before, inner, after, by simp, hinner⟩

/-- The first of some elements, and the rest after a comma. -/
theorem lexemes_of_elements {v : Tree} {vs : List Tree}
    (h : Parses Tree.builder l (.elements (v :: vs))) :
    (vs = [] ∧ Parses Tree.builder l (.elements [v])) ∨
      ∃ first rest, l = first ++ .punct .comma :: rest ∧
        Parses Tree.builder first (.elements [v]) ∧ Parses Tree.builder rest (.elements vs) := by
  cases h with
  | element before after h => exact .inl ⟨rfl, .element before after h⟩
  | elements h h' => exact .inr ⟨_, _, rfl, h, h'⟩

/-- The first of some members, and the rest after a comma. -/
theorem lexemes_of_members {k : List Piece} {v : Tree} {ms : List (List Piece × Tree)}
    (h : Parses Tree.builder l (.members ((k, v) :: ms))) :
    ∃ before mid first, Parses Tree.builder first (.elements [v]) ∧
      ((ms = [] ∧ l = blanks before ++ .string k :: (blanks mid ++ .punct .colon :: first)) ∨
        ∃ rest, Parses Tree.builder rest (.members ms) ∧
          l = blanks before ++ .string k :: (blanks mid ++ .punct .colon ::
            (first ++ .punct .comma :: rest))) := by
  have hone : ∀ {l : List Lexeme}, Parses Tree.builder l (.members [(k, v)]) →
      ∃ before mid first, Parses Tree.builder first (.elements [v]) ∧
        l = blanks before ++ .string k :: (blanks mid ++ .punct .colon :: first) := by
    intro l h
    cases h with
    | member key before mid h => exact ⟨before, mid, _, h, by simp⟩
    | members _ h' => exact absurd h'.members_ne_nil (Nat.lt_irrefl 0)
  cases h with
  | member key before mid h => exact ⟨before, mid, _, h, .inl ⟨rfl, by simp⟩⟩
  | members h h' =>
    obtain ⟨before, mid, first, hfirst, rfl⟩ := hone h
    exact ⟨before, mid, first, hfirst, .inr ⟨_, h', by simp⟩⟩

/-! ## The bytes of lexemes -/

def IsBlankByte (b : UInt8) : Prop := b = 32 ∨ b = 9 ∨ b = 10 ∨ b = 13

instance (b : UInt8) : Decidable (IsBlankByte b) := inferInstanceAs (Decidable (_ ∨ _))

def Punct.byte (p : Punct) : UInt8 := p.char.val.toUInt8

theorem bytes_punct (p : Punct) (l : List Lexeme) : bytes (.punct p :: l) = p.byte :: bytes l := by
  rw [bytes_cons]
  cases p <;> rfl

theorem bytes_string (s : List Piece) (l : List Lexeme) :
    bytes (.string s :: l) = 34 :: (inside s ++ 34 :: bytes l) := by
  rw [bytes_cons, Lexeme.text, utf8_append, utf8_cons_ascii (by decide), List.append_assoc]
  rfl

theorem bytes_blanks_cons (k : Blank) (bs : List Blank) (l : List Lexeme) :
    ∃ c, IsBlankByte c ∧ bytes (blanks (k :: bs) ++ l) = c :: bytes (blanks bs ++ l) := by
  refine ⟨k.char.val.toUInt8, ?_, ?_⟩
  · cases k <;> decide
  · have hblanks : blanks (k :: bs) ++ l = .blank k :: (blanks bs ++ l) := rfl
    rw [hblanks, bytes_cons]
    cases k <;> rfl

theorem isBlankByte_of_mem (h : b ∈ bytes (blanks bs)) : IsBlankByte b := by
  induction bs with
  | nil => exact absurd h List.not_mem_nil
  | cons k bs ih =>
    obtain ⟨c, hc, hbytes⟩ := bytes_blanks_cons k bs []
    rw [List.append_nil, List.append_nil] at hbytes
    rw [hbytes] at h
    rcases List.mem_cons.mp h with rfl | h
    · exact hc
    · exact ih h

theorem isBlocks_blanks (bs : List Blank) : IsBlocks (bytes (blanks bs)) := by
  apply IsBlocks.of_plain
  intro b hb
  have hblank := isBlankByte_of_mem hb
  constructor <;> rintro rfl <;> exact absurd hblank (by decide)

/-- Blanks end where a byte is none. -/
theorem blanks_eq_nil (h : bytes (blanks bs ++ l) = b :: r) (hb : ¬ IsBlankByte b) : bs = [] := by
  cases bs with
  | nil => rfl
  | cons k bs =>
    obtain ⟨c, hc, hbytes⟩ := bytes_blanks_cons k bs l
    rw [hbytes] at h
    exact absurd ((List.cons.inj h).1 ▸ hc) hb

theorem walk_punct {p : Punct} (h : bytes (blanks bs ++ .punct p :: l) = b :: r)
    (hb : ¬ IsBlankByte b) : p.byte = b ∧ bytes l = r := by
  obtain rfl := blanks_eq_nil h hb
  rw [blanks, List.map_nil, List.nil_append, bytes_punct] at h
  exact List.cons.inj h

theorem walk_string {s : List Piece} (h : bytes (blanks bs ++ .string s :: l) = b :: r)
    (hb : ¬ IsBlankByte b) : b = 34 ∧ inside s ++ 34 :: bytes l = r := by
  obtain rfl := blanks_eq_nil h hb
  rw [blanks, List.map_nil, List.nil_append, bytes_string] at h
  exact ⟨(List.cons.inj h).1.symm, (List.cons.inj h).2⟩

/-- The name of a member is what stands between the first quotes. -/
theorem walk_member {k : List Piece} {v : Tree} {ms : List (List Piece × Tree)}
    (hl : Parses Tree.builder l (.members ((k, v) :: ms))) (hu : IsBlocks u)
    (h : bytes (l ++ tail) = 34 :: (u ++ 34 :: 58 :: r)) :
    inside k = u ∧ ∃ first, Parses Tree.builder first (.elements [v]) ∧
      ((ms = [] ∧ bytes (first ++ tail) = r) ∨
        ∃ rest, Parses Tree.builder rest (.members ms) ∧
          bytes (first ++ .punct .comma :: (rest ++ tail)) = r) := by
  obtain ⟨before, mid, first, hfirst, hcases⟩ := lexemes_of_members hl
  have hwalk : ∀ after : List Lexeme,
      bytes (blanks before ++ .string k :: (blanks mid ++ .punct .colon :: after)) =
        34 :: (u ++ 34 :: 58 :: r) → inside k = u ∧ bytes after = r := by
    intro after hbytes
    obtain ⟨-, hstring⟩ := walk_string hbytes (by decide)
    obtain ⟨hname, hrest⟩ := (isBlocks_inside k).eq_of_quote hu hstring
    exact ⟨hname, (walk_punct hrest (by decide)).2⟩
  rcases hcases with ⟨rfl, rfl⟩ | ⟨rest, hrest, rfl⟩
  · obtain ⟨hname, hafter⟩ := hwalk (first ++ tail) (by simpa using h)
    exact ⟨hname, first, hfirst, .inl ⟨rfl, hafter⟩⟩
  · obtain ⟨hname, hafter⟩ :=
      hwalk (first ++ .punct .comma :: (rest ++ tail)) (by simpa using h)
    exact ⟨hname, first, hfirst, .inr ⟨rest, hrest, hafter⟩⟩

/-- A string as the value of a member. -/
theorem walk_value {s : List Piece} (hl : Parses Tree.builder l (.elements [.string s]))
    (h : bytes (l ++ tail) = 34 :: r) :
    ∃ after, inside s ++ 34 :: bytes (blanks after ++ tail) = r := by
  obtain ⟨before, after, rfl⟩ := lexemes_of_string hl
  rw [List.append_assoc, List.cons_append] at h
  exact ⟨after, (walk_string h (by decide)).2⟩

end JsonText
