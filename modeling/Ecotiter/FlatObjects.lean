import Ecotiter.JsonPunctuation
import Ecotiter.Utf8Bytes

/-!
# Flat objects

An object without escapes in its strings and without another object inside, with every blank of its
text. The structure has exactly the texts that the grammar has.
-/

namespace JsonText
open BoundedOutput

def Piece.isPlain : Piece → Bool
  | .plain _ _ => true
  | _ => false

theorem isPlain_pieces {s : List Char} (h : ∀ c ∈ s, IsPlain c) : ∀ p ∈ pieces s h, p.isPlain := by
  induction s with
  | nil => exact nofun
  | cons c s ih =>
    intro p hp
    rcases List.mem_cons.mp hp with rfl | hp
    · rfl
    · exact ih (fun d hd => h d (.tail c hd)) p hp

/-- No string has an escape, and nothing is an object. -/
structure IsFlat (line : List Lexeme) : Prop where
  plain : ∀ s, .string s ∈ line → ∀ p ∈ s, p.isPlain
  noObject : .punct .lbrace ∉ line

/-- A member: its name and its value with the blanks before the name, on both sides of the colon and
behind the value. -/
structure FlatMember where
  name : List Piece
  value : Tree
  line : List Lexeme
  before : List Blank := []
  mid : List Blank := []
  gap : List Blank := []
  after : List Blank := []
  plain : ∀ p ∈ name, p.isPlain
  flat : IsFlat line
  parses : Parses Tree.builder line (.value value)

def FlatMember.lexemes (m : FlatMember) : List Lexeme :=
  blanks m.before ++ .string m.name :: blanks m.mid ++
    .punct .colon :: (blanks m.gap ++ m.line ++ blanks m.after)

def memberLexemes : List FlatMember → List Lexeme
  | [] => []
  | [m] => m.lexemes
  | m :: m' :: ms => m.lexemes ++ .punct .comma :: memberLexemes (m' :: ms)

/-- The members with the blanks around the object and behind its first brace. -/
structure FlatObject where
  members : List FlatMember
  before : List Blank := []
  inner : List Blank := []
  after : List Blank := []

namespace FlatObject

def lexemes (o : FlatObject) : List Lexeme :=
  blanks o.before ++
    (.punct .lbrace :: (blanks o.inner ++ memberLexemes o.members) ++ [.punct .rbrace]) ++
    blanks o.after

end FlatObject

/-- The bytes of a line. -/
def bytes (line : List Lexeme) : List UInt8 := utf8 (text line)

/-- The bytes of the name, without its quotes. -/
def FlatMember.key (m : FlatMember) : List UInt8 := utf8 (characters m.name)

def FlatObject.bytes (o : FlatObject) : List UInt8 := JsonText.bytes o.lexemes

/-! ## The texts of the grammar -/

theorem blanks_append (bs bs' : List Blank) : blanks (bs ++ bs') = blanks bs ++ blanks bs' :=
  List.map_append

theorem parses_memberLexemes (lead : List Blank) (m : FlatMember) (ms : List FlatMember) :
    Parses Tree.builder (blanks lead ++ memberLexemes (m :: ms))
      (.members ((m :: ms).map fun m => (m.name, m.value))) := by
  have hone : ∀ (lead : List Blank) (m : FlatMember),
      Parses Tree.builder (blanks lead ++ m.lexemes) (.members [(m.name, m.value)]) := by
    intro lead m
    have hmember := Parses.member m.name (lead ++ m.before) m.mid
      (Parses.element m.gap m.after m.parses)
    rw [blanks_append, List.append_assoc, List.append_assoc] at hmember
    simpa [FlatMember.lexemes] using hmember
  induction ms generalizing m lead with
  | nil => exact hone lead m
  | cons m' ms ih =>
    have hrest := Parses.members (hone lead m) (ih [] m')
    simpa [memberLexemes, blanks] using hrest

/-- A flat object is an object of the grammar. -/
theorem FlatObject.denotes (o : FlatObject) :
    Denotes Tree.builder o.lexemes (.object (o.members.map fun m => (m.name, m.value))) := by
  refine Parses.element o.before o.after ?_
  cases hmembers : o.members with
  | nil =>
    rw [memberLexemes, List.append_nil]
    exact .emptyObject o.inner
  | cons m ms => exact .object (parses_memberLexemes o.inner m ms)

theorem IsFlat.sublist {l l' : List Lexeme} (h : IsFlat l) (hl : ∀ x ∈ l', x ∈ l) : IsFlat l' where
  plain s hs := h.plain s (hl _ hs)
  noObject hs := h.noObject (hl _ hs)

theorem exists_value {V : Type} {B : Builder V} {l : List Lexeme} {v : V}
    (h : Parses B l (.elements [v])) :
    ∃ before line after, l = blanks before ++ line ++ blanks after ∧ Parses B line (.value v) := by
  cases h with
  | element before after h => exact ⟨before, _, after, rfl, h⟩
  | elements _ h => exact absurd h.elements_ne_nil (Nat.lt_irrefl 0)

theorem exists_members {l : List Lexeme} {m : Meaning Tree} (h : Parses Tree.builder l m)
    (hflat : IsFlat l) {ms : List (List Piece × Tree)} (hm : m = .members ms) :
    ∃ members : List FlatMember, memberLexemes members = l ∧
      members.map (fun m => (m.name, m.value)) = ms := by
  induction h generalizing ms with
  | @member l v key before mid h =>
    obtain ⟨gap, line, after, rfl, hvalue⟩ := exists_value h
    have hline : IsFlat line := hflat.sublist fun x hx => by simp [hx]
    have hname : ∀ p ∈ key, p.isPlain := hflat.plain key (by simp)
    cases hm
    exact ⟨[⟨key, v, line, before, mid, gap, after, hname, hline, hvalue⟩], rfl, rfl⟩
  | @members l l' m ms' h h' ih ih' =>
    obtain ⟨first, hfirst, hname⟩ := ih (hflat.sublist fun x hx => by simp [hx]) rfl
    obtain ⟨rest, hrest, hnames⟩ := ih' (hflat.sublist fun x hx => by simp [hx]) rfl
    cases hm
    rcases first with _ | ⟨f, _ | ⟨g, first⟩⟩
    · cases hname
    · cases rest with
      | nil =>
        have hpos := h'.members_ne_nil
        rw [← hnames] at hpos
        exact absurd hpos (Nat.lt_irrefl 0)
      | cons r rest =>
        refine ⟨f :: r :: rest, ?_, ?_⟩
        · rw [memberLexemes, hrest]
          exact congrArg (· ++ .punct .comma :: l') hfirst
        · rw [List.map_cons, hnames]
          exact congrArg (· ++ ms') hname
    · cases hname
  | _ => cases hm

/-- Every flat object of the grammar is one of these. -/
theorem exists_flatObject {line : List Lexeme} {ms : List (List Piece × Tree)}
    (h : Denotes Tree.builder line (.object ms))
    (hplain : ∀ s, .string s ∈ line → ∀ p ∈ s, p.isPlain)
    (hflat : line.count (.punct .lbrace) = 1) :
    ∃ o : FlatObject, o.lexemes = line ∧ o.members.map (fun m => (m.name, m.value)) = ms := by
  obtain ⟨before, inner, after, rfl, hinner⟩ := shape_of_object h
  have hnone : .punct .lbrace ∉ inner := by
    simp only [List.count_append, List.count_cons, count_blanks] at hflat
    rw [← List.count_eq_zero]
    simp at hflat
    omega
  rcases hinner with ⟨rfl, bs, rfl⟩ | hmembers
  · refine ⟨⟨[], before, bs, after⟩, ?_, rfl⟩
    rw [FlatObject.lexemes, memberLexemes, List.append_nil]
  · obtain ⟨members, hlexemes, hnames⟩ :=
      exists_members hmembers ⟨fun s hs => hplain s (by simp [hs]), hnone⟩ rfl
    refine ⟨⟨members, before, [], after⟩, ?_, hnames⟩
    rw [FlatObject.lexemes, hlexemes]
    rfl

/-! ## What a flat value is made of -/

/-- A colon stands in an object only. -/
theorem Parses.colon_notMem {V : Type} {B : Builder V} {l : List Lexeme} {m : Meaning V}
    (h : Parses B l m) (hflat : .punct .lbrace ∉ l) (hm : ∀ ms, m ≠ .members ms) :
    .punct .colon ∉ l := by
  have hblanks : ∀ bs, .punct .colon ∉ blanks bs := by
    intro bs hmem
    have hzero := count_blanks .colon bs
    rw [List.count_eq_zero] at hzero
    exact hzero hmem
  induction h with
  | word w | number n | string s => simp
  | emptyArray bs => simp [hblanks bs]
  | array h ih =>
    have hinner := ih (by simp at hflat; exact hflat) nofun
    simp [hinner]
  | emptyObject bs | object h ih => simp at hflat
  | element before after h ih =>
    simp only [List.mem_append, not_or] at hflat ⊢
    exact ⟨⟨hblanks before, ih hflat.1.2 nofun⟩, hblanks after⟩
  | elements h h' ih ih' =>
    simp only [List.mem_append, List.mem_cons, not_or] at hflat ⊢
    exact ⟨ih hflat.1 nofun, nofun, ih' hflat.2.2 nofun⟩
  | member | members => exact absurd rfl (hm _)

theorem characters_plain {s : List Piece} (h : ∀ p ∈ s, p.isPlain) :
    characters s = s.flatMap Piece.text := by
  induction s with
  | nil => rfl
  | cons p s ih =>
    have hrest := ih fun q hq => h q (.tail p hq)
    have hp := h p List.mem_cons_self
    cases p with
    | plain c hc => rw [characters, hrest, List.flatMap_cons, Piece.text, List.singleton_append]
    | escape | unicode => cases hp

theorem quote_notMem_characters {s : List Piece} (h : ∀ p ∈ s, p.isPlain) :
    '"' ∉ characters s := by
  rw [characters_plain h, List.mem_flatMap]
  rintro ⟨p, hp, hmem⟩
  have hplain := h p hp
  cases p with
  | plain c hc => exact hc.1 (List.mem_singleton.mp hmem).symm
  | escape | unicode => cases hplain

/-- The kinds of a value that is no object. -/
theorem value_cases {line : List Lexeme} {v : Tree} (h : Parses Tree.builder line (.value v))
    (hflat : IsFlat line) :
    (∃ w, line = [.word w] ∧ v = .word w) ∨ (∃ n, line = [.number n] ∧ v = .number n) ∨
      (∃ s, line = [.string s] ∧ (∀ p ∈ s, p.isPlain) ∧ v = .string s) ∨
      ∃ rest elems, line = .punct .lbracket :: rest ∧ v = .array elems := by
  have hshape := shapeOf_value h
  cases v with
  | word w => exact .inl ⟨w, hshape, rfl⟩
  | number n => exact .inr (.inl ⟨n, hshape, rfl⟩)
  | string s =>
    obtain rfl : line = [.string s] := hshape
    exact .inr (.inr (.inl ⟨s, rfl, hflat.plain s List.mem_cons_self, rfl⟩))
  | array vs =>
    obtain ⟨inner, rfl, -⟩ := hshape
    exact .inr (.inr (.inr ⟨_, vs, rfl, rfl⟩))
  | object ms =>
    obtain ⟨inner, rfl, -⟩ := hshape
    exact absurd hflat.noObject (by simp)

/-! ## Bytes -/

theorem bytes_append (l l' : List Lexeme) : bytes (l ++ l') = bytes l ++ bytes l' := by
  rw [bytes, text_append, utf8_append]
  rfl

theorem bytes_cons (x : Lexeme) (l : List Lexeme) : bytes (x :: l) = utf8 x.text ++ bytes l := by
  rw [bytes, text_cons, utf8_append]
  rfl

theorem quote_notMem_utf8 {t : List Char} (h : '"' ∉ t) : 34 ∉ utf8 t := by
  have hquote := mem_utf8_iff (d := '"') (by decide) (t := t)
  exact fun hmem => h (hquote.mp hmem)

/-- A string without escapes is its characters between two quotes. -/
theorem utf8_string {s : List Piece} (h : ∀ p ∈ s, p.isPlain) :
    utf8 (Lexeme.string s).text = 34 :: (utf8 (characters s) ++ [34]) := by
  rw [characters_plain h, Lexeme.text, List.cons_append, utf8_cons_ascii (by decide), utf8_append]
  rfl

theorem utf8_mark {x : Lexeme} (h : x.isMark) : ∃ b, utf8 x.text = [b] ∧ b < 128 ∧
    b ≠ 34 ∧ ¬ (65 ≤ b ∧ b ≤ 90) ∧ ¬ (97 ≤ b ∧ b ≤ 122) := by
  cases x with
  | blank b => cases b <;> exact ⟨_, rfl, by decide⟩
  | punct p => cases p <;> exact ⟨_, rfl, by decide⟩
  | word | number | string => cases h

end JsonText
