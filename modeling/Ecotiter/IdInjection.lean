import Ecotiter.JsonPunctuation
import Ecotiter.ResponseContract

/-!
# The id in front of the members

`serializeToBuffer` replaces the opening brace of a body by the text of the id. Which objects have
the id among their members afterwards is seen from the punctuation of the text.
-/

namespace Ecotiter
open BoundedOutput JsonText

/-- A member with the name `id` whose value is this number. -/
def IsIdMember (id : ℕ) (m : List Piece × Tree) : Prop :=
  characters m.1 = ['i', 'd'] ∧
    ∃ n : NumberText, m.2 = .number n ∧ n.isInteger ∧ n.negative = false ∧ n.natural = id

/-- The buffer holds the text of an object with these members, and with the id if it is not zero. -/
def CarriesId (id : ℕ) (members : List (List Piece × Tree)) (o : Output) : Prop :=
  ∃ line members', o.Holds Config.maxRspSize (utf8 (text line)) ∧
    Denotes Tree.builder line (.object members') ∧
    if id = 0 then members'.Perm members
    else ∃ m, IsIdMember id m ∧ members'.Perm (m :: members)

/-- The body begins with its brace, and the text of the id fits in front of its members. -/
structure Injects (id : ℕ) (line : List Lexeme) : Prop where
  brace : (text line).head? = some '\x7b'
  size : (utf8 (text line)).length + (DecimalText.natural id).length + 6 < Config.maxRspSize

/-! ## Texts and their bytes -/

theorem utf8_injective {t t' : List Char} (h : utf8 t = utf8 t') : t = t' := by
  have hbytes : t.utf8Encode = t'.utf8Encode := congrArg List.toByteArray h
  have hdecoded := congrArg ByteArray.utf8Decode? hbytes
  rw [List.utf8Decode?_utf8Encode, List.utf8Decode?_utf8Encode, Option.some.injEq] at hdecoded
  exact congrArg Array.toList hdecoded

/-- The text that goes in front of the members. -/
def idText (id : ℕ) : List Char := "\x7b\"id\":".toList ++ DecimalText.natural id ++ [',']

theorem holds_printId (id : UInt64) : (printId id.toNat).Holds 32 (utf8 (idText id.toNat)) := by
  have hprinted := (prints_printId id.toNat).holds
  rwa [Nat.mod_eq_of_lt id.toNat_lt] at hprinted

theorem length_utf8_idText (id : ℕ) :
    (utf8 (idText id)).length = (DecimalText.natural id).length + 7 := by
  have hdigits : (utf8 (DecimalText.natural id)).length = (DecimalText.natural id).length :=
    length_utf8_of_isAscii (isAscii_natural id)
  have hfirst : (utf8 "\x7b\"id\":".toList).length = 6 := length_utf8_toList _
  have hlast : (utf8 [',']).length = 1 := rfl
  have hparts : ∀ first digits last : List Char, (utf8 (first ++ digits ++ last)).length =
      (utf8 first).length + (utf8 digits).length + (utf8 last).length := by
    intro first digits last
    rw [utf8_append, utf8_append, List.length_append, List.length_append]
  have hlength : (utf8 (idText id)).length = _ := hparts "\x7b\"id\":".toList _ [',']
  omega

/-! ## The shape of an object -/

/-- A body that begins with its brace has no blanks before it. -/
theorem head_of_shape {before : List Blank} {rest : List Lexeme}
    (h : (text (blanks before ++ .punct .lbrace :: rest)).head? = some '\x7b') : before = [] := by
  cases before with
  | nil => rfl
  | cons b before =>
    have hblank : b.char = '\x7b' := by
      change some b.char = some '\x7b' at h
      exact Option.some.inj h
    cases b <;> exact absurd hblank (by decide)

/-- The first byte of a body tells whether it begins with its brace. -/
theorem head_utf8_object {line : List Lexeme} {members : List (List Piece × Tree)}
    (h : Denotes Tree.builder line (.object members)) :
    (utf8 (text line)).head? = some 123 ↔ (text line).head? = some '\x7b' := by
  obtain ⟨before, inner, after, rfl, -⟩ := shape_of_object h
  cases before with
  | nil =>
    have hbrace : text (blanks [] ++ (.punct .lbrace :: inner ++ [.punct .rbrace]) ++ blanks after) =
        '\x7b' :: text (inner ++ [.punct .rbrace] ++ blanks after) := rfl
    rw [hbrace, head_utf8_cons (by decide)]
    exact ⟨fun _ => rfl, fun _ => rfl⟩
  | cons b before =>
    have hblank : text (blanks (b :: before) ++ (.punct .lbrace :: inner ++ [.punct .rbrace]) ++
        blanks after) = b.char :: text (blanks before ++ (.punct .lbrace :: inner ++
          [.punct .rbrace]) ++ blanks after) := rfl
    rw [hblank, utf8, List.flatMap_cons]
    have hfirst : (String.utf8EncodeChar b.char).head? ≠ some 123 := by cases b <;> decide
    have hne : String.utf8EncodeChar b.char ≠ [] := by cases b <;> decide
    have hchar : b.char ≠ '\x7b' := by cases b <;> decide
    rw [List.head?_append_of_ne_nil _ hne]
    simp [hfirst, hchar]

/-- The line with the id in front of what is inside the braces. -/
def injectedLine (id : ℕ) (inner : List Lexeme) (after : List Blank) : List Lexeme :=
  .punct .lbrace :: (.string (plain "id") :: .punct .colon :: .number (.ofInteger id) ::
    .punct .comma :: inner) ++ [.punct .rbrace] ++ blanks after

theorem text_injectedLine (id : ℕ) (inner : List Lexeme) (after : List Blank) :
    text (injectedLine id inner after) =
      idText id ++ text (inner ++ [.punct .rbrace] ++ blanks after) := by
  have hnumber : (NumberText.ofInteger (id : ℤ)).text = DecimalText.natural id := by
    rw [NumberText.ofInteger_text, DecimalText.integer_natCast]
  have hid : idText id =
      ['\x7b', '"', 'i', 'd', '"', ':'] ++ DecimalText.natural id ++ [','] := rfl
  rw [hid]
  simp [injectedLine, text, Lexeme.text, Punct.char, hnumber]

/-! ## The output -/

/-- With members after it the id becomes one of them. -/
theorem carriesId_of_injected {id : ℕ} {inner : List Lexeme} {after : List Blank}
    {members : List (List Piece × Tree)} {o : Output}
    (ho : o.Holds Config.maxRspSize (utf8 (text (injectedLine id inner after))))
    (hinner : Parses Tree.builder inner (.members members)) (hid : id ≠ 0) :
    CarriesId id members o := by
  have hmember : Parses Tree.builder
      [.string (plain "id"), .punct .colon, .number (.ofInteger id)]
      (.members [(plain "id", .number (.ofInteger id))]) := by
    have hnumber : Parses Tree.builder [.number (.ofInteger id)]
        (.elements [.number (.ofInteger id)]) := Parses.element [] [] (.number _)
    exact Parses.member (plain "id") [] [] hnumber
  have hobject : Denotes Tree.builder (injectedLine id inner after)
      (.object ((plain "id", .number (.ofInteger id)) :: members)) :=
    Parses.element [] after (.object (.members hmember hinner))
  refine ⟨_, _, ho, hobject, ?_⟩
  rw [if_neg hid]
  have hkey : characters (plain "id") = ['i', 'd'] := by decide
  have hsign : (NumberText.ofInteger (id : ℤ)).negative = false := by
    change decide ((id : ℤ) < 0) = false
    exact decide_eq_false (by omega)
  have hvalue : (NumberText.ofInteger (id : ℤ)).natural = id := digitsValue_natural id
  exact ⟨_, ⟨hkey, _, rfl, rfl, hsign, hvalue⟩, List.Perm.refl _⟩

/-- In an object without members the comma after the id has nothing behind it. -/
theorem not_carriesId_of_injected {id : ℕ} {bs after : List Blank} {o : Output}
    (ho : o.Holds Config.maxRspSize (utf8 (text (injectedLine id (blanks bs) after))))
    (hid : id ≠ 0) : ¬ CarriesId id [] o := by
  rintro ⟨line, members, hline, hobject, hmembers⟩
  rw [if_neg hid] at hmembers
  obtain ⟨m, ⟨-, n, hn, -⟩, hperm⟩ := hmembers
  obtain rfl : members = [m] := List.perm_singleton.mp hperm
  have htext : text line = text (injectedLine id (blanks bs) after) :=
    utf8_injective (hline.text.symm.trans ho.text)
  have hcount := hobject.count_eq .comma
  rw [← count_bareText, htext, count_bareText] at hcount
  obtain ⟨key, value⟩ := m
  cases hn
  have hnone : (Meaning.elements [Tree.object [(key, .number n)]]).marks .comma = 0 := rfl
  have hone : (injectedLine id (blanks bs) after).count (.punct .comma) = 1 := by
    simp [injectedLine, count_blanks]
  rw [hnone, hone] at hcount
  cases hcount

/-- A body that is copied as it is carries no id but zero. -/
theorem carriesId_copied {id : ℕ} {line : List Lexeme} {members : List (List Piece × Tree)}
    {o : Output} (ho : o.Holds Config.maxRspSize (utf8 (text line)))
    (hobject : Denotes Tree.builder line (.object members)) :
    CarriesId id members o ↔ id = 0 := by
  constructor
  · rintro ⟨line', members', hline', hobject', hmembers'⟩
    by_contra hid
    rw [if_neg hid] at hmembers'
    obtain ⟨m, ⟨-, n, hn, -⟩, hperm⟩ := hmembers'
    have htext : text line' = text line := utf8_injective (hline'.text.symm.trans ho.text)
    have hmarks := marks_eq_of_text hobject' hobject htext .colon
    obtain ⟨key, value⟩ := m
    cases hn
    simp only [Tree.marks, Punct.around, Punct.between, if_true, hperm.length_eq,
      marksOfMembers_perm hperm, marksOfMembers, List.length_cons] at hmarks
    omega
  · intro hid
    refine ⟨line, members, ho, hobject, ?_⟩
    rw [if_pos hid]

theorem length_utf8_object_pos {line : List Lexeme} {members : List (List Piece × Tree)}
    (h : Denotes Tree.builder line (.object members)) : 0 < (utf8 (text line)).length := by
  obtain ⟨before, inner, after, rfl, -⟩ := shape_of_object h
  by_contra hzero
  have hnil : utf8 (text _) = utf8 [] := List.length_eq_zero_iff.mp (Nat.eq_zero_of_not_pos hzero)
  have hempty := utf8_injective hnil
  simp [text, Lexeme.text, Punct.char] at hempty

section Buffer
variable {kind : ResponseKind} (id : UInt64) {body : Output} {line : List Lexeme}
  {members : List (List Piece × Tree)} (buf : Vector UInt8 Config.maxRspSize)
  (hbody : body.Holds Config.maxRspSize (utf8 (text line)))
  (hobject : Denotes Tree.builder line (.object members))
include hbody hobject

/-- The test of `serializeToBuffer`, in terms of the text of the body. -/
theorem injects_iff : (id.toNat ≠ 0 ∧ body.mem.head? = some 123 ∧
      (printId id.toNat).off + body.off - 1 < (filling buf).mem.length) ↔
    id ≠ 0 ∧ Injects id.toNat line := by
  have hsize : (filling buf).mem.length = Config.maxRspSize := (prints_filling buf).holds.size
  have hidOff : (printId id.toNat).off = (DecimalText.natural id.toNat).length + 7 := by
    rw [(holds_printId id).off, length_utf8_idText]
  have hoff : body.off = (utf8 (text line)).length := hbody.off
  have hhead : body.mem.head? = (utf8 (text line)).head? := by
    have htext : body.mem.take body.off = utf8 (text line) := hbody.text
    have hpos := length_utf8_object_pos hobject
    rw [← htext, List.head?_take, if_neg (by omega)]
  have hzero : id.toNat ≠ 0 ↔ id ≠ 0 := by
    rw [not_iff_not, ← UInt64.toNat_inj]
    rfl
  rw [hhead, head_utf8_object hobject, hsize, hidOff, hoff, hzero]
  refine and_congr_right fun _ => ⟨fun h => ⟨h.1, ?_⟩, fun h => ⟨h.brace, ?_⟩⟩
  · have hroom := h.2
    omega
  · have hroom := h.size
    omega

theorem body_fits : 0 < body.off ∧ body.off ≤ (filling buf).mem.length := by
  have hpos := length_utf8_object_pos hobject
  have hoff : body.off = (utf8 (text line)).length := hbody.off
  have hle : body.off ≤ Config.maxRspSize := Output.Holds.off_le hbody
  have hsize : (filling buf).mem.length = Config.maxRspSize := (prints_filling buf).holds.size
  omega

/-- Without an id, or without room for it, the body is copied. -/
theorem holds_copied (hkind : kind ≠ .noResponse) (h : ¬ (id ≠ 0 ∧ Injects id.toNat line)) :
    (serializeToBuffer kind id.toNat body (filling buf)).Holds Config.maxRspSize
      (utf8 (text line)) := by
  rw [serializeToBuffer, if_neg hkind, if_pos (body_fits buf hbody hobject),
    if_neg (mt (injects_iff id buf hbody hobject).mp h)]
  have hle := Output.Holds.off_le hbody
  have hcopied := (prints_filling buf).holds.copy (s := body.text) (by
    rw [hbody.text, ← hbody.off]
    change 0 + _ ≤ _
    omega)
  rw [hbody.text] at hcopied ⊢
  exact hcopied.terminate

/-- Otherwise the brace gives way to the text of the id. -/
theorem holds_injected (hkind : kind ≠ .noResponse) (hid : id ≠ 0)
    (h : Injects id.toNat line) : ∃ inner after,
    ((members = [] ∧ ∃ bs, inner = blanks bs) ∨ Parses Tree.builder inner (.members members)) ∧
    (serializeToBuffer kind id.toNat body (filling buf)).Holds Config.maxRspSize
      (utf8 (text (injectedLine id.toNat inner after))) := by
  have hinjects := (injects_iff id buf hbody hobject).mpr ⟨hid, h⟩
  have hfits := body_fits buf hbody hobject
  obtain ⟨hhead, hroom⟩ := h
  obtain ⟨before, inner, after, rfl, hshape⟩ := shape_of_object hobject
  obtain rfl : before = [] := by
    rw [List.append_assoc] at hhead
    exact head_of_shape hhead
  refine ⟨inner, after, hshape, ?_⟩
  have hbytes : utf8 (text (blanks [] ++ (.punct .lbrace :: inner ++ [.punct .rbrace]) ++
      blanks after)) = 123 :: utf8 (text (inner ++ [.punct .rbrace] ++ blanks after)) :=
    head_utf8_cons (by decide) _
  rw [hbytes, List.length_cons] at hroom
  have hrest : body.text.drop 1 = utf8 (text (inner ++ [.punct .rbrace] ++ blanks after)) := by
    rw [hbody.text, hbytes]
    rfl
  have hidLength := length_utf8_idText id.toNat
  have hfirst := (prints_filling buf).holds.copy (s := utf8 (idText id.toNat)) (by
    rw [hidLength]
    change 0 + _ ≤ _
    omega)
  have hboth := hfirst.copy (s := utf8 (text (inner ++ [.punct .rbrace] ++ blanks after))) (by
    rw [List.length_append, hidLength]
    change 0 + _ + _ ≤ _
    omega)
  have hnew : utf8 [] ++ utf8 (idText id.toNat) ++
      utf8 (text (inner ++ [.punct .rbrace] ++ blanks after)) =
        utf8 (text (injectedLine id.toNat inner after)) := by
    rw [← utf8_append, ← utf8_append, text_injectedLine]
    rfl
  rw [hnew] at hboth
  rw [serializeToBuffer, if_neg hkind, if_pos hfits, if_pos hinjects, (holds_printId id).text, hrest]
  exact hboth.terminate

/-- The buffer holds the object with the id among its members exactly if the id is zero or is put in
front of a member. -/
theorem carriesId_serializeToBuffer (hkind : kind ≠ .noResponse) :
    CarriesId id.toNat members (serializeToBuffer kind id.toNat body (filling buf)) ↔
      id = 0 ∨ Injects id.toNat line ∧ members ≠ [] := by
  have hzero : id.toNat = 0 ↔ id = 0 := UInt64.toNat_inj (b := 0)
  by_cases hinject : id ≠ 0 ∧ Injects id.toNat line
  · obtain ⟨inner, after, hshape, hout⟩ :=
      holds_injected id buf hbody hobject hkind hinject.1 hinject.2
    have hne : id.toNat ≠ 0 := mt hzero.mp hinject.1
    rcases hshape with ⟨rfl, bs, rfl⟩ | hinner
    · refine ⟨fun h => absurd h (not_carriesId_of_injected hout hne), ?_⟩
      rintro (h | h)
      · exact absurd h hinject.1
      · exact absurd rfl h.2
    · refine ⟨fun _ => .inr ⟨hinject.2, ?_⟩, fun _ => carriesId_of_injected hout hinner hne⟩
      exact List.ne_nil_of_length_pos hinner.members_ne_nil
  · rw [carriesId_copied (holds_copied id buf hbody hobject hkind hinject) hobject, hzero]
    refine ⟨.inl, ?_⟩
    rintro (h | h)
    · exact h
    · by_contra hid
      exact hinject ⟨hid, h.1⟩

end Buffer

/-! ## Two bodies -/

def okBody (opening : String) : Output := printf [.text opening] freshBody

/-- The object that says the status is `ok`, with blanks before it. -/
def okLine (before : List Blank) : List Lexeme :=
  blanks before ++ [.punct .lbrace, .string (plain "status"), .punct .colon, .string (plain "ok"),
    .punct .rbrace]

def okMember : List Piece × Tree := (plain "status", .string (plain "ok"))

theorem denotes_okLine (before : List Blank) :
    Denotes Tree.builder (okLine before) (.object [okMember]) := by
  have hvalue : Parses Tree.builder [.string (plain "ok")] (.elements [.string (plain "ok")]) :=
    Parses.element [] [] (.string _)
  have hobject := Parses.object (Parses.member (plain "status") [] [] hvalue)
  have hline := Parses.element before [] hobject
  have heq : blanks before ++ (.punct .lbrace :: (blanks [] ++ .string (plain "status") ::
      blanks [] ++ .punct .colon :: [.string (plain "ok")]) ++ [.punct .rbrace]) ++ blanks [] =
        okLine before := by
    simp [okLine, blanks]
  rw [← heq]
  exact hline

theorem holds_okBody (opening : String) (h : opening.utf8ByteSize < Config.maxRspSize) :
    (okBody opening).Holds Config.maxRspSize (utf8 opening.toList) := by
  have hchars : [] ++ Format.chars [.text opening] = opening.toList := by
    simp [Format.chars, Directive.chars]
  have hbound : Format.bound [.text opening] = opening.utf8ByteSize := by
    simp [Format.bound, Directive.bound]
  have hprinted := prints_freshBody.printf (f := [.text opening])
    (by simp [Directive.IsFinite]) (by omega)
  rw [hchars] at hprinted
  exact hprinted.holds

end Ecotiter
