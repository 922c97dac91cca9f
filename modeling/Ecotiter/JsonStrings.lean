import Mathlib.Data.Bool.AllAny
import Ecotiter.FlatObjects

/-!
# The bytes of a JSON string

Between its quotes a string is made of bytes that stand for themselves and of pairs that begin with a
backslash, so the quote that ends it is found from the left. A writer of strings is a table that
says for each byte what is put out. What it puts out is the inside of a string exactly if the text is
UTF-8 and the table covers its control characters.
-/

namespace JsonText
open BoundedOutput

theorem characters_pieces {cs : List Char} (h : ∀ c ∈ cs, IsPlain c) :
    characters (pieces cs h) = cs := by
  rw [characters_plain (isPlain_pieces h), pieces_text]

/-! ## Where a string ends -/

/-- Bytes in which a quote stands only behind a backslash that escapes it. -/
inductive IsBlocks : List UInt8 → Prop
  | nil : IsBlocks []
  | plain {b : UInt8} {u : List UInt8} (hb : b ≠ 34 ∧ b ≠ 92) (h : IsBlocks u) : IsBlocks (b :: u)
  | escaped (e : UInt8) {u : List UInt8} (h : IsBlocks u) : IsBlocks (92 :: e :: u)

namespace IsBlocks
variable {u v w r r' : List UInt8}

theorem append (hu : IsBlocks u) (hv : IsBlocks v) : IsBlocks (u ++ v) := by
  induction hu with
  | nil => exact hv
  | plain hb _ ih => exact .plain hb ih
  | escaped e _ ih => exact .escaped e ih

theorem of_plain (h : ∀ b ∈ u, b ≠ 34 ∧ b ≠ 92) : IsBlocks u := by
  induction u with
  | nil => exact .nil
  | cons b u ih => exact .plain (h b List.mem_cons_self) (ih fun c hc => h c (.tail b hc))

theorem of_all (h : u.all (fun b => b != 34 && b != 92) = true) : IsBlocks u := by
  apply of_plain
  intro b hb
  have hboth := List.all_eq_true.mp h b hb
  rw [Bool.and_eq_true, bne_iff_ne, bne_iff_ne] at hboth
  exact hboth

/-- A quote inside is escaped, and what follows it stands on its own. -/
theorem of_append_quote (h : IsBlocks (w ++ 34 :: u)) : IsBlocks u := by
  generalize hv : w ++ 34 :: u = v at h
  induction h generalizing w with
  | nil => exact absurd hv (by simp)
  | plain hb h ih =>
    cases w with
    | nil => exact absurd (List.cons.inj hv).1.symm hb.1
    | cons c w => exact ih (List.cons.inj hv).2
  | escaped e h ih =>
    rcases w with _ | ⟨c, _ | ⟨d, w⟩⟩
    · exact absurd (List.cons.inj hv).1 (by decide)
    · obtain ⟨-, hrest⟩ := List.cons.inj hv
      obtain ⟨-, rfl⟩ := List.cons.inj hrest
      exact h
    · exact ih (List.cons.inj (List.cons.inj hv).2).2

/-- The closing quote is the first one that is not escaped. -/
theorem eq_of_quote (hu : IsBlocks u) (hv : IsBlocks v) (h : u ++ 34 :: r = v ++ 34 :: r') :
    u = v ∧ r = r' := by
  induction hu generalizing v with
  | nil =>
    cases hv with
    | nil => exact ⟨rfl, (List.cons.inj h).2⟩
    | plain hb _ => exact absurd (List.cons.inj h).1.symm hb.1
    | escaped e _ => exact absurd (List.cons.inj h).1 (by decide)
  | plain hb _ ih =>
    cases hv with
    | nil => exact absurd (List.cons.inj h).1 hb.1
    | plain hc hv =>
      obtain ⟨rfl, hrest⟩ := List.cons.inj h
      obtain ⟨rfl, hr⟩ := ih hv hrest
      exact ⟨rfl, hr⟩
    | escaped e _ => exact absurd (List.cons.inj h).1 hb.2
  | escaped e _ ih =>
    cases hv with
    | nil => exact absurd (List.cons.inj h).1 (by decide)
    | plain hc _ => exact absurd (List.cons.inj h).1.symm hc.2
    | escaped e' hv =>
      obtain ⟨rfl, hrest⟩ := List.cons.inj (List.cons.inj h).2
      obtain ⟨rfl, hr⟩ := ih hv hrest
      exact ⟨rfl, hr⟩

/-- A string that is read over a quote ends at the next quote but one or two. -/
theorem over_quote (hu : IsBlocks u) (h : u ++ 34 :: r = w ++ 34 :: r') :
    (u = w ∧ r = r') ∨ (∃ v, w = u ++ 34 :: v ∧ r = v ++ 34 :: r') ∨
      ∃ v, IsBlocks v ∧ u = w ++ 34 :: v ∧ r' = v ++ 34 :: r := by
  rcases List.append_eq_append_iff.mp h with ⟨v, hw, hr⟩ | ⟨v, hw, hr⟩
  · cases v with
    | nil => exact .inl ⟨by simpa using hw.symm, (List.cons.inj hr).2⟩
    | cons b v =>
      obtain ⟨rfl, hrest⟩ := List.cons.inj hr
      exact .inr (.inl ⟨v, hw, hrest⟩)
  · cases v with
    | nil => exact .inl ⟨by simpa using hw, (List.cons.inj hr).2.symm⟩
    | cons b v =>
      obtain ⟨rfl, hrest⟩ := List.cons.inj hr
      subst hw
      exact .inr (.inr ⟨v, hu.of_append_quote, rfl, hrest⟩)

end IsBlocks

/-- What stands between the quotes of a string. -/
def inside (s : List Piece) : List UInt8 := utf8 (s.flatMap Piece.text)

theorem inside_cons (p : Piece) (s : List Piece) : inside (p :: s) = utf8 p.text ++ inside s := by
  rw [inside, List.flatMap_cons, utf8_append]
  rfl

theorem utf8_escape (c : Char) (h : c.val ≤ 127) : utf8 ['\\', c] = [92, c.val.toUInt8] := by
  rw [utf8_cons_ascii (by decide), utf8_cons_ascii h]
  rfl

theorem escape_ascii {c : Char} (h : c ∈ ['"', '\\', '/', 'b', 'f', 'n', 'r', 't']) :
    c.val ≤ 127 := by
  have hall : ∀ c ∈ ['"', '\\', '/', 'b', 'f', 'n', 'r', 't'], c.val ≤ 127 :=
    List.all_iff_forall_prop.mp (by decide)
  exact hall c h

theorem plain_bytes {t : List Char} (h : ∀ c ∈ t, c ≠ '"' ∧ c ≠ '\\') :
    ∀ b ∈ utf8 t, b ≠ 34 ∧ b ≠ 92 := by
  intro b hb
  constructor
  · rintro rfl
    exact (h _ ((mem_utf8_iff (d := '"') (by decide)).mp hb)).1 rfl
  · rintro rfl
    exact (h _ ((mem_utf8_iff (d := '\\') (by decide)).mp hb)).2 rfl

theorem isBlocks_piece (p : Piece) : IsBlocks (utf8 p.text) := by
  cases p with
  | plain c h =>
    apply IsBlocks.of_plain
    apply plain_bytes
    intro d hd
    rw [Piece.text, List.mem_singleton] at hd
    exact hd ▸ ⟨h.1, h.2.1⟩
  | escape c h =>
    rw [Piece.text, utf8_escape c (escape_ascii h)]
    exact .escaped _ .nil
  | unicode code h =>
    rw [Piece.text, utf8_cons_ascii (by decide), utf8_cons_ascii (by decide)]
    apply IsBlocks.escaped
    apply IsBlocks.of_plain
    apply plain_bytes
    intro d hd
    exact ⟨(h.2 d hd).ne_quote, (h.2 d hd).ne_backslash⟩

theorem isBlocks_inside (s : List Piece) : IsBlocks (inside s) := by
  induction s with
  | nil => exact .nil
  | cons p s ih =>
    rw [inside_cons]
    exact (isBlocks_piece p).append ih

/-! ## The characters of bytes -/

theorem ofUInt8_le {b : UInt8} (hb : b < 128) : (Char.ofUInt8 b).val ≤ 127 := by
  have hlt : b.toNat < 128 := UInt8.lt_iff_toNat_lt.mp hb
  have hval : (Char.ofUInt8 b).val.toNat = b.toNat := UInt8.toNat_toUInt32 b
  rw [UInt32.le_iff_toNat_le, hval]
  exact Nat.le_of_lt_succ hlt

theorem ofUInt8_byte (b : UInt8) : (Char.ofUInt8 b).val.toUInt8 = b := UInt8.toUInt8_toUInt32 b

theorem utf8_ofUInt8 {b : UInt8} (hb : b < 128) : utf8 [Char.ofUInt8 b] = [b] := by
  rw [utf8_cons_ascii (ofUInt8_le hb), ofUInt8_byte]
  rfl

theorem byte_lt {c : Char} (hc : c.val ≤ 127) : c.val.toUInt8 < 128 := by
  rw [UInt32.le_iff_toNat_le] at hc
  have hc : c.val.toNat ≤ 127 := hc
  rw [UInt8.lt_iff_toNat_lt, UInt32.toNat_toUInt8]
  change c.val.toNat % 2 ^ 8 < 128
  omega

theorem ofUInt8_val {c : Char} (hc : c.val ≤ 127) : Char.ofUInt8 c.val.toUInt8 = c :=
  ascii_injective (ofUInt8_le (byte_lt hc)) hc (ofUInt8_byte _)

theorem utf8_singleton (c : Char) : utf8 [c] = String.utf8EncodeChar c := by
  rw [utf8_cons]
  exact List.append_nil _

/-- The bytes of a character are one below 128, or all of them are not. -/
theorem utf8_char (c : Char) :
    (c.val ≤ 127 ∧ ∃ b, b < 128 ∧ c = Char.ofUInt8 b ∧ utf8 [c] = [b]) ∨
      (127 < c.val ∧ ∀ b ∈ utf8 [c], 128 ≤ b) := by
  by_cases hc : c.val ≤ 127
  · refine .inl ⟨hc, c.val.toUInt8, byte_lt hc, (ofUInt8_val hc).symm, ?_⟩
    rw [utf8_cons_ascii hc]
    rfl
  · have hc := UInt32.not_le.mp hc
    refine .inr ⟨hc, fun b hb => ?_⟩
    rw [utf8_singleton] at hb
    exact le_of_mem_utf8EncodeChar hc hb

theorem isPlain_ofUInt8 {d : UInt8} (hquote : d ≠ 34) (hback : d ≠ 92)
    (hcontrol : 32 ≤ d) : IsPlain (Char.ofUInt8 d) := by
  have hval : (Char.ofUInt8 d).toNat = d.toNat := UInt8.toNat_toUInt32 d
  refine ⟨fun h => hquote ?_, fun h => hback ?_, ?_⟩
  · rw [← ofUInt8_byte d, h]
    rfl
  · rw [← ofUInt8_byte d, h]
    rfl
  · rw [hval]
    exact UInt8.le_iff_toNat_le.mp hcontrol

theorem isPlain_of_lt {c : Char} (hc : 127 < c.val) : IsPlain c := by
  have hlt : 127 < c.toNat := UInt32.lt_iff_toNat_lt.mp hc
  refine ⟨?_, ?_, by omega⟩
  · rintro rfl
    exact absurd hlt (by decide)
  · rintro rfl
    exact absurd hlt (by decide)

/-! ## Writers of strings -/

/-- What may follow a backslash, but for the mark of a code. -/
def escapes : List UInt8 := [34, 92, 47, 98, 102, 110, 114, 116]

/-- What a writer puts out for a byte: the bytes of longer characters as they are, the others as one
byte or with a backslash. -/
structure Escaping where
  write : UInt8 → List UInt8
  high : ∀ b, 128 ≤ b → write b = [b]
  low : ∀ b, b < 128 → (∃ d, d < 128 ∧ d ≠ 34 ∧ d ≠ 92 ∧ write b = [d]) ∨
    ∃ e ∈ escapes, write b = [92, e]

namespace Escaping
variable (f : Escaping)

def text (m : List UInt8) : List UInt8 := m.flatMap f.write

/-- The byte is not put out as a control character. -/
def Covers (b : UInt8) : Prop := ∀ d, f.write b = [d] → 32 ≤ d

/-- A text in UTF-8 whose control characters are covered. -/
def Clean (m : List UInt8) : Prop := ∃ cs, utf8 cs = m ∧ ∀ b ∈ m, f.Covers b

/-- A string is read as what was written. -/
structure Faithful : Prop where
  plain : ∀ b d, f.write b = [d] → d = b
  escaped : ∀ b e, f.write b = [92, e] → utf8 [unescape (Char.ofUInt8 e)] = [b]

variable {f} {m r : List UInt8} {b k : UInt8}

theorem text_cons (b : UInt8) (m : List UInt8) : f.text (b :: m) = f.write b ++ f.text m :=
  List.flatMap_cons

theorem text_append (m m' : List UInt8) : f.text (m ++ m') = f.text m ++ f.text m' :=
  List.flatMap_append

theorem text_high (h : ∀ b ∈ m, 128 ≤ b) : f.text m = m := by
  induction m with
  | nil => rfl
  | cons b m ih =>
    rw [text_cons, f.high b (h b List.mem_cons_self), ih fun c hc => h c (.tail b hc)]
    rfl

theorem length_le_text (f : Escaping) (m : List UInt8) : m.length ≤ (f.text m).length := by
  induction m with
  | nil => exact Nat.le_refl 0
  | cons b m ih =>
    have hone : 0 < (f.write b).length := by
      by_cases hb : 128 ≤ b
      · rw [f.high b hb]
        exact Nat.one_pos
      · rcases f.low b (UInt8.not_le.mp hb) with ⟨d, -, -, -, hwrite⟩ | ⟨e, -, hwrite⟩
        · rw [hwrite]
          exact Nat.one_pos
        · rw [hwrite]
          exact Nat.two_pos
    rw [text_cons, List.length_append, List.length_cons]
    omega

theorem length_write_le (f : Escaping) (b : UInt8) : (f.write b).length ≤ 2 := by
  by_cases hb : 128 ≤ b
  · rw [f.high b hb]
    exact Nat.le_succ 1
  · rcases f.low b (UInt8.not_le.mp hb) with ⟨d, -, -, -, hwrite⟩ | ⟨e, -, hwrite⟩
    · rw [hwrite]
      exact Nat.le_succ 1
    · rw [hwrite]
      exact Nat.le_refl 2

theorem length_text_le (f : Escaping) (m : List UInt8) : (f.text m).length ≤ 2 * m.length := by
  induction m with
  | nil => exact Nat.le_refl 0
  | cons b m ih =>
    have hone := f.length_write_le b
    rw [text_cons, List.length_append, List.length_cons]
    omega

theorem isBlocks_text (f : Escaping) (m : List UInt8) : IsBlocks (f.text m) := by
  induction m with
  | nil => exact .nil
  | cons b m ih =>
    rw [text_cons]
    refine IsBlocks.append ?_ ih
    by_cases hb : 128 ≤ b
    · rw [f.high b hb]
      apply IsBlocks.plain _ .nil
      constructor <;> rintro rfl <;> exact absurd hb (by decide)
    · rcases f.low b (UInt8.not_le.mp hb) with ⟨d, -, hquote, hback, hwrite⟩ | ⟨e, -, hwrite⟩
      · rw [hwrite]
        exact .plain ⟨hquote, hback⟩ .nil
      · rw [hwrite]
        exact .escaped e .nil

/-- What was written first was written for the first byte. -/
theorem exists_of_text_cons (h : f.text m = k :: r) :
    ∃ b m', m = b :: m' ∧ f.write b ++ f.text m' = k :: r := by
  cases m with
  | nil => cases h
  | cons b m =>
    rw [text_cons] at h
    exact ⟨b, m, rfl, h⟩

theorem of_text_plain (hk : k < 128) (hback : k ≠ 92) (h : f.text m = k :: r) :
    ∃ b m', m = b :: m' ∧ b < 128 ∧ f.write b = [k] ∧ f.text m' = r := by
  obtain ⟨b, m', rfl, hout⟩ := exists_of_text_cons h
  by_cases hb : 128 ≤ b
  · rw [f.high b hb] at hout
    obtain ⟨rfl, -⟩ := List.cons.inj hout
    exact absurd hk (UInt8.not_lt.mpr hb)
  · have hb := UInt8.not_le.mp hb
    rcases f.low b hb with ⟨d, -, -, -, hwrite⟩ | ⟨e, -, hwrite⟩
    · have hrest := hout
      rw [hwrite] at hrest
      obtain ⟨rfl, hr⟩ := List.cons.inj hrest
      exact ⟨b, m', rfl, hb, hwrite, hr⟩
    · rw [hwrite] at hout
      exact absurd (List.cons.inj hout).1.symm hback

theorem of_text_escaped (h : f.text m = 92 :: k :: r) :
    ∃ b m', m = b :: m' ∧ b < 128 ∧ k ∈ escapes ∧ f.write b = [92, k] ∧ f.text m' = r := by
  obtain ⟨b, m', rfl, hout⟩ := exists_of_text_cons h
  by_cases hb : 128 ≤ b
  · rw [f.high b hb] at hout
    obtain ⟨rfl, -⟩ := List.cons.inj hout
    exact absurd hb (by decide)
  · have hb := UInt8.not_le.mp hb
    rcases f.low b hb with ⟨d, -, -, hd, hwrite⟩ | ⟨e, he, hwrite⟩
    · rw [hwrite] at hout
      exact absurd (List.cons.inj hout).1 hd
    · have hrest := hout
      rw [hwrite] at hrest
      obtain ⟨rfl, hr⟩ := List.cons.inj (List.cons.inj hrest).2
      exact ⟨b, m', rfl, hb, he, hwrite, hr⟩

theorem of_text_high {l : List UInt8} (hl : ∀ b ∈ l, 128 ≤ b) (h : f.text m = l ++ r) :
    ∃ m', m = l ++ m' ∧ f.text m' = r := by
  induction l generalizing m with
  | nil => exact ⟨m, rfl, h⟩
  | cons k l ih =>
    have hk := hl k List.mem_cons_self
    obtain ⟨b, m', rfl, hout⟩ := exists_of_text_cons h
    have hsame : b = k ∧ f.text m' = l ++ r := by
      by_cases hb : 128 ≤ b
      · rw [f.high b hb] at hout
        exact List.cons.inj hout
      · rcases f.low b (UInt8.not_le.mp hb) with ⟨d, hd, -, -, hwrite⟩ | ⟨e, -, hwrite⟩
        · rw [hwrite] at hout
          obtain ⟨rfl, -⟩ := List.cons.inj hout
          exact absurd hd (UInt8.not_lt.mpr hk)
        · rw [hwrite] at hout
          obtain ⟨rfl, -⟩ := List.cons.inj hout
          exact absurd hk (by decide)
    obtain ⟨rfl, hrest⟩ := hsame
    obtain ⟨m'', rfl, hr⟩ := ih (fun c hc => hl c (.tail b hc)) hrest
    exact ⟨m'', rfl, hr⟩

theorem ofUInt8_escape :
    ∀ e ∈ escapes, Char.ofUInt8 e ∈ ['"', '\\', '/', 'b', 'f', 'n', 'r', 't'] :=
  List.all_iff_forall_prop.mp (by decide)

/-! ### What is written is the inside of a string -/

theorem Clean.append {m' : List UInt8} (h : f.Clean m) (h' : f.Clean m') : f.Clean (m ++ m') := by
  obtain ⟨cs, rfl, hcovers⟩ := h
  obtain ⟨cs', rfl, hcovers'⟩ := h'
  refine ⟨cs ++ cs', utf8_append cs cs', ?_⟩
  intro b hb
  rcases List.mem_append.mp hb with hb | hb
  · exact hcovers b hb
  · exact hcovers' b hb

theorem clean_nil : f.Clean [] := ⟨[], rfl, fun _ hb => absurd hb List.not_mem_nil⟩

theorem clean_singleton (hb : b < 128) (hcovers : f.Covers b) : f.Clean [b] := by
  refine ⟨[Char.ofUInt8 b], utf8_ofUInt8 hb, ?_⟩
  intro b' hb'
  exact List.mem_singleton.mp hb' ▸ hcovers

theorem clean_high {c : Char} (h : ∀ b ∈ utf8 [c], 128 ≤ b) : f.Clean (utf8 [c]) := by
  refine ⟨[c], rfl, ?_⟩
  intro b hb d hd
  have hhigh := h b hb
  rw [f.high b hhigh] at hd
  obtain ⟨rfl, -⟩ := List.cons.inj hd
  exact UInt8.le_trans (by decide) hhigh

theorem eq_nil_of_text (h : f.text m = []) : m = [] := by
  have hle := length_le_text f m
  rw [h] at hle
  exact List.eq_nil_of_length_eq_zero (Nat.le_zero.mp hle)

/-- A clean text is written as a string. -/
theorem exists_inside (h : f.Clean m) : ∃ s, inside s = f.text m := by
  obtain ⟨cs, rfl, hcovers⟩ := h
  induction cs with
  | nil => exact ⟨[], rfl⟩
  | cons c cs ih =>
    have hsplit : utf8 (c :: cs) = utf8 [c] ++ utf8 cs := utf8_append [c] cs
    rw [hsplit] at hcovers ⊢
    obtain ⟨s, hs⟩ := ih fun b hb => hcovers b (List.mem_append_right _ hb)
    rw [text_append]
    rcases utf8_char c with ⟨-, b, hb, -, hbyte⟩ | ⟨hc, hhigh⟩
    · rw [hbyte] at hcovers ⊢
      have hone : f.text [b] = f.write b := by
        rw [text_cons]
        exact List.append_nil _
      rw [hone]
      rcases f.low b hb with ⟨d, hd, hquote, hback, hwrite⟩ | ⟨e, he, hwrite⟩
      · have hcontrol := hcovers b List.mem_cons_self d hwrite
        refine ⟨.plain (Char.ofUInt8 d) (isPlain_ofUInt8 hquote hback hcontrol) :: s, ?_⟩
        rw [inside_cons, hs, hwrite]
        exact congrArg (· ++ _) (utf8_ofUInt8 hd)
      · have hescape := ofUInt8_escape e he
        refine ⟨.escape (Char.ofUInt8 e) hescape :: s, ?_⟩
        rw [inside_cons, hs, hwrite, Piece.text, utf8_escape _ (escape_ascii hescape),
          ofUInt8_byte]
    · refine ⟨.plain c (isPlain_of_lt hc) :: s, ?_⟩
      rw [inside_cons, hs, text_high hhigh]
      rfl

/-- A text that is written as a string is clean, and the string is read as the text. -/
theorem clean_of_inside {s : List Piece} (h : inside s = f.text m) :
    f.Clean m ∧ (f.Faithful → utf8 (characters s) = m) := by
  induction s generalizing m with
  | nil =>
    obtain rfl := eq_nil_of_text h.symm
    exact ⟨clean_nil, fun _ => rfl⟩
  | cons p s ih =>
    rw [inside_cons] at h
    cases p with
    | plain c hplain =>
      have hchars : utf8 (characters (.plain c hplain :: s)) = utf8 [c] ++ utf8 (characters s) :=
        utf8_append [c] _
      rw [Piece.text] at h
      rw [hchars]
      rcases utf8_char c with ⟨hc, k, hk, hck, hbyte⟩ | ⟨hc, hhigh⟩
      · rw [hbyte] at h ⊢
        have hback : k ≠ 92 := by
          rintro rfl
          exact hplain.2.1 hck
        obtain ⟨b, m', rfl, hb, hwrite, hrest⟩ := of_text_plain hk hback h.symm
        obtain ⟨hclean, hread⟩ := ih hrest.symm
        have hcovers : f.Covers b := by
          intro d hd
          rw [hwrite] at hd
          obtain ⟨rfl, -⟩ := List.cons.inj hd
          have hcontrol := hplain.2.2
          rw [hck] at hcontrol
          exact UInt8.le_iff_toNat_le.mpr hcontrol
        refine ⟨(clean_singleton hb hcovers).append hclean, fun hf => ?_⟩
        rw [hread hf, hf.plain b k hwrite]
        rfl
      · obtain ⟨m', rfl, hrest⟩ := of_text_high hhigh h.symm
        obtain ⟨hclean, hread⟩ := ih hrest.symm
        exact ⟨(clean_high hhigh).append hclean, fun hf => by rw [hread hf]⟩
    | escape c hc =>
      have hchars : utf8 (characters (.escape c hc :: s)) =
          utf8 [unescape c] ++ utf8 (characters s) := utf8_append [unescape c] _
      rw [Piece.text, utf8_escape c (escape_ascii hc)] at h
      obtain ⟨b, m', rfl, hb, -, hwrite, hrest⟩ := of_text_escaped h.symm
      obtain ⟨hclean, hread⟩ := ih hrest.symm
      have hcovers : f.Covers b := by
        intro d hd
        rw [hwrite] at hd
        cases hd
      refine ⟨(clean_singleton hb hcovers).append hclean, fun hf => ?_⟩
      have hone := hf.escaped b _ hwrite
      rw [ofUInt8_val (escape_ascii hc)] at hone
      rw [hchars, hread hf, hone]
      rfl
    | unicode code hcode =>
      rw [Piece.text, utf8_cons_ascii (by decide), utf8_cons_ascii (by decide)] at h
      obtain ⟨-, -, -, -, hmark, -, -⟩ := of_text_escaped h.symm
      exact absurd hmark (by decide)

end Escaping

/-! ## Lengths -/

theorem length_le_utf8 (t : List Char) : t.length ≤ (utf8 t).length := by
  induction t with
  | nil => exact Nat.le_refl 0
  | cons c t ih =>
    have hpos : 0 < (String.utf8EncodeChar c).length := by
      rw [String.length_utf8EncodeChar]
      exact c.utf8Size_pos
    rw [utf8_cons, List.length_append, List.length_cons]
    omega

theorem length_utf8_singleton_le (c : Char) : (utf8 [c]).length ≤ 4 := by
  rw [utf8_singleton, String.length_utf8EncodeChar]
  exact c.utf8Size_le_four

/-- A measure of texts that no string exceeds: no more than four for a character, and no more than
its text for one that is written without a code. Each piece that does not stand for itself leaves a
margin. -/
theorem length_characters_le (size : List UInt8 → ℕ) (margin : ℕ) (hmargin : margin ≤ 2)
    (happend : ∀ m m', size (m ++ m') = size m + size m') (hchar : ∀ c, size (utf8 [c]) ≤ 4)
    (hplain : ∀ c, IsPlain c → size (utf8 [c]) ≤ (utf8 [c]).length)
    (hescape : ∀ c ∈ ['"', '\\', '/', 'b', 'f', 'n', 'r', 't'],
      size (utf8 [unescape c]) + margin ≤ 2) (s : List Piece) :
    size (utf8 (characters s)) + margin * s.countP (fun p => !p.isPlain) ≤ (inside s).length := by
  have hnil : size [] = 0 := by
    have h := happend [] []
    rw [List.append_nil] at h
    omega
  have hcons : ∀ (c : Char) (t : List Char), size (utf8 (c :: t)) = size (utf8 [c]) + size (utf8 t) :=
    fun c t => by
      rw [← happend, ← utf8_append]
      rfl
  have hcode : ∀ code h, 6 ≤ (utf8 (Piece.unicode code h).text).length := fun code h => by
    have hle := length_le_utf8 (Piece.unicode code h).text
    rw [Piece.text, List.length_cons, List.length_cons, h.1] at hle
    exact hle
  have hsplit : ∀ (p : Piece) (s : List Piece),
      (inside (p :: s)).length = (utf8 p.text).length + (inside s).length := fun p s => by
    rw [inside_cons, List.length_append]
  have hcount : ∀ (p : Piece) (s : List Piece), p.isPlain = false →
      margin * (p :: s).countP (fun p => !p.isPlain) =
        margin * s.countP (fun p => !p.isPlain) + margin := fun p s hp => by
    rw [List.countP_cons_of_pos (by simp [hp]), Nat.mul_succ]
  induction s using characters.induct with
  | case1 =>
    change size [] + margin * 0 ≤ 0
    omega
  | case2 c h s ih =>
    have hkept : (Piece.plain c h :: s).countP (fun p => !p.isPlain) =
        s.countP (fun p => !p.isPlain) := List.countP_cons_of_neg (by simp [Piece.isPlain])
    have hone := hplain c h
    have hchars : utf8 (characters (.plain c h :: s)) = utf8 (c :: characters s) := rfl
    have htext : (utf8 (Piece.plain c h).text).length = (utf8 [c]).length := rfl
    rw [hkept, hchars, hcons, hsplit, htext]
    omega
  | case3 c h s ih =>
    have hone := hescape c h
    have hchars : utf8 (characters (.escape c h :: s)) = utf8 (unescape c :: characters s) := rfl
    have htext : (utf8 (Piece.escape c h).text).length = 2 := by
      rw [Piece.text, utf8_escape c (escape_ascii h)]
      rfl
    rw [hcount _ _ rfl, hchars, hcons, hsplit, htext]
    omega
  | case4 high h hrange low hlow s ih =>
    obtain ⟨c, hchars⟩ : ∃ c, characters (.unicode high h :: .unicode low hlow :: s) =
        c :: characters s := by
      rw [characters, if_pos hrange]
      exact ⟨_, rfl⟩
    have hone := hchar c
    have hhigh := hcode high h
    have hlow' := hcode low hlow
    rw [hcount _ _ rfl, hcount _ _ rfl, hchars, hcons, hsplit, hsplit]
    omega
  | case5 high h hrange s halone ih =>
    obtain ⟨c, hchars⟩ : ∃ c, characters (.unicode high h :: s) = c :: characters s := by
      rw [characters, if_pos hrange]
      · exact ⟨_, rfl⟩
      · exact halone
    have hone := hchar c
    have hhigh := hcode high h
    rw [hcount _ _ rfl, hchars, hcons, hsplit]
    omega
  | case6 high h s hrange ih =>
    obtain ⟨c, hchars⟩ : ∃ c, characters (.unicode high h :: s) = c :: characters s := by
      rw [characters.eq_def]
      exact ⟨_, if_neg hrange⟩
    have hone := hchar c
    have hhigh := hcode high h
    rw [hcount _ _ rfl, hchars, hcons, hsplit]
    omega

/-- A string is not longer than what stands between its quotes. -/
theorem length_utf8_characters_le (s : List Piece) :
    (utf8 (characters s)).length + s.countP (fun p => !p.isPlain) ≤ (inside s).length := by
  have h := length_characters_le List.length 1 (by decide) (fun m m' => List.length_append)
    length_utf8_singleton_le (fun c _ => Nat.le_refl _)
    (List.all_iff_forall_prop.mp (by decide)) s
  rwa [Nat.one_mul] at h

/-- A string that is as long as what stands between its quotes has no escapes. -/
theorem isPlain_of_length {s : List Piece} (h : (inside s).length ≤ (utf8 (characters s)).length) :
    ∀ p ∈ s, p.isPlain := by
  have hle := length_utf8_characters_le s
  have hzero : s.countP (fun p => !p.isPlain) = 0 := by omega
  intro p hp
  have hnot := List.countP_eq_zero.mp hzero p hp
  simpa using hnot

theorem isPlain_of_mem_characters {s : List Piece} (h : ∀ p ∈ s, p.isPlain) {c : Char}
    (hc : c ∈ characters s) : IsPlain c := by
  rw [characters_plain h, List.mem_flatMap] at hc
  obtain ⟨p, hp, hc⟩ := hc
  have hplain := h p hp
  cases p with
  | plain d hd => exact List.mem_singleton.mp hc ▸ hd
  | escape | unicode => cases hplain

/-- No way to write a text is shorter than that of a writer that keeps the plain characters. -/
theorem Escaping.length_text_characters_le {f : Escaping}
    (hkeeps : ∀ b, 32 ≤ b → b ≠ 34 → b ≠ 92 → f.write b = [b]) (s : List Piece) :
    (f.text (utf8 (characters s))).length ≤ (inside s).length := by
  have hascii : ∀ b, (f.text [b]).length ≤ 2 := fun b => f.length_text_le [b]
  have hchar : ∀ c, (f.text (utf8 [c])).length ≤ 4 ∧
      (IsPlain c → (f.text (utf8 [c])).length ≤ (utf8 [c]).length) := by
    intro c
    rcases utf8_char c with ⟨hc, b, hb, rfl, hbyte⟩ | ⟨hc, hhigh⟩
    · rw [hbyte]
      refine ⟨(hascii b).trans (by decide), fun hplain => ?_⟩
      have hvalue : (Char.ofUInt8 b).toNat = b.toNat := UInt8.toNat_toUInt32 b
      have hcontrol : 32 ≤ b := by
        have hle := hplain.2.2
        rw [hvalue] at hle
        exact UInt8.le_iff_toNat_le.mpr hle
      have hwrite : f.write b = [b] := by
        refine hkeeps b hcontrol ?_ ?_
        · rintro rfl
          exact hplain.1 rfl
        · rintro rfl
          exact hplain.2.1 rfl
      rw [text_cons, hwrite]
      exact Nat.le_refl 1
    · rw [text_high hhigh]
      exact ⟨length_utf8_singleton_le c, fun _ => Nat.le_refl _⟩
  have hescape : ∀ c ∈ ['"', '\\', '/', 'b', 'f', 'n', 'r', 't'],
      ∃ b, utf8 [unescape c] = [b] := by
    intro c hc
    have hascii : ∀ c ∈ ['"', '\\', '/', 'b', 'f', 'n', 'r', 't'], (unescape c).val ≤ 127 :=
      List.all_iff_forall_prop.mp (by decide)
    exact ⟨_, utf8_cons_ascii (hascii c hc) []⟩
  have h := length_characters_le (fun m => (f.text m).length) 0 (by decide)
    (fun m m' => by rw [text_append, List.length_append]) (fun c => (hchar c).1)
    (fun c hc => (hchar c).2 hc) (fun c hc => by
      obtain ⟨b, hb⟩ := hescape c hc
      rw [hb]
      exact hascii b) s
  rwa [Nat.zero_mul] at h

end JsonText
