import Ecotiter.JsonWalks
import Ecotiter.ResponseTexts

/-!
# Error responses

`makeErrorResponse` of `command.cpp`. The loop stops where no room for two more bytes is left, so an
escape can take the last place but one, and then there is no room to close the text.
-/

namespace Ecotiter
open BoundedOutput JsonText

/-- The characters that `makeErrorResponse` escapes. -/
def errorEscaping : Escaping where
  write b := if b = 34 ∨ b = 92 then [92, b] else [b]
  high b hb := by
    apply if_neg
    rintro (rfl | rfl) <;> exact absurd hb (by decide)
  low b hb := by
    by_cases h : b = 34 ∨ b = 92
    · refine .inr ⟨b, ?_, if_pos h⟩
      rcases h with rfl | rfl <;> decide
    · exact .inl ⟨b, hb, fun hq => h (.inl hq), fun hs => h (.inr hs), if_neg h⟩

theorem errorEscaping_write (b : UInt8) :
    errorEscaping.write b = if b = 34 ∨ b = 92 then [92, b] else [b] := rfl

theorem errorEscaping_faithful : errorEscaping.Faithful where
  plain b d h := by
    by_cases hb : b = 34 ∨ b = 92
    · rw [errorEscaping_write, if_pos hb] at h
      cases h
    · rw [errorEscaping_write, if_neg hb] at h
      exact (List.cons.inj h).1.symm
  escaped b e h := by
    by_cases hb : b = 34 ∨ b = 92
    · rw [errorEscaping_write, if_pos hb] at h
      obtain rfl : b = e := (List.cons.inj (List.cons.inj h).2).1
      rcases hb with rfl | rfl <;> decide
    · rw [errorEscaping_write, if_neg hb] at h
      cases h

/-- The room that the loop fills. -/
def errorRoom : ℕ := Config.maxRspSize - 2 - (utf8 errorOpening.print).length

/-- A line that is the error object with a message. -/
def IsErrorObject (line : List Lexeme) (s : List Piece) : Prop :=
  ∃ k v k', characters k = "status".toList ∧ characters v = "error".toList ∧
    characters k' = "message".toList ∧
      Denotes Tree.builder line (.object [(k, .string v), (k', .string s)])

/-- Every write stayed inside the body, which holds an object with the beginning of the message, all
of it if there is room. -/
structure WellFormedError (message : List UInt8) (o : Output) : Prop where
  inside : o.inside = true
  off : o.off ≤ Config.maxRspSize
  object : ∃ line s, o.text = bytes line ∧ IsErrorObject line s ∧
    utf8 (characters s) <+: message ∧
      ((errorEscaping.text message).length ≤ errorRoom → utf8 (characters s) = message)

/-! ## The loop -/

variable {o : Output} {size : ℕ} {t message : List UInt8}

theorem holds_write (h : o.Holds size t) {c : UInt8} (hfit : t.length + 2 ≤ size) :
    ((if c = 34 ∨ c = 92 then o.copy [92] else o).copy [c]).Holds size
      (t ++ errorEscaping.write c) := by
  rw [errorEscaping_write]
  by_cases hc : c = 34 ∨ c = 92
  · rw [if_pos hc, if_pos hc]
    have hfirst := h.copy (s := [92]) (by rw [List.length_singleton]; omega)
    have hboth := hfirst.copy (s := [c])
      (by rw [List.length_append, List.length_singleton, List.length_singleton]; omega)
    rwa [List.append_assoc] at hboth
  · rw [if_neg hc, if_neg hc]
    exact h.copy (by rw [List.length_singleton]; omega)

/-- The loop writes the shortest beginning of the message that leaves no room for two bytes, or all
of it. -/
structure Copies (message p : List UInt8) (size : ℕ) (t : List UInt8) : Prop where
  isPrefix : p <+: message
  stops : p = message ∨ size - 2 ≤ (t ++ errorEscaping.text p).length
  goesOn : ∀ q, q <+: p → q ≠ p → (t ++ errorEscaping.text q).length < size - 2
  fits : (t ++ errorEscaping.text p).length < size

theorem length_write (c : UInt8) :
    0 < (errorEscaping.write c).length ∧ (errorEscaping.write c).length ≤ 2 := by
  rw [errorEscaping_write]
  split
  · exact ⟨Nat.two_pos, Nat.le_refl 2⟩
  · exact ⟨Nat.one_pos, Nat.le_succ 1⟩

theorem exists_copies (h : o.Holds size t) (hfit : t.length < size) :
    ∃ p, Copies message p size t ∧
      (escapeInto message o).Holds size (t ++ errorEscaping.text p) := by
  induction message generalizing o t with
  | nil =>
    refine ⟨[], ⟨List.prefix_refl [], .inl rfl, ?_, ?_⟩, ?_⟩
    · intro q hq hne
      exact absurd (List.prefix_nil.mp hq) hne
    · simpa [Escaping.text] using hfit
    · simpa [Escaping.text, escapeInto] using h
  | cons c message ih =>
    have hoff := h.off
    have hsize := h.size
    have hnil : t ++ errorEscaping.text [] = t := List.append_nil t
    by_cases hroom : t.length < size - 2
    · have hwrite := length_write c
      have hlength : (t ++ errorEscaping.write c).length < size := by
        rw [List.length_append]
        omega
      obtain ⟨p, hcopies, hholds⟩ := ih (holds_write h (c := c) (by omega)) hlength
      have hstep : ∀ q, t ++ errorEscaping.text (c :: q) =
          t ++ errorEscaping.write c ++ errorEscaping.text q := fun q => by
        rw [Escaping.text_cons, List.append_assoc]
      refine ⟨c :: p, ⟨(List.prefix_cons_inj c).mpr hcopies.isPrefix, ?_, ?_, ?_⟩, ?_⟩
      · rw [hstep]
        exact hcopies.stops.imp (congrArg (c :: ·)) id
      · intro q hq hne
        cases q with
        | nil =>
          rw [hnil]
          exact hroom
        | cons d q =>
          obtain ⟨rfl, hq'⟩ := List.cons_prefix_cons.mp hq
          rw [hstep]
          exact hcopies.goesOn q hq' fun heq => hne (heq ▸ rfl)
      · rw [hstep]
        exact hcopies.fits
      · rw [hstep, escapeInto, if_pos (by omega)]
        exact hholds
    · refine ⟨[], ⟨List.nil_prefix, .inr ?_, ?_, ?_⟩, ?_⟩
      · rw [hnil]
        omega
      · intro q hq hne
        exact absurd (List.prefix_nil.mp hq) hne
      · rwa [hnil]
      · rw [hnil, escapeInto, if_neg (by omega)]
        exact h

/-! ## The text -/

theorem printError_eq (message : List UInt8) :
    printError message =
      if (escapeInto message (printf errorOpening freshBody)).off <
          (escapeInto message (printf errorOpening freshBody)).mem.length - 1
      then putChar '\x7d' (putChar '"' (escapeInto message (printf errorOpening freshBody)))
      else escapeInto message (printf errorOpening freshBody) := rfl

def openingBytes : List UInt8 := utf8 errorOpening.print

theorem openingBytes_length : openingBytes.length = 29 := by decide

/-- The body is closed unless the last escape took the place of the quote. -/
theorem exists_printError (message : List UInt8) :
    ∃ p, Copies message p Config.maxRspSize openingBytes ∧
      (((openingBytes ++ errorEscaping.text p).length ≤ Config.maxRspSize - 2 ∧
        (printError message).Holds Config.maxRspSize
          (openingBytes ++ errorEscaping.text p ++ [34, 125])) ∨
      ((openingBytes ++ errorEscaping.text p).length = Config.maxRspSize - 1 ∧
        (printError message).Holds Config.maxRspSize (openingBytes ++ errorEscaping.text p))) := by
  have hempty : freshBody.Holds Config.maxRspSize [] := Output.holds_empty List.length_replicate
  have hopened : (printf errorOpening freshBody).Holds Config.maxRspSize openingBytes :=
    hempty.snprintf (s := openingBytes) (by decide)
  obtain ⟨p, hcopies, hholds⟩ : ∃ p, Copies message p Config.maxRspSize openingBytes ∧
      (escapeInto message (printf errorOpening freshBody)).Holds Config.maxRspSize
        (openingBytes ++ errorEscaping.text p) := exists_copies hopened (by decide)
  have hfits := hcopies.fits
  refine ⟨p, hcopies, ?_⟩
  rw [printError_eq, hholds.off, hholds.size]
  by_cases hroom : (openingBytes ++ errorEscaping.text p).length < Config.maxRspSize - 1
  · rw [if_pos hroom]
    have hquote := hholds.copy (s := [34]) (by rw [List.length_singleton]; omega)
    have hbrace := hquote.copy (s := [125])
      (by rw [List.length_append, List.length_singleton, List.length_singleton]; omega)
    rw [List.append_assoc] at hbrace
    exact .inl ⟨by omega, hbrace⟩
  · rw [if_neg hroom]
    exact .inr ⟨by omega, hholds⟩

/-- The lexemes of an error object with bytes that begin like those of a response. -/
theorem walk_errorObject {line : List Lexeme} {s : List Piece} {r : List UInt8}
    (hline : IsErrorObject line s) (h : bytes line = openingBytes ++ r) :
    ∃ tail, inside s ++ 34 :: tail = r := by
  obtain ⟨k, v, k', -, -, -, hdenotes⟩ := hline
  have hopening : openingBytes ++ r =
      123 :: 34 :: (utf8 "status".toList ++ 34 :: 58 :: 34 :: (utf8 "error".toList ++ 34 :: 44 ::
        34 :: (utf8 "message".toList ++ 34 :: 58 :: 34 :: r))) := rfl
  rw [hopening] at h
  obtain ⟨before, inner, after, rfl, hinner⟩ := lexemes_of_object hdenotes
  have hmembers := hinner.resolve_left fun hnone => List.cons_ne_nil _ _ hnone.1
  obtain ⟨-, h⟩ := walk_punct h (by decide)
  obtain ⟨-, first, hfirst, hcases⟩ := walk_member hmembers (.of_all (by decide)) h
  obtain ⟨rest, hrest, h⟩ := hcases.resolve_left fun hnone => List.cons_ne_nil _ _ hnone.1
  obtain ⟨bs, h⟩ := walk_value hfirst h
  obtain ⟨-, h⟩ := (isBlocks_inside v).eq_of_quote (.of_all (by decide)) h
  obtain ⟨-, h⟩ := walk_punct h (by decide)
  obtain ⟨-, first, hfirst, hcases⟩ := walk_member hrest (.of_all (by decide)) h
  obtain ⟨-, h⟩ := hcases.resolve_right fun ⟨rest, hrest, _⟩ => absurd hrest.members_ne_nil (by simp)
  obtain ⟨bs, h⟩ := walk_value hfirst h
  exact ⟨_, h⟩

theorem errorRoom_eq : errorRoom = 2017 := by decide

/-- The quote that ends a string is not inside of it. -/
theorem not_inside_quote {s : List Piece} {p tail : List UInt8} :
    inside s ++ 34 :: tail ≠ errorEscaping.text p := by
  intro h
  have hblocks := errorEscaping.isBlocks_text p
  rw [← h] at hblocks
  have hmore : inside s ++ 34 :: (tail ++ [34]) = (inside s ++ 34 :: tail) ++ 34 :: [] := by simp
  have hsame := ((isBlocks_inside s).eq_of_quote hblocks hmore).1
  have hlength := congrArg List.length hsame
  rw [List.length_append, List.length_cons] at hlength
  omega

/-- The text of the error object with a string. -/
theorem exists_errorObject (s : List Piece) :
    ∃ line, IsErrorObject line s ∧ bytes line = openingBytes ++ inside s ++ [34, 125] := by
  let object : Written Tree.builder :=
    .object [(plain "status", .string (plain "error")), (plain "message", .string s)]
  refine ⟨object.line, ⟨plain "status", plain "error", plain "message", characters_pieces _,
    characters_pieces _, characters_pieces _, object.parses_element⟩, ?_⟩
  have htext : object.text = errorOpening.print ++ s.flatMap Piece.text ++ ['"', '\x7d'] := by
    simp [object, errorOpening, Format.print, Directive.print, Written.memberText]
  change utf8 object.text = _
  rw [htext, utf8_append, utf8_append]
  rfl

/-- A beginning of the message that is clean and fills the room, or all of it. -/
def Shows (message p : List UInt8) : Prop :=
  p <+: message ∧ errorEscaping.Clean p ∧ ((errorEscaping.text p).length = errorRoom ∨
    (p = message ∧ (errorEscaping.text p).length ≤ errorRoom))

/-- What is copied is the beginning that fills the room, if there is one. -/
theorem Copies.eq_of_shows {p q : List UInt8} (h : Copies message p Config.maxRspSize openingBytes)
    (hq : Shows message q) : p = q := by
  obtain ⟨hbegins, -, hfull⟩ := hq
  have hmax : Config.maxRspSize = 2048 := rfl
  have hopening := openingBytes_length
  have hroom := errorRoom_eq
  rcases List.prefix_or_prefix_of_prefix h.isPrefix hbegins with hpq | hqp
  · obtain ⟨x, rfl⟩ := hpq
    have hmore := errorEscaping.length_le_text x
    rcases h.stops with hall | hstop
    · rw [hall] at hbegins ⊢
      exact List.IsPrefix.eq_of_length_le (List.prefix_append _ _) hbegins.length_le
    · rw [List.length_append] at hstop
      rw [Escaping.text_append, List.length_append] at hfull
      have hx : x.length = 0 := by omega
      rw [List.eq_nil_of_length_eq_zero hx, List.append_nil]
  · by_contra hne
    have hgoes := h.goesOn q hqp (Ne.symm hne)
    rw [List.length_append] at hgoes
    rcases hfull with hfull | ⟨rfl, -⟩
    · omega
    · exact hne (h.isPrefix.eq_of_length_le hqp.length_le)

theorem shows_of_wellFormed (h : WellFormedError message (printError message)) :
    ∃ p, Shows message p := by
  obtain ⟨p, hcopies, hcases⟩ := exists_printError message
  have hopening := openingBytes_length
  have hroom := errorRoom_eq
  have hmax : Config.maxRspSize = 2048 := rfl
  have hsum : (openingBytes ++ errorEscaping.text p).length =
      openingBytes.length + (errorEscaping.text p).length := List.length_append
  obtain ⟨line, s, htext, hline, hbegins, hwhole⟩ := h.object
  rcases hcases with ⟨hlength, hholds⟩ | ⟨hlength, hholds⟩
  · have hbytes := hholds.text
    rw [htext, List.append_assoc] at hbytes
    obtain ⟨tail, hinside⟩ := walk_errorObject hline hbytes
    have hsame := ((isBlocks_inside s).eq_of_quote (errorEscaping.isBlocks_text p) hinside).1
    refine ⟨p, hcopies.isPrefix, (Escaping.clean_of_inside hsame).1, ?_⟩
    rcases hcopies.stops with hall | hfull
    · exact .inr ⟨hall, by omega⟩
    · exact .inl (by omega)
  · have hbytes := hholds.text
    rw [htext] at hbytes
    obtain ⟨tail, hinside⟩ := walk_errorObject hline hbytes
    exact absurd hinside not_inside_quote

theorem wellFormed_of_shows {p : List UInt8} (h : Shows message p) :
    WellFormedError message (printError message) := by
  obtain ⟨q, hcopies, hcases⟩ := exists_printError message
  obtain rfl := hcopies.eq_of_shows h
  obtain ⟨hbegins, hclean, hfull⟩ := h
  have hopening := openingBytes_length
  have hroom := errorRoom_eq
  have hmax : Config.maxRspSize = 2048 := rfl
  have hsum : (openingBytes ++ errorEscaping.text q).length =
      openingBytes.length + (errorEscaping.text q).length := List.length_append
  rcases hcases with ⟨hlength, hholds⟩ | ⟨hlength, hholds⟩
  · obtain ⟨s, hs⟩ := Escaping.exists_inside hclean
    obtain ⟨line, hline, hbytes⟩ := exists_errorObject s
    have hread := (Escaping.clean_of_inside hs).2 errorEscaping_faithful
    have hoff : (printError message).off ≤ Config.maxRspSize := by
      rw [hholds.off, List.length_append, List.length_cons, List.length_singleton]
      omega
    refine ⟨hholds.inside, hoff, line, s, ?_, hline, ?_, ?_⟩
    · rw [hholds.text, hbytes, hs]
    · rwa [hread]
    · intro hfit
      rw [hread]
      rcases hfull with hfull | ⟨hall, -⟩
      · obtain ⟨x, rfl⟩ := hbegins
        have hmore := errorEscaping.length_le_text x
        rw [Escaping.text_append, List.length_append] at hfit
        have hx : x.length = 0 := by omega
        rw [List.eq_nil_of_length_eq_zero hx, List.append_nil]
      · exact hall
  · omega

theorem printError_wellFormed (message : List UInt8) :
    WellFormedError message (printError message) ↔ ∃ p, Shows message p :=
  ⟨shows_of_wellFormed, fun ⟨_, hp⟩ => wellFormed_of_shows hp⟩

/-- A message that is one line end. -/
theorem printError_lineEnd : ¬ WellFormedError [10] (printError [10]) := by
  intro h
  obtain ⟨p, hbegins, ⟨cs, -, hcovers⟩, hfull⟩ := shows_of_wellFormed h
  have hroom := errorRoom_eq
  have hlength := hbegins.length_le
  rcases hfull with hfull | ⟨rfl, -⟩
  · have htext : (errorEscaping.text p).length ≤ (errorEscaping.text [10]).length := by
      obtain ⟨x, hx⟩ := hbegins
      rw [← hx, Escaping.text_append, List.length_append]
      exact Nat.le_add_right _ _
    have hone : (errorEscaping.text [10]).length = 1 := rfl
    omega
  · have hcontrol := hcovers 10 (List.mem_singleton_self 10) 10 rfl
    exact absurd hcontrol (by decide)

end Ecotiter
