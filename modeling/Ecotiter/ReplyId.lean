import Ecotiter.CommandLine
import Ecotiter.JsonText

/-!
# The id of an error reply

A line that `parseCommand` refuses is answered with the id that `extractCmdId` of `main.cpp` finds
by scanning its text. The scan is followed on the lexemes of the line and compared with the member
that the JSON library reads.
-/

namespace Ecotiter

open JsonText

/-! ## The scan -/

/-- The rest of the text from the first place where `needle` stands. -/
def strstr (needle : List Char) : List Char → Option (List Char)
  | [] => if needle = [] then some [] else none
  | c :: s => if needle <+: c :: s then some (c :: s) else strstr needle s

def kIdField : List Char := ['"', 'i', 'd', '"', ':']

def extractCmdId (data : List Char) : ℕ :=
  match strstr kIdField data with
  | none => 0
  | some p =>
    let p := (p.drop 5).dropWhile fun c => c = ' ' || c = '\t'
    if p.head?.all fun c => !c.isDigit then 0
    else
      (p.takeWhile Char.isDigit).foldl
        (fun val c => (val * 10 + (c.toNat - '0'.toNat)) % 2 ^ 64) 0

/-! ## The reading of the library -/

/-- The representation the library chooses for a number. -/
def jsonNumber (n : NumberText) : JsonNumber :=
  if n.isInteger && n.negative && n.natural ≤ 2 ^ 63 then .integer (Int64.ofInt (-n.natural))
  else if n.isInteger && !n.negative && n.natural < 2 ^ 64 then .unsigned (UInt64.ofNat n.natural)
  else .float (float64.round n.value)

def jsonString (s : List Piece) : String := String.ofList (characters s)

/-- The values of the library; of two members with one name the last is kept. -/
def jsonBuilder : Builder Json where
  word
    | .null => .null
    | .true => .bool true
    | .false => .bool false
  number n := .number (jsonNumber n)
  string s := .string (jsonString s)
  array := .array
  object members := .object (members.map fun m => (jsonString m.1, m.2)).reverse

/-- The id that `parseCommand` reads. -/
def Json.parsedId (j : Json) : ℕ := ((j.numberAt "id").bind JsonNumber.toUInt64).getD 0

theorem Json.command_id (j : Json) (type : CommandType) : (j.command type).id = j.parsedId := rfl

/-! ## The place the scan finds -/

/-- The string with its first quote ends in `"id`. -/
def closesId (s : List Piece) : Bool := ['"', 'i', 'd'] <:+ opened s

/-- What follows the first string that closes an `"id"` and has a colon right after it. -/
def afterId : List Lexeme → Option (List Lexeme)
  | [] => none
  | .string s :: line =>
    if closesId s ∧ line.head? = some (.punct .colon) then some line.tail else afterId line
  | _ :: line => afterId line

/-- The integer part of a number that stands here, spaces and tabs before it, and is not
negative. -/
def leadingNatural : List Lexeme → ℕ
  | .blank .space :: line => leadingNatural line
  | .blank .tab :: line => leadingNatural line
  | .number n :: _ => if n.negative then 0 else n.natural
  | _ => 0

theorem kIdField_prefix_iff {c : Char} {l rest : List Char} (h : QuotesEscaped (c :: l)) :
    kIdField <+: c :: (l ++ '"' :: rest) ↔
      c :: l = ['"', 'i', 'd'] ∧ rest.head? = some ':' := by
  rcases l with _ | ⟨x, _ | ⟨y, _ | ⟨z, l⟩⟩⟩
  · simp [kIdField]
  · simp [kIdField]
  · cases rest <;> simp [kIdField, eq_comm, and_assoc]
  · have hz : z = '"' → y = '\\' :=
      (List.isChain_cons_cons.mp (List.isChain_cons_cons.mp
        (List.isChain_cons_cons.mp h).2).2).1
    have hy : '"' = z → 'd' ≠ y := by
      rintro rfl rfl
      exact absurd (hz rfl) (by decide)
    simp only [kIdField, List.cons_append, List.cons_prefix_cons]
    simp
    intro _ _ hd hq
    exact absurd hd (hy hq)

theorem strstr_quoted {l rest : List Char} (h : QuotesEscaped l) (hrest : rest.head? ≠ some 'i') :
    strstr kIdField (l ++ '"' :: rest) =
      if ['"', 'i', 'd'] <:+ l ∧ rest.head? = some ':' then
        some ('"' :: 'i' :: 'd' :: '"' :: rest)
      else strstr kIdField rest := by
  induction l with
  | nil =>
    have hno : ¬ kIdField <+: '"' :: rest := by
      cases rest with
      | nil => simp [kIdField]
      | cons c rest =>
        intro hp
        simp only [kIdField, List.cons_prefix_cons] at hp
        exact hrest (congrArg some hp.2.1.symm)
    simp [strstr, hno]
  | cons c l ih =>
    rw [List.cons_append, strstr]
    by_cases hhere : c :: l = ['"', 'i', 'd'] ∧ rest.head? = some ':'
    · have hsuffix : ['"', 'i', 'd'] <:+ c :: l := hhere.1 ▸ List.suffix_refl _
      rw [if_pos ((kIdField_prefix_iff h).mpr hhere), if_pos ⟨hsuffix, hhere.2⟩]
      simp [← List.cons_append, hhere.1]
    · rw [if_neg (fun hp => hhere ((kIdField_prefix_iff h).mp hp)), ih h.tail]
      have hiff : (['"', 'i', 'd'] <:+ c :: l ∧ rest.head? = some ':') ↔
          (['"', 'i', 'd'] <:+ l ∧ rest.head? = some ':') := by
        rw [List.suffix_cons_iff]
        constructor
        · rintro ⟨heq | hl, hcolon⟩
          · exact absurd ⟨heq.symm, hcolon⟩ hhere
          · exact ⟨hl, hcolon⟩
        · rintro ⟨hl, hcolon⟩
          exact ⟨Or.inr hl, hcolon⟩
      simp only [hiff]

theorem strstr_append_of_not_mem {l rest : List Char} (h : '"' ∉ l) :
    strstr kIdField (l ++ rest) = strstr kIdField rest := by
  induction l with
  | nil => rfl
  | cons c l ih =>
    rw [List.mem_cons, not_or] at h
    have hno : ¬ kIdField <+: c :: (l ++ rest) := by
      intro hp
      simp only [kIdField, List.cons_prefix_cons] at hp
      exact h.1 hp.1
    rw [List.cons_append, strstr, if_neg hno, ih h.2]

/-- The scan of a text stops where the lexemes say. -/
theorem strstr_text (line : List Lexeme) :
    (strstr kIdField (text line)).map (List.drop 5) = (afterId line).map text := by
  induction line with
  | nil => rfl
  | cons x line ih =>
    rw [text_cons]
    by_cases hx : ∃ s, x = .string s
    · obtain ⟨s, rfl⟩ := hx
      have htext : (Lexeme.string s).text ++ text line = opened s ++ '"' :: text line := by
        simp [Lexeme.text, opened]
      rw [htext, strstr_quoted (opened_quotesEscaped s) (head_text_ne line)]
      simp only [head_text_eq_colon]
      by_cases hid : ['"', 'i', 'd'] <:+ opened s ∧ line.head? = some (.punct .colon)
      · obtain ⟨line, rfl⟩ : ∃ l, line = .punct .colon :: l :=
          ⟨line.tail, List.eq_cons_of_mem_head? hid.2⟩
        simp [afterId, closesId, hid.1, text_cons, Lexeme.text, Punct.char]
      · rw [if_neg hid, ih]
        have hno : ¬ (closesId s ∧ line.head? = some (.punct .colon)) := by
          simpa [closesId] using hid
        rw [afterId, if_neg hno]
    · have hne : ∀ s, x ≠ .string s := fun s h => hx ⟨s, h⟩
      rw [strstr_append_of_not_mem (quote_not_mem hne), ih]
      cases x with
      | string s => exact absurd rfl (hne s)
      | _ => rfl

theorem foldl_mod (digits : List Char) (start : ℕ) :
    digits.foldl (fun val c => (val * 10 + (c.toNat - '0'.toNat)) % 2 ^ 64) (start % 2 ^ 64) =
      digits.foldl (fun val c => val * 10 + (c.toNat - '0'.toNat)) start % 2 ^ 64 := by
  induction digits generalizing start with
  | nil => rfl
  | cons c digits ih =>
    have hstep : (start % 2 ^ 64 * 10 + (c.toNat - '0'.toNat)) % 2 ^ 64 =
        (start * 10 + (c.toNat - '0'.toNat)) % 2 ^ 64 := by
      omega
    rw [List.foldl_cons, hstep, ih, List.foldl_cons]

/-- The digits from here on, spaces and tabs before them. -/
def blankOrDigits (p : List Char) : List Char :=
  (p.dropWhile fun c => c = ' ' || c = '\t').takeWhile Char.isDigit

theorem extractCmdId_eq (data : List Char) :
    extractCmdId data = ((((strstr kIdField data).map (List.drop 5)).map
      fun p => digitsValue (blankOrDigits p)).getD 0) % 2 ^ 64 := by
  unfold extractCmdId
  cases strstr kIdField data with
  | none => rfl
  | some p =>
    simp only [Option.map_some, Option.getD_some, blankOrDigits, digitsValue]
    generalize (p.drop 5).dropWhile (fun c => decide (c = ' ') || decide (c = '\t')) = q
    split
    · next hnone =>
      have hempty : q.takeWhile Char.isDigit = [] := by
        cases q with
        | nil => rfl
        | cons c q =>
          have hc : c.isDigit = false := by simpa using hnone
          rw [List.takeWhile_cons, hc]
          rfl
      rw [hempty]
      rfl
    · exact foldl_mod _ 0

theorem blankOrDigits_cons {c : Char} {l : List Char} (hblank : c ≠ ' ' ∧ c ≠ '\t')
    (hdigit : ¬ c.isDigit) : blankOrDigits (c :: l) = [] := by
  simp [blankOrDigits, hblank, hdigit]

theorem digitsValue_text {line : List Lexeme} (h : Separated line) :
    digitsValue (blankOrDigits (text line)) = leadingNatural line := by
  induction line with
  | nil => rfl
  | cons x line ih =>
    rw [text_cons]
    cases x with
    | blank b =>
      cases b with
      | space => exact ih h.tail
      | tab => exact ih h.tail
      | newline => exact congrArg digitsValue (blankOrDigits_cons (by decide) (by decide))
      | carriageReturn => exact congrArg digitsValue (blankOrDigits_cons (by decide) (by decide))
    | punct p =>
      have hp : p.char ≠ ' ' ∧ p.char ≠ '\t' ∧ ¬ p.char.isDigit := by
        cases p <;> decide
      exact congrArg digitsValue (blankOrDigits_cons ⟨hp.1, hp.2.1⟩ hp.2.2)
    | word w =>
      cases w <;> exact congrArg digitsValue (blankOrDigits_cons (by decide) (by decide))
    | string s => exact congrArg digitsValue (blankOrDigits_cons (by decide) (by decide))
    | number n =>
      by_cases hneg : n.negative
      · have htext : (Lexeme.number n).text = '-' :: (n.integer ++ n.tail) := by
          simp [Lexeme.text, NumberText.text, hneg]
        rw [htext, leadingNatural, if_pos hneg]
        exact congrArg digitsValue (blankOrDigits_cons (by decide) (by decide))
      · have hnext : ∀ x ∈ line.head?, ¬ x.isNumber := fun y hy => h.rel_head? hy rfl
        have htail : (n.tail ++ text line).takeWhile Char.isDigit = [] := by
          cases hc : n.tail ++ text line with
          | nil => rfl
          | cons c l =>
            have hdigit := n.head_tail_append hnext (congrArg List.head? hc)
            simp [hdigit]
        have hstart : ((n.integer ++ (n.tail ++ text line)).dropWhile fun c =>
            c = ' ' || c = '\t') = n.integer ++ (n.tail ++ text line) := by
          obtain ⟨c, l, hl⟩ := List.exists_cons_of_ne_nil n.integer_ne
          have hc : c.isDigit := n.integer_isDigit c (by simp [hl])
          have hblank : c ≠ ' ' ∧ c ≠ '\t' := by
            constructor <;> (rintro rfl; exact absurd hc (by decide))
          simp [hl, hblank]
        have htext : (Lexeme.number n).text ++ text line =
            n.integer ++ (n.tail ++ text line) := by
          simp [Lexeme.text, NumberText.text, hneg]
        rw [htext, blankOrDigits, hstart, List.takeWhile_append_of_pos n.integer_isDigit, htail,
          List.append_nil, leadingNatural, if_neg hneg]
        rfl

theorem Separated.afterId {line rest : List Lexeme} (h : Separated line)
    (hrest : Ecotiter.afterId line = some rest) : Separated rest := by
  induction line with
  | nil => exact nomatch hrest
  | cons x line ih =>
    cases x with
    | string s =>
      rw [Ecotiter.afterId] at hrest
      split at hrest
      · obtain rfl := Option.some.inj hrest
        exact h.tail.tail
      · exact ih h.tail hrest
    | _ => exact ih h.tail hrest

theorem extractCmdId_text {line : List Lexeme} (h : Separated line) :
    extractCmdId (text line) = ((afterId line).map leadingNatural).getD 0 % 2 ^ 64 := by
  rw [extractCmdId_eq, strstr_text]
  cases hrest : afterId line with
  | none => rfl
  | some rest =>
    have hvalue := digitsValue_text (Separated.afterId h hrest)
    simp only [Option.map_some, Option.getD_some, hvalue]

/-- The reply to an object carries the id that is parsed from it exactly when the natural number,
modulo `2 ^ 64`, behind the first place that closes an `"id"` with a colon right after it is the
one that the library reads as the member `id`, or both are missing. -/
theorem extractCmdId_eq_parsedId_iff {line : List Lexeme} {members : List (String × Json)}
    (hline : Denotes jsonBuilder line (.object members)) :
    extractCmdId (text line) = (Json.object members).parsedId ↔
      (∀ rest, afterId line = some rest →
        leadingNatural rest % 2 ^ 64 = (Json.object members).parsedId) ∧
      (afterId line = none → (Json.object members).parsedId = 0) := by
  rw [extractCmdId_text hline.separated]
  cases afterId line with
  | none => simp [eq_comm]
  | some rest => simp

/-! ## Two refused lines -/

def idKey : List Piece := [.plain 'i' (by decide), .plain 'd' (by decide)]

def cmdKey : List Piece := [.plain 'c' (by decide), .plain 'm' (by decide), .plain 'd' (by decide)]

def fiveText : NumberText where
  negative := false
  integer := ['5']
  fraction := []
  exponent := none
  integer_ne := by decide
  integer_isDigit := List.forall_mem_singleton.mpr rfl
  integer_zero := by decide
  fraction_isDigit := NumberText.noFraction

/-- The members `id` and `cmd`, with blanks before and after the colon of the first. -/
def idLine (before after : List Blank) : List Lexeme :=
  .punct .lbrace ::
    ((.string idKey :: (blanks before ++ .punct .colon :: (blanks after ++ [.number fiveText]))) ++
      .punct .comma :: [.string cmdKey, .punct .colon, .string idKey]) ++ [.punct .rbrace]

def idMembers : List (String × Json) :=
  [(jsonString cmdKey, .string (jsonString idKey)),
   (jsonString idKey, .number (jsonNumber fiveText))]

theorem idLine_denotes (before after : List Blank) :
    Denotes jsonBuilder (idLine before after) (.object idMembers) := by
  have hid : Parses jsonBuilder
      (.string idKey :: (blanks before ++ .punct .colon :: (blanks after ++ [.number fiveText])))
      (.members [(idKey, .number (jsonNumber fiveText))]) := by
    have hfive := Parses.element after [] (Parses.number (B := jsonBuilder) fiveText)
    rw [show blanks [] = [] from rfl, List.append_nil] at hfive
    exact Parses.member idKey [] before hfive
  have hcmd : Parses jsonBuilder [.string cmdKey, .punct .colon, .string idKey]
      (.members [(cmdKey, .string (jsonString idKey))]) :=
    Parses.member cmdKey [] [] (Parses.element [] [] (Parses.string idKey))
  have hobject := Parses.element [] [] (Parses.object (Parses.members hid hcmd))
  rw [show blanks [] = [] from rfl, List.append_nil, List.nil_append] at hobject
  exact hobject

theorem extractCmdId_eq_parsedId_iff_tab :
    (∀ rest, afterId (idLine [] [.tab]) = some rest →
      leadingNatural rest % 2 ^ 64 = (Json.object idMembers).parsedId) ∧
    (afterId (idLine [] [.tab]) = none → (Json.object idMembers).parsedId = 0) := by
  refine (extractCmdId_eq_parsedId_iff (idLine_denotes [] [.tab])).mp ?_
  decide

/-- The id of `{"id" : 5,"cmd":"id"}` is not found. -/
theorem idLine_space_notFound :
    Denotes jsonBuilder (idLine [.space] [.space]) (.object idMembers) ∧
    String.ofList (text (idLine [.space] [.space])) =
      "\x7b\"id\" : 5,\"cmd\":\"id\"\x7d" ∧
    commandOf (.object idMembers) = .error .unknownCommand ∧
    (Json.object idMembers).parsedId = 5 ∧
    extractCmdId (text (idLine [.space] [.space])) = 0 := by
  refine ⟨idLine_denotes _ _, rfl, ?_, rfl, rfl⟩
  unfold commandOf
  rfl

end Ecotiter
