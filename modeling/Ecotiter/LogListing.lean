import Mathlib.Tactic.NormNum
import Ecotiter.JsonWalks
import Ecotiter.LogRequests

/-!
# The list of log entries

The text that `api_logs_handler` sends. It is put together from pieces, and a piece that does not fit
is left out while smaller ones after it still go in.
-/

namespace Ecotiter
open BoundedOutput JsonText LogBuffer
open NumberScan (utf8_digits isDigit_utf8)

/-- What the handler appends for a character of a message. -/
def logEscaping : Escaping where
  write b :=
    if b = 92 then [92, 92]
    else if b = 34 then [92, 34]
    else if b = 10 then [92, 110]
    else if b = 13 then [92, 114]
    else if b = 9 then [92, 116]
    else [b]
  high b hb := by
    have hne : ∀ k : UInt8, k < 128 → b ≠ k := by
      rintro k hk rfl
      exact absurd hk (UInt8.not_lt.mpr hb)
    rw [if_neg (hne 92 (by decide)), if_neg (hne 34 (by decide)), if_neg (hne 10 (by decide)),
      if_neg (hne 13 (by decide)), if_neg (hne 9 (by decide))]
  low b hb := by
    split
    · exact .inr ⟨92, by decide, rfl⟩
    · split
      · exact .inr ⟨34, by decide, rfl⟩
      · split
        · exact .inr ⟨110, by decide, rfl⟩
        · split
          · exact .inr ⟨114, by decide, rfl⟩
          · split
            · exact .inr ⟨116, by decide, rfl⟩
            · exact .inl ⟨b, hb, by assumption, by assumption, rfl⟩

/-- `append` and `appendCh`: a piece that fits with one byte to spare. -/
def append (s : List UInt8) (o : Output) : Output :=
  if o.off + s.length < o.mem.length then o.copy s else o

def entryPieces (e : LogEntry) : List (List UInt8) :=
  [utf8 "\x7b".toList, utf8 "\"level\":\"".toList, e.level.string, utf8 "\",\"msg\":\"".toList] ++
    e.message.string.map logEscaping.write ++ [utf8 "\"".toList, utf8 "\x7d".toList]

/-- The loop over the entries. -/
def entriesPieces : List LogEntry → List (List UInt8)
  | [] => []
  | e :: es => entryPieces e ++ es.flatMap fun e => utf8 ",".toList :: entryPieces e

def countText (count : ℕ) : List UInt8 := utf8 (DecimalText.natural count)

/-- What follows the first piece. -/
def listingPieces (entries : List LogEntry) : List (List UInt8) :=
  utf8 "[".toList :: entriesPieces entries ++
    [utf8 "]".toList, utf8 ",\"count\":".toList, countText entries.length]

def entriesName : List UInt8 := utf8 "\x7b\"entries\":".toList

def listing (entries : List LogEntry) : Output :=
  (entriesName :: listingPieces entries ++ [utf8 "\x7d".toList]).foldl (fun o s => append s o)
    freshBody

/-- What is sent. Entries behind the end of the array have no defined result. -/
def apiLogsHandler (q : UrlQuery) (b : LogBuffer) : Option (List UInt8) :=
  let entries := q.entries b
  if entries.length ≤ UrlQuery.entriesSize then some (listing entries).text else none

/-- The value of an entry. -/
def IsEntry (v : Tree) (e : LogEntry) : Prop :=
  ∃ level msg l s, v = .object [(level, .string l), (msg, .string s)] ∧
    characters level = "level".toList ∧ characters msg = "msg".toList ∧
    utf8 (characters l) = e.level.string ∧ utf8 (characters s) = e.message.string

/-- An object with the first entries and their number. -/
def IsListing (entries : List LogEntry) (sent : List UInt8) : Prop :=
  ∃ line names count vs n, sent = bytes line ∧
    Denotes Tree.builder line (.object [(names, .array vs), (count, .number n)]) ∧
    characters names = "entries".toList ∧ characters count = "count".toList ∧
    List.Forall₂ IsEntry vs (entries.take vs.length) ∧ n.value = vs.length

/-- A level that stands for itself in a string. -/
def PlainLevel (level : List UInt8) : Prop := ∃ cs, utf8 cs = level ∧ ∀ c ∈ cs, IsPlain c

/-- An entry whose texts can be listed. -/
def Listable (e : LogEntry) : Prop :=
  PlainLevel e.level.string ∧ logEscaping.Clean e.message.string

/-! ## Appending -/

variable {o : Output} {size k : ℕ} {t s : List UInt8} {pieces : List (List UInt8)}

/-- The bytes in front of the offset after a piece. -/
def appended (size : ℕ) (t s : List UInt8) : List UInt8 :=
  if t.length + s.length < size then t ++ s else t

def appendedAll (size : ℕ) (t : List UInt8) (pieces : List (List UInt8)) : List UInt8 :=
  pieces.foldl (appended size) t

theorem holds_append (h : o.Holds size t) : (append s o).Holds size (appended size t s) := by
  rw [append, appended, h.off, h.size]
  by_cases hfit : t.length + s.length < size
  · rw [if_pos hfit, if_pos hfit]
    exact h.copy hfit.le
  · rw [if_neg hfit, if_neg hfit]
    exact h

theorem holds_appendAll (h : o.Holds size t) (pieces : List (List UInt8)) :
    (pieces.foldl (fun o s => append s o) o).Holds size (appendedAll size t pieces) := by
  induction pieces generalizing o t with
  | nil => exact h
  | cons s pieces ih => exact ih (holds_append h)

theorem length_appendedAll_lt (h : t.length < size) :
    (appendedAll size t pieces).length < size := by
  induction pieces generalizing t with
  | nil => exact h
  | cons s pieces ih =>
    apply ih
    rw [appended]
    split
    · rwa [List.length_append]
    · exact h

/-- What fits as a whole is appended as a whole. -/
theorem appendedAll_eq (h : (t ++ pieces.flatten).length < size) :
    appendedAll size t pieces = t ++ pieces.flatten := by
  induction pieces generalizing t with
  | nil => exact (List.append_nil t).symm
  | cons s pieces ih =>
    rw [List.flatten_cons, ← List.append_assoc] at h ⊢
    have hfit : t.length + s.length < size := by
      rw [List.length_append, List.length_append] at h
      omega
    have hfirst : appended size t s = t ++ s := if_pos hfit
    change appendedAll size (appended size t s) pieces = _
    rw [hfirst]
    exact ih h

/-- Where the pieces are short, only the last bytes can differ from the whole text. -/
theorem take_appendedAll (hpieces : ∀ s ∈ pieces, s.length ≤ k) :
    (appendedAll size t pieces).take (size - k) = (t ++ pieces.flatten).take (size - k) := by
  induction pieces generalizing t with
  | nil => rw [List.flatten_nil, List.append_nil]; rfl
  | cons s pieces ih =>
    have hrest := fun t => ih (t := t) fun s' hs' => hpieces s' (.tail s hs')
    change (appendedAll size (appended size t s) pieces).take (size - k) = _
    rw [hrest, appended]
    by_cases hfit : t.length + s.length < size
    · rw [if_pos hfit, List.flatten_cons, List.append_assoc]
    · have hs := hpieces s List.mem_cons_self
      rw [if_neg hfit, List.take_append_of_le_length (by omega),
        List.take_append_of_le_length (by omega)]

theorem appendedAll_concat (t s : List UInt8) (pieces : List (List UInt8)) :
    appendedAll size t (pieces ++ [s]) = appended size (appendedAll size t pieces) s :=
  List.foldl_concat _ _ _ _

/-- Two texts that agree in front go on behind what one of them begins with. -/
theorem agree_append {x a y : List UInt8} {c : UInt8} (h : x.take k = (a ++ c :: y).take k)
    (hk : a.length + 1 ≤ k) :
    ∃ x', x = a ++ c :: x' ∧
      x'.take (k - (a.length + 1)) = y.take (k - (a.length + 1)) := by
  have hfront : x.take (a.length + 1) = a ++ [c] := by
    have htake := congrArg (List.take (a.length + 1)) h
    rw [List.take_take, List.take_take, Nat.min_eq_left hk] at htake
    rw [htake, List.take_append]
    simp
  refine ⟨x.drop (a.length + 1), ?_, ?_⟩
  · have hsplit := List.take_append_drop (a.length + 1) x
    rw [hfront, List.append_assoc] at hsplit
    exact hsplit.symm
  · have hdrop := congrArg (List.drop (a.length + 1)) h
    rw [List.drop_take, List.drop_take] at hdrop
    have hbehind : (a ++ c :: y).drop (a.length + 1) = y := by
      rw [List.drop_append, List.drop_of_length_le (Nat.le_succ _), Nat.add_sub_cancel_left]
      rfl
    rw [hdrop, hbehind]

/-! ## The whole text -/

def entryText (e : LogEntry) : List UInt8 :=
  123 :: (utf8 "\"level\":\"".toList ++ (e.level.string ++ 34 :: 44 :: 34 :: 109 :: 115 :: 103 ::
    34 :: 58 :: 34 :: (logEscaping.text e.message.string ++ [34, 125])))

def entriesText : List LogEntry → List UInt8
  | [] => []
  | e :: es => entryText e ++ es.flatMap fun e => 44 :: entryText e

def listingText (entries : List LogEntry) : List UInt8 :=
  entriesName ++ 91 :: (entriesText entries ++ 93 ::
    (utf8 ",\"count\":".toList ++ (countText entries.length ++ [125])))

theorem flatten_entryPieces (e : LogEntry) : (entryPieces e).flatten = entryText e := by
  have hmessage : (e.message.string.map logEscaping.write).flatten =
      logEscaping.text e.message.string := rfl
  simp only [entryPieces, List.flatten_append, List.flatten_cons, List.flatten_nil,
    List.append_nil, hmessage, List.append_assoc]
  rfl

theorem flatten_entriesPieces (es : List LogEntry) : (entriesPieces es).flatten = entriesText es := by
  have htail : ∀ es : List LogEntry, (es.flatMap fun e => utf8 ",".toList :: entryPieces e).flatten =
      es.flatMap fun e => 44 :: entryText e := by
    intro es
    induction es with
    | nil => rfl
    | cons e es ih =>
      rw [List.flatMap_cons, List.flatten_append, List.flatten_cons, flatten_entryPieces, ih,
        List.flatMap_cons]
      rfl
  cases es with
  | nil => rfl
  | cons e es => rw [entriesPieces, List.flatten_append, flatten_entryPieces, htail, entriesText]

/-- What is sent is the whole text without the pieces that did not fit. -/
theorem listing_text (entries : List LogEntry) :
    (listing entries).text = appendedAll Config.maxRspSize entriesName
      (listingPieces entries ++ [[125]]) := by
  have hempty : freshBody.Holds Config.maxRspSize [] := Output.holds_empty List.length_replicate
  have hall := holds_appendAll hempty
    (entriesName :: listingPieces entries ++ [utf8 "\x7d".toList])
  exact hall.text

theorem flatten_listingPieces (entries : List LogEntry) :
    (listingPieces entries).flatten = 91 :: (entriesText entries ++ 93 ::
      (utf8 ",\"count\":".toList ++ countText entries.length)) := by
  rw [listingPieces, List.flatten_append, List.flatten_cons, flatten_entriesPieces]
  simp only [List.flatten_cons, List.flatten_nil, List.append_nil, List.append_assoc]
  rfl

theorem listingText_eq (entries : List LogEntry) :
    entriesName ++ (listingPieces entries ++ [[125]]).flatten = listingText entries := by
  rw [List.flatten_append, flatten_listingPieces, listingText]
  simp only [List.flatten_cons, List.flatten_nil, List.append_nil, List.append_assoc,
    List.cons_append]

theorem listing_text_of_fits {entries : List LogEntry}
    (h : (listingText entries).length < Config.maxRspSize) :
    (listing entries).text = listingText entries := by
  rw [listing_text, ← listingText_eq]
  apply appendedAll_eq
  rwa [listingText_eq]

theorem length_countText {n : ℕ} (h : n ≤ UrlQuery.entriesSize) : (countText n).length ≤ 2 := by
  have hsize : UrlQuery.entriesSize = 50 := rfl
  rw [countText, utf8_digits DecimalText.natural_isDigit, List.length_map]
  exact DecimalText.length_natural_le (by decide) (by omega)

theorem length_entryPieces {e : LogEntry} (h : s ∈ entryPieces e) : s.length ≤ 9 := by
  have hlevel := e.level.string_length_lt
  rw [entryPieces, List.mem_append, List.mem_append, List.mem_map] at h
  rcases h with (h | ⟨b, -, rfl⟩) | h
  · rcases List.mem_cons.mp h with rfl | h
    · decide
    · rcases List.mem_cons.mp h with rfl | h
      · decide
      · rcases List.mem_cons.mp h with rfl | h
        · omega
        · rw [List.mem_singleton.mp h]
          decide
  · exact (logEscaping.length_write_le b).trans (by decide)
  · rcases List.mem_cons.mp h with rfl | h
    · decide
    · rw [List.mem_singleton.mp h]
      decide

theorem length_entriesPieces {es : List LogEntry} (h : s ∈ entriesPieces es) : s.length ≤ 9 := by
  cases es with
  | nil => exact absurd h List.not_mem_nil
  | cons e es =>
    rw [entriesPieces, List.mem_append, List.mem_flatMap] at h
    rcases h with h | ⟨e', -, h⟩
    · exact length_entryPieces h
    · rcases List.mem_cons.mp h with rfl | h
      · decide
      · exact length_entryPieces h

theorem length_listingPieces {es : List LogEntry} (hcount : es.length ≤ UrlQuery.entriesSize)
    (h : s ∈ listingPieces es ++ [[125]]) : s.length ≤ 9 := by
  rw [listingPieces, List.mem_append, List.mem_append] at h
  rcases h with (h | h) | h
  · rcases List.mem_cons.mp h with rfl | h
    · decide
    · exact length_entriesPieces h
  · rcases List.mem_cons.mp h with rfl | h
    · decide
    · rcases List.mem_cons.mp h with rfl | h
      · decide
      · rw [List.mem_singleton.mp h]
        exact (length_countText hcount).trans (by decide)
  · rw [List.mem_singleton.mp h]
    decide

theorem take_listing {es : List LogEntry} (hcount : es.length ≤ UrlQuery.entriesSize) :
    (listing es).text.take (Config.maxRspSize - 9) =
      (listingText es).take (Config.maxRspSize - 9) := by
  rw [listing_text, ← listingText_eq]
  exact take_appendedAll fun s hs => length_listingPieces hcount hs

theorem length_listing_lt (es : List LogEntry) : (listing es).text.length < Config.maxRspSize := by
  rw [listing_text]
  exact length_appendedAll_lt (by decide)

theorem logEscaping_faithful : logEscaping.Faithful where
  plain b d h := by
    unfold logEscaping at h
    dsimp only at h
    repeat' split at h
    all_goals cases h
    rfl
  escaped b e h := by
    unfold logEscaping at h
    dsimp only at h
    repeat' split at h
    all_goals cases h
    all_goals subst b; decide

theorem logEscaping_keeps (b : UInt8) (hcontrol : 32 ≤ b) (hquote : b ≠ 34) (hback : b ≠ 92) :
    logEscaping.write b = [b] := by
  have hne : ∀ k : UInt8, k < 32 → b ≠ k := by
    rintro k hk rfl
    exact absurd hk (UInt8.not_lt.mpr hcontrol)
  unfold logEscaping
  dsimp only
  rw [if_neg hback, if_neg hquote, if_neg (hne 10 (by decide)), if_neg (hne 13 (by decide)),
    if_neg (hne 9 (by decide))]

/-! ## A text that fits is a listing -/

theorem entriesText_cons (e : LogEntry) (es : List LogEntry) :
    entriesText (e :: es) = entryText e ++ es.flatMap fun e => 44 :: entryText e := rfl

theorem exists_entry {e : LogEntry} (h : Listable e) :
    ∃ w : Written Tree.builder, IsEntry w.value e ∧ utf8 w.text = entryText e := by
  obtain ⟨⟨cs, hlevel, hplain⟩, hclean⟩ := h
  obtain ⟨s, hs⟩ := Escaping.exists_inside hclean
  have hread := (Escaping.clean_of_inside hs).2 logEscaping_faithful
  let w : Written Tree.builder :=
    .object [(plain "level", .string (pieces cs hplain)), (plain "msg", .string s)]
  refine ⟨w, ⟨plain "level", plain "msg", pieces cs hplain, s, rfl, characters_pieces _,
    characters_pieces _, ?_, hread⟩, ?_⟩
  · rw [characters_pieces, hlevel]
  · have htext : w.text = "\x7b\"level\":\"".toList ++ cs ++ "\",\"msg\":\"".toList ++
        s.flatMap Piece.text ++ "\"\x7d".toList := by
      simp [w, Written.memberText]
    rw [htext, entryText, ← hlevel, ← hs]
    simp only [utf8_append, List.append_assoc]
    rfl

theorem exists_entries {es : List LogEntry} (h : ∀ e ∈ es, Listable e) :
    ∃ ws : List (Written Tree.builder), List.Forall₂ IsEntry (ws.map Written.value) es ∧
      (ws.flatMap fun w => 44 :: utf8 w.text) = es.flatMap fun e => 44 :: entryText e := by
  induction es with
  | nil => exact ⟨[], .nil, rfl⟩
  | cons e es ih =>
    obtain ⟨w, hw, htext⟩ := exists_entry (h e List.mem_cons_self)
    obtain ⟨ws, hws, htexts⟩ := ih fun e' he' => h e' (.tail e he')
    refine ⟨w :: ws, .cons hw hws, ?_⟩
    rw [List.flatMap_cons, List.flatMap_cons, htext, htexts]

theorem utf8_flatMap_comma (ws : List (Written Tree.builder)) :
    utf8 (ws.flatMap fun w => ',' :: w.text) = ws.flatMap fun w => 44 :: utf8 w.text := by
  induction ws with
  | nil => rfl
  | cons w ws ih =>
    rw [List.flatMap_cons, List.flatMap_cons, utf8_append, ih]
    rfl

theorem exists_array {es : List LogEntry} (h : ∀ e ∈ es, Listable e) :
    ∃ (w : Written Tree.builder) (vs : List Tree), w.value = .array vs ∧
      List.Forall₂ IsEntry vs es ∧ utf8 w.text = 91 :: (entriesText es ++ [93]) := by
  cases es with
  | nil => exact ⟨.array [], [], rfl, .nil, rfl⟩
  | cons e es =>
    obtain ⟨w, hw, htext⟩ := exists_entry (h e List.mem_cons_self)
    obtain ⟨ws, hws, htexts⟩ := exists_entries fun e' he' => h e' (.tail e he')
    refine ⟨.array (w :: ws), _, rfl, .cons hw hws, ?_⟩
    rw [Written.text_array_cons, utf8_append, utf8_append, utf8_cons_ascii (by decide), htext,
      utf8_flatMap_comma, htexts, entriesText_cons]
    rfl

/-- The whole text of entries that can be listed is a listing of all of them. -/
theorem isListing_listingText {es : List LogEntry} (h : ∀ e ∈ es, Listable e) :
    IsListing es (listingText es) := by
  obtain ⟨w, vs, hvalue, hentries, hbytes⟩ := exists_array h
  let count : Written Tree.builder := .number (.ofInteger (es.length : ℤ))
  let object : Written Tree.builder := .object [(plain "entries", w), (plain "count", count)]
  have hlength := hentries.length_eq
  refine ⟨object.line, plain "entries", plain "count", vs, .ofInteger (es.length : ℤ), ?_, ?_,
    characters_pieces _, characters_pieces _, ?_, ?_⟩
  · have htext : object.text = "\x7b\"entries\":".toList ++ w.text ++ ",\"count\":".toList ++
        DecimalText.natural es.length ++ "\x7d".toList := by
      have hnumber : (NumberText.ofInteger (es.length : ℤ)).text =
          DecimalText.natural es.length := by
        rw [NumberText.ofInteger_text, DecimalText.integer_natCast]
      simp [object, count, Written.memberText, hnumber]
    change _ = utf8 object.text
    rw [htext]
    simp only [utf8_append, hbytes, listingText, entriesName, countText, List.append_assoc,
      List.cons_append]
    rfl
  · have hparses := object.parses_element
    have hobject : object.value = .object [(plain "entries", w.value),
        (plain "count", .number (.ofInteger (es.length : ℤ)))] := rfl
    rw [hobject, hvalue] at hparses
    exact hparses
  · rw [hlength, List.take_length]
    exact hentries
  · rw [NumberText.value_ofInteger, hlength]

/-! ## What is listed was appended as a whole -/

variable {l first tail rest : List Lexeme} {v : Tree} {vs : List Tree} {e : LogEntry}
  {es : List LogEntry} {r : List UInt8} {c : UInt8}

theorem length_entryText (e : LogEntry) :
    (entryText e).length = e.level.string.length + (logEscaping.text e.message.string).length + 21 := by
  have hlevel : (utf8 "\"level\":\"".toList).length = 9 := by decide
  simp only [entryText, List.length_cons, List.length_append, List.length_nil, hlevel]
  omega

/-- No text of an entry is shorter. -/
theorem length_entryText_le (hl : Parses Tree.builder first (.elements [v])) (he : IsEntry v e) :
    (entryText e).length ≤ (bytes first).length := by
  obtain ⟨level, msg, l, s, rfl, hlevel, hmsg, hl', hs'⟩ := he
  obtain ⟨before, inner, after, rfl, hinner⟩ := lexemes_of_object hl
  have hmembers := hinner.resolve_left fun hnone => List.cons_ne_nil _ _ hnone.1
  obtain ⟨a, b, firstLevel, hfirst, hcases⟩ := lexemes_of_members hmembers
  obtain ⟨rest, hrest, rfl⟩ := hcases.resolve_left fun hnone => List.cons_ne_nil _ _ hnone.1
  obtain ⟨a', b', firstMsg, hfirst', hcases⟩ := lexemes_of_members hrest
  obtain ⟨-, rfl⟩ := hcases.resolve_right fun ⟨rest, hrest, _⟩ => absurd hrest.members_ne_nil (by simp)
  obtain ⟨x, y, rfl⟩ := lexemes_of_string hfirst
  obtain ⟨x', y', rfl⟩ := lexemes_of_string hfirst'
  have hname := length_utf8_characters_le level
  have hname' := length_utf8_characters_le msg
  have hvalue := length_utf8_characters_le l
  have hvalue' := Escaping.length_text_characters_le logEscaping_keeps s
  have hfive : (utf8 "level".toList).length = 5 := by decide
  have hthree : (utf8 "msg".toList).length = 3 := by decide
  rw [hlevel, hfive] at hname
  rw [hmsg, hthree] at hname'
  rw [hl'] at hvalue
  rw [hs'] at hvalue'
  rw [length_entryText]
  simp only [bytes_append, bytes_punct, bytes_string, List.length_append, List.length_cons]
  omega

/-- The bytes of an entry determine it, and what follows. -/
theorem walk_entry {p : Punct} (hl : Parses Tree.builder first (.elements [v])) (he : IsEntry v e)
    (hc : ¬ IsBlankByte c) (h : bytes (first ++ .punct p :: tail) = entryText e ++ c :: r) :
    Listable e ∧ p.byte = c ∧ bytes tail = r := by
  obtain ⟨level, msg, l, s, rfl, hlevel, hmsg, hl', hs'⟩ := he
  have hbytes : entryText e ++ c :: r =
      123 :: 34 :: (utf8 "level".toList ++ 34 :: 58 :: 34 :: (e.level.string ++ 34 :: 44 :: 34 ::
        (utf8 "msg".toList ++ 34 :: 58 :: 34 :: (logEscaping.text e.message.string ++
          34 :: 125 :: c :: r)))) := by
    rw [entryText]
    simp only [List.append_assoc, List.cons_append]
    rfl
  rw [hbytes] at h
  obtain ⟨before, inner, after, rfl, hinner⟩ := lexemes_of_object hl
  have hmembers := hinner.resolve_left fun hnone => List.cons_ne_nil _ _ hnone.1
  rw [List.append_assoc, List.cons_append, List.append_assoc, List.cons_append] at h
  obtain ⟨-, h⟩ := walk_punct h (by decide)
  obtain ⟨-, first, hfirst, hcases⟩ := walk_member hmembers (.of_all (by decide)) h
  obtain ⟨rest, hrest, h⟩ := hcases.resolve_left fun hnone => List.cons_ne_nil _ _ hnone.1
  obtain ⟨bs, h⟩ := walk_value hfirst h
  have hlength := length_utf8_characters_le l
  rw [hl'] at hlength
  rcases (isBlocks_inside l).over_quote h with ⟨hsame, h⟩ | ⟨w, hlonger, -⟩ | ⟨w, hblocks, -, h⟩
  · obtain ⟨-, h⟩ := walk_punct h (by decide)
    obtain ⟨-, first, hfirst, hcases⟩ := walk_member hrest (.of_all (by decide)) h
    obtain ⟨-, h⟩ := hcases.resolve_right fun ⟨rest, hrest, _⟩ =>
      absurd hrest.members_ne_nil (by simp)
    obtain ⟨bs, h⟩ := walk_value hfirst h
    obtain ⟨hinside, h⟩ :=
      (isBlocks_inside s).eq_of_quote (logEscaping.isBlocks_text e.message.string) h
    obtain ⟨-, h⟩ := walk_punct h (by decide)
    have hplain := isPlain_of_length (s := l) (by rw [hl', hsame])
    have hlevelPlain : PlainLevel e.level.string :=
      ⟨characters l, hl', fun d hd => isPlain_of_mem_characters hplain hd⟩
    exact ⟨⟨hlevelPlain, (Escaping.clean_of_inside hinside).1⟩, walk_punct h hc⟩
  · rw [hlonger, List.length_append, List.length_cons] at hlength
    omega
  · have hend := ((IsBlocks.of_all (by decide)).eq_of_quote hblocks h (u := [44])).2
    exact absurd (walk_punct hend.symm (by decide)).1 (by decide)

/-- What follows an entry. -/
theorem agree_entry {p : Punct} (hl : Parses Tree.builder first (.elements [v])) (he : IsEntry v e)
    (hc : ¬ IsBlankByte c) (htail : 11 ≤ (bytes tail).length)
    (hlength : (bytes (first ++ .punct p :: tail)).length ≤ k + 8)
    (h : (bytes (first ++ .punct p :: tail)).take k = (entryText e ++ c :: r).take k) :
    Listable e ∧ p.byte = c ∧ bytes (first ++ .punct p :: tail) = entryText e ++ c :: bytes tail ∧
      (bytes tail).take (k - ((entryText e).length + 1)) =
        r.take (k - ((entryText e).length + 1)) := by
  have hentry := length_entryText_le hl he
  have hsum : (bytes (first ++ .punct p :: tail)).length =
      (bytes first).length + ((bytes tail).length + 1) := by
    rw [bytes_append, List.length_append, bytes_punct, List.length_cons]
  obtain ⟨r', hbytes, hagree⟩ := agree_append h (by omega)
  obtain ⟨hlistable, hp, hbehind⟩ := walk_entry hl he hc hbytes
  rw [hbehind]
  exact ⟨hlistable, hp, hbytes, hagree⟩

/-- The entries that are read are all entries, and none of them was cut. -/
theorem walk_elements (hl : Parses Tree.builder l (.elements (v :: vs)))
    (hentries : List.Forall₂ IsEntry (v :: vs) ((e :: es).take (v :: vs).length))
    (hrest : 11 ≤ (bytes rest).length)
    (hlength : (bytes (l ++ .punct .rbracket :: rest)).length ≤ k + 8)
    (h : (bytes (l ++ .punct .rbracket :: rest)).take k =
      (entriesText (e :: es) ++ 93 :: r).take k) :
    vs.length = es.length ∧ (∀ e' ∈ e :: es, Listable e') ∧
      bytes (l ++ .punct .rbracket :: rest) = entriesText (e :: es) ++ 93 :: bytes rest := by
  induction es generalizing e l v vs k with
  | nil =>
    rw [List.length_cons, List.take_succ_cons, List.take_nil] at hentries
    obtain ⟨he, hnone⟩ := List.forall₂_cons.mp hentries
    obtain rfl := List.forall₂_nil_right_iff.mp hnone
    have htext : entriesText [e] = entryText e := List.append_nil _
    rw [htext] at h ⊢
    obtain ⟨hlistable, -, hbytes, -⟩ := agree_entry hl he (by decide) hrest hlength h
    refine ⟨rfl, ?_, hbytes⟩
    intro e' he'
    exact List.mem_singleton.mp he' ▸ hlistable
  | cons e' es ih =>
    have htext : ∀ t, entriesText (e :: e' :: es) ++ 93 :: t =
        entryText e ++ 44 :: (entriesText (e' :: es) ++ 93 :: t) := by
      intro t
      rw [entriesText_cons, entriesText_cons, List.flatMap_cons, List.append_assoc,
        List.cons_append, List.cons_append]
    rw [List.length_cons, List.take_succ_cons] at hentries
    obtain ⟨he, hes⟩ := List.forall₂_cons.mp hentries
    rw [htext] at h
    rw [htext]
    rcases lexemes_of_elements hl with ⟨rfl, hone⟩ | ⟨first, later, rfl, hone, hmore⟩
    · obtain ⟨-, hp, -⟩ := agree_entry hone he (by decide) hrest hlength h
      exact absurd hp (by decide)
    · obtain ⟨v', vs, rfl⟩ := List.exists_cons_of_length_pos hmore.elements_ne_nil
      rw [List.append_assoc, List.cons_append] at h hlength ⊢
      have hbehind : (bytes (later ++ .punct .rbracket :: rest)).length =
          (bytes later).length + ((bytes rest).length + 1) := by
        rw [bytes_append, List.length_append, bytes_punct, List.length_cons]
      obtain ⟨hlistable, -, hbytes, hagree⟩ :=
        agree_entry hone he (by decide) (by omega) hlength h
      have hentry := length_entryText_le hone he
      have hsum := congrArg List.length hbytes
      rw [List.length_append, List.length_cons] at hsum
      obtain ⟨hall, hlistables, hwhole⟩ := ih hmore hes (by omega) hagree
      refine ⟨congrArg (· + 1) hall, ?_, ?_⟩
      · intro e'' he''
        rcases List.mem_cons.mp he'' with rfl | he''
        · exact hlistable
        · exact hlistables e'' he''
      · rw [hbytes, hwhole]

theorem entriesName_length : entriesName.length = 11 := by decide

theorem text_ne_nil (n : NumberText) : 0 < (utf8 n.text).length := by
  have hdigits : 0 < n.integer.length := List.length_pos_of_ne_nil n.integer_ne
  have hle := length_le_utf8 n.text
  rw [NumberText.text, List.length_append, List.length_append] at hle
  exact lt_of_lt_of_le (by omega) hle

/-- What stands behind the entries. -/
theorem behind_entries (first tail : List Lexeme) {names : List Piece} {n : NumberText}
    (hl : Parses Tree.builder l (.members [(names, .number n)]))
    (hnames : characters names = "count".toList) :
    125 ∈ bytes (first ++ .punct .comma :: (l ++ .punct .rbrace :: tail)) ∧
      11 ≤ (bytes (first ++ .punct .comma :: (l ++ .punct .rbrace :: tail))).length := by
  obtain ⟨a, b, last, hlast, hcases⟩ := lexemes_of_members hl
  obtain ⟨-, rfl⟩ := hcases.resolve_right fun ⟨rest, hrest, _⟩ =>
    absurd hrest.members_ne_nil (by simp)
  obtain ⟨c, d, rfl⟩ := lexemes_of_number hlast
  have hname := length_utf8_characters_le names
  have hfive : (utf8 "count".toList).length = 5 := by decide
  have hnumber := text_ne_nil n
  have hbrace : Punct.rbrace.byte = 125 := rfl
  rw [hnames, hfive] at hname
  simp only [bytes_append, bytes_punct, bytes_string, bytes_cons (.number n), Lexeme.text,
    List.mem_append, List.mem_cons, List.length_append, List.length_cons, hbrace]
  exact ⟨by simp, by omega⟩

/-- A listing that begins like the text of its entries. -/
theorem walk_listing {sent : List UInt8} (h : IsListing (e :: es) sent)
    (hlength : sent.length < Config.maxRspSize)
    (htake : sent.take (Config.maxRspSize - 9) =
      (listingText (e :: es)).take (Config.maxRspSize - 9)) :
    (∀ e' ∈ e :: es, Listable e') ∧ ∃ z : List UInt8, 125 ∈ z ∧ 11 ≤ z.length ∧
      sent = entriesName ++ 91 :: (entriesText (e :: es) ++ 93 :: z) := by
  have hmax : Config.maxRspSize = 2048 := rfl
  have hname := entriesName_length
  obtain ⟨line, names, count, vs, n, rfl, hdenotes, -, hcount, hentries, -⟩ := h
  rw [listingText] at htake
  obtain ⟨x, hx, hagree⟩ := agree_append htake (by omega)
  have hsum := congrArg List.length hx
  rw [List.length_append, List.length_cons] at hsum
  have hquotes : entriesName ++ 91 :: x = 123 :: 34 :: (utf8 "entries".toList ++ 34 :: 58 :: 91 :: x) :=
    rfl
  have hwalk := hx
  rw [hquotes] at hwalk
  obtain ⟨before, inner, after, rfl, hinner⟩ := lexemes_of_object hdenotes
  have hmembers := hinner.resolve_left fun hnone => List.cons_ne_nil _ _ hnone.1
  obtain ⟨-, hwalk⟩ := walk_punct hwalk (by decide)
  obtain ⟨-, first, hfirst, hcases⟩ := walk_member hmembers (.of_all (by decide)) hwalk
  obtain ⟨rest, hrest, hwalk⟩ := hcases.resolve_left fun hnone => List.cons_ne_nil _ _ hnone.1
  obtain ⟨before', elements, after', rfl, helements⟩ := lexemes_of_array hfirst
  rw [List.append_assoc, List.cons_append, List.append_assoc, List.cons_append] at hwalk
  obtain ⟨-, hwalk⟩ := walk_punct hwalk (by decide)
  obtain ⟨hbrace, hlong⟩ := behind_entries (blanks after') (blanks after) hrest hcount
  rcases helements with ⟨rfl, bs, rfl⟩ | helements
  · -- the first byte behind the bracket is that of an entry
    have htext : ∀ t, entriesText (e :: es) ++ t = [] ++ 123 :: ((entriesText (e :: es) ++ t).drop 1) :=
      fun t => rfl
    rw [htext] at hagree
    obtain ⟨y, rfl, -⟩ := agree_append hagree (by rw [List.length_nil]; omega)
    exact absurd (walk_punct hwalk (by decide)).1 (by decide)
  · obtain ⟨v, vs, rfl⟩ := List.exists_cons_of_length_pos helements.elements_ne_nil
    rw [← hwalk] at hagree
    obtain ⟨-, hlistable, hbytes⟩ :=
      walk_elements helements hentries hlong (by rw [hwalk]; omega) hagree
    refine ⟨hlistable, _, hbrace, hlong, ?_⟩
    rw [hx, ← hwalk, hbytes]

theorem length_listingText (es : List LogEntry) :
    (listingText es).length = (entriesText es).length + (countText es.length).length + 23 := by
  have hname := entriesName_length
  have hcount : (utf8 ",\"count\":".toList).length = 9 := by decide
  simp only [listingText, List.length_append, List.length_cons, List.length_nil, hname, hcount]
  omega

/-- The closing brace is only left out where it does not fit. -/
theorem fits_of_closed {z : List UInt8} (hcount : es.length ≤ UrlQuery.entriesSize)
    (hbrace : 125 ∈ z) (hlong : 11 ≤ z.length)
    (h : (listing es).text = entriesName ++ 91 :: (entriesText es ++ 93 :: z)) :
    (listingText es).length < Config.maxRspSize := by
  have hmax : Config.maxRspSize = 2048 := rfl
  have hname := entriesName_length
  have hdigits := length_countText hcount
  have hsent := length_listing_lt es
  have hall := length_listingText es
  rw [h, List.length_append, List.length_cons, List.length_append, List.length_cons] at hsent
  by_contra hlarge
  have hpieces : (entriesName ++ (listingPieces es).flatten).length < Config.maxRspSize := by
    have hsum := congrArg List.length (listingText_eq es)
    rw [List.flatten_append, ← List.append_assoc, List.length_append] at hsum
    have hone : ([[125]] : List (List UInt8)).flatten.length = 1 := rfl
    omega
  have hopen : (listing es).text = entriesName ++ (listingPieces es).flatten := by
    rw [listing_text, appendedAll_concat, appendedAll_eq hpieces, appended, if_neg]
    have hsum := congrArg List.length (listingText_eq es)
    rw [List.flatten_append, ← List.append_assoc, List.length_append] at hsum
    have hone : ([[125]] : List (List UInt8)).flatten.length = 1 := rfl
    rw [List.length_singleton]
    omega
  rw [hopen, flatten_listingPieces] at h
  have hbehind := (List.cons.inj (List.append_cancel_left h)).2
  have hz := (List.cons.inj (List.append_cancel_left hbehind)).2
  rw [← hz, List.mem_append] at hbrace
  rcases hbrace with hbrace | hbrace
  · exact absurd hbrace (by decide)
  · exact absurd (isDigit_utf8 DecimalText.natural_isDigit 125 hbrace) (by decide)

theorem fits_of_isListing (hcount : es.length ≤ UrlQuery.entriesSize)
    (h : IsListing es (listing es).text) :
    (∀ e ∈ es, Listable e) ∧ (listingText es).length < Config.maxRspSize := by
  cases es with
  | nil => exact ⟨fun e he => absurd he List.not_mem_nil, by decide⟩
  | cons e es =>
    obtain ⟨hlistable, z, hbrace, hlong, hbytes⟩ :=
      walk_listing h (length_listing_lt _) (take_listing hcount)
    exact ⟨hlistable, fits_of_closed hcount hbrace hlong hbytes⟩

/-- What is sent is a listing if and only if no entry lies behind the array, the texts of the entries
can be listed and all of them fit. -/
theorem apiLogsHandler_isListing (q : UrlQuery) (b : LogBuffer) :
    (∃ sent, apiLogsHandler q b = some sent ∧ IsListing (q.entries b) sent) ↔
      (q.entries b).length ≤ UrlQuery.entriesSize ∧ (∀ e ∈ q.entries b, Listable e) ∧
        (listingText (q.entries b)).length < Config.maxRspSize := by
  constructor
  · rintro ⟨sent, hsent, hlisting⟩
    unfold apiLogsHandler at hsent
    dsimp only at hsent
    by_cases hcount : (q.entries b).length ≤ UrlQuery.entriesSize
    · rw [if_pos hcount] at hsent
      obtain rfl := Option.some.inj hsent
      exact ⟨hcount, fits_of_isListing hcount hlisting⟩
    · rw [if_neg hcount] at hsent
      cases hsent
  · rintro ⟨hcount, hlistable, hfits⟩
    refine ⟨(listing (q.entries b)).text, if_pos hcount, ?_⟩
    rw [listing_text_of_fits hfits]
    exact isListing_listingText hlistable

/-! ## Twenty long messages -/

/-- A request without a query. -/
def plainQuery : UrlQuery where
  urlQueryStr := none
  keyValue _ _ := none

/-- A message that fills its field. -/
def longPush : Push where
  timestampMs := 5
  level := utf8 "INFO".toList
  message := List.replicate 127 65
  timed := by decide
  level_string := by decide
  message_string := by decide

def longBuffer : LogBuffer := (init logBufEntries).run (List.replicate 20 (.push longPush))

theorem sum_messages_le (es : List LogEntry) :
    (es.map fun e => e.message.string.length).sum ≤ (entriesText es).length := by
  have htail : ∀ es : List LogEntry, (es.map fun e => e.message.string.length).sum ≤
      (es.flatMap fun e => 44 :: entryText e).length := by
    intro es
    induction es with
    | nil => exact Nat.le_refl 0
    | cons e es ih =>
      have hmessage := logEscaping.length_le_text e.message.string
      have hentry := length_entryText e
      rw [List.map_cons, List.sum_cons, List.flatMap_cons, List.length_append, List.length_cons]
      omega
  cases es with
  | nil => exact Nat.le_refl 0
  | cons e es =>
    have hmessage := logEscaping.length_le_text e.message.string
    have hentry := length_entryText e
    have hrest := htail es
    rw [List.map_cons, List.sum_cons, entriesText_cons, List.length_append]
    omega

theorem apiLogsHandler_long : ¬ ∃ sent, apiLogsHandler plainQuery longBuffer = some sent ∧
    IsListing (plainQuery.entries longBuffer) sent := by
  have hpushes : pushes (List.replicate 20 (.push longPush)) = List.replicate 20 longPush := rfl
  have hfollows := follows_run logBufEntries (List.replicate 20 (.push longPush))
  rw [hpushes] at hfollows
  have hrecords : (plainQuery.entries longBuffer).map LogEntry.record =
      List.replicate 20 longPush.record :=
    (fetch_aligned hfollows (by decide) (.inl (by decide)) 20 none).trans rfl
  have hlengths : (plainQuery.entries longBuffer).map (fun e => e.message.string.length) =
      List.replicate 20 127 := by
    have hmap := congrArg (List.map fun r => r.message.length) hrecords
    rw [List.map_map, List.map_replicate] at hmap
    exact hmap
  have hcount : (plainQuery.entries longBuffer).length = 20 := by
    have hlength := congrArg List.length hrecords
    rwa [List.length_map, List.length_replicate] at hlength
  have hsum := sum_messages_le (plainQuery.entries longBuffer)
  have htotal : (List.replicate 20 127).sum = 2540 := by decide
  rw [hlengths, htotal] at hsum
  rintro ⟨sent, hsent, hlisting⟩
  have hinside : (plainQuery.entries longBuffer).length ≤ UrlQuery.entriesSize := by
    rw [hcount]
    decide
  unfold apiLogsHandler at hsent
  dsimp only at hsent
  rw [if_pos hinside] at hsent
  obtain rfl := Option.some.inj hsent
  have hfits := (fits_of_isListing hinside hlisting).2
  have hall := length_listingText (plainQuery.entries longBuffer)
  have hmax : Config.maxRspSize = 2048 := rfl
  omega

end Ecotiter
