import Ecotiter.JsonWalks
import Ecotiter.LogCapture

/-!
# Log events

`wsLogCallback` of `log_capture.cpp`. The level goes into the text as it is, and a level of seven bytes
has no room for a member of its own.
-/

namespace Ecotiter
open BoundedOutput JsonText

/-- What the loop of `wsLogCallback` writes for a character. -/
def logEventEscaping : Escaping where
  write b :=
    if b = 34 then [39]
    else if b = 92 then [47]
    else if b = 10 then [92, 110]
    else if b = 13 then [92, 114]
    else if b = 9 then [92, 116]
    else [b]
  high b hb := by
    have hne : ∀ k : UInt8, k < 128 → b ≠ k := by
      rintro k hk rfl
      exact absurd hk (UInt8.not_lt.mpr hb)
    rw [if_neg (hne 34 (by decide)), if_neg (hne 92 (by decide)), if_neg (hne 10 (by decide)),
      if_neg (hne 13 (by decide)), if_neg (hne 9 (by decide))]
  low b hb := by
    split
    · exact .inl ⟨39, by decide, by decide, by decide, rfl⟩
    · split
      · exact .inl ⟨47, by decide, by decide, by decide, rfl⟩
      · split
        · exact .inr ⟨110, by decide, rfl⟩
        · split
          · exact .inr ⟨114, by decide, rfl⟩
          · split
            · exact .inr ⟨116, by decide, rfl⟩
            · exact .inl ⟨b, hb, by assumption, by assumption, rfl⟩

/-- The loop over the message. -/
def escapeLog : CString → Output → Output
  | [], o => o
  | c :: src, o =>
    if o.off < Config.wsBufSize - 6 then escapeLog src (o.copy (logEventEscaping.write c)) else o

/-- A byte at the offset, which stays where it is. -/
def putZero (o : Output) : Output := { o.copy [0] with off := o.off }

def logEventOpening (level : CString) : List UInt8 :=
  utf8 "\x7b\"event\":\"log\",\"data\":\x7b\"level\":\"".toList ++ level ++
    utf8 "\",\"msg\":\"".toList

/-- What is left in `buf`, which is not initialized. -/
def logEventBuffer (entry : LogEntry) (buf : Vector UInt8 Config.wsBufSize) : Output :=
  let o := Output.snprintf (logEventOpening entry.level.string) { mem := buf.toList }
  let o := putZero (escapeLog entry.message.string o)
  o.snprintf (utf8 "\"\x7d\x7d".toList)

/-- The text that is queued. -/
def wsLogCallback (entry : LogEntry) (buf : Vector UInt8 Config.wsBufSize) : Option (List UInt8) :=
  let o := logEventBuffer entry buf
  let n := o.string.length
  if n = 0 then none else some (o.mem.take (min n (Config.wsBufSize - 1)))

/-- A text that is an object with the name of the event and an object with a level and a message. -/
def IsLogEvent (text : List UInt8) : Prop :=
  ∃ line event log data level msg l s, text = bytes line ∧
    Denotes Tree.builder line
      (.object [(event, .string log), (data, .object [(level, .string l), (msg, .string s)])]) ∧
    characters event = "event".toList ∧ characters log = "log".toList ∧
    characters data = "data".toList ∧ characters level = "level".toList ∧
    characters msg = "msg".toList

/-- Every write stayed inside the array, and what is queued is an event. -/
structure WellFormedEvent (entry : LogEntry) (buf : Vector UInt8 Config.wsBufSize) : Prop where
  inside : (logEventBuffer entry buf).inside = true
  event : ∃ text, wsLogCallback entry buf = some text ∧ IsLogEvent text

/-! ## The text -/

variable {o : Output} {size : ℕ} {t m : List UInt8}

theorem holds_escapeLog (h : o.Holds Config.wsBufSize t)
    (hfit : t.length + 2 * m.length + 6 ≤ Config.wsBufSize) :
    (escapeLog m o).Holds Config.wsBufSize (t ++ logEventEscaping.text m) := by
  induction m generalizing o t with
  | nil => simpa [escapeLog, Escaping.text] using h
  | cons c m ih =>
    have hoff := h.off
    have hwrite := logEventEscaping.length_write_le c
    rw [List.length_cons] at hfit
    have hcopied := h.copy (s := logEventEscaping.write c) (by omega)
    have hrest := ih hcopied (by rw [List.length_append]; omega)
    rw [escapeLog, if_pos (by omega), Escaping.text_cons, ← List.append_assoc]
    exact hrest

theorem holds_putZero (h : o.Holds size t) (hfit : t.length < size) : (putZero o).Holds size t := by
  have hterminated := h.terminate
  have hoff := h.off
  have hsize := h.size
  rw [Output.terminate, if_pos (by omega)] at hterminated
  have hinside : (putZero o).inside = true := (h.copy (s := [0]) hfit).inside
  exact ⟨hterminated.size, hinside, hterminated.off, hterminated.text⟩

theorem zero_notMem_text (h : 0 ∉ m) : 0 ∉ logEventEscaping.text m := by
  intro hmem
  obtain ⟨b, hb, hzero⟩ := List.mem_flatMap.mp hmem
  have hne : b ≠ 0 := fun heq => h (heq ▸ hb)
  revert hzero
  change 0 ∉ if b = 34 then [39] else if b = 92 then [47] else if b = 10 then [92, 110]
    else if b = 13 then [92, 114] else if b = 9 then [92, 116] else [b]
  split
  · decide
  · split
    · decide
    · split
      · decide
      · split
        · decide
        · split
          · decide
          · rw [List.mem_singleton]
            exact hne.symm

theorem zero_notMem_string {size : ℕ} (a : CharArray size) : 0 ∉ a.string :=
  fun h => ne_zero_of_mem h rfl

/-- The text that a level and a message make. -/
def logEventText (level message : List UInt8) : List UInt8 :=
  logEventOpening level ++ logEventEscaping.text message ++ utf8 "\"\x7d\x7d".toList

theorem length_logEventOpening (level : List UInt8) :
    (logEventOpening level).length = level.length + 41 := by
  have hfirst : (utf8 "\x7b\"event\":\"log\",\"data\":\x7b\"level\":\"".toList).length = 32 := by
    decide
  have hlast : (utf8 "\",\"msg\":\"".toList).length = 9 := by decide
  rw [logEventOpening, List.length_append, List.length_append, hfirst, hlast]
  omega

theorem logEventBuffer_string (entry : LogEntry) (buf : Vector UInt8 Config.wsBufSize) :
    (logEventBuffer entry buf).Holds Config.wsBufSize
        (logEventText entry.level.string entry.message.string) ∧
      (logEventBuffer entry buf).string =
        logEventText entry.level.string entry.message.string := by
  have hlevel := entry.level.string_length_lt
  have hmessage := entry.message.string_length_lt
  have hopening := length_logEventOpening entry.level.string
  have htext := logEventEscaping.length_text_le entry.message.string
  have hsize : Config.wsBufSize = 384 := rfl
  have hclosing : (utf8 "\"\x7d\x7d".toList).length = 3 := by decide
  have hempty : Output.Holds { mem := buf.toList } Config.wsBufSize [] :=
    Output.holds_empty Vector.length_toList
  have hopened := hempty.snprintf (s := logEventOpening entry.level.string)
    (by rw [List.length_nil]; omega)
  have hescaped := holds_escapeLog (m := entry.message.string) hopened
    (by rw [List.nil_append]; omega)
  have hlength : ([] ++ logEventOpening entry.level.string ++
      logEventEscaping.text entry.message.string).length ≤ 302 := by
    rw [List.nil_append, List.length_append]
    omega
  have hzeroed := holds_putZero hescaped (by omega)
  have hnozero : 0 ∉ [] ++ logEventOpening entry.level.string ++
      logEventEscaping.text entry.message.string ++ utf8 "\"\x7d\x7d".toList := by
    simp only [List.nil_append, List.mem_append, logEventOpening, not_or]
    exact ⟨⟨⟨⟨by decide, zero_notMem_string _⟩, by decide⟩, zero_notMem_text (zero_notMem_string _)⟩,
      by decide⟩
  exact ⟨hzeroed.snprintf (by omega), hzeroed.snprintf_string (by omega) hnozero⟩

theorem wsLogCallback_eq (entry : LogEntry) (buf : Vector UInt8 Config.wsBufSize) :
    wsLogCallback entry buf = some (logEventText entry.level.string entry.message.string) := by
  obtain ⟨hholds, hstring⟩ := logEventBuffer_string entry buf
  have hlevel := entry.level.string_length_lt
  have hmessage := entry.message.string_length_lt
  have htext := logEventEscaping.length_text_le entry.message.string
  have hclosing : (utf8 "\"\x7d\x7d".toList).length = 3 := by decide
  have hlength : (logEventText entry.level.string entry.message.string).length =
      entry.level.string.length + 41 + (logEventEscaping.text entry.message.string).length + 3 := by
    rw [logEventText, List.length_append, List.length_append, length_logEventOpening, hclosing]
  have hfits : min (logEventText entry.level.string entry.message.string).length
      (Config.wsBufSize - 1) = (logEventBuffer entry buf).off := by
    rw [hholds.off]
    apply Nat.min_eq_left
    change _ ≤ 383
    omega
  rw [wsLogCallback, hstring, if_neg (by omega), hfits]
  exact congrArg some hholds.text

/-! ## Which texts are events -/

theorem isLogEvent_of_inside {level message : List UInt8} {l s : List Piece}
    (hl : inside l = level) (hs : inside s = logEventEscaping.text message) :
    IsLogEvent (logEventText level message) := by
  let data : Written Tree.builder :=
    .object [(plain "level", .string l), (plain "msg", .string s)]
  let object : Written Tree.builder :=
    .object [(plain "event", .string (plain "log")), (plain "data", data)]
  refine ⟨object.line, plain "event", plain "log", plain "data", plain "level", plain "msg", l, s,
    ?_, object.parses_element, characters_pieces _, characters_pieces _, characters_pieces _,
    characters_pieces _, characters_pieces _⟩
  have htext : object.text = "\x7b\"event\":\"log\",\"data\":\x7b\"level\":\"".toList ++
      l.flatMap Piece.text ++ "\",\"msg\":\"".toList ++ s.flatMap Piece.text ++
        "\"\x7d\x7d".toList := by
    simp [object, data, Written.memberText]
  change _ = utf8 object.text
  rw [htext, logEventText, logEventOpening, ← hl, ← hs]
  simp only [utf8_append]
  rfl

/-- The blanks, the comma and the name that follow a string do not begin in a short text that stands
in front of the quote that should end the string. -/
theorem no_shift {a b c : List Blank} {k : List Piece} {tail : List Lexeme} {v m : List UInt8}
    (hk : 3 ≤ (inside k).length) (hv : v.length ≤ 6)
    (h : bytes (blanks a ++ .punct .comma :: (blanks b ++ .string k ::
      (blanks c ++ .punct .colon :: tail))) = v ++ 34 :: 44 :: 34 :: 109 :: m) : False := by
  have hcolon : ∀ {d : UInt8} {r : List UInt8}, d ≠ 58 → ¬ IsBlankByte d →
      bytes (blanks c ++ .punct .colon :: tail) ≠ d :: r := fun hd hblank hbytes =>
    hd (walk_punct hbytes hblank).1.symm
  have hfront : IsBlocks (bytes (blanks a) ++ 44 :: bytes (blanks b)) :=
    (isBlocks_blanks a).append (.plain (by decide) (isBlocks_blanks b))
  have hparts : bytes (blanks a ++ .punct .comma :: (blanks b ++ .string k ::
      (blanks c ++ .punct .colon :: tail))) = (bytes (blanks a) ++ 44 :: bytes (blanks b)) ++ 34 ::
        (inside k ++ 34 :: bytes (blanks c ++ .punct .colon :: tail)) := by
    rw [bytes_append, bytes_punct, bytes_append, bytes_string]
    simp
    rfl
  rw [hparts] at h
  rcases hfront.over_quote h with ⟨-, hrest⟩ | ⟨v', rfl, hrest⟩ | ⟨v', -, hquote, -⟩
  · have hname := ((isBlocks_inside k).eq_of_quote (.of_all (by decide)) hrest (v := [44])).1
    rw [hname] at hk
    exact absurd hk (by decide)
  · rw [List.length_append, List.length_cons, List.length_append, List.length_cons] at hv
    rcases (isBlocks_inside k).over_quote hrest with
      ⟨-, hend⟩ | ⟨v'', rfl, hend⟩ | ⟨v'', hblocks, -, hend⟩
    · exact hcolon (by decide) (by decide) hend
    · rw [List.length_append, List.length_cons] at hv
      have hnone : v''.length = 0 := by omega
      rw [List.eq_nil_of_length_eq_zero hnone] at hend
      exact hcolon (by decide) (by decide) hend
    · have hafter := ((IsBlocks.of_all (by decide)).eq_of_quote hblocks hend (u := [44])).2
      exact hcolon (by decide) (by decide) hafter.symm
  · have hmem : (34 : UInt8) ∈ bytes (blanks a) ++ 44 :: bytes (blanks b) := by
      rw [hquote]
      exact List.mem_append_right v List.mem_cons_self
    rcases List.mem_append.mp hmem with hblank | hmem
    · exact absurd (isBlankByte_of_mem hblank) (by decide)
    · rcases List.mem_cons.mp hmem with heq | hblank
      · exact absurd heq (by decide)
      · exact absurd (isBlankByte_of_mem hblank) (by decide)

theorem level_of_isLogEvent {level message : List UInt8} (hshort : level.length ≤ 7)
    (h : IsLogEvent (logEventText level message)) :
    (∃ l, inside l = level) ∧ logEventEscaping.Clean message := by
  obtain ⟨line, event, log, data, levelName, msg, l, s, h, hdenotes, -, -, -, -, hmsg⟩ := h
  have hbytes : logEventText level message =
      123 :: 34 :: (utf8 "event".toList ++ 34 :: 58 :: 34 :: (utf8 "log".toList ++ 34 :: 44 :: 34 ::
        (utf8 "data".toList ++ 34 :: 58 :: 123 :: 34 :: (utf8 "level".toList ++ 34 :: 58 :: 34 ::
          (level ++ 34 :: 44 :: 34 :: (utf8 "msg".toList ++ 34 :: 58 :: 34 ::
            (logEventEscaping.text message ++ 34 :: [125, 125]))))))) := by
    rw [logEventText, logEventOpening]
    simp only [List.append_assoc]
    rfl
  rw [hbytes] at h
  have h := h.symm
  obtain ⟨before, inner, after, rfl, hinner⟩ := lexemes_of_object hdenotes
  have hmembers := hinner.resolve_left fun hnone => List.cons_ne_nil _ _ hnone.1
  obtain ⟨-, h⟩ := walk_punct h (by decide)
  obtain ⟨-, first, hfirst, hcases⟩ := walk_member hmembers (.of_all (by decide)) h
  obtain ⟨rest, hrest, h⟩ := hcases.resolve_left fun hnone => List.cons_ne_nil _ _ hnone.1
  obtain ⟨bs, h⟩ := walk_value hfirst h
  obtain ⟨-, h⟩ := (isBlocks_inside log).eq_of_quote (.of_all (by decide)) h
  obtain ⟨-, h⟩ := walk_punct h (by decide)
  obtain ⟨-, first, hfirst, hcases⟩ := walk_member hrest (.of_all (by decide)) h
  obtain ⟨-, h⟩ := hcases.resolve_right fun ⟨rest, hrest, _⟩ => absurd hrest.members_ne_nil (by simp)
  obtain ⟨before', inner', after', rfl, hinner⟩ := lexemes_of_object hfirst
  have hmembers := hinner.resolve_left fun hnone => List.cons_ne_nil _ _ hnone.1
  rw [List.append_assoc, List.cons_append] at h
  obtain ⟨-, h⟩ := walk_punct h (by decide)
  rw [List.append_assoc] at h
  obtain ⟨-, first, hfirst, hcases⟩ := walk_member hmembers (.of_all (by decide)) h
  obtain ⟨rest, hrest, h⟩ := hcases.resolve_left fun hnone => List.cons_ne_nil _ _ hnone.1
  obtain ⟨bs, h⟩ := walk_value hfirst h
  rcases (isBlocks_inside l).over_quote h with ⟨hl, h⟩ | ⟨v, hlevel, h⟩ | ⟨v, hblocks, hl, h⟩
  · obtain ⟨-, h⟩ := walk_punct h (by decide)
    obtain ⟨-, first, hfirst, hcases⟩ := walk_member hrest (.of_all (by decide)) h
    obtain ⟨-, h⟩ := hcases.resolve_right fun ⟨rest, hrest, _⟩ =>
      absurd hrest.members_ne_nil (by simp)
    obtain ⟨bs, h⟩ := walk_value hfirst h
    have hs := ((isBlocks_inside s).eq_of_quote (logEventEscaping.isBlocks_text message) h).1
    exact ⟨⟨l, hl⟩, (Escaping.clean_of_inside hs).1⟩
  · obtain ⟨a, b, first, -, hcases⟩ := lexemes_of_members hrest
    obtain ⟨-, rfl⟩ := hcases.resolve_right fun ⟨rest, hrest, _⟩ =>
      absurd hrest.members_ne_nil (by simp)
    have hlength := length_utf8_characters_le msg
    have hname : (utf8 (characters msg)).length = 3 := by
      rw [hmsg]
      decide
    rw [hlevel, List.length_append, List.length_cons] at hshort
    simp only [List.append_assoc, List.cons_append] at h
    exact (no_shift (by omega) (by omega) h).elim
  · have hend := ((IsBlocks.of_all (by decide)).eq_of_quote hblocks h (u := [44])).2
    exact absurd (walk_punct hend.symm (by decide)).1 (by decide)

theorem wsLogCallback_wellFormed (entry : LogEntry) (buf : Vector UInt8 Config.wsBufSize) :
    WellFormedEvent entry buf ↔
      (∃ l : List Piece, utf8 (l.flatMap Piece.text) = entry.level.string) ∧
        logEventEscaping.Clean entry.message.string := by
  have hlevel := entry.level.string_length_lt
  have hqueued := wsLogCallback_eq entry buf
  constructor
  · intro h
    obtain ⟨text, htext, hevent⟩ := h.event
    rw [hqueued] at htext
    rw [← Option.some.inj htext] at hevent
    exact level_of_isLogEvent (Nat.le_of_lt_succ hlevel) hevent
  · rintro ⟨⟨l, hl⟩, hclean⟩
    obtain ⟨s, hs⟩ := Escaping.exists_inside hclean
    exact ⟨(logEventBuffer_string entry buf).1.inside, _, hqueued, isLogEvent_of_inside hl hs⟩

/-- A line in colour, as the log library prints it. -/
def colouredEntry : LogEntry := LogEntry.copied 5 (utf8 "INFO".toList) [27, 91, 51, 50, 109, 73]

theorem wsLogCallback_coloured :
    ¬ WellFormedEvent colouredEntry (Vector.replicate Config.wsBufSize 0) := by
  intro h
  obtain ⟨text, htext, hevent⟩ := h.event
  rw [wsLogCallback_eq] at htext
  rw [← Option.some.inj htext] at hevent
  obtain ⟨-, cs, -, hcovers⟩ := level_of_isLogEvent (by decide) hevent
  have hcontrol := hcovers 27 (by decide) 27 rfl
  exact absurd hcontrol (by decide)

end Ecotiter
