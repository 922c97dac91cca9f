import Mathlib.Tactic.Common
import Ecotiter.LineStream

/-!
# The serial line reader

`splitBuffer` collects the bytes of the UART in a fixed buffer and hands out one line per call. The
model computes `none` where the code reads or writes outside `lineBuf_`. `staysInside_iff` says for
which sequences of calls that never happens.
-/

namespace Ecotiter

namespace Serial

def maxCmdSize : ℕ := 256
def newline : UInt8 := 10
def carriageReturn : UInt8 := 13

end Serial
open Serial

structure SerialReader where
  lineBuf : List UInt8 := List.replicate maxCmdSize 0
  linePos : ℕ := 0
  readPos : ℕ := 0

namespace SerialReader

/-- `lineBuf_[linePos_++] = c`. -/
def write (r : SerialReader) (c : UInt8) : Option SerialReader :=
  if r.linePos < maxCmdSize then
    some { r with lineBuf := r.lineBuf.set r.linePos c, linePos := r.linePos + 1 }
  else none

/-- Moves what is not read yet to the start of the buffer. -/
def compact (r : SerialReader) : Option SerialReader :=
  if 0 < r.readPos then
    if r.readPos < r.linePos then
      let remaining := r.linePos - r.readPos
      if r.readPos + remaining ≤ maxCmdSize then
        some { lineBuf := (r.lineBuf.drop r.readPos).take remaining ++ r.lineBuf.drop remaining
               linePos := remaining
               readPos := 0 }
      else none
    else some { r with linePos := 0, readPos := 0 }
  else some r

/-- Appends the incoming data. A buffer that overflows is reset, the rest of the data dropped. -/
def append : List UInt8 → SerialReader → Option SerialReader
  | [], r => some r
  | c :: data, r =>
    if c = carriageReturn then append data r
    else if c = newline then
      if r.linePos = r.readPos then append data r
      else (r.write newline).bind (append data)
    else if maxCmdSize ≤ r.linePos then some { r with linePos := 0, readPos := 0 }
    else (r.write c).bind (append data)

/-- The index of the first newline among `n` bytes from `i` on. -/
def findNewline (r : SerialReader) : ℕ → ℕ → Option (Option ℕ)
  | 0, _ => some none
  | n + 1, i =>
    if i < maxCmdSize then
      if r.lineBuf[i]? = some newline then some (some i) else r.findNewline n (i + 1)
    else none

def scan (r : SerialReader) : Option (Option (List UInt8) × SerialReader) :=
  (r.findNewline (r.linePos - r.readPos) r.readPos).map fun
    | some i => (some ((r.lineBuf.drop r.readPos).take (i - r.readPos)), { r with readPos := i + 1 })
    | none => (none, r)

def splitBuffer (data : List UInt8) (r : SerialReader) :
    Option (Option (List UInt8) × SerialReader) := do
  let r ← r.compact
  let r ← append data r
  r.scan

/-- The reader after some calls of `process(data)`. -/
def afterCalls : List (List UInt8) → SerialReader → Option SerialReader
  | [], r => some r
  | data :: calls, r => (r.splitBuffer data).bind fun out => afterCalls calls out.2

/-- The readers that a call of `process(data)` goes through. -/
inductive Passes (r : SerialReader) (data : List UInt8) : SerialReader → Prop
  | compacted {s : SerialReader} : r.compact = some s → Passes r data s
  | appended {s t : SerialReader} (n : ℕ) :
      r.compact = some s → append (data.take n) s = some t → Passes r data t
  | scanned {s : SerialReader} {line : Option (List UInt8)} :
      r.splitBuffer data = some (line, s) → Passes r data s

/-- No call of the run leaves the line buffer, and the cursors stay in order at every step. -/
structure StaysInside (calls : List (List UInt8)) : Prop where
  accesses : (afterCalls calls {}).isSome
  cursors : ∀ before data after r s, calls = before ++ data :: after →
    afterCalls before {} = some r → Passes r data s → s.readPos ≤ s.linePos ∧ s.linePos ≤ maxCmdSize

/-! ## The text in the buffer -/

/-- The bytes that were stored and not read yet. -/
def unread (r : SerialReader) : List UInt8 :=
  (r.lineBuf.take r.linePos).drop r.readPos

structure Sound (r : SerialReader) : Prop where
  length : r.lineBuf.length = maxCmdSize
  ordered : r.readPos ≤ r.linePos
  bounded : r.linePos ≤ maxCmdSize

theorem sound_empty : Sound {} := by
  refine ⟨List.length_replicate, le_rfl, Nat.zero_le _⟩

theorem unread_empty : unread {} = [] := rfl

theorem Sound.length_unread {r : SerialReader} (h : r.Sound) :
    r.unread.length = r.linePos - r.readPos := by
  have hlen := h.length
  have hbound := h.bounded
  rw [unread, List.length_drop, List.length_take]
  omega

/-- What `data` adds to a buffer that holds `text`, were there room for it. -/
def arriving (text data : List UInt8) : List UInt8 :=
  let stripped := data.filter (· ≠ carriageReturn)
  if text = [] then stripped.dropWhile (· = newline) else stripped

theorem arriving_nil (text : List UInt8) : arriving text [] = [] := by
  simp [arriving]

theorem arriving_carriageReturn (text data : List UInt8) :
    arriving text (carriageReturn :: data) = arriving text data := by
  simp [arriving]

theorem arriving_skip (data : List UInt8) : arriving [] (newline :: data) = arriving [] data := by
  have hne : newline ≠ carriageReturn := by decide
  simp [arriving, hne]

theorem arriving_keep {c : UInt8} {text : List UInt8} (hcr : c ≠ carriageReturn)
    (hnl : c = newline → text ≠ []) (data : List UInt8) :
    arriving text (c :: data) = c :: arriving (text ++ [c]) data := by
  have hne : text ++ [c] ≠ [] := by simp
  simp only [arriving, if_neg hne, List.filter_cons, decide_eq_true hcr, if_true]
  by_cases htext : text = []
  · rw [if_pos htext, List.dropWhile_cons_of_neg]
    simpa using fun h => hnl h htext
  · rw [if_neg htext]

/-- What the buffer holds after `text` was stored: an overflow empties it, and a newline after
`maxCmdSize` bytes is written outside. -/
def kept (text : List UInt8) : Option (List UInt8) :=
  if text.length ≤ maxCmdSize then some text
  else if text[maxCmdSize]? = some newline then none else some []

theorem kept_eq_none {text : List UInt8} : kept text = none ↔ text[maxCmdSize]? = some newline := by
  unfold kept
  by_cases hlen : text.length ≤ maxCmdSize
  · rw [if_pos hlen, List.getElem?_eq_none hlen]
    simp
  · rw [if_neg hlen]
    by_cases hnl : text[maxCmdSize]? = some newline
    · simp [hnl]
    · simp [hnl]

/-- The reader has the text in its buffer, from the start on. -/
def Stores (r : SerialReader) (text : List UInt8) : Prop :=
  r.Sound ∧ r.readPos = 0 ∧ r.unread = text

theorem compact_stores {r : SerialReader} (h : r.Sound) :
    ∃ s, r.compact = some s ∧ s.Stores r.unread := by
  have hlen := h.length
  have hord := h.ordered
  have hbound := h.bounded
  by_cases hread : 0 < r.readPos
  · by_cases hrest : r.readPos < r.linePos
    · have hfits : r.readPos + (r.linePos - r.readPos) ≤ maxCmdSize := by omega
      have hmoved : ((r.lineBuf.drop r.readPos).take (r.linePos - r.readPos)).length =
          r.linePos - r.readPos := by
        rw [List.length_take, List.length_drop]
        omega
      have hcompact : r.compact = some
          { lineBuf := (r.lineBuf.drop r.readPos).take (r.linePos - r.readPos) ++
              r.lineBuf.drop (r.linePos - r.readPos)
            linePos := r.linePos - r.readPos
            readPos := 0 } := by
        rw [compact, if_pos hread, if_pos hrest, if_pos hfits]
      refine ⟨_, hcompact, ⟨?_, Nat.zero_le _, ?_⟩, rfl, ?_⟩
      · simp only [List.length_append, hmoved, List.length_drop]
        omega
      · exact le_trans (Nat.sub_le _ _) hbound
      · simp only [unread, List.drop_zero]
        rw [List.take_append_of_le_length hmoved.ge, List.take_of_length_le hmoved.le,
          List.drop_take]
    · have hempty : r.unread = [] := by
        rw [← List.length_eq_zero_iff, h.length_unread]
        omega
      have hcompact : r.compact = some { r with linePos := 0, readPos := 0 } := by
        rw [compact, if_pos hread, if_neg hrest]
      refine ⟨_, hcompact, ⟨hlen, le_rfl, Nat.zero_le _⟩, rfl, ?_⟩
      rw [hempty]
      rfl
  · refine ⟨r, by rw [compact, if_neg hread], h, by omega, rfl⟩

theorem Stores.length {r : SerialReader} {text : List UInt8} (h : r.Stores text) :
    r.linePos = text.length := by
  obtain ⟨hsound, hread, rfl⟩ := h
  rw [hsound.length_unread, hread, Nat.sub_zero]

theorem Stores.write {r : SerialReader} {text : List UInt8} (h : r.Stores text)
    (hroom : text.length < maxCmdSize) (c : UInt8) :
    ∃ s, r.write c = some s ∧ s.Stores (text ++ [c]) := by
  have hpos := h.length
  obtain ⟨hsound, hread, htext⟩ := h
  have hlen := hsound.length
  rw [← hpos] at hroom
  have hwrite : r.write c =
      some { r with lineBuf := r.lineBuf.set r.linePos c, linePos := r.linePos + 1 } := by
    rw [SerialReader.write, if_pos hroom]
  refine ⟨_, hwrite, ⟨?_, ?_, hroom⟩, hread, ?_⟩
  · rw [List.length_set]
    exact hlen
  · exact le_trans hsound.ordered (Nat.le_succ _)
  · simp only [unread, hread, List.drop_zero] at htext ⊢
    rw [List.take_succ_eq_append_getElem (by rw [List.length_set]; omega), List.getElem_set_self,
      List.take_set_of_le le_rfl, htext]

/-- `append` stores the arriving bytes one by one. -/
theorem Stores.append {r : SerialReader} {text : List UInt8} (h : r.Stores text)
    (data : List UInt8) : Option.Rel Stores (append data r) (kept (text ++ arriving text data)) := by
  induction data generalizing r text with
  | nil =>
    have hlen : (text ++ arriving text []).length ≤ maxCmdSize := by
      rw [arriving_nil, List.append_nil, ← h.length]
      exact h.1.bounded
    rw [kept, if_pos hlen, arriving_nil, List.append_nil]
    exact .some h
  | cons c data ih =>
    have hpos := h.length
    have hbound := h.1.bounded
    have hread := h.2.1
    rw [SerialReader.append]
    by_cases hcr : c = carriageReturn
    · rw [if_pos hcr, hcr, arriving_carriageReturn]
      exact ih h
    rw [if_neg hcr]
    by_cases hskip : c = newline ∧ text = []
    · obtain ⟨rfl, rfl⟩ := hskip
      rw [if_pos rfl, if_pos (by rw [hpos, hread, List.length_nil]), arriving_skip]
      exact ih h
    have hkeep : c = newline → text ≠ [] := fun hc ht => hskip ⟨hc, ht⟩
    rw [arriving_keep hcr hkeep]
    by_cases hroom : text.length < maxCmdSize
    · obtain ⟨s, hwrite, hs⟩ := h.write hroom c
      have hstep := ih hs
      rw [List.append_assoc, List.singleton_append] at hstep
      by_cases hnl : c = newline
      · have hpending : ¬ r.linePos = r.readPos := by
          rw [hpos, hread]
          exact fun h0 => hkeep hnl (List.length_eq_zero_iff.mp h0)
        rw [if_pos hnl, if_neg hpending, ← hnl, hwrite]
        exact hstep
      · rw [if_neg hnl, if_neg (by omega), hwrite]
        exact hstep
    · have hfull : text.length = maxCmdSize := by omega
      have hlong : ¬ (text ++ c :: arriving (text ++ [c]) data).length ≤ maxCmdSize := by
        rw [List.length_append, List.length_cons]
        omega
      have hnext : (text ++ c :: arriving (text ++ [c]) data)[maxCmdSize]? = some c := by
        rw [List.getElem?_append_right hfull.le, hfull, Nat.sub_self, List.getElem?_cons_zero]
      rw [kept, if_neg hlong, hnext]
      by_cases hnl : c = newline
      · have hpending : ¬ r.linePos = r.readPos := by
          rw [hpos, hread, hfull]
          decide
        rw [if_pos hnl, if_neg hpending, SerialReader.write, if_neg (by omega),
          if_pos (congrArg some hnl)]
        exact .none
      · rw [if_neg hnl, if_pos (by omega), if_neg (fun h => hnl (Option.some.inj h))]
        exact .some ⟨⟨h.1.length, le_rfl, Nat.zero_le _⟩, rfl, rfl⟩

/-- The search stops at the first newline of the unread text. -/
theorem findNewline_eq {r : SerialReader} (h : r.Sound) {n i : ℕ} (hn : i + n = r.linePos) :
    (newline ∉ (r.lineBuf.take r.linePos).drop i ∧ r.findNewline n i = some none) ∨
      ∃ line rest, (r.lineBuf.take r.linePos).drop i = line ++ newline :: rest ∧ newline ∉ line ∧
        r.findNewline n i = some (some (i + line.length)) := by
  have hlen := h.length
  have hbound := h.bounded
  induction n generalizing i with
  | zero =>
    left
    rw [List.drop_of_length_le (by rw [List.length_take]; omega)]
    exact ⟨List.not_mem_nil, rfl⟩
  | succ n ih =>
    have hi : i < r.lineBuf.length := by omega
    have hcons : (r.lineBuf.take r.linePos).drop i =
        r.lineBuf[i] :: (r.lineBuf.take r.linePos).drop (i + 1) := by
      rw [List.drop_eq_getElem_cons (by rw [List.length_take]; omega), List.getElem_take]
    rw [findNewline, if_pos (by omega), List.getElem?_eq_getElem hi, hcons]
    by_cases hnl : r.lineBuf[i] = newline
    · right
      refine ⟨[], (r.lineBuf.take r.linePos).drop (i + 1), ?_, List.not_mem_nil, ?_⟩
      · rw [hnl, List.nil_append]
      · rw [if_pos (congrArg some hnl), List.length_nil, Nat.add_zero]
    · rw [if_neg fun h => hnl (Option.some.inj h)]
      have hstep := ih (i := i + 1) (by omega)
      rcases hstep with ⟨hnone, hfind⟩ | ⟨line, rest, htext, hline, hfind⟩
      · left
        refine ⟨?_, hfind⟩
        rw [List.mem_cons]
        exact not_or.mpr ⟨Ne.symm hnl, hnone⟩
      · right
        refine ⟨r.lineBuf[i] :: line, rest, ?_, ?_, ?_⟩
        · rw [htext, List.cons_append]
        · rw [List.mem_cons]
          exact not_or.mpr ⟨Ne.symm hnl, hline⟩
        · rw [hfind, List.length_cons]
          congr 2
          omega

/-- What a call hands out of a buffer with this unread text, and what it leaves. -/
inductive Hands (text : List UInt8) : Option (List UInt8) × SerialReader → Prop
  | nothing {s : SerialReader} :
      s.Sound → s.unread = text → newline ∉ text → Hands text (none, s)
  | line {s : SerialReader} {line rest : List UInt8} :
      s.Sound → s.unread = rest → newline ∉ line → text = line ++ newline :: rest →
        Hands text (some line, s)

theorem Hands.sound {text : List UInt8} {out : Option (List UInt8) × SerialReader}
    (h : Hands text out) : out.2.Sound := by
  cases h <;> assumption

theorem scan_hands {r : SerialReader} (h : r.Sound) :
    ∃ out, r.scan = some out ∧ Hands r.unread out := by
  have hord := h.ordered
  have hbound := h.bounded
  have hlen := h.length_unread
  rcases findNewline_eq h (Nat.add_sub_cancel' hord) with
    ⟨hnone, hfind⟩ | ⟨line, rest, htext, hline, hfind⟩
  · exact ⟨(none, r), by rw [scan, hfind]; rfl, .nothing h rfl hnone⟩
  · have htext : r.unread = line ++ newline :: rest := htext
    rw [htext, List.length_append, List.length_cons] at hlen
    have htaken : (r.lineBuf.drop r.readPos).take (r.readPos + line.length - r.readPos) = line := by
      have hle : line.length ≤ r.linePos - r.readPos := by omega
      calc (r.lineBuf.drop r.readPos).take (r.readPos + line.length - r.readPos)
          = (r.lineBuf.drop r.readPos).take (min line.length (r.linePos - r.readPos)) := by
            rw [Nat.add_sub_cancel_left, Nat.min_eq_left hle]
        _ = r.unread.take line.length := by rw [← List.take_take, unread, List.drop_take]
        _ = line := by rw [htext, List.take_left' rfl]
    refine ⟨(some line, { r with readPos := r.readPos + line.length + 1 }), ?_, ?_⟩
    · rw [scan, hfind, Option.map_some]
      simp only [htaken]
    · refine .line ⟨h.length, ?_, hbound⟩ ?_ hline htext
      · change r.readPos + line.length + 1 ≤ r.linePos
        omega
      · have hdrop : (r.lineBuf.take r.linePos).drop (r.readPos + line.length + 1) =
            r.unread.drop (line.length + 1) := by
          rw [unread, List.drop_drop, Nat.add_assoc]
        change (r.lineBuf.take r.linePos).drop (r.readPos + line.length + 1) = rest
        rw [hdrop, htext, ← List.drop_drop, List.drop_left' rfl]
        rfl

/-- One call: the arriving bytes are stored, then the first complete line is handed out. -/
theorem splitBuffer_hands {r : SerialReader} (h : r.Sound) (data : List UInt8) :
    (kept (r.unread ++ arriving r.unread data) = none ∧ r.splitBuffer data = none) ∨
      ∃ text out, kept (r.unread ++ arriving r.unread data) = some text ∧
        r.splitBuffer data = some out ∧ Hands text out := by
  obtain ⟨s, hcompact, hs⟩ := compact_stores h
  have happend := hs.append data
  have hsplit : r.splitBuffer data = (append data s).bind scan := by
    rw [splitBuffer, hcompact]
    rfl
  rw [hsplit]
  cases hkept : kept (r.unread ++ arriving r.unread data) with
  | none =>
    rw [hkept] at happend
    left
    generalize append data s = t at happend ⊢
    cases happend
    exact ⟨rfl, rfl⟩
  | some text =>
    rw [hkept] at happend
    right
    generalize append data s = t at happend ⊢
    cases happend with
    | some hstores =>
      obtain ⟨out, hscan, hout⟩ := scan_hands hstores.1
      rw [hstores.2.2] at hout
      exact ⟨text, out, rfl, hscan, hout⟩

theorem sound_of_splitBuffer {r s : SerialReader} {data : List UInt8}
    {line : Option (List UInt8)} (h : r.Sound) (hcall : r.splitBuffer data = some (line, s)) :
    s.Sound := by
  rcases splitBuffer_hands h data with ⟨-, hnone⟩ | ⟨text, out, -, hout, hhands⟩
  · rw [hnone] at hcall
    cases hcall
  · rw [hcall] at hout
    cases hout
    exact hhands.sound

theorem sound_of_passes {r s : SerialReader} {data : List UInt8} (h : r.Sound)
    (hpass : Passes r data s) : s.Sound := by
  obtain ⟨s₀, hcompact, hs₀⟩ := compact_stores h
  cases hpass with
  | compacted hs =>
    rw [hcompact] at hs
    cases hs
    exact hs₀.1
  | appended n hs ht =>
    rw [hcompact] at hs
    cases hs
    have happend := hs₀.append (data.take n)
    rw [ht] at happend
    generalize kept _ = text at happend
    cases happend with
    | some hstores => exact hstores.1
  | scanned hs => exact sound_of_splitBuffer h hs

theorem sound_of_afterCalls {calls : List (List UInt8)} {r s : SerialReader} (h : r.Sound)
    (hcalls : afterCalls calls r = some s) : s.Sound := by
  induction calls generalizing r with
  | nil =>
    cases hcalls
    exact h
  | cons data calls ih =>
    rw [afterCalls, Option.bind_eq_some_iff] at hcalls
    obtain ⟨⟨line, t⟩, hcall, hrest⟩ := hcalls
    exact ih (sound_of_splitBuffer h hcall) hrest

/-- A call leaves the buffer exactly when a newline comes after `maxCmdSize` stored bytes. -/
theorem splitBuffer_isSome {r : SerialReader} (h : r.Sound) (data : List UInt8) :
    (r.splitBuffer data).isSome ↔
      (r.unread ++ arriving r.unread data)[maxCmdSize]? ≠ some newline := by
  rcases splitBuffer_hands h data with ⟨hkept, hnone⟩ | ⟨text, out, hkept, hout, -⟩
  · rw [hnone, kept_eq_none.mp hkept]
    simp
  · rw [hout]
    have hne : kept (r.unread ++ arriving r.unread data) ≠ none := by
      rw [hkept]
      simp
    exact ⟨fun _ hnl => hne (kept_eq_none.mpr hnl), fun _ => rfl⟩

/-- No call of the run finds a newline as the byte after the last one that has room. -/
def FullLineUnended (calls : List (List UInt8)) (r : SerialReader) : Prop :=
  ∀ before data after s, calls = before ++ data :: after → afterCalls before r = some s →
    (s.unread ++ arriving s.unread data)[maxCmdSize]? ≠ some newline

theorem afterCalls_isSome {calls : List (List UInt8)} {r : SerialReader} (h : r.Sound) :
    (afterCalls calls r).isSome ↔ FullLineUnended calls r := by
  induction calls generalizing r with
  | nil =>
    refine ⟨fun _ before data after s hcut => ?_, fun _ => rfl⟩
    simp at hcut
  | cons data calls ih =>
    have hfirst := splitBuffer_isSome h data
    cases hcall : r.splitBuffer data with
    | none =>
      rw [hcall] at hfirst
      rw [afterCalls, hcall]
      refine ⟨nofun, fun hall => ?_⟩
      exact hfirst.mpr (hall [] data calls r rfl rfl)
    | some out =>
      have hsound : out.2.Sound := sound_of_splitBuffer h hcall
      have hrun : ∀ l, afterCalls (data :: l) r = afterCalls l out.2 := by
        intro l
        rw [afterCalls, hcall]
        rfl
      rw [hrun, ih hsound]
      constructor
      · intro hall before data' after s hcut hs
        cases before with
        | nil =>
          cases hcut
          cases hs
          exact hfirst.mp (by rw [hcall]; rfl)
        | cons first before =>
          rw [List.cons_append, List.cons.injEq] at hcut
          obtain ⟨rfl, hcut⟩ := hcut
          rw [hrun] at hs
          exact hall before data' after s hcut hs
      · intro hall before data' after s hcut hs
        refine hall (data :: before) data' after s (by rw [hcut]; rfl) ?_
        rw [hrun]
        exact hs

/-- The run stays inside the line buffer if and only if no newline comes as the byte after
`maxCmdSize` stored ones. -/
theorem staysInside_iff (calls : List (List UInt8)) :
    StaysInside calls ↔ FullLineUnended calls {} := by
  constructor
  · intro hinside
    exact (afterCalls_isSome sound_empty).mp hinside.accesses
  · intro hall
    refine ⟨(afterCalls_isSome sound_empty).mpr hall, ?_⟩
    intro before data after r s _ hr hpass
    have hsound := sound_of_passes (sound_of_afterCalls sound_empty hr) hpass
    exact ⟨hsound.ordered, hsound.bounded⟩

/-- A line of `maxCmdSize` bytes and the newline that ends it. -/
theorem fullLine_outside :
    ¬ StaysInside [List.replicate maxCmdSize 120 ++ [newline]] := by
  intro hinside
  have hdead : afterCalls [List.replicate maxCmdSize 120 ++ [newline]] {} = none := by
    decide +kernel
  have hlives := hinside.accesses
  rw [hdead] at hlives
  cases hlives

end SerialReader
end Ecotiter
