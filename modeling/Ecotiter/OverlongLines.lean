import Ecotiter.SerialLines

/-!
# Lines longer than the line buffer

A byte that finds the buffer full empties it, and the rest of the chunk is dropped. Nothing is
remembered of the line that was being read: what arrives of it in later chunks is taken for a line
of its own.
-/

namespace Ecotiter
open Serial LineStream
namespace SerialReader

/-- The reader after some chunks. -/
def afterFeeds : List (List UInt8) → SerialReader → Option SerialReader
  | [], r => some r
  | chunk :: chunks, r => (r.feed chunk).bind fun out => afterFeeds chunks out.2

/-- The lines handed out for a chunk that arrives after others. -/
def handedOut (before : List (List UInt8)) (chunk : List UInt8) : Option (List (List UInt8)) :=
  (afterFeeds before {}).bind fun r => (r.feed chunk).map (·.1)

/-! ## The lines of the stream -/

def openAfter (before : List (List UInt8)) : List UInt8 :=
  openLine newline [] (stripped before.flatten)

/-- The lines of the stream that a chunk ends. -/
def endedLines (before : List (List UInt8)) (chunk : List UInt8) : List (List UInt8) :=
  completeLines newline (openAfter before) (stripped chunk)

/-- The chunk ends a line that is longer than the buffer. -/
def EndsOverlong (before : List (List UInt8)) (chunk : List UInt8) : Prop :=
  ∃ line ∈ endedLines before chunk, maxCmdSize < line.length

/-- The line that is open before the next chunk has all its bytes in `between`, not in `chunk`. -/
def BeganAfter (before : List (List UInt8)) (chunk : List UInt8) (between : List (List UInt8)) :
    Prop :=
  openAfter (before ++ [chunk]) = [] ∨ newline ∈ between.flatten

instance (before : List (List UInt8)) (chunk : List UInt8) (between : List (List UInt8)) :
    Decidable (BeganAfter before chunk between) :=
  inferInstanceAs (Decidable (_ ∨ _))

/-- The lines that `last` ends and whose bytes all arrive in chunks after `chunk`. -/
def linesSince (before : List (List UInt8)) (chunk : List UInt8) (between : List (List UInt8))
    (last : List UInt8) : List (List UInt8) :=
  let lines := endedLines (before ++ chunk :: between) last
  if BeganAfter before chunk between then lines else lines.tail

/-- A line that is to be handed out. -/
def Commands (line : List UInt8) : Prop := line ≠ [] ∧ line.length ≤ maxCmdSize - 1

instance : DecidablePred Commands := fun _ => inferInstanceAs (Decidable (_ ∧ _))

/-- Whatever is handed out is part of a line that fits in the buffer, and the commands that arrive
after an over-long line are handed out. -/
structure DropsOverlong (chunks : List (List UInt8)) : Prop where
  dropped : ∀ before chunk after, chunks = before ++ chunk :: after →
    ∃ lines, handedOut before chunk = some lines ∧
      List.SublistForall₂ (· <:+: ·) lines
        ((endedLines before chunk).filter fun line => line.length ≤ maxCmdSize)
  intact : ∀ before chunk between last after lines,
    chunks = before ++ chunk :: between ++ last :: after → EndsOverlong before chunk →
    handedOut (before ++ chunk :: between) last = some lines →
      ((linesSince before chunk between last).filter Commands).Sublist lines

/-! ## The text in the buffer -/

/-- What the buffer holds after another chunk. -/
def holding (text chunk : List UInt8) : List UInt8 :=
  if (text ++ arriving text chunk).length ≤ maxCmdSize then
    openLine newline [] (text ++ arriving text chunk)
  else []

def heldAfter (before : List (List UInt8)) : List UInt8 := before.foldl holding []

/-- What the buffer would have to hold while a chunk arrives. -/
def filling (before : List (List UInt8)) (chunk : List UInt8) : List UInt8 :=
  heldAfter before ++ arriving (heldAfter before) chunk

def Overflows (before : List (List UInt8)) (chunk : List UInt8) : Prop :=
  maxCmdSize < (filling before chunk).length

/-- An over-long line ends in a chunk that overflows, or with the first byte of a chunk that finds
the buffer empty. The chunks with the commands after it do not overflow and find the open line in
the buffer from its first byte on. -/
structure OverflowsWhole (chunks : List (List UInt8)) : Prop where
  inside : ∀ before chunk after, chunks = before ++ chunk :: after →
    (filling before chunk)[maxCmdSize]? ≠ some newline
  ends : ∀ before chunk after, chunks = before ++ chunk :: after → EndsOverlong before chunk →
    Overflows before chunk ∨ heldAfter before = [] ∧ (stripped chunk).head? = some newline
  fits : ∀ before chunk between last after,
    chunks = before ++ chunk :: between ++ last :: after → EndsOverlong before chunk →
    (∃ line ∈ linesSince before chunk between last, Commands line) →
      ¬ Overflows (before ++ chunk :: between) last
  whole : ∀ before chunk between last after,
    chunks = before ++ chunk :: between ++ last :: after → EndsOverlong before chunk →
    BeganAfter before chunk between →
    (∃ line ∈ (endedLines (before ++ chunk :: between) last).head?, Commands line) →
      heldAfter (before ++ chunk :: between) = openAfter (before ++ chunk :: between)

theorem openAfter_concat (before : List (List UInt8)) (chunk : List UInt8) :
    openAfter (before ++ [chunk]) = openLine newline (openAfter before) (stripped chunk) := by
  rw [openAfter, openAfter, List.flatten_concat, stripped, List.filter_append, openLine_append]
  rfl

theorem heldAfter_concat (before : List (List UInt8)) (chunk : List UInt8) :
    heldAfter (before ++ [chunk]) = holding (heldAfter before) chunk := by
  rw [heldAfter, List.foldl_append]
  rfl

theorem notMem_heldAfter (before : List (List UInt8)) : newline ∉ heldAfter before := by
  induction before using List.reverseRecOn with
  | nil => exact List.not_mem_nil
  | append_singleton before chunk =>
    rw [heldAfter_concat, holding]
    split
    · exact notMem_openLine List.not_mem_nil _
    · exact List.not_mem_nil

/-- The buffer holds the end of the open line. -/
theorem heldAfter_suffix (before : List (List UInt8)) : heldAfter before <:+ openAfter before := by
  induction before using List.reverseRecOn with
  | nil => exact List.suffix_refl []
  | append_singleton before chunk ih =>
    rw [heldAfter_concat, openAfter_concat, holding]
    split
    · rw [openLine_arriving (notMem_heldAfter before)]
      exact openLine_suffix ih (stripped chunk)
    · exact List.nil_suffix

theorem afterFeeds_concat (before : List (List UInt8)) (chunk : List UInt8) (r : SerialReader) :
    afterFeeds (before ++ [chunk]) r =
      (afterFeeds before r).bind fun s => (s.feed chunk).map (·.2) := by
  induction before generalizing r with
  | nil =>
    rw [List.nil_append, afterFeeds, afterFeeds, Option.bind_some]
    cases r.feed chunk <;> rfl
  | cons first before ih =>
    rw [List.cons_append, afterFeeds, afterFeeds]
    cases r.feed first with
    | none => rfl
    | some out => exact ih out.2

/-- A reader that is still inside its buffer holds the end of the open line. -/
theorem afterFeeds_holds {before : List (List UInt8)} {r : SerialReader}
    (h : afterFeeds before {} = some r) : r.Sound ∧ r.unread = heldAfter before := by
  induction before using List.reverseRecOn generalizing r with
  | nil =>
    cases h
    exact ⟨sound_empty, rfl⟩
  | append_singleton before chunk ih =>
    rw [afterFeeds_concat, Option.bind_eq_some_iff] at h
    obtain ⟨s, hs, hfeed⟩ := h
    obtain ⟨hsound, hheld⟩ := ih hs
    rw [Option.map_eq_some_iff] at hfeed
    obtain ⟨out, hfeed, rfl⟩ := hfeed
    rcases feed_eq hsound chunk with ⟨-, hnone⟩ | ⟨text, t, hkept, hout, ht, hrest⟩
    · rw [hnone] at hfeed
      cases hfeed
    · rw [hout] at hfeed
      cases hfeed
      refine ⟨ht, ?_⟩
      rw [hrest, heldAfter_concat, ← hheld, holding]
      unfold kept at hkept
      split at hkept
      case isTrue hlen =>
        cases hkept
        rw [if_pos hlen]
      case isFalse hlen =>
        rw [if_neg hlen]
        split at hkept
        · cases hkept
        · cases hkept
          rfl

/-- What is handed out for a chunk: the lines in the buffer, or nothing if it overflows. -/
theorem handedOut_cases {before : List (List UInt8)} {r : SerialReader}
    (h : afterFeeds before {} = some r) (chunk : List UInt8) :
    ((filling before chunk)[maxCmdSize]? = some newline ∧ handedOut before chunk = none ∧
        afterFeeds (before ++ [chunk]) {} = none) ∨
      ((filling before chunk)[maxCmdSize]? ≠ some newline ∧
        (afterFeeds (before ++ [chunk]) {}).isSome ∧ ∃ lines,
        handedOut before chunk = some lines ∧ (Overflows before chunk → lines = []) ∧
        (¬ Overflows before chunk → lines = completeLines newline [] (filling before chunk))) := by
  obtain ⟨hsound, hheld⟩ := afterFeeds_holds h
  have hfeed := feed_eq hsound chunk
  rw [hheld] at hfeed
  change (kept (filling before chunk) = none ∧ _) ∨
    ∃ text s, kept (filling before chunk) = some text ∧ _ at hfeed
  rw [handedOut, afterFeeds_concat, h]
  rcases hfeed with ⟨hkept, hnone⟩ | ⟨text, s, hkept, hout, -, -⟩
  · left
    refine ⟨kept_eq_none.mp hkept, ?_, ?_⟩ <;> rw [Option.bind_some, hnone] <;> rfl
  · right
    refine ⟨?_, ?_, completeLines newline [] text, ?_, ?_, ?_⟩
    · intro hnl
      rw [kept_eq_none.mpr hnl] at hkept
      cases hkept
    · rw [Option.bind_some, hout]
      rfl
    · rw [Option.bind_some, hout]
      rfl
    · intro hover
      rw [kept, if_neg (Nat.not_le.mpr hover)] at hkept
      split at hkept
      · cases hkept
      · cases hkept
        rfl
    · intro hfits
      rw [kept, if_pos (Nat.not_lt.mp hfits)] at hkept
      cases hkept
      rfl

/-! ## One chunk -/

theorem length_stripped_le (chunk : List UInt8) : (stripped chunk).length ≤ chunk.length :=
  List.length_filter_le _ _

section Chunk
variable {line held chunk : List UInt8}

theorem completeLines_filling (hnl : newline ∉ held) :
    completeLines newline [] (held ++ arriving held chunk) =
      completeLines newline held (arriving held chunk) :=
  completeLines_open hnl _

/-- The newlines that are not stored would have ended empty lines. -/
theorem arriving_eq (h : ¬ (held = [] ∧ (stripped chunk).head? = some newline)) :
    arriving held chunk = stripped chunk := by
  unfold arriving
  change (if held = [] then (stripped chunk).dropWhile (· = newline) else stripped chunk) = _
  split
  case isFalse => rfl
  case isTrue hempty =>
    cases hs : stripped chunk with
    | nil => rfl
    | cons c rest =>
      rw [List.dropWhile_cons_of_neg]
      rw [decide_eq_true_eq]
      rintro rfl
      exact h ⟨hempty, by rw [hs]; rfl⟩

/-- The lines in the buffer are parts of the lines of the stream. -/
theorem partsOf_filling (hheld : held <:+ line) :
    List.SublistForall₂ (· <:+: ·) (completeLines newline held (arriving held chunk))
      (completeLines newline line (stripped chunk)) := by
  by_cases hempty : held = []
  · subst hempty
    exact completeLines_dropWhile line (stripped chunk)
  · have hall : arriving held chunk = stripped chunk := arriving_eq fun h => hempty h.1
    have hsuffix : List.Forall₂ (· <:+ ·) (completeLines newline held (stripped chunk))
        (completeLines newline line (stripped chunk)) := completeLines_suffix hheld (stripped chunk)
    rw [hall, List.sublistForall₂_iff]
    exact ⟨_, hsuffix.imp fun _ _ h => h.isInfix, List.Sublist.refl _⟩

/-- A chunk that fits in the buffer and ends an over-long line hands out a part of it, unless it
begins with the newline and the buffer is empty. -/
theorem drops_iff (hheld : held <:+ line) (hsize : chunk.length ≤ maxCmdSize) :
    List.SublistForall₂ (· <:+: ·) (completeLines newline held (arriving held chunk))
        ((completeLines newline line (stripped chunk)).filter fun l => l.length ≤ maxCmdSize) ↔
      ((∃ l ∈ completeLines newline line (stripped chunk), maxCmdSize < l.length) →
        held = [] ∧ (stripped chunk).head? = some newline) := by
  constructor
  · intro hparts hover
    by_contra hnot
    rw [List.sublistForall₂_iff] at hparts
    obtain ⟨sources, hforall, hsublist⟩ := hparts
    have hsame : (completeLines newline held (arriving held chunk)).length =
        (completeLines newline line (stripped chunk)).length := by
      rw [arriving_eq hnot, length_completeLines, length_completeLines]
    have hfewer : ((completeLines newline line (stripped chunk)).filter
        fun l => l.length ≤ maxCmdSize).length <
          (completeLines newline line (stripped chunk)).length := by
      rw [List.length_filter_lt_length_iff_exists]
      obtain ⟨l, hl, hlong⟩ := hover
      exact ⟨l, hl, by simpa using hlong⟩
    have hle := hsublist.length_le
    rw [← hforall.length_eq] at hle
    omega
  · intro hends
    by_cases hover : ∃ l ∈ completeLines newline line (stripped chunk), maxCmdSize < l.length
    · obtain ⟨rfl, hhead⟩ := hends hover
      obtain ⟨rest, hrest⟩ : ∃ rest, stripped chunk = newline :: rest :=
        List.head?_eq_some_iff.mp hhead
      have hshort : ∀ l ∈ completeLines newline [] rest, l.length ≤ maxCmdSize := by
        intro l hl
        have hlt := length_lt_of_mem_completeLines hl
        have hlen := length_stripped_le chunk
        rw [hrest, List.length_cons] at hlen
        rw [List.length_nil] at hlt
        omega
      have harriving : arriving [] chunk = rest.dropWhile (· = newline) := by
        change (stripped chunk).dropWhile (· = newline) = _
        rw [hrest, List.dropWhile_cons_of_pos (by simp)]
      have hparts : List.SublistForall₂ (· <:+: ·)
          (completeLines newline [] (rest.dropWhile (· = newline)))
          (completeLines newline [] rest) := completeLines_dropWhile [] rest
      have hall : (completeLines newline [] rest).filter (fun l => l.length ≤ maxCmdSize) =
          completeLines newline [] rest := by
        rw [List.filter_eq_self]
        intro l hl
        exact decide_eq_true (hshort l hl)
      rw [harriving, hrest, completeLines, if_pos rfl, List.filter_cons, hall]
      split
      · exact .cons_right hparts
      · exact hparts
    · have hall : (completeLines newline line (stripped chunk)).filter
          (fun l => l.length ≤ maxCmdSize) = completeLines newline line (stripped chunk) := by
        rw [List.filter_eq_self]
        intro l hl
        refine decide_eq_true ?_
        by_contra hlong
        exact hover ⟨l, hl, Nat.not_le.mp hlong⟩
      rw [hall]
      exact partsOf_filling hheld

/-- The commands among the lines of a chunk are handed out when the buffer holds the first of them
from its first byte on. -/
theorem intact_iff (hheld : held <:+ line) (hnl : newline ∉ held)
    (hsize : chunk.length ≤ maxCmdSize) (began : Prop) [Decidable began] :
    ((if began then completeLines newline line (stripped chunk)
        else (completeLines newline line (stripped chunk)).tail).filter Commands).Sublist
          (completeLines newline held (arriving held chunk)) ↔
      (began → (∃ l ∈ (completeLines newline line (stripped chunk)).head?, Commands l) →
        held = line) := by
  have hfilled : (completeLines newline held (arriving held chunk)).filter (· ≠ []) =
      filledLines newline held (stripped chunk) := by
    rw [← filledLines_arriving hnl, filledLines, completeLines_open hnl]
  have hshown : ∀ l : List (List UInt8), (∀ x ∈ l, x ≠ []) →
      (l.Sublist (completeLines newline held (arriving held chunk)) ↔
        l.Sublist (filledLines newline held (stripped chunk))) := by
    intro l hl
    rw [← hfilled]
    constructor
    · intro h
      have hkeep : l.filter (· ≠ []) = l := List.filter_eq_self.mpr fun x hx => by simpa using hl x hx
      rw [← hkeep]
      exact h.filter _
    · intro h
      exact h.trans List.filter_sublist
  rw [hshown _ fun x hx => (of_decide_eq_true (List.mem_filter.mp hx).2 : Commands x).1]
  by_cases hmem : newline ∈ stripped chunk
  · obtain ⟨x, rest, hchunk, hx⟩ := List.eq_append_cons_of_mem hmem
    have hlen := length_stripped_le chunk
    rw [hchunk, List.length_append, List.length_cons] at hlen
    have hrest : (completeLines newline [] rest).filter Commands = filledLines newline [] rest := by
      refine List.filter_congr fun l hl => ?_
      have hlt := length_lt_of_mem_completeLines hl
      rw [List.length_nil] at hlt
      have hshort : l.length ≤ maxCmdSize - 1 := by omega
      simp [Commands, hshort]
    have hlater : filledLines newline held (stripped chunk) =
        (if held ++ x ≠ [] then [held ++ x] else []) ++ filledLines newline [] rest := by
      rw [hchunk, filledLines, completeLines_first hx]
      by_cases hne : held ++ x = []
      · rw [if_neg (not_not.mpr hne), List.filter_cons_of_neg (by simpa using hne)]
        rfl
      · rw [if_pos hne, List.filter_cons_of_pos (by exact decide_eq_true hne)]
        rfl
    have hsince : (filledLines newline [] rest).Sublist
        ((if held ++ x ≠ [] then [held ++ x] else []) ++ filledLines newline [] rest) :=
      List.sublist_append_right _ _
    rw [hlater, hchunk, completeLines_first hx, List.tail_cons, List.head?_cons]
    by_cases hbegan : began
    · rw [if_pos hbegan]
      by_cases hcommand : Commands (line ++ x)
      · rw [List.filter_cons_of_pos (by simpa using hcommand), hrest]
        constructor
        · intro hsublist _ _
          have hne : held ++ x ≠ [] := by
            intro hempty
            rw [if_neg (not_not.mpr hempty)] at hsublist
            have hle := hsublist.length_le
            rw [List.nil_append, List.length_cons] at hle
            omega
          rw [if_pos hne] at hsublist
          have heq := hsublist.eq_of_length rfl
          rw [List.singleton_append, List.cons.injEq] at heq
          exact (List.append_cancel_right heq.1).symm
        · intro hwhole
          have heq : held = line := hwhole hbegan ⟨line ++ x, rfl, hcommand⟩
          subst heq
          rw [if_pos hcommand.1]
          exact List.Sublist.refl _
      · rw [List.filter_cons_of_neg (by simpa using hcommand), hrest]
        refine ⟨fun _ _ hfirst => ?_, fun _ => hsince⟩
        obtain ⟨l, hl, hl'⟩ := hfirst
        cases hl
        exact absurd hl' hcommand
    · rw [if_neg hbegan, hrest]
      exact ⟨fun _ h => absurd h hbegan, fun _ => hsince⟩
  · rw [completeLines_of_notMem hmem]
    simp

end Chunk

/-! ## The whole stream -/

theorem afterFeeds_isSome {before : List (List UInt8)}
    (h : ∀ first chunk rest, before = first ++ chunk :: rest →
      (filling first chunk)[maxCmdSize]? ≠ some newline) : (afterFeeds before {}).isSome := by
  induction before using List.reverseRecOn with
  | nil => rfl
  | append_singleton before chunk ih =>
    have hbefore : (afterFeeds before {}).isSome := by
      refine ih fun first chunk' rest hcut => h first chunk' (rest ++ [chunk]) ?_
      rw [hcut, List.append_assoc, List.cons_append]
    obtain ⟨r, hr⟩ := Option.isSome_iff_exists.mp hbefore
    rcases handedOut_cases hr chunk with ⟨hnl, -, -⟩ | ⟨-, hsome, -⟩
    · exact absurd hnl (h before chunk [] rfl)
    · exact hsome

/-- Chunk by chunk: where the run stays inside the buffer, what is handed out is known. -/
theorem handedOut_spec {before : List (List UInt8)} {chunk : List UInt8}
    (h : ∀ first next rest, before ++ [chunk] = first ++ next :: rest →
      (filling first next)[maxCmdSize]? ≠ some newline) :
    ∃ lines, handedOut before chunk = some lines ∧ (Overflows before chunk → lines = []) ∧
      (¬ Overflows before chunk → lines = completeLines newline (heldAfter before)
        (arriving (heldAfter before) chunk)) := by
  have hbefore : (afterFeeds before {}).isSome := by
    refine afterFeeds_isSome fun first next rest hcut => h first next (rest ++ [chunk]) ?_
    rw [hcut, List.append_assoc, List.cons_append]
  obtain ⟨r, hr⟩ := Option.isSome_iff_exists.mp hbefore
  rcases handedOut_cases hr chunk with ⟨hnl, -, -⟩ | ⟨-, -, lines, hlines, hover, hfits⟩
  · exact absurd hnl (h before chunk [] rfl)
  · refine ⟨lines, hlines, hover, fun hnot => ?_⟩
    rw [hfits hnot]
    exact completeLines_filling (notMem_heldAfter before)

theorem inside_of_take {chunks : List (List UInt8)}
    (h : ∀ k < chunks.length,
      (filling (chunks.take k) (chunks.getD k []))[maxCmdSize]? ≠ some newline)
    (first : List (List UInt8)) (next : List UInt8) (rest : List (List UInt8))
    (hcut : chunks = first ++ next :: rest) : (filling first next)[maxCmdSize]? ≠ some newline := by
  have hinside := h first.length (by simp [hcut])
  have hnext : (first ++ next :: rest).getD first.length [] = next := by simp
  rwa [hcut, List.take_left, hnext] at hinside

theorem inside_of_handedOut {before : List (List UInt8)} {chunk : List UInt8}
    {lines : List (List UInt8)} (h : handedOut before chunk = some lines) :
    (filling before chunk)[maxCmdSize]? ≠ some newline := by
  cases hr : afterFeeds before {} with
  | none =>
    rw [handedOut, hr] at h
    cases h
  | some r =>
    rcases handedOut_cases hr chunk with ⟨-, hnone, -⟩ | ⟨hinside, -⟩
    · rw [hnone] at h
      cases h
    · exact hinside

/-- Over-long lines are dropped whole exactly in the streams that are cut so that they end in a
chunk that overflows too, and the commands after them in chunks that fit. -/
theorem dropsOverlong_iff (chunks : List (List UInt8))
    (hsize : ∀ chunk ∈ chunks, chunk.length ≤ maxCmdSize) :
    DropsOverlong chunks ↔ OverflowsWhole chunks := by
  have hinside : DropsOverlong chunks → ∀ before chunk after, chunks = before ++ chunk :: after →
      (filling before chunk)[maxCmdSize]? ≠ some newline := by
    intro h before chunk after hcut
    obtain ⟨lines, hlines, -⟩ := h.dropped before chunk after hcut
    exact inside_of_handedOut hlines
  have hspec : (∀ before chunk after, chunks = before ++ chunk :: after →
      (filling before chunk)[maxCmdSize]? ≠ some newline) → ∀ before chunk after,
      chunks = before ++ chunk :: after → ∃ lines, handedOut before chunk = some lines ∧
        (Overflows before chunk → lines = []) ∧
        (¬ Overflows before chunk → lines = completeLines newline (heldAfter before)
          (arriving (heldAfter before) chunk)) := by
    intro h before chunk after hcut
    refine handedOut_spec fun first next rest hfirst => h first next (rest ++ after) ?_
    rw [hcut, ← List.singleton_append, ← List.append_assoc, hfirst]
    simp
  have hlast : ∀ {before chunk between last after},
      chunks = before ++ chunk :: between ++ last :: after → last.length ≤ maxCmdSize := by
    intro before chunk between last after hcut
    exact hsize last (by simp [hcut])
  constructor
  · intro h
    have hin := hinside h
    refine ⟨hin, ?_, ?_, ?_⟩
    · intro before chunk after hcut hends
      by_contra hnot
      rw [not_or] at hnot
      obtain ⟨lines, hlines, -, hfits⟩ := hspec hin before chunk after hcut
      obtain ⟨lines', hlines', hparts⟩ := h.dropped before chunk after hcut
      rw [hlines, Option.some.injEq] at hlines'
      subst hlines'
      rw [hfits hnot.1] at hparts
      have hchunk : chunk.length ≤ maxCmdSize := hsize chunk (by simp [hcut])
      exact hnot.2 ((drops_iff (heldAfter_suffix before) hchunk).mp hparts hends)
    · intro before chunk between last after hcut hends hcommand hover
      obtain ⟨lines, hlines, hempty, -⟩ := hspec hin _ last after hcut
      have hsublist := h.intact before chunk between last after lines hcut hends hlines
      rw [hempty hover, List.sublist_nil, List.filter_eq_nil_iff] at hsublist
      obtain ⟨line, hline, hcommands⟩ := hcommand
      exact hsublist line hline (decide_eq_true hcommands)
    · intro before chunk between last after hcut hends hbegan hfirst
      obtain ⟨lines, hlines, hempty, hfits⟩ := hspec hin _ last after hcut
      have hsublist := h.intact before chunk between last after lines hcut hends hlines
      by_cases hover : Overflows (before ++ chunk :: between) last
      · obtain ⟨line, hline, hcommands⟩ := hfirst
        have hmem : line ∈ linesSince before chunk between last := by
          rw [linesSince, if_pos hbegan]
          exact List.mem_of_mem_head? hline
        rw [hempty hover, List.sublist_nil, List.filter_eq_nil_iff] at hsublist
        exact absurd (decide_eq_true hcommands) (hsublist line hmem)
      · rw [hfits hover] at hsublist
        exact (intact_iff (heldAfter_suffix _) (notMem_heldAfter _) (hlast hcut)
          (BeganAfter before chunk between)).mp hsublist hbegan hfirst
  · intro h
    have hall := hspec h.inside
    constructor
    · intro before chunk after hcut
      obtain ⟨lines, hlines, hempty, hfits⟩ := hall before chunk after hcut
      refine ⟨lines, hlines, ?_⟩
      by_cases hover : Overflows before chunk
      · rw [hempty hover]
        exact .nil
      · rw [hfits hover]
        have hchunk : chunk.length ≤ maxCmdSize := hsize chunk (by simp [hcut])
        refine (drops_iff (heldAfter_suffix before) hchunk).mpr fun hends => ?_
        exact (h.ends before chunk after hcut hends).resolve_left hover
    · intro before chunk between last after lines hcut hends hlines
      obtain ⟨lines', hlines', hempty, hfits⟩ := hall _ last after hcut
      rw [hlines, Option.some.injEq] at hlines'
      subst hlines'
      by_cases hover : Overflows (before ++ chunk :: between) last
      · have hnone : (linesSince before chunk between last).filter Commands = [] := by
          rw [List.filter_eq_nil_iff]
          intro line hline hcommands
          exact h.fits before chunk between last after hcut hends
            ⟨line, hline, of_decide_eq_true hcommands⟩ hover
        rw [hnone]
        exact List.nil_sublist _
      · rw [hfits hover]
        refine (intact_iff (heldAfter_suffix _) (notMem_heldAfter _) (hlast hcut)
          (BeganAfter before chunk between)).mpr ?_
        exact h.whole before chunk between last after hcut hends

/-- A line of 280 bytes that ends in the chunk that overflows, where the next line begins. -/
def overflowingStream : List (List UInt8) :=
  [List.replicate 250 120, List.replicate 30 120 ++ [newline, 111], [107, newline],
    [111, 107, newline]]

theorem dropsOverlong_overflowingStream :
    DropsOverlong overflowingStream ↔ OverflowsWhole overflowingStream :=
  dropsOverlong_iff overflowingStream (by decide +kernel)

/-- A line of 600 bytes in chunks of 256. -/
def overlongStream : List (List UInt8) :=
  [List.replicate 256 120, List.replicate 256 120, List.replicate 88 120 ++ [newline]]

/-- The last 88 bytes of the line are handed out. -/
theorem overlongStream_returned : (∀ chunk ∈ overlongStream, chunk.length ≤ maxCmdSize) ∧
    ¬ DropsOverlong overlongStream := by
  refine ⟨by decide +kernel, fun h => ?_⟩
  have hdropped := h.dropped [List.replicate 256 120, List.replicate 256 120]
    (List.replicate 88 120 ++ [newline]) [] rfl
  obtain ⟨lines, hlines, hparts⟩ := hdropped
  have hinside : ∀ first next rest, [List.replicate 256 120, List.replicate 256 120] ++
      [List.replicate 88 120 ++ [newline]] = first ++ next :: rest →
        (filling first next)[maxCmdSize]? ≠ some newline :=
    inside_of_take (by decide +kernel)
  obtain ⟨out, hout, -, hfits⟩ := handedOut_spec hinside
  have hnone : (endedLines [List.replicate 256 120, List.replicate 256 120]
      (List.replicate 88 120 ++ [newline])).filter (fun line => line.length ≤ maxCmdSize) = [] := by
    decide +kernel
  have hline : completeLines newline (heldAfter [List.replicate 256 120, List.replicate 256 120])
      (arriving (heldAfter [List.replicate 256 120, List.replicate 256 120])
        (List.replicate 88 120 ++ [newline])) = [List.replicate 88 120] := by
    decide +kernel
  rw [hlines, Option.some.injEq] at hout
  rw [hnone, hout, hfits (by unfold Overflows; decide +kernel), hline] at hparts
  cases hparts

end SerialReader
end Ecotiter
