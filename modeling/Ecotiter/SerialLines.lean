import Ecotiter.SerialReader

/-!
# The lines the serial reader hands out

After every chunk `process` is called with empty data until it has no line left. `splits_iff` says
for which streams the lines handed out are the non-empty lines of the stream.
-/

namespace Ecotiter
open Serial LineStream
namespace SerialReader

/-- `process` with empty data until `nullopt`. -/
def drain : ℕ → SerialReader → Option (List (List UInt8) × SerialReader)
  | 0, _ => none
  | n + 1, r => do
    let (line, r) ← r.splitBuffer []
    match line with
    | none => some ([], r)
    | some line => (drain n r).map fun out => (line :: out.1, out.2)

/-- One chunk and the calls that drain its lines. -/
def feed (chunk : List UInt8) (r : SerialReader) : Option (List (List UInt8) × SerialReader) := do
  let (line, r) ← r.splitBuffer chunk
  let (lines, r) ← drain (r.linePos + 1) r
  return (line.toList ++ lines, r)

def feedAll : List (List UInt8) → SerialReader → Option (List (List UInt8))
  | [], _ => some []
  | chunk :: chunks, r => do
    let (lines, r) ← r.feed chunk
    let more ← feedAll chunks r
    return lines ++ more

def stripped (text : List UInt8) : List UInt8 := text.filter (· ≠ carriageReturn)

/-- The reader hands out exactly the non-empty lines of the stream. -/
def Splits (chunks : List (List UInt8)) : Prop :=
  feedAll chunks {} = some (filledLines newline [] (stripped chunks.flatten))

/-- The lines of the stream and what follows the last of them have at most `n` bytes. -/
structure ShortLines (n : ℕ) (line text : List UInt8) : Prop where
  complete : ∀ l ∈ completeLines newline line text, l.length ≤ n
  rest : (openLine newline line text).length ≤ n

/-- The open line and what the chunk adds fit in the buffer, without an empty line. -/
def Fits (line chunk : List UInt8) : Prop :=
  (line ++ arriving line chunk).length ≤ maxCmdSize ∧
    [] ∉ completeLines newline [] (line ++ arriving line chunk)

/-- Every chunk fits behind the line that is open before it. -/
def AllFit : List UInt8 → List (List UInt8) → Prop
  | _, [] => True
  | line, chunk :: chunks =>
    Fits line chunk ∧ AllFit (openLine newline line (stripped chunk)) chunks

theorem drain_eq {n : ℕ} {r : SerialReader} (h : r.Sound) (hn : r.unread.length < n) :
    ∃ s, drain n r = some (completeLines newline [] r.unread, s) ∧ s.Sound ∧
      s.unread = openLine newline [] r.unread := by
  induction n generalizing r with
  | zero => omega
  | succ n ih =>
    have hbound := h.bounded
    have hlen := h.length_unread
    have hkept : kept (r.unread ++ arriving r.unread []) = some r.unread := by
      rw [arriving_nil, List.append_nil, kept, if_pos (by omega)]
    rcases splitBuffer_hands h [] with ⟨hnone, -⟩ | ⟨text, out, htext, hout, hhands⟩
    · rw [hkept] at hnone
      cases hnone
    rw [hkept, Option.some.injEq] at htext
    subst htext
    cases hhands with
    | @nothing s hs hunread hnl =>
      refine ⟨s, ?_, hs, ?_⟩
      · rw [drain, hout, completeLines_of_notMem hnl]
        rfl
      · rw [hunread, openLine_of_notMem hnl, List.nil_append]
    | @line s line rest hs hunread hline htext =>
      have hshort : s.unread.length < n := by
        rw [htext, List.length_append, List.length_cons] at hn
        rw [hunread]
        omega
      obtain ⟨t, hdrain, ht, hrest⟩ := ih hs hshort
      refine ⟨t, ?_, ht, ?_⟩
      · have hstep : drain (n + 1) r = (drain n s).map fun out => (line :: out.1, out.2) := by
          rw [drain, hout]
          rfl
        rw [hstep, hdrain, htext, completeLines_first hline, hunread]
        rfl
      · rw [hrest, hunread, htext, openLine_first]

/-- A chunk hands out the complete lines of what the buffer keeps. -/
theorem feed_eq {r : SerialReader} (h : r.Sound) (chunk : List UInt8) :
    (kept (r.unread ++ arriving r.unread chunk) = none ∧ r.feed chunk = none) ∨
      ∃ text s, kept (r.unread ++ arriving r.unread chunk) = some text ∧
        r.feed chunk = some (completeLines newline [] text, s) ∧ s.Sound ∧
        s.unread = openLine newline [] text := by
  rcases splitBuffer_hands h chunk with ⟨hkept, hnone⟩ | ⟨text, out, hkept, hout, hhands⟩
  · left
    refine ⟨hkept, ?_⟩
    rw [feed, hnone]
    rfl
  · right
    refine ⟨text, ?_⟩
    have hsound := hhands.sound
    have hroom : out.2.unread.length < out.2.linePos + 1 := by
      rw [hsound.length_unread]
      omega
    obtain ⟨s, hdrain, hs, hrest⟩ := drain_eq hsound hroom
    have hfeed : r.feed chunk = some (out.1.toList ++ completeLines newline [] out.2.unread, s) := by
      rw [feed, hout]
      simp only [Option.bind_eq_bind, Option.bind_some, hdrain]
      rfl
    refine ⟨s, hkept, ?_, hs, ?_⟩
    · rw [hfeed]
      cases hhands with
      | nothing _ hunread _ => rw [hunread]; rfl
      | line _ hunread hline htext =>
        rw [hunread, htext, completeLines_first hline]
        rfl
    · rw [hrest]
      cases hhands with
      | nothing _ hunread _ => rw [hunread]
      | line _ hunread _ htext => rw [hunread, htext, openLine_first]

section Chunk
variable {line : List UInt8} (hline : newline ∉ line) (chunk : List UInt8)
include hline

/-- The newlines that are not stored would only have added empty lines. -/
theorem filledLines_arriving :
    filledLines newline [] (line ++ arriving line chunk) =
      filledLines newline line (stripped chunk) := by
  rw [filledLines, completeLines_open hline]
  by_cases hempty : line = []
  · subst hempty
    exact filledLines_dropWhile (stripped chunk)
  · simp only [arriving, if_neg hempty]
    rfl

theorem openLine_arriving :
    openLine newline [] (line ++ arriving line chunk) = openLine newline line (stripped chunk) := by
  rw [openLine_open hline]
  by_cases hempty : line = []
  · subst hempty
    exact openLine_dropWhile (stripped chunk)
  · simp only [arriving, if_neg hempty]
    rfl

omit hline in
theorem openLine_unfilled (h : filledLines newline line (stripped chunk) = []) :
    openLine newline line (stripped chunk) = line ++ arriving line chunk :=
  openLine_of_filledLines h

end Chunk

theorem filledLines_open_le (line text : List UInt8) :
    (filledLines newline [] text).length ≤ (filledLines newline line text).length :=
  filledLines_length_mono (fun hne => absurd rfl hne) text

/-- However the stream is cut, no more filled lines are handed out than it has. -/
theorem feedAll_length_le {chunks : List (List UInt8)} {r : SerialReader} {out : List (List UInt8)}
    (h : r.Sound) (hline : newline ∉ r.unread) (hout : feedAll chunks r = some out) :
    (out.filter (· ≠ [])).length ≤
      (filledLines newline r.unread (stripped chunks.flatten)).length := by
  induction chunks generalizing r out with
  | nil =>
    cases hout
    exact Nat.zero_le _
  | cons chunk chunks ih =>
    have hstream : stripped (chunk :: chunks).flatten = stripped chunk ++ stripped chunks.flatten := by
      rw [List.flatten_cons, stripped, List.filter_append]
      rfl
    rw [hstream, filledLines_append, List.length_append]
    rcases feed_eq h chunk with ⟨-, hnone⟩ | ⟨text, s, hkept, hfeed, hs, hrest⟩
    · rw [feedAll, hnone] at hout
      cases hout
    have hall : feedAll (chunk :: chunks) r =
        (feedAll chunks s).map (completeLines newline [] text ++ ·) := by
      rw [feedAll, hfeed]
      simp only [Option.bind_eq_bind, Option.bind_some]
      cases feedAll chunks s <;> rfl
    rw [hall, Option.map_eq_some_iff] at hout
    obtain ⟨more, hmore, rfl⟩ := hout
    rw [List.filter_append, List.length_append]
    have hlater := ih hs (by rw [hrest]; exact notMem_openLine List.not_mem_nil text) hmore
    rw [hrest] at hlater
    have hshown : ((completeLines newline [] text).filter (· ≠ [])).length =
        (filledLines newline [] text).length := rfl
    rw [hshown]
    by_cases hfits : (r.unread ++ arriving r.unread chunk).length ≤ maxCmdSize
    · rw [kept, if_pos hfits, Option.some.injEq] at hkept
      subst hkept
      rw [openLine_arriving hline] at hlater
      rw [filledLines_arriving hline]
      omega
    · rw [kept, if_neg hfits] at hkept
      split at hkept
      · cases hkept
      · cases hkept
        have hmono := filledLines_open_le (openLine newline r.unread (stripped chunk))
          (stripped chunks.flatten)
        have hnothing : (filledLines newline [] ([] : List UInt8)).length = 0 := rfl
        have hfresh : openLine newline ([] : List UInt8) [] = [] := rfl
        rw [hfresh] at hlater
        omega

/-- A chunk that fits hands out its filled lines. -/
theorem feed_fits {r : SerialReader} (h : r.Sound) (hline : newline ∉ r.unread)
    {chunk : List UInt8} (hfits : Fits r.unread chunk) :
    ∃ s, r.feed chunk = some (filledLines newline r.unread (stripped chunk), s) ∧ s.Sound ∧
      s.unread = openLine newline r.unread (stripped chunk) := by
  obtain ⟨hlen, hfilled⟩ := hfits
  have hkept : kept (r.unread ++ arriving r.unread chunk) =
      some (r.unread ++ arriving r.unread chunk) := by
    rw [kept, if_pos hlen]
  rcases feed_eq h chunk with ⟨hnone, -⟩ | ⟨text, s, htext, hfeed, hs, hrest⟩
  · rw [hkept] at hnone
    cases hnone
  · rw [hkept, Option.some.injEq] at htext
    subst htext
    refine ⟨s, ?_, hs, ?_⟩
    · have hall : completeLines newline [] (r.unread ++ arriving r.unread chunk) =
          filledLines newline [] (r.unread ++ arriving r.unread chunk) := by
        rw [filledLines, List.filter_eq_self.mpr]
        intro l hl
        have hne : l ≠ [] := fun hempty => hfilled (hempty ▸ hl)
        simpa using hne
      rw [hfeed, hall, filledLines_arriving hline]
    · rw [hrest, openLine_arriving hline]

/-- A chunk that does not fit costs a line or adds an empty one. -/
theorem feedAll_unfit {r : SerialReader} (h : r.Sound)
    {chunk : List UInt8} {chunks : List (List UInt8)}
    (hshort : (openLine newline r.unread (stripped chunk)).length < maxCmdSize)
    (hfits : ¬ Fits r.unread chunk) :
    feedAll (chunk :: chunks) r ≠
      some (filledLines newline r.unread (stripped chunk ++ stripped chunks.flatten)) := by
  intro hall
  rcases feed_eq h chunk with ⟨-, hnone⟩ | ⟨text, s, hkept, hfeed, hs, hrest⟩
  · rw [feedAll, hnone] at hall
    cases hall
  have hout : (feedAll chunks s).map (completeLines newline [] text ++ ·) =
      some (filledLines newline r.unread (stripped chunk ++ stripped chunks.flatten)) := by
    rw [← hall, feedAll, hfeed]
    simp only [Option.bind_eq_bind, Option.bind_some]
    cases feedAll chunks s <;> rfl
  rw [Option.map_eq_some_iff] at hout
  obtain ⟨more, hmore, hout⟩ := hout
  by_cases hlen : (r.unread ++ arriving r.unread chunk).length ≤ maxCmdSize
  · rw [kept, if_pos hlen, Option.some.injEq] at hkept
    subst hkept
    have hempty : [] ∈ completeLines newline [] (r.unread ++ arriving r.unread chunk) := by
      by_contra hne
      exact hfits ⟨hlen, hne⟩
    have hshown : [] ∈ filledLines newline r.unread (stripped chunk ++ stripped chunks.flatten) := by
      rw [← hout]
      exact List.mem_append_left _ hempty
    simp [filledLines] at hshown
  · rw [kept, if_neg hlen] at hkept
    split at hkept
    · cases hkept
    cases hkept
    have hsame : filledLines newline r.unread (stripped chunk ++ stripped chunks.flatten) = more := by
      rw [← hout]
      rfl
    have hfiltered : more.filter (· ≠ []) = more := by
      rw [← hsame, filledLines, List.filter_filter]
      simp
    have hlost := feedAll_length_le hs (by rw [hrest]; exact List.not_mem_nil) hmore
    rw [hfiltered, ← hsame, filledLines_append, List.length_append, hrest] at hlost
    have hmono := filledLines_open_le (openLine newline r.unread (stripped chunk))
      (stripped chunks.flatten)
    have hfresh : openLine newline ([] : List UInt8) [] = [] := rfl
    rw [hfresh] at hlost
    have hnothing : filledLines newline r.unread (stripped chunk) = [] := by
      rw [← List.length_eq_zero_iff]
      omega
    rw [openLine_unfilled chunk hnothing] at hshort
    omega

theorem feedAll_iff {chunks : List (List UInt8)} {r : SerialReader} (h : r.Sound)
    (hline : newline ∉ r.unread)
    (hshort : ShortLines (maxCmdSize - 1) r.unread (stripped chunks.flatten)) :
    feedAll chunks r = some (filledLines newline r.unread (stripped chunks.flatten)) ↔
      AllFit r.unread chunks := by
  induction chunks generalizing r with
  | nil => exact ⟨fun _ => trivial, fun _ => rfl⟩
  | cons chunk chunks ih =>
    have hstream : stripped (chunk :: chunks).flatten = stripped chunk ++ stripped chunks.flatten := by
      rw [List.flatten_cons, stripped, List.filter_append]
      rfl
    obtain ⟨hcomplete, hopen⟩ := hshort
    rw [hstream, completeLines_append] at hcomplete
    rw [hstream, openLine_append] at hopen
    rw [hstream, AllFit]
    have hlater : ShortLines (maxCmdSize - 1) (openLine newline r.unread (stripped chunk))
        (stripped chunks.flatten) :=
      ⟨fun l hl => hcomplete l (List.mem_append_right _ hl), hopen⟩
    by_cases hfits : Fits r.unread chunk
    · obtain ⟨s, hfeed, hs, hrest⟩ := feed_fits h hline hfits
      have hrun : feedAll (chunk :: chunks) r =
          (feedAll chunks s).map (filledLines newline r.unread (stripped chunk) ++ ·) := by
        rw [feedAll, hfeed]
        simp only [Option.bind_eq_bind, Option.bind_some]
        cases feedAll chunks s <;> rfl
      have hnext := ih hs (by rw [hrest]; exact notMem_openLine hline _) (by rw [hrest]; exact hlater)
      rw [hrest] at hnext
      rw [hrun, filledLines_append, ← hnext, Option.map_eq_some_iff]
      constructor
      · rintro ⟨more, hmore, hout⟩
        rw [List.append_cancel_left_eq] at hout
        exact ⟨hfits, by rw [hmore, hout]⟩
      · rintro ⟨-, hmore⟩
        exact ⟨_, hmore, rfl⟩
    · have hopenShort : (openLine newline r.unread (stripped chunk)).length < maxCmdSize := by
        have hle := line_length_le hlater.complete hlater.rest
        have hpos : 0 < maxCmdSize := by decide
        omega
      exact ⟨fun hall => absurd hall (feedAll_unfit h hopenShort hfits),
        fun hall => absurd hall.1 hfits⟩

/-- Of a stream with lines of at most 255 bytes, however it is cut, the reader hands out the
non-empty lines if and only if every chunk fits behind the open line. -/
theorem splits_iff (chunks : List (List UInt8))
    (hshort : ShortLines (maxCmdSize - 1) [] (stripped chunks.flatten)) :
    Splits chunks ↔ AllFit [] chunks :=
  feedAll_iff sound_empty List.not_mem_nil hshort

theorem splits_twoChunks :
    Splits [[97, 98], [99, carriageReturn, newline, 100, newline]] ↔
      AllFit [] [[97, 98], [99, carriageReturn, newline, 100, newline]] :=
  splits_iff [[97, 98], [99, carriageReturn, newline, 100, newline]] ⟨by decide, by decide⟩

/-- An empty line behind a line of the same chunk. -/
def emptyLineStream : List (List UInt8) := [[97, newline, newline, 98, newline]]

/-- A chunk that is longer than the room behind the open line. -/
def crowdedStream : List (List UInt8) :=
  [List.replicate 200 97, [newline] ++ List.replicate 100 98 ++ [newline]]

theorem shortLines_unsplit :
    ((∀ c ∈ emptyLineStream, c.length ≤ maxCmdSize) ∧
      ShortLines (maxCmdSize - 1) [] (stripped emptyLineStream.flatten) ∧
      ¬ Splits emptyLineStream) ∧
    (∀ c ∈ crowdedStream, c.length ≤ maxCmdSize) ∧
      ShortLines (maxCmdSize - 1) [] (stripped crowdedStream.flatten) ∧
      ¬ Splits crowdedStream := by
  have hshort : ShortLines (maxCmdSize - 1) [] (stripped crowdedStream.flatten) :=
    ⟨by decide +kernel, by decide +kernel⟩
  refine ⟨⟨by decide, ⟨by decide, by decide⟩, ?_⟩, by decide +kernel, hshort, fun hsplits => ?_⟩
  · unfold Splits
    decide
  · have hall := (feedAll_iff sound_empty List.not_mem_nil hshort).mp hsplits
    -- The second chunk brings 102 bytes, and 200 are open.
    exact absurd hall.2.1.1 (by decide +kernel)

end SerialReader
end Ecotiter
