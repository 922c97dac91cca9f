import Ecotiter.SerialReader

/-!
# Polling the UART

`process()` asks `select` whether there is something to read before it looks at the line buffer. A
line that is already complete there waits until the next byte arrives.
-/

namespace Ecotiter
open Serial LineStream

namespace Serial

def inputBufSize : ℕ := 256

end Serial

/-- What the descriptor of the UART answers at a poll. -/
structure UartPoll where
  select : ℤ
  isSet : Bool
  read : Option (List UInt8)   -- `none` if `read` fails
  bounded : ∀ data ∈ read, data.length ≤ inputBufSize

/-- Nothing has arrived. -/
def UartPoll.idle : UartPoll := ⟨0, false, none, nofun⟩

/-- One byte has arrived. -/
def UartPoll.byte (c : UInt8) : UartPoll := ⟨1, true, some [c], by simp [inputBufSize]⟩

/-- The bytes that a poll reads, if there are any. -/
def UartPoll.arrived (u : UartPoll) : Option (List UInt8) :=
  if 0 < u.select ∧ u.isSet then u.read.filter (· ≠ []) else none

namespace SerialReader

/-- `process()`. -/
def process (u : UartPoll) (r : SerialReader) :
    Option (Option (List UInt8) × SerialReader) :=
  if u.select ≤ 0 then some (none, r)
  else if !u.isSet then some (none, r)
  else
    match u.read with
    | none | some [] => some (none, r)
    | some data => r.splitBuffer data

/-- What successive polls return. -/
def polls : List UartPoll → SerialReader → Option (List (Option (List UInt8)))
  | [], _ => some []
  | u :: us, r => do
    let (line, r) ← r.process u
    let more ← polls us r
    return line :: more

/-- The complete lines in the buffer. -/
def buffered (r : SerialReader) : List (List UInt8) := completeLines newline [] r.unread

/-- What follows the first line of a text. -/
def afterFirst (text : List UInt8) : List UInt8 := (text.dropWhile (· ≠ newline)).tail

/-- Every poll reads something, and what it reads fits in the buffer behind the unread text. -/
def ReadsEach : List UInt8 → List UartPoll → Prop
  | _, [] => True
  | text, u :: us => ∃ data ∈ u.arrived, (text ++ arriving text data).length ≤ maxCmdSize ∧
      ReadsEach (afterFirst (text ++ arriving text data)) us

theorem process_eq (u : UartPoll) (r : SerialReader) :
    r.process u = (u.arrived).elim (some (none, r)) r.splitBuffer := by
  unfold process UartPoll.arrived
  by_cases hselect : u.select ≤ 0
  · rw [if_pos hselect, if_neg (by omega)]
    rfl
  · have hready : 0 < u.select := by omega
    cases hset : u.isSet with
    | false => simp [hselect]
    | true =>
      rw [if_neg hselect, if_neg (by decide), if_pos ⟨hready, rfl⟩]
      rcases u.read with _ | _ | ⟨c, data⟩ <;> rfl

theorem afterFirst_first {line : List UInt8} (hline : newline ∉ line) (rest : List UInt8) :
    afterFirst (line ++ newline :: rest) = rest := by
  have hdrop : (line ++ newline :: rest).dropWhile (· ≠ newline) = newline :: rest := by
    rw [List.dropWhile_append_of_pos, List.dropWhile_cons_of_neg (by simp)]
    intro c hc
    exact decide_eq_true fun h => hline (h ▸ hc)
  rw [afterFirst, hdrop]
  rfl

/-- The first line of a text is determined. -/
theorem first_unique {line line' rest rest' : List UInt8} (hline : newline ∉ line)
    (hline' : newline ∉ line') (h : line ++ newline :: rest = line' ++ newline :: rest') :
    line = line' ∧ rest = rest' := by
  have hlines := congrArg (completeLines newline []) h
  rw [completeLines_first hline, completeLines_first hline', List.cons.injEq] at hlines
  have hrest := congrArg afterFirst h
  rw [afterFirst_first hline, afterFirst_first hline'] at hrest
  exact ⟨by simpa using hlines.1, hrest⟩

/-- The polls return as many of the lines in the buffer if and only if each of them reads something
that fits. -/
theorem polls_buffered {r : SerialReader} (h : r.Sound) {us : List UartPoll}
    (hus : us.length ≤ r.buffered.length) :
    polls us r = some ((r.buffered.take us.length).map some) ↔ ReadsEach r.unread us := by
  induction us generalizing r with
  | nil => exact ⟨fun _ => trivial, fun _ => rfl⟩
  | cons u us ih =>
    have hmem : newline ∈ r.unread := by
      by_contra hnone
      rw [buffered, completeLines_of_notMem hnone] at hus
      simp at hus
    obtain ⟨line, rest, hunread, hline⟩ := List.eq_append_cons_of_mem hmem
    have hbuffered : r.buffered = line :: completeLines newline [] rest := by
      rw [buffered, hunread, completeLines_first hline]
      rfl
    rw [hbuffered, List.length_cons, List.length_cons, Nat.add_le_add_iff_right] at hus
    have hwant : (r.buffered.take (u :: us).length).map some =
        some line :: ((completeLines newline [] rest).take us.length).map some := by
      rw [hbuffered]
      rfl
    have hpolls : ∀ out, r.process u = some out →
        polls (u :: us) r = (polls us out.2).map (out.1 :: ·) := by
      intro out hout
      rw [polls, hout]
      simp only [Option.bind_eq_bind, Option.bind_some]
      cases polls us out.2 <;> rfl
    rw [hwant, ReadsEach]
    cases harrived : u.arrived with
    | none =>
      have hout : r.process u = some (none, r) := by rw [process_eq, harrived]; rfl
      rw [hpolls _ hout, Option.map_eq_some_iff]
      refine ⟨?_, nofun⟩
      rintro ⟨more, -, hmore⟩
      cases hmore
    | some data =>
      have hprocess : r.process u = r.splitBuffer data := by rw [process_eq, harrived]; rfl
      have hread : (∃ data' ∈ some data, (r.unread ++ arriving r.unread data').length ≤ maxCmdSize ∧
          ReadsEach (afterFirst (r.unread ++ arriving r.unread data')) us) ↔
          (r.unread ++ arriving r.unread data).length ≤ maxCmdSize ∧
            ReadsEach (afterFirst (r.unread ++ arriving r.unread data)) us := by simp
      rw [hread]
      by_cases hfits : (r.unread ++ arriving r.unread data).length ≤ maxCmdSize
      · have hkept : kept (r.unread ++ arriving r.unread data) =
            some (line ++ newline :: (rest ++ arriving r.unread data)) := by
          rw [kept, if_pos hfits, hunread, List.append_assoc, List.cons_append]
        rcases splitBuffer_hands h data with ⟨hnone, -⟩ | ⟨text, out, htext, hout, hhands⟩
        · rw [hkept] at hnone
          cases hnone
        rw [hkept, Option.some.injEq] at htext
        subst htext
        cases hhands with
        | nothing _ _ hnl => simp at hnl
        | @line s line' rest' hs hrest hline' htext =>
          obtain ⟨rfl, rfl⟩ := first_unique hline hline' htext
          have hmore : s.buffered.take us.length = (completeLines newline [] rest).take us.length := by
            rw [buffered, hrest, completeLines_append, List.take_append_of_le_length hus]
          have hlater : us.length ≤ s.buffered.length := by
            rw [buffered, hrest, completeLines_append, List.length_append]
            omega
          have hafter : afterFirst (r.unread ++ arriving r.unread data) = s.unread := by
            rw [hrest, hunread, List.append_assoc, List.cons_append, afterFirst_first hline]
          rw [hpolls _ (hprocess.trans hout), hafter, ← ih hs hlater, hmore]
          constructor
          · intro hall
            rw [Option.map_eq_some_iff] at hall
            obtain ⟨more, hmore, heq⟩ := hall
            rw [hmore, ← (List.cons.inj heq).2]
            exact ⟨hfits, rfl⟩
          · rintro ⟨-, hall⟩
            rw [hall]
            rfl
      · refine ⟨fun hall => ?_, fun hall => absurd hall.1 hfits⟩
        rcases splitBuffer_hands h data with ⟨-, hnone⟩ | ⟨text, out, htext, hout, hhands⟩
        · rw [polls, hprocess, hnone] at hall
          cases hall
        · rw [kept, if_neg hfits] at htext
          split at htext
          · cases htext
          cases htext
          rw [hpolls _ (hprocess.trans hout), Option.map_eq_some_iff] at hall
          obtain ⟨more, -, heq⟩ := hall
          cases hhands with
          | nothing => cases heq
          | line _ _ _ htext => simp at htext

/-- The reader after `a` was returned out of a burst of two lines. -/
def burst : SerialReader where
  lineBuf := [97, newline, 98, newline] ++ List.replicate (maxCmdSize - 4) 0
  linePos := 4
  readPos := 2

theorem sound_burst : burst.Sound := ⟨by decide +kernel, by decide, by decide⟩

theorem polls_burst : polls [UartPoll.byte 99] burst = some ((burst.buffered.take 1).map some) ↔
    ReadsEach burst.unread [UartPoll.byte 99] :=
  polls_buffered sound_burst (by decide)

/-- The second line of the burst is complete and is not returned. -/
theorem burst_withheld : afterCalls [[97, newline, 98, newline]] {} = some burst ∧
    burst.buffered = [[98]] ∧
    polls [UartPoll.idle] burst ≠ some ((burst.buffered.take 1).map some) := by
  refine ⟨?_, rfl, by decide⟩
  rfl

end SerialReader
end Ecotiter
