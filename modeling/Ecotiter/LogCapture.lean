import Ecotiter.BoundedOutput
import Ecotiter.LogBuffer

/-!
# Captured log lines

`logVprintf` of `log_capture.cpp`. The result of `vsnprintf` is the length of the whole text, also
where the array holds only its beginning.
-/

namespace Ecotiter
open BoundedOutput LogBuffer

namespace Config

def wsBufSize : ℕ := 384

end Config

/-- What a format and its arguments make: a text, whose length is an `int`, or an error. -/
inductive Formatted
  | text (t : List UInt8) (h : t.length < 2 ^ 31)
  | failed

namespace Formatted

/-- The result of `vsnprintf`. -/
def length : Formatted → ℤ
  | text t _ => t.length
  | failed => -1

/-- What `vsnprintf` stores in front of the terminator. -/
def stored : Formatted → List UInt8
  | text t _ => t.take (Config.wsBufSize - 1)
  | failed => []

def vsnprintf (buf : List UInt8) : Formatted → List UInt8
  | text t _ => (Output.snprintf t { mem := buf }).mem
  | failed => buf

end Formatted

/-- The level that the first two bytes stand for. -/
def levelOf (buf : List UInt8) : String :=
  if buf.take 2 = utf8 ['W', ' '] then "WARN"
  else if buf.take 2 = utf8 ['E', ' '] then "ERROR"
  else if buf.take 2 = utf8 ['D', ' '] then "DEBUG"
  else "INFO"

/-- What a call of `logVprintf` leaves in its array and in the log, the level it pushed and the
number of bytes it had written from the array. -/
structure Captured where
  buf : List UInt8
  log : LogBuffer
  pushed : Option String
  fwritten : Option ℕ

/-- The array `buf` is not initialized. -/
def logVprintf (ts : UInt32) (f : Formatted) (buf : Vector UInt8 Config.wsBufSize)
    (b : LogBuffer) : Captured :=
  let buf := f.vsnprintf buf.toList
  let n := f.length
  let level := levelOf buf
  let complete := 0 < n && n < Config.wsBufSize
  { buf
    log := if complete then b.push ts (utf8 level.toList) buf else b
    pushed := if complete then some level else none
    fwritten := if 0 < n then some n.toNat else none }

/-- Only stored bytes are written, and what is pushed is a string in the array, of which the slot
holds the beginning. -/
structure Captured.ReadsStored (c : Captured) (ts : UInt32) (f : Formatted) (b : LogBuffer) :
    Prop where
  written : ∀ n, c.fwritten = some n →
    n ≤ Config.wsBufSize - 1 ∧ n ≤ f.stored.length ∧ c.buf.take n = f.stored.take n
  pushed : ∀ level, c.pushed = some level →
    c.buf.length = Config.wsBufSize ∧ 0 ∈ c.buf ∧ upToZero c.buf = upToZero f.stored ∧
      (b.initialized = true → b.pushing = false → 0 < b.capacity →
        (c.log.slots[b.head % b.capacity]?).map LogEntry.record =
          some ⟨ts, utf8 level.toList, (upToZero c.buf).take 127⟩)

namespace Formatted
variable {buf : Vector UInt8 Config.wsBufSize} {t : List UInt8}

theorem stored_of_lt {h : t.length < 2 ^ 31} (hfit : t.length < Config.wsBufSize) :
    (text t h).stored = t := List.take_of_length_le (Nat.le_sub_one_of_lt hfit)

/-- A text that fits stands in the array with its terminator. -/
theorem vsnprintf_text (buf : Vector UInt8 Config.wsBufSize) {h : t.length < 2 ^ 31}
    (hfit : t.length < Config.wsBufSize) :
    ∃ rest, vsnprintf buf.toList (text t h) = t ++ 0 :: rest ∧
      (t ++ 0 :: rest).length = Config.wsBufSize := by
  have hsize : buf.toList.length = Config.wsBufSize := Vector.length_toList
  have hmem := (Output.holds_empty hsize).snprintf_mem (s := t) (by simpa using hfit)
  refine ⟨buf.toList.drop (t.length + 1), ?_, ?_⟩
  · rw [vsnprintf, hmem]
    simp [Output.overwrite]
  · rw [List.length_append, List.length_cons, List.length_drop, hsize]
    omega

theorem vsnprintf_failed (buf : List UInt8) : vsnprintf buf failed = buf := rfl

end Formatted

/-- The levels fit into the field of a slot. -/
theorem record_levelOf (buf : List UInt8) :
    (upToZero (utf8 (levelOf buf).toList)).take 7 = utf8 (levelOf buf).toList := by
  unfold levelOf
  split
  · decide
  · split
    · decide
    · split <;> decide

theorem slot_push {b : LogBuffer} (hready : b.initialized = true) (hidle : b.pushing = false)
    (hcapacity : 0 < b.capacity) (ts : UInt32) (level message : CString) :
    ((b.push ts level message).slots[b.head % b.capacity]?).map LogEntry.record =
      some ⟨ts, (upToZero level).take 7, (upToZero message).take 127⟩ := by
  have hcall : ¬ (b.initialized = false ∨ b.pushing = true) := by
    rw [hready, hidle]
    decide
  have hslot : b.head % b.capacity < b.slots.length := by
    rw [b.slots_length]
    exact Nat.mod_lt _ hcapacity
  rw [LogBuffer.push, if_neg hcall, List.getElem?_set_self hslot, Option.map_some,
    LogEntry.record, LogEntry.copied, CharArray.string_strncpy, CharArray.string_strncpy]

theorem upToZero_append_zero (t rest : List UInt8) : upToZero (t ++ 0 :: rest) = upToZero t := by
  induction t with
  | nil => rfl
  | cons c t ih =>
    unfold upToZero at ih ⊢
    rw [List.cons_append, List.takeWhile_cons, List.takeWhile_cons, ih]

theorem fwritten_eq {ts : UInt32} {f : Formatted} {buf : Vector UInt8 Config.wsBufSize}
    {b : LogBuffer} (h : 0 < f.length) :
    (logVprintf ts f buf b).fwritten = some f.length.toNat := if_pos h

theorem logVprintf_readsStored (ts : UInt32) (f : Formatted) (buf : Vector UInt8 Config.wsBufSize)
    (b : LogBuffer) :
    (logVprintf ts f buf b).ReadsStored ts f b ↔ f.length < Config.wsBufSize := by
  constructor
  · intro h
    by_contra hlong
    have hlong : (Config.wsBufSize : ℤ) ≤ f.length := Int.not_lt.mp hlong
    have hpos : 0 < f.length := (by decide : (0 : ℤ) < Config.wsBufSize).trans_le hlong
    have hwritten := (h.written f.length.toNat (fwritten_eq hpos)).1
    rw [Config.wsBufSize] at hwritten hlong
    omega
  · intro hfit
    cases f with
    | failed =>
      have hnone : (logVprintf ts .failed buf b).fwritten = none := rfl
      have hidle : (logVprintf ts .failed buf b).pushed = none := rfl
      constructor
      · intro n hn
        rw [hnone] at hn
        cases hn
      · intro level hlevel
        rw [hidle] at hlevel
        cases hlevel
    | text t h =>
      have hfit : t.length < Config.wsBufSize := Int.ofNat_lt.mp hfit
      obtain ⟨rest, hbuf, hsize⟩ := Formatted.vsnprintf_text buf (h := h) hfit
      have hstored := Formatted.stored_of_lt (h := h) hfit
      constructor
      · intro n hn
        have hcall : (if (0 : ℤ) < t.length then some (Int.toNat t.length) else none) = some n := hn
        have hlength : t.length = n := by
          split at hcall
          · exact Option.some.inj hcall
          · cases hcall
        rw [hstored, ← hlength]
        refine ⟨Nat.le_sub_one_of_lt hfit, Nat.le_refl _, ?_⟩
        change (Formatted.vsnprintf buf.toList (.text t h)).take t.length = _
        rw [hbuf, List.take_left, List.take_length]
      · intro level hlevel
        obtain ⟨hcomplete, hsame⟩ := Option.ite_none_right_eq_some.mp hlevel
        obtain rfl := Option.some.inj hsame
        have hlog : (logVprintf ts (.text t h) buf b).log =
            b.push ts (utf8 (levelOf (Formatted.vsnprintf buf.toList (.text t h))).toList)
              (Formatted.vsnprintf buf.toList (.text t h)) := if_pos hcomplete
        have hsame : (logVprintf ts (.text t h) buf b).buf =
            Formatted.vsnprintf buf.toList (.text t h) := rfl
        rw [hlog, hsame, hstored]
        refine ⟨?_, ?_, ?_, fun hready hidle hcapacity => ?_⟩
        · rw [hbuf]
          exact hsize
        · rw [hbuf]
          exact List.mem_append_right t List.mem_cons_self
        · rw [hbuf]
          exact upToZero_append_zero t rest
        · rw [slot_push hready hidle hcapacity, record_levelOf]

/-- A line of a thousand bytes. -/
def longLine : Formatted :=
  .text (List.replicate 1000 97) (by rw [List.length_replicate]; decide)

theorem logVprintf_longLine :
    (logVprintf 5 longLine (Vector.replicate Config.wsBufSize 0) (init logBufEntries)).fwritten =
        some 1000 ∧
      ¬ (logVprintf 5 longLine (Vector.replicate Config.wsBufSize 0)
        (init logBufEntries)).ReadsStored 5 longLine (init logBufEntries) := by
  have hlength : longLine.length = 1000 := congrArg Nat.cast List.length_replicate
  have hwritten : (logVprintf 5 longLine (Vector.replicate Config.wsBufSize 0)
      (init logBufEntries)).fwritten = some 1000 := by
    rw [fwritten_eq (by rw [hlength]; decide), hlength]
    rfl
  refine ⟨hwritten, fun h => ?_⟩
  exact absurd (h.written 1000 hwritten).1 (by decide)

end Ecotiter
