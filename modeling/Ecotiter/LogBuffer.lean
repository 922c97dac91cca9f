import Mathlib.Data.List.Range
import Mathlib.Data.List.TakeWhile
import Ecotiter.RingHistory
import Ecotiter.WifiCredentials

/-!
# The log buffer

`log_buffer.cpp`. The head is a `size_t`, which has 32 bits on the device. The queue of the worker
task is left out, and so is its callback: neither changes the slots.
-/

namespace Ecotiter
open RingHistory

/-! ## Arrays of characters -/

/-- An array of characters with a terminator in it. -/
structure CharArray (size : ℕ) where
  bytes : List UInt8
  length_eq : bytes.length = size
  terminated : 0 ∈ bytes
  deriving DecidableEq

/-- What is read of a text up to its terminator. -/
def upToZero (s : List UInt8) : CString := s.takeWhile (· ≠ 0)

theorem ne_zero_of_mem {s : List UInt8} {b : UInt8} (h : b ∈ upToZero s) : b ≠ 0 := by
  have hkept := List.mem_takeWhile_imp (p := fun b => decide (b ≠ 0)) h
  exact of_decide_eq_true hkept

theorem upToZero_idem (s : List UInt8) : upToZero (upToZero s) = upToZero s := List.takeWhile_idem

namespace CharArray
variable {size : ℕ}

def string (a : CharArray size) : CString := upToZero a.bytes

/-- `strncpy` of what fits in front of the last place, which gets a terminator. -/
def strncpy (size : ℕ) [NeZero size] (s : CString) : CharArray size where
  bytes :=
    let kept := (upToZero s).take (size - 1)
    kept ++ List.replicate (size - kept.length) 0
  length_eq := by
    rw [List.length_append, List.length_replicate, List.length_take]
    omega
  terminated := by
    have hpos := Nat.pos_of_neZero size
    apply List.mem_append_right
    rw [List.mem_replicate, List.length_take]
    exact ⟨by omega, rfl⟩

/-- A terminator in the first place. -/
def emptied (a : CharArray size) : CharArray size where
  bytes := a.bytes.set 0 0
  length_eq := by rw [List.length_set, a.length_eq]
  terminated := by
    have hpos : 0 < a.bytes.length := List.length_pos_of_mem a.terminated
    exact List.mem_of_getElem? (List.getElem?_set_self hpos)

theorem string_strncpy [NeZero size] (s : CString) :
    (strncpy size s).string = (upToZero s).take (size - 1) := by
  have hpos := Nat.pos_of_neZero size
  have hkept : ∀ b ∈ (upToZero s).take (size - 1), decide (b ≠ 0) = true := by
    intro b hb
    exact decide_eq_true (ne_zero_of_mem (List.mem_of_mem_take hb))
  have hrest : size - ((upToZero s).take (size - 1)).length =
      (size - 1 - ((upToZero s).take (size - 1)).length) + 1 := by
    have hlength := List.length_take_le (size - 1) (upToZero s)
    omega
  rw [string, strncpy]
  dsimp only
  rw [upToZero.eq_def (_ ++ _), List.takeWhile_append_of_pos hkept, hrest, List.replicate_succ,
    List.takeWhile_cons_of_neg (by decide), List.append_nil]

theorem string_length_lt (a : CharArray size) : a.string.length < size := by
  have hprefix : a.string <+: a.bytes := List.takeWhile_prefix _
  have hle := hprefix.length_le
  have hsize := a.length_eq
  by_cases hall : a.string.length = a.bytes.length
  · have hzero := a.terminated
    rw [← hprefix.eq_of_length hall] at hzero
    exact absurd rfl (ne_zero_of_mem hzero)
  · omega

/-- A string that was read fits into an array of the same size. -/
theorem string_copied [NeZero size] (a : CharArray size) :
    (strncpy size a.string).string = a.string := by
  have hlength := a.string_length_lt
  rw [string_strncpy, string, upToZero_idem]
  exact List.take_of_length_le (Nat.le_sub_one_of_lt hlength)

end CharArray

/-! ## The buffer -/

instance neZero_messageSize : NeZero 128 := ⟨by decide⟩

structure LogEntry where
  timestampMs : UInt32 := 0
  level : CharArray 8 := CharArray.strncpy 8 []
  message : CharArray 128 := CharArray.strncpy 128 []
  deriving DecidableEq

namespace LogEntry

/-- What `push` stores and what `fetch` copies. -/
def copied (timestampMs : UInt32) (level message : CString) : LogEntry where
  timestampMs
  level := CharArray.strncpy 8 level
  message := CharArray.strncpy 128 message

def cleared (e : LogEntry) : LogEntry where
  timestampMs := 0
  level := e.level.emptied
  message := e.message.emptied

end LogEntry

structure LogBuffer where
  slots : List LogEntry
  capacity : ℕ
  head : ℕ
  pushing : Bool
  initialized : Bool
  slots_length : slots.length = capacity
  capacity_eq_zero : initialized = false → capacity = 0

namespace LogBuffer

def init (capacity : ℕ) : LogBuffer where
  slots := List.replicate capacity {}
  capacity := capacity
  head := 0
  pushing := false
  initialized := true
  slots_length := List.length_replicate
  capacity_eq_zero h := absurd h Bool.true_eq_false_eq_False

/-- The flag `pushing_` is set while the slot is written, and only then. -/
def push (timestampMs : UInt32) (level message : CString) (b : LogBuffer) : LogBuffer :=
  if b.initialized = false ∨ b.pushing then b
  else
    { b with
      slots := b.slots.set (b.head % b.capacity) (LogEntry.copied timestampMs level message)
      head := (b.head + 1) % 2 ^ 32
      slots_length := by rw [List.length_set, b.slots_length] }

def clear (b : LogBuffer) : LogBuffer :=
  if b.initialized = false then b
  else
    { b with
      slots := b.slots.map LogEntry.cleared
      head := 0
      slots_length := by rw [List.length_map, b.slots_length] }

/-- The test of the level in `fetch`. -/
def passes (levelFilter : Option CString) (level : CString) : Bool :=
  match levelFilter with
  | none => true
  | some f => f.isEmpty || level == f

/-- One turn of the loop of `fetch`, for a slot. -/
def visit (levelFilter : Option CString) (out : List LogEntry) (slot : LogEntry) : List LogEntry :=
  if slot.timestampMs = 0 then out
  else if passes levelFilter slot.level.string then
    out ++ [LogEntry.copied slot.timestampMs slot.level.string slot.message.string]
  else out

/-- The entries that `fetch` writes. -/
def fetch (maxCount : ℕ) (levelFilter : Option CString) (b : LogBuffer) : List LogEntry :=
  if b.initialized = false then []
  else
    (List.range' 1 b.capacity).foldl
      (fun out offset =>
        if out.length < maxCount then
          (b.slots[indexOf b.capacity b.head offset]?).elim out (visit levelFilter out)
        else out) []

/-! ## What is read -/

end LogBuffer

structure LogRecord where
  timestampMs : UInt32
  level : CString
  message : CString
  deriving DecidableEq

namespace LogEntry

def record (e : LogEntry) : LogRecord := ⟨e.timestampMs, e.level.string, e.message.string⟩

/-- A slot whose time is zero is empty. -/
def seen (e : LogEntry) : Option LogRecord := if e.timestampMs = 0 then none else some e.record

theorem record_copied (e : LogEntry) :
    (copied e.timestampMs e.level.string e.message.string).record = e.record := by
  simp only [record, copied, CharArray.string_copied]

end LogEntry

namespace LogBuffer

/-- The records that a filter lets through. -/
def matching (levelFilter : Option CString) (r : LogRecord) : Bool := passes levelFilter r.level

/-- What is read at an offset. -/
def reading (b : LogBuffer) (offset : ℕ) : Option LogRecord :=
  ((b.slots.map LogEntry.seen)[indexOf b.capacity b.head offset]?).join

/-- The slots in the order in which `fetch` visits them. -/
def readings (b : LogBuffer) : List LogRecord :=
  (List.range' 1 b.capacity).filterMap b.reading

/-- What a turn of the loop writes. -/
def offered (levelFilter : Option CString) (slot : LogEntry) : Option LogEntry :=
  if slot.timestampMs = 0 then none
  else if passes levelFilter slot.level.string then
    some (LogEntry.copied slot.timestampMs slot.level.string slot.message.string)
  else none

theorem visit_eq (levelFilter : Option CString) (out : List LogEntry) (slot : LogEntry) :
    visit levelFilter out slot = out ++ (offered levelFilter slot).toList := by
  unfold visit offered
  split
  · simp
  · split <;> simp

theorem offered_record (levelFilter : Option CString) (slot : LogEntry) :
    (offered levelFilter slot).map LogEntry.record = slot.seen.filter (matching levelFilter) := by
  rw [offered, LogEntry.seen]
  by_cases hempty : slot.timestampMs = 0
  · rw [if_pos hempty, if_pos hempty]
    rfl
  · rw [if_neg hempty, if_neg hempty, Option.filter_some]
    by_cases hpass : passes levelFilter slot.level.string = true
    · have hmatch : matching levelFilter slot.record = true := hpass
      rw [if_pos hpass, if_pos hmatch, Option.map_some, LogEntry.record_copied]
    · have hmatch : ¬ matching levelFilter slot.record = true := hpass
      rw [if_neg hpass, if_neg hmatch]
      rfl

theorem fetch_eq (maxCount : ℕ) (levelFilter : Option CString) (b : LogBuffer) :
    b.fetch maxCount levelFilter =
      ((List.range' 1 b.capacity).filterMap fun offset =>
        b.slots[indexOf b.capacity b.head offset]?.bind (offered levelFilter)).take maxCount := by
  have hturn : (fun (out : List LogEntry) (offset : ℕ) =>
      if out.length < maxCount then
        (b.slots[indexOf b.capacity b.head offset]?).elim out (visit levelFilter out)
      else out) = fun out offset =>
      if out.length < maxCount then
        out ++ (b.slots[indexOf b.capacity b.head offset]?.bind (offered levelFilter)).toList
      else out := by
    funext out offset
    cases b.slots[indexOf b.capacity b.head offset]? with
    | none => simp
    | some slot => simp [visit_eq]
  rw [fetch, hturn, foldl_upTo _ (Nat.zero_le maxCount), List.nil_append]
  by_cases hready : b.initialized = false
  · rw [if_pos hready, b.capacity_eq_zero hready]
    exact List.take_nil.symm
  · rw [if_neg hready]

/-- The records that are fetched are the first matching ones of the readings. -/
theorem fetch_record (maxCount : ℕ) (levelFilter : Option CString) (b : LogBuffer) :
    (b.fetch maxCount levelFilter).map LogEntry.record =
      (b.readings.filter (matching levelFilter)).take maxCount := by
  rw [fetch_eq, List.map_take, List.map_filterMap, readings, List.filter_filterMap]
  congr 2
  funext offset
  rw [reading, List.getElem?_map]
  cases b.slots[indexOf b.capacity b.head offset]? with
  | none => rfl
  | some slot => exact offered_record levelFilter slot

theorem filterMap_range {α : Type} (xs : List α) (n : ℕ) :
    ((List.range n).filterMap fun i => xs[i]?) = xs.take n := by
  induction n with
  | zero => rfl
  | succ n ih =>
    rw [List.range_succ, List.filterMap_append, ih, List.take_add_one]
    cases hx : xs[n]? <;> simp [hx]

theorem filterMap_range' {α : Type} (xs : List α) (n : ℕ) :
    ((List.range' 1 n).filterMap fun i => xs[i - 1]?) = xs.take n := by
  rw [List.range'_eq_map_range, List.filterMap_map, ← filterMap_range]
  congr 1
  funext i
  exact congrArg (xs[·]?) (Nat.add_sub_cancel_left 1 i)

/-- The slots whose entries match a filter. -/
def matchingSlots (levelFilter : Option CString) (b : LogBuffer) : List LogEntry :=
  b.slots.filter fun slot => slot.timestampMs ≠ 0 && passes levelFilter slot.level.string

/-- Every matching slot is visited once, until there are enough. -/
theorem length_fetch (maxCount : ℕ) (levelFilter : Option CString) (b : LogBuffer) :
    (b.fetch maxCount levelFilter).length =
      min maxCount (b.matchingSlots levelFilter).length := by
  have hvisits : ((List.range' 1 b.capacity).filterMap fun offset =>
      b.slots[indexOf b.capacity b.head offset]?.bind (offered levelFilter)) =
        ((List.range' 1 b.capacity).map (indexOf b.capacity b.head)).filterMap fun i =>
          b.slots[i]?.bind (offered levelFilter) := by
    rw [List.filterMap_map]
    rfl
  have hslots : ((List.range b.capacity).filterMap fun i =>
      b.slots[i]?.bind (offered levelFilter)) = b.slots.filterMap (offered levelFilter) := by
    rw [← List.filterMap_filterMap, filterMap_range, ← b.slots_length, List.take_length]
  have hoffered : ∀ slot : LogEntry, (offered levelFilter slot).isSome =
      (slot.timestampMs ≠ 0 && passes levelFilter slot.level.string : Bool) := by
    intro slot
    unfold offered
    by_cases hempty : slot.timestampMs = 0 <;>
      by_cases hpass : passes levelFilter slot.level.string = true <;> simp [hempty, hpass]
  have hperm := (indexOf_perm b.capacity b.head).filterMap fun i =>
    b.slots[i]?.bind (offered levelFilter)
  rw [fetch_eq, hvisits, List.length_take, hperm.length_eq, hslots,
    List.length_filterMap_eq_countP, matchingSlots, List.countP_eq_length_filter]
  simp only [hoffered]

/-! ## Runs -/

/-- A call of `push` with a time, which its caller does not make zero, and two strings. -/
structure Push where
  timestampMs : UInt32
  level : CString
  message : CString
  timed : timestampMs ≠ 0
  level_string : 0 ∉ level
  message_string : 0 ∉ message

inductive Call
  | push (p : Push) | clear

def call (b : LogBuffer) : Call → LogBuffer
  | .push p => b.push p.timestampMs p.level p.message
  | .clear => b.clear

def run (b : LogBuffer) (calls : List Call) : LogBuffer := calls.foldl call b

def record (history : List Push) : Call → List Push
  | .push p => p :: history
  | .clear => []

/-- The pushes since the last `clear`, the newest first. -/
def pushes (calls : List Call) : List Push := calls.foldl record []

/-- What is kept of a push, with its texts cut to the sizes of the fields. -/
def Push.record (p : Push) : LogRecord := ⟨p.timestampMs, p.level.take 7, p.message.take 127⟩

/-- The matching ones of the last pushes, the newest first. -/
def recent (capacity maxCount : ℕ) (levelFilter : Option CString) (history : List Push) :
    List LogRecord :=
  (((history.take capacity).map Push.record).filter (matching levelFilter)).take maxCount

/-- What the pushes of a history put into the slots. -/
def values (history : List Push) : List (Option LogRecord) := history.map fun p => some p.record

theorem values_length (history : List Push) : (values history).length = history.length :=
  List.length_map _

/-- The slots after the pushes of a history. -/
structure Follows (capacity : ℕ) (b : LogBuffer) (history : List Push) : Prop where
  ready : b.initialized = true
  idle : b.pushing = false
  capacity_eq : b.capacity = capacity
  head_eq : b.head = history.length % 2 ^ 32
  slots_hold : Holds (2 ^ 32) capacity none (b.slots.map LogEntry.seen) (values history)

variable {capacity : ℕ} {b : LogBuffer} {history : List Push}

theorem seen_copied (p : Push) :
    (LogEntry.copied p.timestampMs p.level p.message).seen = some p.record := by
  have htext : ∀ {s : CString}, 0 ∉ s → upToZero s = s := by
    intro s hs
    apply List.takeWhile_eq_self_iff.mpr
    intro b hb
    exact decide_eq_true fun hzero => hs (hzero ▸ hb)
  rw [LogEntry.seen, LogEntry.copied, if_neg p.timed]
  simp only [LogEntry.record, Push.record, CharArray.string_strncpy, htext p.level_string,
    htext p.message_string]

theorem follows_init (capacity : ℕ) : Follows capacity (init capacity) [] where
  ready := rfl
  idle := rfl
  capacity_eq := rfl
  head_eq := rfl
  slots_hold := by
    have hslots : (init capacity).slots.map LogEntry.seen = List.replicate capacity none :=
      List.map_replicate
    rw [hslots]
    exact holds_blank capacity

theorem Follows.push (h : Follows capacity b history) (p : Push) :
    Follows capacity (b.push p.timestampMs p.level p.message) (p :: history) := by
  have hcall : ¬ (b.initialized = false ∨ b.pushing = true) := by
    rw [h.ready, h.idle]
    decide
  rw [LogBuffer.push, if_neg hcall]
  refine ⟨h.ready, h.idle, h.capacity_eq, ?_, ?_⟩
  · change (b.head + 1) % 2 ^ 32 = (history.length + 1) % 2 ^ 32
    rw [h.head_eq, Nat.mod_add_mod]
  · have hslot : b.head % b.capacity =
        slotOf (2 ^ 32) capacity (values history).length := by
      rw [h.head_eq, h.capacity_eq, values_length]
      rfl
    rw [List.map_set, seen_copied, hslot]
    exact h.slots_hold.write _

theorem Follows.clear (h : Follows capacity b history) : Follows capacity b.clear [] := by
  have hcall : ¬ b.initialized = false := by
    rw [h.ready]
    decide
  rw [LogBuffer.clear, if_neg hcall]
  refine ⟨h.ready, h.idle, h.capacity_eq, rfl, ?_⟩
  have hslots : (b.slots.map LogEntry.cleared).map LogEntry.seen =
      List.replicate capacity none := by
    rw [List.map_map, ← h.capacity_eq, ← b.slots_length]
    exact List.map_const'
  rw [hslots]
  exact holds_blank capacity

theorem Follows.run (h : Follows capacity b history) (calls : List Call) :
    Follows capacity (b.run calls) (calls.foldl record history) := by
  induction calls generalizing b history with
  | nil => exact h
  | cons c calls ih =>
    cases c with
    | push p => exact ih (h.push p)
    | clear => exact ih h.clear

theorem follows_run (capacity : ℕ) (calls : List Call) :
    Follows capacity ((init capacity).run calls) (pushes calls) :=
  (follows_init capacity).run calls

/-! ## The most recent entries -/

theorem Follows.reading_eq (h : Follows capacity b history) (hpos : 0 < capacity) (offset : ℕ) :
    b.reading offset =
      lastAt (2 ^ 32) capacity none (indexOf capacity (history.length % 2 ^ 32) offset)
        (values history) := by
  rw [reading, h.capacity_eq, h.head_eq, h.slots_hold.get _ (indexOf_lt hpos)]
  rfl

theorem Follows.readings_eq (h : Follows capacity b history) (hpos : 0 < capacity)
    (haligned : Aligned (2 ^ 32) capacity history.length) :
    b.readings = (history.take capacity).map Push.record := by
  rw [← values_length] at haligned
  have hread : ∀ offset ∈ List.range' 1 b.capacity,
      b.reading offset = (history.map Push.record)[offset - 1]? := by
    intro offset hoffset
    rw [h.capacity_eq, List.mem_range'_1] at hoffset
    have hlast : lastAt (2 ^ 32) capacity none
        (indexOf capacity ((values history).length % 2 ^ 32) offset) (values history) =
          (values history).getD (offset - 1) none :=
      lastAt_indexOf haligned (by decide) hoffset.1 (by omega)
    rw [values_length] at hlast
    rw [h.reading_eq hpos, hlast, List.getD_eq_getElem?_getD, values, List.getElem?_map,
      List.getElem?_map]
    cases history[offset - 1]? <;> rfl
  rw [readings, List.filterMap_congr hread, h.capacity_eq, filterMap_range', List.map_take]

/-- Where the turn is broken every slot was written, so a record is read at every offset. -/
theorem Follows.reading_written (h : Follows capacity b history) (hpos : 0 < capacity)
    (hsize : capacity < 2 ^ 32) (hlong : 2 ^ 32 ≤ history.length) (offset : ℕ) :
    ∃ r, b.reading offset = some r := by
  have hindex : indexOf capacity (history.length % 2 ^ 32) offset < capacity := indexOf_lt hpos
  have hslot : slotOf (2 ^ 32) capacity (indexOf capacity (history.length % 2 ^ 32) offset) =
      indexOf capacity (history.length % 2 ^ 32) offset := by
    rw [slotOf, Nat.mod_eq_of_lt (hindex.trans hsize), Nat.mod_eq_of_lt hindex]
  have hwritten : indexOf capacity (history.length % 2 ^ 32) offset < (values history).length := by
    rw [values_length]
    omega
  have hfound : ∃ i, ∃ hi : i < (values history).length, _ ∧
      lastAt (2 ^ 32) capacity none (indexOf capacity (history.length % 2 ^ 32) offset)
        (values history) = (values history)[i] := exists_lastAt hwritten hslot
  obtain ⟨i, hi, -, hlast⟩ := hfound
  have hi' : i < history.length := by rwa [values_length] at hi
  refine ⟨history[i].record, ?_⟩
  rw [h.reading_eq hpos, hlast]
  exact List.getElem_map _

/-- The record that is read right behind a break of the turn is not the one pushed there. -/
theorem Follows.readings_broken (h : Follows capacity b history) (hpos : 0 < capacity)
    (hsize : capacity < 2 ^ 32) (hbroken : ¬ Aligned (2 ^ 32) capacity history.length) :
    ∃ i, ∃ hi : i < history.length, i ≠ history.length % 2 ^ 32 ∧
      b.readings[history.length % 2 ^ 32]? = some history[i].record := by
  have hlong : 2 ^ 32 ≤ history.length := Nat.le_of_not_lt fun hlt => hbroken (.inl hlt)
  have hhead : history.length % 2 ^ 32 < capacity :=
    Nat.lt_of_not_le fun hle => hbroken (.inr (.inr hle))
  choose r hr using h.reading_written hpos hsize hlong
  have hall : b.readings = (List.range' 1 capacity).map r := by
    rw [← h.capacity_eq]
    exact List.filterMap_eq_map_iff_forall_eq_some.mpr fun offset _ => hr offset
  rw [← values_length] at hbroken
  have hfound : ∃ i, ∃ hi : i < (values history).length,
      i ≠ (values history).length % 2 ^ 32 ∧
        lastAt (2 ^ 32) capacity none
          (indexOf capacity ((values history).length % 2 ^ 32)
            ((values history).length % 2 ^ 32 + 1)) (values history) = (values history)[i] :=
    lastAt_broken hbroken hpos hsize.le
  obtain ⟨i, hi, hne, hlast⟩ := hfound
  rw [values_length] at hne hlast
  have hi' : i < history.length := by rwa [values_length] at hi
  refine ⟨i, hi', hne, ?_⟩
  have hplace : (List.range' 1 capacity)[history.length % 2 ^ 32]? =
      some (history.length % 2 ^ 32 + 1) := by
    rw [List.getElem?_range' hhead, Nat.one_mul, Nat.add_comm]
  rw [hall, List.getElem?_map, hplace, Option.map_some, ← hr, h.reading_eq hpos, hlast]
  exact List.getElem_map _

theorem fetch_aligned (h : Follows capacity b history) (hpos : 0 < capacity)
    (haligned : Aligned (2 ^ 32) capacity history.length) (maxCount : ℕ)
    (levelFilter : Option CString) :
    (b.fetch maxCount levelFilter).map LogEntry.record =
      recent capacity maxCount levelFilter history := by
  rw [fetch_record, h.readings_eq hpos haligned]
  rfl

theorem filter_matching_none (l : List LogRecord) : l.filter (matching none) = l :=
  List.filter_eq_self.mpr fun _ _ => rfl

/-! A history in which one push differs from the others. -/

def older : Push := ⟨1, [73, 78, 70, 79], [97], by decide, by decide, by decide⟩

def newer : Push := ⟨2, [73, 78, 70, 79], [98], by decide, by decide, by decide⟩

def callsOf (history : List Push) : List Call := history.reverse.map .push

theorem pushes_callsOf (history : List Push) : pushes (callsOf history) = history := by
  induction history with
  | nil => rfl
  | cons p history ih =>
    rw [callsOf, List.reverse_cons, List.map_append, pushes, List.foldl_append]
    exact congrArg (p :: ·) ih

/-- One push differs from the others. -/
def oneNewer (i j : ℕ) : List Push := List.replicate i older ++ newer :: List.replicate j older

theorem oneNewer_length (i j : ℕ) : (oneNewer i j).length = i + (j + 1) := by
  rw [oneNewer, List.length_append, List.length_cons, List.length_replicate, List.length_replicate]

theorem oneNewer_getElem {i j k : ℕ} (hk : k < (oneNewer i j).length) (hne : k ≠ i) :
    (oneNewer i j)[k] = older := by
  have hlength : (List.replicate i older).length = i := List.length_replicate
  have hsize := oneNewer_length i j
  have hget : (oneNewer i j)[k]? = some older := by
    rw [oneNewer]
    by_cases hlt : k < i
    · rw [List.getElem?_append_left (by omega), List.getElem?_replicate, if_pos hlt]
    · have hback : k - i = (k - i - 1) + 1 := by omega
      rw [List.getElem?_append_right (by omega), hlength, hback, List.getElem?_cons_succ,
        List.getElem?_replicate, if_pos (by omega)]
  rw [List.getElem?_eq_getElem hk] at hget
  exact Option.some.inj hget

theorem oneNewer_newer (i j : ℕ) : (oneNewer i j)[i]? = some newer := by
  have hlength : (List.replicate i older).length = i := List.length_replicate
  rw [oneNewer, List.getElem?_append_right hlength.le, hlength, Nat.sub_self]
  rfl

/-- Behind a break of the turn an older push is read in place of the newer one. -/
theorem fetch_oneNewer {i j : ℕ} (h : Follows capacity b (oneNewer i j)) (hpos : 0 < capacity)
    (hsize : capacity < 2 ^ 32) (hbroken : ¬ Aligned (2 ^ 32) capacity (i + (j + 1)))
    (hplace : (i + (j + 1)) % 2 ^ 32 = i) :
    ((b.fetch (i + 1) none).map LogEntry.record)[i]? = some older.record := by
  rw [← oneNewer_length] at hbroken hplace
  obtain ⟨k, hk, hne, hread⟩ := h.readings_broken hpos hsize hbroken
  rw [hplace] at hne hread
  rw [fetch_record, filter_matching_none, List.getElem?_take_of_lt (Nat.lt_succ_self i), hread,
    oneNewer_getElem hk hne]

theorem recent_oneNewer {i j : ℕ} (hi : i < capacity) :
    (recent capacity (i + 1) none (oneNewer i j))[i]? = some newer.record := by
  rw [recent, filter_matching_none, List.getElem?_take_of_lt (Nat.lt_succ_self i),
    List.getElem?_map, List.getElem?_take_of_lt hi, oneNewer_newer]
  rfl

theorem fetch_returnsRecent {capacity n : ℕ} (hpos : 0 < capacity) (hsize : capacity < 2 ^ 32) :
    (∀ calls : List Call, (pushes calls).length = n →
      ∀ (maxCount : ℕ) (levelFilter : Option CString),
        (((init capacity).run calls).fetch maxCount levelFilter).map LogEntry.record =
          recent capacity maxCount levelFilter (pushes calls)) ↔
      n < 2 ^ 32 ∨ capacity ∣ 2 ^ 32 ∨ capacity ≤ n % 2 ^ 32 := by
  constructor
  · intro hall
    by_contra hbroken
    have hlong : 2 ^ 32 ≤ n := Nat.le_of_not_lt fun hlt => hbroken (.inl hlt)
    have hhead : n % 2 ^ 32 < capacity := Nat.lt_of_not_le fun hle => hbroken (.inr (.inr hle))
    obtain ⟨j, hj⟩ : ∃ j, n = n % 2 ^ 32 + (j + 1) := ⟨n - n % 2 ^ 32 - 1, by omega⟩
    have hpushes := pushes_callsOf (oneNewer (n % 2 ^ 32) j)
    have hfollows := follows_run capacity (callsOf (oneNewer (n % 2 ^ 32) j))
    have hfetched := hall (callsOf (oneNewer (n % 2 ^ 32) j))
      (by rw [hpushes, oneNewer_length]; exact hj.symm) (n % 2 ^ 32 + 1) none
    rw [hpushes] at hfollows hfetched
    have hread := fetch_oneNewer hfollows hpos hsize (hj ▸ hbroken) (hj ▸ rfl)
    rw [hfetched, recent_oneNewer hhead] at hread
    exact absurd (Option.some.inj hread) (by decide)
  · intro haligned calls hcount maxCount levelFilter
    rw [← hcount] at haligned
    exact fetch_aligned (follows_run capacity calls) hpos haligned maxCount levelFilter

/-- The capacity that `main` gives. -/
def logBufEntries : ℕ := 1000

theorem fetch_returnsRecent_three :
    (((init 2).run [.push older, .push newer, .push older]).fetch 5 (some [73, 78, 70, 79])).map
        LogEntry.record =
      [older.record, newer.record] :=
  (fetch_returnsRecent (by decide) (by decide)).mpr (.inl (by decide))
    [.push older, .push newer, .push older] rfl 5 (some [73, 78, 70, 79])

theorem eq_singleton {l : List LogRecord} {r : LogRecord} (hget : l[0]? = some r)
    (hlength : l.length ≤ 1) : l = [r] := by
  cases l with
  | nil => cases hget
  | cons x l =>
    have hrest : l.length = 0 := by
      rw [List.length_cons] at hlength
      omega
    rw [List.eq_nil_of_length_eq_zero hrest]
    exact congrArg (fun r => [r]) (Option.some.inj hget)

/-- When the head is back at zero, the last push is not the first entry that is fetched. -/
theorem fetch_wrapped :
    (((init logBufEntries).run (callsOf (oneNewer 0 (2 ^ 32 - 1)))).fetch 1 none).map
        LogEntry.record = [older.record] ∧
      recent logBufEntries 1 none (pushes (callsOf (oneNewer 0 (2 ^ 32 - 1)))) = [newer.record] ∧
        older.record ≠ newer.record := by
  have hfollows := follows_run logBufEntries (callsOf (oneNewer 0 (2 ^ 32 - 1)))
  rw [pushes_callsOf] at hfollows ⊢
  have hread := fetch_oneNewer hfollows (by decide) (by decide)
    (by unfold Aligned logBufEntries; decide) (by decide)
  refine ⟨eq_singleton hread ?_, eq_singleton (recent_oneNewer (by decide)) ?_, by decide⟩
  · rw [fetch_record]
    exact List.length_take_le 1 _
  · exact List.length_take_le 1 _

end LogBuffer
end Ecotiter
