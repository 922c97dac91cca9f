import Ecotiter.JsonFinders
import Ecotiter.LogBuffer

/-!
# The black box

`black_box.cpp`. The counter `head_` is a `size_t`, which has 32 bits on the device. The ring is
written and dumped by one task at a time here, and the time of a record is an argument.
-/

namespace Ecotiter
open BoundedOutput RingHistory

/-! ## Numbers -/

/-- The loop of `fmt_uint`, with the place in front of which it writes. -/
def fillDigits : ℕ → UInt64 → List UInt8 → List UInt8 × ℕ
  | 0, _, buf => (buf, 0)
  | p + 1, val, buf =>
    if 0 < val then fillDigits p (val / 10) (buf.set p (48 + (val % 10).toUInt8)) else (buf, p + 1)

/-- The array after the call, and the place that is returned. -/
def fmtUint (val : UInt64) (buf : List UInt8) : List UInt8 × ℕ :=
  let p := buf.length - 1
  let terminated := buf.set p 0
  if val = 0 then (terminated.set (p - 1) 48, p - 1) else fillDigits p val terminated

/-- An array of a call of `num`. -/
abbrev NumArray := Vector UInt8 24

/-- The string that `num` writes. -/
def num (v : UInt64) (buf : NumArray) : CString :=
  let (buf, p) := fmtUint v buf.toList
  upToZero (buf.drop p)

variable {p : ℕ} {val : UInt64} {buf : List UInt8}

theorem fillDigits_zero (p : ℕ) (buf : List UInt8) : fillDigits p 0 buf = (buf, p) := by
  cases p with
  | zero => rfl
  | succ p => rfl

theorem digit_byte (val : UInt64) :
    48 + (val % 10).toUInt8 = (Nat.digitChar (val.toNat % 10)).val.toUInt8 := by
  have hdigits : ∀ d < 10, 48 + UInt8.ofNat d = (Nat.digitChar d).val.toUInt8 := by decide
  have hmod : (val % 10).toUInt8 = UInt8.ofNat (val.toNat % 10) := by
    apply UInt8.toNat_inj.mp
    rw [UInt64.toNat_toUInt8, UInt8.toNat_ofNat', UInt64.toNat_mod]
    rfl
  rw [hmod]
  exact hdigits _ (Nat.mod_lt _ (by decide))

theorem drop_set_self {i : ℕ} (h : i < buf.length) (x : UInt8) :
    (buf.set i x).drop i = x :: buf.drop (i + 1) := by
  rw [List.drop_eq_getElem_cons (by rwa [List.length_set]), List.getElem_set_self,
    List.drop_set_of_lt (Nat.lt_succ_self i)]

theorem natural_of_lt {n : ℕ} (h : n < 10) : DecimalText.natural n = [Nat.digitChar n] :=
  Nat.toDigits_of_lt_base h

theorem utf8_digitChar {d : ℕ} (h : d < 10) :
    utf8 [Nat.digitChar d] = [(Nat.digitChar d).val.toUInt8] := by
  rw [NumberScan.utf8_digits]
  · rfl
  · intro c hc
    exact List.mem_singleton.mp hc ▸ DecimalText.digitChar_isDigit d h

/-- The digits are written in front of what stands behind the place. -/
theorem drop_fillDigits (hval : 0 < val.toNat) (h : val.toNat < 10 ^ p) (hp : p ≤ buf.length) :
    (fillDigits p val buf).1.drop (fillDigits p val buf).2 =
      utf8 (DecimalText.natural val.toNat) ++ buf.drop p := by
  induction p generalizing val buf with
  | zero => omega
  | succ p ih =>
    have hpos : 0 < val := UInt64.lt_iff_toNat_lt.mpr hval
    have hdiv : (val / 10).toNat = val.toNat / 10 := UInt64.toNat_div val 10
    have hdigit : val.toNat % 10 < 10 := Nat.mod_lt _ (by decide)
    rw [fillDigits, if_pos hpos, digit_byte]
    by_cases hlast : val.toNat < 10
    · have hnone : val / 10 = 0 := by
        apply UInt64.toNat_inj.mp
        rw [hdiv]
        exact Nat.div_eq_of_lt hlast
      rw [hnone, fillDigits_zero, drop_set_self hp, Nat.mod_eq_of_lt hlast, natural_of_lt hlast,
        utf8_digitChar hlast]
      rfl
    · have hten : 10 ≤ val.toNat := Nat.le_of_not_lt hlast
      have hsmaller : (val / 10).toNat < 10 ^ p := by
        rw [hdiv, Nat.div_lt_iff_lt_mul (by decide)]
        exact h
      have hrest : ∀ buf' : List UInt8, p ≤ buf'.length →
          (fillDigits p (val / 10) buf').1.drop (fillDigits p (val / 10) buf').2 =
            utf8 (DecimalText.natural (val / 10).toNat) ++ buf'.drop p :=
        fun buf' hbuf' => ih (by omega) hsmaller hbuf'
      rw [hrest _ (by rw [List.length_set]; omega), drop_set_self hp, hdiv, DecimalText.natural_of_le hten, utf8_append,
        utf8_digitChar hdigit, List.append_assoc]
      rfl

/-- What `fmt_uint` returns is the number and its terminator, at the end of the array. -/
theorem fmtUint_drop (val : UInt64) (h : 21 ≤ buf.length) :
    (fmtUint val buf).1.drop (fmtUint val buf).2 = utf8 (DecimalText.natural val.toNat) ++ [0] := by
  have hterminated : (buf.set (buf.length - 1) 0).drop (buf.length - 1) = [0] := by
    rw [drop_set_self (by omega), Nat.sub_add_cancel (by omega), List.drop_length]
  unfold fmtUint
  by_cases hzero : val = 0
  · dsimp only
    rw [if_pos hzero, hzero]
    dsimp only
    rw [drop_set_self (by rw [List.length_set]; omega), Nat.sub_add_cancel (by omega), hterminated]
    rfl
  · dsimp only
    rw [if_neg hzero]
    have hval : 0 < val.toNat :=
      Nat.pos_of_ne_zero fun hnone => hzero (UInt64.toNat_inj.mp hnone)
    have hbound : val.toNat < 10 ^ (buf.length - 1) := by
      have htwenty : val.toNat < 10 ^ 20 := val.toNat_lt.trans (by decide)
      exact htwenty.trans_le (Nat.pow_le_pow_right (by decide) (by omega))
    rw [drop_fillDigits hval hbound (by rw [List.length_set]; omega), hterminated]

theorem num_eq (v : UInt64) (buf : NumArray) : num v buf = utf8 (DecimalText.natural v.toNat) := by
  have hlength : 21 ≤ buf.toList.length := by
    rw [Vector.length_toList]
    decide
  have hdrop := fmtUint_drop v hlength
  have hdigits : ∀ b ∈ utf8 (DecimalText.natural v.toNat), decide (b ≠ 0) = true := by
    intro b hb
    have hdigit := NumberScan.isDigit_utf8 DecimalText.natural_isDigit b hb
    apply decide_eq_true
    rintro rfl
    exact absurd hdigit (by decide)
  change upToZero ((fmtUint v buf.toList).1.drop (fmtUint v buf.toList).2) = _
  rw [hdrop, upToZero, List.takeWhile_append_of_pos hdigits, List.takeWhile_cons_of_neg (by decide),
    List.append_nil]

/-! ## The ring -/

namespace BlackBox

def ringSize : ℕ := 64

inductive EventType
  | ffiEnter | ffiExit | stateTransition | threadStart | tickBegin | tickEnd | allocRequest | error
  | tickDuration
  deriving DecidableEq, Repr

/-- The value of `static_cast<uint8_t>`. -/
def EventType.code : EventType → UInt8
  | .ffiEnter => 0
  | .ffiExit => 1
  | .stateTransition => 2
  | .threadStart => 3
  | .tickBegin => 4
  | .tickEnd => 5
  | .allocRequest => 6
  | .error => 7
  | .tickDuration => 8

structure Event where
  timestampUs : UInt64
  type : EventType
  threadId : UInt8
  payloadId : UInt16
  payloadValue : UInt32
  deriving DecidableEq

/-- The remainder of a count modulo `RING_SIZE`. -/
def slot (k : UInt32) : Fin ringSize where
  val := (k % 64).toNat
  isLt := by
    rw [UInt32.toNat_mod]
    exact Nat.mod_lt _ (by decide)

end BlackBox

structure BlackBox where
  ring : Vector BlackBox.Event BlackBox.ringSize
  head : UInt32

namespace BlackBox

def init (bb : BlackBox) : BlackBox := { bb with head := 0 }

/-- A call at a time of `esp_timer_get_time`. -/
def record (time : Int64) (e : Event) (bb : BlackBox) : BlackBox :=
  let e := { e with timestampUs := time.toUInt64 }
  let idx := slot bb.head
  { ring := bb.ring.set idx.val e idx.isLt, head := bb.head + 1 }

/-- The strings that are written for an event. -/
def eventStrings (stack : ℕ → NumArray) (e : Event) : List CString :=
  [utf8 "[".toList, num e.timestampUs (stack 0),
    utf8 "] t".toList, num e.threadId.toUInt64 (stack 1),
    utf8 " type=".toList, num e.type.code.toUInt64 (stack 2),
    utf8 " id=".toList, num e.payloadId.toUInt64 (stack 3),
    utf8 " val=".toList, num e.payloadValue.toUInt64 (stack 4), utf8 "\n".toList]

/-- The strings that are written first. -/
def headerStrings (stack : ℕ → NumArray) (count : UInt64) : List CString :=
  [utf8 "=== BLACK BOX (".toList, num count (stack 0),
    utf8 " events, newest first) ===\n".toList]

/-- `dump(write)`: the strings that are written, in this order. Every call of `num` finds an array
with something in it. -/
def dump (stack : ℕ → ℕ → NumArray) (bb : BlackBox) : List CString :=
  let count : UInt32 := if bb.head < 64 then bb.head else 64
  headerStrings (stack 0) count.toUInt64 ++
    (List.range count.toNat).flatMap fun i =>
      eventStrings (stack (i + 1)) (bb.ring.get (slot (bb.head - 1 - UInt32.ofNat i)))

/-! ## Runs -/

def run (bb : BlackBox) (calls : List (Int64 × Event)) : BlackBox :=
  calls.foldl (fun bb c => bb.record c.1 c.2) bb

/-- The events that the calls record. -/
def recorded (calls : List (Int64 × Event)) : List Event :=
  calls.map fun c => { c.2 with timestampUs := c.1.toUInt64 }

def eventLine (e : Event) : List Char :=
  "[".toList ++ DecimalText.natural e.timestampUs.toNat ++
    "] t".toList ++ DecimalText.natural e.threadId.toNat ++
    " type=".toList ++ DecimalText.natural e.type.code.toNat ++
    " id=".toList ++ DecimalText.natural e.payloadId.toNat ++
    " val=".toList ++ DecimalText.natural e.payloadValue.toNat ++ "\n".toList

def headerLine (count : ℕ) : List Char :=
  "=== BLACK BOX (".toList ++ DecimalText.natural count ++
    " events, newest first) ===\n".toList

/-- The report of some events. -/
def report (count : ℕ) (events : List Event) : List Char :=
  headerLine count ++ events.flatMap eventLine

/-- The ring after the records of a history, the newest in front. -/
structure Follows (ring₀ : Vector Event ringSize) (bb : BlackBox) (history : List Event) : Prop where
  head_eq : bb.head.toNat = history.length % 2 ^ 32
  ring_holds : ∀ j : Fin ringSize,
    bb.ring.get j = lastAt (2 ^ 32) ringSize (ring₀.get j) j.val history

variable {bb : BlackBox} {ring₀ : Vector Event ringSize} {history : List Event}

theorem follows_init (bb : BlackBox) : Follows bb.ring bb.init [] where
  head_eq := rfl
  ring_holds _ := rfl

theorem slot_val (k : UInt32) : (slot k).val = k.toNat % ringSize := UInt32.toNat_mod k 64

theorem Follows.record (h : Follows ring₀ bb history) (time : Int64) (e : Event) :
    Follows ring₀ (bb.record time e) ({ e with timestampUs := time.toUInt64 } :: history) where
  head_eq := by
    change (bb.head + 1).toNat = (history.length + 1) % 2 ^ 32
    rw [UInt32.toNat_add, h.head_eq, UInt32.toNat_one, Nat.mod_add_mod]
  ring_holds j := by
    have hslot : (slot bb.head).val = slotOf (2 ^ 32) ringSize history.length := by
      rw [slot_val, h.head_eq]
      rfl
    have hset : (bb.record time e).ring.get j =
        if (slot bb.head).val = j.val then { e with timestampUs := time.toUInt64 }
        else bb.ring.get j := Vector.getElem_set (slot bb.head).isLt j.isLt
    rw [hset, lastAt, hslot, h.ring_holds]

theorem Follows.run (h : Follows ring₀ bb history) (calls : List (Int64 × Event)) :
    Follows ring₀ (bb.run calls) ((recorded calls).reverse ++ history) := by
  induction calls generalizing bb history with
  | nil => exact h
  | cons c calls ih =>
    have hstep := ih (h.record c.1 c.2)
    have hmore : (recorded (c :: calls)).reverse ++ history = (recorded calls).reverse ++
        { c.2 with timestampUs := c.1.toUInt64 } :: history := by
      rw [recorded, List.map_cons, List.reverse_cons, List.append_assoc]
      rfl
    rw [hmore]
    exact hstep

/-- The event that is dumped after some others. -/
theorem Follows.get_eq (h : Follows ring₀ bb history) (hlength : history.length < 2 ^ 32) {i : ℕ}
    (hi : i < history.length) (hsize : i < ringSize) :
    bb.ring.get (slot (bb.head - 1 - UInt32.ofNat i)) = history[i] := by
  have hhead : bb.head.toNat = history.length := h.head_eq.trans (Nat.mod_eq_of_lt hlength)
  have hturn : (UInt32.ofNat i).toNat = i := UInt32.toNat_ofNat_of_lt' (hi.trans hlength)
  have hone : (1 : UInt32) ≤ bb.head := by
    rw [UInt32.le_iff_toNat_le, hhead, UInt32.toNat_one]
    omega
  have hback : (bb.head - 1).toNat = history.length - 1 := by
    rw [UInt32.toNat_sub_of_le _ _ hone, hhead]
    rfl
  have hle : UInt32.ofNat i ≤ bb.head - 1 := by
    rw [UInt32.le_iff_toNat_le, hback, hturn]
    omega
  have hindex : (slot (bb.head - 1 - UInt32.ofNat i)).val =
      indexOf ringSize (history.length % 2 ^ 32) (i + 1) := by
    have hnumber : history.length - 1 - i = history.length - (i + 1) := by omega
    rw [slot_val, UInt32.toNat_sub_of_le _ _ hle, hback, hturn, Nat.mod_eq_of_lt hlength, indexOf,
      if_pos (Nat.succ_le_of_lt hi), hnumber]
  rw [h.ring_holds, hindex, lastAt_indexOf (.inl hlength) (by decide) (by omega) (by omega),
    Nat.add_sub_cancel, List.getD_eq_getElem _ _ hi]

/-! ## The report -/

theorem eventStrings_flatten (stack : ℕ → NumArray) (e : Event) :
    (eventStrings stack e).flatten = utf8 (eventLine e) := by
  have hthread : e.threadId.toUInt64.toNat = e.threadId.toNat := UInt8.toNat_toUInt64 _
  have htype : e.type.code.toUInt64.toNat = e.type.code.toNat := UInt8.toNat_toUInt64 _
  have hid : e.payloadId.toUInt64.toNat = e.payloadId.toNat := UInt16.toNat_toUInt64 _
  have hvalue : e.payloadValue.toUInt64.toNat = e.payloadValue.toNat := UInt32.toNat_toUInt64 _
  have hparts : ∀ (a b c d f g : List Char) (t k y i v : UInt64),
      [utf8 a, num t (stack 0), utf8 b, num k (stack 1), utf8 c, num y (stack 2), utf8 d,
        num i (stack 3), utf8 f, num v (stack 4), utf8 g].flatten =
      utf8 (a ++ DecimalText.natural t.toNat ++ b ++ DecimalText.natural k.toNat ++
        c ++ DecimalText.natural y.toNat ++ d ++ DecimalText.natural i.toNat ++
        f ++ DecimalText.natural v.toNat ++ g) := by
    intro a b c d f g t k y i v
    simp only [List.flatten_cons, List.flatten_nil, List.append_nil, num_eq, utf8_append,
      List.append_assoc]
  have hall := hparts "[".toList "] t".toList " type=".toList " id=".toList " val=".toList "\n".toList
    e.timestampUs e.threadId.toUInt64 e.type.code.toUInt64 e.payloadId.toUInt64
    e.payloadValue.toUInt64
  rw [hthread, htype, hid, hvalue] at hall
  exact hall

/-- The events that are dumped are the last ones, each at its turn. -/
theorem Follows.dumped_eq (h : Follows ring₀ bb history) (hlength : history.length < 2 ^ 32) :
    ((List.range (min history.length ringSize)).map fun i =>
      bb.ring.get (slot (bb.head - 1 - UInt32.ofNat i))) = history.take ringSize := by
  apply List.ext_getElem
  · rw [List.length_map, List.length_range, List.length_take, Nat.min_comm]
  · intro i hi hi'
    rw [List.length_map, List.length_range] at hi
    rw [List.getElem_map, List.getElem_range, List.getElem_take]
    exact h.get_eq hlength (by omega) (by omega)

theorem Follows.count_eq (h : Follows ring₀ bb history) (hlength : history.length < 2 ^ 32) :
    (if bb.head < 64 then bb.head else 64).toNat = min history.length ringSize := by
  have hhead : bb.head.toNat = history.length := h.head_eq.trans (Nat.mod_eq_of_lt hlength)
  have hsize : ringSize = 64 := rfl
  have hlt : bb.head < 64 ↔ history.length < 64 := by
    rw [UInt32.lt_iff_toNat_lt, hhead]
    rfl
  by_cases hfew : bb.head < 64
  · have hless := hlt.mp hfew
    rw [if_pos hfew, hhead]
    omega
  · have hmore : ¬ history.length < 64 := fun hless => hfew (hlt.mpr hless)
    rw [if_neg hfew]
    change 64 = _
    omega

theorem lines_flatten (indices : List ℕ) (stack : ℕ → ℕ → NumArray) (event : ℕ → Event) :
    (indices.flatMap fun i => eventStrings (stack (i + 1)) (event i)).flatten =
      utf8 ((indices.map event).flatMap eventLine) := by
  induction indices with
  | nil => rfl
  | cons i indices ih =>
    rw [List.flatMap_cons, List.flatten_append, eventStrings_flatten, ih, List.map_cons,
      List.flatMap_cons, utf8_append]

theorem header_flatten (stack : ℕ → NumArray) (count : UInt64) :
    (headerStrings stack count).flatten = utf8 (headerLine count.toNat) := by
  have hparts : ∀ opening closing : List Char,
      [utf8 opening, num count (stack 0), utf8 closing].flatten =
        utf8 (opening ++ DecimalText.natural count.toNat ++ closing) := by
    intro opening closing
    simp only [List.flatten_cons, List.flatten_nil, List.append_nil, num_eq, utf8_append,
      List.append_assoc]
  exact hparts _ _

theorem dump_def (stack : ℕ → ℕ → NumArray) (bb : BlackBox) : bb.dump stack =
    headerStrings (stack 0) (if bb.head < 64 then bb.head else 64).toUInt64 ++
      (List.range (if bb.head < 64 then bb.head else 64).toNat).flatMap fun i =>
        eventStrings (stack (i + 1)) (bb.ring.get (slot (bb.head - 1 - UInt32.ofNat i))) := rfl

theorem Follows.dump_eq (h : Follows ring₀ bb history) (hlength : history.length < 2 ^ 32)
    (stack : ℕ → ℕ → NumArray) :
    (bb.dump stack).flatten =
      utf8 (report (min history.length ringSize) (history.take ringSize)) := by
  have hcount := h.count_eq hlength
  have hlines := lines_flatten (List.range (min history.length ringSize)) stack fun i =>
    bb.ring.get (slot (bb.head - 1 - UInt32.ofNat i))
  rw [h.dumped_eq hlength] at hlines
  rw [dump_def, List.flatten_append, hcount, hlines, header_flatten, UInt32.toNat_toUInt64, hcount,
    report, utf8_append]

theorem dump_reports (bb : BlackBox) (calls : List (Int64 × Event)) (stack : ℕ → ℕ → NumArray)
    (h : calls.length < 2 ^ 32) :
    ((bb.init.run calls).dump stack).flatten =
      utf8 (report (min calls.length ringSize) ((recorded calls).reverse.take ringSize)) := by
  have hfollows := (follows_init bb).run calls
  have hlength : ((recorded calls).reverse ++ []).length = calls.length := by
    rw [List.append_nil, List.length_reverse, recorded, List.length_map]
  have hdump := hfollows.dump_eq (by rwa [hlength]) stack
  rwa [hlength, List.append_nil] at hdump

/-- An event of a task that ends a call. -/
def callEvent : Event := ⟨0, .ffiExit, 3, 82, 0⟩

/-- A ring that was never written. -/
def blank : BlackBox := ⟨Vector.replicate ringSize ⟨0, .ffiEnter, 0, 0, 0⟩, 0⟩

/-- Of two records the later one is reported first. -/
theorem dump_reports_two :
    ((blank.init.run [(7, callEvent), (1500, callEvent)]).dump
      fun _ _ => Vector.replicate 24 170).flatten =
        utf8 (report 2 [{ callEvent with timestampUs := 1500 }, { callEvent with timestampUs := 7 }]) :=
  dump_reports blank [(7, callEvent), (1500, callEvent)] _ (by decide)

end BlackBox
end Ecotiter
