import Ecotiter.ByteBits
import Ecotiter.Calibration
import Ecotiter.CommandLine

/-!
# The 1-Wire bus of the temperature sensor

`drivers/onewire.cpp` drives the line and waits; `Bus` is the line with the time in microseconds and
the sensor at its other end. The sensor acts on the edges of the line: a long low pulse resets it, a
short one hands it a bit or asks it for one. `temp_thread.cpp` reads the sensor in turns, between
which the sensor may be taken away or brought back and the temperature may change.
-/

namespace Ecotiter
open ByteBits

namespace OneWire

abbrev Scratchpad := Vector UInt8 9

/-- What the sensor does, in microseconds after an edge of the line. -/
structure Timing where
  sample : ℕ         -- after the fall, when it looks at the bit that is written
  hold : ℕ           -- after the fall, for how long it holds a zero that is read
  presenceFrom : ℕ   -- after the rise that ends a reset, when it pulls the line
  presenceTo : ℕ
  conversion : ℕ     -- of the temperature
  elapsed : ℕ        -- of the first tick of a delay, when the delay begins

inductive Mode
  | asleep                                            -- waits for a reset
  | present                                           -- has just been reset
  | receiving (read : List Bool)                      -- of a command
  | sending (current : Option Bool) (rest : List Bool)
  deriving DecidableEq

structure Sensor where
  attached : Bool
  mode : Mode := .asleep
  selected : Bool := false
  scratchpad : Scratchpad
  measured : Scratchpad                               -- what a conversion yields
  converted : Option ℕ := none                        -- when the conversion under way is over

namespace Sensor

/-- The content of the scratchpad at a time. -/
def content (s : Sensor) (now : ℕ) : Scratchpad :=
  match s.converted with
  | some t => if t ≤ now then s.measured else s.scratchpad
  | none => s.scratchpad

/-- The sensor takes a command. -/
def command (T : Timing) (now : ℕ) (b : UInt8) (s : Sensor) : Sensor :=
  if s.selected = false then
    if b = 0xCC then { s with selected := true, mode := .receiving [] }
    else { s with mode := .asleep }
  else if b = 0x44 then
    { s with converted := some (now + T.conversion), scratchpad := s.content now, mode := .asleep }
  else if b = 0xBE then
    { s with mode := .sending none ((s.content now).toList.flatMap bits) }
  else { s with mode := .asleep }

def receive (T : Timing) (now : ℕ) (read : List Bool) (s : Sensor) : Sensor :=
  if read.length = 8 then s.command T now (byte read) else { s with mode := .receiving read }

/-- The line falls: a bit that is sent begins. -/
def fall (s : Sensor) : Sensor :=
  match s.mode with
  | .sending _ rest => { s with mode := .sending rest.head? rest.tail }
  | _ => s

/-- The line rises after it was low for some time. -/
def rise (T : Timing) (now low : ℕ) (s : Sensor) : Sensor :=
  if 480 ≤ low then { s with mode := .present, selected := false }
  else
    match s.mode with
    | .present => s.receive T now [decide (low ≤ T.sample)]
    | .receiving read => s.receive T now (read ++ [decide (low ≤ T.sample)])
    | _ => s

end Sensor

structure Bus where
  timing : Timing
  now : ℕ := 0
  level : Bool := true        -- the pin; the line is pulled up
  fell : ℕ := 0
  rose : ℕ := 0
  sensor : Sensor

namespace Bus

/-- The sensor pulls the line. -/
def pulled (bus : Bus) : Bool :=
  bus.sensor.attached &&
    match bus.sensor.mode with
    | .present => bus.rose + bus.timing.presenceFrom ≤ bus.now ∧
        bus.now < bus.rose + bus.timing.presenceTo
    | .sending (some false) _ => bus.now < bus.fell + bus.timing.hold
    | _ => false

def gpioSetLevel (level : Bool) : StateM Bus Unit := modify fun bus =>
  match bus.level, level with
  | true, false => { bus with level := false, fell := bus.now, sensor := bus.sensor.fall }
  | false, true =>
    { bus with
      level := true, rose := bus.now,
      sensor := bus.sensor.rise bus.timing bus.now (bus.now - bus.fell) }
  | _, _ => bus

def espRomDelayUs (us : ℕ) : StateM Bus Unit := modify fun bus => { bus with now := bus.now + us }

def vTaskDelay (ms : ℕ) : StateM Bus Unit := modify fun bus =>
  { bus with now := bus.now + (1000 * ms - bus.timing.elapsed) }

def gpioGetLevel : StateM Bus Bool := do
  let bus ← get
  return bus.level && !bus.pulled

/-- `OneWireBus::reset`. -/
def reset : StateM Bus Bool := do
  gpioSetLevel false
  espRomDelayUs 480
  gpioSetLevel true
  espRomDelayUs 75
  let present := !(← gpioGetLevel)
  espRomDelayUs 405
  return present

def writeBit1 : StateM Bus Unit := do
  gpioSetLevel false
  espRomDelayUs 6
  gpioSetLevel true
  espRomDelayUs 64

def writeBit0 : StateM Bus Unit := do
  gpioSetLevel false
  espRomDelayUs 60
  gpioSetLevel true
  espRomDelayUs 10

def writeByte (byte : UInt8) : StateM Bus Unit :=
  forM (List.range 8) fun i =>
    if (byte.toNat >>> i) &&& 1 ≠ 0 then writeBit1 else writeBit0

def readBit : StateM Bus Bool := do
  gpioSetLevel false
  espRomDelayUs 3
  gpioSetLevel true
  espRomDelayUs 10
  let bit ← gpioGetLevel
  espRomDelayUs 53
  return bit

def readByte : StateM Bus UInt8 :=
  (List.range 8).foldlM (fun byte i => do
    if ← readBit then return byte ||| UInt8.ofNat (1 <<< i) else return byte) 0

def skipRom : StateM Bus Unit := writeByte 0xCC

def convertT : StateM Bus Unit := writeByte 0x44

def readScratchpad : StateM Bus (List UInt8) := do
  writeByte 0xBE
  (List.range 9).mapM fun _ => readByte

/-- The temperature of a scratchpad that was read. -/
def temperature (buf : List UInt8) : ℚ :=
  let raw : UInt16 := (buf.getD 1 0).toUInt16 <<< 8 ||| (buf.getD 0 0).toUInt16
  let tempRaw := raw.toInt16
  float32.round (tempRaw.toInt / 16)

/-- `readSensor`. -/
def readSensor : StateM Bus (Option ℚ) := do
  if !(← reset) then return none
  skipRom
  convertT
  vTaskDelay 800
  if !(← reset) then return none
  skipRom
  let buf ← readScratchpad
  let temp := temperature buf
  return if temp < -55 ∨ 125 < temp then none else some temp

/-- What the temperature thread stores after a reading. -/
def cx100 : Option ℚ → ℤ
  | some temp => trunc (float32.round (temp * 100))
  | none => -99999

/-- What is at the end of the line during a turn of the thread. -/
structure Surroundings where
  attached : Bool
  measured : Scratchpad

def surround (e : Surroundings) (bus : Bus) : Bus :=
  { bus with sensor := { bus.sensor with attached := e.attached, measured := e.measured } }

/-- The turns of the temperature thread and the temperatures it stores. -/
def runTempLoop (turns : List Surroundings) : StateM Bus (List ℤ) :=
  turns.mapM fun e => do
    modify (surround e)
    let stored := cx100 (← readSensor)
    vTaskDelay 1000
    return stored

/-! ## What one slot does -/

/-- The line is low for `low` microseconds and then high for `high`. -/
def slot (low high : ℕ) (bus : Bus) : Bus :=
  { bus with
    now := bus.now + low + high, level := true, fell := bus.now, rose := bus.now + low
    sensor := bus.sensor.fall.rise bus.timing (bus.now + low) low }

/-- Writes one bit. -/
def writeBit (b : Bool) : StateM Bus Unit := if b then writeBit1 else writeBit0

theorem writeBit_run (b : Bool) {bus : Bus} (h : bus.level = true) :
    (writeBit b).run bus = ((), bus.slot (if b then 6 else 60) (if b then 64 else 10)) := by
  cases b with
  | true =>
    simp [writeBit, writeBit1, gpioSetLevel, espRomDelayUs, slot, h]
    rfl
  | false =>
    simp [writeBit, writeBit0, gpioSetLevel, espRomDelayUs, slot, h]
    rfl

theorem readBit_run {bus : Bus} (h : bus.level = true) :
    readBit.run bus = (!(bus.slot 3 10).pulled, bus.slot 3 63) := by
  simp [readBit, gpioSetLevel, espRomDelayUs, gpioGetLevel, slot, h, pulled, Nat.add_assoc]
  rfl

theorem reset_run {bus : Bus} (h : bus.level = true) :
    reset.run bus = ((bus.slot 480 75).pulled, bus.slot 480 480) := by
  simp [reset, gpioSetLevel, espRomDelayUs, gpioGetLevel, slot, h, pulled, Nat.add_assoc]
  rfl

theorem run_bind {α β : Type} (x : StateM Bus α) (f : α → StateM Bus β) (bus : Bus) :
    (x >>= f).run bus = (f (x.run bus).1).run (x.run bus).2 := rfl

end Bus

/-! ## The sensor during a slot -/

namespace Sensor

/-- The bits of a command that the sensor has read so far. -/
def Hears (s : Sensor) (read : List Bool) : Prop :=
  s.mode = .receiving read ∨ (s.mode = .present ∧ read = [])

theorem slot_reset (s : Sensor) (T : Timing) (now : ℕ) :
    s.fall.rise T now 480 = { s with mode := .present, selected := false } := by
  rw [rise, if_pos le_rfl, fall]
  cases s.mode <;> rfl

theorem slot_receive {s : Sensor} {T : Timing} {now low : ℕ} {read : List Bool}
    (h : s.Hears read) (hlow : low < 480) :
    s.fall.rise T now low = s.receive T now (read ++ [decide (low ≤ T.sample)]) := by
  rcases h with hmode | ⟨hmode, rfl⟩
  · have hfall : s.fall = s := by rw [fall, hmode]
    rw [hfall, rise, if_neg (Nat.not_le.mpr hlow), hmode]
  · have hfall : s.fall = s := by rw [fall, hmode]
    rw [hfall, rise, if_neg (Nat.not_le.mpr hlow), hmode, List.nil_append]

theorem slot_send {s : Sensor} {T : Timing} {now low : ℕ} {current : Option Bool}
    {rest : List Bool} (h : s.mode = .sending current rest) (hlow : low < 480) :
    s.fall.rise T now low = { s with mode := .sending rest.head? rest.tail } := by
  rw [fall, h, rise, if_neg (Nat.not_le.mpr hlow)]

theorem command_mode (s : Sensor) (T : Timing) (now : ℕ) (b : UInt8) (mode : Mode) :
    ({ s with mode := mode } : Sensor).command T now b = s.command T now b := rfl

end Sensor

/-- The sensor keeps to the delays of the driver. -/
structure Timing.Fits (T : Timing) : Prop where
  one : 6 ≤ T.sample
  zero : T.sample < 60
  hold : 13 < T.hold
  presenceFrom : T.presenceFrom ≤ 75
  presenceTo : 75 < T.presenceTo
  conversion : T.conversion + T.elapsed ≤ 800000

namespace Bus

/-- A later time at which the line is idle. -/
structure Later (bus bus' : Bus) : Prop where
  level : bus'.level = true
  timing : bus'.timing = bus.timing
  now : bus.now ≤ bus'.now

theorem Later.trans {a b c : Bus} (hab : Later a b) (hbc : Later b c) : Later a c where
  level := hbc.level
  timing := hbc.timing.trans hab.timing
  now := hab.now.trans hbc.now

theorem later_slot (bus : Bus) (low high : ℕ) : Later bus (bus.slot low high) where
  level := rfl
  timing := rfl
  now := by rw [slot, Nat.add_assoc]; exact Nat.le_add_right _ _

/-! ## Bytes on the line -/

theorem writeByte_eq (b : UInt8) : writeByte b = forM (bits b) writeBit := by
  rw [bits, List.forM_map, writeByte]
  congr 1
  funext i
  rw [writeBit, Nat.testBit, Nat.and_comm]
  by_cases hbit : 1 &&& b.toNat >>> i = 0
  · rw [if_neg (not_not.mpr hbit), hbit]
    rfl
  · rw [if_pos hbit, bne_iff_ne.mpr hbit]
    rfl

/-- The last bit of a byte hands it to the sensor. -/
theorem writeBits_run (read bs : List Bool) (bus : Bus) (hfits : bus.timing.Fits)
    (hlevel : bus.level = true) (hhears : bus.sensor.Hears read) (hne : bs ≠ [])
    (hlength : read.length + bs.length = 8) :
    ∃ t bus', (forM bs writeBit).run bus = ((), bus') ∧ Later bus bus' ∧ bus.now ≤ t ∧ t ≤ bus'.now ∧
      bus'.sensor = bus.sensor.command bus.timing t (byte (read ++ bs)) := by
  induction bs generalizing read bus with
  | nil => exact absurd rfl hne
  | cons b bs ih =>
    have hbit : decide ((if b then 6 else 60) ≤ bus.timing.sample) = b := by
      cases b with
      | true => exact decide_eq_true hfits.one
      | false => exact decide_eq_false (Nat.not_le.mpr hfits.zero)
    have hlow : (if b then 6 else 60) < 480 := by cases b <;> decide
    set bus₁ := bus.slot (if b then 6 else 60) (if b then 64 else 10) with hbus₁
    have hlater : Later bus bus₁ := later_slot bus _ _
    have hsensor : bus₁.sensor = bus.sensor.receive bus.timing
        (bus.now + if b then 6 else 60) (read ++ [b]) := by
      rw [hbus₁, slot, Sensor.slot_receive hhears hlow, hbit]
    rw [List.forM_cons, run_bind, writeBit_run b hlevel]
    cases bs with
    | nil =>
      have hfull : (read ++ [b]).length = 8 := by
        rw [List.length_append]
        exact hlength
      refine ⟨bus.now + if b then 6 else 60, bus₁, rfl, hlater, Nat.le_add_right _ _,
        Nat.le_add_right _ _, ?_⟩
      rw [hsensor, Sensor.receive, if_pos hfull]
    | cons c cs =>
      have hpart : (read ++ [b]).length ≠ 8 := by
        simp only [List.length_append, List.length_cons, List.length_nil] at hlength ⊢
        omega
      rw [Sensor.receive, if_neg hpart] at hsensor
      have hrest : (read ++ [b]).length + (c :: cs).length = 8 := by
        simp only [List.length_append, List.length_cons, List.length_nil] at hlength ⊢
        omega
      obtain ⟨t, bus₂, hrun, hlater₂, hfrom, ht, hcommand⟩ :=
        ih (read ++ [b]) bus₁ (hlater.timing ▸ hfits) hlater.level
          (Or.inl (by rw [hsensor])) (List.cons_ne_nil _ _) hrest
      refine ⟨t, bus₂, hrun, hlater.trans hlater₂, hlater.now.trans hfrom, ht, ?_⟩
      rw [hcommand, hsensor, Sensor.command_mode, hlater.timing, List.append_assoc]
      rfl

theorem writeByte_run (b : UInt8) (bus : Bus) (hfits : bus.timing.Fits) (hlevel : bus.level = true)
    (hhears : bus.sensor.Hears []) :
    ∃ t bus', (writeByte b).run bus = ((), bus') ∧ Later bus bus' ∧ bus.now ≤ t ∧ t ≤ bus'.now ∧
      bus'.sensor = bus.sensor.command bus.timing t b := by
  have hne : bits b ≠ [] := List.ne_nil_of_length_eq_add_one (length_bits b)
  have hlength : ([] : List Bool).length + (bits b).length = 8 := by
    rw [length_bits, List.length_nil]
  obtain ⟨t, bus', hrun, hlater, hfrom, ht, hsensor⟩ :=
    writeBits_run [] (bits b) bus hfits hlevel hhears hne hlength
  rw [List.nil_append, byte_bits] at hsensor
  exact ⟨t, bus', writeByte_eq b ▸ hrun, hlater, hfrom, ht, hsensor⟩

theorem reset_attached (bus : Bus) (hfits : bus.timing.Fits) (hlevel : bus.level = true) :
    ∃ bus', reset.run bus = (bus.sensor.attached, bus') ∧ Later bus bus' ∧
      bus'.sensor = { bus.sensor with mode := .present, selected := false } := by
  have hsensor (high : ℕ) : (bus.slot 480 high).sensor =
      { bus.sensor with mode := .present, selected := false } :=
    bus.sensor.slot_reset bus.timing (bus.now + 480)
  have hpulled : (bus.slot 480 75).pulled = bus.sensor.attached := by
    have hfrom := hfits.presenceFrom
    have hto := hfits.presenceTo
    have htimes : bus.now + 480 + bus.timing.presenceFrom ≤ bus.now + 480 + 75 ∧
        bus.now + 480 + 75 < bus.now + 480 + bus.timing.presenceTo := by omega
    rw [pulled, hsensor]
    exact (congrArg _ (decide_eq_true htimes)).trans (Bool.and_true _)
  refine ⟨bus.slot 480 480, ?_, later_slot _ _ _, hsensor 480⟩
  rw [reset_run hlevel, hpulled]

theorem readBit_sending (b : Bool) (rest : List Bool) (current : Option Bool) (bus : Bus)
    (hfits : bus.timing.Fits) (hlevel : bus.level = true) (hattached : bus.sensor.attached = true)
    (hmode : bus.sensor.mode = .sending current (b :: rest)) :
    ∃ bus', readBit.run bus = (b, bus') ∧ Later bus bus' ∧
      bus'.sensor = { bus.sensor with mode := .sending (some b) rest } := by
  have hsensor (high : ℕ) : (bus.slot 3 high).sensor =
      { bus.sensor with mode := .sending (some b) rest } := by
    have hlow : 3 < 480 := by omega
    exact Sensor.slot_send hmode hlow
  have hpulled : (bus.slot 3 10).pulled = !b := by
    have hhold := hfits.hold
    have htime : bus.now + 3 + 10 < bus.now + bus.timing.hold := by omega
    rw [pulled, hsensor, hattached, Bool.true_and]
    cases b with
    | true => rfl
    | false => exact decide_eq_true htime
  refine ⟨bus.slot 3 63, ?_, later_slot _ _ _, hsensor 63⟩
  rw [readBit_run hlevel, hpulled, Bool.not_not]

theorem byte_or (bs : List Bool) (b : Bool) :
    (if b then byte bs ||| UInt8.ofNat (1 <<< bs.length) else byte bs) = byte (bs ++ [b]) := by
  have hvalue := value_or bs b
  cases b with
  | true => rw [if_pos rfl, byte, byte, ← hvalue, if_pos rfl, UInt8.ofNat_or]
  | false => rw [if_neg Bool.false_ne_true, byte, byte, ← hvalue, if_neg Bool.false_ne_true, Nat.or_zero]

/-- The sensor sends, and nothing else about it changes. -/
def Sends (s : Sensor) (rest : List Bool) (s' : Sensor) : Prop :=
  ∃ current, s' = { s with mode := .sending current rest }

theorem Sends.trans {s s' s'' : Sensor} {rest rest' : List Bool} (h : Sends s rest s')
    (h' : Sends s' rest' s'') : Sends s rest' s'' := by
  obtain ⟨current, rfl⟩ := h
  exact h'

theorem readBits_run (read bs rest : List Bool) (bus : Bus) (hfits : bus.timing.Fits)
    (hlevel : bus.level = true) (hattached : bus.sensor.attached = true)
    (hsends : Sends bus.sensor (bs ++ rest) bus.sensor) :
    ∃ bus', ((List.range' read.length bs.length).foldlM (fun byte i => do
        if ← readBit then return byte ||| UInt8.ofNat (1 <<< i) else return byte)
        (byte read)).run bus = (byte (read ++ bs), bus') ∧
      Later bus bus' ∧ Sends bus.sensor rest bus'.sensor := by
  induction bs generalizing read bus with
  | nil => exact ⟨bus, by rw [List.append_nil]; rfl, ⟨hlevel, rfl, le_rfl⟩, hsends⟩
  | cons b bs ih =>
    obtain ⟨current, hmode⟩ := hsends
    obtain ⟨bus₁, hbit, hlater, hsensor⟩ :=
      readBit_sending b (bs ++ rest) current bus hfits hlevel hattached (congrArg Sensor.mode hmode)
    have hattached₁ : bus₁.sensor.attached = true := by rw [hsensor, hattached]
    have hsends₁ : Sends bus₁.sensor (bs ++ rest) bus₁.sensor := ⟨some b, by rw [hsensor]⟩
    obtain ⟨bus', hrun, hlater', hsends'⟩ :=
      ih (read ++ [b]) bus₁ (hlater.timing ▸ hfits) hlater.level hattached₁ hsends₁
    have hstart : Sends bus.sensor (bs ++ rest) bus₁.sensor := ⟨some b, hsensor⟩
    refine ⟨bus', ?_, hlater.trans hlater', hstart.trans hsends'⟩
    rw [List.length_append, List.length_singleton, List.append_assoc, List.singleton_append,
      ← byte_or read b] at hrun
    rw [List.length_cons, List.range'_succ, List.foldlM_cons, run_bind, run_bind, hbit]
    cases b with
    | true => exact hrun
    | false => exact hrun

theorem readByte_run (b : UInt8) (rest : List Bool) (bus : Bus) (hfits : bus.timing.Fits)
    (hlevel : bus.level = true) (hattached : bus.sensor.attached = true)
    (hsends : Sends bus.sensor (bits b ++ rest) bus.sensor) :
    ∃ bus', readByte.run bus = (b, bus') ∧ Later bus bus' ∧ Sends bus.sensor rest bus'.sensor := by
  obtain ⟨bus', hrun, hlater, hrest⟩ :=
    readBits_run [] (bits b) rest bus hfits hlevel hattached hsends
  rw [List.nil_append, byte_bits, length_bits, List.length_nil] at hrun
  rw [readByte, List.range_eq_range']
  exact ⟨bus', hrun, hlater, hrest⟩

theorem readBytes_run (bytes : List UInt8) (is : List ℕ) (bus : Bus) (hfits : bus.timing.Fits)
    (hlength : is.length = bytes.length) (hlevel : bus.level = true)
    (hattached : bus.sensor.attached = true)
    (hsends : Sends bus.sensor (bytes.flatMap bits) bus.sensor) :
    ∃ bus', (is.mapM fun _ => readByte).run bus = (bytes, bus') ∧ Later bus bus' ∧
      Sends bus.sensor [] bus'.sensor := by
  induction bytes generalizing is bus with
  | nil =>
    rw [List.length_nil, List.length_eq_zero_iff] at hlength
    subst hlength
    exact ⟨bus, rfl, ⟨hlevel, rfl, le_rfl⟩, hsends⟩
  | cons b bytes ih =>
    obtain ⟨i, is, rfl⟩ := List.exists_cons_of_length_eq_add_one hlength
    rw [List.length_cons, List.length_cons, Nat.add_right_cancel_iff] at hlength
    obtain ⟨bus₁, hbyte, hlater, hsends₁⟩ :=
      readByte_run b (bytes.flatMap bits) bus hfits hlevel hattached hsends
    have hattached₁ : bus₁.sensor.attached = true := by
      obtain ⟨current, hsensor⟩ := hsends₁
      rw [hsensor, hattached]
    have hself : Sends bus₁.sensor (bytes.flatMap bits) bus₁.sensor := by
      obtain ⟨current, hsensor⟩ := hsends₁
      exact ⟨current, by rw [hsensor]⟩
    obtain ⟨bus', hrun, hlater', hsends'⟩ :=
      ih is bus₁ (hlater.timing ▸ hfits) hlength hlater.level hattached₁ hself
    refine ⟨bus', ?_, hlater.trans hlater', hsends₁.trans hsends'⟩
    rw [List.mapM_cons, run_bind, hbyte, run_bind, hrun]
    rfl

end Bus
end OneWire
end Ecotiter
