import Ecotiter.BleLink
import Ecotiter.NumericParameters
import Ecotiter.ResponsesComplete

/-!
# The broadcasts of the status

`broadcast.cpp` prints the state of the device for the serial port and the BLE link and, with more
members, for the web clients. The temperature and the volume are printed into arrays of 32 bytes
first. Both broadcasts are JSON objects with the members of the event.
-/

namespace Ecotiter
open BoundedOutput JsonText

structure BroadcastEvent where
  tick : ℕ
  tempCX100 : ℤ
  mv : ℕ
  vlv : ValvePosition
  brt : BuretteState
  volumeMl : Double
  speedMlMin : Double
  limitFull : Bool
  limitEmpty : Bool
  usbSerialConnected : Bool
  bleConnected : Bool
  stepperDrvConnected : Bool
  stepperDrvOtpw : Bool
  stepperDrvOt : Bool
  stallGuardValue : ℕ
  isStalled : Bool
  stallGuardThreshold : ℕ
  stepsTaken : ℕ

namespace BroadcastEvent

def valveStr : ValvePosition → String
  | .input => "in"
  | .output => "out"

def brtStsStr : BuretteState → String
  | .error => "error"
  | .homing | .filling | .emptying | .dosing | .rinsing | .stopping => "working"
  | .idle => "idle"

def boolStr (b : Bool) : String := if b then "true" else "false"

/-- What `snprintf` leaves in an array of 32 bytes. -/
def shortString (f : Format) : List UInt8 := (printf f { mem := List.replicate 32 0 }).string

section Printing
variable (evt : BroadcastEvent)

def tempFormat : Format := [.double 1 (float64.round (evt.tempCX100 / 100) : ℚ)]

def vlFormat : Format := [.float 2 evt.volumeMl]

def tempStr : List UInt8 :=
  if Config.tempSentinelCX100 < evt.tempCX100 then shortString evt.tempFormat
  else utf8 "null".toList

def vlStr : List UInt8 :=
  if evt.brt = .homing then utf8 "null".toList else shortString evt.vlFormat

def tsFormat : Format := [.text "\x7b\"ts\":", .unsigned 32 evt.tick, .text ",\"temp\":"]

def mvFormat : Format :=
  [.text ",\"mv\":", .double 1 (evt.mv : ℚ), .text ",\"vlv\":\"", .text (valveStr evt.vlv),
    .text "\",\"brt\":\x7b\"sts\":\"", .text (brtStsStr evt.brt), .text "\",\"vl\":"]

def compactEnd : Format := [.text ",\"spd\":", .float 2 evt.speedMlMin, .text "\x7d\x7d"]

def extendedEnd : Format :=
  [.text ",\"spd\":", .float 2 evt.speedMlMin, .text "\x7d,\"limitSwitch\":\x7b\"full\":",
    .text (boolStr evt.limitFull), .text ",\"empty\":", .text (boolStr evt.limitEmpty),
    .text "\x7d,\"usbSerialConnected\":", .text (boolStr evt.usbSerialConnected),
    .text ",\"bleConnected\":", .text (boolStr evt.bleConnected),
    .text ",\"stepperDrv\":\x7b\"isConnected\":", .text (boolStr evt.stepperDrvConnected),
    .text ",\"otpw\":", .text (boolStr evt.stepperDrvOtpw), .text ",\"ot\":",
    .text (boolStr evt.stepperDrvOt), .text ",\"motor\":\x7b\"stallGuard\":\x7b\"value\":",
    .unsigned 8 evt.stallGuardValue, .text ",\"isStalled\":", .text (boolStr evt.isStalled),
    .text ",\"threshold\":", .unsigned 8 evt.stallGuardThreshold,
    .text "\x7d\x7d\x7d,\"buretteSteps\":\x7b\"taken\":", .unsigned 32 evt.stepsTaken,
    .text "\x7d\x7d"]

/-- The text in the buffer, or nothing if it does not fit. -/
def serialize (rest : Format) : List UInt8 :=
  let s := utf8 evt.tsFormat.print ++ evt.tempStr ++ utf8 evt.mvFormat.print ++ evt.vlStr ++
    utf8 rest.print
  if Config.maxRspSize ≤ s.length then [] else (freshBody.snprintf s).text

/-- `serializeBroadcastCompact`. -/
def serializeBroadcastCompact : List UInt8 := evt.serialize evt.compactEnd

/-- `serializeBroadcastExtended`. -/
def serializeBroadcastExtended : List UInt8 := evt.serialize evt.extendedEnd

end Printing

/-! ## The members -/

theorem valveStr_plain (v : ValvePosition) : ∀ c ∈ (valveStr v).toList, IsPlain c := by
  cases v <;> decide

theorem brtStsStr_plain (s : BuretteState) : ∀ c ∈ (brtStsStr s).toList, IsPlain c := by
  cases s <;> decide

theorem isPlain_threshold : ∀ c ∈ "threshold".toList, IsPlain c := isPlain_literal (by decide)

def boolValue (b : Bool) : Value := .word (if b then .true else .false)

theorem boolValue_text (b : Bool) : (boolValue b).text = (boolStr b).toList := by
  cases b <;> simp [boolValue, boolStr, Word.text]

section Members
variable (evt : BroadcastEvent)

def tempValue : Value :=
  if Config.tempSentinelCX100 < evt.tempCX100 then
    doubleValue 1 (float64.round (evt.tempCX100 / 100) : ℚ)
  else .word .null

def vlValue : Value := if evt.brt = .homing then .word .null else floatValue 2 evt.volumeMl

def buretteValue : Value :=
  .object [(plain "sts", stringValue (brtStsStr evt.brt) (brtStsStr_plain evt.brt)),
    (plain "vl", evt.vlValue), (plain "spd", floatValue 2 evt.speedMlMin)]

def compactMembers : List (List Piece × Value) :=
  [(plain "ts", unsignedValue 32 evt.tick), (plain "temp", evt.tempValue),
    (plain "mv", doubleValue 1 (evt.mv : ℚ)),
    (plain "vlv", stringValue (valveStr evt.vlv) (valveStr_plain evt.vlv)),
    (plain "brt", evt.buretteValue)]

def stallGuardValues : Value :=
  .object [(plain "value", unsignedValue 8 evt.stallGuardValue),
    (plain "isStalled", boolValue evt.isStalled),
    (plain "threshold" isPlain_threshold, unsignedValue 8 evt.stallGuardThreshold)]

def driverValue : Value :=
  .object [(plain "isConnected", boolValue evt.stepperDrvConnected),
    (plain "otpw", boolValue evt.stepperDrvOtpw), (plain "ot", boolValue evt.stepperDrvOt),
    (plain "motor", .object [(plain "stallGuard", evt.stallGuardValues)])]

def extendedMembers : List (List Piece × Value) :=
  evt.compactMembers ++
    [(plain "limitSwitch", .object [(plain "full", boolValue evt.limitFull),
      (plain "empty", boolValue evt.limitEmpty)]),
    (plain "usbSerialConnected", boolValue evt.usbSerialConnected),
    (plain "bleConnected", boolValue evt.bleConnected), (plain "stepperDrv", evt.driverValue),
    (plain "buretteSteps", .object [(plain "taken", unsignedValue 32 evt.stepsTaken)])]

end Members

/-- Values in the ranges of their variables, a finite speed, and a volume that can be printed. -/
structure Printable (evt : BroadcastEvent) : Prop where
  temp : |evt.tempCX100| ≤ 2 ^ 31
  mv : evt.mv < 2 ^ 16
  speed : (evt.speedMlMin.within floatLimit).isFinite = true
  volume : evt.brt ≠ .homing → ∃ v : ℚ, evt.volumeMl = v ∧ |v| + 1 ≤ 10 ^ 27

/-! ## The texts -/

theorem shortString_eq {f : Format} (hf : ∀ c ∈ f, c.IsFinite) (hfit : (utf8 f.chars).length < 32)
    (hascii : ∀ c ∈ f.chars, IsAscii c) : shortString f = utf8 f.chars := by
  have hempty : Output.Holds { mem := List.replicate 32 0 } 32 [] :=
    Output.holds_empty List.length_replicate
  have hroom : ([] : List UInt8).length + (utf8 f.chars).length < 32 := by
    rwa [List.length_nil, Nat.zero_add]
  have hstring := hempty.snprintf_string hroom (zero_notMem_utf8 hascii)
  rw [shortString, printf, Format.print_eq hf, hstring, List.nil_append]

theorem length_utf8_fixed_le {k j : ℕ} {x : ℚ} (hj : 0 < j) (h : |x| + 1 ≤ 10 ^ j) :
    (utf8 (DecimalText.fixed k x)).length ≤ j + k + 2 := by
  rw [length_utf8_of_isAscii (isAscii_fixed k x)]
  exact DecimalText.length_fixed_le hj h

theorem within_of_small {x limit : ℚ} {j : ℕ} (h : |x| + 1 ≤ 10 ^ j)
    (hlimit : (10 : ℚ) ^ j ≤ limit) : (Double.finite x).within limit = .finite x := by
  have hpos : (0 : ℚ) < 10 ^ j := by positivity
  have hup : ¬ limit ≤ x := by
    have hlt : x < 10 ^ j := lt_of_lt_of_le (lt_add_one x)
      ((add_le_add_left (le_abs_self x) 1).trans h)
    exact not_le.mpr (hlt.trans_le hlimit)
  have hdown : ¬ x ≤ -limit := by
    have hlt : -x < 10 ^ j := lt_of_lt_of_le (lt_add_one (-x))
      ((add_le_add_left (neg_le_abs x) 1).trans h)
    linarith
  rw [Double.within, if_neg hup, if_neg hdown]

theorem doubleLimit_large : (10 : ℚ) ^ 9 ≤ doubleLimit := by
  have hsplit : doubleLimit = 2 ^ 970 * (2 ^ 54 - 1) := by
    rw [doubleLimit, mul_sub, mul_one, ← pow_add]
  have hpow : (2 : ℚ) ^ 30 ≤ 2 ^ 970 := pow_le_pow_right₀ one_le_two (by norm_num)
  have hmul := mul_le_mul_of_nonneg_right hpow (by norm_num : (0 : ℚ) ≤ 2 ^ 54 - 1)
  rw [hsplit]
  exact le_trans (by norm_num) hmul

theorem floatLimit_large : (10 : ℚ) ^ 27 ≤ floatLimit := by norm_num [floatLimit]

/-- A number with few digits is printed whole into an array of 32 bytes. -/
theorem shortString_fixed {c : Directive} {k j : ℕ} {x : ℚ} (hfinite : c.IsFinite)
    (hchars : c.chars = DecimalText.fixed k x) (hj : 0 < j) (hx : |x| + 1 ≤ 10 ^ j)
    (hfit : j + k + 2 < 32) : shortString [c] = utf8 (DecimalText.fixed k x) := by
  have htext : Format.chars [c] = DecimalText.fixed k x := by
    rw [Format.chars, List.flatMap_cons, List.flatMap_nil, List.append_nil, hchars]
  have hall : ∀ d ∈ ([c] : Format), d.IsFinite := by
    intro d hd
    rw [List.mem_singleton.mp hd]
    exact hfinite
  have hlength : (utf8 (Format.chars [c])).length < 32 := by
    rw [htext]
    exact (length_utf8_fixed_le hj hx).trans_lt hfit
  have hascii : ∀ c' ∈ Format.chars [c], IsAscii c' := by
    rw [htext]
    exact isAscii_fixed _ _
  rw [shortString_eq hall hlength hascii, htext]

theorem boolStr_size (b : Bool) : (boolStr b).utf8ByteSize ≤ 5 := by
  cases b <;> decide

theorem valveStr_size (v : ValvePosition) : (valveStr v).utf8ByteSize ≤ 3 := by
  cases v <;> decide

theorem brtStsStr_size (s : BuretteState) : (brtStsStr s).utf8ByteSize ≤ 7 := by
  cases s <;> decide

theorem text_compact (evt : BroadcastEvent) :
    evt.tsFormat.chars ++ evt.tempValue.text ++ evt.mvFormat.chars ++ evt.vlValue.text ++
      evt.compactEnd.chars = (Written.object evt.compactMembers).text := by
  simp [-String.reduceToList, compactMembers, buretteValue, tsFormat, mvFormat, compactEnd,
    Format.chars, Directive.chars, Written.memberText]
  repeat rw [String.toList_ofList]
  simp

theorem text_extended (evt : BroadcastEvent) :
    evt.tsFormat.chars ++ evt.tempValue.text ++ evt.mvFormat.chars ++ evt.vlValue.text ++
      evt.extendedEnd.chars = (Written.object evt.extendedMembers).text := by
  simp [-String.reduceToList, extendedMembers, compactMembers, buretteValue, driverValue,
    stallGuardValues, boolValue_text, tsFormat, mvFormat, extendedEnd, Format.chars,
    Directive.chars, Written.memberText]
  repeat rw [String.toList_ofList]
  simp

theorem finite_tsFormat (evt : BroadcastEvent) : ∀ c ∈ evt.tsFormat, c.IsFinite := by
  simp [tsFormat, Directive.IsFinite]

theorem bound_compactEnd (evt : BroadcastEvent) : evt.compactEnd.bound ≤ 1000 := by
  change Format.bound [.text ",\"spd\":", .float 2 .nan, .text "\x7d\x7d"] ≤ 1000
  decide

theorem bound_extendedEnd (evt : BroadcastEvent) : evt.extendedEnd.bound ≤ 1000 := by
  have hflag : ∀ b, (boolStr b).utf8ByteSize ≤ "false".utf8ByteSize := boolStr_size
  have hlongest : Format.bound [.text ",\"spd\":", .float 2 .nan,
      .text "\x7d,\"limitSwitch\":\x7b\"full\":", .text "false", .text ",\"empty\":",
      .text "false", .text "\x7d,\"usbSerialConnected\":", .text "false",
      .text ",\"bleConnected\":", .text "false", .text ",\"stepperDrv\":\x7b\"isConnected\":",
      .text "false", .text ",\"otpw\":", .text "false", .text ",\"ot\":", .text "false",
      .text ",\"motor\":\x7b\"stallGuard\":\x7b\"value\":", .unsigned 8 0,
      .text ",\"isStalled\":", .text "false", .text ",\"threshold\":", .unsigned 8 0,
      .text "\x7d\x7d\x7d,\"buretteSteps\":\x7b\"taken\":", .unsigned 32 0,
      .text "\x7d\x7d"] ≤ 1000 := by decide
  refine le_trans (List.Forall₂.sum_le_sum ?_) hlongest
  simp only [extendedEnd, List.map_cons, List.map_nil, List.forall₂_cons, List.Forall₂.nil, hflag,
    Directive.bound, le_refl, and_self]

section Texts
variable {evt : BroadcastEvent} (h : evt.Printable)
include h

theorem Printable.tempBound : |float64.round ((evt.tempCX100 : ℚ) / 100)| + 1 ≤ 10 ^ 9 := by
  have hrange : |(evt.tempCX100 : ℚ)| ≤ 2 ^ 31 := by exact_mod_cast h.temp
  have habs : |(evt.tempCX100 : ℚ) / 100| ≤ 2 ^ 31 / 100 := by
    rw [abs_div, abs_of_pos (by norm_num : (0 : ℚ) < 100)]
    exact div_le_div_of_nonneg_right hrange (by norm_num)
  have hclose := round_close (f := float64) (by decide) (by decide) ((evt.tempCX100 : ℚ) / 100)
  have htriangle := abs_sub_abs_le_abs_sub (float64.round ((evt.tempCX100 : ℚ) / 100))
    ((evt.tempCX100 : ℚ) / 100)
  norm_num at hclose habs ⊢
  linarith

theorem Printable.tempStr_eq : evt.tempStr = utf8 evt.tempValue.text := by
  have hwithin := within_of_small h.tempBound doubleLimit_large
  rw [tempStr, tempValue]
  by_cases htemp : Config.tempSentinelCX100 < evt.tempCX100
  · have hchars : (Directive.double 1 (float64.round (evt.tempCX100 / 100) : ℚ)).chars =
        DecimalText.fixed 1 (float64.round ((evt.tempCX100 : ℚ) / 100)) := by
      simp only [Directive.chars, hwithin, Double.value]
    have hfinite : (Directive.double 1 (float64.round (evt.tempCX100 / 100) : ℚ)).IsFinite := by
      rw [Directive.IsFinite, hwithin]
      rfl
    have hprinted := shortString_fixed hfinite hchars (by norm_num) h.tempBound (by norm_num)
    rw [if_pos htemp, if_pos htemp, doubleValue_text, hwithin]
    exact hprinted
  · rw [if_neg htemp, if_neg htemp, Written.text_word]
    rfl

theorem Printable.vlStr_eq : evt.vlStr = utf8 evt.vlValue.text := by
  rw [vlStr, vlValue]
  by_cases hhoming : evt.brt = .homing
  · rw [if_pos hhoming, if_pos hhoming, Written.text_word]
    rfl
  · obtain ⟨v, hv, hbound⟩ := h.volume hhoming
    have hwithin := within_of_small hbound floatLimit_large
    have hchars : (Directive.float 2 v).chars = DecimalText.fixed 2 v := by
      simp only [Directive.chars, hwithin, Double.value]
    have hfinite : (Directive.float 2 v).IsFinite := by
      rw [Directive.IsFinite, hwithin]
      rfl
    have hprinted := shortString_fixed hfinite hchars (by norm_num) hbound (by norm_num)
    rw [if_neg hhoming, if_neg hhoming, floatValue_text, vlFormat, hv, hwithin]
    exact hprinted

theorem Printable.length_temp : (utf8 evt.tempValue.text).length ≤ 12 := by
  rw [tempValue]
  split
  · have hlength := length_utf8_fixed_le (k := 1) (by norm_num) h.tempBound
    rw [doubleValue_text, within_of_small h.tempBound doubleLimit_large]
    exact hlength
  · rw [Written.text_word]
    decide

theorem Printable.length_vl : (utf8 evt.vlValue.text).length ≤ 31 := by
  rw [vlValue]
  split
  · rw [Written.text_word]
    decide
  · next hhoming =>
    obtain ⟨v, hv, hbound⟩ := h.volume hhoming
    have hlength := length_utf8_fixed_le (k := 2) (by norm_num) hbound
    rw [floatValue_text, hv, within_of_small hbound floatLimit_large]
    exact hlength

theorem Printable.finite_mv : ∀ c ∈ evt.mvFormat, c.IsFinite := by
  have hmv : |(evt.mv : ℚ)| + 1 ≤ 10 ^ 9 := by
    have hcast : (evt.mv : ℚ) < 2 ^ 16 := by exact_mod_cast h.mv
    rw [Nat.abs_cast]
    linarith
  have hwithin := within_of_small hmv doubleLimit_large
  simp [mvFormat, Directive.IsFinite, hwithin, Double.isFinite]

theorem Printable.finite_compactEnd : ∀ c ∈ evt.compactEnd, c.IsFinite := by
  simpa [compactEnd, Directive.IsFinite] using h.speed

theorem Printable.finite_extendedEnd : ∀ c ∈ evt.extendedEnd, c.IsFinite := by
  simpa [extendedEnd, Directive.IsFinite] using h.speed

theorem Printable.length_lt {rest : Format} (hfinite : ∀ c ∈ rest, c.IsFinite)
    (hbound : rest.bound ≤ 1000) :
    (utf8 (evt.tsFormat.chars ++ evt.tempValue.text ++ evt.mvFormat.chars ++ evt.vlValue.text ++
      rest.chars)).length < Config.maxRspSize := by
  have htsBound : evt.tsFormat.bound ≤ 30 := by
    change Format.bound [.text "\x7b\"ts\":", .unsigned 32 0, .text ",\"temp\":"] ≤ 30
    decide
  have hmvBound : evt.mvFormat.bound ≤ 400 := by
    have hvalve := valveStr_size evt.vlv
    have hstate := brtStsStr_size evt.brt
    have hrest : Format.bound [.text ",\"mv\":", .double 1 .nan, .text ",\"vlv\":\"",
        .text "\",\"brt\":\x7b\"sts\":\"", .text "\",\"vl\":"] ≤ 350 := by decide
    simp only [mvFormat, Format.bound, Directive.bound, List.map_cons, List.map_nil, List.sum_cons,
      List.sum_nil] at hrest ⊢
    omega
  have hlengthTs := (Format.length_chars_le evt.finite_tsFormat).trans htsBound
  have hlengthTemp := h.length_temp
  have hlengthMv := (Format.length_chars_le h.finite_mv).trans hmvBound
  have hlengthVl := h.length_vl
  have hlengthRest := (Format.length_chars_le hfinite).trans hbound
  have hsize : Config.maxRspSize = 2048 := rfl
  simp only [utf8_append, List.length_append]
  omega

/-- A broadcast whose last part is short is the text of its parts. -/
theorem Printable.serialize_eq {rest : Format} (hfinite : ∀ c ∈ rest, c.IsFinite)
    (hbound : rest.bound ≤ 1000) :
    evt.serialize rest = utf8 (evt.tsFormat.chars ++ evt.tempValue.text ++ evt.mvFormat.chars ++
      evt.vlValue.text ++ rest.chars) := by
  have htext : utf8 evt.tsFormat.print ++ evt.tempStr ++ utf8 evt.mvFormat.print ++ evt.vlStr ++
      utf8 rest.print = utf8 (evt.tsFormat.chars ++ evt.tempValue.text ++ evt.mvFormat.chars ++
        evt.vlValue.text ++ rest.chars) := by
    rw [Format.print_eq evt.finite_tsFormat, Format.print_eq h.finite_mv, Format.print_eq hfinite,
      h.tempStr_eq, h.vlStr_eq, utf8_append, utf8_append, utf8_append, utf8_append]
  have hshort := h.length_lt hfinite hbound
  have hprinted := prints_freshBody.holds.snprintf (s := utf8 (evt.tsFormat.chars ++
    evt.tempValue.text ++ evt.mvFormat.chars ++ evt.vlValue.text ++ rest.chars)) (by
      rw [utf8, List.flatMap_nil, List.length_nil, Nat.zero_add]
      exact hshort)
  rw [serialize, htext, if_neg (Nat.not_le.mpr hshort), hprinted.text]
  rfl

theorem Printable.compact_eq :
    evt.serializeBroadcastCompact = utf8 (Written.object evt.compactMembers).text := by
  rw [serializeBroadcastCompact, h.serialize_eq h.finite_compactEnd evt.bound_compactEnd,
    text_compact]

theorem Printable.extended_eq :
    evt.serializeBroadcastExtended = utf8 (Written.object evt.extendedMembers).text := by
  rw [serializeBroadcastExtended, h.serialize_eq h.finite_extendedEnd evt.bound_extendedEnd,
    text_extended]

/-- The compact broadcast is a text as the BLE link takes it. -/
theorem Printable.bleText : ∃ t : Ble.Text, t.bytes = evt.serializeBroadcastCompact := by
  have hlength := h.length_lt h.finite_compactEnd evt.bound_compactEnd
  rw [serializeBroadcastCompact, h.serialize_eq h.finite_compactEnd evt.bound_compactEnd]
  exact ⟨⟨_, rfl, hlength⟩, rfl⟩

end Texts

end BroadcastEvent

/-! ## The events of the main loop -/

/-- What the variables hold in a turn of the main loop. -/
structure Readings where
  tempCX100 : Int32
  lastMv : UInt16
  valvePosition : ValvePosition
  buretteState : BuretteState
  volumeMl : Double
  speed : UInt32
  stopFull : Bool
  stopEmpty : Bool
  usbHandshakeReceived : Bool
  bleConnected : Bool
  stallGuardThreshold : UInt8
  dispensedSteps : UInt32

namespace Readings

def event (r : Readings) (gTick : UInt32) : BroadcastEvent where
  tick := gTick.toNat
  tempCX100 := r.tempCX100.toInt
  mv := r.lastMv.toNat
  vlv := r.valvePosition
  brt := r.buretteState
  volumeMl := r.volumeMl
  speedMlMin := .finite (if 0 < r.speed then 10 else 0)
  limitFull := r.stopFull
  limitEmpty := r.stopEmpty
  usbSerialConnected := r.usbHandshakeReceived
  bleConnected := r.bleConnected
  stepperDrvConnected := true
  stepperDrvOtpw := false
  stepperDrvOt := false
  stallGuardValue := 0
  isStalled := false
  stallGuardThreshold := r.stallGuardThreshold.toNat
  stepsTaken := r.dispensedSteps.toNat

/-- The volume is finite and fits the array it is printed into, unless it is not printed. -/
def HasVolume (r : Readings) : Prop :=
  r.buretteState ≠ .homing → ∃ v : ℚ, r.volumeMl = v ∧ |v| + 1 ≤ 10 ^ 27

theorem HasVolume.printable {r : Readings} (h : r.HasVolume) (gTick : UInt32) :
    (r.event gTick).Printable where
  temp := by
    have hlo := r.tempCX100.le_toInt
    have hhi := r.tempCX100.toInt_lt
    show |r.tempCX100.toInt| ≤ 2 ^ 31
    rw [abs_le]
    omega
  mv := r.lastMv.toNat_lt
  speed := by
    have hlimit : (10 : ℚ) ^ 2 ≤ floatLimit :=
      le_trans (by norm_num) BroadcastEvent.floatLimit_large
    have hsmall : |if 0 < r.speed then (10 : ℚ) else 0| + 1 ≤ 10 ^ 2 := by
      split <;> norm_num
    show ((Double.finite _).within floatLimit).isFinite = true
    rw [BroadcastEvent.within_of_small hsmall hlimit]
    rfl
  volume := h

/-- The burette is homing, and no temperature has been read. -/
def homing : Readings :=
  ⟨-99999, 700, .input, .homing, .nan, 0, false, true, true, false, 0, 12⟩

theorem hasVolume_homing : homing.HasVolume := fun h => absurd rfl h

def homingText : List Char :=
  ("\x7b\"ts\":30,\"temp\":null,\"mv\":700.0,\"vlv\":\"in\"," ++
    "\"brt\":\x7b\"sts\":\"working\",\"vl\":null,\"spd\":0.00\x7d\x7d").toList

theorem text_homing : (Written.object (homing.event 30).compactMembers).text = homingText := by
  decide +kernel

end Readings

/-- Every broadcast of values in their ranges is the JSON object with the members of the event, on
the serial port and for the web clients. -/
theorem BroadcastEvent.broadcasts_are_objects {evt : BroadcastEvent} (h : evt.Printable) :
    evt.serializeBroadcastCompact = utf8 (Written.object evt.compactMembers).text ∧
      evt.serializeBroadcastExtended = utf8 (Written.object evt.extendedMembers).text ∧
      IsObject (Written.object evt.compactMembers).text ∧
      IsObject (Written.object evt.extendedMembers).text :=
  ⟨h.compact_eq, h.extended_eq, Written.isObject_object _, Written.isObject_object _⟩

theorem BroadcastEvent.broadcasts_are_objects_homing :
    (Readings.homing.event 30).serializeBroadcastCompact = utf8 Readings.homingText ∧
      IsObject Readings.homingText := by
  have hobjects := broadcasts_are_objects (Readings.hasVolume_homing.printable 30)
  rw [Readings.text_homing] at hobjects
  exact ⟨hobjects.1, hobjects.2.2.1⟩

end Ecotiter
