import Ecotiter.BinaryRounding
import Ecotiter.DeviceSystem

/-!
# Parsing a command line

`parseCommand` of `command.cpp`. The JSON library is a parameter: it turns the text into a value or
refuses it. Numbers keep the three representations the library has for them, and a `float` is the
rational number that the rounding to single precision leaves.
-/

namespace Ecotiter

inductive ProtocolError
  | invalidJson | unknownCommand | missingParam
  deriving DecidableEq, Repr

def float32 : BinaryFormat := ⟨24, -149⟩
def float64 : BinaryFormat := ⟨53, -1074⟩

/-- A number of the JSON library: `is_number_unsigned`, `is_number_integer` for the negative ones,
or a double. -/
inductive JsonNumber
  | unsigned (n : UInt64)
  | integer (n : Int64)
  | float (x : ℚ)

namespace JsonNumber

def value : JsonNumber → ℚ
  | .unsigned n => n.toNat
  | .integer n => n.toInt
  | .float x => x

/-- `get<double>()`. -/
def toDouble : JsonNumber → ℚ
  | .unsigned n => float64.round n.toNat
  | .integer n => float64.round n.toInt
  | .float x => x

/-- `static_cast<float>(get<double>())`. -/
def toFloat (n : JsonNumber) : ℚ := float32.round n.toDouble

/-- `get<int32_t>()` of a number that `is_number_integer`. -/
def toInt32 : JsonNumber → Option ℤ
  | .unsigned n => some (Int.bmod n.toNat (2 ^ 32))
  | .integer n => some (Int.bmod n.toInt (2 ^ 32))
  | .float _ => none

/-- `get<uint32_t>()` of a number that `is_number_unsigned`. -/
def toUInt32 : JsonNumber → Option ℕ
  | .unsigned n => some (n.toNat % 2 ^ 32)
  | _ => none

def toUInt64 : JsonNumber → Option ℕ
  | .unsigned n => some n.toNat
  | _ => none

end JsonNumber

inductive Json
  | null
  | bool (b : Bool)
  | number (n : JsonNumber)
  | string (s : String)
  | array (elems : List Json)
  | object (fields : List (String × Json))

namespace Json

/-- `find`, which finds nothing in a value that is no object. -/
def find : Json → String → Option Json
  | .object fields, key => fields.lookup key
  | _, _ => none

def asNumber : Json → Option JsonNumber
  | .number n => some n
  | _ => none

def asString : Json → Option String
  | .string s => some s
  | _ => none

def asArray : Json → Option (List Json)
  | .array elems => some elems
  | _ => none

def numberAt (j : Json) (key : String) : Option JsonNumber := (j.find key).bind asNumber
def stringAt (j : Json) (key : String) : Option String := (j.find key).bind asString

def readFloat (j : Json) (key : String) : Option ℚ := (j.numberAt key).map JsonNumber.toFloat
def readInt (j : Json) (key : String) : Option ℤ := (j.numberAt key).bind JsonNumber.toInt32
def readU32 (j : Json) (key : String) : Option ℕ := (j.numberAt key).bind JsonNumber.toUInt32

end Json

open CommandType in
def kCmdNames : List (String × CommandType) :=
  [("burette.fill", fill), ("burette.empty", empty), ("burette.doseVolume", doseVolume),
   ("burette.rinse", rinse), ("burette.stop", stop), ("burette.emergencyStop", emergencyStop),
   ("burette.getStatus", getStatus), ("burette.status", getStatus),
   ("burette.moveSteps", moveSteps), ("burette.setDirection", setDirection),
   ("burette.setSpeed", setSpeed), ("burette.setAccel", setAccel),
   ("burette.cal.get", calGet), ("burette.cal.calcVolume", calCalcVolume),
   ("burette.cal.calcSpeed", calCalcSpeed), ("burette.cal.save", calSave),
   ("burette.cal.reset", calReset), ("burette.cal.run", calRun),
   ("burette.cal.getResult", calGetResult), ("burette.cal.runSpeedSeq", calRunSpeedSeq),
   ("burette.moveToStop", moveToStop), ("temperature.read", tempRead),
   ("adc.cal.get", adcCalGet), ("adc.cal.save", adcCalSave), ("adc.cal.measure", adcCalMeasure),
   ("adc.cal.compute", adcCalCompute), ("adc.cal.reset", adcCalReset),
   ("stallGuard.get", stallGuardGet), ("stallGuard.setThreshold", stallGuardSetThreshold),
   ("valve.setPosition", valveSetPosition), ("valve.getState", valveGetState),
   ("system.getStatus", systemGetStatus), ("system.getFormattedLogs", systemGetFormattedLogs),
   ("system.readLog", systemReadLog), ("system.firmwareVersion", systemFirmwareVersion),
   ("serial.ping", serialPing), ("ping", serialPing)]

def lookupCmdType (name : String) : Option CommandType := kCmdNames.lookup name

/-- `std::tolower` of a byte. -/
def toLower (c : UInt8) : UInt8 := if 65 ≤ c ∧ c ≤ 90 then c + 32 else c

/-- The text needs six bytes: three of a prefix, one that is skipped, and the suffix. -/
def parseDirection (j : Json) (key : String) : Option Direction := do
  let s ← j.stringAt key
  let bytes := s.toUTF8.data.toList
  if bytes.length < 6 then none
  else if (bytes.take 3).map toLower = "liq".toUTF8.data.toList then
    let suffix := ((bytes.drop 4).take 3).map toLower
    if suffix.take 2 = "in".toUTF8.data.toList then some .liqIn
    else if suffix = "out".toUTF8.data.toList then some .liqOut
    else none
  else none

def parseValvePosition (j : Json) (key : String) : Option ValvePosition := do
  let s ← j.stringAt key
  if s = "input" then some .input
  else if s = "output" then some .output
  else none

def maxMeasurements : ℕ := 16

/-- The key `freq_hz`, or `freq` where that is missing or zero. -/
def parseFreq (j : Json) : Option ℚ :=
  let freqHz := j.readFloat "freq_hz"
  if freqHz.getD 0 = 0 then (j.readFloat "freq").or freqHz else freqHz

def parseFreqs (j : Json) : List ℚ :=
  match (j.find "freqs").bind Json.asArray with
  | some elems => ((elems.filterMap Json.asNumber).map JsonNumber.toFloat).take maxMeasurements
  | none => []

def parseMeasurement (m : Json) : Option (ℚ × ℚ) := do
  let freq ← m.readFloat "freq_hz"
  let speed ← m.readFloat "speed_ml_min"
  return (freq, speed)

def parseMeasurements (j : Json) : List (ℚ × ℚ) :=
  match (j.find "measurements").bind Json.asArray with
  | some elems => (elems.filterMap parseMeasurement).take maxMeasurements
  | none => []

/-- The parameters of a command; every key is read whatever the command is. -/
def Json.command (j : Json) (type : CommandType) : Command :=
  { type
    id := ((j.numberAt "id").bind JsonNumber.toUInt64).getD 0
    volume := j.readFloat "volume"
    targetVolume := j.readFloat "targetVolume"
    steps := j.readInt "steps"
    direction := parseDirection j "direction"
    valvePos := parseValvePosition j "position"
    speed := j.readU32 "speed"
    accel := j.readU32 "accel"
    speedMlMin := j.readFloat "speed_ml_min"
    sgThreshold := (j.readU32 "threshold").map toU8
    mode := j.stringAt "mode"
    freqHz := parseFreq j
    refMv := j.readFloat "ref_mv"
    massG := j.readFloat "mass_g"
    temperature := j.readFloat "temp_c"
    pressure := j.readFloat "pressure_kpa"
    freqsArray := parseFreqs j
    measurements := parseMeasurements j }

/-- The command of a line that is valid JSON. -/
def commandOf (j : Json) : Except ProtocolError Command :=
  match j.stringAt "cmd" with
  | none => .error .missingParam
  | some cmdName =>
    match lookupCmdType cmdName with
    | none => .error .unknownCommand
    | some type => .ok (j.command type)

def parseCommand (parse : String → Option Json) (jsonStr : String) :
    Except ProtocolError Command :=
  match parse jsonStr with
  | none => .error .invalidJson
  | some j => commandOf j

theorem commandOf_eq_ok {j : Json} {cmd : Command} :
    commandOf j = .ok cmd ↔
      ∃ type, (j.stringAt "cmd").bind lookupCmdType = some type ∧ cmd = j.command type := by
  unfold commandOf
  cases j.stringAt "cmd" with
  | none => simp
  | some cmdName =>
    cases hname : lookupCmdType cmdName with
    | none => simp [hname]
    | some type => simp [hname, eq_comm]

end Ecotiter
