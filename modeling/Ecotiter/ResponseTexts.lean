import Ecotiter.AdcFit
import Ecotiter.AdcReadout
import Ecotiter.BoundedOutput
import Ecotiter.DecimalText
import Ecotiter.DeviceSystem

/-!
# The texts of the responses

The builders of `command.cpp` and the handlers print a response with `snprintf` into an array of
`MAX_RSP_SIZE` bytes. `serializeToBuffer` puts the id in front of its members, and the cores of
`rest_api.cpp` fill the buffers of the HTTP replies.
-/

namespace Ecotiter
open BoundedOutput

namespace Config

def maxRspSize : ℕ := 2048
def tempSentinelCX100 : ℤ := -99999

end Config

/-! ## Formats -/

instance : Coe ℚ Double := ⟨.finite⟩

/-- From half a unit above the largest number of the type on, the value is an infinity. -/
def Double.within (limit : ℚ) : Double → Double
  | .finite x => if limit ≤ x then .posInf else if x ≤ -limit then .negInf else .finite x
  | x => x

def floatLimit : ℚ := 2 ^ 128 - 2 ^ 103

def doubleLimit : ℚ := 2 ^ 1024 - 2 ^ 970

/-- `%.kf`. -/
def Double.fixed (k : ℕ) : Double → List Char
  | .finite x => DecimalText.fixed k x
  | .posInf => ['i', 'n', 'f']
  | .negInf => ['-', 'i', 'n', 'f']
  | .nan => ['n', 'a', 'n']

/-- A part of a format with its argument; an integer is converted to a type with so many bits. -/
inductive Directive
  | text (s : String)
  | unsigned (bits n : ℕ)
  | signed (bits : ℕ) (z : ℤ)
  | float (k : ℕ) (x : Double)
  | double (k : ℕ) (x : Double)

def Directive.print : Directive → List Char
  | .text s => s.toList
  | .unsigned bits n => DecimalText.natural (n % 2 ^ bits)
  | .signed bits z => DecimalText.integer (z.bmod (2 ^ bits))
  | .float k x => (x.within floatLimit).fixed k
  | .double k x => (x.within doubleLimit).fixed k

abbrev Format := List Directive

def Format.print (f : Format) : List Char := f.flatMap Directive.print

def printf (f : Format) (o : Output) : Output := o.snprintf (utf8 f.print)

def putChar (c : Char) (o : Output) : Output := o.copy (utf8 [c])

/-! ## The builders -/

def freshBody : Output := { mem := List.replicate Config.maxRspSize 0 }

/-- The body closed by a brace where there is room for it. -/
def closed (o : Output) : Output :=
  if o.off < o.mem.length - 1 then putChar '\x7d' o else o

/-- The body closed by two braces where there is room for one. -/
def closedTwice (o : Output) : Output :=
  if o.off < o.mem.length - 1 then putChar '\x7d' (putChar '\x7d' o) else o

def printSingle (payload : Format) : Output :=
  printf (.text "\x7b\"status\":\"ok\",\"data\":" :: payload ++ [.text "\x7d"]) freshBody

def errorOpening : Format := [.text "\x7b\"status\":\"error\",\"message\":\""]

/-- The loop of `makeErrorResponse`. -/
def escapeInto : List UInt8 → Output → Output
  | [], o => o
  | c :: message, o =>
    if o.off < o.mem.length - 2 then
      escapeInto message
        ((if c = 34 ∨ c = 92 then o.copy [92] else o).copy [c])
    else o

def printError (message : List UInt8) : Output :=
  let o := escapeInto message (printf errorOpening freshBody)
  if o.off < o.mem.length - 1 then putChar '\x7d' (putChar '"' o) else o

def printAckThen : Output :=
  printf [.text "\x7b\"status\":\"ok\",\"data\":\x7b\"status\":\"accepted\"\x7d\x7d"] freshBody

def BuretteState.str : BuretteState → String
  | .idle => "idle"
  | .homing => "homing"
  | .filling => "filling"
  | .emptying => "emptying"
  | .dosing => "dosing"
  | .rinsing => "rinsing"
  | .stopping => "stopping"
  | .error => "error"

/-- The state in a status. -/
def BuretteState.shown (state : BuretteState) : String :=
  if state = .homing then "working" else state.str

def statusFormat (state : BuretteState) (volumeMl : Option ℚ) : Format :=
  match volumeMl with
  | none =>
    [.text "\"status\":\"", .text state.shown, .text "\",\"volume_ml\":null,\"speed_ml_min\":",
      .double 1 (0 : ℚ)]
  | some volumeMl =>
    [.text "\"status\":\"", .text state.shown, .text "\",\"volume_ml\":", .float 2 volumeMl,
      .text ",\"speed_ml_min\":", .double 1 (0 : ℚ)]

/-- `serializeStatusJson`; the offset stays inside. -/
def serializeStatusJson (state : BuretteState) (volumeMl : Option ℚ) (o : Output) : Output :=
  if Config.maxRspSize ≤ o.off then o
  else
    let o := printf (statusFormat state volumeMl) o
    if Config.maxRspSize ≤ o.off then { o with off := Config.maxRspSize - 1 } else o

def dataOpening : Format := [.text "\x7b\"status\":\"ok\",\"data\":\x7b"]

def printStatus (state : BuretteState) (volumeMl : Option ℚ) : Output :=
  (closedTwice (serializeStatusJson state volumeMl (printf dataOpening freshBody))).terminate

/-- `makeCalResponse`. -/
def printCal (f : Format) : Output :=
  (closed (printf [.text "\x7d"] (printf f (printf dataOpening freshBody)))).terminate

/-! ## The handlers -/

def calibrationFormat (stepsPerMl nominalVolumeMl speedCoeff : ℚ) (minFreqHz maxFreqHz : ℕ) :
    Format :=
  [.text "\"steps_per_ml\":", .float 1 stepsPerMl,
    .text ",\"nominal_vol\":", .float 2 nominalVolumeMl,
    .text ",\"speed_coeff\":", .float 5 speedCoeff,
    .text ",\"min_freq\":", .unsigned 16 minFreqHz,
    .text ",\"max_freq\":", .unsigned 16 maxFreqHz, .text ",\"is_default\":true\x7d"]

def volumeCalibrationFormat (zFactor actualVolumeMl newStepsPerMl : ℚ)
    (relativeErrorPct : Double) : Format :=
  [.text "\"z_factor\":", .float 6 zFactor, .text ",\"actual_volume_ml\":", .float 4 actualVolumeMl,
    .text ",\"new_steps_per_ml\":", .float 1 newStepsPerMl,
    .text ",\"relative_error_pct\":", .float 2 relativeErrorPct]

def speedCalibrationFormat (k rSquared : ℚ) (minFreqHz maxFreqHz : ℕ) : Format :=
  [.text "\"k\":", .float 6 k, .text ",\"r_squared\":", .float 4 rSquared,
    .text ",\"min_freq\":", .unsigned 16 minFreqHz,
    .text ",\"max_freq\":", .unsigned 16 maxFreqHz]

def savedCalibrationFormat (stepsPerMl nominalVolumeMl : ℚ) : Format :=
  [.text "\"stepsPerMl\":", .float 1 stepsPerMl,
    .text ",\"nominalVolume\":", .float 1 nominalVolumeMl]

/-- The measured speeds, with a comma before each but the first. -/
def resultsFormats (r : SmResult) : List Format :=
  (List.range (min r.resultCount 3)).flatMap fun i =>
    (if 0 < i then [[.text ","]] else []) ++ [[.float 2 (r.results.getD i 0)]]

/-- What `handleGetCalResult` prints after `"result":"ok"`, call by call. -/
def calResultFormats (r : SmResult) : List Format :=
  match r.type with
  | .rinseComplete => [[.text ",\"resultType\":\"rinse\""]]
  | .calDoseComplete =>
    [[.text ",\"resultType\":\"cal_dose\",\"stepsTaken\":", .signed 32 r.stepsTaken]]
  | .calSpeedComplete =>
    [[.text ",\"resultType\":\"cal_speed\",\"speedMlMin\":", .float 2 r.measuredSpeedMlMin]]
  | .calSpeedSeqComplete =>
    [.text ",\"resultType\":\"cal_speed_seq\",\"results\":["] :: resultsFormats r ++ [[.text "]"]]
  | _ => [[.text ",\"resultType\":\"error\""]]

def calResultOpening : Format := [.text "\x7b\"status\":\"ok\",\"data\":\x7b\"result\":\"ok\""]

def printCalResult : Option SmResult → Output
  | none =>
    printf [.text "\x7b\"status\":\"ok\",\"data\":\x7b\"result\":\"no_result\"\x7d\x7d"] freshBody
  | some r =>
    closedTwice ((calResultFormats r).foldl (fun o f => printf f o)
      (printf calResultOpening freshBody))

def ValvePosition.str : ValvePosition → String
  | .input => "input"
  | .output => "output"

def ResponseBody.print : ResponseBody → Output
  | .status payload => printSingle [.text payload]
  | .error message => printError (utf8 message.toList)
  | .accepted => printAckThen
  | .position pos =>
    printf [.text "\x7b\"status\":\"ok\",\"data\":\x7b\"position\":\"", .text pos.str,
      .text "\"\x7d\x7d"] freshBody
  | .buretteStatus state volumeMl => printStatus state volumeMl
  | .calibration stepsPerMl nominalVolumeMl speedCoeff minFreqHz maxFreqHz =>
    closed (printf (calibrationFormat stepsPerMl nominalVolumeMl speedCoeff minFreqHz maxFreqHz)
      (printf dataOpening freshBody))
  | .volumeCalibration zFactor actualVolumeMl newStepsPerMl relativeErrorPct =>
    printCal (volumeCalibrationFormat zFactor actualVolumeMl newStepsPerMl relativeErrorPct)
  | .speedCalibration k rSquared minFreqHz maxFreqHz =>
    printCal (speedCalibrationFormat k rSquared minFreqHz maxFreqHz)
  | .savedCalibration stepsPerMl nominalVolumeMl =>
    printCal (savedCalibrationFormat stepsPerMl nominalVolumeMl)
  | .calResult result => printCalResult result
  | .registersQueued => printf [.text "\x7b\"status\":\"accepted\"\x7d"] freshBody
  | .threshold value =>
    printf [.text "\x7b\"cmd\":\"stallGuard.setThreshold\",\"threshold\":", .unsigned 8 value,
      .text "\x7d"] freshBody
  | .elsewhere => freshBody

/-- A response of any handler. -/
inductive Reply
  | body (b : ResponseBody)
  | temperature (tempCX100 : ℤ)
  | adcReport (report : AdcCalReport)
  | adcSaved (aX1000 : UInt16) (b : Int16)
  | adcMeasured (index median : ℕ)
  | adcComputed (a : Double) (b : Int16) (rSquared : ℚ)
  | adcReset
  | formattedLogs
  | logEntries
  | firmwareVersion
  | ping
  deriving DecidableEq

namespace Reply

def pointFormat (p : ℚ × ℕ) : Format :=
  [.text "\x7b\"ref_mv\":", .float 1 p.1, .text ",\"raw_mv\":", .unsigned 16 p.2,
    .text "\x7d"]

/-- The points of `handleAdcCalGet`, call by call. -/
def pointsFormats : List (ℚ × ℕ) → List Format
  | [] => []
  | p :: ps => pointFormat p :: ps.flatMap fun p => [[.text ","], pointFormat p]

def printPoints (points : List (ℚ × ℕ)) : Output :=
  printf [.text "]"] ((pointsFormats points).foldl (fun o f => printf f o)
    (printf [.text "["] { mem := List.replicate 384 0 }))

def reportFormat (report : AdcCalReport) : Format × Format :=
  ([.text "\x7b\"cmd\":\"adc.cal.get\",\"status\":\"ok\",\"a\":", .float 6 report.a,
    .text ",\"b\":", .signed 16 report.b.toInt,
    .text ",\"r_squared\":0.0,\"calibrated_at\":null,\"is_default\":",
    .text (if report.isDefault then "true" else "false"), .text ",\"points\":"],
   [.text ",\"raw_mv\":", .unsigned 16 report.rawMv,
    .text ",\"calibrated_mv\":", .signed 16 report.calibratedMv.toInt, .text "\x7d"])

/-- One `snprintf`, to which the points are passed as a string. -/
def printReport (report : AdcCalReport) : Output :=
  let points := printPoints report.points
  let f := reportFormat report
  let o := freshBody.snprintf (utf8 f.1.print ++ points.string ++ utf8 f.2.print)
  { o with inside := o.inside && points.inside }

def temperatureC (tempCX100 : ℤ) : ℚ :=
  if Config.tempSentinelCX100 < tempCX100 then tempCX100 / 100 else 0

def print : Reply → Output
  | .body b => b.print
  | .temperature tempCX100 =>
    printf [.text "\x7b\"cmd\":\"temperature.read\",\"temperature\":",
      .float 1 (temperatureC tempCX100), .text "\x7d"] freshBody
  | .adcReport report => printReport report
  | .adcSaved aX1000 b =>
    printf [.text "\x7b\"cmd\":\"adc.cal.save\",\"status\":\"ok\",\"aX1000\":",
      .unsigned 16 aX1000.toNat, .text ",\"b\":", .signed 16 b.toInt, .text "\x7d"] freshBody
  | .adcMeasured index median =>
    printf [.text "\x7b\"status\":\"ok\",\"point\":", .unsigned 32 index,
      .text ",\"voltage_mV\":", .unsigned 16 median, .text "\x7d"] freshBody
  | .adcComputed a b rSquared =>
    printf [.text "\x7b\"status\":\"ok\",\"data\":\x7b\"a\":", .double 6 a, .text ",\"b\":",
      .signed 16 b.toInt, .text ",\"r_squared\":", .double 4 rSquared, .text "\x7d\x7d"] freshBody
  | .adcReset => printf [.text "\x7b\"status\":\"ok\"\x7d"] freshBody
  | .formattedLogs =>
    printf [.text "\x7b\"cmd\":\"system.getFormattedLogs\",\"logs\":[]\x7d"] freshBody
  | .logEntries => printf [.text "\x7b\"cmd\":\"system.readLog\",\"entries\":[]\x7d"] freshBody
  | .firmwareVersion =>
    printf [.text "\x7b\"cmd\":\"system.firmwareVersion\",\"version\":\"0.1.0\"\x7d"] freshBody
  | .ping => printSingle [.text "\x7b\"status\":\"ok\"\x7d"]

end Reply

/-! ## The buffers -/

/-- The text that goes in front of the members of the body. -/
def printId (id : ℕ) : Output :=
  printf [.text "\x7b\"id\":", .unsigned 64 id, .text ","] { mem := List.replicate 32 0 }

/-- What stands in for an empty body. -/
def printKind (kind : ResponseKind) (buf : Output) : Output :=
  match kind with
  | .single => printf [.text "\x7b\x7d"] buf
  | .error => printf [.text "\x7b\"status\":\"error\",\"message\":\"unknown\"\x7d"] buf
  | .ackThen =>
    printf [.text "\x7b\"status\":\"ok\",\"data\":\x7b\"status\":\"accepted\"\x7d\x7d"] buf
  | .noResponse => buf

/-- The buffer with its offset at the size that is returned. -/
def serializeToBuffer (kind : ResponseKind) (id : ℕ) (body : Output) (buf : Output) : Output :=
  if kind = .noResponse then buf.terminate
  else if 0 < body.off ∧ body.off ≤ buf.mem.length then
    if id ≠ 0 ∧ body.mem.head? = some 123 ∧
        (printId id).off + body.off - 1 < buf.mem.length then
      ((buf.copy (printId id).text).copy (body.text.drop 1)).terminate
    else (buf.copy body.text).terminate
  else printKind kind buf

namespace Rest

def handlePingCore (buf : Output) : Output := printf [.text "\x7b\"status\":\"ok\"\x7d"] buf

def handleStatusCore (state : BuretteState) (volumeMl : ℚ) (buf : Output) : Output :=
  serializeStatusJson state (if state = .homing then none else some volumeMl) buf

/-- The reply to a request that is no command, or to one that is. -/
def handleCommandCore (answer : Option (ResponseKind × ℕ × Reply)) (buf : Output) : Output :=
  match answer with
  | none => printf [.text "\x7b\"status\":\"error\",\"message\":\"invalid_params\"\x7d"] buf
  | some (kind, id, reply) => serializeToBuffer kind id reply.print buf

end Rest
end Ecotiter
