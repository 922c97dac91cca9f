import Ecotiter.NumericParameters

/-!
# The documented parameters and the handlers' arguments

The protocol document names the keys of each command, `parseCommand` reads keys of its own, and
`dispatch` hands the fields of `Command` over by position. `documentedPassed_iff` says for which
lines a documented parameter arrives as the argument of its handler.
-/

namespace Ecotiter
open Firmware

/-- The parameters of the command reference of the protocol document, the two values of a saved
calibration under their names in the response of `burette.cal.get`, and the two coefficients of
`adc.cal.save` under the names the parser's test uses. -/
inductive Parameter
  | doseVolume | doseSpeed | fillSpeed | emptySpeed | rinseCycles | rinseSpeed
  | calcVolumeMass | calcVolumeTemperature | calcVolumePressure | calcVolumeTarget
  | calcSpeedMeasurements
  | saveStepsPerMl | saveNominalVolume
  | adcSaveA | adcSaveB
  deriving DecidableEq, Repr

inductive ParameterValue
  | float (x : ℚ)
  | count (n : ℕ)
  | points (measurements : List (ℚ × ℚ))
  deriving DecidableEq

namespace Parameter

def type : Parameter → CommandType
  | .doseVolume | .doseSpeed => .doseVolume
  | .fillSpeed => .fill
  | .emptySpeed => .empty
  | .rinseCycles | .rinseSpeed => .rinse
  | .calcVolumeMass | .calcVolumeTemperature | .calcVolumePressure | .calcVolumeTarget =>
    .calCalcVolume
  | .calcSpeedMeasurements => .calCalcSpeed
  | .saveStepsPerMl | .saveNominalVolume => .calSave
  | .adcSaveA | .adcSaveB => .adcCalSave

def key : Parameter → String
  | .doseVolume => "volume_ml"
  | .doseSpeed | .fillSpeed | .emptySpeed | .rinseSpeed => "speed_ml_min"
  | .rinseCycles => "cycles"
  | .calcVolumeMass => "mass_g"
  | .calcVolumeTemperature => "temp_c"
  | .calcVolumePressure => "pressure_kpa"
  | .calcVolumeTarget => "target_vol_ml"
  | .calcSpeedMeasurements => "measurements"
  | .saveStepsPerMl => "steps_per_ml"
  | .saveNominalVolume => "nominal_vol"
  | .adcSaveA => "aX1000"
  | .adcSaveB => "b"

/-- The parameters that the document wants above zero. -/
def positive : Parameter → Bool
  | .doseVolume | .doseSpeed | .fillSpeed | .emptySpeed | .rinseSpeed => true
  | _ => false

/-- The value a line gives for the parameter under its documented key, if it is in range. -/
def requested (p : Parameter) (j : Json) : Option ParameterValue :=
  match p with
  | .rinseCycles => do
    let n ← (j.numberAt p.key).bind JsonNumber.toUInt64
    if 0 < n ∧ n < 2 ^ 8 then some (.count n) else none
  | .calcSpeedMeasurements => do
    let elems ← (j.find p.key).bind Json.asArray
    let points ← elems.mapM parseMeasurement
    return .points points
  | _ => do
    let n ← j.numberAt p.key
    if p.positive ∧ n.value ≤ 0 then none else some (.float n.toFloat)

/-- What `dispatch` hands over for the parameter; some handlers have no such argument. -/
def argument (p : Parameter) (cmd : Command) : Option ParameterValue :=
  match p with
  | .doseVolume => cmd.volume.map .float
  | .doseSpeed => cmd.speedMlMin.map .float
  | .rinseCycles => (cmd.volume.map toU32).map .count
  | .calcVolumeMass => cmd.massG.map .float
  | .calcVolumeTemperature => cmd.temperature.map .float
  | .calcVolumePressure => cmd.pressure.map .float
  | .calcSpeedMeasurements => some (.points cmd.measurements)
  | .saveStepsPerMl => cmd.volume.map .float
  | .saveNominalVolume => cmd.targetVolume.map .float
  | .fillSpeed | .emptySpeed | .rinseSpeed | .calcVolumeTarget | .adcSaveA | .adcSaveB => none

/-- The lines on which the value of the parameter arrives. -/
def arrives (p : Parameter) (j : Json) (v : ParameterValue) : Prop :=
  match p with
  | .doseSpeed | .calcVolumeMass | .calcVolumeTemperature | .calcVolumePressure => True
  | .calcSpeedMeasurements =>
    ∃ elems, (j.find "measurements").bind Json.asArray = some elems ∧ elems.length ≤ maxMeasurements
  | .doseVolume | .saveStepsPerMl => (j.readFloat "volume").map ParameterValue.float = some v
  | .rinseCycles => ((j.readFloat "volume").map toU32).map ParameterValue.count = some v
  | .saveNominalVolume => (j.readFloat "targetVolume").map ParameterValue.float = some v
  | .fillSpeed | .emptySpeed | .rinseSpeed | .calcVolumeTarget | .adcSaveA | .adcSaveB => False

end Parameter

/-- Every parameter of the line arrives as the argument of the handler. -/
def DocumentedPassed (parse : String → Option Json) (line : String) : Prop :=
  ∀ j cmd, parse line = some j → parseCommand parse line = .ok cmd →
    ∀ (p : Parameter) v, p.type = cmd.type → p.requested j = some v → p.argument cmd = some v

/-! ## The arguments are those of the handlers -/

def ParameterValue.asFloat : ParameterValue → Option ℚ
  | .float x => some x
  | _ => none

def ParameterValue.asCount : ParameterValue → Option ℕ
  | .count n => some n
  | _ => none

def ParameterValue.asPoints : ParameterValue → Option (List (ℚ × ℚ))
  | .points l => some l
  | _ => none

def Parameter.float (p : Parameter) (cmd : Command) : Option ℚ :=
  (p.argument cmd).bind ParameterValue.asFloat

/-- The handler runs on exactly the arguments that `Parameter.argument` names. -/
theorem handlerOf_arguments (cmd : Command) :
    match cmd.type with
    | .doseVolume => handlerOf cmd =
        BuretteOps.handleDoseVolume (Parameter.doseVolume.float cmd) (Parameter.doseSpeed.float cmd)
    | .rinse => handlerOf cmd =
        BuretteOps.handleRinse
          ((Parameter.rinseCycles.argument cmd).bind ParameterValue.asCount)
    | .calCalcVolume => handlerOf cmd =
        BuretteCal.handleCalcVolume (Parameter.calcVolumeMass.float cmd)
          (Parameter.calcVolumeTemperature.float cmd) (Parameter.calcVolumePressure.float cmd)
    | .calCalcSpeed => handlerOf cmd =
        BuretteCal.handleCalcSpeed
          (((Parameter.calcSpeedMeasurements.argument cmd).bind ParameterValue.asPoints).getD [])
    | .calSave => handlerOf cmd =
        BuretteCal.handleSaveCalibration (Parameter.saveStepsPerMl.float cmd)
          (Parameter.saveNominalVolume.float cmd)
    | .fill => handlerOf cmd = BuretteOps.handleFill
    | .empty => handlerOf cmd = BuretteOps.handleEmpty
    | _ => True := by
  have hfloat (o : Option ℚ) : (o.map ParameterValue.float).bind ParameterValue.asFloat = o := by
    cases o <;> rfl
  have hcount (o : Option ℕ) : (o.map ParameterValue.count).bind ParameterValue.asCount = o := by
    cases o <;> rfl
  cases htype : cmd.type with
  | doseVolume =>
    simp only [handlerOf, htype, Parameter.float, Parameter.argument, hfloat]
  | rinse => simp only [handlerOf, htype, Parameter.argument, hcount]
  | calCalcVolume => simp only [handlerOf, htype, Parameter.float, Parameter.argument, hfloat]
  | calCalcSpeed =>
    simp only [handlerOf, htype, Parameter.argument, Option.bind_some, ParameterValue.asPoints,
      Option.getD_some]
  | calSave => simp only [handlerOf, htype, Parameter.float, Parameter.argument, hfloat]
  | fill => simp only [handlerOf, htype]
  | empty => simp only [handlerOf, htype]
  | _ => trivial

/-! ## Every line -/

section Lines
variable {j : Json}

/-- A parameter that the parser reads under its documented key. -/
theorem passed_read (field : Command → Option ℚ) {p : Parameter} {type : CommandType}
    {v : ParameterValue} (hfield : field (j.command type) = j.readFloat p.key)
    (hargument : p.argument (j.command type) = (field (j.command type)).map .float)
    (hrequested : (do
      let n ← j.numberAt p.key
      if p.positive ∧ n.value ≤ 0 then none else some (.float n.toFloat)) = some v) :
    p.argument (j.command type) = some v := by
  rw [hargument, hfield, Json.readFloat]
  cases hn : j.numberAt p.key with
  | none =>
    rw [hn] at hrequested
    cases hrequested
  | some n =>
    rw [hn, Option.bind_eq_bind, Option.bind_some] at hrequested
    split at hrequested
    · cases hrequested
    · exact hrequested

theorem parseMeasurements_all {elems : List Json} {points : List (ℚ × ℚ)}
    (helems : (j.find "measurements").bind Json.asArray = some elems)
    (hpoints : elems.mapM parseMeasurement = some points) :
    parseMeasurements j = points.take maxMeasurements ∧ points.length = elems.length := by
  have hall : elems.filterMap parseMeasurement = points ∧ points.length = elems.length := by
    clear helems
    induction elems generalizing points with
    | nil =>
      cases hpoints
      exact ⟨rfl, rfl⟩
    | cons m elems ih =>
      rw [List.mapM_cons] at hpoints
      cases hm : parseMeasurement m with
      | none =>
        rw [hm] at hpoints
        cases hpoints
      | some point =>
        cases hrest : elems.mapM parseMeasurement with
        | none =>
          rw [hm, hrest] at hpoints
          cases hpoints
        | some rest =>
          rw [hm, hrest] at hpoints
          cases hpoints
          obtain ⟨hfilter, hlen⟩ := ih hrest
          refine ⟨?_, ?_⟩
          · rw [List.filterMap_cons, hm, hfilter]
          · rw [List.length_cons, List.length_cons, hlen]
  unfold parseMeasurements
  rw [helems, ← hall.1]
  exact ⟨rfl, by rw [hall.1, hall.2]⟩

theorem passed_measurements {v : ParameterValue}
    (hrequested : Parameter.calcSpeedMeasurements.requested j = some v) :
    Parameter.calcSpeedMeasurements.argument (j.command .calCalcSpeed) = some v ↔
      Parameter.calcSpeedMeasurements.arrives j v := by
  change some (ParameterValue.points (parseMeasurements j)) = some v ↔ ∃ elems, _
  cases helems : (j.find "measurements").bind Json.asArray with
  | none =>
    simp only [Parameter.requested, Parameter.key, helems] at hrequested
    cases hrequested
  | some elems =>
    cases hpoints : elems.mapM parseMeasurement with
    | none =>
      simp only [Parameter.requested, Parameter.key, helems, Option.bind_eq_bind, Option.bind_some,
        hpoints] at hrequested
      cases hrequested
    | some points =>
      simp only [Parameter.requested, Parameter.key, helems, Option.bind_eq_bind, Option.bind_some,
        hpoints] at hrequested
      cases hrequested
      obtain ⟨hparsed, hlen⟩ := parseMeasurements_all helems hpoints
      rw [hparsed, Option.some.injEq, ParameterValue.points.injEq, List.take_eq_self_iff, hlen]
      simp

/-- A parameter of a line arrives if and only if the line is one of `Parameter.arrives`. -/
theorem passed_iff {p : Parameter} {v : ParameterValue} (hrequested : p.requested j = some v) :
    p.argument (j.command p.type) = some v ↔ p.arrives j v := by
  cases p with
  | calcSpeedMeasurements => exact passed_measurements hrequested
  | doseSpeed =>
    exact ⟨fun _ => trivial, fun _ => passed_read Command.speedMlMin rfl rfl hrequested⟩
  | calcVolumeMass =>
    exact ⟨fun _ => trivial, fun _ => passed_read Command.massG rfl rfl hrequested⟩
  | calcVolumeTemperature =>
    exact ⟨fun _ => trivial, fun _ => passed_read Command.temperature rfl rfl hrequested⟩
  | calcVolumePressure =>
    exact ⟨fun _ => trivial, fun _ => passed_read Command.pressure rfl rfl hrequested⟩
  | doseVolume | rinseCycles | saveStepsPerMl | saveNominalVolume => exact Iff.rfl
  | fillSpeed | emptySpeed | rinseSpeed | calcVolumeTarget | adcSaveA | adcSaveB =>
    exact ⟨nofun, nofun⟩

end Lines

/-- The documented parameters of a line arrive if and only if each of them is one of
`Parameter.arrives`. -/
theorem documentedPassed_iff (parse : String → Option Json) (line : String) :
    DocumentedPassed parse line ↔ ∀ j (p : Parameter) v, parse line = some j →
      (j.stringAt "cmd").bind lookupCmdType = some p.type → p.requested j = some v →
        p.arrives j v := by
  unfold DocumentedPassed parseCommand
  cases parse line with
  | none => simp
  | some j =>
    constructor
    · intro hpassed j' p v hj htype hrequested
      cases hj
      have hok : commandOf j = .ok (j.command p.type) := commandOf_eq_ok.mpr ⟨p.type, htype, rfl⟩
      exact (passed_iff hrequested).mp (hpassed j _ rfl hok p v rfl hrequested)
    · intro harrives j' cmd hj hcmd p v htype hrequested
      cases hj
      obtain ⟨type, hname, rfl⟩ := commandOf_eq_ok.mp hcmd
      have htype : p.type = type := htype
      subst htype
      exact (passed_iff hrequested).mpr (harrives j p v rfl hname hrequested)

/-- The documented line of a dose reaches the handler without a volume. -/
theorem doseVolume_lost :
    ¬ DocumentedPassed (fun _ => some (.object [("cmd", .string "burette.doseVolume"),
      ("volume_ml", .number (.unsigned 5))])) "" := by
  intro hpassed
  let j : Json := .object [("cmd", .string "burette.doseVolume"), ("volume_ml", .number (.unsigned 5))]
  have hparse : commandOf j = .ok (j.command .doseVolume) :=
    commandOf_eq_ok.mpr ⟨.doseVolume, rfl, rfl⟩
  have hrequested : Parameter.doseVolume.requested j =
      some (.float (JsonNumber.unsigned 5).toFloat) := rfl
  have hargument := hpassed j (j.command .doseVolume) rfl hparse .doseVolume _ rfl hrequested
  cases hargument

end Ecotiter
