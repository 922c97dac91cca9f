import Ecotiter.ResponseJson

/-!
# Every response but one is complete

The responses of all handlers, bare and with an id in front of their members, are complete JSON
objects where every printed float is finite. The buffer of `handleStatusCore` never is.
-/

namespace Ecotiter
open BoundedOutput JsonText

abbrev Value := Written Tree.builder

/-- The text of an object with at least one member and no blanks. -/
def IsCompact (t : List Char) : Prop := ∃ m ms, t = (Written.object (m :: ms) : Value).text

theorem IsCompact.isObject {t : List Char} (h : IsCompact t) : IsObject t := by
  obtain ⟨m, ms, rfl⟩ := h
  exact Written.isObject_object _

/-! ## Values as they are printed -/

def unsignedValue (bits n : ℕ) : Value := .number (.ofInteger (n % 2 ^ bits : ℕ))

def signedValue (bits : ℕ) (z : ℤ) : Value := .number (.ofInteger (z.bmod (2 ^ bits)))

def floatValue (k : ℕ) (x : Double) : Value := .number (.ofFixed k (x.within floatLimit).value)

def doubleValue (k : ℕ) (x : Double) : Value := .number (.ofFixed k (x.within doubleLimit).value)

def stringValue (s : String)
    (h : ∀ c ∈ s.toList, IsPlain c := by exact isPlain_literal (by decide)) : Value :=
  .string (plain s h)

@[simp] theorem unsignedValue_text (bits n : ℕ) :
    (unsignedValue bits n).text = DecimalText.natural (n % 2 ^ bits) := by
  rw [unsignedValue, Written.text_number, NumberText.ofInteger_text, DecimalText.integer_natCast]

@[simp] theorem signedValue_text (bits : ℕ) (z : ℤ) :
    (signedValue bits z).text = DecimalText.integer (z.bmod (2 ^ bits)) := by
  rw [signedValue, Written.text_number, NumberText.ofInteger_text]

@[simp] theorem floatValue_text (k : ℕ) (x : Double) :
    (floatValue (k + 1) x).text = DecimalText.fixed (k + 1) (x.within floatLimit).value := by
  rw [floatValue, Written.text_number, NumberText.ofFixed_text (Nat.succ_pos k)]

@[simp] theorem doubleValue_text (k : ℕ) (x : Double) :
    (doubleValue (k + 1) x).text = DecimalText.fixed (k + 1) (x.within doubleLimit).value := by
  rw [doubleValue, Written.text_number, NumberText.ofFixed_text (Nat.succ_pos k)]

@[simp] theorem stringValue_text {s : String} (h : ∀ c ∈ s.toList, IsPlain c) :
    (stringValue s h).text = '"' :: s.toList ++ ['"'] := by
  rw [stringValue, Written.text_string, plain_text]

/-! ## The members of the responses -/

theorem isPlain_status : ∀ c ∈ "status".toList, IsPlain c := isPlain_literal (by decide)

theorem isPlain_ok : ∀ c ∈ "ok".toList, IsPlain c := isPlain_literal (by decide)

def statusOk : List Piece × Value := (plain "status" isPlain_status, stringValue "ok" isPlain_ok)

/-- The members of a response with data. -/
abbrev okMembers (ms : List (List Piece × Value)) : List (List Piece × Value) :=
  [(plain "status" isPlain_status, stringValue "ok" isPlain_ok), (plain "data", .object ms)]

/-- The members of a response with a single value. -/
def dataMembers (w : Value) : List (List Piece × Value) :=
  [(plain "status" isPlain_status, stringValue "ok" isPlain_ok), (plain "data", w)]

def calibrationMembers (stepsPerMl nominalVolumeMl speedCoeff : ℚ) (minFreqHz maxFreqHz : ℕ) :
    List (List Piece × Value) :=
  [(plain "steps_per_ml", floatValue 1 stepsPerMl),
    (plain "nominal_vol", floatValue 2 nominalVolumeMl),
    (plain "speed_coeff", floatValue 5 speedCoeff), (plain "min_freq", unsignedValue 16 minFreqHz),
    (plain "max_freq", unsignedValue 16 maxFreqHz), (plain "is_default", .word .true)]

theorem BuretteState.shown_plain (state : BuretteState) :
    ∀ c ∈ state.shown.toList, IsPlain c := by
  cases state <;> decide

def statusMembers (state : BuretteState) (volume : Value) : List (List Piece × Value) :=
  [(plain "status" isPlain_status, stringValue state.shown state.shown_plain),
    (plain "volume_ml", volume), (plain "speed_ml_min", doubleValue 1 (0 : ℚ))]

def volumeCalibrationMembers (zFactor actualVolumeMl newStepsPerMl : ℚ)
    (relativeErrorPct : Double) : List (List Piece × Value) :=
  [(plain "z_factor", floatValue 6 zFactor), (plain "actual_volume_ml", floatValue 4 actualVolumeMl),
    (plain "new_steps_per_ml", floatValue 1 newStepsPerMl),
    (plain "relative_error_pct", floatValue 2 relativeErrorPct)]

def speedCalibrationMembers (k rSquared : ℚ) (minFreqHz maxFreqHz : ℕ) :
    List (List Piece × Value) :=
  [(plain "k", floatValue 6 k), (plain "r_squared", floatValue 4 rSquared),
    (plain "min_freq", unsignedValue 16 minFreqHz), (plain "max_freq", unsignedValue 16 maxFreqHz)]

def savedCalibrationMembers (stepsPerMl nominalVolumeMl : ℚ) : List (List Piece × Value) :=
  [(plain "stepsPerMl", floatValue 1 stepsPerMl),
    (plain "nominalVolume", floatValue 1 nominalVolumeMl)]

/-- The members after `result`. -/
def calResultMembers (r : SmResult) : List (List Piece × Value) :=
  match r.type with
  | .rinseComplete => [(plain "resultType", stringValue "rinse")]
  | .calDoseComplete =>
    [(plain "resultType", stringValue "cal_dose"), (plain "stepsTaken", signedValue 32 r.stepsTaken)]
  | .calSpeedComplete =>
    [(plain "resultType", stringValue "cal_speed"),
      (plain "speedMlMin", floatValue 2 r.measuredSpeedMlMin)]
  | .calSpeedSeqComplete =>
    [(plain "resultType", stringValue "cal_speed_seq"),
      (plain "results", .array ((List.range (min r.resultCount 3)).map fun i =>
        floatValue 2 (r.results.getD i 0)))]
  | _ => [(plain "resultType", stringValue "error")]

def resultOk : List Piece × Value := (plain "result", stringValue "ok" isPlain_ok)

def noResult : List Piece × Value := (plain "result", stringValue "no_result")

def pointMembers (p : ℚ × ℕ) : List (List Piece × Value) :=
  [(plain "ref_mv", floatValue 1 p.1), (plain "raw_mv", unsignedValue 16 p.2)]

def errorMembers (message : List Char) (h : ∀ c ∈ message, IsPlain c) : List (List Piece × Value) :=
  [(plain "status" isPlain_status, stringValue "error"),
    (plain "message", .string (pieces message h))]

def reportMembers (report : AdcCalReport) (points : Value) : List (List Piece × Value) :=
  [(plain "cmd", stringValue "adc.cal.get"), statusOk, (plain "a", floatValue 6 report.a),
    (plain "b", signedValue 16 report.b.toInt), (plain "r_squared", .number (.ofFixed 1 0)),
    (plain "calibrated_at", .word .null),
    (plain "is_default", .word (if report.isDefault then .true else .false)),
    (plain "points", points), (plain "raw_mv", unsignedValue 16 report.rawMv),
    (plain "calibrated_mv", signedValue 16 report.calibratedMv.toInt)]

def acceptedMember : List Piece × Value := (plain "status" isPlain_status, stringValue "accepted")

def positionMember (pos : String) (h : ∀ c ∈ pos.toList, IsPlain c) : List Piece × Value :=
  (plain "position", stringValue pos h)

def thresholdMembers (value : ℕ) : List (List Piece × Value) :=
  [(plain "cmd", stringValue "stallGuard.setThreshold"),
    (plain "threshold", unsignedValue 8 value)]

def temperatureMembers (tempC : ℚ) : List (List Piece × Value) :=
  [(plain "cmd", stringValue "temperature.read"), (plain "temperature", floatValue 1 tempC)]

def adcSavedMembers (aX1000 : UInt16) (b : Int16) : List (List Piece × Value) :=
  [(plain "cmd", stringValue "adc.cal.save"), statusOk,
    (plain "aX1000", unsignedValue 16 aX1000.toNat), (plain "b", signedValue 16 b.toInt)]

def adcMeasuredMembers (index median : ℕ) : List (List Piece × Value) :=
  [statusOk, (plain "point", unsignedValue 32 index), (plain "voltage_mV", unsignedValue 16 median)]

def adcComputedMembers (a : Double) (b : Int16) (rSquared : Double) : List (List Piece × Value) :=
  [(plain "a", doubleValue 6 a), (plain "b", signedValue 16 b.toInt),
    (plain "r_squared", doubleValue 4 rSquared)]

def formattedLogsMembers : List (List Piece × Value) :=
  [(plain "cmd", stringValue "system.getFormattedLogs"), (plain "logs", .array [])]

def readLogMembers : List (List Piece × Value) :=
  [(plain "cmd", stringValue "system.readLog"), (plain "entries", .array [])]

def firmwareVersionMembers : List (List Piece × Value) :=
  [(plain "cmd", stringValue "system.firmwareVersion"), (plain "version", stringValue "0.1.0")]

theorem compact_of_eq {t : List Char} (m : List Piece × Value) (ms : List (List Piece × Value))
    (h : t = (Written.object (m :: ms)).text) : IsCompact t := ⟨m, ms, h⟩

theorem compact_members {t : List Char} (ms : List (List Piece × Value)) (hne : ms ≠ [])
    (h : t = (Written.object ms : Value).text) : IsCompact t := by
  obtain ⟨m, ms, rfl⟩ := List.exists_cons_of_ne_nil hne
  exact ⟨m, ms, h⟩

theorem compact_okMembers {t : List Char} (ms : List (List Piece × Value))
    (h : t = (Written.object (okMembers ms)).text) : IsCompact t := ⟨_, _, h⟩

/-! ## The texts of the responses -/

section
variable {a b c : ℚ} {x y : Double} {m n : ℕ}

theorem compact_calibration :
    IsCompact (dataOpening.chars ++ (calibrationFormat a b c m n).chars ++ ['\x7d']) := by
  apply compact_okMembers (calibrationMembers a b c m n)
  simp [-String.reduceToList, calibrationMembers, dataOpening, calibrationFormat, Format.chars, Directive.chars,
    Written.memberText, Word.text]
  repeat rw [String.toList_ofList]
  simp

theorem compact_status {state : BuretteState} {v : Option ℚ} :
    IsCompact (dataOpening.chars ++ (statusFormat state v).chars ++ ['\x7d', '\x7d']) := by
  cases v with
  | none =>
    apply compact_okMembers (statusMembers state (.word .null))
    simp [-String.reduceToList, statusMembers, dataOpening, statusFormat, Format.chars, Directive.chars,
      Written.memberText, Word.text]
    repeat rw [String.toList_ofList]
    simp
  | some v =>
    apply compact_okMembers (statusMembers state (floatValue 2 v))
    simp [-String.reduceToList, statusMembers, dataOpening, statusFormat, Format.chars, Directive.chars,
      Written.memberText]
    repeat rw [String.toList_ofList]
    simp

theorem compact_volumeCalibration :
    IsCompact (dataOpening.chars ++ (volumeCalibrationFormat a b c x).chars ++
      ['\x7d', '\x7d']) := by
  apply compact_okMembers (volumeCalibrationMembers a b c x)
  simp [-String.reduceToList, volumeCalibrationMembers, dataOpening, volumeCalibrationFormat, Format.chars, Directive.chars,
    Written.memberText]
  repeat rw [String.toList_ofList]
  simp

theorem compact_speedCalibration :
    IsCompact (dataOpening.chars ++ (speedCalibrationFormat a b m n).chars ++
      ['\x7d', '\x7d']) := by
  apply compact_okMembers (speedCalibrationMembers a b m n)
  simp [-String.reduceToList, speedCalibrationMembers, dataOpening, speedCalibrationFormat, Format.chars, Directive.chars,
    Written.memberText]
  repeat rw [String.toList_ofList]
  simp

theorem compact_savedCalibration :
    IsCompact (dataOpening.chars ++ (savedCalibrationFormat a b).chars ++ ['\x7d', '\x7d']) := by
  apply compact_okMembers (savedCalibrationMembers a b)
  simp [-String.reduceToList, savedCalibrationMembers, dataOpening, savedCalibrationFormat, Format.chars, Directive.chars,
    Written.memberText]
  repeat rw [String.toList_ofList]
  simp

theorem compact_calResult {r : SmResult} :
    IsCompact (calResultOpening.chars ++ Format.chars (calResultFormats r).flatten ++
      ['\x7d', '\x7d']) := by
  apply compact_okMembers (resultOk :: calResultMembers r)
  unfold resultOk calResultMembers calResultFormats calResultOpening
  cases r.type with
  | calSpeedSeqComplete =>
    obtain h | h | h | h : min r.resultCount 3 = 0 ∨ min r.resultCount 3 = 1 ∨
        min r.resultCount 3 = 2 ∨ min r.resultCount 3 = 3 := by omega
    all_goals
      simp [-String.reduceToList, h, resultsFormats, List.range_succ, Format.chars,
        Directive.chars, Written.memberText]
      repeat rw [String.toList_ofList]
      simp
  | none | rinseComplete | calDoseComplete | calSpeedComplete | error =>
    simp [-String.reduceToList, Format.chars, Directive.chars, Written.memberText]
    repeat rw [String.toList_ofList]
    simp

theorem value_points (ps : List (ℚ × ℕ)) :
    ∃ w : Value, w.text = '[' :: Format.chars (Reply.pointsFormats ps).flatten ++ [']'] := by
  let point : ℚ × ℕ → Value := fun p => .object (pointMembers p)
  have htext : ∀ p, (point p).text = (Reply.pointFormat p).chars := by
    intro p
    simp [-String.reduceToList, point, pointMembers, Reply.pointFormat, Format.chars, Directive.chars,
      Written.memberText]
    repeat rw [String.toList_ofList]
    simp
  refine ⟨.array (ps.map point), ?_⟩
  cases ps with
  | nil => rfl
  | cons p ps =>
    simp [htext, List.flatMap_map, Reply.pointsFormats, Format.chars, List.flatMap_assoc,
      List.flatten_eq_flatMap, Directive.chars]

theorem compact_error {message : List Char} (h : ∀ c ∈ message, IsPlain c) :
    IsCompact (errorOpening.chars ++ message ++ ['"', '\x7d']) := by
  apply compact_members (errorMembers message h) (List.cons_ne_nil _ _)
  simp [-String.reduceToList, errorMembers, errorOpening, Format.chars, Directive.chars,
    Written.memberText]
  repeat rw [String.toList_ofList]
  simp

/-- A payload that is a value. -/
theorem compact_single {f : Format} (w : Value) (h : w.text = f.chars) :
    IsCompact (Format.chars (.text "\x7b\"status\":\"ok\",\"data\":" :: f ++
      [.text "\x7d"])) := by
  apply compact_members (dataMembers w) (List.cons_ne_nil _ _)
  have hchars : Format.chars (.text "\x7b\"status\":\"ok\",\"data\":" :: f ++ [.text "\x7d"]) =
      "\x7b\"status\":\"ok\",\"data\":".toList ++ (f.chars ++ ['\x7d']) := by
    simp [Format.chars, Directive.chars]
  rw [hchars, ← h]
  simp [dataMembers, Written.memberText]

end

/-! ## The bodies of the responses -/

/-- The output fits and is the text of an object in front of whose members an id can be put. -/
def PrintsObject (o : Output) : Prop := ∃ t n, Prints o Config.maxRspSize t n ∧ IsCompact t

theorem PrintsObject.complete {o : Output} (h : PrintsObject o) : Complete o := by
  obtain ⟨t, n, hprints, hcompact⟩ := h
  exact hprints.complete hcompact.isObject

theorem printsObject_fresh {f : Format} (hf : ∀ c ∈ f, c.IsFinite)
    (hbound : f.bound < Config.maxRspSize) (h : IsCompact f.chars) :
    PrintsObject (printf f freshBody) :=
  ⟨_, _, prints_freshBody.printf hf (by omega), h⟩

theorem prints_dataOpening :
    Prints (printf dataOpening freshBody) Config.maxRspSize dataOpening.chars 23 :=
  prints_freshBody.printf (by simp [dataOpening, Directive.IsFinite]) (by decide)

theorem printsObject_printCal {f : Format} (hf : ∀ c ∈ f, c.IsFinite) (hbound : f.bound ≤ 1000)
    (h : IsCompact (dataOpening.chars ++ f.chars ++ ['\x7d', '\x7d'])) :
    PrintsObject (printCal f) := by
  have hsize : Config.maxRspSize = 2048 := rfl
  have hbrace : Format.bound [.text "\x7d"] = 1 := by decide
  have hprinted := prints_dataOpening.printf hf (by omega)
  have hclosed := hprinted.printf (f := [.text "\x7d"]) (by simp [Directive.IsFinite]) (by omega)
  have hend := (hclosed.closed (by omega)).terminate
  refine ⟨_, _, hend, ?_⟩
  rwa [List.append_assoc (dataOpening.chars ++ f.chars)]

theorem printsObject_calibration {f : Format} (hf : ∀ c ∈ f, c.IsFinite)
    (hbound : f.bound ≤ 1000) (h : IsCompact (dataOpening.chars ++ f.chars ++ ['\x7d'])) :
    PrintsObject (closed (printf f (printf dataOpening freshBody))) := by
  have hsize : Config.maxRspSize = 2048 := rfl
  exact ⟨_, _, (prints_dataOpening.printf hf (by omega)).closed (by omega), h⟩

theorem bound_statusFormat (state : BuretteState) (v : Option ℚ) :
    (statusFormat state v).bound ≤ 1000 := by
  cases v with
  | none => cases state <;> decide
  | some v =>
    change (statusFormat state (some 0)).bound ≤ 1000
    cases state <;> decide

theorem printsObject_printStatus {state : BuretteState} {v : Option ℚ}
    (hf : ∀ c ∈ statusFormat state v, c.IsFinite) : PrintsObject (printStatus state v) := by
  have hsize : Config.maxRspSize = 2048 := rfl
  have hbound := bound_statusFormat state v
  have hprinted := prints_dataOpening.serializeStatusJson hf (by omega)
  exact ⟨_, _, (hprinted.closedTwice (by omega)).terminate, compact_status⟩

/-- Several calls one after the other. -/
theorem Prints.foldl {o : Output} {size n : ℕ} {t : List Char} (fs : List Format)
    (h : Prints o size t n) (hf : ∀ c ∈ fs.flatten, c.IsFinite)
    (hfit : n + Format.bound fs.flatten < size) :
    Prints (fs.foldl (fun o f => Ecotiter.printf f o) o) size (t ++ Format.chars fs.flatten)
      (n + Format.bound fs.flatten) := by
  induction fs generalizing o n t with
  | nil => simpa [Format.chars, Format.bound] using h
  | cons f fs ih =>
    have hbound : Format.bound (f :: fs).flatten = f.bound + Format.bound fs.flatten := by
      simp [Format.bound]
    have hchars : Format.chars (f :: fs).flatten = f.chars ++ Format.chars fs.flatten := by
      simp [Format.chars]
    have hfirst := h.printf (f := f) (fun c hc => hf c (List.mem_append_left _ hc)) (by omega)
    have hrest := ih hfirst (fun c hc => hf c (List.mem_append_right _ hc)) (by omega)
    rw [hbound, hchars, ← List.append_assoc, ← Nat.add_assoc]
    exact hrest

theorem bound_calResultFormats (r : SmResult) :
    Format.bound (calResultFormats r).flatten ≤ 1000 := by
  unfold calResultFormats
  cases r.type with
  | calSpeedSeqComplete =>
    obtain h | h | h | h : min r.resultCount 3 = 0 ∨ min r.resultCount 3 = 1 ∨
        min r.resultCount 3 = 2 ∨ min r.resultCount 3 = 3 := by omega
    all_goals
      simp [h, resultsFormats, List.range_succ, Format.bound, Directive.bound]
      decide
  | none | rinseComplete | calDoseComplete | calSpeedComplete | error =>
    simp [Format.bound, Directive.bound]
    decide

theorem printsObject_calResult {r : SmResult}
    (hf : ∀ c ∈ (calResultFormats r).flatten, c.IsFinite) :
    PrintsObject (printCalResult (some r)) := by
  have hsize : Config.maxRspSize = 2048 := rfl
  have hbound := bound_calResultFormats r
  have hopened : Prints (printf calResultOpening freshBody) Config.maxRspSize
      calResultOpening.chars 36 :=
    prints_freshBody.printf (by simp [calResultOpening, Directive.IsFinite]) (by decide)
  have hprinted := hopened.foldl _ hf (by omega)
  exact ⟨_, _, hprinted.closedTwice (by omega), compact_calResult⟩

theorem holds_escapeInto {o : Output} {size : ℕ} {t message : List UInt8} (h : o.Holds size t)
    (hplain : ∀ b ∈ message, b ≠ 34 ∧ b ≠ 92) (hfit : t.length + message.length + 2 ≤ size) :
    (escapeInto message o).Holds size (t ++ message) := by
  induction message generalizing o t with
  | nil => simpa [escapeInto] using h
  | cons b message ih =>
    have hb := hplain b List.mem_cons_self
    have hoff := h.off
    have hsize := h.size
    rw [List.length_cons] at hfit
    have hcopied := h.copy (s := [b]) (by rw [List.length_singleton]; omega)
    have hrest := ih hcopied (fun d hd => hplain d (.tail b hd))
      (by rw [List.length_append, List.length_singleton]; omega)
    rw [escapeInto, if_pos (by omega), if_neg (not_or.mpr hb)]
    rwa [List.append_assoc] at hrest

instance decidableUnescaped (l : List UInt8) : Decidable (∀ b ∈ l, b ≠ 34 ∧ b ≠ 92) :=
  l.decidableBAll fun b => b ≠ 34 ∧ b ≠ 92

/-- A message that is printed as it is. -/
def IsMessage (message : String) : Prop :=
  (∀ c ∈ message.toList, IsPlain c) ∧ (∀ b ∈ utf8 message.toList, b ≠ 34 ∧ b ≠ 92) ∧
    message.utf8ByteSize ≤ 200

instance (message : String) : Decidable (IsMessage message) := inferInstanceAs (Decidable (_ ∧ _))

theorem printsObject_printError {message : String} (h : IsMessage message) :
    PrintsObject (printError (utf8 message.toList)) := by
  have hsize : Config.maxRspSize = 2048 := rfl
  obtain ⟨hplain, hbytes, hlength⟩ := h
  rw [← length_utf8_toList] at hlength
  have hopened : Prints (printf errorOpening freshBody) Config.maxRspSize errorOpening.chars 29 :=
    prints_freshBody.printf (by simp [errorOpening, Directive.IsFinite]) (by decide)
  have hfirst := hopened.length
  have hescaped : Prints (escapeInto (utf8 message.toList) (printf errorOpening freshBody))
      Config.maxRspSize (errorOpening.chars ++ message.toList) 229 := by
    refine ⟨?_, ?_⟩
    · rw [utf8_append]
      exact holds_escapeInto hopened.holds hbytes (by omega)
    · rw [utf8_append, List.length_append]
      omega
  have hoff := hescaped.off_le
  have hmem := hescaped.holds.size
  have hquoted := (hescaped.putChar (c := '"') rfl (by omega)).putChar (c := '\x7d') rfl (by omega)
  rw [List.append_assoc (errorOpening.chars ++ message.toList)] at hquoted
  refine ⟨_, 231, ?_, compact_error hplain⟩
  unfold printError
  dsimp only
  rw [if_pos (by omega)]
  exact hquoted

/-! ## The report of the ADC calibration -/

theorem bound_pointFormat (p : ℚ × ℕ) : (Reply.pointFormat p).bound = 69 := by
  change (Reply.pointFormat (0, 0)).bound = 69
  decide

theorem bound_pointsFormats {ps : List (ℚ × ℕ)} (hcount : ps.length ≤ 5) :
    Format.bound (Reply.pointsFormats ps).flatten ≤ 349 := by
  cases ps with
  | nil => decide
  | cons p ps =>
    have hcomma : Format.bound [.text ","] = 1 := by decide
    have hrest : Format.bound (ps.flatMap fun p => [[.text ","], Reply.pointFormat p]).flatten =
        70 * ps.length := by
      clear hcount
      induction ps with
      | nil => rfl
      | cons q ps ih =>
        have hsplit : Format.bound ((q :: ps).flatMap fun p =>
              [[.text ","], Reply.pointFormat p]).flatten =
            Format.bound [.text ","] + (Reply.pointFormat q).bound +
              Format.bound (ps.flatMap fun p => [[.text ","], Reply.pointFormat p]).flatten := by
          simp [Format.bound, Nat.add_assoc]
        rw [hsplit, hcomma, bound_pointFormat, ih, List.length_cons]
        omega
    have hsplit : Format.bound (Reply.pointsFormats (p :: ps)).flatten =
        (Reply.pointFormat p).bound +
          Format.bound (ps.flatMap fun p => [[.text ","], Reply.pointFormat p]).flatten := by
      simp [Reply.pointsFormats, Format.bound]
    rw [hsplit, bound_pointFormat, hrest]
    rw [List.length_cons] at hcount
    omega

theorem mem_pointsFormats {ps : List (ℚ × ℕ)} {c : Directive}
    (h : c ∈ (Reply.pointsFormats ps).flatten) : c = .text "," ∨ c ∈ ps.flatMap Reply.pointFormat := by
  cases ps with
  | nil => exact absurd h List.not_mem_nil
  | cons p ps =>
    simp only [Reply.pointsFormats, List.flatten_cons, List.mem_append, List.mem_flatten,
      List.mem_flatMap] at h
    rcases h with h | ⟨f, ⟨q, hq, hf⟩, hc⟩
    · exact .inr (List.mem_flatMap.mpr ⟨p, List.mem_cons_self, h⟩)
    · rcases List.mem_pair.mp hf with rfl | rfl
      · exact .inl (List.mem_singleton.mp hc)
      · exact .inr (List.mem_flatMap.mpr ⟨q, .tail p hq, hc⟩)

theorem isAscii_points (ps : List (ℚ × ℕ)) :
    ∀ c ∈ '[' :: Format.chars (Reply.pointsFormats ps).flatten ++ [']'], IsAscii c := by
  have hlisted : ∀ c ∈ Format.chars (Reply.pointsFormats ps).flatten, IsAscii c := by
    apply Format.isAscii_chars
    intro s hs
    rcases mem_pointsFormats hs with hs | hs
    · obtain rfl : s = "," := by simpa using hs
      decide
    · obtain ⟨p, -, hp⟩ := List.mem_flatMap.mp hs
      have hcases : s = "\x7b\"ref_mv\":" ∨ s = ",\"raw_mv\":" ∨ s = "\x7d" := by
        simpa [Reply.pointFormat] using hp
      rcases hcases with rfl | rfl | rfl <;> decide
  intro c hc
  rcases List.mem_append.mp hc with hc | hc
  · rcases List.mem_cons.mp hc with rfl | hc
    · decide
    · exact hlisted c hc
  · rw [List.mem_singleton.mp hc]
    decide

theorem prints_points {ps : List (ℚ × ℕ)} (hcount : ps.length ≤ 5)
    (hf : ∀ c ∈ ps.flatMap Reply.pointFormat, c.IsFinite) :
    (Reply.printPoints ps).inside = true ∧
      ∃ w : Value, (utf8 w.text).length ≤ 351 ∧ (Reply.printPoints ps).string = utf8 w.text := by
  obtain ⟨w, hw⟩ := value_points ps
  have hbound := bound_pointsFormats hcount
  have hempty : Prints { mem := List.replicate 384 0 } 384 [] 0 :=
    ⟨Output.holds_empty List.length_replicate, le_rfl⟩
  have hopened := hempty.printf (f := [.text "["]) (by simp [Directive.IsFinite])
    (by decide)
  have hone : Format.bound [.text "["] = 1 := by decide
  have hlisted := hopened.foldl (Reply.pointsFormats ps) (fun c hc => by
    rcases mem_pointsFormats hc with rfl | hc
    · trivial
    · exact hf c hc) (by omega)
  have hlast : Format.bound [.text "]"] = 1 := by decide
  have hprinted := hlisted.printf (f := [.text "]"]) (by simp [Directive.IsFinite]) (by omega)
  have htext : [] ++ Format.chars [.text "["] ++ Format.chars (Reply.pointsFormats ps).flatten ++
      Format.chars [.text "]"] = w.text := by
    rw [hw]
    rfl
  have hlength := hprinted.length
  rw [htext] at hlength
  refine ⟨hprinted.holds.inside, w, by omega, ?_⟩
  have hstring := hlisted.holds.snprintf_string (s := utf8 (Format.chars [.text "]"])) ?_ ?_
  · rw [← utf8_append, htext] at hstring
    exact hstring
  · have hfirst := hlisted.length
    have hsecond : (utf8 (Format.chars [.text "]"])).length = 1 := by decide
    omega
  · rw [← utf8_append, htext, hw]
    exact zero_notMem_utf8 (isAscii_points ps)

theorem compact_report {report : AdcCalReport} {w : Value} :
    IsCompact ((Reply.reportFormat report).1.chars ++ w.text ++
      (Reply.reportFormat report).2.chars) := by
  have hzero : (NumberText.ofFixed 1 0).text = ['0', '.', '0'] := by
    have hunits : DecimalText.units 1 0 = 0 := by
      simp [DecimalText.units, BinaryFormat.nearestEven]
    rw [NumberText.ofFixed_text Nat.one_pos, DecimalText.fixed, hunits]
    rfl
  apply compact_members (reportMembers report w) (List.cons_ne_nil _ _)
  cases hdefault : report.isDefault
  all_goals
    simp [-String.reduceToList, reportMembers, statusOk, Reply.reportFormat, Format.chars,
      Directive.chars, Word.text, Written.memberText, hdefault, hzero]
    repeat rw [String.toList_ofList]
    simp

theorem bound_reportFormat (report : AdcCalReport) :
    (Reply.reportFormat report).1.bound ≤ 400 ∧ (Reply.reportFormat report).2.bound ≤ 100 := by
  obtain ⟨a, b, isDefault, points, rawMv, calibratedMv⟩ := report
  constructor
  · change (Reply.reportFormat ⟨0, 0, isDefault, [], 0, 0⟩).1.bound ≤ 400
    cases isDefault <;> decide
  · change (Reply.reportFormat ⟨0, 0, false, [], 0, 0⟩).2.bound ≤ 100
    decide

/-- The floats of a response, as parts of its formats. -/
def ResponseBody.floats : ResponseBody → Format
  | .buretteStatus state volumeMl => statusFormat state volumeMl
  | .calibration stepsPerMl nominalVolumeMl speedCoeff minFreqHz maxFreqHz =>
    calibrationFormat stepsPerMl nominalVolumeMl speedCoeff minFreqHz maxFreqHz
  | .volumeCalibration zFactor actualVolumeMl newStepsPerMl relativeErrorPct =>
    volumeCalibrationFormat zFactor actualVolumeMl newStepsPerMl relativeErrorPct
  | .speedCalibration k rSquared minFreqHz maxFreqHz =>
    speedCalibrationFormat k rSquared minFreqHz maxFreqHz
  | .savedCalibration stepsPerMl nominalVolumeMl =>
    savedCalibrationFormat stepsPerMl nominalVolumeMl
  | .calResult (some r) => (calResultFormats r).flatten
  | _ => []

def Reply.floats : Reply → Format
  | .body b => b.floats
  | .temperature tempCX100 => [.float 1 (temperatureC tempCX100)]
  | .adcReport report => .float 6 report.a :: report.points.flatMap pointFormat
  | .adcComputed a _ rSquared => [.double 6 a, .double 4 rSquared]
  | _ => []

/-- Every float that is printed is finite. -/
def Reply.FloatsFinite (r : Reply) : Prop := ∀ c ∈ r.floats, c.IsFinite

/-- What no handler goes beyond: the texts it passes on, and the number of the points. -/
def ResponseBody.Regular : ResponseBody → Prop
  | .status payload => (∃ w : Value, w.text = payload.toList) ∧ payload.utf8ByteSize ≤ 100
  | .error message => IsMessage message
  | .elsewhere => False
  | _ => True

def Reply.Regular : Reply → Prop
  | .body b => b.Regular
  | .adcReport report => report.points.length ≤ 5
  | _ => True

theorem printsObject_report {report : AdcCalReport} (hcount : report.points.length ≤ 5)
    (hf : (Reply.adcReport report).FloatsFinite) : PrintsObject (Reply.printReport report) := by
  have hsize : Config.maxRspSize = 2048 := rfl
  obtain ⟨hinside, w, hlength, hstring⟩ :=
    prints_points hcount fun c hc => hf c (.tail _ hc)
  obtain ⟨hfirst, hsecond⟩ := bound_reportFormat report
  have hfinite : ∀ c ∈ (Reply.reportFormat report).1, c.IsFinite := by
    have ha := hf _ List.mem_cons_self
    simpa [Reply.reportFormat, Directive.IsFinite] using ha
  have hfinite' : ∀ c ∈ (Reply.reportFormat report).2, c.IsFinite := by
    simp [Reply.reportFormat, Directive.IsFinite]
  have hlength1 := (Format.length_chars_le hfinite).trans hfirst
  have hlength2 := (Format.length_chars_le hfinite').trans hsecond
  have htext : utf8 (Reply.reportFormat report).1.print ++ (Reply.printPoints report.points).string ++
      utf8 (Reply.reportFormat report).2.print =
        utf8 ((Reply.reportFormat report).1.chars ++ w.text ++
          (Reply.reportFormat report).2.chars) := by
    rw [hstring, Format.print_eq hfinite, Format.print_eq hfinite', utf8_append, utf8_append]
  have hall : (utf8 ((Reply.reportFormat report).1.chars ++ w.text ++
      (Reply.reportFormat report).2.chars)).length ≤ 900 := by
    rw [utf8_append, utf8_append, List.length_append, List.length_append]
    omega
  refine ⟨_, 900, ⟨?_, hall⟩, compact_report⟩
  generalize (Reply.reportFormat report).1.chars ++ w.text ++
    (Reply.reportFormat report).2.chars = t at htext hall
  have hempty : freshBody.Holds Config.maxRspSize [] := prints_freshBody.holds
  have hfits : ([] : List UInt8).length + (utf8 t).length < Config.maxRspSize := by
    rw [List.length_nil]
    omega
  have hreport : Reply.printReport report = freshBody.snprintf (utf8 t) := by
    unfold Reply.printReport
    dsimp only
    rw [htext, hinside, Bool.and_true]
  rw [hreport]
  exact hempty.snprintf hfits

theorem printsObject_printSingle {payload : String} (w : Value) (hw : w.text = payload.toList)
    (hlength : payload.utf8ByteSize ≤ 100) : PrintsObject (printSingle [.text payload]) := by
  have hchars : w.text = Format.chars [.text payload] := by
    rw [hw]
    exact (List.append_nil _).symm
  refine printsObject_fresh (by simp [Directive.IsFinite]) ?_ (compact_single w hchars)
  have hopening : "\x7b\"status\":\"ok\",\"data\":".utf8ByteSize = 22 := by decide
  have hclosing : "\x7d".utf8ByteSize = 1 := by decide
  have hsize : Config.maxRspSize = 2048 := rfl
  change "\x7b\"status\":\"ok\",\"data\":".utf8ByteSize +
    (payload.utf8ByteSize + ("\x7d".utf8ByteSize + 0)) < Config.maxRspSize
  omega

theorem ValvePosition.str_plain (pos : ValvePosition) : ∀ c ∈ pos.str.toList, IsPlain c := by
  cases pos <;> decide

theorem printsObject_position {pos : ValvePosition} :
    PrintsObject (ResponseBody.position pos).print := by
  refine printsObject_fresh (by simp [Directive.IsFinite]) (by cases pos <;> decide) ?_
  apply compact_okMembers [positionMember pos.str pos.str_plain]
  simp [-String.reduceToList, positionMember, Format.chars, Directive.chars, Written.memberText]
  repeat rw [String.toList_ofList]
  simp

theorem printsObject_threshold {value : ℕ} :
    PrintsObject (ResponseBody.threshold value).print := by
  refine printsObject_fresh (by simp [Directive.IsFinite]) ?_ ?_
  · change Format.bound [.text "\x7b\"cmd\":\"stallGuard.setThreshold\",\"threshold\":",
      .unsigned 8 0, .text "\x7d"] < Config.maxRspSize
    decide
  · apply compact_members (thresholdMembers value) (List.cons_ne_nil _ _)
    simp [-String.reduceToList, thresholdMembers, Format.chars, Directive.chars, Written.memberText]
    repeat rw [String.toList_ofList]
    simp

theorem printsObject_accepted : PrintsObject printAckThen := by
  refine printsObject_fresh (by simp [Directive.IsFinite]) (by decide) ?_
  apply compact_okMembers [acceptedMember]
  simp [-String.reduceToList, acceptedMember, Format.chars, Directive.chars, Written.memberText]
  repeat rw [String.toList_ofList]
  simp

theorem printsObject_body {b : ResponseBody} (hb : b.Regular) (hf : ∀ c ∈ b.floats, c.IsFinite) :
    PrintsObject b.print := by
  cases b with
  | status payload =>
    obtain ⟨⟨w, hw⟩, hlength⟩ := hb
    exact printsObject_printSingle w hw hlength
  | error message => exact printsObject_printError hb
  | accepted => exact printsObject_accepted
  | position pos => exact printsObject_position
  | buretteStatus state volumeMl => exact printsObject_printStatus hf
  | calibration stepsPerMl nominalVolumeMl speedCoeff minFreqHz maxFreqHz =>
    refine printsObject_calibration hf ?_ compact_calibration
    change (calibrationFormat 0 0 0 0 0).bound ≤ 1000
    decide
  | volumeCalibration zFactor actualVolumeMl newStepsPerMl relativeErrorPct =>
    refine printsObject_printCal hf ?_ compact_volumeCalibration
    change (volumeCalibrationFormat 0 0 0 .nan).bound ≤ 1000
    decide
  | speedCalibration k rSquared minFreqHz maxFreqHz =>
    refine printsObject_printCal hf ?_ compact_speedCalibration
    change (speedCalibrationFormat 0 0 0 0).bound ≤ 1000
    decide
  | savedCalibration stepsPerMl nominalVolumeMl =>
    refine printsObject_printCal hf ?_ compact_savedCalibration
    change (savedCalibrationFormat 0 0).bound ≤ 1000
    decide
  | calResult result =>
    cases result with
    | some r => exact printsObject_calResult hf
    | none =>
      refine printsObject_fresh (by simp [Directive.IsFinite]) (by decide) ?_
      apply compact_okMembers [noResult]
      simp [-String.reduceToList, noResult, Format.chars, Directive.chars, Written.memberText]
      repeat rw [String.toList_ofList]
      simp
  | registersQueued =>
    refine printsObject_fresh (by simp [Directive.IsFinite]) (by decide) ?_
    apply compact_of_eq acceptedMember []
    simp [-String.reduceToList, acceptedMember, Format.chars, Directive.chars, Written.memberText]
    repeat rw [String.toList_ofList]
    simp
  | threshold value => exact printsObject_threshold
  | elsewhere => exact hb.elim

theorem printsObject_reply {r : Reply} (hr : r.Regular) (hf : r.FloatsFinite) :
    PrintsObject r.print := by
  cases r with
  | body b => exact printsObject_body hr hf
  | temperature tempCX100 =>
    refine printsObject_fresh ?_ ?_ ?_
    · simpa [Directive.IsFinite, Reply.FloatsFinite, Reply.floats] using hf
    · change Format.bound [.text "\x7b\"cmd\":\"temperature.read\",\"temperature\":",
        .float 1 .nan, .text "\x7d"] < Config.maxRspSize
      decide
    · apply compact_members (temperatureMembers (Reply.temperatureC tempCX100))
        (List.cons_ne_nil _ _)
      simp [-String.reduceToList, temperatureMembers, Format.chars, Directive.chars,
        Written.memberText]
      repeat rw [String.toList_ofList]
      simp
  | adcReport report => exact printsObject_report hr hf
  | adcSaved aX1000 b =>
    refine printsObject_fresh (by simp [Directive.IsFinite]) ?_ ?_
    · change Format.bound [.text "\x7b\"cmd\":\"adc.cal.save\",\"status\":\"ok\",\"aX1000\":",
        .unsigned 16 0, .text ",\"b\":", .signed 16 0, .text "\x7d"] < Config.maxRspSize
      decide
    · apply compact_members (adcSavedMembers aX1000 b) (List.cons_ne_nil _ _)
      simp [-String.reduceToList, adcSavedMembers, statusOk, Format.chars, Directive.chars,
        Written.memberText]
      repeat rw [String.toList_ofList]
      simp
  | adcMeasured index median =>
    refine printsObject_fresh (by simp [Directive.IsFinite]) ?_ ?_
    · change Format.bound [.text "\x7b\"status\":\"ok\",\"point\":", .unsigned 32 0,
        .text ",\"voltage_mV\":", .unsigned 16 0, .text "\x7d"] < Config.maxRspSize
      decide
    · apply compact_members (adcMeasuredMembers index median) (List.cons_ne_nil _ _)
      simp [-String.reduceToList, adcMeasuredMembers, statusOk, Format.chars, Directive.chars,
        Written.memberText]
      repeat rw [String.toList_ofList]
      simp
  | adcComputed a b rSquared =>
    refine printsObject_fresh ?_ ?_ ?_
    · simpa [Directive.IsFinite, Reply.FloatsFinite, Reply.floats] using hf
    · change Format.bound [.text "\x7b\"status\":\"ok\",\"data\":\x7b\"a\":", .double 6 .nan,
        .text ",\"b\":", .signed 16 0, .text ",\"r_squared\":", .double 4 .nan,
        .text "\x7d\x7d"] < Config.maxRspSize
      decide
    · apply compact_okMembers (adcComputedMembers a b rSquared)
      simp [-String.reduceToList, adcComputedMembers, Format.chars, Directive.chars,
        Written.memberText]
      repeat rw [String.toList_ofList]
      simp
  | adcReset =>
    refine printsObject_fresh (by simp [Directive.IsFinite]) (by decide) ?_
    apply compact_of_eq statusOk []
    simp [-String.reduceToList, statusOk, Format.chars, Directive.chars, Written.memberText]
    repeat rw [String.toList_ofList]
    simp
  | formattedLogs =>
    refine printsObject_fresh (by simp [Directive.IsFinite]) (by decide) ?_
    apply compact_members formattedLogsMembers (List.cons_ne_nil _ _)
    simp [-String.reduceToList, formattedLogsMembers, Format.chars, Directive.chars,
      Written.memberText]
    repeat rw [String.toList_ofList]
    simp
  | logEntries =>
    refine printsObject_fresh (by simp [Directive.IsFinite]) (by decide) ?_
    apply compact_members readLogMembers (List.cons_ne_nil _ _)
    simp [-String.reduceToList, readLogMembers, Format.chars, Directive.chars, Written.memberText]
    repeat rw [String.toList_ofList]
    simp
  | firmwareVersion =>
    refine printsObject_fresh (by simp [Directive.IsFinite]) (by decide) ?_
    apply compact_members firmwareVersionMembers (List.cons_ne_nil _ _)
    simp [-String.reduceToList, firmwareVersionMembers, Format.chars, Directive.chars,
      Written.memberText]
    repeat rw [String.toList_ofList]
    simp
  | ping =>
    refine printsObject_fresh (by simp [Directive.IsFinite]) (by decide) ?_
    refine compact_single (.object [statusOk]) ?_
    simp [-String.reduceToList, statusOk, Format.chars, Directive.chars, Written.memberText]
    repeat rw [String.toList_ofList]
    simp

end Ecotiter
