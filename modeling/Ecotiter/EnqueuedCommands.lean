import Ecotiter.FinderResults

/-!
# The commands that the motor controller enqueues

`MotorControllerImpl::sendCommand` makes a `MotorCommand` of a JSON object with the finders. A
direction is recognised by what it begins with, and only `setSpeed` compares a value with its
bounds.
-/

namespace Ecotiter
open BoundedOutput JsonText NumberScan

namespace MotorController

def cmdKey : Key := ⟨utf8 "cmd".toList, by decide⟩
def directionKey : Key := ⟨utf8 "direction".toList, by decide⟩
def accelKey : Key := ⟨utf8 "accelHzPerS".toList, by decide⟩
def stepsKey : Key := ⟨utf8 "steps".toList, by decide⟩
def thresholdKey : Key := ⟨utf8 "threshold".toList, by decide⟩

/-- What `sendCommand` loads of the globals. -/
structure Loaded where
  speed : ℕ
  accel : ℕ
  direction : Direction

open MotorCommandType in
def cmdNames : List (List UInt8 × MotorCommandType) :=
  [(utf8 "stop".toList, stop), (utf8 "emergencyStop".toList, emergencyStop),
   (utf8 "home".toList, home), (utf8 "setDirection".toList, setDirection),
   (utf8 "setSpeed".toList, setSpeed), (utf8 "setAccel".toList, setAccel),
   (utf8 "moveSteps".toList, moveSteps), (utf8 "setStallThreshold".toList, setStallThreshold)]

/-- The name is copied into 32 bytes and compared up to its terminator. -/
def typeOf (cmdVal : List UInt8) : Option MotorCommandType :=
  if cmdVal.length = 0 ∨ 31 < cmdVal.length then none
  else cmdNames.lookup (cmdVal.takeWhile (· ≠ 0))

def directionName : Direction → List UInt8
  | .liqIn => utf8 "liqIn".toList
  | .liqOut => utf8 "liqOut".toList

/-- `strncmp` with the length of the name. -/
def directionOfText (dirVal : List UInt8) : Option Direction :=
  if directionName .liqIn <+: dirVal then some .liqIn
  else if directionName .liqOut <+: dirVal then some .liqOut
  else none

def toUint32 (z : ℤ) : ℕ := (z % 2 ^ 32).toNat

def toUint8 (z : ℤ) : ℕ := (z % 2 ^ 8).toNat

def initialCommand (g : Loaded) (type : MotorCommandType) : MotorCommand where
  type := type
  steps := 0
  direction := .liqIn
  speedHz := g.speed
  accelHzPerS := g.accel
  stallThreshold := 0

/-- The command with the values of its type; the inner `none` is refused. -/
def motorCommand (g : Loaded) (json : List UInt8) (type : MotorCommandType) :
    Option (Option MotorCommand) :=
  let cmd := initialCommand g type
  match type with
  | .setDirection => do
    let dirVal ← findJsonString json directionKey.bytes
    return (dirVal.bind directionOfText).map fun direction => { cmd with direction }
  | .setSpeed => do
    let speed ← findJsonInt json speedKey.bytes
    return speed.bind fun speed =>
      if speed < Config.stepFreqMinHz ∨ Config.stepFreqMaxHz < speed then none
      else some { cmd with speedHz := toUint32 speed }
  | .setAccel => do
    let accel ← findJsonInt json accelKey.bytes
    return accel.map fun accel => { cmd with accelHzPerS := toUint32 accel }
  | .moveSteps => do
    let steps ← findJsonInt json stepsKey.bytes
    match steps with
    | none => return none
    | some steps =>
      let dirVal ← findJsonString json directionKey.bytes
      match dirVal.elim (some g.direction) directionOfText with
      | none => return none
      | some direction =>
        let speed ← findJsonInt json speedKey.bytes
        let accel ← findJsonInt json accelKey.bytes
        return some { cmd with
          steps
          direction
          speedHz := (speed.map toUint32).getD cmd.speedHz
          accelHzPerS := (accel.map toUint32).getD cmd.accelHzPerS }
  | .setStallThreshold => do
    let threshold ← findJsonInt json thresholdKey.bytes
    return threshold.map fun threshold => { cmd with stallThreshold := toUint8 threshold }
  | _ => return some cmd

/-- `xQueueSend` to a queue that may not exist. -/
def enqueue (capacity : ℕ) (queue : Option (List MotorCommand)) (cmd : MotorCommand) :
    Bool × Option (List MotorCommand) :=
  match queue with
  | none => (false, none)
  | some q => if q.length < capacity then (true, some (q ++ [cmd])) else (false, some q)

/-- The returned flag and the queue; the outer `none` is a read behind the text. -/
def sendCommand (g : Loaded) (capacity : ℕ) (queue : Option (List MotorCommand))
    (cmdJson : List UInt8) : Option (Bool × Option (List MotorCommand)) := do
  let cmdVal ← findJsonString cmdJson cmdKey.bytes
  match cmdVal.bind typeOf with
  | none => return (false, queue)
  | some type =>
    match ← motorCommand g cmdJson type with
    | none => return (false, queue)
    | some cmd => return enqueue capacity queue cmd

/-! ## What an exact command is -/

/-- The integer that the only member with the name states. -/
def States (o : FlatObject) (key : Key) (z : ℤ) : Prop :=
  ∀ m n, named o key = [m] → m.value = .number n → asInt m.value = some z

/-- A step frequency that the driver accepts. -/
def InRange (speedHz : ℤ) : Prop :=
  (Config.stepFreqMinHz : ℤ) ≤ speedHz ∧ speedHz ≤ Config.stepFreqMaxHz

/-- The command has the values of the members that its type uses, and its frequency is in range. -/
structure IsExact (o : FlatObject) (cmd : MotorCommand) : Prop where
  direction : cmd.type = .setDirection ∨ cmd.type = .moveSteps → ∀ m s,
    named o directionKey = [m] → m.value = .string s →
      utf8 (characters s) = directionName cmd.direction
  frequency : cmd.type = .setSpeed → InRange cmd.speedHz
  frequencyOverride : cmd.type = .moveSteps → ∀ m n,
    named o speedKey = [m] → m.value = .number n → InRange cmd.speedHz
  speed : cmd.type = .setSpeed ∨ cmd.type = .moveSteps → States o speedKey cmd.speedHz
  steps : cmd.type = .moveSteps → States o stepsKey cmd.steps
  accel : cmd.type = .setAccel ∨ cmd.type = .moveSteps → States o accelKey cmd.accelHzPerS
  threshold : cmd.type = .setStallThreshold → States o thresholdKey cmd.stallThreshold

/-- What is accepted is exact, and only the text is read. -/
structure SendsExactly (g : Loaded) (capacity : ℕ) (queue : Option (List MotorCommand))
    (o : FlatObject) : Prop where
  inside : (sendCommand g capacity queue o.bytes).isSome
  exact : ∀ queue', sendCommand g capacity queue o.bytes = some (true, queue') →
    ∃ q cmd, queue = some q ∧ queue' = some (q ++ [cmd]) ∧ IsExact o cmd

/-! ## When it is exact -/

/-- No carriage return hides the member from the finders. -/
def Visible (m : FlatMember) : Prop := .carriageReturn ∉ m.mid ∧ .carriageReturn ∉ m.gap

instance (m : FlatMember) : Decidable (Visible m) := inferInstanceAs (Decidable (_ ∧ _))

/-- The string and the integer that the finders find. -/
def stringAt (o : FlatObject) (key : Key) : Option (List UInt8) :=
  (named o key).findSome? (takenBehind takenString)

def intAt (o : FlatObject) (key : Key) : Option ℤ :=
  (named o key).findSome? (takenBehind takenInt)

/-- The direction of a move, if it is not refused. -/
def moveDirection (g : Loaded) (o : FlatObject) : Option Direction :=
  (stringAt o directionKey).elim (some g.direction) directionOfText

/-- The members of a move are exact for the command. An override that is hidden has to be what is in
force. -/
structure IsMove (g : Loaded) (o : FlatObject) : Prop where
  steps : ∀ m n, named o stepsKey = [m] → m.value = .number n →
    n.isInteger ∧ -2 ^ 31 ≤ integerPart n ∧ integerPart n ≤ 2 ^ 31 - 1
  direction : ∀ m s, named o directionKey = [m] → m.value = .string s →
    if Visible m then ∃ d, utf8 (characters s) = directionName d
    else utf8 (characters s) = directionName g.direction
  speed : ∀ m n, named o speedKey = [m] → m.value = .number n →
    n.isInteger ∧ InRange (integerPart n) ∧ (Visible m ∨ integerPart n = g.speed)
  accel : ∀ m n, named o accelKey = [m] → m.value = .number n →
    n.isInteger ∧
      if Visible m then 0 ≤ integerPart n ∧ integerPart n ≤ 2 ^ 31 - 1
      else integerPart n = g.accel

/-- The members that a type of command uses are exact for the command. -/
def Fits (g : Loaded) (o : FlatObject) : MotorCommandType → Prop
  | .setDirection => ∀ m s d, named o directionKey = [m] → m.value = .string s → Visible m →
    directionOfText (utf8 (characters s)) = some d → utf8 (characters s) = directionName d
  | .setSpeed => ∀ m n, named o speedKey = [m] → m.value = .number n → Visible m →
    InRange (integerPart n) → n.isInteger
  | .setAccel => ∀ m n, named o accelKey = [m] → m.value = .number n → Visible m →
    n.isInteger ∧ 0 ≤ integerPart n ∧ integerPart n ≤ 2 ^ 31 - 1
  | .setStallThreshold => ∀ m n, named o thresholdKey = [m] → m.value = .number n → Visible m →
    n.isInteger ∧ 0 ≤ integerPart n ∧ integerPart n ≤ 255
  | .moveSteps => (intAt o stepsKey).isSome → (moveDirection g o).isSome → IsMove g o
  | _ => True

/-- A queue with a place for one more command. -/
def HasRoom (capacity : ℕ) (queue : Option (List MotorCommand)) : Prop :=
  ∃ q, queue = some q ∧ q.length < capacity

/-! ## The readings of an object -/

variable {g : Loaded} {o : FlatObject} {key : Key} {m : FlatMember}

theorem findJsonString_object (o : FlatObject) (key : Key) :
    findJsonString o.bytes key.bytes = some (stringAt o key) := by
  rw [findJsonString_eq, scan_object takes_string key.letters, findSome_foundIn]
  rfl

theorem findJsonInt_object (o : FlatObject) (key : Key) :
    findJsonInt o.bytes key.bytes = some (intAt o key) := by
  rw [findJsonInt, scan_object takes_int key.letters, findSome_foundIn]
  rfl

/-- The command that is made of the readings. -/
def build (g : Loaded) (o : FlatObject) (type : MotorCommandType) : Option MotorCommand :=
  let cmd := initialCommand g type
  match type with
  | .setDirection => ((stringAt o directionKey).bind directionOfText).map fun direction =>
    { cmd with direction }
  | .setSpeed => (intAt o speedKey).bind fun speed =>
    if speed < Config.stepFreqMinHz ∨ Config.stepFreqMaxHz < speed then none
    else some { cmd with speedHz := toUint32 speed }
  | .setAccel => (intAt o accelKey).map fun accel => { cmd with accelHzPerS := toUint32 accel }
  | .moveSteps => (intAt o stepsKey).bind fun steps => (moveDirection g o).map fun direction =>
    { cmd with
      steps
      direction
      speedHz := ((intAt o speedKey).map toUint32).getD cmd.speedHz
      accelHzPerS := ((intAt o accelKey).map toUint32).getD cmd.accelHzPerS }
  | .setStallThreshold => (intAt o thresholdKey).map fun threshold =>
    { cmd with stallThreshold := toUint8 threshold }
  | _ => some cmd

theorem motorCommand_object (g : Loaded) (o : FlatObject) (type : MotorCommandType) :
    motorCommand g o.bytes type = some (build g o type) := by
  cases type with
  | moveSteps =>
    simp only [motorCommand, build, findJsonString_object, findJsonInt_object, Option.bind_eq_bind,
      Option.bind_some]
    cases intAt o stepsKey with
    | none => rfl
    | some steps =>
      change (match moveDirection g o with
        | none => some none
        | some direction => _) = _
      cases moveDirection g o <;> rfl
  | _ =>
    simp only [motorCommand, build, findJsonString_object, findJsonInt_object, Option.bind_eq_bind,
      Option.bind_some]
    rfl

theorem sendCommand_object (g : Loaded) (capacity : ℕ) (queue : Option (List MotorCommand))
    (o : FlatObject) :
    sendCommand g capacity queue o.bytes = some
      ((((stringAt o cmdKey).bind typeOf).bind (build g o)).elim (false, queue)
        (enqueue capacity queue)) := by
  rw [sendCommand, findJsonString_object]
  simp only [Option.bind_eq_bind, Option.bind_some]
  cases (stringAt o cmdKey).bind typeOf with
  | none => rfl
  | some type =>
    simp only [motorCommand_object, Option.bind_some]
    cases build g o type <;> rfl

theorem enqueue_true_iff (capacity : ℕ) (queue queue' : Option (List MotorCommand))
    (cmd : MotorCommand) : enqueue capacity queue cmd = (true, queue') ↔
      ∃ q, queue = some q ∧ q.length < capacity ∧ queue' = some (q ++ [cmd]) := by
  cases queue with
  | none => simp [enqueue]
  | some q =>
    by_cases hroom : q.length < capacity
    · simp [enqueue, hroom, eq_comm]
    · simp [enqueue, hroom]

/-! ## The only member with a name -/

theorem stringAt_only {s : List Piece} (hm : named o key = [m]) (hs : m.value = .string s) :
    stringAt o key = if Visible m then some (utf8 (characters s)) else none := by
  rw [stringAt, hm, List.findSome?_singleton, takenBehind, takenString, hs]
  by_cases hmid : .carriageReturn ∈ m.mid
  · simp [hmid, Visible]
  · by_cases hgap : .carriageReturn ∈ m.gap
    · simp [hmid, hgap, Visible, FinderBlanks]
    · simp [hmid, hgap, Visible, FinderBlanks, asString]

/-- The integer part in the range of a 32-bit `long`. -/
def saturated (n : NumberText) : ℤ := max (-2 ^ 31) (min (2 ^ 31 - 1) (integerPart n))

theorem intAt_only {n : NumberText} (hm : named o key = [m]) (hn : m.value = .number n) :
    intAt o key = if Visible m then some (saturated n) else none := by
  have htaken : takenInt m = if FinderBlanks m then some (saturated n) else none := by
    rw [takenInt, hn]
    rfl
  rw [intAt, hm, List.findSome?_singleton, takenBehind, htaken]
  by_cases hmid : .carriageReturn ∈ m.mid
  · simp [hmid, Visible]
  · by_cases hgap : .carriageReturn ∈ m.gap
    · simp [hmid, hgap, Visible, FinderBlanks]
    · simp [hmid, hgap, Visible, FinderBlanks]

theorem asInt_number_iff (n : NumberText) (z : ℤ) :
    asInt (.number n) = some z ↔ n.isInteger ∧ integerPart n = z := by
  unfold asInt
  split <;> simp_all

theorem saturated_eq_iff (n : NumberText) :
    integerPart n = saturated n ↔ -2 ^ 31 ≤ integerPart n ∧ integerPart n ≤ 2 ^ 31 - 1 := by
  unfold saturated
  omega

theorem toUint32_saturated_iff (n : NumberText) :
    integerPart n = toUint32 (saturated n) ↔ 0 ≤ integerPart n ∧ integerPart n ≤ 2 ^ 31 - 1 := by
  unfold toUint32 saturated
  omega

theorem toUint8_saturated_iff (n : NumberText) :
    integerPart n = toUint8 (saturated n) ↔ 0 ≤ integerPart n ∧ integerPart n ≤ 255 := by
  unfold toUint8 saturated
  omega

/-- Between the bounds of the frequency nothing is changed. -/
theorem inRange_saturated_iff (n : NumberText) :
    InRange (saturated n) ↔ InRange (integerPart n) := by
  unfold InRange saturated Config.stepFreqMinHz Config.stepFreqMaxHz
  omega

theorem inRange_toUint32_iff (n : NumberText) :
    InRange (toUint32 (saturated n)) ↔ InRange (integerPart n) := by
  unfold InRange toUint32 saturated Config.stepFreqMinHz Config.stepFreqMaxHz
  omega

theorem toUint32_of_inRange {n : NumberText} (h : InRange (integerPart n)) :
    integerPart n = toUint32 (saturated n) := by
  rw [toUint32_saturated_iff]
  unfold InRange Config.stepFreqMinHz Config.stepFreqMaxHz at h
  omega

theorem directionOfText_name (d : Direction) : directionOfText (directionName d) = some d := by
  cases d <;> decide

/-! ## Each type of command -/

theorem setDirection_iff :
    (∀ cmd, build g o .setDirection = some cmd → IsExact o cmd) ↔ Fits g o .setDirection := by
  constructor
  · intro h m s d hm hs hvisible hd
    have hstring := stringAt_only hm hs
    rw [if_pos hvisible] at hstring
    have hbuild : build g o .setDirection =
        some { initialCommand g .setDirection with direction := d } := by
      simp [build, hstring, hd]
    exact (h _ hbuild).direction (.inl rfl) m s hm hs
  · intro h cmd hbuild
    obtain ⟨d, hd, rfl⟩ := Option.map_eq_some_iff.mp hbuild
    refine ⟨?_, nofun, nofun, nofun, nofun, nofun, nofun⟩
    intro _ m s hm hs
    have hstring := stringAt_only hm hs
    by_cases hvisible : Visible m
    · rw [if_pos hvisible] at hstring
      rw [hstring, Option.bind_some] at hd
      exact h m s d hm hs hvisible hd
    · rw [if_neg hvisible] at hstring
      rw [hstring] at hd
      cases hd

theorem setSpeed_iff :
    (∀ cmd, build g o .setSpeed = some cmd → IsExact o cmd) ↔ Fits g o .setSpeed := by
  have hbuild : ∀ cmd, build g o .setSpeed = some cmd ↔ ∃ speed, intAt o speedKey = some speed ∧
      InRange speed ∧ { initialCommand g .setSpeed with speedHz := toUint32 speed } = cmd := by
    intro cmd
    simp only [build, Option.bind_eq_some_iff]
    apply exists_congr
    intro speed
    unfold InRange
    by_cases hrange : speed < Config.stepFreqMinHz ∨ Config.stepFreqMaxHz < speed
    · rw [if_pos hrange]
      constructor
      · rintro ⟨-, h⟩
        cases h
      · rintro ⟨-, ⟨hlow, hhigh⟩, -⟩
        omega
    · rw [if_neg hrange, Option.some.injEq]
      have hlow : (Config.stepFreqMinHz : ℤ) ≤ speed ∧ speed ≤ Config.stepFreqMaxHz := by omega
      exact ⟨fun h => ⟨h.1, hlow, h.2⟩, fun h => ⟨h.1, h.2.2⟩⟩
  constructor
  · intro h m n hm hn hvisible hrange
    have hint := intAt_only hm hn
    rw [if_pos hvisible] at hint
    have hexact := h _ ((hbuild _).mpr ⟨_, hint, (inRange_saturated_iff n).mpr hrange, rfl⟩)
    have hstates := hexact.speed (.inl rfl) m n hm hn
    rw [hn] at hstates
    exact ((asInt_number_iff n _).mp hstates).1
  · intro h cmd hcmd
    obtain ⟨speed, hint, hrange, rfl⟩ := (hbuild cmd).mp hcmd
    refine ⟨nofun, ?_, nofun, ?_, nofun, nofun, nofun⟩
    · intro _
      unfold InRange toUint32 Config.stepFreqMinHz Config.stepFreqMaxHz at *
      change (_ : ℤ) ≤ ((speed % 2 ^ 32).toNat : ℤ) ∧ ((speed % 2 ^ 32).toNat : ℤ) ≤ _
      omega
    · intro _ m n hm hn
      have hvalue := intAt_only hm hn
      rw [hint] at hvalue
      by_cases hvisible : Visible m
      · rw [if_pos hvisible, Option.some.injEq] at hvalue
        rw [hvalue, inRange_saturated_iff] at hrange
        rw [hn, asInt_number_iff]
        refine ⟨h m n hm hn hvisible hrange, ?_⟩
        rw [hvalue]
        exact toUint32_of_inRange hrange
      · rw [if_neg hvisible] at hvalue
        cases hvalue

/-- What is found states its member if and only if the conversion keeps it. -/
theorem states_found_iff {conv : ℤ → ℕ} (range : ℤ → Prop)
    (hconv : ∀ n, integerPart n = conv (saturated n) ↔ range (integerPart n)) (key : Key) :
    (∀ z, intAt o key = some z → States o key (conv z)) ↔
      ∀ m n, named o key = [m] → m.value = .number n → Visible m →
        n.isInteger ∧ range (integerPart n) := by
  constructor
  · intro h m n hm hn hvisible
    have hint := intAt_only hm hn
    rw [if_pos hvisible] at hint
    have hstates := h _ hint m n hm hn
    rw [hn, asInt_number_iff] at hstates
    exact ⟨hstates.1, (hconv n).mp hstates.2⟩
  · intro h z hint m n hm hn
    have hvalue := intAt_only hm hn
    rw [hint] at hvalue
    by_cases hvisible : Visible m
    · rw [if_pos hvisible, Option.some.injEq] at hvalue
      obtain ⟨hinteger, hrange⟩ := h m n hm hn hvisible
      rw [hn, asInt_number_iff, hvalue]
      exact ⟨hinteger, (hconv n).mpr hrange⟩
    · rw [if_neg hvisible] at hvalue
      cases hvalue

theorem setAccel_iff :
    (∀ cmd, build g o .setAccel = some cmd → IsExact o cmd) ↔ Fits g o .setAccel := by
  have hfound : (∀ z, intAt o accelKey = some z → States o accelKey (toUint32 z)) ↔
      Fits g o .setAccel :=
    states_found_iff (fun z => 0 ≤ z ∧ z ≤ 2 ^ 31 - 1) toUint32_saturated_iff accelKey
  rw [← hfound]
  constructor
  · intro h z hint
    have hbuild : build g o .setAccel =
        some { initialCommand g .setAccel with accelHzPerS := toUint32 z } := by
      simp [build, hint]
    exact (h _ hbuild).accel (.inl rfl)
  · intro h cmd hbuild
    obtain ⟨accel, hint, rfl⟩ := Option.map_eq_some_iff.mp hbuild
    exact ⟨nofun, nofun, nofun, nofun, nofun, fun _ => h accel hint, nofun⟩

theorem setStallThreshold_iff :
    (∀ cmd, build g o .setStallThreshold = some cmd → IsExact o cmd) ↔
      Fits g o .setStallThreshold := by
  have hfound : (∀ z, intAt o thresholdKey = some z → States o thresholdKey (toUint8 z)) ↔
      Fits g o .setStallThreshold :=
    states_found_iff (fun z => 0 ≤ z ∧ z ≤ 255) toUint8_saturated_iff thresholdKey
  rw [← hfound]
  constructor
  · intro h z hint
    have hbuild : build g o .setStallThreshold =
        some { initialCommand g .setStallThreshold with stallThreshold := toUint8 z } := by
      simp [build, hint]
    exact (h _ hbuild).threshold rfl
  · intro h cmd hbuild
    obtain ⟨threshold, hint, rfl⟩ := Option.map_eq_some_iff.mp hbuild
    exact ⟨nofun, nofun, nofun, nofun, nofun, nofun, fun _ => h threshold hint⟩

/-- The move that is made of the readings. -/
def moveCommand (g : Loaded) (o : FlatObject) (steps : ℤ) (direction : Direction) : MotorCommand :=
  { initialCommand g .moveSteps with
    steps
    direction
    speedHz := ((intAt o speedKey).map toUint32).getD g.speed
    accelHzPerS := ((intAt o accelKey).map toUint32).getD g.accel }

theorem moveSteps_direction_iff {d : Direction} (hd : moveDirection g o = some d) :
    (∀ m s, named o directionKey = [m] → m.value = .string s →
      utf8 (characters s) = directionName d) ↔
    ∀ m s, named o directionKey = [m] → m.value = .string s →
      if Visible m then ∃ d, utf8 (characters s) = directionName d
      else utf8 (characters s) = directionName g.direction := by
  apply forall₂_congr
  intro m s
  apply forall₂_congr
  intro hm hs
  have hstring := stringAt_only hm hs
  by_cases hvisible : Visible m
  · rw [if_pos hvisible] at hstring ⊢
    rw [moveDirection, hstring, Option.elim_some] at hd
    constructor
    · exact fun h => ⟨d, h⟩
    · rintro ⟨d', h⟩
      rw [h, directionOfText_name, Option.some.injEq] at hd
      rw [h, hd]
  · rw [if_neg hvisible] at hstring ⊢
    rw [moveDirection, hstring, Option.elim_none, Option.some.injEq] at hd
    rw [hd]

/-- The reading of a member with a default. -/
theorem intAt_getD {n : NumberText} (hm : named o key = [m]) (hn : m.value = .number n)
    (default : ℕ) : ((intAt o key).map toUint32).getD default =
      if Visible m then toUint32 (saturated n) else default := by
  rw [intAt_only hm hn]
  by_cases hvisible : Visible m <;> simp [hvisible]

theorem eq_saturated_of_found {n : NumberText} {z : ℤ} (hfound : intAt o key = some z)
    (hm : named o key = [m]) (hn : m.value = .number n) : z = saturated n := by
  have hint := intAt_only hm hn
  rw [hfound] at hint
  by_cases hvisible : Visible m
  · rw [if_pos hvisible, Option.some.injEq] at hint
    exact hint
  · rw [if_neg hvisible] at hint
    cases hint

section Move
variable {steps : ℤ} {d : Direction}

theorem isMove_of_isExact (hsteps : intAt o stepsKey = some steps)
    (hd : moveDirection g o = some d) (h : IsExact o (moveCommand g o steps d)) : IsMove g o := by
  refine ⟨?_, (moveSteps_direction_iff hd).mp (h.direction (.inr rfl)), ?_, ?_⟩
  · intro m n hm hn
    have hstates := h.steps rfl m n hm hn
    rw [hn, asInt_number_iff] at hstates
    refine ⟨hstates.1, (saturated_eq_iff n).mp ?_⟩
    rw [hstates.2, ← eq_saturated_of_found hsteps hm hn]
    rfl
  · intro m n hm hn
    have hstates := h.speed (.inr rfl) m n hm hn
    have hrange := h.frequencyOverride rfl m n hm hn
    rw [hn, asInt_number_iff] at hstates
    rw [← hstates.2] at hrange
    refine ⟨hstates.1, hrange, ?_⟩
    by_cases hvisible : Visible m
    · exact .inl hvisible
    · rw [moveCommand, intAt_getD hm hn, if_neg hvisible] at hstates
      exact .inr hstates.2
  · intro m n hm hn
    have hstates := h.accel (.inr rfl) m n hm hn
    rw [hn, asInt_number_iff, moveCommand, intAt_getD hm hn] at hstates
    refine ⟨hstates.1, ?_⟩
    by_cases hvisible : Visible m
    · rw [if_pos hvisible] at hstates ⊢
      exact (toUint32_saturated_iff n).mp hstates.2
    · rw [if_neg hvisible] at hstates ⊢
      exact hstates.2

theorem isExact_of_isMove (hsteps : intAt o stepsKey = some steps)
    (hd : moveDirection g o = some d) (h : IsMove g o) : IsExact o (moveCommand g o steps d) := by
  refine ⟨fun _ => (moveSteps_direction_iff hd).mpr h.direction, nofun, ?_, ?_, ?_, ?_, nofun⟩
  · intro _ m n hm hn
    obtain ⟨-, hrange, hvalue⟩ := h.speed m n hm hn
    rw [moveCommand, intAt_getD hm hn]
    by_cases hvisible : Visible m
    · rw [if_pos hvisible, inRange_toUint32_iff]
      exact hrange
    · rw [if_neg hvisible, ← hvalue.resolve_left hvisible]
      exact hrange
  · intro _ m n hm hn
    obtain ⟨hinteger, hrange, hvalue⟩ := h.speed m n hm hn
    rw [hn, asInt_number_iff, moveCommand, intAt_getD hm hn]
    refine ⟨hinteger, ?_⟩
    by_cases hvisible : Visible m
    · rw [if_pos hvisible]
      exact toUint32_of_inRange hrange
    · rw [if_neg hvisible]
      exact hvalue.resolve_left hvisible
  · intro _ m n hm hn
    obtain ⟨hinteger, hrange⟩ := h.steps m n hm hn
    rw [hn, asInt_number_iff]
    refine ⟨hinteger, ?_⟩
    change integerPart n = steps
    rw [eq_saturated_of_found hsteps hm hn]
    exact (saturated_eq_iff n).mpr hrange
  · intro _ m n hm hn
    obtain ⟨hinteger, hvalue⟩ := h.accel m n hm hn
    rw [hn, asInt_number_iff, moveCommand, intAt_getD hm hn]
    refine ⟨hinteger, ?_⟩
    by_cases hvisible : Visible m
    · rw [if_pos hvisible] at hvalue ⊢
      exact (toUint32_saturated_iff n).mpr hvalue
    · rw [if_neg hvisible] at hvalue ⊢
      exact hvalue

end Move

theorem moveSteps_iff :
    (∀ cmd, build g o .moveSteps = some cmd → IsExact o cmd) ↔ Fits g o .moveSteps := by
  have hbuild : ∀ cmd, build g o .moveSteps = some cmd ↔ ∃ steps d, intAt o stepsKey = some steps ∧
      moveDirection g o = some d ∧ moveCommand g o steps d = cmd := by
    intro cmd
    simp only [build, Option.bind_eq_some_iff, Option.map_eq_some_iff]
    constructor
    · rintro ⟨steps, hsteps, d, hd, hcmd⟩
      exact ⟨steps, d, hsteps, hd, hcmd⟩
    · rintro ⟨steps, d, hsteps, hd, hcmd⟩
      exact ⟨steps, hsteps, d, hd, hcmd⟩
  constructor
  · intro h hsteps hd
    obtain ⟨steps, hsteps⟩ := Option.isSome_iff_exists.mp hsteps
    obtain ⟨d, hd⟩ := Option.isSome_iff_exists.mp hd
    exact isMove_of_isExact hsteps hd (h _ ((hbuild _).mpr ⟨steps, d, hsteps, hd, rfl⟩))
  · intro h cmd hcmd
    obtain ⟨steps, d, hsteps, hd, rfl⟩ := (hbuild cmd).mp hcmd
    exact isExact_of_isMove hsteps hd (h (by rw [hsteps]; rfl) (by rw [hd]; rfl))

theorem build_exact_iff (g : Loaded) (o : FlatObject) (type : MotorCommandType) :
    (∀ cmd, build g o type = some cmd → IsExact o cmd) ↔ Fits g o type := by
  cases type with
  | setDirection => exact setDirection_iff
  | setSpeed => exact setSpeed_iff
  | setAccel => exact setAccel_iff
  | setStallThreshold => exact setStallThreshold_iff
  | moveSteps => exact moveSteps_iff
  | _ =>
    refine ⟨fun _ => trivial, ?_⟩
    intro _ cmd hcmd
    obtain rfl := Option.some.inj hcmd
    exact ⟨nofun, nofun, nofun, nofun, nofun, nofun, nofun⟩

/-- What is accepted is exact unless there is room for a command that the members do not fit. -/
theorem sendsExactly_iff (g : Loaded) (capacity : ℕ) (queue : Option (List MotorCommand))
    (o : FlatObject) : SendsExactly g capacity queue o ↔
      (HasRoom capacity queue → ∀ type, (stringAt o cmdKey).bind typeOf = some type →
        Fits g o type) := by
  have hsend := sendCommand_object g capacity queue o
  constructor
  · rintro h ⟨q, rfl, hroom⟩ type htype
    apply (build_exact_iff g o type).mp
    intro cmd hcmd
    have haccepted : sendCommand g capacity (some q) o.bytes = some (true, some (q ++ [cmd])) := by
      rw [hsend, htype, Option.bind_some, hcmd, Option.elim_some]
      exact congrArg some ((enqueue_true_iff _ _ _ _).mpr ⟨q, rfl, hroom, rfl⟩)
    obtain ⟨q', cmd', hq, hqueue, hexact⟩ := h.exact _ haccepted
    obtain rfl := Option.some.inj hq
    have hcmd' : cmd = cmd' := by simpa using hqueue
    rw [hcmd']
    exact hexact
  · intro h
    refine ⟨by rw [hsend]; rfl, ?_⟩
    intro queue' haccepted
    rw [hsend, Option.some.injEq] at haccepted
    cases htype : (stringAt o cmdKey).bind typeOf with
    | none =>
      rw [htype] at haccepted
      cases haccepted
    | some type =>
      rw [htype, Option.bind_some] at haccepted
      cases hcmd : build g o type with
      | none =>
        rw [hcmd] at haccepted
        cases haccepted
      | some cmd =>
        rw [hcmd, Option.elim_some, enqueue_true_iff] at haccepted
        obtain ⟨q, hqueue, hroom, hnext⟩ := haccepted
        have hfits := h ⟨q, hqueue, hroom⟩ type htype
        exact ⟨q, cmd, hqueue, hnext, (build_exact_iff g o type).mpr hfits cmd hcmd⟩

def stringMember (name value : String) (hname : ∀ c ∈ name.toList, IsPlain c := by decide)
    (hvalue : ∀ c ∈ value.toList, IsPlain c := by decide) : FlatMember where
  name := JsonText.plain name hname
  value := .string (JsonText.plain value hvalue)
  line := [.string (JsonText.plain value hvalue)]
  plain := isPlain_pieces _
  flat := by
    refine ⟨?_, by simp⟩
    intro s hs
    obtain rfl : s = JsonText.plain value hvalue := by simpa using hs
    exact isPlain_pieces _
  parses := .string _

def integerMember (name : String) (z : ℤ) (hname : ∀ c ∈ name.toList, IsPlain c := by decide) :
    FlatMember where
  name := JsonText.plain name hname
  value := .number (.ofInteger z)
  line := [.number (.ofInteger z)]
  plain := isPlain_pieces _
  flat := ⟨by simp, by simp⟩
  parses := .number _

def negativeAccel : FlatObject where
  members := [stringMember "cmd" "setAccel", integerMember "accelHzPerS" (-5)]

/-- A negative acceleration is enqueued as a large positive one. -/
theorem negativeAccel_not_exact : ¬ SendsExactly ⟨300, 1000, .liqIn⟩ 1 (some []) negativeAccel := by
  intro h
  have haccepted : sendCommand ⟨300, 1000, .liqIn⟩ 1 (some []) negativeAccel.bytes =
      some (true, some [{ initialCommand ⟨300, 1000, .liqIn⟩ .setAccel with
        accelHzPerS := 4294967291 }]) := by
    rw [sendCommand_object]
    decide +kernel
  obtain ⟨q, cmd, hq, hqueue, hexact⟩ := h.exact _ haccepted
  obtain rfl := Option.some.inj hq
  obtain rfl : _ = cmd := by simpa using hqueue
  have hnamed : named negativeAccel accelKey = [integerMember "accelHzPerS" (-5)] :=
    (List.filter_cons_of_neg (by decide)).trans (List.filter_cons_of_pos (by decide))
  have hstates := hexact.accel (.inl rfl) _ _ hnamed rfl
  revert hstates
  decide

end MotorController
end Ecotiter
