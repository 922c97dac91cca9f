import Ecotiter.DeviceActions

/-!
# The stepper driver

`StepperMotor` of `drivers/stepper.cpp`: step pulses are sent in chunks of at most 128 symbols, and
the stop flag is read before a chunk, before each attempt to transmit it and after each wait that
timed out. Every caller passes a stop flag.
-/

namespace Ecotiter
open Interleaving

/-- A program of one of the tasks of the firmware. -/
abbrev Firmware := Program Act

inductive StepperError
  | limitSwitchTriggered | rmt
  deriving DecidableEq, Repr

namespace Firmware

def load {α : Type} (v : Var α) : Firmware α := .perform (.load v)
def store {α : Type} (v : Var α) (x : α) : Firmware Unit := .perform (.store v x)
def poll (site : PollSite) (flag : StopFlag) : Firmware Bool := .perform (.poll site flag)
def storeStop (flag : StopFlag) (b : Bool) : Firmware Unit := .perform (.storeStop flag b)
def gpioSetLevel (pin : Pin) (level : Bool) : Firmware Unit := .perform (.gpioSetLevel pin level)
def vTaskDelay (ms : ℕ) : Firmware Unit := .perform (.vTaskDelay ms)
def taskWdtReset : Firmware Unit := .perform .taskWdtReset
def wsBroadcast (event : WsEvent) : Firmware Unit := .perform (.wsBroadcast event)

end Firmware
open Firmware

/-- The symbol for one step; the durations are fields of 15 bits. -/
def stepSymbol (interval : ℕ) : RmtSymbol :=
  let pulseUs := if interval ≤ 5 * 2 then interval / 2 else 5
  { duration0 := pulseUs % 2 ^ 16 % 2 ^ 15, level0 := true,
    duration1 := (interval - pulseUs) % 2 ^ 16 % 2 ^ 15, level1 := false }

namespace StepperMotor

def emergencyStop : Firmware Unit := do
  gpioSetLevel .en true
  let _ ← Program.perform (.rmtTxWaitAllDone 0)

def enable : Firmware Unit := gpioSetLevel .en false

def position : Firmware ℤ := .perform .positionLoad

def setCurrentPosition (n : ℤ) : Firmware Unit := .perform (.positionStore n)

def maxRetries : ℕ := 10

/-- The attempts to hand one chunk to the peripheral; the loop variable counts the retries. -/
def transmitChunk (symbols : List RmtSymbol) (stopFlag : StopFlag) :
    Firmware (Except StepperError Unit) :=
  .iterate (fun retries => do
    if ← poll .transmit stopFlag then
      emergencyStop
      return .inr (.error .limitSwitchTriggered)
    else
      let err ← Program.perform (.rmtTransmit symbols)
      if err = .ok then return .inr (.ok ())
      else if err ≠ .invalidState ∨ maxRetries ≤ retries then return .inr (.error .rmt)
      else
        vTaskDelay 10
        return .inl (retries + 1)) 0

/-- The wait for the end of a transmission. -/
def awaitChunk (stopFlag : StopFlag) : Firmware (Except StepperError Unit) :=
  .iterate (fun _ => do
    let err ← Program.perform (.rmtTxWaitAllDone 100)
    if err = .ok then return .inr (.ok ())
    else if err ≠ .timeout then return .inr (.error .rmt)
    else if ← poll .wait stopFlag then
      emergencyStop
      return .inr (.error .limitSwitchTriggered)
    else return .inl ()) ()

/-- `moveStepsIntervals`; the loop variable is the offset into the intervals. -/
def moveStepsIntervals (intervals : List ℕ) (stopFlag : StopFlag) :
    Firmware (Except StepperError Unit) :=
  .iterate (fun offset => do
    if intervals.length ≤ offset then return .inr (.ok ())
    else if ← poll .chunk stopFlag then
      emergencyStop
      return .inr (.error .limitSwitchTriggered)
    else
      let chunkSize := min (intervals.length - offset) Config.rmtChunkSymbols
      let symbols := ((intervals.drop offset).take chunkSize).map stepSymbol
      match ← transmitChunk symbols stopFlag with
      | .error err => return .inr (.error err)
      | .ok () =>
        match ← awaitChunk stopFlag with
        | .error err => return .inr (.error err)
        | .ok () =>
          Program.perform (.positionFetchAdd chunkSize)
          return .inl (offset + chunkSize)) 0

end StepperMotor
end Ecotiter
