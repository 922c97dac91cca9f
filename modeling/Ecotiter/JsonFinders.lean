import Ecotiter.CommandLine
import Ecotiter.NumberScan
import Ecotiter.QuotedText
import Ecotiter.ResponseTexts

/-!
# The JSON finders of the motor controller

`findJsonString`, `findJsonInt`, `findJsonFloat` and `findJsonBool` of `motor_controller_impl.cpp` go
from quote to quote through a text that is not terminated. A place in the text is what follows it up
to the end. A finder that would read a byte behind the end gives `none`.
-/

namespace Ecotiter
open BoundedOutput NumberScan

/-- `static_cast<float>` of a double. -/
def Double.toFloat : Double → Double
  | .finite x => (Double.finite (float32.round x)).within floatLimit
  | x => x

/-- The double nearest to a number, an infinity beyond the largest one. -/
def Double.ofRat (x : ℚ) : Double := (Double.finite (float64.round x)).within doubleLimit

namespace MotorController

def isBlank (c : UInt8) : Bool := c = 32 || c = 9 || c = 10

def skipBlanks (p : List UInt8) : List UInt8 := p.dropWhile isBlank

/-- The place of the next quote. -/
def toQuote (p : List UInt8) : List UInt8 := p.dropWhile (· ≠ 34)

/-- What a finder does at the value of a member: it returns, or it goes on so many bytes further. -/
inductive Reading (α : Type)
  | found (v : α)
  | missing
  | outside
  | goOn (bytes : ℕ)

/-- The place behind a name and the blanks after it. -/
def behindName (key p : List UInt8) : List UInt8 := skipBlanks (p.drop (key.length + 1))

/-- The place behind a name and a colon, with the blanks after each. -/
def atValue (key p : List UInt8) : List UInt8 := skipBlanks (behindName key p).tail

theorem length_toQuote_le (p : List UInt8) : (toQuote p).length ≤ p.length :=
  (List.dropWhile_suffix _).length_le

theorem length_behindName_le (key p : List UInt8) : (behindName key p).length ≤ p.length :=
  ((List.dropWhile_suffix _).trans (List.drop_suffix _ _)).length_le

theorem length_atValue_le (key p : List UInt8) : (atValue key p).length ≤ p.length := by
  have hle : (atValue key p).length ≤ (behindName key p).length :=
    ((List.dropWhile_suffix _).trans (List.tail_suffix _)).length_le
  exact hle.trans (length_behindName_le key p)

/-- The loop of the finders. -/
def scan {α : Type} (key : List UInt8) (read : List UInt8 → Reading α) (p : List UInt8) :
    Option (Option α) :=
  if toQuote p = [] then some none
  else if (toQuote p).tail.length < key.length + 2 then some none
  else if key ++ [34] <+: (toQuote p).tail then
    if (behindName key (toQuote p).tail).head? ≠ some 58 then
      scan key read (behindName key (toQuote p).tail)
    else
      match read (atValue key (toQuote p).tail) with
      | .found v => some (some v)
      | .missing => some none
      | .outside => none
      | .goOn bytes => scan key read ((atValue key (toQuote p).tail).drop bytes)
  else scan key read (toQuote (toQuote p).tail)
termination_by p.length
decreasing_by
  all_goals
    have hle := length_toQuote_le p
    have hpos : 0 < (toQuote p).length := by
      apply List.length_pos_of_ne_nil
      assumption
    have htail : (toQuote p).tail.length = (toQuote p).length - 1 := List.length_tail
  · have hbehind := length_behindName_le key (toQuote p).tail
    omega
  · have hvalue := length_atValue_le key (toQuote p).tail
    rw [List.length_drop]
    omega
  · have hquote := length_toQuote_le (toQuote p).tail
    omega

/-- A string up to its closing quote. -/
def readString (p : List UInt8) : Reading (List UInt8) :=
  match p with
  | 34 :: p => if toQuote p = [] then .missing else .found (p.takeWhile (· ≠ 34))
  | _ => .goOn 0

/-- `strtol`; `long` has 32 bits. -/
def strtol (p : List UInt8) : Option (Option ℤ) :=
  (integer p).map fun val => val.map fun z => max (-2 ^ 31) (min (2 ^ 31 - 1) z)

def readInt (p : List UInt8) : Reading ℤ :=
  let sign := if p.head? = some 45 then 1 else 0
  if ¬ (p.drop sign).head?.any NumberScan.isDigit then .goOn sign
  else
    match strtol p with
    | none => .outside
    | some none => .goOn sign
    | some (some val) => .found val

def strtod (p : List UInt8) : Option (Option Double) :=
  (decimal p).map fun val => val.map Double.ofRat

def readFloat (p : List UInt8) : Reading Double :=
  if p = [] then .goOn 0
  else
    match strtod p with
    | none => .outside
    | some none => .goOn 0
    | some (some val) => .found val.toFloat

/-- Behind a place without one of the two words the loop goes to the next quote. -/
def readBool (p : List UInt8) : Reading Bool :=
  if utf8 JsonText.Word.true.text <+: p then .found true
  else if utf8 JsonText.Word.false.text <+: p then .found false
  else .goOn 0

def findJsonString (json key : List UInt8) : Option (Option (List UInt8)) :=
  if json.length < key.length + 3 then some none else scan key readString json

def findJsonInt (json key : List UInt8) : Option (Option ℤ) := scan key readInt json

def findJsonFloat (json key : List UInt8) : Option (Option Double) := scan key readFloat json

def findJsonBool (json key : List UInt8) : Option (Option Bool) := scan key readBool json

end MotorController
end Ecotiter
