import Mathlib.Data.Rat.Defs
import StreamArena.Library.AsciiText

/-! JSON documents as a parser hands them over: integers apart from other
numbers, objects as their fields in key order. -/
namespace JsonValue
open AsciiText

inductive Value where
  | null
  | bool (value : Bool)
  | int (value : Int)
  | float (value : ℚ)
  | string (value : Text)
  | array (entries : List Value)
  | object (fields : List (Text × Value))

namespace Value

/-- A field of an object; anything else has none. -/
def get (value : Value) (field : Text) : Option Value :=
  match value with
  | object fields => fields.lookup field
  | _ => none

def asStr : Value → Option Text
  | string value => some value
  | _ => none

def asI64 : Value → Option Int
  | int value => if -2 ^ 63 ≤ value ∧ value < 2 ^ 63 then some value else none
  | _ => none

/-- Exact up to `2 ^ 53`. -/
def asF64 : Value → Option ℚ
  | int value => some value
  | float value => some value
  | _ => none

def asObject : Value → Option (List (Text × Value))
  | object fields => some fields
  | _ => none

end Value

end JsonValue
