import LoxCalc.Double.Text

/-!
Contract: the values of the expression language.

Owns:
- `Value`, its truth and its written form.

Equality of values is equality in the logic, and it is decidable: values of
different kinds differ, numbers are equal iff their bits are, and there is one
NaN, so a NaN equals itself while `0` and `-0` differ.
-/

set_option autoImplicit false

namespace LoxCalc

/-- A value of the language. -/
inductive Value where
  | nil
  | bool (b : Bool)
  | number (x : Float)
  | string (s : String)
deriving DecidableEq, Repr, Inhabited

namespace Value

/-- Only `nil` and `false` are false. -/
def truthy : Value → Bool
  | .nil => false
  | .bool b => b
  | .number _ => true
  | .string _ => true

/-- The number that a value holds, if it is one. -/
def number? : Value → Option Float
  | .number x => some x
  | _ => none

/-- The written form of a value; a string stands for itself, without quotes. -/
def text : Value → String
  | .nil => "nil"
  | .bool true => "true"
  | .bool false => "false"
  | .number x => Double.text x
  | .string s => s

end Value

end LoxCalc
