import Std.Data.ExtTreeMap

/-!
# JSON values

A value as it was written: the members of an object stand in the order of the text, and a key may be
repeated. What a key means is decided when the object is used (`Json.get?`) or written anew: the
last member of that key.
-/

namespace LedgerBench

/-- A JSON number. Integers that fit a signed or an unsigned 64-bit word are kept exactly. -/
inductive JsonNumber where
  /-- An integer between `-2^63` and `2^64 - 1`. -/
  | integer (n : Int)
  /-- Any other number, as a double. -/
  | float (x : Float)
deriving DecidableEq

/-- A JSON value. -/
inductive Json where
  /-- The value `null`. -/
  | null
  /-- A truth value. -/
  | bool (b : Bool)
  /-- A number. -/
  | number (n : JsonNumber)
  /-- A string. -/
  | text (s : String)
  /-- An array. -/
  | array (items : List Json)
  /-- An object with its members as written. -/
  | object (members : List (String × Json))

namespace JsonNumber

/-- The number as a double. -/
def toFloat : JsonNumber → Float
  | integer n => Float.ofInt n
  | float x => x

/-- The number if it is a natural one. -/
def toNat? : JsonNumber → Option Nat
  | integer (.ofNat n) => some n
  | _ => none

end JsonNumber

namespace Json

/-- The value of a key in an object: that of its last member. -/
def get? (key : String) : Json → Option Json
  | object members => (members.reverse.find? fun m => m.1 == key).map (·.2)
  | _ => none

/-- The members of an object by ascending key, each key once with the value of its last member. -/
def sortedMembers {α : Type} (members : List (String × α)) : List (String × α) :=
  (members.foldl (fun (m : Std.ExtTreeMap String α) e => m.insert e.1 e.2) ∅).toList

end Json

end LedgerBench
