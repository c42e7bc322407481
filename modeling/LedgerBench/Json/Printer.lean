import LedgerBench.Json.Number
import LedgerBench.Json.Quoted

/-!
# Writing JSON

The compact form has no white space; the members of an object are written by ascending key, each key
once. The indented form gives every member of an object a line of its own.
-/

namespace LedgerBench.Json

/-- A member in the compact form. -/
def memberText (m : String × List Char) : List Char := quoted m.1 ++ ':' :: m.2

mutual

/-- The compact form of a value. -/
def characters : Json → List Char
  | null => ['n', 'u', 'l', 'l']
  | bool true => ['t', 'r', 'u', 'e']
  | bool false => ['f', 'a', 'l', 's', 'e']
  | number n => n.characters
  | text s => quoted s
  | array items => '[' :: ([','].intercalate (itemTexts items) ++ [']'])
  | object members =>
    '\x7b' :: ([','].intercalate ((sortedMembers (memberTexts members)).map memberText) ++ ['\x7d'])

/-- The compact forms of several values. -/
def itemTexts : List Json → List (List Char)
  | [] => []
  | v :: rest => characters v :: itemTexts rest

/-- The members of an object with their values in the compact form. -/
def memberTexts : List (String × Json) → List (String × List Char)
  | [] => []
  | (k, v) :: rest => (k, characters v) :: memberTexts rest

end

/-- The compact form of a value, as a string. -/
def compact (v : Json) : String := String.ofList v.characters

/-- An object with one member in each line, indented by two spaces, in the order given. -/
def indentedObject (members : List (String × List Char)) : List Char :=
  match members with
  | [] => ['\x7b', '\x7d']
  | _ =>
    let line (m : String × List Char) := '\n' :: ' ' :: ' ' :: (quoted m.1 ++ ':' :: ' ' :: m.2)
    '\x7b' :: ([','].intercalate (members.map line) ++ ['\n', '\x7d'])

/-- An object without white space, its members in the order given. -/
def compactObject (members : List (String × List Char)) : List Char :=
  '\x7b' :: ([','].intercalate (members.map memberText) ++ ['\x7d'])

end LedgerBench.Json
