/-
  Subject: JSON VALUES, and what `Yojson.Safe.Util` and `YojsonUtils` (`jsonParsing.ml`) read of
    them. The message of a `Type_error` is the error.
-/
import Pysa.Lib.LowBits

namespace Pysa

/-- A number with a fraction or an exponent is kept as its text. -/
inductive Json where
  | null
  | bool (value : Bool)
  | int (value : Int63)
  /-- An integer that does not fit. -/
  | intlit (text : String)
  | float (text : String)
  | string (value : String)
  | assoc (fields : List (String × Json))
  | list (elements : List Json)

namespace Json

/-- `typename`. -/
def typeName : Json → String
  | null => "null"
  | bool _ => "bool"
  | int _ => "int"
  | intlit _ => "intlit"
  | float _ => "float"
  | string _ => "string"
  | assoc _ => "object"
  | list _ => "array"

def member (name : String) (json : Json) : Except String Json :=
  match json with
  | assoc fields => .ok ((fields.lookup name).getD null)
  | json => .error ("Can't get member '" ++ name ++ "' of non-object type " ++ json.typeName)

def toInt : Json → Except String Int63
  | int value => .ok value
  | json => .error ("Expected int, got " ++ json.typeName)

def toText : Json → Except String String
  | string value => .ok value
  | json => .error ("Expected string, got " ++ json.typeName)

/-- Without a default value the member is mandatory. -/
def intMember (name : String) (json : Json) : Except String Int63 := do
  (← json.member name).toInt

def stringMember (name : String) (json : Json) : Except String String := do
  (← json.member name).toText

def optionalIntMember (name : String) (json : Json) : Except String (Option Int63) := do
  match ← json.member name with
  | null => return none
  | element => return some (← element.toInt)

end Json

end Pysa
