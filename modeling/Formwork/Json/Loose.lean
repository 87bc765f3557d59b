import Formwork.Binary64.Text
import Formwork.Json
import Formwork.Text.Blank

/-! The loose readings of a document that form rules rely on: any document as text, and what can
pass for a number as a number. -/

namespace Formwork.Json

/-- Numbers in loose text never have an exponent, nor a point without digits after it. -/
def looseNumberStyle : Binary64.Style := ⟨.up, none, false⟩

mutual
/-- Strings stand for themselves, arrays are joined with commas and show `null` as nothing, and all
objects look alike. -/
def looseText : Json → String
  | .null => "null"
  | .bool true => "true"
  | .bool false => "false"
  | .int i => Text.intText i
  | .double x => Binary64.render looseNumberStyle x
  | .string s => s
  | .array items => ",".intercalate (looseItems items)
  | .object _ => "[object Object]"
def looseItems : List Json → List String
  | [] => []
  | x :: xs => (if x.isNull then "" else looseText x) :: looseItems xs
end

/-- The number that a document passes for. Blank text is zero; arrays and objects are no numbers. -/
def looseNumber? : Json → Option Binary64
  | .null => some (Binary64.ofInt 0)
  | .bool b => some (Binary64.ofBool b)
  | .int i => some (Binary64.ofInt i)
  | .double x => some x
  | .string s =>
    match Text.trim s.toList with
    | [] => some (Binary64.ofInt 0)
    | cs => Binary64.read? cs
  | .array _ => none
  | .object _ => none

end Formwork.Json
