import Formwork.Json
import Formwork.Text.Numeral

/-! Records with known fields as they are written in documents: an object, or an array with the
values in the order of the fields. -/

namespace Formwork.Json

/-- The written fields. Other members of an object are ignored, but an array must not be longer than
the list of fields. -/
def record? (fields : List String) : Json → Option (Keyed Json)
  | .object members => some members
  | .array items => if items.length ≤ fields.length then some (fields.zip items) else none
  | _ => none

def required (read : Json → Option α) (field : String) (r : Keyed Json) : Option α :=
  (r.get? field).bind read

def nullable (read : Json → Option α) : Json → Option (Option α)
  | .null => some none
  | v => (read v).map some

/-- A field that may be missing or `null`, both of which mean none. -/
def optional (read : Json → Option α) (field : String) (r : Keyed Json) : Option (Option α) :=
  r.defaulted (nullable read) none field

def word? (v : Json) : Option Nat := v.asInt?.bind (Text.natBelow? Text.wordEnd)

def items? (read : Json → Option α) : Json → Option (List α)
  | .array items => items.mapM read
  | _ => none

/-- One of several names, written as a text or as an object with a single member that is `null`. -/
def choice? (ofName : String → Option α) : Json → Option α
  | .string s => ofName s
  | .object [(s, .null)] => ofName s
  | _ => none

end Formwork.Json
