import Formwork.Json

/-! What a node of a form schema stands for. -/

namespace Formwork

inductive NodeKind where
  | layout
  | array
  | group
  | leaf
deriving DecidableEq, Repr

namespace NodeKind

def label : NodeKind → String
  | layout => "layout"
  | array => "array"
  | group => "group"
  | leaf => "leaf"

def layoutMarker : String := "F-layout"

/-- A node under the layout marker is a layout, whatever it holds. Without it, an array is an array, a
`null` or an object that only holds objects, arrays and `null` is a group, and all else is a leaf. -/
def classify (marker : Option String) (node : Json) : NodeKind :=
  if marker = some layoutMarker then layout
  else
    match node with
    | .array _ => array
    | .null => group
    | .object members =>
      if members.all fun m => m.2.isContainer || m.2.isNull then group else leaf
    | _ => leaf

def entryKey? (entry : Json) : Option String := (entry.member? "key").bind Json.asString?

end NodeKind

end Formwork
