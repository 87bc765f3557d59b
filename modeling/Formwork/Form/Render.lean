import Formwork.Control.Path
import Formwork.Json

/-! What the renderer of a form is told about each visual node. -/

namespace Formwork

inductive RenderCall where
  /-- A layout, with the path of the control that it lies in. -/
  | layout (path : ControlPath) (classes : String)
  | group (path : ControlPath) (key : String) (classes : String)
  | array (path : ControlPath) (key : String) (length : Nat) (classes : String)
  | control (path : ControlPath) (key : String) (type : String)
deriving DecidableEq, Repr

namespace RenderCall

def path : RenderCall → ControlPath
  | layout path _ => path
  | group path _ _ => path
  | array path _ _ _ => path
  | control path _ _ => path

def toJson : RenderCall → Json
  | layout path classes =>
    .object [("kind", .string "layout"), ("path", .string path.text), ("classes", .string classes)]
  | group path key classes =>
    .object [("kind", .string "group"), ("path", .string path.text), ("key", .string key),
      ("classes", .string classes)]
  | array path key length classes =>
    .object [("kind", .string "array"), ("path", .string path.text), ("key", .string key),
      ("len", .int length), ("classes", .string classes)]
  | control path key type =>
    .object [("kind", .string "control"), ("path", .string path.text), ("key", .string key),
      ("control_type", .string type)]

end RenderCall

end Formwork
