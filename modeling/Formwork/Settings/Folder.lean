import Formwork.Keyed
import Formwork.Text.Pieces

/-! A folder of files without folders in it. -/

namespace Formwork

abbrev Folder := Keyed ByteArray

namespace Folder

/-- The most bytes that the name of a file may have. -/
def maxNameLength : Nat := 255

/-- The name of the file in this folder that a path leads to, if there is or can be one. Empty steps
and points before the name lead nowhere else. -/
def name? (path : String) : Option String :=
  let steps := Text.pieces '/' path.toList
  match steps.getLast?, path.toList.head? with
  | some last, some first =>
    let name := String.ofList last
    if first ≠ '/' ∧ steps.dropLast.all (fun s => s = [] || s = ['.']) ∧ last ≠ [] ∧
      name ≠ "." ∧ name ≠ ".." ∧ '\x00' ∉ last ∧ name.utf8ByteSize ≤ maxNameLength then some name
    else none
  | _, _ => none

def read? (f : Folder) (path : String) : Option ByteArray := (name? path).bind f.get?

end Folder

end Formwork
