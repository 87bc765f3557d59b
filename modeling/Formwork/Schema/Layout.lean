import Formwork.Json.Record

/-! The visual configuration of a layout and the classes that it gives to what lies inside. -/

namespace Formwork

structure Alignment where
  x : String
  y : String
deriving DecidableEq, Repr

structure Layout where
  direction : Option String
  alignment : Option Alignment
  gap : Option String
deriving DecidableEq, Repr

open Json (record? required optional asString?)
open Keyed (defaulted)

def Alignment.ofJson? (v : Json) : Option Alignment := do
  let r ← record? ["x", "y"] v
  let x ← defaulted asString? "" "x" r
  let y ← defaulted asString? "" "y" r
  some ⟨x, y⟩

def Alignment.toJson (a : Alignment) : Json := .object [("x", .string a.x), ("y", .string a.y)]

namespace Layout

def plain : Layout := ⟨none, none, none⟩

def ofJson? (v : Json) : Option Layout := do
  let r ← record? ["direction", "alignment", "gap"] v
  let direction ← optional asString? "direction" r
  let alignment ← optional Alignment.ofJson? "alignment" r
  let gap ← optional asString? "gap" r
  some ⟨direction, alignment, gap⟩

def toJson (l : Layout) : Json :=
  .object [("direction", .ofOption .string l.direction),
    ("alignment", .ofOption Alignment.toJson l.alignment), ("gap", .ofOption .string l.gap)]

def gapClass (direction : Option String) (gap : String) : String :=
  (if direction = some "flex-row" then "gap-" else "column-gap-") ++ gap

def alignments (l : Layout) : List String :=
  match l.alignment with
  | some a => [a.x, a.y].filter (· ≠ "")
  | none => []

def classes (l : Layout) : String :=
  " ".intercalate (["flex"] ++ (l.direction.filter (· ≠ "")).toList ++ l.alignments ++
    ((l.gap.filter (· ≠ "")).map (gapClass l.direction)).toList)

end Layout

end Formwork
