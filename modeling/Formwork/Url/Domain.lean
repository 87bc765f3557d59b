import Formwork.Dialect
import Formwork.Text.Pieces
import Formwork.Url.Punycode

/-! Domain names brought into the one form in ASCII by which they are compared. -/

namespace Formwork.Url.Domain

open Text

def isForbidden (c : Char) : Bool :=
  c.toNat ≤ 32 || c.toNat = 127 ||
    c ∈ ['%', '#', '/', ':', '<', '>', '?', '@', '[', '\\', ']', '^', '|']

def encodedMark : List Char := ['x', 'n', '-', '-']

variable [Dialect]

/-- A label in ASCII. One that is written encoded must stand for a label that needs it and that stands
for itself. -/
def labelToAscii? (label : List Char) : Option (List Char) :=
  if label.all Punycode.isAscii then
    if label.take 4 = encodedMark then
      match Punycode.decode? (label.drop 4) with
      | some decoded =>
        if decoded.all Punycode.isAscii ∨ Dialect.mapDomain? decoded ≠ some decoded then none
        else some label
      | none => none
    else some label
  else some (encodedMark ++ Punycode.encode label)

def toAscii? (name : List Char) : Option (List Char) := do
  let mapped ← Dialect.mapDomain? name
  let labels ← (pieces '.' mapped).mapM labelToAscii?
  let ascii := joined '.' labels
  if ascii.any isForbidden then none else some ascii

end Formwork.Url.Domain
