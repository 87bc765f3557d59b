import Formwork.Text.Numeral
import Formwork.Text.Pieces

/-! Addresses of controls: the keys and indices that lead from the root, joined by points. -/

namespace Formwork

structure ControlPath where
  text : String
deriving DecidableEq, Repr, Inhabited

namespace ControlPath

def root : ControlPath := ⟨""⟩

def isRoot (p : ControlPath) : Bool := p.text = ""

def childKey (p : ControlPath) (key : String) : ControlPath :=
  if p.isRoot then ⟨key⟩ else ⟨p.text ++ "." ++ key⟩

def childIndex (p : ControlPath) (index : Nat) : ControlPath :=
  ⟨p.text ++ "." ++ Text.natText index⟩

def segments (p : ControlPath) : List String :=
  if p.isRoot then [] else (Text.pieces '.' p.text.toList).map String.ofList

end ControlPath

end Formwork
