import Formwork.Url.Domain
import Formwork.Url.Ip

/-! Hosts as they are written in an address, and the one form of each. -/

namespace Formwork.Url

open Text

namespace Host

def percentDecode : List UInt8 → List UInt8
  | 0x25 :: a :: b :: rest =>
    let digits := [Char.ofNat a.toNat, Char.ofNat b.toNat]
    if digits.all isHexDigit then
      UInt8.ofNat ((readNat? 16 digits).getD 0) :: percentDecode rest
    else 0x25 :: percentDecode (a :: b :: rest)
  | c :: rest => c :: percentDecode rest
  | [] => []

def decoded? (cs : List Char) : Option (List Char) :=
  let bytes := percentDecode (String.ofList cs).toUTF8.toList
  (String.fromUTF8? ⟨bytes.toArray⟩).map String.toList

/-- An address of eight pieces in brackets, if the text is bracketed; else none inside. -/
def readBracketed? (cs : List Char) : Option (Option (List Char)) :=
  match cs with
  | '[' :: rest =>
    if rest.getLast? = some ']' then
      (Ip.readEight? rest.dropLast).map fun pieces => some ('[' :: Ip.eightText pieces ++ [']'])
    else none
  | _ => some none

def read? [Dialect] (cs : List Char) : Option (List Char) := do
  match ← readBracketed? cs with
  | some host => some host
  | none =>
    let name ← (← decoded? cs) |> Domain.toAscii?
    if name.isEmpty then none
    else if Ip.endsInNumber name then (Ip.readFour? name).map Ip.fourText
    else some name

def isBarred (c : Char) : Bool :=
  c.toNat = 0 || c ∈ ['\t', '\n', '\r', ' ', '#', '/', ':', '<', '>', '?', '@', '[', '\\', ']',
    '^', '|']

def readPlain? (cs : List Char) : Option (List Char) := do
  match ← readBracketed? cs with
  | some host => some host
  | none => if cs.any isBarred then none else some cs

end Host

end Formwork.Url
