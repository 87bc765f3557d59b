import Formwork.Pattern

/-! Email addresses: parts joined by points, an at sign, and labels of a host name. -/

namespace Formwork.Email

def maxBytes : Nat := 254

def maxLocalBytes : Nat := 64

def localChars : CharSet :=
  .ranges [(0x21, 0x21), (0x23, 0x27), (0x2A, 0x2B), (0x2D, 0x2D), (0x2F, 0x39), (0x3D, 0x3D),
    (0x3F, 0x3F), (0x41, 0x5A), (0x5E, 0x7E)]

def alphanumerics : CharSet := .ranges [(0x30, 0x39), (0x41, 0x5A), (0x61, 0x7A)]

def labelChars : CharSet := .ranges [(0x2D, 0x2D), (0x30, 0x39), (0x41, 0x5A), (0x61, 0x7A)]

def dotted (p : Pattern) : Pattern :=
  .seq p (.repeated (.seq (.one (.single '.')) p) 0 none)

/-- Up to 63 letters, digits and hyphens, with no hyphen at either end. -/
def label : Pattern :=
  .seq (.one alphanumerics)
    (.repeated (.seq (.repeated (.one labelChars) 0 (some 61)) (.one alphanumerics)) 0 (some 1))

def pattern : Pattern :=
  .concat [.look .textStart, dotted (.repeated (.one localChars) 1 none), .one (.single '@'),
    dotted label, .look .textEnd]

def written : String :=
  "^[a-zA-Z0-9!#$%&'*+/=?^_`\x7b|\x7d~-]+(?:\\.[a-zA-Z0-9!#$%&'*+/=?^_`\x7b|\x7d~-]+)*@" ++
    "[a-zA-Z0-9](?:[a-zA-Z0-9-]\x7b0,61\x7d[a-zA-Z0-9])?" ++
    "(?:\\.[a-zA-Z0-9](?:[a-zA-Z0-9-]\x7b0,61\x7d[a-zA-Z0-9])?)*$"

def localPart? (address : String) : Option String :=
  if '@' ∈ address.toList then some (String.ofList (address.toList.takeWhile (· ≠ '@'))) else none

def isEmail (address : String) : Bool :=
  match localPart? address with
  | some part =>
    address ≠ "" && address.utf8ByteSize ≤ maxBytes && part ≠ "" &&
      part.utf8ByteSize ≤ maxLocalBytes && pattern.isMatch address
  | none => false

end Formwork.Email
