/-! Natural numbers and integers written with digits. -/

namespace Formwork.Text

def isDigit (c : Char) : Bool := '0' ≤ c && c ≤ '9'

def digitValue? (c : Char) : Option Nat :=
  if '0' ≤ c ∧ c ≤ '9' then some (c.toNat - 48)
  else if 'a' ≤ c ∧ c ≤ 'z' then some (c.toNat - 87)
  else if 'A' ≤ c ∧ c ≤ 'Z' then some (c.toNat - 55)
  else none

def isHexDigit (c : Char) : Bool := (digitValue? c).any (· < 16)

/-- Reads on from the value `n` of the digits already seen. -/
def readDigits? (base : Nat) : Nat → List Char → Option Nat
  | n, [] => some n
  | n, c :: cs =>
    match digitValue? c with
    | some d => if d < base then readDigits? base (base * n + d) cs else none
    | none => none

def wordEnd : Nat := 0x10000000000000000

def natBelow? (limit : Nat) (i : Int) : Option Nat := if 0 ≤ i ∧ i < limit then some i.toNat else none

def readNat? (base : Nat) (cs : List Char) : Option Nat :=
  if cs.isEmpty then none else readDigits? base 0 cs

def readCount? (cs : List Char) : Option Nat :=
  match cs with
  | '+' :: rest => readNat? 10 rest
  | _ => readNat? 10 cs

def readIndex? (cs : List Char) : Option Nat := (readCount? cs).filter (· < wordEnd)

def readOffset? (cs : List Char) : Option Int :=
  let number : Option Int := match cs with
    | '-' :: rest => (readNat? 10 rest).map fun n => -(n : Int)
    | '+' :: rest => (readNat? 10 rest).map Int.ofNat
    | _ => (readNat? 10 cs).map Int.ofNat
  number.filter fun i => -(wordEnd : Int) ≤ 2 * i && 2 * i < wordEnd

def natText (n : Nat) : String := String.ofList (Nat.toDigits 10 n)

def intText : Int → String
  | .ofNat n => natText n
  | .negSucc n => "-" ++ natText (n + 1)

end Formwork.Text
