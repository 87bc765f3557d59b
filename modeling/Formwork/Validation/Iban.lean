import Formwork.Text.Blank
import Formwork.Text.Numeral

/-! International bank account numbers and their check digits. -/

namespace Formwork.Iban

open Text

def minLength : Nat := 15

def maxLength : Nat := 34

def compact (text : String) : List Char :=
  (text.toList.filter fun c => !isBlank c).map Char.toUpper

/-- One more character of a number read modulo 97: a digit adds one decimal place, a letter two. -/
def addPlace (remainder : Nat) (c : Char) : Nat :=
  let digit := (digitValue? c).getD 0
  (remainder * (if 10 ≤ digit then 100 else 10) + digit) % 97

/-- The remainder of the number with its first four characters moved to the end. -/
def remainder (cs : List Char) : Nat := (cs.drop 4 ++ cs.take 4).foldl addPlace 0

def isShaped (cs : List Char) : Bool :=
  minLength ≤ cs.length && cs.length ≤ maxLength && cs.all Char.isAlphanum &&
    (cs.take 2).all Char.isAlpha && ((cs.drop 2).take 2).all Char.isDigit

def isIban (text : String) : Bool :=
  let cs := compact text
  isShaped cs && remainder cs == 1

end Formwork.Iban
