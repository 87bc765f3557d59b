import Formwork.Text.Numeral

/-! The written parts of an unsigned decimal number: digits, point, exponent. -/

namespace Formwork.Text

structure DecimalForm where
  whole : List Char
  fraction : Option (List Char)
  /-- Whether the exponent is negative, and its digits, if there is an exponent mark. -/
  exponent : Option (Bool × List Char)

namespace DecimalForm

def scanExponent : List Char → Option (Bool × List Char) × List Char
  | [] => (none, [])
  | c :: cs =>
    if c = 'e' ∨ c = 'E' then
      match cs with
      | '-' :: ds => (some (true, ds.takeWhile isDigit), ds.dropWhile isDigit)
      | '+' :: ds => (some (false, ds.takeWhile isDigit), ds.dropWhile isDigit)
      | ds => (some (false, ds.takeWhile isDigit), ds.dropWhile isDigit)
    else (none, c :: cs)

/-- Takes the longest written form at the start of a text. Any part may lack digits. -/
def scan (cs : List Char) : DecimalForm × List Char :=
  let whole := cs.takeWhile isDigit
  match cs.dropWhile isDigit with
  | '.' :: ds =>
    let (exponent, rest) := scanExponent (ds.dropWhile isDigit)
    (⟨whole, some (ds.takeWhile isDigit), exponent⟩, rest)
  | ds =>
    let (exponent, rest) := scanExponent ds
    (⟨whole, none, exponent⟩, rest)

def hasExponentDigits (f : DecimalForm) : Bool :=
  match f.exponent with
  | some (_, ds) => !ds.isEmpty
  | none => true

/-- Some digit before the exponent, and some in it if it is there: `5`, `.5`, `5.`, `1e3`. -/
def isLoose (f : DecimalForm) : Bool :=
  !(f.whole.isEmpty && (f.fraction.getD []).isEmpty) && f.hasExponentDigits

/-- Digits in every part, and no leading zero: `0`, `10`, `0.5`, `1e3`. -/
def isStrict (f : DecimalForm) : Bool :=
  (f.whole == ['0'] || (!f.whole.isEmpty && f.whole.head? != some '0')) &&
    f.fraction != some [] && f.hasExponentDigits

def isWhole (f : DecimalForm) : Bool := f.fraction.isNone && f.exponent.isNone

def digitsValue (cs : List Char) : Nat := cs.foldl (fun n c => 10 * n + (c.toNat - 48)) 0

def significand (f : DecimalForm) : Nat := digitsValue (f.whole ++ f.fraction.getD [])

def scale (f : DecimalForm) : Int :=
  let written : Int := match f.exponent with
    | some (true, ds) => -(digitsValue ds : Int)
    | some (false, ds) => digitsValue ds
    | none => 0
  written - (f.fraction.getD []).length

end DecimalForm

end Formwork.Text
