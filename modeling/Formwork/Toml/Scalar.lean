import Formwork.Text.Numeral
import Formwork.Text.Pieces
import Formwork.Toml

/-! Values of a TOML document that are written without quotes or brackets. -/

namespace Formwork.Toml

open Text

/-- The number written by digits of a base. Single underscores may stand between digits. -/
def readDigits? (base : Nat) (cs : List Char) : Option Nat :=
  let groups := pieces '_' cs
  if groups.any List.isEmpty then none else readNat? base groups.flatten

def readDecimal? : List Char → Option Nat
  | '0' :: _ :: _ => none
  | cs => readDigits? 10 cs

def readUnsigned? : List Char → Option Nat
  | '0' :: 'x' :: digits => readDigits? 16 digits
  | '0' :: 'o' :: digits => readDigits? 8 digits
  | '0' :: 'b' :: digits => readDigits? 2 digits
  | cs => readDecimal? cs

def readInteger? : List Char → Option Int
  | '+' :: cs => (readDecimal? cs).map Int.ofNat
  | '-' :: cs => (readDecimal? cs).map fun n => -(n : Int)
  | cs => (readUnsigned? cs).map Int.ofNat

def dropSign : List Char → List Char
  | '+' :: cs => cs
  | '-' :: cs => cs
  | cs => cs

def isExponentMark (c : Char) : Bool := c = 'e' || c = 'E'

def isFraction (cs : List Char) : Bool :=
  match pieces '.' cs with
  | [whole, part] => (readDecimal? whole).isSome && (readDigits? 10 part).isSome
  | _ => false

def isFloat (cs : List Char) : Bool :=
  let unsigned := dropSign cs
  let head := unsigned.takeWhile fun c => !isExponentMark c
  unsigned = ['i', 'n', 'f'] || unsigned = ['n', 'a', 'n'] ||
    match unsigned.dropWhile fun c => !isExponentMark c with
    | [] => isFraction head
    | _ :: exponent =>
      (isFraction head || (readDecimal? head).isSome) &&
        (readDigits? 10 (dropSign exponent)).isSome

def readField? (digits least most : Nat) (cs : List Char) : Option Nat :=
  if cs.length = digits then (readNat? 10 cs).filter fun n => least ≤ n && n ≤ most else none

def isLeapYear (year : Nat) : Bool := year % 4 = 0 && (year % 100 ≠ 0 || year % 400 = 0)

def monthDays (year month : Nat) : Nat :=
  if month = 2 then if isLeapYear year then 29 else 28
  else if month ∈ [4, 6, 9, 11] then 30
  else 31

def isDate (cs : List Char) : Bool :=
  match pieces '-' cs with
  | [year, month, day] =>
    ((readField? 4 0 9999 year).bind fun y =>
      (readField? 2 1 12 month).bind fun m => readField? 2 1 (monthDays y m) day).isSome
  | _ => false

def isClock (hour minute : List Char) : Bool :=
  (readField? 2 0 23 hour).isSome && (readField? 2 0 59 minute).isSome

def isTime (cs : List Char) : Bool :=
  match pieces ':' cs with
  | [hour, minute] => isClock hour minute
  | [hour, minute, second] =>
    isClock hour minute &&
      match pieces '.' second with
      | [second] => (readField? 2 0 60 second).isSome
      | [second, part] => (readField? 2 0 60 second).isSome && (readNat? 10 part).isSome
      | _ => false
  | _ => false

/-- The distance from world time: a letter, or hours and minutes after a sign. -/
def isOffset (cs : List Char) : Bool :=
  cs = ['Z'] || cs = ['z'] ||
    match pieces ':' (dropSign cs) with
    | [hour, minute] => (dropSign cs).length < cs.length && isClock hour minute
    | _ => false

def isDateSeparator (c : Char) : Bool := c = 'T' || c = 't' || c = ' '

def isOffsetStart (c : Char) : Bool := c = 'Z' || c = 'z' || c = '+' || c = '-'

/-- A date, a time of day, or both, then with an optional offset. -/
def isMoment (cs : List Char) : Bool :=
  let date := cs.takeWhile fun c => !isDateSeparator c
  match cs.dropWhile fun c => !isDateSeparator c with
  | [] => isDate cs || isTime cs
  | _ :: rest =>
    let offset := rest.dropWhile fun c => !isOffsetStart c
    isDate date && isTime (rest.takeWhile fun c => !isOffsetStart c) &&
      (offset.isEmpty || isOffset offset)

def isScalarChar (c : Char) : Bool :=
  c.isAlphanum || c = '_' || c = '+' || c = '-' || c = '.' || c = ':'

/-- The characters of a scalar. A single space may stand between a date and a time. -/
def scanScalar (cs : List Char) : List Char × List Char :=
  let word := cs.takeWhile isScalarChar
  match cs.dropWhile isScalarChar with
  | ' ' :: c :: rest =>
    if isDate word && isDigit c then
      (word ++ ' ' :: (c :: rest).takeWhile isScalarChar, (c :: rest).dropWhile isScalarChar)
    else (word, ' ' :: c :: rest)
  | rest => (word, rest)

def ofScalar? (cs : List Char) : Option Toml :=
  if cs = ['t', 'r', 'u', 'e'] then some (.boolean true)
  else if cs = ['f', 'a', 'l', 's', 'e'] then some (.boolean false)
  else
    match readInteger? cs with
    | some i => some (.integer i)
    | none =>
      if isFloat cs then some (.float (String.ofList cs))
      else if isMoment cs then some (.moment (String.ofList cs))
      else none

def readScalar? (cs : List Char) : Option (Toml × List Char) :=
  let (word, rest) := scanScalar cs
  (ofScalar? word).map (·, rest)

end Formwork.Toml
