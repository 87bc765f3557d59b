import Formwork.Binary64.Shortest
import Formwork.Text.DecimalForm

/-! Doubles as text: the shortest decimal laid out by a style, and the double nearest to a written
decimal. -/

namespace Formwork.Binary64

open Text

structure Style where
  tie : Tie
  /-- The exponents of the leading digit that are written positionally, from the first to the last;
  without bounds all are. -/
  positional : Option (Int × Int)
  /-- Whether a number without fraction gets one zero after a point. -/
  pointZero : Bool

def Style.isPositional (s : Style) (leading : Int) : Bool :=
  match s.positional with
  | some (first, last) => first ≤ leading && leading ≤ last
  | none => true

def zeros (n : Nat) : List Char := List.replicate n '0'

/-- The point stands `before` digits after the start, where `before` may lie outside the digits. -/
def layPositional (s : Style) (digits : List Char) : Int → List Char
  | .ofNat before =>
    if before = 0 then '0' :: '.' :: digits
    else if digits.length ≤ before then
      digits ++ zeros (before - digits.length) ++ if s.pointZero then ['.', '0'] else []
    else digits.take before ++ '.' :: digits.drop before
  | .negSucc n => '0' :: '.' :: zeros (n + 1) ++ digits

def layScientific (digits : List Char) (leading : Int) : List Char :=
  let fraction := match digits.drop 1 with
    | [] => []
    | ds => '.' :: ds
  let mark := if 0 ≤ leading then ['e', '+'] else ['e', '-']
  digits.take 1 ++ fraction ++ mark ++ Nat.toDigits 10 leading.natAbs

def layDecimal (s : Style) (d : Decimal) : List Char :=
  let digits := Nat.toDigits 10 d.digits
  let before := digits.length + d.exponent
  if s.isPositional (before - 1) then layPositional s digits before
  else layScientific digits (before - 1)

def render (s : Style) (x : Binary64) : String :=
  let unsigned := layDecimal s (x.shortest s.tie)
  String.ofList (if x.negative then '-' :: unsigned else unsigned)

/-- The number nearest to `significand * 10 ^ scale`; none if it is too large to be finite. Beyond
310 digits before the point every number is too large, and beyond 330 zeros after it too small. -/
def ofDecimal? (negative : Bool) (significand : Nat) (scale : Int) : Option Binary64 :=
  let size := (Nat.toDigits 10 significand).length + scale
  if significand = 0 ∨ size < -330 then some (signedZero negative)
  else if 310 < size then none
  else if 0 ≤ scale then ofQuotient? negative (significand * Nat.pow 10 scale.toNat) 1
  else ofQuotient? negative significand (Nat.pow 10 (-scale).toNat)

def ofForm? (negative : Bool) (f : DecimalForm) : Option Binary64 :=
  ofDecimal? negative f.significand f.scale

def read? (cs : List Char) : Option Binary64 :=
  let (negative, unsigned) := match cs with
    | '-' :: ds => (true, ds)
    | '+' :: ds => (false, ds)
    | ds => (false, ds)
  match DecimalForm.scan unsigned with
  | (f, []) => if f.isLoose then ofForm? negative f else none
  | _ => none

end Formwork.Binary64
