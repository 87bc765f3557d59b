import Formwork.Text.Numeral
import Formwork.Text.Pieces

/-! Numeric host addresses of four bytes, in any of their spellings, and of eight 16-bit pieces. -/

namespace Formwork.Url.Ip

open Text

/-- A part of an address of four bytes: decimal, octal after a zero, or hexadecimal after `0x`. -/
def readPart? : List Char → Option Nat
  | [] => none
  | ['0', 'x'] => some 0
  | ['0', 'X'] => some 0
  | '0' :: 'x' :: rest => readNat? 16 rest
  | '0' :: 'X' :: rest => readNat? 16 rest
  | ['0'] => some 0
  | '0' :: rest => readNat? 8 rest
  | cs => readNat? 10 cs

/-- The parts of a name between points, without the empty one after a final point. -/
def parts (name : List Char) : List (List Char) :=
  let ps := pieces '.' name
  if ps.getLast? = some [] then ps.dropLast else ps

/-- A name whose last part is a number is an address, or nothing. -/
def endsInNumber (name : List Char) : Bool :=
  match (parts name).getLast? with
  | some last => (!last.isEmpty && last.all isDigit) || (readPart? last).isSome
  | none => false

/-- The number that an address of up to four parts stands for: every part but the last is one byte,
and the last fills the bytes that remain. -/
def address? (numbers : List Nat) : Option Nat :=
  match numbers.reverse with
  | [] => none
  | last :: before =>
    let space := Nat.pow 256 (4 - before.length)
    if before.length ≤ 3 ∧ before.all (· ≤ 255) ∧ last < space then
      some (before.reverse.foldl (fun n b => 256 * n + b) 0 * space + last)
    else none

def readFour? (name : List Char) : Option Nat := ((parts name).mapM readPart?).bind address?

def fourText (n : Nat) : List Char :=
  let bytes := [n / 0x1000000 % 256, n / 0x10000 % 256, n / 0x100 % 256, n % 256]
  joined '.' (bytes.map (Nat.toDigits 10))

def readByte? (cs : List Char) : Option Nat :=
  if cs.length ≤ 3 ∧ (cs.length = 1 ∨ cs.head? ≠ some '0') ∧ cs.all isDigit then
    (readNat? 10 cs).filter (· ≤ 255)
  else none

def readTail? (cs : List Char) : Option (List Nat) := do
  match ← (pieces '.' cs).mapM readByte? with
  | [a, b, c, d] => some [256 * a + b, 256 * c + d]
  | _ => none

def readPiece? (cs : List Char) : Option Nat :=
  if cs.length ≤ 4 ∧ cs.all isHexDigit then readNat? 16 cs else none

/-- Pieces with colons between them; the last of all may be written as four bytes. -/
def readPieces? (final : Bool) : List (List Char) → Option (List Nat)
  | [] => some []
  | [last] =>
    if final ∧ '.' ∈ last then readTail? last else (readPiece? last).map ([·])
  | p :: q :: ps => do
    let n ← readPiece? p
    let ns ← readPieces? final (q :: ps)
    some (n :: ns)

def readRun? (final : Bool) (cs : List Char) : Option (List Nat) :=
  if cs.isEmpty then some [] else readPieces? final (pieces ':' cs)

def splitGap? : List Char → Option (List Char × List Char)
  | [] => none
  | ':' :: ':' :: rest => some ([], rest)
  | c :: rest => (splitGap? rest).map fun (before, after) => (c :: before, after)

/-- Eight pieces, of which one gap may stand for one or more zeros. -/
def readEight? (cs : List Char) : Option (List Nat) :=
  match splitGap? cs with
  | none => (readRun? true cs).filter (·.length = 8)
  | some (before, after) => do
    let left ← readRun? false before
    let right ← readRun? true after
    let count := left.length + right.length
    if count ≤ 7 then some (left ++ List.replicate (8 - count) 0 ++ right) else none

def longestGap (pieces : List Nat) : Nat × Nat :=
  (List.range pieces.length).foldl (fun best i =>
    let run := ((pieces.drop i).takeWhile (· = 0)).length
    if best.2 < run then (i, run) else best) (0, 0)

def piecesText (pieces : List Nat) : List Char := joined ':' (pieces.map (Nat.toDigits 16))

/-- The pieces in hexadecimal, the longest run of two or more zeros left out. -/
def eightText (pieces : List Nat) : List Char :=
  let (start, length) := longestGap pieces
  if length < 2 then piecesText pieces
  else
    piecesText (pieces.take start) ++ [':', ':'] ++ piecesText (pieces.drop (start + length))

end Formwork.Url.Ip
