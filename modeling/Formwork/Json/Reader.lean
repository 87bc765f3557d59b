import Formwork.Binary64.Text
import Formwork.Json

/-! Reading a JSON document. A repeated member keeps its first place and takes the last value. -/

namespace Formwork.Json

open Text

def skipSpace (cs : List Char) : List Char :=
  cs.dropWhile fun c => c = ' ' || c = '\n' || c = '\r' || c = '\t'

def readUnit? : List Char → Option (Nat × List Char)
  | a :: b :: c :: d :: rest => (readNat? 16 [a, b, c, d]).map (·, rest)
  | _ => none

def isLeadUnit (n : Nat) : Bool := 0xD800 ≤ n && n < 0xDC00

def isTrailUnit (n : Nat) : Bool := 0xDC00 ≤ n && n < 0xE000

/-- The character of one unit, or of two that form a pair. -/
def readEscapedUnit? (cs : List Char) : Option (Char × List Char) := do
  let (first, rest) ← readUnit? cs
  if isLeadUnit first then
    match rest with
    | '\\' :: 'u' :: more =>
      let (second, rest) ← readUnit? more
      if isTrailUnit second then
        some (Char.ofNat (0x10000 + (first - 0xD800) * 0x400 + (second - 0xDC00)), rest)
      else none
    | _ => none
  else if isTrailUnit first then none
  else some (Char.ofNat first, rest)

def readEscape? : List Char → Option (Char × List Char)
  | '"' :: rest => some ('"', rest)
  | '\\' :: rest => some ('\\', rest)
  | '/' :: rest => some ('/', rest)
  | 'b' :: rest => some ('\x08', rest)
  | 'f' :: rest => some ('\x0c', rest)
  | 'n' :: rest => some ('\n', rest)
  | 'r' :: rest => some ('\r', rest)
  | 't' :: rest => some ('\t', rest)
  | 'u' :: rest => readEscapedUnit? rest
  | _ => none

/-- Reads up to the closing quotation mark. The fuel bounds the number of characters. -/
def readChars? : Nat → List Char → Option (List Char × List Char)
  | 0, _ => none
  | _ + 1, [] => none
  | _ + 1, '"' :: rest => some ([], rest)
  | fuel + 1, '\\' :: rest => do
    let (c, rest) ← readEscape? rest
    let (cs, rest) ← readChars? fuel rest
    some (c :: cs, rest)
  | fuel + 1, c :: rest =>
    if c.toNat < 32 then none
    else do
      let (cs, rest) ← readChars? fuel rest
      some (c :: cs, rest)

def readString? (cs : List Char) : Option (String × List Char) :=
  (readChars? (cs.length + 1) cs).map fun (text, rest) => (String.ofList text, rest)

/-- A number without fraction and exponent that fits a signed or an unsigned 64-bit word. -/
def wholeNumber? (negative : Bool) (n : Nat) : Option Int :=
  if negative then (if 0 < n ∧ 2 * n ≤ wordEnd then some (-(n : Int)) else none)
  else if n < wordEnd then some n else none

def readNumber? (cs : List Char) : Option (Json × List Char) := do
  let (negative, unsigned) := match cs with
    | '-' :: rest => (true, rest)
    | rest => (false, rest)
  let (form, rest) := DecimalForm.scan unsigned
  if form.isStrict then
    match if form.isWhole then wholeNumber? negative form.significand else none with
    | some i => some (.int i, rest)
    | none => (Binary64.ofForm? negative form).map fun x => (.double x, rest)
  else none

def readWord? (word : String) (value : Json) (cs : List Char) : Option (Json × List Char) :=
  let letters := word.toList
  if cs.take letters.length = letters then some (value, cs.drop letters.length) else none

mutual
def readValue? : Nat → List Char → Option (Json × List Char)
  | 0, _ => none
  | fuel + 1, cs =>
    match skipSpace cs with
    | '[' :: rest =>
      match skipSpace rest with
      | ']' :: rest => some (.array [], rest)
      | rest => (readItems? fuel rest).map fun (items, rest) => (.array items, rest)
    | '\x7b' :: rest =>
      match skipSpace rest with
      | '\x7d' :: rest => some (.object [], rest)
      | rest => (readMembers? fuel [] rest).map fun (members, rest) => (.object members, rest)
    | '"' :: rest => (readString? rest).map fun (s, rest) => (.string s, rest)
    | 'n' :: rest => readWord? "null" .null ('n' :: rest)
    | 't' :: rest => readWord? "true" (.bool true) ('t' :: rest)
    | 'f' :: rest => readWord? "false" (.bool false) ('f' :: rest)
    | rest => readNumber? rest
def readItems? : Nat → List Char → Option (List Json × List Char)
  | 0, _ => none
  | fuel + 1, cs => do
    let (item, rest) ← readValue? fuel cs
    match skipSpace rest with
    | ',' :: rest =>
      let (items, rest) ← readItems? fuel rest
      some (item :: items, rest)
    | ']' :: rest => some ([item], rest)
    | _ => none
def readMembers? : Nat → Keyed Json → List Char → Option (Keyed Json × List Char)
  | 0, _, _ => none
  | fuel + 1, before, cs =>
    match skipSpace cs with
    | '"' :: rest => do
      let (key, rest) ← readString? rest
      match skipSpace rest with
      | ':' :: rest =>
        let (value, rest) ← readValue? fuel rest
        match skipSpace rest with
        | ',' :: rest => readMembers? fuel (before.put key value) rest
        | '\x7d' :: rest => some (before.put key value, rest)
        | _ => none
      | _ => none
    | _ => none
end

def read? (text : String) : Option Json :=
  let cs := text.toList
  match readValue? (cs.length + 1) cs with
  | some (value, rest) => if (skipSpace rest).isEmpty then some value else none
  | none => none

end Formwork.Json
