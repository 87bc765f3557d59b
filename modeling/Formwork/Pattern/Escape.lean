import Formwork.Pattern
import Formwork.Text.Numeral

/-! What a backslash and the characters after it stand for in a written pattern. -/

namespace Formwork.Pattern

open Text

inductive Escape where
  | char (c : Char)
  | set (s : CharSet)
  | look (l : Look)

namespace Escape

def charOf? (digits : List Char) : Option Char := do
  let n ← readNat? 16 digits
  if n.isValidChar then some (Char.ofNat n) else none

def readCode? (count : Nat) : List Char → Option (Char × List Char)
  | '\x7b' :: rest =>
    match rest.dropWhile isHexDigit with
    | '\x7d' :: after => (charOf? (rest.takeWhile isHexDigit)).map (·, after)
    | _ => none
  | cs =>
    let digits := cs.take count
    if digits.length = count ∧ digits.all isHexDigit then
      (charOf? digits).map (·, cs.drop count)
    else none

def isEdgeNameChar (c : Char) : Bool := c.isAlpha || c = '-'

def edgeNamed? : String → Option Look
  | "start" => some .wordStart
  | "end" => some .wordEnd
  | "start-half" => some .wordStartHalf
  | "end-half" => some .wordEndHalf
  | _ => none

/-- The edge of a word, or one side of it named in braces. Braces that hold no name are left to a
repetition. -/
def readEdge? : List Char → Option (Look × List Char)
  | '\x7b' :: c :: rest =>
    if isEdgeNameChar c then
      match (c :: rest).dropWhile isEdgeNameChar with
      | '\x7d' :: after =>
        (edgeNamed? (String.ofList ((c :: rest).takeWhile isEdgeNameChar))).map (·, after)
      | _ => none
    else some (.wordEdge, '\x7b' :: c :: rest)
  | ['\x7b'] => none
  | cs => some (.wordEdge, cs)

/-- Reads on after the backslash. ASCII characters that are no letters or digits stand for
themselves; letters without a meaning are refused, and so are references back to groups. -/
def read? : List Char → Option (Escape × List Char)
  | [] => none
  | 'x' :: rest => (readCode? 2 rest).map fun (c, rest) => (char c, rest)
  | 'u' :: rest => (readCode? 4 rest).map fun (c, rest) => (char c, rest)
  | 'U' :: rest => (readCode? 8 rest).map fun (c, rest) => (char c, rest)
  | 'd' :: rest => some (set .digits, rest)
  | 's' :: rest => some (set .blanks, rest)
  | 'w' :: rest => some (set .words, rest)
  | 'D' :: rest => some (set (.compl .digits), rest)
  | 'S' :: rest => some (set (.compl .blanks), rest)
  | 'W' :: rest => some (set (.compl .words), rest)
  | 'a' :: rest => some (char '\x07', rest)
  | 'f' :: rest => some (char '\x0c', rest)
  | 't' :: rest => some (char '\t', rest)
  | 'n' :: rest => some (char '\n', rest)
  | 'r' :: rest => some (char '\r', rest)
  | 'v' :: rest => some (char '\x0b', rest)
  | 'A' :: rest => some (look .textStart, rest)
  | 'z' :: rest => some (look .textEnd, rest)
  | 'b' :: rest => (readEdge? rest).map fun (l, rest) => (look l, rest)
  | 'B' :: rest => some (look .notWordEdge, rest)
  | '<' :: rest => some (look .wordStart, rest)
  | '>' :: rest => some (look .wordEnd, rest)
  | c :: rest => if c.toNat < 128 ∧ !c.isAlphanum then some (char c, rest) else none

def toSet? : Escape → Option CharSet
  | char c => some (.single c)
  | set s => some s
  | look _ => none

end Escape

end Formwork.Pattern
