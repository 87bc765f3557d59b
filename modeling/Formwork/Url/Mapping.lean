import Formwork.Text.Blank
import Formwork.Text.Case

/-! What the characters of a domain name stand for, one by one. -/

namespace Formwork.Url.Mapping

open Text

/-- Characters that leave no trace in a name. -/
def ignored : Ranges :=
  [(0xAD, 0xAD), (0x34F, 0x34F), (0x180B, 0x180D), (0x180F, 0x180F), (0x200B, 0x200B),
    (0x2060, 0x2060), (0x2064, 0x2064), (0xFE00, 0xFE0F), (0xFEFF, 0xFEFF), (0xE0100, 0xE01EF)]

/-- Characters that no name may hold: controls, joiners, marks of direction, private use, and
specials. White space outside ASCII stands for a space, which is not permitted either. -/
def refused : Ranges :=
  [(0x80, 0x9F), (0x200C, 0x200F), (0x2028, 0x202E), (0x2061, 0x2063), (0x2065, 0x206F),
    (0xD800, 0xF8FF), (0xFDD0, 0xFDEF), (0xFFF9, 0xFFFF), (0xE0001, 0xE007F),
    (0xF0000, 0x10FFFF)]

def dots : Ranges := [(0x3002, 0x3002), (0xFF0E, 0xFF0E), (0xFF61, 0xFF61)]

/-- The small letter, or the simple form of a letter, digit or sign of full width. The small sigma at
the end of a word stays. -/
def simplify (c : Char) : Char :=
  let n := c.toNat
  let c := if 0xFF01 ≤ n ∧ n ≤ 0xFF5E then Char.ofNat (n - 0xFEE0) else c
  if n = 0x3C2 then c else foldCase c

/-- What a character stands for, if it is permitted. A large I with a dot keeps the dot. -/
def ofChar? (c : Char) : Option (List Char) :=
  if c.toNat < 128 then some [c.toLower]
  else if ignored.contains c then some []
  else if dots.contains c then some ['.']
  else if refused.contains c || isBlank c then none
  else if c = '\u0130' then some ['i', '\u0307']
  else some [simplify c]

def ofName? (name : List Char) : Option (List Char) := (name.mapM ofChar?).map List.flatten

end Formwork.Url.Mapping
