/-! Labels of host names in letters, digits and hyphens: the characters outside ASCII are taken out
and written at the end, in ascending order, as steps from one to the next. -/

namespace Formwork.Url.Punycode

def digitOf (d : Nat) : Char := if d < 26 then Char.ofNat (97 + d) else Char.ofNat (22 + d)

def valueOf? (c : Char) : Option Nat :=
  if 'a' ≤ c ∧ c ≤ 'z' then some (c.toNat - 97)
  else if 'A' ≤ c ∧ c ≤ 'Z' then some (c.toNat - 65)
  else if '0' ≤ c ∧ c ≤ '9' then some (c.toNat - 22)
  else none

/-- The least value of a digit that is followed by another, at a place counted in steps of 36. -/
def threshold (place bias : Nat) : Nat := max 1 (min 26 (place - bias))

theorem threshold_pos (place bias : Nat) : 1 ≤ threshold place bias := Nat.le_max_left ..

/-- Divides by 35 until little is left, and counts the divisions in steps of 36. -/
def settle (delta place : Nat) : Nat × Nat :=
  if 455 < delta then settle (delta / 35) (place + 36) else (delta, place)
termination_by delta
decreasing_by omega

def adapt (delta count : Nat) (first : Bool) : Nat :=
  let scaled := if first then delta / 700 else delta / 2
  let (rest, place) := settle (scaled + scaled / count) 0
  place + 36 * rest / (rest + 38)

def writeNumber (bias place n : Nat) : List Char :=
  let t := threshold place bias
  if n < t then [digitOf n]
  else digitOf (t + (n - t) % (36 - t)) :: writeNumber bias (place + 36) ((n - t) / (36 - t))
termination_by n
decreasing_by
  have ht := threshold_pos place bias
  have hd := Nat.div_le_self (n - threshold place bias) (36 - threshold place bias)
  omega

/-- The state of writing: the next code point to look for, the step so far, the bias, how many
characters are in place, whether a step has been written, and what has been written. -/
structure Writer where
  next : Nat
  delta : Nat
  bias : Nat
  placed : Nat
  first : Bool
  written : List Char

def Writer.pass (w : Writer) (c : Char) : Writer :=
  if c.toNat < w.next then { w with delta := w.delta + 1 }
  else if c.toNat = w.next then
    { w with
      delta := 0
      bias := adapt w.delta (w.placed + 1) w.first
      placed := w.placed + 1
      first := false
      written := w.written ++ writeNumber w.bias 36 w.delta }
  else w

def Writer.put (text : List Char) (w : Writer) (code : Nat) : Writer :=
  let start := { w with delta := w.delta + (code - w.next) * (w.placed + 1), next := code }
  let w := text.foldl pass start
  { w with delta := w.delta + 1, next := code + 1 }

def isAscii (c : Char) : Bool := c.toNat < 128

def extras (text : List Char) : List Nat :=
  (((text.filter fun c => !isAscii c).map Char.toNat).mergeSort (· ≤ ·)).eraseDups

def encode (text : List Char) : List Char :=
  let basic := text.filter isAscii
  let start : Writer := ⟨128, 0, 72, basic.length, true, []⟩
  let w := (extras text).foldl (Writer.put text) start
  basic ++ (if basic.isEmpty then [] else ['-']) ++ w.written

def readNumber? (bias : Nat) : (place value weight : Nat) → List Char → Option (Nat × List Char)
  | _, _, _, [] => none
  | place, value, weight, c :: cs => do
    let d ← valueOf? c
    let value := value + d * weight
    let t := threshold place bias
    if d < t then some (value, cs) else readNumber? bias (place + 36) value (weight * (36 - t)) cs

def insertAt (text : List Char) (index : Nat) (c : Char) : List Char :=
  text.take index ++ c :: text.drop index

def readSteps? : (fuel : Nat) → (next position bias : Nat) → (first : Bool) → List Char →
    List Char → Option (List Char)
  | 0, _, _, _, _, _, _ => none
  | _ + 1, _, _, _, _, text, [] => some text
  | fuel + 1, next, position, bias, first, text, cs => do
    let (delta, cs) ← readNumber? bias 36 0 1 cs
    let count := text.length + 1
    let reached := position + delta
    let code := next + reached / count
    if code.isValidChar then
      let index := reached % count
      readSteps? fuel code (index + 1) (adapt delta count first) false
        (insertAt text index (Char.ofNat code)) cs
    else none

/-- The label that was written; a hyphen parts the ASCII characters from the steps. -/
def decode? (cs : List Char) : Option (List Char) :=
  let steps := (cs.reverse.takeWhile (· ≠ '-')).reverse
  let basic := cs.take (cs.length - steps.length - 1)
  readSteps? (cs.length + 1) 128 0 72 true basic steps

end Formwork.Url.Punycode
