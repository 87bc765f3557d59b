import Formwork.Pattern.CharSet

/-! Regular patterns over characters, and the search for a match anywhere in a text. A set of
positions in a text of `n` characters is a list of `n + 1` marks. -/

namespace Formwork

inductive Look where
  | textStart
  | textEnd
  | lineStart
  | lineEnd
  | wordEdge
  | notWordEdge
  | wordStart
  | wordEnd
  | wordStartHalf
  | wordEndHalf
deriving DecidableEq, Repr

inductive Pattern where
  | empty
  | one (set : CharSet)
  | look (l : Look)
  | seq (a b : Pattern)
  | alt (a b : Pattern)
  /-- At least `least` times, and at most `most` times if that is given. -/
  | repeated (body : Pattern) (least : Nat) (most : Option Nat)
deriving DecidableEq

def Look.holds (l : Look) (before after : Option Char) : Bool :=
  let wordBefore := before.any Text.isWordChar
  let wordAfter := after.any Text.isWordChar
  match l with
  | .textStart => before.isNone
  | .textEnd => after.isNone
  | .lineStart => before.all (· == '\n')
  | .lineEnd => after.all (· == '\n')
  | .wordEdge => wordBefore != wordAfter
  | .notWordEdge => wordBefore == wordAfter
  | .wordStart => !wordBefore && wordAfter
  | .wordEnd => wordBefore && !wordAfter
  | .wordStartHalf => !wordBefore
  | .wordEndHalf => !wordAfter

namespace Pattern

abbrev Marks := List Bool

def Marks.both (a b : Marks) : Marks := List.zipWith (· && ·) a b

def Marks.either (a b : Marks) : Marks := List.zipWith (· || ·) a b

/-- The positions of a text where a condition holds, given the character before the text. -/
def lookMarks (l : Look) : Option Char → List Char → Marks
  | before, [] => [l.holds before none]
  | before, c :: cs => l.holds before (some c) :: lookMarks l (some c) cs

def closure (step : Marks → Marks) : Nat → Marks → Marks
  | 0, marks => marks
  | fuel + 1, marks =>
    let more := marks.either (step marks)
    if more = marks then marks else closure step fuel more

def withinSteps (step : Marks → Marks) : Nat → Marks → Marks
  | 0, marks => marks
  | n + 1, marks => marks.either (withinSteps step n (step marks))

/-- Where a match can end that starts at one of the marked positions. -/
def ends (text : List Char) : Pattern → Marks → Marks
  | empty, marks => marks
  | one set, marks => false :: List.zipWith (fun c mark => mark && set.contains c) text marks
  | look l, marks => marks.both (lookMarks l none text)
  | seq a b, marks => ends text b (ends text a marks)
  | alt a b, marks => (ends text a marks).either (ends text b marks)
  | repeated body least (some most), marks =>
    withinSteps (ends text body) (most - least) (Nat.repeat (ends text body) least marks)
  | repeated body least none, marks =>
    closure (ends text body) text.length (Nat.repeat (ends text body) least marks)

def isMatch (p : Pattern) (text : String) : Bool :=
  (ends text.toList p (List.replicate (text.toList.length + 1) true)).any id

def consumes : Pattern → Bool
  | empty => false
  | one _ => true
  | look _ => false
  | seq a b => a.consumes || b.consumes
  | alt a b => a.consumes || b.consumes
  | repeated body _ most => body.consumes && most != some 0

/-- The size of the pattern with its repetitions written out. -/
def weight : Pattern → Nat
  | empty => 0
  | one set => set.weight
  | look _ => 1
  | seq a b => a.weight + b.weight
  | alt a b => a.weight + b.weight + 1
  | repeated body _ (some most) => body.weight * most + 1
  | repeated body least none => body.weight * max least 1 + 1

/-- A repetition; what only matches the empty text need not be repeated more than once. -/
def times (body : Pattern) (least : Nat) (most : Option Nat) : Pattern :=
  if body.consumes then repeated body least most
  else repeated body (min least 1) (some (min (most.getD 1) 1))

def concat (ps : List Pattern) : Pattern := ps.foldr seq empty

end Pattern

end Formwork
