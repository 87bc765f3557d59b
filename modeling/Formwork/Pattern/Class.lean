import Formwork.Pattern.Escape

/-! Bracketed classes of a written pattern: members, ranges, named sets, classes inside classes, and
the operators between them, which bind from left to right. -/

namespace Formwork.Pattern.Class

inductive Operator where
  | inter
  | diff
  | symmDiff

def Operator.apply : Operator → CharSet → CharSet → CharSet
  | inter => CharSet.inter
  | diff => CharSet.diff
  | symmDiff => CharSet.symmDiff

def joined (caseless : Bool) : Option (Operator × CharSet) → CharSet → CharSet
  | none, members => members
  | some (op, left), members => op.apply (left.anyCaseIf caseless) (members.anyCaseIf caseless)

/-- A named set, its opening bracket already read: `[:alpha:]`, or `[:^alpha:]` for all other
characters. -/
def readNamed? (caseless : Bool) : List Char → Option (CharSet × List Char)
  | ':' :: rest =>
    let (negated, rest) := match rest with
      | '^' :: more => (true, more)
      | _ => (false, rest)
    match rest.dropWhile (· ≠ ':') with
    | ':' :: ']' :: after => do
      let members ← CharSet.named? (String.ofList (rest.takeWhile (· ≠ ':')))
      some ((members.anyCaseIf caseless).complIf negated, after)
    | _ => none
  | _ => none

def readMember? : List Char → Option (Escape × List Char)
  | [] => none
  | '\\' :: rest => Escape.read? rest
  | c :: rest => some (.char c, rest)

/-- One member or one range. A hyphen before the closing bracket or another hyphen makes no range. -/
def readRange? (cs : List Char) : Option (CharSet × List Char) := do
  let (first, rest) ← readMember? cs
  match rest with
  | '-' :: ']' :: _ => first.toSet?.map (·, rest)
  | '-' :: '-' :: _ => first.toSet?.map (·, rest)
  | '-' :: more =>
    let (last, rest) ← readMember? more
    match first, last with
    | .char a, .char b => if a ≤ b then some (.ranges [(a.toNat, b.toNat)], rest) else none
    | _, _ => none
  | _ => first.toSet?.map (·, rest)

/-- What may stand at the very start of a class as itself: any number of hyphens, or else a closing
bracket. -/
def readFirst (cs : List Char) : CharSet × List Char :=
  match cs with
  | ']' :: rest => (.single ']', rest)
  | '-' :: rest => (.single '-', rest.dropWhile (· = '-'))
  | _ => (.none, cs)

mutual
def read? (caseless : Bool) : Nat → List Char → Option (CharSet × List Char)
  | 0, _ => none
  | fuel + 1, cs => do
    let (negated, cs) := match cs with
      | '^' :: rest => (true, rest)
      | _ => (false, cs)
    let (members, rest) := readFirst cs
    let (members, rest) ← readMembers? caseless fuel none members rest
    some ((members.anyCaseIf caseless).complIf negated, rest)
def readMembers? (caseless : Bool) :
    Nat → Option (Operator × CharSet) → CharSet → List Char → Option (CharSet × List Char)
  | 0, _, _, _ => none
  | _ + 1, _, _, [] => none
  | _ + 1, left, members, ']' :: rest => some (joined caseless left members, rest)
  | fuel + 1, left, members, '&' :: '&' :: rest =>
    readMembers? caseless fuel (some (.inter, joined caseless left members)) .none rest
  | fuel + 1, left, members, '-' :: '-' :: rest =>
    readMembers? caseless fuel (some (.diff, joined caseless left members)) .none rest
  | fuel + 1, left, members, '~' :: '~' :: rest =>
    readMembers? caseless fuel (some (.symmDiff, joined caseless left members)) .none rest
  | fuel + 1, left, members, '[' :: rest =>
    match readNamed? caseless rest with
    | some (named, rest) => readMembers? caseless fuel left (members.union named) rest
    | none => do
      let (inner, rest) ← read? caseless fuel rest
      readMembers? caseless fuel left (members.union inner) rest
  | fuel + 1, left, members, cs => do
    let (more, rest) ← readRange? cs
    readMembers? caseless fuel left (members.union more) rest
end

end Formwork.Pattern.Class
