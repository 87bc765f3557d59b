import Formwork.Pattern.Class

/-! Reading a written pattern. Alternation binds loosest, then sequence, then repetition. -/

namespace Formwork.Pattern

open Text

structure Flags where
  caseless : Bool := false
  /-- Whether `^` and `$` also hold at the ends of lines. -/
  lines : Bool := false
  /-- Whether a point also stands for a line feed. -/
  dotAll : Bool := false

/-- Sets a flag by its letter. The preference for short matches decides nothing about whether there
is a match, and all characters are always taken as Unicode. -/
def Flags.set? (flags : Flags) (letter : Char) (value : Bool) : Option Flags :=
  match letter with
  | 'i' => some { flags with caseless := value }
  | 'm' => some { flags with lines := value }
  | 's' => some { flags with dotAll := value }
  | 'U' => some flags
  | 'u' => if value then some flags else none
  | _ => none

/-- Reads letters up to a colon or a closing parenthesis, which is returned too. No letter comes
twice, and a hyphen, after which flags are cleared, comes once and not last. -/
def readFlags? (flags : Flags) (seen : List Char) (value afterHyphen : Bool) :
    List Char → Option (Flags × Char × List Char)
  | [] => none
  | c :: rest =>
    if c = ':' ∨ c = ')' then
      if afterHyphen then none else some (flags, c, rest)
    else if c = '-' then
      if value then readFlags? flags seen false true rest else none
    else if c ∈ seen then none
    else do
      let flags ← flags.set? c value
      readFlags? flags (c :: seen) value false rest

def isNameStart (c : Char) : Bool := c = '_' || (isWordChar c && !decimalDigits.contains c)

def isNameChar (c : Char) : Bool := c = '.' || c = '[' || c = ']' || isWordChar c

def readName? (cs : List Char) : Option (String × List Char) :=
  let name := cs.takeWhile (· ≠ '>')
  match cs.dropWhile (· ≠ '>') with
  | '>' :: rest =>
    if name.head?.any isNameStart && name.all isNameChar then some (String.ofList name, rest)
    else none
  | _ => none

inductive Opening where
  | group (flags : Flags) (name : Option String)
  | flags (flags : Flags)

def readOpening? (flags : Flags) : List Char → Option (Opening × List Char)
  | '?' :: 'P' :: '<' :: rest =>
    (readName? rest).map fun (name, rest) => (.group flags (some name), rest)
  | '?' :: '<' :: rest =>
    (readName? rest).map fun (name, rest) => (.group flags (some name), rest)
  | '?' :: ')' :: _ => none
  | '?' :: rest =>
    (readFlags? flags [] true false rest).map fun (flags, stop, rest) =>
      (if stop = ':' then .group flags none else .flags flags, rest)
  | rest => some (.group flags none, rest)

def readCount? (cs : List Char) : Option (Nat × List Char) := do
  let cs := cs.dropWhile isBlank
  let n ← readNat? 10 (cs.takeWhile isDigit)
  if n < 0x100000000 then some (n, (cs.dropWhile isDigit).dropWhile isBlank) else none

/-- The bounds between braces: `3`, `3,` or `3,5`. -/
def readBounds? (cs : List Char) : Option ((Nat × Option Nat) × List Char) := do
  let (least, rest) ← readCount? cs
  match rest with
  | '\x7d' :: rest => some ((least, some least), rest)
  | ',' :: '\x7d' :: rest => some ((least, none), rest)
  | ',' :: rest =>
    let (most, rest) ← readCount? rest
    match rest with
    | '\x7d' :: rest => if least ≤ most then some ((least, some most), rest) else none
    | _ => none
  | _ => none

/-- The bounds that a repetition operator stands for. A question mark after it asks for short matches
and changes nothing here. -/
def readRepetition? (cs : List Char) : Option ((Nat × Option Nat) × List Char) := do
  let (bounds, rest) ← match cs with
    | '*' :: rest => some ((0, none), rest)
    | '+' :: rest => some ((1, none), rest)
    | '?' :: rest => some ((0, some 1), rest)
    | '\x7b' :: rest => readBounds? rest
    | _ => none
  match rest with
  | '?' :: rest => some (bounds, rest)
  | _ => some (bounds, rest)

def isRepetition (c : Char) : Bool := c = '*' || c = '+' || c = '?' || c = '\x7b'

def readAtom? (flags : Flags) : List Char → Option (Pattern × List Char)
  | [] => none
  | '.' :: rest => some (one (if flags.dotAll then .all else .compl (.single '\n')), rest)
  | '^' :: rest => some (look (if flags.lines then .lineStart else .textStart), rest)
  | '$' :: rest => some (look (if flags.lines then .lineEnd else .textEnd), rest)
  | '\\' :: rest =>
    (Escape.read? rest).map fun (escape, rest) =>
      (match escape with
        | .char c => one ((CharSet.single c).anyCaseIf flags.caseless)
        | .set s => one s
        | .look l => look l, rest)
  | c :: rest => some (one ((CharSet.single c).anyCaseIf flags.caseless), rest)

/-- A group being read. The lists have their latest entry first, and an item without a pattern is a
change of flags, which cannot be repeated. -/
structure Reading where
  flags : Flags := {}
  names : List String := []
  branches : List Pattern := []
  items : List (Option Pattern) := []

namespace Reading

def branch (r : Reading) : Pattern := concat (r.items.reverse.filterMap id)

def pattern (r : Reading) : Pattern := r.branches.foldl (fun later p => alt p later) r.branch

def add (r : Reading) (p : Pattern) : Reading := { r with items := some p :: r.items }

def setFlags (r : Reading) (flags : Flags) : Reading :=
  { r with flags := flags, items := none :: r.items }

def nextBranch (r : Reading) : Reading :=
  { r with branches := r.branch :: r.branches, items := [] }

def repeatLast? (r : Reading) (least : Nat) (most : Option Nat) : Option Reading :=
  match r.items with
  | some p :: items => some { r with items := some (p.times least most) :: items }
  | _ => none

def inner? (r : Reading) (flags : Flags) : Option String → Option Reading
  | none => some { flags := flags, names := r.names }
  | some name =>
    if name ∈ r.names then none else some { flags := flags, names := name :: r.names }

end Reading

/-- Reads the branches of a group up to its end: the closing parenthesis if the group is nested in
another, the end of the text if not. Also returns the names of groups. -/
def readBranches? : Nat → Bool → Reading → List Char → Option (Pattern × List String × List Char)
  | 0, _, _, _ => none
  | _ + 1, nested, r, [] => if nested then none else some (r.pattern, r.names, [])
  | fuel + 1, nested, r, c :: rest =>
    if c = ')' then
      if nested then some (r.pattern, r.names, rest) else none
    else if c = '|' then readBranches? fuel nested r.nextBranch rest
    else if c = '(' then do
      match ← readOpening? r.flags rest with
      | (.flags flags, rest) => readBranches? fuel nested (r.setFlags flags) rest
      | (.group flags name, rest) =>
        let inner ← r.inner? flags name
        let (body, names, rest) ← readBranches? fuel true inner rest
        readBranches? fuel nested { r.add body with names := names } rest
    else if c = '[' then do
      let (set, rest) ← Class.read? r.flags.caseless fuel rest
      readBranches? fuel nested (r.add (one set)) rest
    else if isRepetition c then do
      let ((least, most), rest) ← readRepetition? (c :: rest)
      let r ← r.repeatLast? least most
      readBranches? fuel nested r rest
    else do
      let (p, rest) ← readAtom? r.flags (c :: rest)
      readBranches? fuel nested (r.add p) rest

/-- Patterns that weigh more are refused. The bound is this reader's own, and no general result
depends on it. -/
def weightLimit : Nat := 250000

def read? (text : String) : Option Pattern := do
  let cs := text.toList
  let (p, _, _) ← readBranches? (2 * cs.length + 2) false {} cs
  if p.weight ≤ weightLimit then some p else none

end Formwork.Pattern
