import Formwork.Binary64.Text
import Formwork.Query.Token
import Formwork.Text.Numeral

/-! Reading a written query. The first word after a complete step that begins no further step ends
the query, and whatever follows it is ignored. -/

namespace Formwork.Query

open Text

def skipBlank : List Token → List Token
  | .blank :: ts => ts
  | ts => ts

def integer? (text : String) : Option Int := readOffset? text.toList

def readIndices? : Nat → List Token → Option (List Int × List Token)
  | 0, _ => none
  | fuel + 1, .comma :: ts =>
    match skipBlank ts with
    | .key text :: ts => do
      let i ← integer? text
      let (is, ts) ← readIndices? fuel (skipBlank ts)
      some (i :: is, ts)
    | _ => none
  | _ + 1, ts => some ([], ts)

def readKeys? : Nat → List Token → Option (List String × List Token)
  | 0, _ => none
  | fuel + 1, .comma :: ts =>
    match skipBlank ts with
    | .quoted text :: ts => do
      let (keys, ts) ← readKeys? fuel (skipBlank ts)
      some (text :: keys, ts)
    | _ => none
  | _ + 1, ts => some ([], ts)

def readLast? : List Token → Option (Option Int × List Token)
  | .key text :: ts => (integer? text).map fun i => (some i, skipBlank ts)
  | ts => some (none, ts)

/-- The stride of a slice, which is one unless given after a second colon. -/
def readStride? : List Token → Option (Nat × List Token)
  | .colon :: ts =>
    match skipBlank ts with
    | .key text :: ts => (readIndex? text.toList).map fun n => (max 1 n, ts)
    | ts => some (1, ts)
  | ts => some (1, ts)

def readSlice? (first : Option Int) (ts : List Token) : Option (Step × List Token) := do
  let (last, ts) ← readLast? (skipBlank ts)
  let (stride, ts) ← readStride? ts
  some (.slice first last stride, ts)

def readNumber? (text : String) : Option Literal :=
  if text.toList.head?.any fun c => c = '-' || isDigit c then
    (Binary64.read? text.toList).map .number
  else none

/-- A literal: a quoted text or a number, whose point is a word of its own. -/
def readLiteral? : List Token → Option (Literal × List Token)
  | .quoted text :: ts => some (.text text, ts)
  | .key whole :: .dot :: .key fraction :: ts =>
    (readNumber? (whole ++ "." ++ fraction)).map (·, ts)
  | .key whole :: ts => (readNumber? whole).map (·, ts)
  | _ => none

def readComparison? : List Token → Option (Condition × List Token)
  | .current :: .dot :: .key k :: ts =>
    match skipBlank ts with
    | .relation r :: ts => do
      let (literal, ts) ← readLiteral? (skipBlank ts)
      some (.compares k r literal, skipBlank ts)
    | ts => some (.has k, ts)
  | _ => none

def readCondition? : Nat → List Token → Option (Condition × List Token)
  | 0, _ => none
  | fuel + 1, ts => do
    let (a, ts) ← readComparison? (skipBlank ts)
    match ts with
    | .both :: ts =>
      let (b, ts) ← readCondition? fuel ts
      some (.both a b, ts)
    | .either :: ts =>
      let (b, ts) ← readCondition? fuel ts
      some (.either a b, ts)
    | _ => some (a, ts)

def readSelection? (ts : List Token) : Option (Step × List Token) :=
  match skipBlank ts with
  | .star :: ts => some (.all, ts)
  | .question :: .parenOpening :: ts => do
    match ← readCondition? ts.length ts with
    | (condition, .parenClosing :: ts) => some (.filter condition, ts)
    | _ => none
  | .quoted k :: ts => do
    match ← readKeys? (ts.length + 1) ts with
    | ([], ts) => some (.key k, ts)
    | (ks, ts) => some (.keys (k :: ks), ts)
  | .colon :: ts => readSlice? none ts
  | .key text :: ts => do
    let i ← integer? text
    match skipBlank ts with
    | .colon :: ts => readSlice? (some i) ts
    | ts =>
      match ← readIndices? (ts.length + 1) ts with
      | ([], ts) => some (.index i, ts)
      | (is, ts) => some (.indices (i :: is), ts)
  | _ => none

def readBracket? (ts : List Token) : Option (Step × List Token) := do
  let (step, ts) ← readSelection? ts
  match skipBlank ts with
  | .closing :: ts => some (step, ts)
  | _ => none

/-- A bracket after two dots. Lists of keys or numbers and slices look no deeper than without them. -/
def Step.deep : Step → Step
  | key k => deepKey k
  | index i => deepIndex i
  | all => deepAll
  | filter condition => deepFilter condition
  | step => step

/-- One step and what follows it; nothing is left where no step begins. -/
def readStep? : List Token → Option (Option (Step × List Token))
  | .dot :: .dot :: .star :: ts => some (some (.deepAll, ts))
  | .dot :: .dot :: .key k :: ts => some (some (.deepKey k, ts))
  | .dot :: .dot :: .opening :: ts =>
    (readBracket? ts).map fun (step, ts) => some (step.deep, ts)
  | .dot :: .star :: ts => some (some (.all, ts))
  | .dot :: .key k :: ts => some (some (.key k, ts))
  | .dot :: .opening :: ts => (readBracket? ts).map some
  | .dot :: _ => none
  | .opening :: ts => (readBracket? ts).map some
  | _ => some none

def readSteps? : Nat → List Token → Option Query
  | 0, _ => none
  | fuel + 1, ts => do
    match ← readStep? ts with
    | some (step, ts) => (readSteps? fuel ts).map (step :: ·)
    | none => some []

def read? (text : String) : Option Query :=
  match Token.ofText text with
  | .root :: ts => readSteps? (ts.length + 1) ts
  | _ => none

end Formwork.Query
