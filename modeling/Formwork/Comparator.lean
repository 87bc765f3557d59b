import Formwork.Dialect
import Formwork.Json.Loose

/-! The comparators of a form rule and what they say of two documents. -/

namespace Formwork

inductive Comparator where
  | greaterThan
  | lessThan
  | equal
  | startsWith
  | endsWith
  | contains
deriving DecidableEq, Repr

namespace Comparator

def token : Comparator → String
  | greaterThan => "greater_than"
  | lessThan => "less_than"
  | equal => "equal"
  | startsWith => "starts_with"
  | endsWith => "ends_with"
  | contains => "contains"

def ofToken? : String → Option Comparator
  | "greater_than" => some greaterThan
  | "less_than" => some lessThan
  | "equal" => some equal
  | "starts_with" => some startsWith
  | "ends_with" => some endsWith
  | "contains" => some contains
  | _ => none

theorem ofToken?_token (c : Comparator) : ofToken? c.token = some c := by
  cases c <;> rfl

theorem token_of_ofToken? {s : String} {c : Comparator} (h : ofToken? s = some c) :
    c.token = s := by
  unfold ofToken? at h
  split at h <;> simp_all [token] <;> subst h <;> rfl

/-- The order of two documents, if they have one: two texts by code points, all others by the numbers
that they pass for. -/
def order? (left right : Json) : Option Ordering :=
  match left, right with
  | .string a, .string b => some (compare a b)
  | _, _ =>
    match left.looseNumber?, right.looseNumber? with
    | some x, some y => some (compare x.place y.place)
    | _, _ => none

def number? : Json → Option Binary64
  | .int i => some (Binary64.ofInt i)
  | .double x => some x
  | _ => none

def isEqual (left right : Json) : Bool :=
  match number? left, number? right with
  | some x, some y => x.same y
  | _, _ => left.same right

/-- Whether a written pattern matches somewhere in the text of a document. Nothing matches a text
that writes no pattern. -/
def finds [Dialect] (pattern : String) (subject : Json) : Bool :=
  (Dialect.matcher? pattern).any (· subject.looseText)

def holds [Dialect] (c : Comparator) (left right : Json) : Bool :=
  match c with
  | greaterThan => order? left right == some .gt
  | lessThan => order? left right == some .lt
  | equal => isEqual left right
  | startsWith => finds ("^" ++ right.looseText) left
  | endsWith => finds (right.looseText ++ "$") left
  | contains => finds right.looseText left

end Comparator

end Formwork
