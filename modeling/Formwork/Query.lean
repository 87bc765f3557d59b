import Formwork.Json

/-! Queries into a document: a list of steps, each of which leads from a list of nodes to a list of
nodes. -/

namespace Formwork

inductive Query.Literal where
  | number (x : Binary64)
  | text (s : String)
deriving DecidableEq

inductive Query.Relation where
  | eq
  | ne
  | lt
  | le
  | gt
  | ge
deriving DecidableEq, Repr

inductive Query.Condition where
  | has (key : String)
  | compares (key : String) (relation : Query.Relation) (literal : Query.Literal)
  | both (a b : Query.Condition)
  | either (a b : Query.Condition)
deriving DecidableEq

inductive Query.Step where
  | key (key : String)
  | keys (keys : List String)
  | index (i : Int)
  | indices (is : List Int)
  | slice (first last : Option Int) (stride : Nat)
  | all
  | deepKey (key : String)
  | deepIndex (i : Int)
  | deepAll
  | filter (condition : Query.Condition)
  | deepFilter (condition : Query.Condition)
deriving DecidableEq

abbrev Query := List Query.Step

namespace Query

def children : Json → List Json
  | .array items => items
  | .object members => members.map (·.2)
  | _ => []

mutual
def descendants : Json → List Json
  | .array items => .array items :: itemDescendants items
  | .object members => .object members :: memberDescendants members
  | v => [v]
def itemDescendants : List Json → List Json
  | [] => []
  | v :: vs => descendants v ++ itemDescendants vs
def memberDescendants : List (String × Json) → List Json
  | [] => []
  | (_, v) :: ms => descendants v ++ memberDescendants ms
end

/-- A place in a list of `size` elements. A negative index counts from the end, and stops at the
first element. -/
def place (size : Nat) (i : Int) : Nat := if i < 0 then (i + size).toNat else i.toNat

def element? (i : Int) : Json → Option Json
  | .array items => items[place items.length i]?
  | _ => none

/-- The element of an array, or that element of each array among the members of an object. -/
def atIndex (i : Int) : Json → List Json
  | .object members => (members.map (·.2)).filterMap (element? i)
  | v => (element? i v).toList

def sliced (first last : Option Int) (stride : Nat) : Json → List Json
  | .array items =>
    let start := (first.map (place items.length)).getD 0
    let stop := min ((last.map (place items.length)).getD items.length) items.length
    let count := (stop - start + (stride - 1)) / stride
    (List.range count).filterMap fun n => items[start + n * stride]?
  | _ => []

def Relation.holds : Relation → Ordering → Bool
  | .eq, o => o == .eq
  | .ne, o => o != .eq
  | .lt, o => o == .lt
  | .le, o => o != .gt
  | .gt, o => o == .gt
  | .ge, o => o != .lt

def orderTo? : Json → Literal → Option Ordering
  | .int i, .number x => some (compare (Binary64.ofInt i).place x.place)
  | .double y, .number x => some (compare y.place x.place)
  | .string t, .text s => some (compare t s)
  | _, _ => none

/-- The places, among the candidates, that satisfy a condition. An alternative gives all of its first
side before those that only the second side has. -/
def Condition.select (candidates : List (Nat × Json)) : Condition → List (Nat × Json)
  | has key => candidates.filter fun c => (c.2.member? key).isSome
  | compares key relation literal =>
    candidates.filter fun c =>
      ((c.2.member? key).bind (orderTo? · literal)).any relation.holds
  | both a b =>
    let right := b.select candidates
    (a.select candidates).filter fun c => right.any (·.1 == c.1)
  | either a b =>
    let left := a.select candidates
    left ++ (b.select candidates).filter fun c => !left.any (·.1 == c.1)

/-- What a filter chooses from: the objects in an array, or an object itself. -/
def candidates : Json → List Json
  | .array items => items.filter fun v => v.asObject?.isSome
  | .object members => [.object members]
  | _ => []

def filtered (condition : Condition) (nodes : List Json) : List Json :=
  let found := nodes.flatMap candidates
  (condition.select ((List.range found.length).zip found)).map (·.2)

def Step.select (nodes : List Json) : Step → List Json
  | key k => nodes.filterMap (Json.member? k)
  | keys ks => nodes.flatMap fun v => ks.filterMap fun k => v.member? k
  | index i => nodes.flatMap (atIndex i)
  | indices is => nodes.flatMap fun v => is.filterMap fun i => element? i v
  | slice first last stride => nodes.flatMap (sliced first last stride)
  | all => nodes.flatMap children
  | deepKey k => (nodes.flatMap descendants).filterMap (Json.member? k)
  | deepIndex i => (nodes.flatMap descendants).filterMap (element? i)
  | deepAll => (nodes.flatMap descendants).flatMap children
  | filter condition => filtered condition nodes
  | deepFilter condition => filtered condition (nodes.flatMap descendants)

def select (q : Query) (document : Json) : List Json :=
  q.foldl Step.select [document]

end Query

end Formwork
