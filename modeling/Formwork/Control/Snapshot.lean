import Formwork.Control.Node

/-! What a form shows of its state: flags for every control, and the values of the leaves. -/

namespace Formwork

structure Snapshot.State where
  status : Status
  touched : Bool
  dirty : Bool
  /-- Only leaves have failures of their own. -/
  failures : Option Failures

inductive Snapshot where
  | group (state : Snapshot.State) (children : List (String × Snapshot))
  | array (state : Snapshot.State) (children : List Snapshot)
  | leaf (state : Snapshot.State) (value : Json)

namespace Snapshot

def State.ofNode (n : Node) : State where
  status := n.status
  touched := n.touched
  dirty := n.dirty
  failures := n.leaf?.bind Leaf.failures

mutual
def ofNode : Node → Snapshot
  | .group children => group (State.ofNode (.group children)) (ofMembers children)
  | .array children => array (State.ofNode (.array children)) (ofItems children)
  | .leaf l => leaf (State.ofNode (.leaf l)) l.value
def ofItems : List Node → List Snapshot
  | [] => []
  | n :: ns => ofNode n :: ofItems ns
def ofMembers : List (String × Node) → List (String × Snapshot)
  | [] => []
  | (k, n) :: ns => (k, ofNode n) :: ofMembers ns
end

def child? (segment : String) : Snapshot → Option Snapshot
  | group _ children => Keyed.get? segment children
  | array _ children => (Text.readCount? segment.toList).bind fun i => children[i]?
  | leaf _ _ => none

def resolve : List String → Snapshot → Option Snapshot
  | [], s => some s
  | k :: ks, s => (s.child? k).bind (resolve ks)

def failuresJson (failures : Option Failures) : Json := .ofOption .object failures

def State.members (s : State) : Keyed Json :=
  [("valid", .bool (s.status = .valid)), ("invalid", .bool (s.status = .invalid)),
    ("pending", .bool (s.status = .pending)), ("touched", .bool s.touched),
    ("untouched", .bool !s.touched), ("dirty", .bool s.dirty),
    ("errors", failuresJson s.failures)]

mutual
/-- The children of a group stand beside its flags, and one that is keyed like a flag takes its
place. -/
def toJson : Snapshot → Json
  | group state children => .object (putMembers state.members children)
  | array state children => .object (state.members ++ [("controls", .array (toJsons children))])
  | leaf state value => .object (state.members ++ [("value", value)])
def toJsons : List Snapshot → List Json
  | [] => []
  | s :: ss => toJson s :: toJsons ss
def putMembers (members : Keyed Json) : List (String × Snapshot) → Keyed Json
  | [] => members
  | (k, s) :: ss => putMembers (members.put k (toJson s)) ss
end

end Snapshot

end Formwork
