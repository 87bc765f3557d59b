import Formwork.Control.Leaf
import Formwork.Control.Path

/-! Trees of controls: groups with their children in order of keys, arrays, and leaves. -/

namespace Formwork

inductive Node where
  | group (children : List (String × Node))
  | array (children : List Node)
  | leaf (leaf : Leaf)

namespace Node

/-- The child under a key of a group, or at an index of an array. No array is so long that an index
into it would not fit a word, so an index is read without that bound. -/
def child? (segment : String) : Node → Option Node
  | group children => Keyed.get? segment children
  | array children => (Text.readCount? segment.toList).bind fun i => children[i]?
  | leaf _ => none

def withChild (n : Node) (segment : String) (child : Node) : Node :=
  match n with
  | group children =>
    group (children.map fun (k, c) => if k = segment then (k, child) else (k, c))
  | array children =>
    match Text.readCount? segment.toList with
    | some i => array (children.set i child)
    | none => array children
  | leaf l => leaf l

def resolve : List String → Node → Option Node
  | [], n => some n
  | s :: ss, n => (n.child? s).bind (resolve ss)

def modify (f : Node → Node) : List String → Node → Node
  | [], n => f n
  | s :: ss, n =>
    match n.child? s with
    | some c => n.withChild s (modify f ss c)
    | none => n

def leaf? : Node → Option Leaf
  | leaf l => some l
  | _ => none

mutual
def status : Node → Status
  | group children => memberStatus children
  | array children => itemStatus children
  | leaf l => l.status
def itemStatus : List Node → Status
  | [] => .valid
  | n :: ns => (status n).join (itemStatus ns)
def memberStatus : List (String × Node) → Status
  | [] => .valid
  | (_, n) :: ns => (status n).join (memberStatus ns)
end

mutual
def anyLeaf (p : Leaf → Bool) : Node → Bool
  | group children => anyLeafOfMembers p children
  | array children => anyLeafOfItems p children
  | leaf l => p l
def anyLeafOfItems (p : Leaf → Bool) : List Node → Bool
  | [] => false
  | n :: ns => anyLeaf p n || anyLeafOfItems p ns
def anyLeafOfMembers (p : Leaf → Bool) : List (String × Node) → Bool
  | [] => false
  | (_, n) :: ns => anyLeaf p n || anyLeafOfMembers p ns
end

def touched (n : Node) : Bool := n.anyLeaf Leaf.touched

def dirty (n : Node) : Bool := n.anyLeaf Leaf.dirty

mutual
def value : Node → Json
  | group children => .object (memberValues children)
  | array children => .array (itemValues children)
  | leaf l => l.value
def itemValues : List Node → List Json
  | [] => []
  | n :: ns => value n :: itemValues ns
def memberValues : List (String × Node) → List (String × Json)
  | [] => []
  | (k, n) :: ns => (k, value n) :: memberValues ns
end

theorem memberValues_eq (children : List (String × Node)) :
    memberValues children = children.map fun e => (e.1, e.2.value) := by
  induction children with
  | nil => rfl
  | cons e children ih => rw [memberValues, ih, List.map_cons]

theorem itemValues_eq (children : List Node) : itemValues children = children.map value := by
  induction children with
  | nil => rfl
  | cons n children ih => rw [itemValues, ih, List.map_cons]

mutual
def walk (path : ControlPath) : Node → List (ControlPath × Node)
  | group children => (path, group children) :: walkMembers path children
  | array children => (path, array children) :: walkItems path 0 children
  | leaf l => [(path, leaf l)]
def walkItems (path : ControlPath) (index : Nat) : List Node → List (ControlPath × Node)
  | [] => []
  | n :: ns => walk (path.childIndex index) n ++ walkItems path (index + 1) ns
def walkMembers (path : ControlPath) : List (String × Node) → List (ControlPath × Node)
  | [] => []
  | (k, n) :: ns => walk (path.childKey k) n ++ walkMembers path ns
end

end Node

end Formwork
