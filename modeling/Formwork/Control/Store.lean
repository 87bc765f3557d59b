import Formwork.Control.Snapshot

/-! The tree of all controls of a form. It only grows, and what is added is never moved. -/

namespace Formwork

inductive StoreError where
  | leafParent (path : ControlPath)
  | unknownParent (path : ControlPath)
  | emptyKey (parent : ControlPath)
  | duplicateKey (path : ControlPath)
deriving DecidableEq, Repr

def StoreError.message : StoreError → String
  | leafParent path =>
    "target path is a control element and can not contain children: `" ++ path.text ++ "`"
  | unknownParent path => "parent path does not exist: `" ++ path.text ++ "`"
  | emptyKey parent => "group child key must not be empty under `" ++ parent.text ++ "`"
  | duplicateKey path => "path is already assigned: `" ++ path.text ++ "`"

structure Store where
  root : Node

namespace Store

def empty : Store := ⟨.group []⟩

def resolve (s : Store) (path : ControlPath) : Option Node := s.root.resolve path.segments

def leaf? (s : Store) (path : ControlPath) : Option Leaf := (s.resolve path).bind Node.leaf?

def setNode (s : Store) (path : ControlPath) (n : Node) : Store :=
  ⟨s.root.modify (fun _ => n) path.segments⟩

def setLeaf (s : Store) (path : ControlPath) (l : Leaf) : Store := s.setNode path (.leaf l)

/-- Adds a node below the parent and tells its path. A group takes it under the key, an array at its
end whatever the key. -/
def add (s : Store) (key : String) (parent : ControlPath) (n : Node) :
    Except StoreError (ControlPath × Store) :=
  match s.resolve parent with
  | none => .error (.unknownParent parent)
  | some (.leaf _) => .error (.leafParent parent)
  | some (.array children) =>
    .ok (parent.childIndex children.length, s.setNode parent (.array (children ++ [n])))
  | some (.group children) =>
    if key = "" then .error (.emptyKey parent)
    else if Keyed.contains key children then .error (.duplicateKey (parent.childKey key))
    else .ok (parent.childKey key, s.setNode parent (.group (Keyed.insert key n children)))

/-- Every node with its path, in pre-order from the root. -/
def nodes (s : Store) : List (ControlPath × Node) := s.root.walk .root

def paths (s : Store) : List ControlPath := s.nodes.map (·.1)

def leafPaths (s : Store) : List ControlPath := s.paths.filter fun p => (s.leaf? p).isSome

def snapshot (s : Store) : Snapshot := .ofNode s.root

end Store

end Formwork
