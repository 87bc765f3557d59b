import Formwork.Binary64
import Formwork.Keyed

/-! JSON documents. Integers and doubles are different kinds, and objects keep their members in
written order. -/

namespace Formwork

inductive Json where
  | null
  | bool (b : Bool)
  | int (i : Int)
  | double (x : Binary64)
  | string (s : String)
  | array (items : List Json)
  | object (members : List (String × Json))
deriving Inhabited

namespace Json

mutual
def beq : Json → Json → Bool
  | .null, .null => true
  | .bool a, .bool b => a == b
  | .int a, .int b => a == b
  | .double a, .double b => a == b
  | .string a, .string b => a == b
  | .array xs, .array ys => beqItems xs ys
  | .object ms, .object ns => beqMembers ms ns
  | _, _ => false
def beqItems : List Json → List Json → Bool
  | [], [] => true
  | x :: xs, y :: ys => beq x y && beqItems xs ys
  | _, _ => false
def beqMembers : List (String × Json) → List (String × Json) → Bool
  | [], [] => true
  | (k, x) :: ms, (l, y) :: ns => k == l && beq x y && beqMembers ms ns
  | _, _ => false
end

mutual
theorem beq_iff : ∀ a b : Json, beq a b = true ↔ a = b
  | .null, b => by cases b <;> simp [beq]
  | .bool _, b => by cases b <;> simp [beq]
  | .int _, b => by cases b <;> simp [beq]
  | .double _, b => by cases b <;> simp [beq]
  | .string _, b => by cases b <;> simp [beq]
  | .array xs, b => by cases b <;> simp [beq, beqItems_iff xs]
  | .object ms, b => by cases b <;> simp [beq, beqMembers_iff ms]
theorem beqItems_iff : ∀ xs ys : List Json, beqItems xs ys = true ↔ xs = ys
  | [], ys => by cases ys <;> simp [beqItems]
  | x :: xs, ys => by cases ys <;> simp [beqItems, beq_iff x, beqItems_iff xs]
theorem beqMembers_iff : ∀ ms ns : List (String × Json), beqMembers ms ns = true ↔ ms = ns
  | [], ns => by cases ns <;> simp [beqMembers]
  | (k, x) :: ms, ns => by
    cases ns <;> simp [beqMembers, beq_iff x, beqMembers_iff ms, Prod.ext_iff]
end

instance : DecidableEq Json := fun a b => decidable_of_iff _ (beq_iff a b)

mutual
/-- The document with the members of every object in ascending order of keys and with no negative
zero. -/
def canonical : Json → Json
  | .double x => .double x.unsignZero
  | .array xs => .array (canonicalItems xs)
  | .object ms => .object (Keyed.sorted (canonicalMembers ms))
  | v => v
def canonicalItems : List Json → List Json
  | [] => []
  | x :: xs => canonical x :: canonicalItems xs
def canonicalMembers : List (String × Json) → List (String × Json)
  | [] => []
  | (k, x) :: ms => (k, canonical x) :: canonicalMembers ms
end

/-- Equality of documents: the order of members means nothing, an integer never equals a double, and
the two zeros among the doubles are equal. -/
def same (a b : Json) : Bool := canonical a == canonical b

theorem same_iff {a b : Json} : same a b = true ↔ canonical a = canonical b := by
  simp [same]

def isNull : Json → Bool
  | .null => true
  | _ => false

def isContainer : Json → Bool
  | .array _ => true
  | .object _ => true
  | _ => false

def asString? : Json → Option String
  | .string s => some s
  | _ => none

def asInt? : Json → Option Int
  | .int i => some i
  | _ => none

def asArray? : Json → Option (List Json)
  | .array items => some items
  | _ => none

def asObject? : Json → Option (List (String × Json))
  | .object members => some members
  | _ => none

def member? (key : String) : Json → Option Json
  | .object members => Keyed.get? key members
  | _ => none

def strings (ss : List String) : Json := .array (ss.map .string)

def ofOption {α : Type} (f : α → Json) : Option α → Json
  | some a => f a
  | none => .null

end Json

end Formwork
