import Formwork.Expression
import Formwork.Json.Printer

/-! The nested arrays in which expressions are written: a connective with an array of operands, and a
comparator between two operands. -/

namespace Formwork

theorem exists_ok_of_bind {E A B : Type} {x : Except E A} {f : A → Except E B} {b : B}
    (h : x >>= f = .ok b) : ∃ a, x = .ok a ∧ f a = .ok b := by
  cases x with
  | error e => cases h
  | ok a => exact ⟨a, rfl, h⟩

def Connective.token : Connective → String
  | all => "and"
  | any => "or"

def Connective.ofToken? : String → Option Connective
  | "and" => some all
  | "or" => some any
  | _ => none

theorem Connective.ofToken?_token (c : Connective) : ofToken? c.token = some c := by
  cases c <;> rfl

theorem Connective.token_of_ofToken? {s : String} {c : Connective} (h : ofToken? s = some c) :
    c.token = s := by
  unfold ofToken? at h
  split at h <;> cases h <;> rfl

inductive ExpressionError.Cause where
  | notLogical
  | operandsNotArray
  | operandArity (found : Nat)
  | unknownOperator (token : Json)
  | unknownComparator (token : Json)
deriving DecidableEq

/-- What is wrong, and the operand indices that lead from the root to the place. -/
structure ExpressionError where
  location : List Nat
  cause : ExpressionError.Cause
deriving DecidableEq

namespace ExpressionError

def label : Json → String
  | .string s => s
  | v => v.render

def place (location : List Nat) : String :=
  location.foldl (fun text i => text ++ "." ++ Text.natText i) "root"

def message (e : ExpressionError) : String :=
  let spot := place e.location
  match e.cause with
  | .notLogical => "logical expression at " ++ spot ++ " must be [operator, operands]"
  | .operandsNotArray => "operands at " ++ spot ++ " must be an array"
  | .operandArity found =>
    "operand at " ++ spot ++ " must have 2 or 3 elements, found " ++ Text.natText found
  | .unknownOperator token => "unknown logical operator `" ++ label token ++ "` at " ++ spot
  | .unknownComparator token => "unknown comparator `" ++ label token ++ "` at " ++ spot

end ExpressionError

namespace Clause

mutual
def toJson : Clause → Json
  | comparison left c right => .array [left, .string c.token, right]
  | group connective clauses => .array [.string connective.token, .array (toJsons clauses)]
def toJsons : List Clause → List Json
  | [] => []
  | c :: cs => toJson c :: toJsons cs
end

def readConnective (location : List Nat) (token : Json) : Except ExpressionError Connective :=
  match token.asString?.bind Connective.ofToken? with
  | some connective => .ok connective
  | none => .error ⟨location, .unknownOperator token⟩

def readComparator (location : List Nat) (token : Json) : Except ExpressionError Comparator :=
  match token.asString?.bind Comparator.ofToken? with
  | some comparator => .ok comparator
  | none => .error ⟨location, .unknownComparator token⟩

mutual
/-- Reads an operand of a group: two elements write a group, three a comparison. -/
def read (location : List Nat) : Json → Except ExpressionError Clause
  | .array [token, operands] => do
    let connective ← readConnective location token
    let clauses ← readOperands location operands
    .ok (.group connective clauses)
  | .array [left, token, right] => do
    let comparator ← readComparator location token
    .ok (.comparison left comparator right)
  | .array items => .error ⟨location, .operandArity items.length⟩
  | _ => .error ⟨location, .operandArity 0⟩
def readOperands (location : List Nat) : Json → Except ExpressionError (List Clause)
  | .array items => readAll location 0 items
  | _ => .error ⟨location, .operandsNotArray⟩
def readAll (location : List Nat) (index : Nat) : List Json → Except ExpressionError (List Clause)
  | [] => .ok []
  | x :: xs => do
    let c ← read (location ++ [index]) x
    let cs ← readAll location (index + 1) xs
    .ok (c :: cs)
end

end Clause

namespace Expression

def toJson (e : Expression) : Json := e.toClause.toJson

def ofJson : Json → Except ExpressionError Expression
  | .array [token, operands] => do
    let connective ← Clause.readConnective [] token
    let clauses ← Clause.readOperands [] operands
    .ok ⟨connective, clauses⟩
  | _ => .error ⟨[], .notLogical⟩

def same (a b : Expression) : Bool := a.toJson.same b.toJson

end Expression

end Formwork
