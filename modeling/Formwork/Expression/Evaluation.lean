import Formwork.Expression

/-! The truth of an expression against a document. It is defined for every expression and document. -/

namespace Formwork

def rooted (path : String) : String :=
  match path.toList with
  | '$' :: _ => path
  | '[' :: _ => "$" ++ path
  | _ => "$." ++ path

variable [Dialect]

/-- The document that an operand denotes: a text is a path into an array or object where it leads to
something other than `null`, and every operand else denotes itself. -/
def lookup (operand context : Json) : Json :=
  match operand with
  | .string path =>
    if path = "" ∨ !context.isContainer then operand
    else
      match Query.first? (rooted path) context with
      | some .null => operand
      | some found => found
      | none => operand
  | _ => operand

namespace Clause

mutual
def holds (context : Json) : Clause → Bool
  | comparison left c right => c.holds (lookup left context) (lookup right context)
  | group .all clauses => allHold context clauses
  | group .any clauses => anyHolds context clauses
def allHold (context : Json) : List Clause → Bool
  | [] => true
  | c :: cs => holds context c && allHold context cs
def anyHolds (context : Json) : List Clause → Bool
  | [] => false
  | c :: cs => holds context c || anyHolds context cs
end

end Clause

namespace Expression

def holds (context : Json) (e : Expression) : Bool := e.toClause.holds context

def holdsWith (value context : Json) (e : Expression) : Bool := (e.fill value).holds context

end Expression

end Formwork
