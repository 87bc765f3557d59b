import Formwork.Comparator

/-! Expressions: and/or trees over comparisons of two operands. -/

namespace Formwork

inductive Connective where
  | all
  | any
deriving DecidableEq, Repr

/-- A part of an expression. The operands of a comparison are literals, paths into a document, or the
placeholder. -/
inductive Clause where
  | comparison (left : Json) (comparator : Comparator) (right : Json)
  | group (connective : Connective) (clauses : List Clause)

structure Expression where
  connective : Connective
  clauses : List Clause

def Expression.toClause (e : Expression) : Clause := .group e.connective e.clauses

def placeholder : String := "value"

namespace Json

mutual
/-- The document with `value` in place of every placeholder in it. Keys are no placeholders. -/
def fill (value : Json) : Json → Json
  | .string s => if s = placeholder then value else .string s
  | .array items => .array (fillItems value items)
  | .object members => .object (fillMembers value members)
  | v => v
def fillItems (value : Json) : List Json → List Json
  | [] => []
  | x :: xs => fill value x :: fillItems value xs
def fillMembers (value : Json) : List (String × Json) → List (String × Json)
  | [] => []
  | (k, x) :: ms => (k, fill value x) :: fillMembers value ms
end

mutual
def mentions : Json → Bool
  | .string s => s = placeholder
  | .array items => itemsMention items
  | .object members => membersMention members
  | _ => false
def itemsMention : List Json → Bool
  | [] => false
  | x :: xs => mentions x || itemsMention xs
def membersMention : List (String × Json) → Bool
  | [] => false
  | (_, x) :: ms => mentions x || membersMention ms
end

theorem fillItems_eq_map (value : Json) (items : List Json) :
    fillItems value items = items.map (fill value) := by
  induction items with
  | nil => rfl
  | cons x xs ih => rw [fillItems, ih, List.map_cons]

theorem itemsMention_eq_any (items : List Json) : itemsMention items = items.any mentions := by
  induction items with
  | nil => rfl
  | cons x xs ih => rw [itemsMention, ih, List.any_cons]

end Json

namespace Clause

mutual
def fill (value : Json) : Clause → Clause
  | comparison left c right => comparison (Json.fill value left) c (Json.fill value right)
  | group connective clauses => group connective (fillAll value clauses)
def fillAll (value : Json) : List Clause → List Clause
  | [] => []
  | c :: cs => fill value c :: fillAll value cs
end

mutual
def mentions : Clause → Bool
  | comparison left _ right => left.mentions || right.mentions
  | group _ clauses => anyMentions clauses
def anyMentions : List Clause → Bool
  | [] => false
  | c :: cs => mentions c || anyMentions cs
end

end Clause

namespace Expression

def fill (value : Json) (e : Expression) : Expression :=
  ⟨e.connective, Clause.fillAll value e.clauses⟩

def mentions (e : Expression) : Bool := Clause.anyMentions e.clauses

end Expression

end Formwork
