import Formwork.Dialect.Common
import Formwork.Proofs.Placeholder

/-! The rules with an expression that are checked locally. The value stands in place of the placeholder and is
the document that the other operands are looked up in. -/

namespace Formwork

theorem lookup_self [Dialect] (v : Json) : lookup v v = v := by
  cases v with
  | string s => simp [lookup, Json.isContainer]
  | _ => rfl

theorem lookup_of_not_isContainer [Dialect] {context : Json} (h : context.isContainer = false) (operand : Json) :
    lookup operand context = operand := by
  cases operand with
  | string s => simp [lookup, h]
  | _ => rfl

theorem Expression.holdsWith_self [Dialect] (v : Json) (e : Expression) : e.holdsWith v v = e.holdsBy (asData v v) := by
  have hmeaning : (fun o => lookup (Json.fill v o) v) = asData v v := by
    funext operand
    rw [lookup_fill, lookup_self, asData]
  rw [holdsWith_eq, hmeaning]

theorem asData_of_not_isContainer [Dialect] {v : Json} (h : v.isContainer = false) : asData v v = Json.fill v := by
  funext operand
  rw [← lookup_of_not_isContainer h (Json.fill v operand), lookup_fill, lookup_self, asData]

namespace LocalValidator

theorem isPresent_iff {v : Json} : isPresent v = true ↔ v ≠ .null ∧ v ≠ .string "" := by
  cases v <;> simp [isPresent]

/-- A rule with an expression passes the values that are present and that its tree holds of, where the placeholder
stands for the value itself and the other texts are looked up in the value. No text is looked up in a value
that is no array and no object. Every failure reports the value under the name of the rule. -/
theorem custom_failures [Dialect] (name : String) (e : Expression) (v : Json) :
    ((custom name e).failures? v = none ↔
      v ≠ .null ∧ v ≠ .string "" ∧ e.holdsBy (asData v v) = true) ∧
    (v.isContainer = false → asData v v = Json.fill v) ∧
    ((custom name e).failures? v ≠ none →
      (custom name e).failures? v = some [(name, .object [("value", v)])]) := by
  have hfailures : (custom name e).failures? v =
      if isPresent v && e.holdsBy (asData v v) then none else some [(name, .object [("value", v)])] := by
    rw [failures?, failure?, e.holdsWith_self]
    split <;> rfl
  rw [hfailures]
  refine ⟨?_, asData_of_not_isContainer, ?_⟩
  · rw [← and_assoc, ← isPresent_iff, ← Bool.and_eq_true]
    split <;> simp [*]
  · split
    · exact fun h => absurd rfl h
    · exact fun _ => rfl

example :
    let v := Json.object [("again", .string "pin"), ("first", .string "pin")]
    let rule (right : Json) := custom "same" ⟨.all, [.comparison (.string "again") .equal right]⟩
    (rule (.string "first")).failures? v = none ∧
      (rule (.string "other")).failures? v = some [("same", .object [("value", v)])] := by
  decide

end LocalValidator

end Formwork
