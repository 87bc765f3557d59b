import Formwork.Comparator

/-! The comparators that order and the one that equates agree: equal documents stand alike to every other, so
no two of the three comparators hold together. -/

namespace Formwork.Comparator

open Json

/-- A document as equality takes it: a whole number is its nearest double, but not inside an array or an
object. -/
def widened : Json → Json
  | .int i => .double (Binary64.ofInt i)
  | v => v

theorem isEqual_iff {a b : Json} : isEqual a b = true ↔ canonical (widened a) = canonical (widened b) := by
  cases a <;> cases b <;>
    simp [isEqual, number?, widened, canonical, same_iff, Binary64.same_iff, Binary64.unsignZero_eq_iff]

theorem isEqual_equivalence : Equivalence fun a b => isEqual a b = true where
  refl _ := isEqual_iff.mpr rfl
  symm h := isEqual_iff.mpr (isEqual_iff.mp h).symm
  trans h h' := isEqual_iff.mpr ((isEqual_iff.mp h).trans (isEqual_iff.mp h'))

def standing? (v : Json) : Option Int := v.looseNumber?.map (·.place)

theorem order?_eq (a b : Json) : order? a b =
    (a.asString?.bind fun s => b.asString?.map (compare s)).or
      ((standing? a).bind fun x => (standing? b).map (compare x)) := by
  unfold order? standing?
  split
  next => rfl
  next htexts =>
    have hnone : (a.asString?.bind fun s => b.asString?.map (compare s)) = none := by
      cases a <;> cases b <;> simp_all [asString?]
    rw [hnone, Option.none_or]
    cases a.looseNumber? <;> cases b.looseNumber? <;> rfl

theorem readings_of_isEqual {a b : Json} (h : isEqual a b = true) :
    a.asString? = b.asString? ∧ standing? a = standing? b := by
  rw [isEqual_iff] at h
  cases a <;> cases b <;> simp_all [widened, canonical, asString?, standing?, looseNumber?, Binary64.unsignZero_eq_iff]

theorem order?_congr {a b : Json} (h : isEqual a b = true) (c : Json) : order? a c = order? b c := by
  obtain ⟨htext, hstanding⟩ := readings_of_isEqual h
  rw [order?_eq, order?_eq, htext, hstanding]

theorem order?_swap (a b : Json) : order? b a = (order? a b).map Ordering.swap := by
  have hnumbers : ((standing? b).bind fun y => (standing? a).map (compare y)) =
      ((standing? a).bind fun x => (standing? b).map (compare x)).map Ordering.swap := by
    cases standing? a with
    | none => cases standing? b <;> rfl
    | some x =>
      cases standing? b with
      | none => rfl
      | some y => exact congrArg some Std.OrientedOrd.eq_swap
  rw [order?_eq, order?_eq]
  cases a.asString? with
  | none => cases b.asString? <;> exact hnumbers
  | some s =>
    cases b.asString? with
    | none => exact hnumbers
    | some t => exact congrArg some Std.OrientedOrd.eq_swap

theorem order?_self (a : Json) : order? a a = none ∨ order? a a = some .eq := by
  have hswap := order?_swap a a
  cases h : order? a a with
  | none => exact .inl rfl
  | some o =>
    rw [h] at hswap
    cases o with
    | eq => exact .inr rfl
    | lt => cases hswap
    | gt => cases hswap

theorem order?_of_isEqual {a b : Json} (h : isEqual a b = true) : order? a b = none ∨ order? a b = some .eq := by
  rw [order?_congr h b]
  exact order?_self b

/-- To be greater is to be exceeded the other way round, of greater, less and equal at most one holds, and to be
equal is an equivalence of all documents. -/
theorem holds_coherent [Dialect] :
    (∀ a b, greaterThan.holds a b = lessThan.holds b a) ∧
    (∀ a b, [greaterThan, lessThan, equal].countP (·.holds a b) ≤ 1) ∧
    Equivalence fun a b => equal.holds a b = true := by
  refine ⟨fun a b => ?_, fun a b => ?_, isEqual_equivalence⟩
  · rw [holds, holds, order?_swap a b]
    cases order? a b with
    | none => rfl
    | some o => cases o <;> rfl
  · simp only [List.countP_cons, List.countP_nil, holds]
    cases heq : isEqual a b with
    | false =>
      cases order? a b with
      | none => simp
      | some o => cases o <;> simp
    | true => rcases order?_of_isEqual heq with h | h <;> simp [h]

end Formwork.Comparator
