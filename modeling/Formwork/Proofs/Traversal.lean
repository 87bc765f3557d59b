import Mathlib.Data.List.Forall2
import Formwork.Json.Record

/-! Lists that are run through with a step that may fail: what comes out stands in step with what went in. -/

namespace Formwork

section

variable {α β ε : Type} {xs : List α} {ys : List β}

theorem mapM_eq_some_iff {f : α → Option β} :
    xs.mapM f = some ys ↔ List.Forall₂ (fun x y => f x = some y) xs ys := by
  induction xs generalizing ys with
  | nil => simp [eq_comm]
  | cons x xs ih =>
    rw [List.mapM_cons, List.forall₂_cons_left_iff]
    cases hx : f x with
    | none => simp
    | some y => cases hxs : xs.mapM f <;> simp [← ih, hxs, eq_comm]

theorem mapM_eq_ok_iff {f : α → Except ε β} :
    xs.mapM f = .ok ys ↔ List.Forall₂ (fun x y => f x = .ok y) xs ys := by
  induction xs generalizing ys with
  | nil => simp [pure, Except.pure, eq_comm]
  | cons x xs ih =>
    rw [List.mapM_cons, List.forall₂_cons_left_iff]
    cases hx : f x with
    | error e => simp [bind, Except.bind]
    | ok y => cases hxs : xs.mapM f <;> simp [bind, Except.bind, pure, Except.pure, ← ih, hxs, eq_comm]

theorem exists_of_mem_mapM {f : α → Option β} (h : xs.mapM f = some ys) {y : β} (hy : y ∈ ys) :
    ∃ x ∈ xs, f x = some y := by
  have hsteps := mapM_eq_some_iff.mp h
  clear h
  induction hsteps with
  | nil => cases hy
  | @cons x z xs ys hx _ ih =>
    obtain rfl | hy := List.mem_cons.mp hy
    · exact ⟨x, List.mem_cons_self, hx⟩
    · obtain ⟨w, hw, hy⟩ := ih hy
      exact ⟨w, List.mem_cons_of_mem x hw, hy⟩

end

namespace Json

variable {α : Type} {read : Json → Option α} {write : α → Json} {xs : List α}

theorem items?_map (h : ∀ x ∈ xs, read (write x) = some x) : items? read (.array (xs.map write)) = some xs := by
  apply mapM_eq_some_iff.mpr
  exact List.forall₂_map_left_iff.mpr (List.forall₂_same.mpr h)

theorem forall_of_items? {p : α → Prop} (hread : ∀ v x, read v = some x → p x) {v : Json}
    (h : items? read v = some xs) : ∀ x ∈ xs, p x := by
  intro x hx
  cases v with
  | array items =>
    obtain ⟨w, -, hw⟩ := exists_of_mem_mapM h hx
    exact hread w x hw
  | _ => cases h

end Json

end Formwork
