import Formwork.Dialect.Common
import Formwork.Proofs.Replacement
import Formwork.Proofs.Reports
import Formwork.Validation.Validator

/-! What comes of all local validators of a control: which keys fail, whose detail is under each of them, and
when the order of the validators matters. A rule with an expression may have the key of a check. -/

namespace Formwork.LocalValidator

open Keyed (LastReport Collected)

def LastFailure [Dialect] (value : Json) (validators : List LocalValidator) (k : String) (detail : Json) : Prop :=
  ∃ before v after, validators = before ++ v :: after ∧ v.failures? value = some [(k, detail)] ∧
    ∀ w ∈ after, w.key = k → w.failures? value = none

section

variable [Dialect] {value detail : Json} {v : LocalValidator} {k : String}
  {validators others earlier part reordered later : List LocalValidator}

theorem failures?_eq_none_iff : v.failures? value = none ↔ v.failure? value = none :=
  Option.map_eq_none_iff

theorem failures?_eq_some_iff :
    v.failures? value = some [(k, detail)] ↔ v.key = k ∧ v.failure? value = some detail := by
  cases h : v.failure? value <;> simp [failures?, h]

theorem lastFailure_iff :
    LastFailure value validators k detail ↔ LastReport key (failure? · value) validators k detail := by
  simp only [LastFailure, LastReport, failures?_eq_some_iff, failures?_eq_none_iff, and_assoc]

theorem addFailure_eq (value : Json) : addFailure value = Keyed.collect key (failure? · value) := by
  funext failures v
  cases h : v.failure? value <;> simp only [addFailure, Keyed.collect, h]

theorem runAll_getD (validators : List LocalValidator) (value : Json) :
    (runAll validators value).getD [] = validators.foldl (addFailure value) [] := by
  cases h : validators.foldl (addFailure value) [] <;> simp [runAll, h]

theorem collected_runAll (validators : List LocalValidator) (value : Json) :
    Collected key (failure? · value) validators ((runAll validators value).getD []) := by
  rw [runAll_getD, addFailure_eq]
  exact Keyed.collected_foldl validators

theorem passes_all_iff : runAll validators value = none ↔ ∀ v ∈ validators, v.failures? value = none := by
  simp only [runAll_eq_none_iff, failures?_eq_none_iff]

theorem mem_keys_runAll :
    k ∈ Keyed.keys ((runAll validators value).getD []) ↔
      ∃ v ∈ validators, v.key = k ∧ v.failures? value ≠ none := by
  simp only [(collected_runAll validators value).mem_keys_iff, ne_eq, failures?_eq_none_iff]

theorem get?_runAll :
    Keyed.get? k ((runAll validators value).getD []) = some detail ↔ LastFailure value validators k detail := by
  rw [(collected_runAll validators value).latest, lastFailure_iff]

theorem keys_runAll_append (validators more : List LocalValidator) (value : Json) :
    Keyed.keys ((runAll validators value).getD []) ⊆ Keyed.keys ((runAll (validators ++ more) value).getD []) := by
  intro k hk
  obtain ⟨v, hv, hfails⟩ := mem_keys_runAll.mp hk
  exact mem_keys_runAll.mpr ⟨v, List.mem_append_left more hv, hfails⟩

theorem runAll_eq_iff :
    runAll others value = runAll validators value ↔
      ∀ k detail, LastFailure value others k detail ↔ LastFailure value validators k detail := by
  constructor
  · intro heq k detail
    rw [← get?_runAll, heq, get?_runAll]
  · intro hlast
    have hfailures : (runAll others value).getD [] = (runAll validators value).getD [] := by
      refine (collected_runAll others value).ascending.eq_of_get? (collected_runAll validators value).ascending
        fun k => Option.ext fun detail => ?_
      rw [get?_runAll, hlast, get?_runAll]
    rw [runAll_getD, runAll_getD] at hfailures
    rw [runAll, runAll, hfailures]

theorem lastFailure_reordered (h : (part.map key).Nodup) (hperm : part.Perm reordered) :
    LastFailure value (earlier ++ reordered ++ later) k detail ↔
      LastFailure value (earlier ++ part ++ later) k detail := by
  simp only [lastFailure_iff, Keyed.lastReport_append, Keyed.lastReport_of_perm h hperm, hperm.mem_iff]

end

/-- Every validator is run. The keys of the outcome are those of the validators that fail, and under each is the
detail of the last of them, so that the order matters only between failures under one key: validators that stand
together and have different keys may change places. One more validator takes no key away. -/
theorem runAll_last_failures [Dialect] (validators : List LocalValidator) (value : Json) :
    (runAll validators value = none ↔ ∀ v ∈ validators, v.failures? value = none) ∧
    (∀ failures, runAll validators value = some failures → failures.Ascending ∧
      (∀ k, k ∈ failures.keys ↔ ∃ v ∈ validators, v.key = k ∧ v.failures? value ≠ none) ∧
      ∀ k detail, failures.get? k = some detail ↔ LastFailure value validators k detail) ∧
    (∀ others, runAll others value = runAll validators value ↔
      ∀ k detail, LastFailure value others k detail ↔ LastFailure value validators k detail) ∧
    (∀ earlier part reordered later, validators = earlier ++ part ++ later → (part.map key).Nodup →
      part.Perm reordered → runAll (earlier ++ reordered ++ later) value = runAll validators value) ∧
    ∀ v failures, runAll validators value = some failures →
      ∃ more, runAll (validators ++ [v]) value = some more ∧ failures.keys ⊆ more.keys := by
  refine ⟨passes_all_iff, fun failures h => ?_, fun others => runAll_eq_iff, ?_, ?_⟩
  · have hget : (runAll validators value).getD [] = failures := by rw [h, Option.getD_some]
    rw [← hget]
    exact ⟨(collected_runAll validators value).ascending, fun _ => mem_keys_runAll, fun _ _ => get?_runAll⟩
  · rintro earlier part reordered later rfl hnodup hperm
    exact runAll_eq_iff.mpr fun k detail => lastFailure_reordered hnodup hperm
  · intro v failures h
    have hkeys := keys_runAll_append validators [v] value
    rw [h, Option.getD_some] at hkeys
    cases hmore : runAll (validators ++ [v]) value with
    | none =>
      have hpass := passes_all_iff.mpr (List.forall_mem_append.mp (passes_all_iff.mp hmore)).1
      cases h.symm.trans hpass
    | some more =>
      rw [hmore, Option.getD_some] at hkeys
      exact ⟨more, rfl, hkeys⟩

theorem runAll_shared_key :
    let value := Json.string "12"
    let short := check (.minLength 5)
    let own := custom "minLength" ⟨.all, [.comparison (.string placeholder) .equal (.string "12345")]⟩
    let long := check (.maxLength 1)
    let lengths (least : Json) (most : Json) := [("maxLength", most), ("minLength", least)]
    let tooLong := Json.object [("requiredLength", .int 1), ("actualLength", .int 2)]
    let tooShort := Json.object [("requiredLength", .int 5), ("actualLength", .int 2)]
    let refused := Json.object [("value", value)]
    runAll [short, own, long] value = some (lengths refused tooLong) ∧
      ([own, long].map key).Nodup ∧ [own, long].Perm [long, own] ∧
      runAll [short, long, own] value = some (lengths refused tooLong) ∧
      runAll [own, short, long] value = some (lengths tooShort tooLong) ∧
      (∃ more, runAll [short, own, long, check .email] value = some more ∧
        ["maxLength", "minLength"] ⊆ more.keys) := by
  intro value short own long lengths tooLong tooShort refused
  have hrun : runAll [short, own, long] value = some (lengths refused tooLong) := by decide
  have hnodup : ([own, long].map key).Nodup := by decide
  have hperm : [own, long].Perm [long, own] := .swap ..
  obtain ⟨-, -, -, hreorder, happend⟩ := runAll_last_failures [short, own, long] value
  have hsame := hreorder [short] [own, long] [long, own] [] rfl hnodup hperm
  exact ⟨hrun, hnodup, hperm, hsame.trans hrun, by decide, happend (check .email) _ hrun⟩

end Formwork.LocalValidator
