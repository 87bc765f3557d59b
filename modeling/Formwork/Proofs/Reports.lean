import Mathlib.Data.List.Basic
import Mathlib.Data.List.Induction
import Formwork.Keyed

/-! Reports that are collected from one source after another. Under each key the report of the last source that
makes one stays. -/

namespace Formwork.Keyed

variable {α σ : Type} (key : σ → String) (report : σ → Option α)

def collect (m : Keyed α) (s : σ) : Keyed α :=
  match report s with
  | some detail => m.insert (key s) detail
  | none => m

def LastReport (sources : List σ) (k : String) (detail : α) : Prop :=
  ∃ before s after, sources = before ++ s :: after ∧ key s = k ∧ report s = some detail ∧
    ∀ w ∈ after, key w = k → report w = none

/-- All that the sources report, where the later report under a key takes the place of the earlier. -/
structure Collected (sources : List σ) (m : Keyed α) : Prop where
  ascending : m.Ascending
  latest : ∀ k detail, m.get? k = some detail ↔ LastReport key report sources k detail

variable {key report} {sources : List σ} {s : σ} {m : Keyed α} {k : String} {detail : α}

theorem not_lastReport_nil : ¬ LastReport key report [] k detail := by
  rintro ⟨before, s, after, h, -⟩
  exact List.append_ne_nil_of_right_ne_nil before (List.cons_ne_nil s after) h.symm

theorem lastReport_cons :
    LastReport key report (s :: sources) k detail ↔
      LastReport key report sources k detail ∨
        (key s = k ∧ report s = some detail) ∧ ∀ w ∈ sources, key w = k → report w = none := by
  constructor
  · rintro ⟨before, u, after, heq, hkey, hreport, hafter⟩
    cases before with
    | nil =>
      cases heq
      exact .inr ⟨⟨hkey, hreport⟩, hafter⟩
    | cons w before =>
      cases heq
      exact .inl ⟨before, u, after, rfl, hkey, hreport, hafter⟩
  · rintro (⟨before, u, after, rfl, h⟩ | ⟨⟨hkey, hreport⟩, hafter⟩)
    · exact ⟨s :: before, u, after, rfl, h⟩
    · exact ⟨[], s, sources, rfl, hkey, hreport, hafter⟩

theorem lastReport_append {more : List σ} :
    LastReport key report (sources ++ more) k detail ↔
      LastReport key report more k detail ∨
        LastReport key report sources k detail ∧ ∀ w ∈ more, key w = k → report w = none := by
  induction sources with
  | nil => simp [not_lastReport_nil]
  | cons s sources ih =>
    rw [List.cons_append, lastReport_cons, lastReport_cons, ih, List.forall_mem_append, or_and_right, or_assoc,
      and_assoc (c := ∀ w ∈ more, key w = k → report w = none)]

theorem lastReport_concat :
    LastReport key report (sources ++ [s]) k detail ↔
      (key s = k ∧ report s = some detail) ∨
        LastReport key report sources k detail ∧ (key s = k → report s = none) := by
  simp [lastReport_append, lastReport_cons, not_lastReport_nil]

theorem exists_lastReport_iff :
    (∃ detail, LastReport key report sources k detail) ↔ ∃ s ∈ sources, key s = k ∧ report s ≠ none := by
  induction sources with
  | nil => simp [not_lastReport_nil]
  | cons s sources ih =>
    have hreports : (∃ detail, report s = some detail) ↔ report s ≠ none := Option.ne_none_iff_exists'.symm
    simp only [lastReport_cons, exists_or, exists_and_right, exists_and_left, hreports, ih, List.mem_cons,
      or_and_right, exists_eq_left]
    by_cases hlater : ∃ w ∈ sources, key w = k ∧ report w ≠ none
    · simp only [hlater, true_or, or_true]
    · have hsilent : ∀ w ∈ sources, key w = k → report w = none := by simpa using hlater
      simp only [hlater, false_or, or_false]
      exact and_iff_left hsilent

theorem Collected.collect (h : Collected key report sources m) (s : σ) :
    Collected key report (sources ++ [s]) (m.collect key report s) := by
  cases hs : report s with
  | none =>
    have hsame : m.collect key report s = m := by rw [Keyed.collect, hs]
    rw [hsame]
    refine ⟨h.ascending, fun k detail => ?_⟩
    rw [h.latest, lastReport_concat]
    simp [hs]
  | some reported =>
    have hinsert : m.collect key report s = m.insert (key s) reported := by rw [Keyed.collect, hs]
    rw [hinsert]
    refine ⟨h.ascending.insert _ _, fun k detail => ?_⟩
    rw [lastReport_concat, ← h.latest]
    by_cases hk : key s = k
    · subst hk
      rw [get?_insert_self]
      simp [hs]
    · rw [get?_insert_of_ne (Ne.symm hk)]
      simp [hk]

theorem collected_foldl (sources : List σ) :
    Collected key report sources (sources.foldl (collect key report) []) := by
  induction sources using List.reverseRecOn with
  | nil => exact ⟨.nil, by simp [not_lastReport_nil]⟩
  | append_singleton sources s ih =>
    rw [List.foldl_concat]
    exact ih.collect s

theorem Collected.mem_keys_iff (h : Collected key report sources m) :
    k ∈ m.keys ↔ ∃ s ∈ sources, key s = k ∧ report s ≠ none := by
  have hget : k ∈ m.keys ↔ ∃ detail, m.get? k = some detail := by
    rw [← not_iff_not, ← get?_eq_none_iff, Option.eq_none_iff_forall_ne_some, not_exists]
  simp only [hget, h.latest, exists_lastReport_iff]

theorem Collected.eq_nil_iff (h : Collected key report sources m) :
    m = [] ↔ ∀ s ∈ sources, report s = none := by
  have hkeys : m = [] ↔ ∀ k, k ∉ m.keys := by
    rw [← List.eq_nil_iff_forall_not_mem]
    exact List.map_eq_nil_iff.symm
  simp only [hkeys, h.mem_keys_iff, not_exists, not_and, not_not]
  exact ⟨fun hnone s hs => hnone (key s) s hs rfl, fun hnone _ s hs _ => hnone s hs⟩

theorem lastReport_iff_of_nodup (h : (sources.map key).Nodup) :
    LastReport key report sources k detail ↔ ∃ s ∈ sources, key s = k ∧ report s = some detail := by
  constructor
  · rintro ⟨before, s, after, rfl, hkey, hreport, -⟩
    exact ⟨s, by simp, hkey, hreport⟩
  · rintro ⟨s, hs, hkey, hreport⟩
    obtain ⟨before, after, rfl⟩ := List.append_of_mem hs
    refine ⟨before, s, after, rfl, hkey, hreport, fun w hw hsame => ?_⟩
    have hfree : key s ∉ after.map key := by
      rw [List.map_append, List.map_cons] at h
      exact (List.nodup_cons.mp (List.nodup_append.mp h).2.1).1
    exact absurd (List.mem_map.mpr ⟨w, hw, hsame.trans hkey.symm⟩) hfree

theorem lastReport_of_perm {sources' : List σ} (h : (sources.map key).Nodup) (hperm : sources.Perm sources') :
    LastReport key report sources k detail ↔ LastReport key report sources' k detail := by
  rw [lastReport_iff_of_nodup h, lastReport_iff_of_nodup ((hperm.map key).nodup_iff.mp h)]
  simp only [hperm.mem_iff]

end Formwork.Keyed
