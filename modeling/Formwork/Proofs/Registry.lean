import Mathlib.Data.List.Basic
import Formwork.Messages

/-! Registries of messages, known from the entries that have been put into them one after another: a
key keeps the place of its first entry and the message of its last. -/

namespace Formwork

namespace Keyed

variable {α : Type} {m entries : Keyed α} {key : String}

def putAll (m entries : Keyed α) : Keyed α := entries.foldl (fun m e => m.put e.1 e.2) m

theorem putAll_append (m entries more : Keyed α) :
    m.putAll (entries ++ more) = (m.putAll entries).putAll more := List.foldl_append ..

theorem putAll_cons (m : Keyed α) (e : String × α) (entries : Keyed α) :
    m.putAll (e :: entries) = (m.put e.1 e.2).putAll entries := rfl

theorem keys_put_of_mem (h : key ∈ m.keys) (value : α) : (m.put key value).keys = m.keys := by
  induction m with
  | nil => simp [keys] at h
  | cons e m ih =>
    obtain ⟨k, v⟩ := e
    by_cases hk : k = key
    · simp [put, keys, hk]
    · have hrest : key ∈ keys m := by simpa [keys, Ne.symm hk] using h
      have hput := ih hrest
      simp only [keys] at hput
      simp [put, keys, hk, hput]

theorem put_of_notMem (h : key ∉ m.keys) (value : α) : m.put key value = m ++ [(key, value)] := by
  induction m with
  | nil => rfl
  | cons e m ih =>
    obtain ⟨k, v⟩ := e
    simp only [keys, List.map_cons, List.mem_cons, not_or] at h
    simp [put, Ne.symm h.1, ih h.2]

theorem mem_keys_put {other : String} {value : α} :
    other ∈ (m.put key value).keys ↔ other ∈ m.keys ∨ other = key := by
  by_cases h : key ∈ m.keys
  · rw [keys_put_of_mem h]
    constructor
    · exact .inl
    · rintro (hm | rfl)
      · exact hm
      · exact h
  · rw [put_of_notMem h]
    simp [keys]

theorem mem_keys_putAll {other : String} :
    other ∈ (m.putAll entries).keys ↔ other ∈ m.keys ∨ other ∈ entries.keys := by
  induction entries generalizing m with
  | nil => simp [putAll, keys]
  | cons e entries ih =>
    rw [putAll_cons, ih, mem_keys_put]
    simp [keys, or_assoc]

/-- Known keys keep their places, and new ones come after them. -/
theorem keys_prefix_putAll (m entries : Keyed α) : m.keys <+: (m.putAll entries).keys := by
  induction entries generalizing m with
  | nil => exact List.prefix_rfl
  | cons e entries ih =>
    have hput : m.keys <+: (m.put e.1 e.2).keys := by
      by_cases h : e.1 ∈ m.keys
      · exact (keys_put_of_mem h e.2).symm ▸ List.prefix_rfl
      · rw [put_of_notMem h, keys, keys, List.map_append]
        exact List.prefix_append ..
    exact hput.trans (ih _)

theorem get?_putAll_of_notMem (h : key ∉ entries.keys) :
    (m.putAll entries).get? key = m.get? key := by
  induction entries generalizing m with
  | nil => rfl
  | cons e entries ih =>
    simp only [keys, List.map_cons, List.mem_cons, not_or] at h
    rw [putAll_cons, ih h.2, get?_put_of_ne h.1]

theorem get?_putAll_of_last {before after : Keyed α} (h : key ∉ after.keys) (value : α) :
    (m.putAll (before ++ (key, value) :: after)).get? key = some value := by
  rw [putAll_append, putAll_cons, get?_putAll_of_notMem h, get?_put_self]

end Keyed

namespace Messages

open Keyed

/-- Of the failures that were registered, the one whose key came up first is to be told, with the last
message that was registered for it. -/
structure Foremost (log : Keyed Message) (failures : Failures) (key : String) (message : Message)
    (detail : Json) : Prop where
  present : failures.get? key = some detail
  earliest : ∃ before first after, log = before ++ (key, first) :: after ∧
    ∀ e ∈ before, failures.get? e.1 = none
  latest : ∃ before after, log = before ++ (key, message) :: after ∧ key ∉ keys after

variable {log m : Messages} {failures : Failures} {key : String} {message : Message} {detail : Json}

theorem resolve_of_split {before after : Messages} (hm : m = before ++ (key, message) :: after)
    (hbefore : ∀ k ∈ keys before, failures.get? k = none) (hkey : failures.get? key = some detail) :
    m.resolve (some failures) = message.text detail := by
  have hresolve : m.resolve (some failures) =
      (m.findSome? fun e => (failures.get? e.1).map e.2.text).getD "" := rfl
  have hnone : before.findSome? (fun e => (failures.get? e.1).map e.2.text) = none := by
    rw [List.findSome?_eq_none_iff]
    intro e he
    simp [hbefore e.1 (List.mem_map_of_mem he)]
  rw [hresolve, hm]
  simp [List.findSome?_append, hnone, hkey]

theorem resolve_putAll (h : Foremost log failures key message detail) :
    resolve (putAll [] log) (some failures) = message.text detail := by
  obtain ⟨before, first, after, hlog, hbefore⟩ := h.earliest
  have hsilent : ∀ k ∈ (putAll [] before).keys, failures.get? k = none := by
    intro k hk
    obtain hnil | hk := mem_keys_putAll.mp hk
    · simp [keys] at hnil
    · obtain ⟨e, he, rfl⟩ := List.mem_map.mp hk
      exact hbefore e he
  have hnew : key ∉ (putAll [] before).keys := by
    intro hmem
    have hnone := hsilent key hmem
    simp [h.present] at hnone
  obtain ⟨more, hmore⟩ : (putAll [] before).keys ++ [key] <+: (putAll [] log).keys := by
    have hprefix := keys_prefix_putAll ((putAll [] before).put key first) after
    rw [hlog, putAll_append, putAll_cons]
    rw [put_of_notMem hnew] at hprefix ⊢
    simpa [keys] using hprefix
  rw [List.append_assoc, List.singleton_append] at hmore
  obtain ⟨pre, rest, hsplit, hpre, hrest⟩ := List.map_eq_append_iff.mp hmore.symm
  obtain ⟨e, post, rfl, he, -⟩ := List.map_eq_cons_iff.mp hrest
  obtain ⟨k, kept⟩ := e
  obtain rfl : k = key := he
  have hlast : (putAll [] log).get? k = some message := by
    obtain ⟨_, _, hlog', hafter⟩ := h.latest
    rw [hlog']
    exact get?_putAll_of_last hafter message
  have hpre' : keys pre = (putAll [] before).keys := hpre
  have hkept : kept = message := by
    have hnone : get? k pre = none := get?_eq_none_iff.mpr (hpre' ▸ hnew)
    rw [hsplit, get?_append, hnone, Option.none_or, get?_cons, if_pos rfl] at hlast
    exact Option.some.inj hlast
  rw [hkept] at hsplit
  exact resolve_of_split hsplit (hpre' ▸ hsilent) h.present

theorem exists_foremost (h : ∃ k ∈ keys failures, k ∈ keys log) :
    ∃ key message detail, Foremost log failures key message detail := by
  have hfailing (k : String) : (failures.get? k).isSome = true ↔ k ∈ keys failures := by
    rw [← not_iff_not, ← get?_eq_none_iff]
    simp
  obtain ⟨k, hk, hlog⟩ := h
  obtain ⟨e, he, rfl⟩ := List.mem_map.mp hlog
  cases hfirst : log.find? fun e => (failures.get? e.1).isSome with
  | none =>
    have hnone := List.find?_eq_none.mp hfirst e he
    exact absurd ((hfailing e.1).mpr hk) hnone
  | some d =>
    obtain ⟨hd, before, after, hsplit, hbefore⟩ := List.find?_eq_some_iff_append.mp hfirst
    obtain ⟨key, first⟩ := d
    obtain ⟨detail, hdetail⟩ := Option.isSome_iff_exists.mp hd
    have hmem : (key, first) ∈ log.reverse := by simp [hsplit]
    cases hlast : log.reverse.find? fun e => e.1 = key with
    | none => simpa using List.find?_eq_none.mp hlast _ hmem
    | some l =>
      obtain ⟨hl, later, earlier, hrev, hlater⟩ := List.find?_eq_some_iff_append.mp hlast
      obtain ⟨k', message⟩ := l
      obtain rfl : k' = key := by simpa using hl
      refine ⟨k', message, detail, hdetail, ⟨before, first, after, hsplit, ?_⟩,
        earlier.reverse, later.reverse, ?_, ?_⟩
      · intro e he
        simpa using hbefore e he
      · rw [← List.reverse_reverse log, hrev]
        simp
      · intro hmem
        obtain ⟨e, he, hkey⟩ := List.mem_map.mp hmem
        have hother := hlater e (List.mem_reverse.mp he)
        simp [hkey] at hother

end Messages

end Formwork
