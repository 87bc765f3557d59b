import Formwork.Proofs.Registry

/-! Registrations one after another: a key stays where it was first registered and has what was registered for it
last, and failures are told by the earliest key among them. -/

namespace Formwork

namespace Registry

open Keyed

variable {P : Type} {r : Registry P} {log : Keyed P} {key : String} {producer : P} {failures : Failures}
  {detail : Json}

def foremost? (r : Registry P) (failures : Failures) : Option String :=
  r.keys.find? fun key => failures.contains key

/-- A registry after all these registrations. -/
structure Records (log : Keyed P) (r : Registry P) : Prop where
  ordered : r.keys.Pairwise fun j k => (keys log).idxOf j < (keys log).idxOf k
  known : ∀ k, k ∈ r.keys ↔ k ∈ keys log
  latest : ∀ k, r.get? k = get? k log.reverse

theorem Records.nodup (h : Records log r) : r.keys.Nodup := by
  refine h.ordered.imp fun hlt heq => ?_
  rw [heq] at hlt
  omega

theorem Records.of_nodup (h : r.keys.Nodup) : Records r r := by
  refine ⟨?_, fun k => Iff.rfl, fun k => get?_of_perm (List.reverse_perm r).symm h k⟩
  rw [List.pairwise_iff_getElem]
  intro i j hi hj hij
  have hfirst : r.keys.idxOf r.keys[i] = i := h.idxOf_getElem i hi
  have hsecond : r.keys.idxOf r.keys[j] = j := h.idxOf_getElem j hj
  omega

theorem keys_register_of_mem (h : key ∈ r.keys) (producer : P) : (r.register key producer).keys = r.keys :=
  keys_put_of_mem h producer

theorem keys_register_of_notMem (h : key ∉ r.keys) (producer : P) :
    (r.register key producer).keys = r.keys ++ [key] := by
  have hput : r.register key producer = r ++ [(key, producer)] := put_of_notMem h producer
  rw [hput]
  exact List.map_append

theorem get?_register (k key : String) (producer : P) (r : Registry P) :
    (r.register key producer).get? k = if key = k then some producer else r.get? k := by
  by_cases hk : key = k
  · rw [if_pos hk, ← hk]
    exact get?_put_self key producer r
  · rw [if_neg hk]
    exact get?_put_of_ne (Ne.symm hk) producer r

theorem Records.ordered_register (h : Records log r) (key : String) (producer : P) :
    (r.register key producer).keys.Pairwise fun j k =>
      (keys log ++ [key]).idxOf j < (keys log ++ [key]).idxOf k := by
  have hplace (k : String) (hk : k ∈ r.keys) : (keys log ++ [key]).idxOf k = (keys log).idxOf k :=
    List.idxOf_append_of_mem ((h.known k).mp hk)
  have hordered : r.keys.Pairwise fun j k => (keys log ++ [key]).idxOf j < (keys log ++ [key]).idxOf k := by
    refine h.ordered.imp_of_mem fun hj hk hlt => ?_
    rwa [hplace _ hj, hplace _ hk]
  by_cases hkey : key ∈ r.keys
  · rwa [keys_register_of_mem hkey]
  · have hend : (keys log ++ [key]).idxOf key = (keys log).length := by
      have hnew : key ∉ keys log := fun hmem => hkey ((h.known key).mpr hmem)
      simp [List.idxOf_append_of_notMem hnew]
    rw [keys_register_of_notMem hkey]
    refine List.pairwise_append.mpr ⟨hordered, by simp, fun j hj k hk => ?_⟩
    rw [List.mem_singleton.mp hk, hplace j hj, hend]
    exact List.idxOf_lt_length_of_mem ((h.known j).mp hj)

theorem Records.register (h : Records log r) (key : String) (producer : P) :
    Records (log ++ [(key, producer)]) (r.register key producer) := by
  have hlog : keys (log ++ [(key, producer)]) = keys log ++ [key] := List.map_append
  refine ⟨?_, fun k => ?_, fun k => ?_⟩
  · rw [hlog]
    exact h.ordered_register key producer
  · have hmem : k ∈ (r.register key producer).keys ↔ k ∈ r.keys ∨ k = key := mem_keys_put
    rw [hmem, hlog, h.known k]
    simp
  · rw [List.reverse_concat, get?_cons, get?_register, h.latest k]

theorem Records.registerAll (h : Records log r) (calls : List (String × P)) :
    Records (log ++ calls) (r.registerAll calls) := by
  induction calls generalizing log r with
  | nil =>
    rw [List.append_nil]
    exact h
  | cons c calls ih =>
    have hrest := ih (h.register c.1 c.2)
    rwa [List.append_assoc] at hrest

variable {text : P → Json → String}

theorem contains_iff {k : String} : r.contains k = true ↔ k ∈ r.keys := by
  rw [← not_iff_not, ← get?_eq_none_iff]
  simp [Keyed.contains]

theorem foremost?_cons (k : String) (p : P) (r : Registry P) (failures : Failures) :
    foremost? ((k, p) :: r) failures = if failures.contains k then some k else foremost? r failures := by
  simp only [foremost?, keys, List.map_cons, List.find?_cons]
  cases failures.contains k <;> rfl

theorem resolve_cons (k : String) (p : P) (r : Registry P) (failures : Failures) :
    resolve text ((k, p) :: r) (some failures) =
      (failures.get? k).elim (resolve text r (some failures)) (text p) := by
  simp only [resolve, List.findSome?_cons]
  cases failures.get? k <;> rfl

theorem resolve_of_foremost? (h : r.foremost? failures = some key) (hproducer : r.get? key = some producer)
    (hdetail : failures.get? key = some detail) : r.resolve text (some failures) = text producer detail := by
  induction r with
  | nil => cases h
  | cons e r ih =>
    obtain ⟨k, p⟩ := e
    rw [foremost?_cons] at h
    rw [get?_cons] at hproducer
    rw [resolve_cons]
    cases hk : failures.get? k with
    | some d =>
      have hcontains : failures.contains k = true := by simp [Keyed.contains, hk]
      rw [if_pos hcontains] at h
      cases h
      rw [if_pos rfl] at hproducer
      cases hproducer
      cases hk.symm.trans hdetail
      rfl
    | none =>
      have hcontains : failures.contains k = false := by simp [Keyed.contains, hk]
      have hne : k ≠ key := by
        rintro rfl
        cases hk.symm.trans hdetail
      rw [if_neg hne] at hproducer
      exact ih (by simpa [hcontains] using h) hproducer

theorem resolve_of_silent (h : r.foremost? failures = none) : r.resolve text (some failures) = "" := by
  induction r with
  | nil => rfl
  | cons e r ih =>
    obtain ⟨k, p⟩ := e
    rw [foremost?_cons] at h
    rw [resolve_cons]
    cases hk : failures.get? k with
    | some d => simp [Keyed.contains, hk] at h
    | none =>
      have hrest : foremost? r failures = none := by simpa [Keyed.contains, hk] using h
      exact ih hrest

theorem exists_of_foremost? (h : r.foremost? failures = some key) :
    ∃ producer detail, r.get? key = some producer ∧ failures.get? key = some detail := by
  have hfind : r.keys.find? (fun key => failures.contains key) = some key := h
  have hmem : r.contains key = true := contains_iff.mpr (List.mem_of_find?_eq_some hfind)
  have hfailing : failures.contains key = true := by simpa using List.find?_some hfind
  obtain ⟨producer, hproducer⟩ := Option.isSome_iff_exists.mp hmem
  obtain ⟨detail, hdetail⟩ := Option.isSome_iff_exists.mp hfailing
  exact ⟨producer, detail, hproducer, hdetail⟩

inductive Tells (text : P → Json → String) (log : Keyed P) (r : Registry P) (failures : Failures) :
    String → Prop
  | nothing (silent : r.foremost? failures = none) : Tells text log r failures ""
  | foremost {key : String} {producer : P} {detail : Json} (earliest : r.foremost? failures = some key)
      (latest : get? key log.reverse = some producer) (present : failures.get? key = some detail) :
      Tells text log r failures (text producer detail)

theorem Records.tells (h : Records log r) (text : P → Json → String) (failures : Failures) :
    Tells text log r failures (r.resolve text (some failures)) := by
  cases hkey : r.foremost? failures with
  | none =>
    rw [resolve_of_silent hkey]
    exact .nothing hkey
  | some key =>
    obtain ⟨producer, detail, hproducer, hdetail⟩ := exists_of_foremost? hkey
    rw [resolve_of_foremost? hkey hproducer hdetail]
    have hlatest := h.latest key
    exact .foremost hkey (hlatest ▸ hproducer) hdetail

theorem resolve_congr {failures' : Failures} (h : ∀ k, failures.get? k = failures'.get? k) :
    r.resolve text (some failures) = r.resolve text (some failures') := by
  simp only [resolve, h]

theorem resolve_register_of_ne (hkey : key ∈ r.keys) (h : r.foremost? failures ≠ some key) (producer : P) :
    (r.register key producer).resolve text (some failures) = r.resolve text (some failures) := by
  have hsame : (r.register key producer).foremost? failures = r.foremost? failures := by
    simp only [foremost?, keys_register_of_mem hkey]
  cases hfirst : r.foremost? failures with
  | none => rw [resolve_of_silent hfirst, resolve_of_silent (hsame.trans hfirst)]
  | some k =>
    obtain ⟨p, detail, hp, hdetail⟩ := exists_of_foremost? hfirst
    have hne : key ≠ k := by
      rintro rfl
      exact h hfirst
    have hkept : (r.register key producer).get? k = some p := by rw [get?_register, if_neg hne, hp]
    rw [resolve_of_foremost? hfirst hp hdetail, resolve_of_foremost? (hsame.trans hfirst) hkept hdetail]

/-- In every run of registrations each key stands once, at the place of its first registration, and failures are
told by the latest producer for the earliest key among them, in whatever order they come. A key that is
registered again keeps its place, and what is told by any other key stays the same. -/
theorem resolve_registerAll {start : Registry P} (hstart : start.keys.Nodup) (calls : List (String × P))
    (text : P → Json → String) :
    let log : Keyed P := start ++ calls
    let r := start.registerAll calls
    r.keys.Nodup ∧ (r.keys.Pairwise fun j k => log.keys.idxOf j < log.keys.idxOf k) ∧
    (∀ k, r.contains k = true ↔ k ∈ log.keys) ∧
    r.resolve text none = "" ∧ (∀ failures, Tells text log r failures (r.resolve text (some failures))) ∧
    (∀ failures failures' : Failures, failures.keys.Nodup → failures.Perm failures' →
      r.resolve text (some failures) = r.resolve text (some failures')) ∧
    ∀ key ∈ r.keys, ∀ producer, (r.register key producer).keys = r.keys ∧
      ∀ failures, r.foremost? failures ≠ some key →
        (r.register key producer).resolve text (some failures) = r.resolve text (some failures) := by
  intro log r
  have h : Records log r := (Records.of_nodup hstart).registerAll calls
  refine ⟨h.nodup, h.ordered, fun k => contains_iff.trans (h.known k), rfl, h.tells text, ?_, ?_⟩
  · intro failures failures' hnodup hperm
    exact resolve_congr (get?_of_perm hperm hnodup)
  · intro key hkey producer
    exact ⟨keys_register_of_mem hkey producer, fun _ hne => resolve_register_of_ne hkey hne producer⟩

theorem resolve_overwritten :
    let calls : List (String × Message) := [("min", .fixed "Too small"), ("taken", .fixed "Taken")]
    let r := Registry.registerAll calls Messages.builtins
    Messages.builtins.keys.Nodup ∧ r.keys.Nodup ∧ r.keys = Messages.builtins.keys ++ ["taken"] ∧
      r.resolve Message.text (some [("min", .null), ("taken", .null)]) = "Too small" ∧
      r.resolve Message.text (some [("taken", .null), ("min", .null)]) = "Too small" ∧
      (r.register "min" (.fixed "Small")).resolve Message.text (some [("taken", .null)]) = "Taken" := by
  intro calls r
  have hnodup : Messages.builtins.keys.Nodup := by decide
  obtain ⟨hdistinct, -, -, -, htells, hperm, hagain⟩ := resolve_registerAll hnodup calls Message.text
  have hfirst : r.resolve Message.text (some [("min", .null), ("taken", .null)]) = "Too small" := rfl
  have hswap := hperm [("min", .null), ("taken", .null)] [("taken", .null), ("min", .null)] (by decide)
    (List.Perm.swap _ _ _)
  have hkept := (hagain "min" (by decide) (.fixed "Small")).2 [("taken", .null)] (by decide)
  exact ⟨hnodup, hdistinct, rfl, hfirst, hswap.symm.trans hfirst, hkept⟩

example : resolve (fun produce : Json → String => produce)
    (registerAll [("min", fun _ => "Too small"), ("taken", fun _ => "Taken"), ("min", Json.looseText)] [])
    (some [("min", .bool true), ("taken", .null)]) = "true" := rfl

end Registry

end Formwork
