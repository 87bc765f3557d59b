import Formwork.Proofs.Listing
import Formwork.Proofs.Outline

/-! Outlines that a container takes one after another. Whether it can, and what it is afterwards, is
told by the outlines alone. -/

namespace Formwork

variable [Dialect]

namespace Node

open Outline

def Fits (c : Node) : List (String × Outline) → Prop
  | [] => True
  | (key, o) :: rest => o.Sound ∧ (c.place? key).isSome = true ∧ Fits (c.adding key o.node) rest

def planted (c : Node) (os : List (String × Outline)) : Node :=
  os.foldl (fun c m => c.adding m.1 m.2.node) c

def plantedSources (p : ControlPath) (c : Node) :
    List (String × Outline) → List (ControlPath × OptionSource)
  | [] => []
  | (key, o) :: rest =>
    ((c.place? key).map fun b => o.sources (p.child b)).getD [] ++
      plantedSources p (c.adding key o.node) rest

theorem fits_append (c : Node) (os os' : List (String × Outline)) :
    c.Fits (os ++ os') ↔ c.Fits os ∧ (c.planted os).Fits os' := by
  induction os generalizing c with
  | nil => simp [Fits, planted]
  | cons m os ih =>
    obtain ⟨key, o⟩ := m
    simp only [List.cons_append, Fits, ih, and_assoc]
    rfl

theorem planted_singleton (c : Node) (key : String) (o : Outline) :
    c.planted [(key, o)] = c.adding key o.node := rfl

theorem planted_append (c : Node) (os os' : List (String × Outline)) :
    c.planted (os ++ os') = (c.planted os).planted os' :=
  List.foldl_append

theorem plantedSources_append (p : ControlPath) (c : Node) (os os' : List (String × Outline)) :
    plantedSources p c (os ++ os') =
      plantedSources p c os ++ plantedSources p (c.planted os) os' := by
  induction os generalizing c with
  | nil => rfl
  | cons m os ih =>
    obtain ⟨key, o⟩ := m
    rw [List.cons_append, plantedSources, ih, ← List.append_assoc]
    rfl

theorem bare_planted (c : Node) (os : List (String × Outline)) : (c.planted os).bare = c.bare := by
  induction os generalizing c with
  | nil => rfl
  | cons m os ih => exact (ih _).trans (bare_adding c m.1 m.2.node)

theorem fits_group (children : List (String × Node)) (os : List (String × Outline)) :
    (group children).Fits os ↔
      (∀ m ∈ os, m.1 ≠ "" ∧ Keyed.get? m.1 children = none ∧ m.2.Sound) ∧
        (Keyed.keys os).Nodup := by
  induction os generalizing children with
  | nil => simp [Fits, Keyed.keys]
  | cons m os ih =>
    obtain ⟨key, o⟩ := m
    have hplace : ((group children).place? key).isSome = true ↔
        key ≠ "" ∧ Keyed.get? key children = none := by
      by_cases hk : key = "" <;> cases hg : Keyed.get? key children <;>
        simp [place?, Keyed.contains, hk, hg]
    have hfree : ∀ m : String × Outline, Keyed.get? m.1 (Keyed.insert key o.node children) = none ↔
        m.1 ≠ key ∧ Keyed.get? m.1 children = none := by
      intro m
      by_cases hm : m.1 = key
      · simp [hm, Keyed.get?_insert_self]
      · simp [hm, Keyed.get?_insert_of_ne hm]
    rw [Fits, hplace, adding, ih]
    simp only [hfree, List.forall_mem_cons, Keyed.keys, List.map_cons, List.nodup_cons,
      List.mem_map, not_exists, not_and]
    constructor
    · rintro ⟨ho, ⟨hk, hg⟩, hos, hnodup⟩
      exact ⟨⟨⟨hk, hg, ho⟩, fun m hm => ⟨(hos m hm).1, (hos m hm).2.1.2, (hos m hm).2.2⟩⟩,
        fun m hm => (hos m hm).2.1.1, hnodup⟩
    · rintro ⟨⟨⟨hk, hg, ho⟩, hos⟩, hkey, hnodup⟩
      exact ⟨ho, ⟨hk, hg⟩, fun m hm => ⟨(hos m hm).1, ⟨hkey m hm, (hos m hm).2.1⟩, (hos m hm).2.2⟩,
        hnodup⟩

theorem planted_group (children : List (String × Node)) (os : List (String × Outline)) :
    (group children).planted os = group (Keyed.merge children (memberNodes os)) := by
  induction os generalizing children with
  | nil => rfl
  | cons m os ih => exact ih _

theorem plantedSources_group (p : ControlPath) (children : List (String × Node))
    {os : List (String × Outline)} (h : (group children).Fits os) :
    plantedSources p (group children) os = memberSources p os := by
  induction os generalizing children with
  | nil => rfl
  | cons m os ih =>
    obtain ⟨key, o⟩ := m
    obtain ⟨-, hplace, hrest⟩ := h
    obtain ⟨b, hb⟩ := Option.isSome_iff_exists.mp hplace
    obtain ⟨rfl, -, -⟩ := place?_group hb
    rw [plantedSources, hb, memberSources]
    exact congrArg _ (ih _ hrest)

theorem fits_array (children : List Node) (os : List (String × Outline)) :
    (array children).Fits os ↔ ∀ m ∈ os, m.2.Sound := by
  induction os generalizing children with
  | nil => simp [Fits]
  | cons m os ih =>
    rw [Fits, adding, ih, List.forall_mem_cons]
    simp [place?]

theorem planted_array (children : List Node) (os : List (String × Outline)) :
    (array children).planted os = array (children ++ entryNodes (os.map (·.2))) := by
  induction os generalizing children with
  | nil => simp [planted, entryNodes]
  | cons m os ih =>
    have hcons := ih (children ++ [m.2.node])
    rw [List.append_assoc] at hcons
    exact hcons

theorem plantedSources_array (p : ControlPath) (children : List Node)
    (os : List (String × Outline)) :
    plantedSources p (array children) os = entrySources p children.length (os.map (·.2)) := by
  induction os generalizing children with
  | nil => rfl
  | cons m os ih =>
    obtain ⟨key, o⟩ := m
    have hcons := ih (children ++ [o.node])
    rw [List.length_append] at hcons
    exact congrArg _ hcons

omit [Dialect] in
/-- What is put in place of a node that was just added could have been added at once. -/
theorem modify_adding_child {base d c : Node} {ps : List String} {key : String} {b : Branch}
    (hd : base.resolve ps = some d) (hb : c.place? key = some b) (n m : Node) :
    (base.modify (fun _ => c.adding key n) ps).modify (fun _ => m) (ps ++ [b.text]) =
      base.modify (fun _ => c.adding key m) ps := by
  have hbelow := below?_adding_self hb n
  have hchild : (c.adding key n).modify (fun _ => m) [b.text] = c.adding key m := by
    rw [modify_cons (branch?_text hbelow) hbelow, modify, withBelow_adding hb]
  rw [modify_append, modify_modify hd, hchild]

omit [Dialect] in
theorem resolve_adding_child {base d c : Node} {ps : List String} {key : String} {b : Branch}
    (hd : base.resolve ps = some d) (hb : c.place? key = some b) (n : Node) :
    (base.modify (fun _ => c.adding key n) ps).resolve (ps ++ [b.text]) = some n := by
  have hbelow := below?_adding_self hb n
  rw [resolve_append, resolve_modify hd, Option.bind_some, resolve_cons, branch?_text hbelow,
    Option.bind_some, hbelow]
  rfl

/-- The node grows from an outline by planting others in a container that is empty at first. -/
structure Opens (o : Outline) (n : Node) (os : List (String × Outline)) : Prop where
  sound : o.Sound ↔ n.Fits os
  node : o.node = n.planted os
  sources : ∀ p, n.Fits os → o.sources p = plantedSources p n os

theorem opens_group (os : List (String × Outline)) : Opens (.group os) (group []) os where
  sound := by
    rw [fits_group]
    constructor
    · intro h
      cases h with
      | group named distinct below => exact ⟨fun m hm => ⟨named m hm, rfl, below m hm⟩, distinct⟩
    · rintro ⟨hos, hnodup⟩
      exact .group (fun m hm => (hos m hm).1) hnodup fun m hm => (hos m hm).2.2
  node := by
    rw [planted_group, Outline.node]
    rfl
  sources := fun p h => by rw [plantedSources_group p [] h, Outline.sources]

theorem opens_array (os : List (String × Outline)) :
    Opens (.array (os.map (·.2))) (array []) os where
  sound := by
    rw [fits_array]
    constructor
    · intro h
      cases h with
      | array below => exact fun m hm => below m.2 (List.mem_map_of_mem hm)
    · intro h
      refine .array fun o ho => ?_
      obtain ⟨m, hm, rfl⟩ := List.mem_map.mp ho
      exact h m hm
  node := by rw [planted_array, Outline.node, List.nil_append]
  sources := fun p _ => by
    rw [plantedSources_array, Outline.sources]
    rfl

end Node

end Formwork
