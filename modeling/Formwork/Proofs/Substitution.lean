import Formwork.Proofs.WireForm
import Formwork.Query

/-! The value in place of the placeholder: the places of a document that it takes, and that an expression and
its written form are filled alike. -/

namespace Formwork

namespace Json

open Query (children)

theorem sizeOf_lt_of_mem_children {v x : Json} (h : x ∈ children v) : sizeOf x < sizeOf v := by
  cases v with
  | array items =>
    have hlt : sizeOf x < sizeOf items := List.sizeOf_lt_of_mem h
    simp only [array.sizeOf_spec]
    omega
  | object members =>
    obtain ⟨m, hm, rfl⟩ := List.mem_map.mp h
    have hlt : sizeOf m < sizeOf members := List.sizeOf_lt_of_mem hm
    obtain ⟨k, x⟩ := m
    simp only [object.sizeOf_spec, Prod.mk.sizeOf_spec] at hlt ⊢
    omega
  | null | bool | int | double | string => cases h

theorem byChildren {motive : Json → Prop}
    (node : ∀ v, (∀ x ∈ children v, motive x) → motive v) (v : Json) : motive v :=
  node v fun x hx =>
    have := sizeOf_lt_of_mem_children hx
    byChildren node x
termination_by sizeOf v

/-- A node with nothing left of those below it but their number and their keys. -/
def frame : Json → Json
  | .array items => .array (items.map fun _ => .null)
  | .object members => .object (members.map fun m => (m.1, .null))
  | v => v

theorem eq_of_frame_of_children {a b : Json} (hframe : a.frame = b.frame)
    (hchildren : children a = children b) : a = b := by
  cases a with
  | object members =>
    cases b with
    | object members' =>
      have hkeys : members.map (·.1) = members'.map (·.1) := by
        have h := congrArg (List.map (·.1)) (object.inj hframe)
        simpa only [List.map_map, Function.comp_def] using h
      have hmembers : members = members' := by
        calc members = (members.map (·.1)).zip (members.map (·.2)) := List.zip_of_prod rfl rfl
          _ = (members'.map (·.1)).zip (members'.map (·.2)) := hkeys ▸ congrArg _ hchildren
          _ = members' := (List.zip_of_prod rfl rfl).symm
      rw [hmembers]
    | _ => cases hframe
  | array items =>
    cases b with
    | array items' => exact congrArg array hchildren
    | _ => cases hframe
  | null | bool | int | double | string => cases b <;> first | exact hframe | cases hframe

theorem eq_string_of_frame {v : Json} {s : String} (h : v.frame = .string s) : v = .string s := by
  cases v <;> first | exact h | cases h

/-- The node that a path leads to, on which every step is the place of a child, counted from zero. -/
def node? : List Nat → Json → Option Json
  | [], v => some v
  | i :: path, v => (children v)[i]?.bind (node? path)

/-- The second document has the value wherever the first has the placeholder, and is like it everywhere
else. -/
def Replaced (value a b : Json) : Prop :=
  ∀ path x, a.node? path = some x →
    ∃ y, b.node? path = some y ∧ if x = .string placeholder then y = value else y.frame = x.frame

section Filling

variable {value a b : Json}

theorem fill_placeholder (value : Json) : fill value (.string placeholder) = value := rfl

theorem fill_string {s : String} (h : s ≠ placeholder) : fill value (.string s) = .string s := by
  rw [fill, if_neg h]

theorem fillMembers_eq_map (value : Json) (members : List (String × Json)) :
    fillMembers value members = members.map fun m => (m.1, fill value m.2) := by
  induction members with
  | nil => rfl
  | cons m members ih => rw [fillMembers, ih, List.map_cons]

theorem membersMention_eq_any (members : List (String × Json)) :
    membersMention members = (members.map (·.2)).any mentions := by
  induction members with
  | nil => rfl
  | cons m members ih => rw [membersMention, ih, List.map_cons, List.any_cons]

theorem frame_fill (value : Json) (h : a ≠ .string placeholder) : (fill value a).frame = a.frame := by
  cases a with
  | string s => rw [fill_string fun hs => h (hs ▸ rfl)]
  | array items =>
    rw [fill, fillItems_eq_map, frame, frame, List.map_map]
    rfl
  | object members =>
    rw [fill, fillMembers_eq_map, frame, frame, List.map_map]
    rfl
  | null | bool | int | double => rfl

theorem children_fill (value : Json) (h : a ≠ .string placeholder) :
    children (fill value a) = (children a).map (fill value) := by
  cases a with
  | string s => rw [fill_string fun hs => h (hs ▸ rfl)]; rfl
  | array items => exact fillItems_eq_map value items
  | object members => simp [fill, fillMembers_eq_map, children]
  | null | bool | int | double => rfl

theorem fill_ne_placeholder (value : Json) (h : a ≠ .string placeholder) :
    fill value a ≠ .string placeholder := by
  intro hfill
  have hframe := frame_fill value h
  rw [hfill] at hframe
  exact h (eq_string_of_frame hframe.symm)

/-- Filling twice is filling once with the filled value. -/
theorem fill_fill (value other a : Json) : fill other (fill value a) = fill (fill other value) a := by
  induction a using byChildren with
  | node a ih =>
    by_cases h : a = .string placeholder
    · rw [h, fill_placeholder, fill_placeholder]
    · have hfill := fill_ne_placeholder value h
      apply eq_of_frame_of_children
      · rw [frame_fill other hfill, frame_fill value h, frame_fill _ h]
      · rw [children_fill other hfill, children_fill value h, children_fill _ h, List.map_map]
        exact List.map_congr_left ih

theorem mentions_iff : a.mentions = true ↔ a = .string placeholder ∨ ∃ x ∈ children a, x.mentions = true := by
  cases a with
  | array items => simp [mentions, itemsMention_eq_any, children]
  | object members => simp only [mentions, membersMention_eq_any, children, List.any_eq_true, reduceCtorEq, false_or]
  | null | bool | int | double | string => simp [mentions, children]

theorem mentions_fill : (fill value a).mentions = true ↔ a.mentions = true ∧ value.mentions = true := by
  induction a using byChildren with
  | node a ih =>
    by_cases h : a = .string placeholder
    · rw [h, fill_placeholder]
      exact (and_iff_right (mentions_iff.mpr (.inl rfl))).symm
    · have hfill := fill_ne_placeholder value h
      rw [mentions_iff, mentions_iff (a := a), or_iff_right hfill, or_iff_right h, children_fill value h]
      constructor
      · rintro ⟨_, hmem, hmentions⟩
        obtain ⟨x, hx, rfl⟩ := List.mem_map.mp hmem
        have hboth := (ih x hx).mp hmentions
        exact ⟨⟨x, hx, hboth.1⟩, hboth.2⟩
      · rintro ⟨⟨x, hx, hmentions⟩, hvalue⟩
        exact ⟨fill value x, List.mem_map_of_mem hx, (ih x hx).mpr ⟨hmentions, hvalue⟩⟩

theorem mentions_iff_node : a.mentions = true ↔ ∃ path, a.node? path = some (.string placeholder) := by
  induction a using byChildren with
  | node a ih =>
    rw [mentions_iff]
    constructor
    · rintro (rfl | ⟨x, hx, hmentions⟩)
      · exact ⟨[], rfl⟩
      · obtain ⟨i, hi⟩ := List.mem_iff_getElem?.mp hx
        obtain ⟨path, hpath⟩ := (ih x hx).mp hmentions
        exact ⟨i :: path, by rw [node?, hi, Option.bind_some, hpath]⟩
    · rintro ⟨path, hpath⟩
      cases path with
      | nil => exact .inl (Option.some.inj hpath)
      | cons i path =>
        obtain ⟨x, hi, hx⟩ := Option.bind_eq_some_iff.mp hpath
        have hmem := List.mem_of_getElem? hi
        exact .inr ⟨x, hmem, (ih x hmem).mpr ⟨path, hx⟩⟩

theorem node?_fill {path : List Nat} {x : Json} (h : a.node? path = some x) :
    (fill value a).node? path = some (fill value x) := by
  induction path generalizing a with
  | nil =>
    cases h
    rfl
  | cons i path ih =>
    obtain ⟨c, hc, h⟩ := Option.bind_eq_some_iff.mp h
    have hne : a ≠ .string placeholder := by
      rintro rfl
      cases hc
    rw [node?, children_fill value hne, List.getElem?_map, hc]
    exact ih h

theorem replaced_fill (value a : Json) : Replaced value a (fill value a) := by
  intro path x hx
  refine ⟨fill value x, node?_fill hx, ?_⟩
  split
  · next h => rw [h, fill_placeholder]
  · next h => exact frame_fill value h

theorem Replaced.child {i : Nat} {x : Json} (h : Replaced value a b) (hx : (children a)[i]? = some x) :
    ∃ y, (children b)[i]? = some y ∧ Replaced value x y := by
  have hnode : a.node? [i] = some x := by rw [node?, hx]; rfl
  obtain ⟨y, hy, -⟩ := h [i] x hnode
  obtain ⟨y', hy', he⟩ := Option.bind_eq_some_iff.mp hy
  cases he
  refine ⟨y, hy', fun path z hz => ?_⟩
  have hbelow := h (i :: path) z (by rw [node?, hx, Option.bind_some, hz])
  rwa [node?, hy', Option.bind_some] at hbelow

theorem length_children_of_frame (h : b.frame = a.frame) : (children b).length = (children a).length := by
  have hlength (v : Json) : (children v).length = (children v.frame).length := by
    cases v <;> simp [children, frame]
  rw [hlength, h, ← hlength]

theorem Replaced.eq_fill (h : Replaced value a b) : b = fill value a := by
  induction a using byChildren generalizing b with
  | node a ih =>
    obtain ⟨b', hb, hroot⟩ := h [] a rfl
    cases hb
    by_cases hne : a = .string placeholder
    · rw [if_pos hne] at hroot
      rw [hroot, hne, fill_placeholder]
    · rw [if_neg hne] at hroot
      refine eq_of_frame_of_children (hroot.trans (frame_fill value hne).symm) ?_
      rw [children_fill value hne]
      apply List.ext_getElem?
      intro i
      rw [List.getElem?_map]
      cases hi : (children a)[i]? with
      | none =>
        have hlength := length_children_of_frame hroot
        rw [List.getElem?_eq_none_iff] at hi
        exact List.getElem?_eq_none (hlength ▸ hi)
      | some x =>
        obtain ⟨y, hy, hreplaced⟩ := h.child hi
        rw [hy, ih x (List.mem_of_getElem? hi) hreplaced]
        rfl

theorem fill_eq_iff_replaced : fill value a = b ↔ Replaced value a b :=
  ⟨fun h => h ▸ replaced_fill value a, fun h => h.eq_fill.symm⟩

theorem fill_eq_self_iff : fill value a = a ↔ a.mentions = false ∨ value = .string placeholder := by
  rw [fill_eq_iff_replaced, ← Bool.not_eq_true, mentions_iff_node]
  constructor
  · intro h
    by_cases hmentions : ∃ path, a.node? path = some (.string placeholder)
    · obtain ⟨path, hpath⟩ := hmentions
      obtain ⟨y, hy, hvalue⟩ := h path _ hpath
      cases hpath.symm.trans hy
      exact .inr hvalue.symm
    · exact .inl hmentions
  · rintro h path x hx
    refine ⟨x, hx, ?_⟩
    split
    · next he =>
      cases he
      exact (h.resolve_left fun hnone => hnone ⟨path, hx⟩).symm
    · rfl

end Filling

end Json

theorem Connective.token_ne_placeholder (c : Connective) : c.token ≠ placeholder := by
  cases c <;> decide

theorem Comparator.token_ne_placeholder (c : Comparator) : c.token ≠ placeholder := by
  cases c <;> decide

namespace Clause

mutual
theorem toJson_fill (value : Json) : ∀ c : Clause, (c.fill value).toJson = Json.fill value c.toJson
  | comparison left c right => by
    simp only [fill, toJson, Json.fill, Json.fillItems, if_neg c.token_ne_placeholder]
  | group connective clauses => by
    simp only [fill, toJson, Json.fill, Json.fillItems, if_neg connective.token_ne_placeholder,
      toJsons_fillAll value clauses]
theorem toJsons_fillAll (value : Json) :
    ∀ cs : List Clause, toJsons (fillAll value cs) = Json.fillItems value (toJsons cs)
  | [] => rfl
  | c :: cs => by
    simp only [fillAll, toJsons, Json.fillItems, toJson_fill value c, toJsons_fillAll value cs]
end

mutual
theorem mentions_toJson : ∀ c : Clause, c.toJson.mentions = c.mentions
  | comparison left c right => by
    simp [toJson, Json.mentions, Json.itemsMention, mentions, c.token_ne_placeholder]
  | group connective clauses => by
    simp [toJson, Json.mentions, Json.itemsMention, mentions, connective.token_ne_placeholder,
      itemsMention_toJsons clauses]
theorem itemsMention_toJsons : ∀ cs : List Clause, Json.itemsMention (toJsons cs) = anyMentions cs
  | [] => rfl
  | c :: cs => by
    simp only [toJsons, Json.itemsMention, anyMentions, mentions_toJson c, itemsMention_toJsons cs]
end

end Clause

namespace Expression

theorem toJson_injective {e e' : Expression} (h : e.toJson = e'.toJson) : e = e' := by
  have hread := e.ofJson_toJson
  rw [h, ofJson_toJson] at hread
  exact (Except.ok.inj hread).symm

theorem toJson_fill (value : Json) (e : Expression) : (e.fill value).toJson = Json.fill value e.toJson :=
  Clause.toJson_fill value e.toClause

theorem mentions_toJson (e : Expression) : e.toJson.mentions = e.mentions :=
  Clause.mentions_toJson e.toClause

/-- Putting values in place of the placeholder is a substitution: the second of two is applied to the value
of the first, the placeholder is left only where a value brings it along, and nothing changes where it does
not stand. The written form of the outcome is that of the expression with the value at all places of the
placeholder, and with its keys, connectives and comparators as they were. -/
theorem fill_substitutes (e : Expression) (v w : Json) :
    (e.fill v).fill w = e.fill (Json.fill w v) ∧
    ((e.fill v).mentions = true ↔ e.mentions = true ∧ v.mentions = true) ∧
    (e.fill v = e ↔ e.mentions = false ∨ v = .string placeholder) ∧
    (e.fill v).toJson = Json.fill v e.toJson ∧
    (∀ b, (e.fill v).toJson = b ↔ Json.Replaced v e.toJson b) ∧
    (e.mentions = true ↔ ∃ path, e.toJson.node? path = some (.string placeholder)) := by
  refine ⟨toJson_injective ?_, ?_, ⟨fun h => ?_, fun h => toJson_injective ?_⟩, toJson_fill v e, fun b => ?_, ?_⟩
  · rw [toJson_fill, toJson_fill, toJson_fill, Json.fill_fill]
  · rw [← mentions_toJson, ← mentions_toJson, toJson_fill, Json.mentions_fill]
  · have hfill : Json.fill v e.toJson = e.toJson := by rw [← toJson_fill, h]
    rwa [Json.fill_eq_self_iff, mentions_toJson] at hfill
  · rwa [toJson_fill, Json.fill_eq_self_iff, mentions_toJson]
  · rw [toJson_fill, Json.fill_eq_iff_replaced]
  · rw [← mentions_toJson, Json.mentions_iff_node]

example :
    (Expression.fill (.array [.string "value"])
      ⟨.all, [.comparison (.object [("value", .string "value")]) .equal (.string "values")]⟩).toJson =
    .array [.string "and", .array [.array [.object [("value", .array [.string "value"])], .string "equal",
      .string "values"]]] := rfl

end Expression

end Formwork
