import Mathlib.Data.List.TFAE
import Mathlib.Tactic.TFAE
import Formwork.Proofs.Traversal
import Formwork.Schema.Layout
import Formwork.Schema.LeafSpec

/-! Leaves and layouts written back as documents. What was read from any spelling of a leaf is read again from
its encoding, and so is every layout. -/

namespace Formwork

theorem Keyed.defaulted_rec {α β : Type} {read : α → Option β} {default b : β} {field : String} {r : Keyed α}
    {p : β → Prop} (hread : ∀ v b, read v = some b → p b) (hdefault : p default)
    (h : r.defaulted read default field = some b) : p b := by
  unfold defaulted at h
  split at h
  · exact hread _ b h
  · cases h
    exact hdefault

namespace Json

def positional : Json → Json
  | .object members => .array (Keyed.values members)
  | v => v

variable {α : Type} {read : Json → Option α} {write : α → Json} {field : String} {r : Keyed Json}

theorem nullable_of_ne {v : Json} (h : v ≠ .null) : nullable read v = (read v).map some := by
  cases v with
  | null => exact absurd rfl h
  | _ => rfl

theorem nullable_ofOption (hread : ∀ a, read (write a) = some a) (hnull : ∀ a, write a ≠ .null)
    (o : Option α) : nullable read (ofOption write o) = some o := by
  cases o with
  | none => rfl
  | some a =>
    show nullable read (write a) = some (some a)
    rw [nullable_of_ne (hnull a), hread a, Option.map_some]

@[simp] theorem nullable_asString?_ofOption (o : Option String) :
    nullable asString? (ofOption .string o) = some o := by
  have hread : ∀ s, asString? (.string s) = some s := fun _ => rfl
  have hnull : ∀ s, Json.string s ≠ .null := by simp
  exact nullable_ofOption hread hnull o

theorem nullable_some_getD {o : Option Json} (h : o ≠ some .null) : nullable some (o.getD .null) = some o := by
  cases o with
  | none => rfl
  | some v =>
    have hv : v ≠ .null := fun hv => h (congrArg some hv)
    exact nullable_of_ne hv

theorem ne_null_of_optional {o : Option Json} (h : Json.optional some field r = some o) : o ≠ some .null := by
  refine Keyed.defaulted_rec (p := fun o => o ≠ some .null) (fun v o ho => ?_) (by simp) h
  cases v <;> cases ho <;> simp

end Json

open Json (record? required nullable items? choice? asString?)
open Keyed (defaulted)

/-- A rule that does not carry `null` as its value. -/
def LocalRule.Plain (rule : LocalRule) : Prop := rule.value ≠ some .null

def RemoteRule.Plain (rule : RemoteRule) : Prop := rule.value ≠ some .null

structure RuleSet.Plain (rules : RuleSet) : Prop where
  locals : ∀ rule ∈ rules.locals, rule.Plain
  remotes : ∀ rule ∈ rules.remotes, rule.Plain

section Reading

variable {v : Json}

theorem Rule.plain_of_ofJson? : (∀ rule, LocalRule.ofJson? v = some rule → rule.Plain) ∧
    ∀ rule, RemoteRule.ofJson? v = some rule → rule.Plain := by
  constructor
  all_goals
    intro rule h
    simp only [LocalRule.ofJson?, RemoteRule.ofJson?, Option.bind_eq_bind, Option.bind_eq_some_iff,
      Option.some.injEq] at h
    grind [LocalRule.Plain, RemoteRule.Plain, Json.ne_null_of_optional]

theorem RuleSet.plain_of_ofJson? {rules : RuleSet} (h : ofJson? v = some rules) : rules.Plain := by
  simp only [ofJson?, Option.bind_eq_bind, Option.bind_eq_some_iff, Option.some.injEq] at h
  obtain ⟨r, -, locals, hlocals, remotes, hremotes, rfl⟩ := h
  constructor
  · refine Keyed.defaulted_rec (p := fun rules => ∀ rule ∈ rules, rule.Plain)
      (fun w rules hrules => ?_) (by simp) hlocals
    exact Json.forall_of_items? (fun _ => Rule.plain_of_ofJson?.1) hrules
  · refine Keyed.defaulted_rec (p := fun rules => ∀ rule ∈ rules, rule.Plain)
      (fun w rules hrules => ?_) (by simp) hremotes
    exact Json.forall_of_items? (fun _ => Rule.plain_of_ofJson?.2) hrules

theorem LeafSpec.plain_of_ofJson? {s : LeafSpec} (h : ofJson? v = some s) : s.rules.Plain := by
  simp only [ofJson?, Option.bind_eq_bind, Option.bind_eq_some_iff, Option.some.injEq] at h
  obtain ⟨r, -, key, -, type, -, name, -, label, -, placeholder, -, icon, -, options, -, rules, hrules, rfl⟩ := h
  have hnone : RuleSet.none.Plain := ⟨by simp [RuleSet.none], by simp [RuleSet.none]⟩
  exact Keyed.defaulted_rec (fun _ _ => RuleSet.plain_of_ofJson?) hnone hrules

end Reading

theorem LocalRule.ofJson?_toJson {rule : LocalRule} (h : rule.Plain) : ofJson? rule.toJson = some rule := by
  have hvalue : nullable some (rule.value.getD .null) = some rule.value := Json.nullable_some_getD h
  simp [ofJson?, toJson, record?, required, Json.optional, defaulted, Keyed.get?_cons, asString?, hvalue]

theorem RemoteRule.ofJson?_toJson {rule : RemoteRule} (h : rule.Plain) : ofJson? rule.toJson = some rule := by
  have hvalue : nullable some (rule.value.getD .null) = some rule.value := Json.nullable_some_getD h
  have hkind : choice? Kind.ofLabel? (.string rule.kind.label) = some rule.kind := by
    cases rule.kind <;> rfl
  simp [ofJson?, toJson, record?, required, Json.optional, defaulted, Keyed.get?_cons, asString?, hvalue, hkind]

theorem RuleSet.ofJson?_toJson {rules : RuleSet} (h : rules.Plain) : ofJson? rules.toJson = some rules := by
  have hlocals : items? LocalRule.ofJson? (.array (rules.locals.map LocalRule.toJson)) = some rules.locals :=
    Json.items?_map fun rule hrule => LocalRule.ofJson?_toJson (h.locals rule hrule)
  have hremotes : items? RemoteRule.ofJson? (.array (rules.remotes.map RemoteRule.toJson)) = some rules.remotes :=
    Json.items?_map fun rule hrule => RemoteRule.ofJson?_toJson (h.remotes rule hrule)
  simp [ofJson?, toJson, record?, defaulted, Keyed.get?_cons, hlocals, hremotes]

theorem SelectOption.ofJson?_toJson (o : SelectOption) : ofJson? o.toJson = some o := by
  simp [ofJson?, toJson, record?, required, Keyed.get?_cons, asString?]

theorem OptionSource.ofJson?_toJson (s : OptionSource) : ofJson? s.toJson = some s := by
  have horder : nullable SortOrder.ofJson? (.ofOption SortOrder.toJson s.order) = some s.order := by
    refine Json.nullable_ofOption (fun o => ?_) (by simp [SortOrder.toJson]) s.order
    cases o <;> rfl
  simp [ofJson?, toJson, record?, required, Json.optional, defaulted, Keyed.get?_cons, asString?, horder]

namespace SelectOptions

theorem ofJson?_toJson (o : SelectOptions) : ofJson? o.toJson = some o := by
  cases o with
  | inline options =>
    have hlist : SelectOption.listOfJson? (SelectOption.listToJson options) = some options :=
      Json.items?_map fun o _ => o.ofJson?_toJson
    simp [ofJson?, toJson, hlist]
  | remote source =>
    have hnone : SelectOption.listOfJson? source.toJson = none := rfl
    simp [ofJson?, toJson, hnone, source.ofJson?_toJson]

theorem toJson_ne_null (o : SelectOptions) : o.toJson ≠ .null := by
  cases o <;> simp [toJson, SelectOption.listToJson, OptionSource.toJson]

end SelectOptions

theorem LeafSpec.ofJson?_toJson {s : LeafSpec} (h : s.rules.Plain) : ofJson? s.toJson = some s := by
  have hoptions : nullable SelectOptions.ofJson? (.ofOption SelectOptions.toJson s.options) = some s.options :=
    Json.nullable_ofOption SelectOptions.ofJson?_toJson SelectOptions.toJson_ne_null s.options
  have hrules := RuleSet.ofJson?_toJson h
  simp [ofJson?, toJson, record?, Json.optional, defaulted, Keyed.get?_cons, asString?, hoptions, hrules]

theorem Alignment.ofJson?_toJson (a : Alignment) : ofJson? a.toJson = some a := by
  simp [ofJson?, toJson, record?, defaulted, Keyed.get?_cons, asString?]

theorem Layout.ofJson?_toJson (l : Layout) : ofJson? l.toJson = some l := by
  have halignment : nullable Alignment.ofJson? (.ofOption Alignment.toJson l.alignment) = some l.alignment :=
    Json.nullable_ofOption Alignment.ofJson?_toJson (by simp [Alignment.toJson]) l.alignment
  simp [ofJson?, toJson, record?, Json.optional, defaulted, Keyed.get?_cons, halignment]

/-- A leaf that can be read at all is read from its own encoding, with or without the names of the fields, and so
is every layout. The leaves that can be read are those of which no rule carries `null`. Lists of options and
sources of options are each read as what they are. -/
theorem leaf_and_layout_reread :
    (∀ s : LeafSpec, [∃ v, LeafSpec.ofJson? v = some s, LeafSpec.ofJson? s.toJson = some s,
      LeafSpec.ofJson? s.toJson.positional = some s, s.rules.Plain].TFAE) ∧
    (∀ l : Layout, Layout.ofJson? l.toJson = some l ∧ Layout.ofJson? l.toJson.positional = some l) ∧
    ∀ o : SelectOptions, SelectOptions.ofJson? o.toJson = some o := by
  refine ⟨fun s => ?_, fun l => ⟨l.ofJson?_toJson, l.ofJson?_toJson⟩, SelectOptions.ofJson?_toJson⟩
  tfae_have 1 → 4 := fun ⟨v, hv⟩ => LeafSpec.plain_of_ofJson? hv
  tfae_have 4 → 2 := LeafSpec.ofJson?_toJson
  tfae_have 2 → 3 := id
  tfae_have 3 → 1 := fun h => ⟨_, h⟩
  tfae_finish

/-- An array in the place of the options is a source where it is no list of options. -/
example : (LeafSpec.ofJson? (.array [.null, .string "Select", .null, .null, .null, .null,
    .array [.string "https://a.test/", .null, .string "asc"]])).bind LeafSpec.optionSource? =
      some ⟨"https://a.test/", none, some .ascending⟩ := by
  decide

end Formwork
