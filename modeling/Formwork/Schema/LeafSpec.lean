import Formwork.Schema.Rule

/-! The payload of a leaf in a schema: what kind of control it is, its options and its rules. -/

namespace Formwork

structure SelectOption where
  display : String
  value : Json
deriving DecidableEq

inductive SortOrder where
  | ascending
  | descending
deriving DecidableEq, Repr

structure OptionSource where
  url : String
  path : Option String
  order : Option SortOrder
deriving DecidableEq, Repr

inductive SelectOptions where
  | inline (options : List SelectOption)
  | remote (source : OptionSource)
deriving DecidableEq

inductive LeafKind where
  | input
  | select
  | other (type : String)
deriving DecidableEq, Repr

structure LeafSpec where
  key : Option String
  type : String
  name : Option String
  label : Option String
  placeholder : Option String
  icon : Option String
  options : Option SelectOptions
  rules : RuleSet
deriving DecidableEq

open Json (record? required optional items? choice? asString?)
open Keyed (defaulted)

namespace SelectOption

def ofJson? (v : Json) : Option SelectOption := do
  let r ← record? ["display", "value"] v
  let display ← required asString? "display" r
  let value ← required some "value" r
  some ⟨display, value⟩

def toJson (o : SelectOption) : Json := .object [("display", .string o.display), ("value", o.value)]

def listOfJson? : Json → Option (List SelectOption) := items? ofJson?

def listToJson (options : List SelectOption) : Json := .array (options.map toJson)

end SelectOption

namespace SortOrder

def label : SortOrder → String
  | ascending => "asc"
  | descending => "desc"

def ofLabel? : String → Option SortOrder
  | "asc" => some ascending
  | "desc" => some descending
  | _ => none

def ofJson? : Json → Option SortOrder := choice? ofLabel?

def toJson (o : SortOrder) : Json := .string o.label

end SortOrder

namespace OptionSource

def ofJson? (v : Json) : Option OptionSource := do
  let r ← record? ["url", "path", "sortOrder"] v
  let url ← required asString? "url" r
  let path ← optional asString? "path" r
  let order ← optional SortOrder.ofJson? "sortOrder" r
  some ⟨url, path, order⟩

def toJson (s : OptionSource) : Json :=
  .object [("url", .string s.url), ("path", .ofOption .string s.path),
    ("sortOrder", .ofOption SortOrder.toJson s.order)]

end OptionSource

namespace SelectOptions

/-- What reads as a list of options is one; only else it may be a source. -/
def ofJson? (v : Json) : Option SelectOptions :=
  match SelectOption.listOfJson? v with
  | some options => some (inline options)
  | none => (OptionSource.ofJson? v).map remote

def toJson : SelectOptions → Json
  | inline options => SelectOption.listToJson options
  | remote source => source.toJson

end SelectOptions

namespace LeafSpec

def ofJson? (v : Json) : Option LeafSpec := do
  let r ← record?
    ["key", "type", "name", "label", "placeholder", "icon", "options", "validations"] v
  let key ← optional asString? "key" r
  let type ← defaulted asString? "" "type" r
  let name ← optional asString? "name" r
  let label ← optional asString? "label" r
  let placeholder ← optional asString? "placeholder" r
  let icon ← optional asString? "icon" r
  let options ← optional SelectOptions.ofJson? "options" r
  let rules ← defaulted RuleSet.ofJson? .none "validations" r
  some ⟨key, type, name, label, placeholder, icon, options, rules⟩

def toJson (s : LeafSpec) : Json :=
  .object [("key", .ofOption .string s.key), ("type", .string s.type),
    ("name", .ofOption .string s.name), ("label", .ofOption .string s.label),
    ("placeholder", .ofOption .string s.placeholder), ("icon", .ofOption .string s.icon),
    ("options", .ofOption SelectOptions.toJson s.options), ("validations", s.rules.toJson)]

/-- The kind by the type, in which the case of ASCII letters means nothing. -/
def kind (s : LeafSpec) : LeafKind :=
  match String.ofList (s.type.toList.map Char.toUpper) with
  | "INPUT" => .input
  | "SELECT" => .select
  | _ => .other s.type

def inlineOptions? (s : LeafSpec) : Option (List SelectOption) :=
  match s.kind, s.options with
  | .select, some (.inline options) => some options
  | _, _ => none

def optionSource? (s : LeafSpec) : Option OptionSource :=
  match s.kind, s.options with
  | .select, some (.remote source) => some source
  | _, _ => none

end LeafSpec

end Formwork
