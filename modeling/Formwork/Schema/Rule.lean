import Formwork.Json.Record

/-! The validation rules that a schema attaches to a leaf. -/

namespace Formwork

structure LocalRule where
  kind : String
  value : Option Json
  name : Option String
  message : Option String
deriving DecidableEq

inductive RemoteRule.Kind where
  | custom
  | external
deriving DecidableEq, Repr

structure RemoteRule where
  kind : RemoteRule.Kind
  url : String
  value : Option Json
  name : String
  message : Option String
deriving DecidableEq

structure RuleSet where
  locals : List LocalRule
  remotes : List RemoteRule
deriving DecidableEq

open Json (record? required optional items? choice? asString?)
open Keyed (defaulted)

namespace LocalRule

def ofJson? (v : Json) : Option LocalRule := do
  let r ← record? ["type", "value", "name", "message"] v
  let kind ← required asString? "type" r
  let value ← optional some "value" r
  let name ← optional asString? "name" r
  let message ← optional asString? "message" r
  some ⟨kind, value, name, message⟩

def toJson (rule : LocalRule) : Json :=
  .object [("type", .string rule.kind), ("value", rule.value.getD .null),
    ("name", .ofOption .string rule.name), ("message", .ofOption .string rule.message)]

end LocalRule

namespace RemoteRule

def Kind.label : Kind → String
  | custom => "custom"
  | external => "external"

def Kind.ofLabel? : String → Option Kind
  | "custom" => some custom
  | "external" => some external
  | _ => none

def ofJson? (v : Json) : Option RemoteRule := do
  let r ← record? ["type", "url", "value", "name", "message"] v
  let kind ← required (choice? Kind.ofLabel?) "type" r
  let url ← required asString? "url" r
  let value ← optional some "value" r
  let name ← required asString? "name" r
  let message ← optional asString? "message" r
  some ⟨kind, url, value, name, message⟩

def toJson (rule : RemoteRule) : Json :=
  .object [("type", .string rule.kind.label), ("url", .string rule.url),
    ("value", rule.value.getD .null), ("name", .string rule.name),
    ("message", .ofOption .string rule.message)]

end RemoteRule

namespace RuleSet

def none : RuleSet := ⟨[], []⟩

def ofJson? (v : Json) : Option RuleSet := do
  let r ← record? ["sync", "async"] v
  let locals ← defaulted (items? LocalRule.ofJson?) [] "sync" r
  let remotes ← defaulted (items? RemoteRule.ofJson?) [] "async" r
  some ⟨locals, remotes⟩

def toJson (rules : RuleSet) : Json :=
  .object [("sync", .array (rules.locals.map LocalRule.toJson)),
    ("async", .array (rules.remotes.map RemoteRule.toJson))]

end RuleSet

end Formwork
