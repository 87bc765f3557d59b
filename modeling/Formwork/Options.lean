import Formwork.Dialect
import Formwork.Json.Loose
import Formwork.Schema.LeafSpec
import Formwork.Transport.Retry

/-! The options of a select that are fetched from a remote list. -/

namespace Formwork.Options

/-- The first of the matches in an entry, or `null`, shown as its text. -/
def project (found : List Json) : SelectOption :=
  let value := found.head?.getD .null
  ⟨value.looseText, value⟩

/-- An entry that has both fields of an option is one; any other stands for itself. -/
def shape (entry : Json) : SelectOption :=
  match entry.member? "display", entry.member? "value" with
  | some display, some value => ⟨display.looseText, value⟩
  | _, _ => ⟨entry.looseText, entry⟩

def sorted (order : SortOrder) (options : List SelectOption) : List SelectOption :=
  match order with
  | .ascending => options.mergeSort fun a b => a.display ≤ b.display
  | .descending => options.mergeSort fun a b => b.display ≤ a.display

/-- The options of the entries, one each. A path that does not read is found out at the first
entry. -/
def ofEntries [Dialect] (source : OptionSource) (entries : List Json) :
    Except TransportError (List SelectOption) :=
  match source.path with
  | none => .ok (entries.map shape)
  | some path =>
    entries.mapM fun entry =>
      match Dialect.select? path entry with
      | some found => .ok (project found)
      | none => .error (.decode source.url "invalid option path")

def ofBody [Dialect] (source : OptionSource) : Json → Except TransportError (List SelectOption)
  | .array entries => do
    let options ← ofEntries source entries
    .ok (match source.order with
      | some order => sorted order options
      | none => options)
  | _ => .error (.decode source.url "option source must return an array")

structure Fetched where
  result : Except TransportError (List SelectOption)
  requests : List Request
  events : List Event

/-- Fetches the list under a retry policy. What is wrong with an answer is not tried again. -/
def fetch [Dialect] (policy : RetryPolicy) (transport : Transport) (source : OptionSource) : Fetched :=
  let request := Request.get source.url
  let attempts := Attempts.send policy transport 0 request
  { result := attempts.result.bind (ofBody source)
    requests := List.replicate attempts.count request
    events := attempts.events }

end Formwork.Options
