import Formwork.Control.Path
import Formwork.Control.Status
import Formwork.Json
import Formwork.Schema.NodeKind

/-! What happens to a form, as it is reported to whoever watches. -/

namespace Formwork

inductive Event where
  | nodeAllocated (path : ControlPath) (kind : NodeKind)
  | valueChanged (path : ControlPath) (generation : Nat)
  | validationSettled (path : ControlPath) (status : Status) (failures : List String)
  | staleResultDiscarded (path : ControlPath) (ticketGeneration currentGeneration : Nat)
  | transportRetry (url : String) (attempt : Nat) (delay : Nat) (errorKind : String)
  | transportExhausted (url : String) (attempts : Nat) (errorKind : String)
deriving DecidableEq, Repr

namespace Event

def members : Event → Keyed Json
  | nodeAllocated path kind =>
    [("event", .string "node_allocated"), ("path", .string path.text),
      ("kind", .string kind.label)]
  | valueChanged path generation =>
    [("event", .string "value_changed"), ("path", .string path.text),
      ("generation", .int generation)]
  | validationSettled path status failures =>
    [("event", .string "validation_settled"), ("path", .string path.text),
      ("status", .string status.label), ("errors", .strings failures)]
  | staleResultDiscarded path ticketGeneration currentGeneration =>
    [("event", .string "stale_result_discarded"), ("path", .string path.text),
      ("ticket_generation", .int ticketGeneration),
      ("current_generation", .int currentGeneration)]
  | transportRetry url attempt delay errorKind =>
    [("event", .string "transport_retry"), ("url", .string url), ("attempt", .int attempt),
      ("delay_ms", .int delay), ("error_kind", .string errorKind)]
  | transportExhausted url attempts errorKind =>
    [("event", .string "transport_exhausted"), ("url", .string url),
      ("attempts", .int attempts), ("error_kind", .string errorKind)]

def toJson (e : Event) : Json := .object e.members

end Event

end Formwork
