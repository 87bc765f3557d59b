import Formwork.Control.Path
import Formwork.Text.Replace
import Formwork.Transport.Retry
import Formwork.Validation.Validator

/-! Asking remote services about the value of a control. -/

namespace Formwork

structure Ticket where
  path : ControlPath
  generation : Nat
  value : Json
  validators : List RemoteValidator
  snapshot : Json

/-- A template with the text of a value in place of the first placeholder in it. -/
def fillUrl (template : String) (value : Json) : String :=
  String.ofList
    (Text.replaceFirst placeholder.toList value.looseText.toList template.toList)

namespace RemoteValidator

/-- The request that a validator makes: it fetches a document about the value, or posts the state of
the form. -/
def request (v : RemoteValidator) (value snapshot : Json) : Request :=
  match v with
  | custom _ url _ => .get (fillUrl url value)
  | external _ url => .post url snapshot

def accepts [Dialect] (v : RemoteValidator) (value body : Json) : Bool :=
  match v with
  | custom _ _ e => e.holdsWith value body
  | external _ _ => body.member? "validationResult" = some (.bool true)

def failureOf [Dialect] (v : RemoteValidator) (value : Json) : Except TransportError Json → Option Json
  | .ok body => if v.accepts value body then none else some (.object [("value", value)])
  | .error _ => some (.object [("value", value), ("reason", .string "transport")])

end RemoteValidator

structure Inquiry where
  failures : Failures
  requests : List Request
  events : List Event

namespace Inquiry

def ask [Dialect] (policy : RetryPolicy) (transport : Transport) (ticket : Ticket) (i : Inquiry)
    (v : RemoteValidator) : Inquiry :=
  let request := v.request ticket.value ticket.snapshot
  let attempts := Attempts.send policy transport i.requests.length request
  { failures := match v.failureOf ticket.value attempts.result with
      | some detail => i.failures.insert v.name detail
      | none => i.failures
    requests := i.requests ++ List.replicate attempts.count request
    events := i.events ++ attempts.events }

def run [Dialect] (policy : RetryPolicy) (transport : Transport) (ticket : Ticket) : Inquiry :=
  ticket.validators.foldl (ask policy transport ticket) ⟨[], [], []⟩

def outcome (i : Inquiry) : Option Failures :=
  if i.failures.isEmpty then none else some i.failures

end Inquiry

end Formwork
