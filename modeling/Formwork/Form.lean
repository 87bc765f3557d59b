import Formwork.Form.Growth
import Formwork.Validation.Remote

/-! Forms: their controls, their messages, and what can be done with them. -/

namespace Formwork

structure Form where
  store : Store
  messages : Messages
  sources : List (ControlPath × OptionSource)

structure Form.Reply (α : Type) where
  form : Form
  events : List Event
  result : α

inductive Settlement where
  | applied (status : Status)
  | stale
deriving DecidableEq, Repr

namespace Form

variable [Dialect]

def ofGrowth (g : Growth) : Form := ⟨g.store, g.messages, g.sources⟩

def build (schema : Json) (messages : Messages) : Except Growth.Failure Form :=
  (Growth.ofSchema messages schema).map ofGrowth

def leaf (f : Form) (path : ControlPath) : Except FormError Leaf :=
  match f.store.leaf? path with
  | some l => .ok l
  | none => .error (.notAControl path)

def setLeaf (f : Form) (path : ControlPath) (l : Leaf) : Form :=
  { f with store := f.store.setLeaf path l }

def value (f : Form) : Json := f.store.root.value

def status (f : Form) : Status := f.store.root.status

def settledEvent (path : ControlPath) (l : Leaf) : Event :=
  .validationSettled path l.status l.failureKeys

/-- Puts a leaf in place after its local validators have run. If they pass and there are remote
ones, the leaf is pending and a ticket is issued. -/
def revalidate (f : Form) (path : ControlPath) (l : Leaf) : Reply (Option Ticket) :=
  let checked := l.checked
  if checked.failures.isSome || !checked.hasRemotes then
    ⟨f.setLeaf path checked, [settledEvent path checked], none⟩
  else
    let pending := { checked with status := .pending }
    let form := f.setLeaf path pending
    ⟨form, [], some ⟨path, pending.generation, pending.value, pending.remotes,
      form.store.snapshot.toJson⟩⟩

def setValue (f : Form) (path : ControlPath) (value : Json) :
    Except FormError (Reply (Option Ticket)) := do
  let l ← f.leaf path
  let changed := { l with value := value, dirty := true, generation := l.generation + 1 }
  let reply := f.revalidate path changed
  .ok { reply with events := .valueChanged path changed.generation :: reply.events }

/-- Changes the value without making the leaf dirty. -/
def setDefault (f : Form) (path : ControlPath) (value : Json) :
    Except FormError (Reply (Option Ticket)) := do
  let l ← f.leaf path
  .ok (f.revalidate path { l with value := value, generation := l.generation + 1 })

def validate (f : Form) (path : ControlPath) : Except FormError (Reply (Option Ticket)) := do
  let l ← f.leaf path
  .ok (f.revalidate path { l with generation := l.generation + 1 })

def touch (f : Form) (path : ControlPath) : Except FormError (Reply Unit) := do
  let l ← f.leaf path
  .ok ⟨f.setLeaf path { l with touched := true }, [], ()⟩

/-- Takes the first of the fetched options as the value. -/
def applyOptions (f : Form) (path : ControlPath) (options : List SelectOption) :
    Except FormError (Reply (Option Ticket)) :=
  match options with
  | first :: _ => f.setDefault path first.value
  | [] => do
    let _ ← f.leaf path
    .ok ⟨f, [], none⟩

def settle (f : Form) (ticket : Ticket) (outcome : Option Failures) :
    Except FormError (Reply Settlement) := do
  let l ← f.leaf ticket.path
  if l.generation = ticket.generation then
    let l := l.settled outcome
    .ok ⟨f.setLeaf ticket.path l, [settledEvent ticket.path l], .applied l.status⟩
  else
    .ok ⟨f, [.staleResultDiscarded ticket.path ticket.generation l.generation], .stale⟩

def validateFully (f : Form) (path : ControlPath) (policy : RetryPolicy) (transport : Transport) :
    Except FormError (Reply (Settlement × List Request)) := do
  let first ← f.validate path
  match first.result with
  | none =>
    let l ← first.form.leaf path
    .ok ⟨first.form, first.events, .applied l.status, []⟩
  | some ticket =>
    let inquiry := Inquiry.run policy transport ticket
    let last ← first.form.settle ticket inquiry.outcome
    .ok ⟨last.form, first.events ++ inquiry.events ++ last.events, last.result, inquiry.requests⟩

def errorMessage (f : Form) (path : ControlPath) : Except FormError String := do
  let l ← f.leaf path
  .ok (f.messages.resolve l.failures)

def register (f : Form) (key text : String) : Form :=
  { f with messages := f.messages.register key text }

end Form

end Formwork
