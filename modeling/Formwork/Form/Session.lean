import Formwork.Form

/-! A form in use: the tickets that it has issued, and commands that refer to them by number. -/

namespace Formwork

structure Session where
  form : Form
  /-- All tickets in order of issue. -/
  tickets : List Ticket
  /-- What the latest inquiry found. -/
  outcome : Option Failures

inductive Command where
  | setValue (path : ControlPath) (value : Json)
  | setDefault (path : ControlPath) (value : Json)
  | applyOptions (path : ControlPath) (options : List SelectOption)
  | validate (path : ControlPath)
  | touch (path : ControlPath)
  | settle (ticket : Nat) (outcome : Option Failures)

inductive CommandError where
  | form (error : FormError)
  | noTicket

inductive Answer where
  | done
  | issued (index : Nat) (ticket : Ticket)
  | settled (settlement : Settlement)

namespace Session

variable [Dialect]

def start (form : Form) : Session := ⟨form, [], none⟩

structure Reply where
  session : Session
  events : List Event
  answer : Answer

def ticket (s : Session) (index : Nat) : Except CommandError Ticket :=
  match s.tickets[index]? with
  | some t => .ok t
  | none => .error .noTicket

def withForm (s : Session) (form : Form) : Session := { s with form := form }

/-- Takes up a reply of the form, and keeps the ticket if one was issued. -/
def take (s : Session) : Except FormError (Form.Reply (Option Ticket)) → Except CommandError Reply
  | .error e => .error (.form e)
  | .ok ⟨form, events, none⟩ => .ok ⟨s.withForm form, events, .done⟩
  | .ok ⟨form, events, some t⟩ =>
    .ok ⟨{ s with form := form, tickets := s.tickets ++ [t] }, events,
      .issued s.tickets.length t⟩

def perform (s : Session) : Command → Except CommandError Reply
  | .setValue path value => s.take (s.form.setValue path value)
  | .setDefault path value => s.take (s.form.setDefault path value)
  | .applyOptions path options => s.take (s.form.applyOptions path options)
  | .validate path => s.take (s.form.validate path)
  | .touch path =>
    match s.form.touch path with
    | .error e => .error (.form e)
    | .ok ⟨form, events, _⟩ => .ok ⟨s.withForm form, events, .done⟩
  | .settle index outcome => do
    let t ← s.ticket index
    match s.form.settle t outcome with
    | .error e => .error (.form e)
    | .ok ⟨form, events, settlement⟩ => .ok ⟨s.withForm form, events, .settled settlement⟩

def inquire (s : Session) (index : Nat) (policy : RetryPolicy) (transport : Transport) :
    Except CommandError (Session × Inquiry) := do
  let t ← s.ticket index
  let inquiry := Inquiry.run policy transport t
  .ok ({ s with outcome := inquiry.outcome }, inquiry)

end Session

end Formwork
