import Formwork.Control.Status
import Formwork.Validation.Validator

/-! A control that holds a value. -/

namespace Formwork

structure Leaf where
  value : Json
  dirty : Bool
  touched : Bool
  status : Status
  failures : Option Failures
  locals : List LocalValidator
  remotes : List RemoteValidator
  /-- Counts the changes of the value and the validations asked for. The count has no bound: it
  does not go back to zero after 2^64 of them. -/
  generation : Nat

namespace Leaf

def fresh (locals : List LocalValidator) (remotes : List RemoteValidator) : Leaf where
  value := .null
  dirty := false
  touched := false
  status := .valid
  failures := none
  locals := locals
  remotes := remotes
  generation := 0

def statusOf (failures : Option Failures) : Status :=
  if failures.isSome then .invalid else .valid

theorem statusOf_eq_invalid {failures : Option Failures} :
    statusOf failures = .invalid ↔ failures.isSome = true := by
  cases failures <;> simp [statusOf]

theorem statusOf_ne_pending (failures : Option Failures) : statusOf failures ≠ .pending := by
  cases failures <;> simp [statusOf]

def settled (failures : Option Failures) (l : Leaf) : Leaf :=
  { l with failures := failures, status := statusOf failures }

def checked [Dialect] (l : Leaf) : Leaf := l.settled (LocalValidator.runAll l.locals l.value)

def hasRemotes (l : Leaf) : Bool := !l.remotes.isEmpty

def failureKeys (l : Leaf) : List String := (l.failures.map Keyed.keys).getD []

end Leaf

end Formwork
