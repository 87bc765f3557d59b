import Formwork.Dialect
import Formwork.Json.Record
import Formwork.Messages
import Formwork.Schema.Error
import Formwork.Schema.Rule
import Formwork.Validation.Email
import Formwork.Validation.Iban

/-! The checks that need no expression. All but the two that require a value pass what is empty. -/

namespace Formwork

inductive Check where
  | required
  | requiredTrue
  | email
  | min (bound : Binary64)
  | max (bound : Binary64)
  | minLength (bound : Nat)
  | maxLength (bound : Nat)
  | pattern (source : String) (matcher : String → Bool)
  | iban

namespace Check

def key : Check → String
  | required => "required"
  | requiredTrue => "requiredTrue"
  | email => "email"
  | min _ => "min"
  | max _ => "max"
  | minLength _ => "minLength"
  | maxLength _ => "maxLength"
  | pattern _ _ => "pattern"
  | iban => "IBAN"

def isEmpty : Json → Bool
  | .null => true
  | .string s => s = ""
  | .array items => items.isEmpty
  | _ => false

/-- The characters of a text or the elements of an array; nothing else has a length. -/
def length? : Json → Option Nat
  | .string s => some s.length
  | .array items => some items.length
  | _ => none

/-- The pattern tied to the start and the end of the text, unless it is so already. -/
def anchored (source : String) : String :=
  (if source.toList.head? = some '^' then "" else "^") ++ source ++
    (if source.toList.getLast? = some '$' then "" else "$")

def failIf (condition : Bool) (detail : Json) : Option Json :=
  if condition then some detail else none

def failure? (check : Check) (value : Json) : Option Json :=
  match check with
  | required => failIf (isEmpty value) (.bool true)
  | requiredTrue => failIf (value ≠ .bool true) (.bool true)
  | check =>
    if isEmpty value then none
    else match check with
    | min bound =>
      value.looseNumber?.bind fun x =>
        failIf (x.lt bound) (.object [("min", .double bound), ("actual", value)])
    | max bound =>
      value.looseNumber?.bind fun x =>
        failIf (bound.lt x) (.object [("max", .double bound), ("actual", value)])
    | minLength bound =>
      (length? value).bind fun n =>
        failIf (n < bound) (.object [("requiredLength", .int bound), ("actualLength", .int n)])
    | maxLength bound =>
      (length? value).bind fun n =>
        failIf (bound < n) (.object [("requiredLength", .int bound), ("actualLength", .int n)])
    | pattern source matcher =>
      failIf (!matcher value.looseText)
        (.object [("requiredPattern", .string source), ("actualValue", value)])
    | email => failIf (!Email.isEmail value.looseText) (.bool true)
    | iban => failIf (!Iban.isIban value.looseText) (.bool true)
    | required => none
    | requiredTrue => none

theorem failIf_unless_empty_eq_none_iff {value detail : Json} {ok : Bool} :
    (if isEmpty value = true then none else failIf (!ok) detail) = none ↔ isEmpty value = true ∨ ok = true := by
  cases isEmpty value <;> cases ok <;> simp [failIf]

def numberOf (rule : LocalRule) : Except SchemaError Binary64 :=
  match rule.value.bind Json.looseNumber? with
  | some x => .ok x
  | none => .error (.invalidRule rule.kind .numberNeeded)

def lengthOf (rule : LocalRule) : Except SchemaError Nat :=
  match rule.value.bind Json.word? with
  | some n => .ok n
  | none => .error (.invalidRule rule.kind .lengthNeeded)

def patternOf [Dialect] (rule : LocalRule) : Except SchemaError Check :=
  match rule.value.bind Json.asString? with
  | none => .error (.invalidRule rule.kind .patternNeeded)
  | some source =>
    match Dialect.matcher? (anchored source) with
    | some matcher => .ok (pattern (anchored source) matcher)
    | none => .error (.invalidRule rule.kind .malformedPattern)

def ofRule [Dialect] (rule : LocalRule) : Except SchemaError Check :=
  match rule.kind with
  | "required" => .ok required
  | "requiredTrue" => .ok requiredTrue
  | "email" => .ok email
  | "min" => (numberOf rule).map min
  | "max" => (numberOf rule).map max
  | "minLength" => (lengthOf rule).map minLength
  | "maxLength" => (lengthOf rule).map maxLength
  | "pattern" => patternOf rule
  | "IBAN" => .ok iban
  | kind => .error (.unknownRule kind)

end Check

end Formwork
