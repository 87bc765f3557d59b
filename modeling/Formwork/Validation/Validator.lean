import Formwork.Expression.Evaluation
import Formwork.Validation.Check

/-! The validators of a control, and how they are made from the rules of a schema. -/

namespace Formwork

inductive LocalValidator where
  | check (check : Check)
  | custom (name : String) (expression : Expression)

inductive RemoteValidator where
  | custom (name : String) (url : String) (expression : Expression)
  | external (name : String) (url : String)

namespace LocalValidator

def key : LocalValidator → String
  | check c => c.key
  | custom name _ => name

def isPresent : Json → Bool
  | .null => false
  | .string s => s ≠ ""
  | _ => true

/-- The detail of a failure, if the value fails. An expression is evaluated with the value both in
place of the placeholder and as the document that paths lead into. -/
def failure? [Dialect] (v : LocalValidator) (value : Json) : Option Json :=
  match v with
  | check c => c.failure? value
  | custom _ e =>
    if isPresent value && e.holdsWith value value then none else some (.object [("value", value)])

def failures? [Dialect] (v : LocalValidator) (value : Json) : Option Failures :=
  (v.failure? value).map fun detail => [(v.key, detail)]

/-- One more validator's failure; of two under one key the later stays. -/
def addFailure [Dialect] (value : Json) (failures : Failures) (v : LocalValidator) : Failures :=
  match v.failure? value with
  | some detail => failures.insert v.key detail
  | none => failures

def runAll [Dialect] (validators : List LocalValidator) (value : Json) : Option Failures :=
  match validators.foldl (addFailure value) [] with
  | [] => none
  | failures => some failures

theorem foldl_addFailure_eq_nil [Dialect] {value : Json} {validators : List LocalValidator}
    {failures : Failures} :
    validators.foldl (addFailure value) failures = [] ↔
      failures = [] ∧ ∀ v ∈ validators, v.failure? value = none := by
  induction validators generalizing failures with
  | nil => simp
  | cons v validators ih =>
    have hv : addFailure value failures v = [] ↔ failures = [] ∧ v.failure? value = none := by
      cases hf : v.failure? value <;> simp [addFailure, hf, Keyed.insert_ne_nil]
    rw [List.foldl_cons, ih, hv, List.forall_mem_cons, and_assoc]

theorem runAll_eq_none_iff [Dialect] {validators : List LocalValidator} {value : Json} :
    runAll validators value = none ↔ ∀ v ∈ validators, v.failure? value = none := by
  have hrun : runAll validators value = none ↔ validators.foldl (addFailure value) [] = [] := by
    cases h : validators.foldl (addFailure value) [] <;> simp [runAll, h]
  rw [hrun, foldl_addFailure_eq_nil]
  simp

end LocalValidator

def RemoteValidator.name : RemoteValidator → String
  | custom name _ _ => name
  | external name _ => name

def ruleExpression (name : String) : Option Json → Except SchemaError Expression
  | none => .error (.invalidRule "custom" (.expressionNeeded name))
  | some v =>
    match Expression.ofJson v with
    | .ok e => .ok e
    | .error source => .error (.expression name source)

/-- A validator and the messages with that of the rule among them, if the rule has a name. -/
def LocalValidator.ofRule [Dialect] (messages : Messages) (rule : LocalRule) :
    Except SchemaError (LocalValidator × Messages) :=
  if rule.kind = "custom" then
    match rule.name with
    | none => .error (.invalidRule rule.kind .nameNeeded)
    | some name => do
      let e ← ruleExpression name rule.value
      .ok (custom name e, messages.registerRule name rule.message)
  else (Check.ofRule rule).map fun c => (check c, messages)

def LocalValidator.ofRules [Dialect] (messages : Messages) :
    List LocalRule → Except SchemaError (List LocalValidator × Messages)
  | [] => .ok ([], messages)
  | rule :: rules => do
    let (v, messages) ← ofRule messages rule
    let (vs, messages) ← ofRules messages rules
    .ok (v :: vs, messages)

def RemoteValidator.ofRule (messages : Messages) (rule : RemoteRule) :
    Except SchemaError (RemoteValidator × Messages) := do
  let v ← match rule.kind with
    | .custom => (ruleExpression rule.name rule.value).map (custom rule.name rule.url)
    | .external => .ok (external rule.name rule.url)
  .ok (v, messages.registerRule rule.name rule.message)

def RemoteValidator.ofRules (messages : Messages) :
    List RemoteRule → Except SchemaError (List RemoteValidator × Messages)
  | [] => .ok ([], messages)
  | rule :: rules => do
    let (v, messages) ← ofRule messages rule
    let (vs, messages) ← ofRules messages rules
    .ok (v :: vs, messages)

end Formwork
