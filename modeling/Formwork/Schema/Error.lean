import Formwork.Control.Path
import Formwork.Expression.Codec

/-! What can be wrong with a form schema. -/

namespace Formwork

inductive RuleFault where
  | numberNeeded
  | lengthNeeded
  | patternNeeded
  | malformedPattern
  | nameNeeded
  | expressionNeeded (name : String)
deriving DecidableEq, Repr

inductive SchemaError where
  | rootNotObject
  | layoutContent (path : ControlPath)
  | payloadNotObject (path : ControlPath) (key : String)
  | malformedPayload (path : ControlPath) (key : String)
  | unknownRule (kind : String)
  | invalidRule (kind : String) (fault : RuleFault)
  | expression (name : String) (source : ExpressionError)
deriving DecidableEq

namespace SchemaError

/-- The reason in words, except for what is wrong inside a pattern. -/
def reason? : RuleFault → Option String
  | .numberNeeded => some "value must be a number"
  | .lengthNeeded => some "value must be a non-negative integer"
  | .patternNeeded => some "value must be a string pattern"
  | .malformedPattern => none
  | .nameNeeded => some "custom rule requires a name"
  | .expressionNeeded name => some ("rule `" ++ name ++ "` requires an expression value")

def leafLead (path : ControlPath) (key : String) : String :=
  "invalid control `" ++ key ++ "` under `" ++ path.text ++ "`"

def message : SchemaError → String
  | rootNotObject => "schema root must be an object"
  | layoutContent path => "layout under `" ++ path.text ++ "` must carry object content"
  | payloadNotObject path key => leafLead path key ++ ": control payload must be an object"
  | malformedPayload path key => leafLead path key
  | unknownRule kind => "unknown sync validation type `" ++ kind ++ "`"
  | invalidRule kind fault =>
    "invalid `" ++ kind ++ "` rule" ++
      match reason? fault with
      | some reason => ": " ++ reason
      | none => ""
  | expression name source => "invalid expression in rule `" ++ name ++ "`: " ++ source.message

end SchemaError

end Formwork
