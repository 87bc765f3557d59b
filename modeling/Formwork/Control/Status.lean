/-! The validation status of a control. -/

namespace Formwork

inductive Status where
  | valid
  | invalid
  | pending
deriving DecidableEq, Repr, Inhabited

namespace Status

def label : Status → String
  | valid => "VALID"
  | invalid => "INVALID"
  | pending => "PENDING"

def ofLabel? : String → Option Status
  | "VALID" => some valid
  | "INVALID" => some invalid
  | "PENDING" => some pending
  | _ => none

/-- The status of two controls together: invalid wins over pending, and pending over valid. -/
def join : Status → Status → Status
  | invalid, _ => invalid
  | _, invalid => invalid
  | pending, _ => pending
  | _, pending => pending
  | valid, valid => valid

def aggregate (statuses : List Status) : Status := statuses.foldl join valid

theorem ofLabel?_label (s : Status) : ofLabel? s.label = some s := by
  cases s <;> rfl

theorem join_eq_invalid {a b : Status} : join a b = invalid ↔ a = invalid ∨ b = invalid := by
  cases a <;> cases b <;> simp [join]

theorem join_eq_valid {a b : Status} : join a b = valid ↔ a = valid ∧ b = valid := by
  cases a <;> cases b <;> simp [join]

end Status

end Formwork
