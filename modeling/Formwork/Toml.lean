import Formwork.Keyed
import Formwork.Text.Numeral

/-! Values of a TOML document, and how fields are taken from them. -/

namespace Formwork

/-- A value. Floats and moments in time are kept as they are written. -/
inductive Toml where
  | string (s : String)
  | integer (i : Int)
  | float (written : String)
  | moment (written : String)
  | boolean (b : Bool)
  | array (items : List Toml)
  | table (entries : List (String × Toml))

namespace Toml

/-- The fields of a record, written as a table without other keys, or as an array with the values in
the order of the fields. Items past the last field are ignored. -/
def record? (fields : List String) : Toml → Option (Keyed Toml)
  | table entries => if entries.all (fun e => e.1 ∈ fields) then some entries else none
  | array items => some (fields.zip items)
  | _ => none

def string? : Toml → Option String
  | string s => some s
  | _ => none

def boolean? : Toml → Option Bool
  | boolean b => some b
  | _ => none

def integer? : Toml → Option Int
  | integer i => some i
  | _ => none

def natural? (limit : Nat) (v : Toml) : Option Nat := v.integer?.bind (Text.natBelow? limit)

def items? (read : Toml → Option α) : Toml → Option (List α)
  | array items => items.mapM read
  | _ => none

def isHollow : Toml → Bool
  | array items => items.isEmpty
  | table entries => entries.isEmpty
  | _ => false

/-- One of several names, written as a text or as a table with a single entry that holds nothing. -/
def choice? (ofName : String → Option α) : Toml → Option α
  | string s => ofName s
  | table [(s, v)] => if v.isHollow then ofName s else none
  | _ => none

end Toml

end Formwork
