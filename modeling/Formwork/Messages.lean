import Formwork.Json.Loose
import Formwork.Text.Ranges

/-! Failure messages, kept in the order in which their keys were first registered. -/

namespace Formwork

/-- The failures of a control: the detail of each, in ascending order of keys. -/
abbrev Failures := Keyed Json

/-- What makes texts of failures, in the order in which the keys were first registered. -/
abbrev Registry (P : Type) := Keyed P

namespace Registry

variable {P : Type}

/-- A new key goes last, and a known one keeps its place. -/
def register (key : String) (producer : P) (r : Registry P) : Registry P := r.put key producer

def registerAll (calls : List (String × P)) (r : Registry P) : Registry P :=
  calls.foldl (fun r c => r.register c.1 c.2) r

/-- The text of the earliest registered key among the failures, and nothing if there is none. -/
def resolve (text : P → Json → String) (r : Registry P) : Option Failures → String
  | none => ""
  | some failures =>
    (r.findSome? fun (key, producer) => (failures.get? key).map (text producer)).getD ""

end Registry

inductive Message where
  | fixed (text : String)
  | withField (lead : String) (field : String)
deriving DecidableEq, Repr

def Message.text : Message → Json → String
  | fixed text, _ => text
  | withField lead field, detail => lead ++ ((detail.member? field).getD .null).looseText

abbrev Messages := Registry Message

namespace Messages

def builtins : Messages :=
  [("required", .fixed "The field can not be empty"),
    ("requiredTrue", .fixed "The field can not be empty"),
    ("email", .fixed "Invalid email format"),
    ("min", .withField "Value should be greater than " "min"),
    ("max", .withField "Value should be smaller than " "max"),
    ("minLength", .withField "Value length should be greater than " "requiredLength"),
    ("maxLength", .withField "Value length should be smaller than " "requiredLength"),
    ("pattern", .withField "Value does not match pattern " "requiredPattern"),
    ("IBAN", .fixed "Invalid IBAN")]

def register (key text : String) (m : Messages) : Messages := Registry.register key (.fixed text) m

def registerAll (entries : List (String × String)) (m : Messages) : Messages :=
  Registry.registerAll (entries.map fun e => (e.1, .fixed e.2)) m

/-- Registers the message of a named rule, which has a general one if it brings none. -/
def registerRule (name : String) (text : Option String) (m : Messages) : Messages :=
  m.register name (text.getD ("Validation '" ++ name ++ "' failed"))

def resolve (m : Messages) : Option Failures → String := Registry.resolve Message.text m

/-- Characters that show nothing by themselves: controls, white space other than the space, formats,
marks on the character before, and those of private use. -/
def unshown : Text.Ranges :=
  [(0x00, 0x1F), (0x7F, 0xA0), (0xAD, 0xAD), (0x300, 0x36F), (0x483, 0x489), (0x61C, 0x61C),
    (0x1680, 0x1680), (0x180B, 0x180F), (0x2000, 0x200F), (0x2028, 0x202F), (0x205F, 0x206F),
    (0x20D0, 0x20F0), (0x3000, 0x3000), (0x302A, 0x302F), (0x3099, 0x309A), (0xE000, 0xF8FF),
    (0xFE00, 0xFE0F), (0xFE20, 0xFE2F), (0xFEFF, 0xFEFF), (0xFFF0, 0xFFFB), (0xFFFE, 0xFFFF),
    (0xE0000, 0x10FFFF)]

def describeChar (c : Char) : List Char :=
  if c = '"' then ['\\', '"']
  else if c = '\\' then ['\\', '\\']
  else if c = '\n' then ['\\', 'n']
  else if c = '\r' then ['\\', 'r']
  else if c = '\t' then ['\\', 't']
  else if c.toNat = 0 then ['\\', '0']
  else if unshown.contains c then ['\\', 'u', '\x7b'] ++ Nat.toDigits 16 c.toNat ++ ['\x7d']
  else [c]

def describeKey (key : String) : String :=
  "\"" ++ String.ofList (key.toList.flatMap describeChar) ++ "\""

def describe (m : Messages) : String :=
  "MessageRegistry \x7b keys: [" ++ ", ".intercalate (m.keys.map describeKey) ++ "] \x7d"

end Messages

end Formwork
