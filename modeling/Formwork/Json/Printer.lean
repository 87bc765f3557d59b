import Formwork.Binary64.Text
import Formwork.Json

/-! The compact text of a JSON document: no spaces, members in written order. -/

namespace Formwork.Json

/-- Doubles are positional from `1e-5` up to below `1e16` and always show a point or an exponent. -/
def numberStyle : Binary64.Style := ⟨.toEven, some (-5, 15), true⟩

def escape (c : Char) : List Char :=
  if c = '"' then ['\\', '"']
  else if c = '\\' then ['\\', '\\']
  else if c = '\n' then ['\\', 'n']
  else if c = '\r' then ['\\', 'r']
  else if c = '\t' then ['\\', 't']
  else if c.toNat = 8 then ['\\', 'b']
  else if c.toNat = 12 then ['\\', 'f']
  else if c.toNat < 32 then ['\\', 'u', '0', '0', Nat.digitChar (c.toNat / 16), Nat.digitChar (c.toNat % 16)]
  else [c]

def quoted (s : String) : String :=
  "\"" ++ String.ofList (s.toList.flatMap escape) ++ "\""

mutual
def render : Json → String
  | .null => "null"
  | .bool true => "true"
  | .bool false => "false"
  | .int i => Text.intText i
  | .double x => Binary64.render numberStyle x
  | .string s => quoted s
  | .array items => "[" ++ ",".intercalate (renderItems items) ++ "]"
  | .object members => "\x7b" ++ ",".intercalate (renderMembers members) ++ "\x7d"
def renderItems : List Json → List String
  | [] => []
  | x :: xs => render x :: renderItems xs
def renderMembers : List (String × Json) → List String
  | [] => []
  | (k, x) :: ms => (quoted k ++ ":" ++ render x) :: renderMembers ms
end

end Formwork.Json
